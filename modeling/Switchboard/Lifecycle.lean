/-!
# The life of a pane

A pane is created, becomes ready, drains and terminates. States may be skipped but never
repeated or taken back. A failure is a termination with a recorded cause.
-/
namespace Switchboard

inductive LifecycleState where
  | created
  | ready
  | draining
  | terminated
  deriving DecidableEq

namespace LifecycleState

def all : List LifecycleState := [.created, .ready, .draining, .terminated]

def rank : LifecycleState → Nat
  | .created => 0
  | .ready => 1
  | .draining => 2
  | .terminated => 3

def name : LifecycleState → String
  | .created => "created"
  | .ready => "ready"
  | .draining => "draining"
  | .terminated => "terminated"

def acceptsCommands (s : LifecycleState) : Bool := s == .ready

def isTerminal (s : LifecycleState) : Bool := s == .terminated

end LifecycleState

structure Transition where
  source : LifecycleState
  target : LifecycleState
  deriving DecidableEq

structure IllegalTransition where
  source : LifecycleState
  target : LifecycleState
  deriving DecidableEq

def IllegalTransition.message (e : IllegalTransition) : String :=
  "illegal lifecycle transition " ++ e.source.name ++ " -> " ++ e.target.name

structure Lifecycle where
  state : LifecycleState
  failure : Option String
  deriving DecidableEq

namespace Lifecycle

def created : Lifecycle := ⟨.created, none⟩

def isFailed (l : Lifecycle) : Bool := l.failure.isSome

def advance (l : Lifecycle) (target : LifecycleState) :
    Except IllegalTransition (Lifecycle × Transition) :=
  if target.rank ≤ l.state.rank then .error ⟨l.state, target⟩
  else .ok ({ l with state := target }, ⟨l.state, target⟩)

def markReady (l : Lifecycle) := l.advance .ready

def beginDrain (l : Lifecycle) := l.advance .draining

def terminate (l : Lifecycle) : Lifecycle × Option Transition :=
  if l.state.isTerminal then (l, none)
  else ({ l with state := .terminated }, some ⟨l.state, .terminated⟩)

/-- The first cause of failure stays. -/
def fail (l : Lifecycle) (reason : String) : Lifecycle × Option Transition :=
  if l.state.isTerminal then (l, none)
  else ({ state := .terminated, failure := some reason }, some ⟨l.state, .terminated⟩)

end Lifecycle

end Switchboard
