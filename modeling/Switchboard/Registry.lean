import Switchboard.Pane.Stream
import Switchboard.Table

/-!
# The registry of panes

At most one run of a pane is registered under an id. A run that is taken out is the same run
wherever it is held: registered again it goes on as it is by now. The registry remembers the last
epoch of every id, so a pane that is opened again goes on with a fresh one. A pane that ended by
a command is closed before the answer is given.
-/
namespace Switchboard

inductive RegistryError where
  | alreadyRegistered (pane : PaneId)
  | notRegistered (pane : PaneId)
  deriving DecidableEq

def RegistryError.message : RegistryError → String
  | .alreadyRegistered pane => "pane " ++ pane.name ++ " is already registered"
  | .notRegistered pane => "pane " ++ pane.name ++ " is not registered"

/-- Which run of a pane, of all that a registry has seen. -/
structure RunId where
  index : Nat
  deriving DecidableEq

structure Registry where
  shutdownTimeout : Nat
  /-- Every run so far. One that was taken out stays, for those who still hold on to it. -/
  runs : List LivePane
  panes : Table PaneId RunId
  lastEpochs : Table PaneId Nat

structure Registered (α : Type) where
  registry : Registry
  told : List Envelope
  result : α

namespace Registry

def create (shutdownTimeout : Nat) : Registry := ⟨shutdownTimeout, [], [], []⟩

def run? (r : Registry) (run : RunId) : Option LivePane := r.runs[run.index]?

def find? (r : Registry) (pane : PaneId) : Option RunId := Table.get? r.panes pane

def lookup? (r : Registry) (pane : PaneId) : Option LivePane := (r.find? pane).bind r.run?

def contains (r : Registry) (pane : PaneId) : Bool := (r.find? pane).isSome

def ids (r : Registry) : List PaneId := Table.keys r.panes

def nextEpoch (r : Registry) (pane : PaneId) : Nat :=
  match Table.get? r.lastEpochs pane with
  | none => 0
  | some epoch => satSucc epoch

def update (r : Registry) (run : RunId) (l : LivePane) : Registry :=
  { r with runs := r.runs.set run.index l }

theorem run?_update {r : Registry} {run : RunId} {l l' : LivePane} (h : r.run? run = some l) :
    (r.update run l').run? run = some l' := by
  have hlt : run.index < r.runs.length := (List.getElem?_eq_some_iff.mp h).1
  simp [run?, update, hlt]

theorem run?_update_of_ne (r : Registry) {run other : RunId} (l : LivePane) (h : run ≠ other) :
    (r.update run l).run? other = r.run? other := by
  have hne : run.index ≠ other.index := fun e => h (by cases run; cases other; cases e; rfl)
  simp [run?, update, List.getElem?_set_ne hne]

def histories (r : Registry) : List ReplayBuffer :=
  r.panes.filterMap fun (_, run) => (r.run? run).map (·.pane.replay)

def settle (r : Registry) : Registry := { r with runs := r.runs.map LivePane.settle }

def enter (r : Registry) (run : RunId) (l : LivePane) : Except RegistryError Registry :=
  let id := l.pane.id
  if r.contains id then .error (.alreadyRegistered id)
  else
    let last := (Table.get? r.lastEpochs id).getD l.pane.epoch
    .ok { r with
      panes := Table.set r.panes id run
      lastEpochs := Table.set r.lastEpochs id (max last l.pane.epoch) }

def register (r : Registry) (l : LivePane) : Except RegistryError Registry :=
  { r with runs := r.runs ++ [l] }.enter ⟨r.runs.length⟩ l

def reregister? (r : Registry) (run : RunId) : Option (Except RegistryError Registry) :=
  (r.run? run).map (r.enter run)

def unregister (r : Registry) (pane : PaneId) : Except RegistryError (Registry × RunId) :=
  match r.find? pane with
  | none => .error (.notRegistered pane)
  | some run => .ok ({ r with panes := Table.erase r.panes pane }, run)

def shutdown (r : Registry) (run : RunId) (now : Nat) : Registered (List ResourceId) :=
  match r.run? run with
  | none => ⟨r, [], []⟩
  | some l =>
    let (l, told, ids) := l.shutdown now r.shutdownTimeout
    ⟨r.update run l, told, ids⟩

def close (r : Registry) (pane : PaneId) (now : Nat) :
    Registered (Except RegistryError (List ResourceId)) :=
  match r.unregister pane with
  | .error e => ⟨r, [], .error e⟩
  | .ok (r, run) =>
    let ended := r.shutdown run now
    ⟨ended.registry, ended.told, .ok ended.result⟩

def registered? (r : Registry) (pane : PaneId) : Option (RunId × LivePane) := do
  let run ← r.find? pane
  some (run, ← r.run? run)

def start (r : Registry) (pane : PaneId) (now : Nat) :
    Option (Registered (Except CommandError Unit)) :=
  (r.registered? pane).map fun (run, l) =>
    let o := l.pane.start now
    ⟨r.update run (l.afterwards o), o.told, o.result⟩

def handle (r : Registry) (command : CommandEnvelope) (now : Nat) :
    Registered (Except CommandError CommandAck) :=
  match r.registered? command.target with
  | none => ⟨r, [], .error (.unknownPane command.target)⟩
  | some (run, l) =>
    let o := l.pane.handle command now
    ⟨r.update run (l.afterwards o), o.told, o.result⟩

def leaves (r : Registry) (pane : PaneId) (result : Except CommandError CommandAck) : Bool :=
  match r.lookup? pane with
  | none => false
  | some l =>
    match result with
    | .error e => e.isFatal || l.pane.state.isTerminal
    | .ok _ => l.pane.state.isTerminal

def dispatch (r : Registry) (command : CommandEnvelope) (now : Nat) :
    Registered (Except CommandError CommandAck) :=
  let handled := r.handle command now
  if handled.registry.leaves command.target handled.result then
    let closed := handled.registry.close command.target now
    ⟨closed.registry, handled.told ++ closed.told, handled.result⟩
  else handled

def closeEach (r : Registry) (now : Nat) :
    List PaneId → Registered (List (PaneId × List ResourceId))
  | [] => ⟨r, [], []⟩
  | pane :: rest =>
    let closed := r.close pane now
    let others := closeEach closed.registry now rest
    let mine := match closed.result with
      | .ok ids => [(pane, ids)]
      | .error _ => []
    ⟨others.registry, closed.told ++ others.told, mine ++ others.result⟩

def closeAll (r : Registry) (now : Nat) : Registered (List (PaneId × List ResourceId)) :=
  r.closeEach now r.ids

end Registry

end Switchboard
