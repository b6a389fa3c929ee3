import Switchboard.Command
import Switchboard.Event

/-!
# What a backend answers

A backend turns a command into the events it causes. A command that does not apply leaves the
backend usable; a fatal error ends the pane. The backend afterwards is part of the answer in either
case, so whether a refused command left something behind is a matter of each backend. A scripted
backend answers from a script, whatever it is asked, and can be told to stop by itself after a
number of commands.
-/
namespace Switchboard

inductive BackendError where
  | invalid (reason : String)
  | fatal (reason : String)
  deriving DecidableEq

def BackendError.message : BackendError → String
  | .invalid reason => reason
  | .fatal reason => reason

/-- What is behind a request: the backend as it is then, and its answer. -/
abbrev Reaction (σ ε : Type) := σ × Except BackendError (List ε)

def BackendError.wrongDomain (kind : PaneKind) (command : Command) : BackendError :=
  .invalid (kind.name ++ " backend cannot apply " ++ command.kind.name)

abbrev Scripted.Answer := Except BackendError (List Event)

structure Scripted where
  kind : PaneKind
  onStart : Scripted.Answer
  onApply : List Scripted.Answer
  diesAfter : Option Nat
  resources : List ResourceId
  calls : Nat
  released : Bool

namespace Scripted

def start (s : Scripted) : Reaction Scripted Event := (s, s.onStart)

def apply (s : Scripted) : Reaction Scripted Event :=
  ({ s with calls := s.calls + 1 }, (s.onApply[s.calls]?).getD (.ok []))

def isAlive (s : Scripted) : Bool :=
  match s.diesAfter with
  | none => true
  | some n => s.calls < n

def shutdown (s : Scripted) : Scripted × List ResourceId :=
  ({ s with released := true }, if s.released then [] else s.resources)

end Scripted

end Switchboard
