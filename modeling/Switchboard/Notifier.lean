import Switchboard.Intake
import Switchboard.Ring

/-!
# The notifier

It follows the bus and hands out one batch a frame. Envelopes that are on the bus come before
what it was told about focus and bindings, and that before the frame.
-/
namespace Switchboard

structure Notifier where
  intake : Intake
  next : Nat
  /-- What it was told and has not looked at yet. -/
  controls : List Control
  deriving DecidableEq

namespace Notifier

def create (frame : Nat) : Notifier := ⟨.create frame 0, 0, []⟩

def tell (n : Notifier) (c : Control) : Notifier := { n with controls := n.controls ++ [c] }

def receive (histories : List ReplayBuffer) (i : Intake) : Ring.Received Envelope → Intake
  | .empty => i
  | .message e => i.accept e
  | .lagged _ => i.recover histories

def drain (n : Notifier) (bus : Ring Envelope) (histories : List ReplayBuffer) : Notifier :=
  { n with
    intake := (bus.outstanding n.next).foldl (receive histories) n.intake
    next := max n.next bus.sent }

def catchUp (n : Notifier) (bus : Ring Envelope) (histories : List ReplayBuffer) : Notifier :=
  let n := n.drain bus histories
  { n with intake := n.controls.foldl Intake.control n.intake, controls := [] }

def tick (n : Notifier) (now : Nat) : Notifier × Option Batch :=
  let (reducer, batch) := n.intake.reducer.poll now
  ({ n with intake := { n.intake with reducer } }, batch)

def finish (n : Notifier) (now : Nat) : Notifier × Option Batch :=
  if n.intake.reducer.hasPending then
    let (reducer, batch) := n.intake.reducer.flush now
    ({ n with intake := { n.intake with reducer } }, some batch)
  else (n, none)

end Notifier

end Switchboard
