/-!
# The broadcast ring

All receivers read the same ring of the newest messages. The ring counts what was ever sent; a
receiver is the number of the next message it wants. A receiver that is overtaken learns how
many messages it missed and goes on with the oldest one there is.
-/
namespace Switchboard

structure Ring (α : Type) where
  capacity : Nat
  sent : Nat
  kept : List α
  deriving DecidableEq

namespace Ring

variable {α : Type}

def roundUp : Nat → Nat → Nat → Nat
  | 0, p, _ => p
  | fuel + 1, p, n => if n ≤ p then p else roundUp fuel (2 * p) n

def sizeFor (n : Nat) : Nat := roundUp 64 1 n

def create (capacity : Nat) : Ring α := ⟨sizeFor capacity, 0, []⟩

def send (r : Ring α) (a : α) : Ring α :=
  let kept := r.kept ++ [a]
  { r with sent := r.sent + 1, kept := kept.drop (kept.length - r.capacity) }

theorem sent_send (r : Ring α) (a : α) : (r.send a).sent = r.sent + 1 := rfl

theorem length_kept_send_le (r : Ring α) (a : α) : (r.send a).kept.length ≤ r.capacity := by
  simp only [send, List.length_drop]
  omega

def oldest (r : Ring α) : Nat := r.sent - r.kept.length

inductive Received (α : Type) where
  | empty
  | message (a : α)
  | lagged (missed : Nat)
  deriving DecidableEq

def receive (r : Ring α) (next : Nat) : Received α × Nat :=
  if r.sent ≤ next then (.empty, next)
  else if next < r.oldest then (.lagged (r.oldest - next), r.oldest)
  else
    match r.kept[next - r.oldest]? with
    | none => (.empty, next)
    | some a => (.message a, next + 1)

/-- All that a receiver at `next` gets until there is nothing more for it. -/
def outstanding (r : Ring α) (next : Nat) : List (Received α) :=
  if r.sent ≤ next then []
  else if next < r.oldest then .lagged (r.oldest - next) :: r.kept.map .message
  else (r.kept.drop (next - r.oldest)).map .message

end Ring

end Switchboard
