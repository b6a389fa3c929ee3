import Switchboard.Event
import Switchboard.Table

/-!
# Envelopes and cursors

An envelope carries one event with its source, its stamp, the worktree it concerns and the
command that caused it. Pending lossy envelopes with one key replace each other; the key is
plain text, so sources whose names hold slashes can meet in one key. A consumer remembers the
last stamp it saw of each source and lets only newer ones pass.
-/
namespace Switchboard

structure Envelope where
  source : Source
  worktree : Option WorktreeId
  stamp : Stamp
  command : Option CommandId
  correlation : Option CorrelationId
  timestamp : Nat
  event : Event
  deriving DecidableEq

inductive DeliveryPolicy where
  | critical
  | lossy (key : String)
  deriving DecidableEq

namespace Envelope

def epoch (e : Envelope) : Nat := e.stamp.epoch

def seq (e : Envelope) : Nat := e.stamp.seq

def lossyKey (source : Source) (worktree : Option WorktreeId) (value : LossyValue) : String :=
  match worktree with
  | some w => source.text ++ "/" ++ w.name ++ "/" ++ value.name
  | none => source.text ++ "/" ++ value.name

def policy (e : Envelope) : DeliveryPolicy :=
  match e.event.lossy? with
  | none => .critical
  | some value => .lossy (lossyKey e.source e.worktree value)

end Envelope

structure Cursor where
  seen : List (Source × Stamp)
  deriving DecidableEq

namespace Cursor

def start : Cursor := ⟨[]⟩

def last? (c : Cursor) (source : Source) : Option Stamp := Table.get? c.seen source

def isNew (c : Cursor) (e : Envelope) : Bool :=
  match c.last? e.source with
  | none => true
  | some stamp => stamp.before e.stamp

def forget (c : Cursor) (source : Source) : Cursor := ⟨c.seen.filter (·.1 ≠ source)⟩

def put (c : Cursor) (source : Source) (stamp : Stamp) : Cursor :=
  ⟨(source, stamp) :: (c.forget source).seen⟩

def advance (c : Cursor) (e : Envelope) : Cursor × Bool :=
  if c.isNew e then (c.put e.source e.stamp, true) else (c, false)

theorem last?_forget (c : Cursor) (source other : Source) :
    (c.forget source).last? other = if source = other then none else c.last? other :=
  Table.get?_erase c.seen source other

theorem last?_put (c : Cursor) (source other : Source) (stamp : Stamp) :
    (c.put source stamp).last? other = if source = other then some stamp else c.last? other := by
  have h : (c.put source stamp).last? other =
      if source = other then some stamp else (c.forget source).last? other := rfl
  rw [h, last?_forget]
  by_cases he : source = other <;> simp [he]

theorem isNew_advance_self (c : Cursor) (e : Envelope) : (c.advance e).1.isNew e = false := by
  simp only [advance]
  split
  · simp [isNew, last?_put, Stamp.before_irrefl]
  · next h => simpa using h

end Cursor

end Switchboard
