import Switchboard.Intake
import Switchboard.Projection
import Switchboard.Ring

/-!
# The projection feed

It follows the bus and applies what the filesystem source tells to the projection; what panes
tell is none of its business. When filesystem history is lost to it, everything has to be told
again.
-/
namespace Switchboard

structure Feed where
  projection : Projection
  cursor : Cursor
  next : Nat
  /-- Filesystem history was lost, and nobody was asked yet to tell it again. -/
  wantsResync : Bool
  deriving DecidableEq

namespace Feed

def create (changeCapacity : Nat) : Feed := ⟨.create changeCapacity, .start, 0, false⟩

def accept (f : Feed) (e : Envelope) : Feed :=
  if !e.source.isFilesystem then f
  else
    let (cursor, isNew) := f.cursor.advance e
    if isNew then { f with projection := (f.projection.apply e).1, cursor } else f

def recordLoss (f : Feed) : Option DeliveryGap → Feed
  | none => f
  | some gap => { f with wantsResync := f.wantsResync || gap.source.isFilesystem }

def acceptRecovery (f : Feed) (r : Recovery) : Feed := (r.events.foldl accept f).recordLoss r.lost

def recover (f : Feed) (histories : List ReplayBuffer) : Feed :=
  (backfill histories f.cursor).foldl acceptRecovery f

def receive (histories : List ReplayBuffer) (f : Feed) : Ring.Received Envelope → Feed
  | .empty => f
  | .message e => f.accept e
  | .lagged _ => f.recover histories

def drain (f : Feed) (bus : Ring Envelope) (histories : List ReplayBuffer) : Feed :=
  { (bus.outstanding f.next).foldl (receive histories) f with next := max f.next bus.sent }

end Feed

end Switchboard
