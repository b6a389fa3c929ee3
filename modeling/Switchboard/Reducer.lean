import Switchboard.Replay
import Switchboard.Visibility

/-!
# The notification reducer

Envelopes are collected as they arrive and handed out in one batch a frame. A critical envelope
is kept; a lossy one takes the place of the pending one with the same key. A batch holds all
that is pending: visibility decides the order in it, and what is equally visible stays in the
order of arrival.
-/
namespace Switchboard

structure Notification where
  tier : Tier
  envelope : Envelope
  deriving DecidableEq

structure Batch where
  flushedAt : Nat
  notifications : List Notification
  coalesced : Nat
  gaps : List DeliveryGap
  deriving DecidableEq

def Batch.isEmpty (b : Batch) : Bool := b.notifications.isEmpty && b.gaps.isEmpty

structure ReducerStats where
  pushed : Nat
  delivered : Nat
  coalesced : Nat
  flushes : Nat
  gaps : Nat
  deriving DecidableEq

structure Pending where
  arrival : Nat
  envelope : Envelope
  deriving DecidableEq

structure Reducer where
  frame : Nat
  lastFlush : Nat
  nextArrival : Nat
  critical : List Pending
  lossy : Table String Pending
  coalesced : Nat
  gaps : List DeliveryGap
  resolver : Resolver
  stats : ReducerStats
  deriving DecidableEq

namespace Reducer

def create (frame now : Nat) : Reducer where
  frame := max frame 1
  lastFlush := now
  nextArrival := 0
  critical := []
  lossy := []
  coalesced := 0
  gaps := []
  resolver := .empty
  stats := ⟨0, 0, 0, 0, 0⟩

def pendingCount (r : Reducer) : Nat := r.critical.length + r.lossy.length

def hasPending (r : Reducer) : Bool := 0 < r.pendingCount || !r.gaps.isEmpty

def setFocus (r : Reducer) (focus : Focus) : Reducer :=
  { r with resolver := r.resolver.setFocus focus }

def bind (r : Reducer) (pane : PaneId) (worktree : WorktreeId) : Reducer :=
  { r with resolver := r.resolver.bind pane worktree }

def forget (r : Reducer) (pane : PaneId) : Reducer :=
  { r with resolver := r.resolver.forget pane }

def push (r : Reducer) (e : Envelope) : Reducer :=
  let pending : Pending := ⟨r.nextArrival, e⟩
  let r := { r with
    nextArrival := r.nextArrival + 1
    stats := { r.stats with pushed := r.stats.pushed + 1 } }
  match e.policy with
  | .critical => { r with critical := r.critical ++ [pending] }
  | .lossy key =>
    { r with
      lossy := r.lossy.set key pending
      coalesced := if r.lossy.contains key then r.coalesced + 1 else r.coalesced }

/-- A later gap of a source takes the place of an earlier one, behind the others. -/
def recordGap (r : Reducer) (gap : DeliveryGap) : Reducer :=
  { r with gaps := r.gaps.filter (·.source ≠ gap.source) ++ [gap] }

def nextFlushAt (r : Reducer) : Nat := satAdd r.lastFlush r.frame

def isDue (r : Reducer) (now : Nat) : Bool := r.hasPending && r.nextFlushAt ≤ now

/-- The order in a batch: the tier, then the arrival. -/
def sooner (a b : Tier × Pending) : Bool :=
  a.1.rank < b.1.rank || (a.1.rank == b.1.rank && a.2.arrival ≤ b.2.arrival)

def ranked (r : Reducer) : List (Tier × Pending) :=
  ((r.critical ++ r.lossy.map (·.2)).map fun p => (r.resolver.tier p.envelope, p)).mergeSort sooner

def batch (r : Reducer) (now : Nat) : Batch where
  flushedAt := now
  notifications := r.ranked.map fun (tier, p) => ⟨tier, p.envelope⟩
  coalesced := r.coalesced
  gaps := r.gaps

def flush (r : Reducer) (now : Nat) : Reducer × Batch :=
  let batch := r.batch now
  ({ r with
      lastFlush := now
      critical := []
      lossy := []
      coalesced := 0
      gaps := []
      stats := { r.stats with
        delivered := r.stats.delivered + batch.notifications.length
        coalesced := r.stats.coalesced + r.coalesced
        flushes := r.stats.flushes + 1
        gaps := r.stats.gaps + r.gaps.length } }, batch)

def poll (r : Reducer) (now : Nat) : Reducer × Option Batch :=
  if r.isDue now then
    let (r, batch) := r.flush now
    (r, some batch)
  else (r, none)

end Reducer

end Switchboard
