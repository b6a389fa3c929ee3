import Switchboard.Event
import Switchboard.Table

/-!
# Batching changes

The changed paths of a root are collected until the root was quiet for a while, but never for
longer than a fixed time after the first of them. A batch is cut into parts of bounded length.
The numbers of a root's parts go on for as long as the batcher lives.
-/
namespace Switchboard

structure BatchPolicy where
  debounce : Nat
  maxLatency : Nat
  maxPaths : Nat
  deriving DecidableEq

def BatchPolicy.standard : BatchPolicy := ⟨500, 2000, 256⟩

structure PendingBatch where
  paths : PathSet
  first : Nat
  last : Nat
  statusDirty : Bool
  deriving DecidableEq

namespace PendingBatch

def opened (now : Nat) : PendingBatch := ⟨[], now, now, false⟩

def deadline (b : PendingBatch) (policy : BatchPolicy) : Nat :=
  min (satAdd b.last policy.debounce) (satAdd b.first policy.maxLatency)

end PendingBatch

structure FlushedBatch where
  changesets : List Changeset
  statusDirty : Bool
  deriving DecidableEq

structure Batcher where
  policy : BatchPolicy
  pending : Table WorktreeId PendingBatch
  batchSeqs : Table WorktreeId Nat
  deriving DecidableEq

/-- Pieces of `n` items, the last one possibly shorter. -/
def chunksOf (n : Nat) (items : List α) : List (List α) :=
  if 0 < n ∧ 0 < items.length then items.take n :: chunksOf n (items.drop n) else []
termination_by items.length
decreasing_by
  rw [List.length_drop]
  omega

theorem mem_chunksOf {n : Nat} {items piece : List α} (h : piece ∈ chunksOf n items) :
    piece ≠ [] ∧ piece.length ≤ n := by
  fun_induction chunksOf n items with
  | case1 items hi ih =>
    rcases List.mem_cons.mp h with rfl | h
    · refine ⟨?_, List.length_take_le n items⟩
      apply List.ne_nil_of_length_pos
      rw [List.length_take]
      omega
    · exact ih h
  | case2 => cases h

theorem flatten_chunksOf {n : Nat} (hn : 0 < n) (items : List α) :
    (chunksOf n items).flatten = items := by
  fun_induction chunksOf n items with
  | case1 items _ ih => rw [List.flatten_cons, ih, List.take_append_drop]
  | case2 items hi =>
    have h0 : items.length = 0 := by omega
    rw [List.eq_nil_of_length_eq_zero h0, List.flatten_nil]

namespace Batcher

def create (policy : BatchPolicy) : Batcher where
  policy := { policy with maxPaths := max policy.maxPaths 1 }
  pending := []
  batchSeqs := []

def pending? (b : Batcher) (w : WorktreeId) : Option PendingBatch := Table.get? b.pending w

def noticed (b : Batcher) (w : WorktreeId) (now : Nat) : PendingBatch :=
  let batch := (b.pending? w).getD (.opened now)
  { batch with last := max batch.last now }

def notePath (b : Batcher) (w : WorktreeId) (rel : Path) (now : Nat) : Batcher :=
  let batch := b.noticed w now
  { b with pending := Table.set b.pending w { batch with paths := batch.paths.insert rel } }

def noteStatus (b : Batcher) (w : WorktreeId) (now : Nat) : Batcher :=
  { b with pending := Table.set b.pending w { b.noticed w now with statusDirty := true } }

def hasPending (b : Batcher) (w : WorktreeId) : Bool := (b.pending? w).isSome

def pendingPaths (b : Batcher) (w : WorktreeId) : Nat :=
  ((b.pending? w).map (·.paths.length)).getD 0

def deadline? (b : Batcher) (w : WorktreeId) : Option Nat :=
  (b.pending? w).map (·.deadline b.policy)

def deadlines (b : Batcher) : List Nat := b.pending.map (·.2.deadline b.policy)

def nextDeadline (b : Batcher) : Option Nat := b.deadlines.min?

def isDue (b : Batcher) (w : WorktreeId) (now : Nat) : Bool :=
  match b.deadline? w with
  | some d => d ≤ now
  | none => false

def due (b : Batcher) (now : Nat) : List WorktreeId :=
  (b.pending.filter (·.2.deadline b.policy ≤ now)).map (·.1)

def lastBatchSeq (b : Batcher) (w : WorktreeId) : Nat := (Table.get? b.batchSeqs w).getD 0

def nextBatchSeq (b : Batcher) (w : WorktreeId) : Batcher × Nat :=
  let seq := b.lastBatchSeq w + 1
  ({ b with batchSeqs := Table.set b.batchSeqs w seq }, seq)

def partMax : Nat := 0xffffffff

def numbered (b : Batcher) (w : WorktreeId) (now parts done : Nat) :
    List (List Path) → Batcher × List Changeset
  | [] => (b, [])
  | paths :: rest =>
    let (b, batchSeq) := b.nextBatchSeq w
    let changes : Changeset :=
      { worktree := w, paths, timestamp := now, batchSeq, part := min (done + 1) partMax, parts }
    let (b, others) := numbered b w now parts (done + 1) rest
    (b, changes :: others)

def changesets (b : Batcher) (w : WorktreeId) (paths : PathSet) (now : Nat) :
    Batcher × List Changeset :=
  let pieces := chunksOf b.policy.maxPaths paths
  b.numbered w now (min pieces.length partMax) 0 pieces

def drop (b : Batcher) (w : WorktreeId) : Batcher := { b with pending := Table.erase b.pending w }

def take (b : Batcher) (w : WorktreeId) (now : Nat) : Batcher × Option FlushedBatch :=
  match b.pending? w with
  | none => (b, none)
  | some batch =>
    let (b, changesets) := (b.drop w).changesets w batch.paths now
    (b, some ⟨changesets, batch.statusDirty⟩)

end Batcher

end Switchboard
