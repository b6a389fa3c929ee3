import Switchboard.Batcher
import Switchboard.Proofs.Path.Set
import Switchboard.Proofs.Table

/-!
# Batches of changes

What waits for a root is the set of the paths that were noted for it. Taking it cuts it into parts
that hold the waiting paths in their order, and leaves nothing behind.
-/
namespace Switchboard.Batcher

variable (b : Batcher) (w u : WorktreeId) (rel : Path) (now : Nat)

def waiting : PathSet := ((b.pending? w).map (·.paths)).getD []

theorem hasPending_iff : b.hasPending w = true ↔ ∃ batch, b.pending? w = some batch :=
  Option.isSome_iff_exists

theorem waiting_of_pending? {batch : PendingBatch} (h : b.pending? w = some batch) :
    b.waiting w = batch.paths := by
  simp [waiting, h]

theorem waiting_of_not_pending (h : b.pending? w = none) : b.waiting w = [] := by
  simp [waiting, h]

theorem paths_noticed : (b.noticed w now).paths = b.waiting w := by
  simp only [noticed, waiting]
  cases b.pending? w <;> rfl

theorem pending?_notePath : (b.notePath w rel now).pending? u =
    if w = u then some { b.noticed w now with paths := (b.waiting w).insert rel }
    else b.pending? u := by
  rw [pending?, notePath, ← paths_noticed]
  exact Table.get?_set _ _ _ _

theorem pending?_noteStatus : (b.noteStatus w now).pending? u =
    if w = u then some { b.noticed w now with statusDirty := true } else b.pending? u :=
  Table.get?_set _ _ _ _

theorem waiting_notePath :
    (b.notePath w rel now).waiting u = if w = u then (b.waiting u).insert rel else b.waiting u := by
  rw [waiting, pending?_notePath]
  by_cases h : w = u
  · simp [h]
  · simp [h, waiting]

theorem waiting_noteStatus : (b.noteStatus w now).waiting u = b.waiting u := by
  rw [waiting, pending?_noteStatus]
  by_cases h : w = u
  · subst h
    simpa using b.paths_noticed w now
  · simp [h, waiting]

def statusPending : Bool := ((b.pending? w).map (·.statusDirty)).getD false

theorem statusDirty_noticed : (b.noticed w now).statusDirty = b.statusPending w := by
  simp only [noticed, statusPending]
  cases b.pending? w <;> rfl

theorem statusPending_notePath :
    (b.notePath w rel now).statusPending u = b.statusPending u := by
  rw [statusPending, pending?_notePath]
  by_cases h : w = u
  · subst h
    simpa using b.statusDirty_noticed w now
  · simp [h, statusPending]

theorem statusPending_noteStatus : (b.noteStatus w now).statusPending u =
    if w = u then true else b.statusPending u := by
  rw [statusPending, pending?_noteStatus]
  by_cases h : w = u <;> simp [h, statusPending]

theorem pending?_drop : (b.drop w).pending? u = if w = u then none else b.pending? u :=
  Table.get?_erase _ _ _

section Changesets

variable (parts done : Nat) (pieces : List (List Path))

theorem numbered_batcher :
    (b.numbered w now parts done pieces).1.pending = b.pending ∧
      (b.numbered w now parts done pieces).1.policy = b.policy := by
  induction pieces generalizing b done with
  | nil => exact ⟨rfl, rfl⟩
  | cons paths rest ih => exact ih (b.nextBatchSeq w).1 (done + 1)

theorem paths_numbered : (b.numbered w now parts done pieces).2.map (·.paths) = pieces := by
  induction pieces generalizing b done with
  | nil => rfl
  | cons paths rest ih => exact congrArg (paths :: ·) (ih (b.nextBatchSeq w).1 (done + 1))

theorem worktree_numbered :
    ∀ cs ∈ (b.numbered w now parts done pieces).2, cs.worktree = w := by
  induction pieces generalizing b done with
  | nil => simp [numbered]
  | cons paths rest ih =>
    intro cs hcs
    rcases List.mem_cons.mp hcs with rfl | hcs
    · rfl
    · exact ih (b.nextBatchSeq w).1 (done + 1) cs hcs

end Changesets

variable (paths : PathSet)

theorem changesets_batcher : (b.changesets w paths now).1.pending = b.pending ∧
    (b.changesets w paths now).1.policy = b.policy :=
  b.numbered_batcher w now _ _ _

theorem worktree_changesets : ∀ cs ∈ (b.changesets w paths now).2, cs.worktree = w :=
  b.worktree_numbered w now _ _ _

theorem flatMap_changesets (h : 0 < b.policy.maxPaths) :
    (b.changesets w paths now).2.flatMap (·.paths) = paths := by
  rw [changesets, List.flatMap_def, paths_numbered, flatten_chunksOf h]

theorem pending?_changesets : (b.changesets w paths now).1.pending? u = b.pending? u := by
  rw [pending?, (b.changesets_batcher w now paths).1, pending?]

theorem mem_due {w : WorktreeId} (hs : Table.Sorted b.pending) : w ∈ b.due now ↔
    ∃ batch, b.pending? w = some batch ∧ batch.deadline b.policy ≤ now := by
  simp only [due, List.mem_map, List.mem_filter, decide_eq_true_eq]
  constructor
  · rintro ⟨⟨_, batch⟩, ⟨hm, hd⟩, rfl⟩
    exact ⟨batch, hs.get?_of_mem hm, hd⟩
  · rintro ⟨batch, hb, hd⟩
    exact ⟨(w, batch), ⟨Table.mem_of_get? hb, hd⟩, rfl⟩

theorem nodup_due (hs : Table.Sorted b.pending) : (b.due now).Nodup :=
  hs.nodup_keys.sublist (List.filter_sublist.map _)

end Switchboard.Batcher
