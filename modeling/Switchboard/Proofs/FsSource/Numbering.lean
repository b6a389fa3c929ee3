import Mathlib.Algebra.Group.Nat.Defs
import Switchboard.Proofs.FsSource.Unregister
import Switchboard.Proofs.Pane.Emission
import Switchboard.Proofs.Replay.Recovery

/-!
# Numbers without holes

The filesystem source counts twice: its envelopes, and the changesets of each root. Neither count
ever skips a number, although a flush numbers the parts of a batch before it looks for the root:
what waits always waits for a registered root, so what is numbered is told.
-/
namespace Switchboard

open Mirror (Step perform)

theorem length_of_mem_dropLast_chunksOf {α : Type} {n : Nat} {items piece : List α}
    (h : piece ∈ (chunksOf n items).dropLast) : piece.length = n := by
  fun_induction chunksOf n items with
  | case1 items hi ih =>
    by_cases hlast : chunksOf n (items.drop n) = []
    · simp [hlast] at h
    · rw [List.dropLast_cons_of_ne_nil hlast] at h
      rcases List.mem_cons.mp h with rfl | h
      · have hmore : items.drop n ≠ [] := by
          intro hnil
          rw [hnil, chunksOf, if_neg (by simp)] at hlast
          exact hlast rfl
        have hlen := List.length_pos_iff.mpr hmore
        rw [List.length_drop] at hlen
        rw [List.length_take]
        omega
      · exact ih h
  | case2 => cases h

/-- All parts of one batch, in order. Each part but the last is full. -/
structure Split (limit : Nat) (css : List Changeset) : Prop where
  root : ∃ w, ∀ cs ∈ css, cs.worktree = w
  part : css.map (·.part) = List.range' 1 css.length
  parts : ∀ cs ∈ css, cs.parts = css.length
  filled : ∀ cs ∈ css, cs.paths ≠ [] ∧ cs.paths.length ≤ limit
  full : ∀ cs ∈ css.dropLast, cs.paths.length = limit

namespace Batcher

variable (b : Batcher) (w u : WorktreeId) (now : Nat)

theorem lastBatchSeq_nextBatchSeq : (b.nextBatchSeq w).1.lastBatchSeq u =
    if w = u then b.lastBatchSeq w + 1 else b.lastBatchSeq u := by
  simp only [lastBatchSeq, nextBatchSeq, Table.get?_set]
  by_cases h : w = u <;> simp [h]

section Numbered

variable (parts done : Nat) (pieces : List (List Path))

theorem length_numbered : (b.numbered w now parts done pieces).2.length = pieces.length := by
  rw [← List.length_map (·.paths), paths_numbered]

theorem lastBatchSeq_numbered : (b.numbered w now parts done pieces).1.lastBatchSeq u =
    if w = u then b.lastBatchSeq w + pieces.length else b.lastBatchSeq u := by
  induction pieces generalizing b done with
  | nil =>
    by_cases h : w = u
    · simp [numbered, h]
    · simp [numbered, h]
  | cons paths rest ih =>
    have hrest := ih (b.nextBatchSeq w).1 (done + 1)
    simp only [lastBatchSeq_nextBatchSeq] at hrest
    rw [numbered, hrest]
    by_cases h : w = u
    · simp only [if_pos h, if_true, List.length_cons]
      omega
    · simp only [if_neg h]

theorem batchSeq_numbered : (b.numbered w now parts done pieces).2.map (·.batchSeq) =
    List.range' (b.lastBatchSeq w + 1) pieces.length := by
  induction pieces generalizing b done with
  | nil => rfl
  | cons paths rest ih =>
    have hrest := ih (b.nextBatchSeq w).1 (done + 1)
    rw [lastBatchSeq_nextBatchSeq, if_pos rfl] at hrest
    rw [List.length_cons, List.range'_succ, ← hrest]
    rfl

theorem part_numbered : (b.numbered w now parts done pieces).2.map (·.part) =
    (List.range' (done + 1) pieces.length).map (min · partMax) := by
  induction pieces generalizing b done with
  | nil => rfl
  | cons paths rest ih =>
    rw [List.length_cons, List.range'_succ, List.map_cons, ← ih (b.nextBatchSeq w).1 (done + 1)]
    rfl

theorem parts_numbered : ∀ cs ∈ (b.numbered w now parts done pieces).2, cs.parts = parts := by
  induction pieces generalizing b done with
  | nil => simp [numbered]
  | cons paths rest ih =>
    rw [numbered, List.forall_mem_cons]
    exact ⟨rfl, ih (b.nextBatchSeq w).1 (done + 1)⟩

end Numbered

variable (paths : PathSet)

theorem paths_changesets :
    (b.changesets w paths now).2.map (·.paths) = chunksOf b.policy.maxPaths paths :=
  b.paths_numbered w now _ _ _

theorem length_changesets :
    (b.changesets w paths now).2.length = (chunksOf b.policy.maxPaths paths).length :=
  b.length_numbered w now _ _ _

theorem lastBatchSeq_changesets : (b.changesets w paths now).1.lastBatchSeq u =
    if w = u then b.lastBatchSeq w + (b.changesets w paths now).2.length
    else b.lastBatchSeq u := by
  rw [length_changesets]
  exact b.lastBatchSeq_numbered w u now _ _ _

theorem batchSeq_changesets : (b.changesets w paths now).2.map (·.batchSeq) =
    List.range' (b.lastBatchSeq w + 1) (b.changesets w paths now).2.length := by
  rw [length_changesets]
  exact b.batchSeq_numbered w now _ _ _

theorem part_changesets : (b.changesets w paths now).2.map (·.part) =
    (List.range' 1 (b.changesets w paths now).2.length).map (min · partMax) := by
  rw [length_changesets]
  exact b.part_numbered w now _ _ _

theorem split_changesets (h : (b.changesets w paths now).2.length < 2 ^ 32) :
    Split b.policy.maxPaths (b.changesets w paths now).2 := by
  have hlen := b.length_changesets w now paths
  have hmax : (b.changesets w paths now).2.length ≤ partMax := Nat.le_of_lt_succ h
  have hpaths : ∀ cs ∈ (b.changesets w paths now).2,
      cs.paths ∈ chunksOf b.policy.maxPaths paths := by
    intro cs hcs
    rw [← paths_changesets b w now]
    exact List.mem_map_of_mem hcs
  refine ⟨⟨w, b.worktree_changesets w now paths⟩, ?_, ?_, ?_, ?_⟩
  · rw [part_changesets]
    conv_rhs => rw [← List.map_id (List.range' 1 _)]
    refine List.map_congr_left fun i hi => ?_
    have := List.mem_range'_1.mp hi
    exact Nat.min_eq_left (by omega)
  · intro cs hcs
    rw [b.parts_numbered w now _ _ _ cs hcs, ← hlen]
    exact Nat.min_eq_left hmax
  · exact fun cs hcs => mem_chunksOf (hpaths cs hcs)
  · intro cs hcs
    have hlast : cs.paths ∈ (chunksOf b.policy.maxPaths paths).dropLast := by
      rw [← paths_changesets b w now, ← List.map_dropLast]
      exact List.mem_map_of_mem hcs
    exact length_of_mem_dropLast_chunksOf hlast

end Batcher

def FilesystemEvent.root : FilesystemEvent → WorktreeId
  | .filesChanged changes => changes.worktree
  | .gitStatusChanged w _ => w
  | .branchChanged w _ => w

def Envelope.Placed (e : Envelope) : Prop :=
  ∃ event : FilesystemEvent, e.event = .filesystem event ∧ e.worktree = some event.root

def batchSeqs (w : WorktreeId) (told : List Envelope) : List Nat :=
  ((changesets told).filter (·.worktree = w)).map (·.batchSeq)

/-- What is told in one piece: one envelope without changed paths, or all parts of a batch. -/
def Block (limit : Nat) (block : List Envelope) : Prop :=
  (∃ e, block = [e] ∧ e.event.changeset? = none) ∨
    ∃ css : List Changeset, block.map (·.event) = css.map (.filesystem ∘ .filesChanged) ∧
      (css.length < 2 ^ 32 → Split limit css)

theorem batchSeqs_append (w : WorktreeId) (told more : List Envelope) :
    batchSeqs w (told ++ more) = batchSeqs w told ++ batchSeqs w more := by
  simp [batchSeqs, changesets]

namespace FsSource

structure Speaks (s s' : FsSource) (told : List Envelope) : Prop where
  numbers : Sequencer.Numbers .filesystem s.sequencer told s'.sequencer
  policy : s'.batcher.policy = s.batcher.policy
  placed : ∀ e ∈ told, e.Placed
  last : ∀ w, s'.batcher.lastBatchSeq w = s.batcher.lastBatchSeq w + (batchSeqs w told).length
  batches : ∀ w, batchSeqs w told =
    List.range' (s.batcher.lastBatchSeq w + 1) (batchSeqs w told).length
  blocks : ∃ blocks : List (List Envelope), told = blocks.flatten ∧
    ∀ block ∈ blocks, Block s.batcher.policy.maxPaths block

namespace Speaks

variable {s s' s'' : FsSource} {told more : List Envelope}

theorem silent (hq : s'.sequencer = s.sequencer) (hp : s'.batcher.policy = s.batcher.policy)
    (hb : s'.batcher.batchSeqs = s.batcher.batchSeqs) : Speaks s s' [] where
  numbers := hq ▸ .nil _
  policy := hp
  placed e he := by cases he
  last w := by simp [Batcher.lastBatchSeq, hb, batchSeqs, changesets]
  batches w := rfl
  blocks := ⟨[], rfl, fun block hb => by cases hb⟩

theorem trans (h : Speaks s s' told) (h' : Speaks s' s'' more) :
    Speaks s s'' (told ++ more) where
  numbers := h.numbers.append h'.numbers
  policy := h'.policy.trans h.policy
  placed e he := (List.mem_append.mp he).elim (h.placed e) (h'.placed e)
  last w := by
    rw [h'.last, h.last, batchSeqs_append, List.length_append, Nat.add_assoc]
  batches w := by
    have hmore := h'.batches w
    rw [h.last] at hmore
    rw [batchSeqs_append, List.length_append, ← List.range'_append_1, ← h.batches]
    rw [Nat.add_right_comm, ← hmore]
  blocks := by
    obtain ⟨blocks, rfl, hblocks⟩ := h.blocks
    obtain ⟨others, rfl, hothers⟩ := h'.blocks
    refine ⟨blocks ++ others, List.flatten_append.symm, fun block hb => ?_⟩
    rcases List.mem_append.mp hb with hb | hb
    · exact hblocks block hb
    · exact h.policy ▸ hothers block hb

end Speaks

section Telling

variable (s : FsSource) (w : WorktreeId) (now : Nat)

theorem event_emitAll (events : List FilesystemEvent) :
    (s.emitAll w now events).2.map (·.event) = events.map .filesystem := by
  induction events generalizing s with
  | nil => rfl
  | cons event rest ih => rw [emitAll_cons, List.map_cons, ih, List.map_cons]; rfl

theorem emitAll_append (events more : List FilesystemEvent) :
    s.emitAll w now (events ++ more) =
      (((s.emitAll w now events).1.emitAll w now more).1,
        (s.emitAll w now events).2 ++ ((s.emitAll w now events).1.emitAll w now more).2) := by
  induction events generalizing s with
  | nil => rfl
  | cons event rest ih => simp only [List.cons_append, emitAll_cons, ih]

theorem placed_emitAll {events : List FilesystemEvent} (h : ∀ event ∈ events, event.root = w) :
    ∀ e ∈ (s.emitAll w now events).2, e.Placed := by
  intro e he
  have hevent : e.event ∈ (s.emitAll w now events).2.map (·.event) := List.mem_map_of_mem he
  rw [event_emitAll] at hevent
  obtain ⟨event, hmem, heq⟩ := List.mem_map.mp hevent
  exact ⟨event, heq.symm, by rw [s.worktree_emitAll w now events e he, h event hmem]⟩

theorem speaks_batch (paths : PathSet) :
    let cut := s.batcher.changesets w paths now
    let told := { s with batcher := cut.1 }.emitAll w now (cut.2.map .filesChanged)
    Speaks s told.1 told.2 := by
  intro cut told
  have hroot : ∀ cs ∈ cut.2, cs.worktree = w := s.batcher.worktree_changesets w now paths
  have hcss : changesets told.2 = cut.2 := by
    rw [changesets_emitAll, List.filterMap_map]
    exact List.filterMap_some
  obtain ⟨sequencer, hfst⟩ := emitAll_fst { s with batcher := cut.1 } w now
    (cut.2.map .filesChanged)
  have hbatcher : told.1.batcher = cut.1 := by rw [hfst]
  have hown : batchSeqs w told.2 = List.range' (s.batcher.lastBatchSeq w + 1) cut.2.length := by
    have hall : cut.2.filter (·.worktree = w) = cut.2 :=
      List.filter_eq_self.mpr fun cs hcs => by simp [hroot cs hcs]
    rw [batchSeqs, hcss, hall]
    exact s.batcher.batchSeq_changesets w now paths
  have hother : ∀ u, w ≠ u → batchSeqs u told.2 = [] := by
    intro u hu
    have hnone : cut.2.filter (·.worktree = u) = [] :=
      List.filter_eq_nil_iff.mpr fun cs hcs => by simp [hroot cs hcs, hu]
    rw [batchSeqs, hcss, hnone, List.map_nil]
  refine ⟨numbers_emitAll (s := { s with batcher := cut.1 }) rfl w now _, ?_, ?_, ?_, ?_, ?_⟩
  · rw [hbatcher]
    exact (s.batcher.changesets_batcher w now paths).2
  · refine placed_emitAll _ _ _ fun event hm => ?_
    obtain ⟨cs, hcs, rfl⟩ := List.mem_map.mp hm
    exact hroot cs hcs
  · intro u
    rw [hbatcher, s.batcher.lastBatchSeq_changesets]
    by_cases hu : w = u
    · subst hu
      rw [if_pos rfl, hown, List.length_range']
    · rw [if_neg hu, hother u hu]
      rfl
  · intro u
    by_cases hu : w = u
    · subst hu
      rw [hown, List.length_range']
    · rw [hother u hu]
      rfl
  · refine ⟨[told.2], by simp, fun block hb => ?_⟩
    rw [List.mem_singleton.mp hb]
    refine .inr ⟨cut.2, ?_, s.batcher.split_changesets w now paths⟩
    rw [event_emitAll, List.map_map]

theorem speaks_news {events : List FilesystemEvent} (hroot : ∀ event ∈ events, event.root = w)
    (hnews : ∀ event ∈ events, Event.changeset? (.filesystem event) = none) :
    Speaks s (s.emitAll w now events).1 (s.emitAll w now events).2 := by
  obtain ⟨sequencer, hfst⟩ := emitAll_fst s w now events
  have hnone : changesets (s.emitAll w now events).2 = [] := by
    rw [changesets_emitAll]
    exact List.filterMap_eq_nil_iff.mpr hnews
  refine ⟨numbers_emitAll rfl w now _, by rw [hfst], placed_emitAll s w now hroot, ?_, ?_, ?_⟩
  · intro u
    rw [hfst, batchSeqs, hnone]
    rfl
  · intro u
    rw [batchSeqs, hnone]
    rfl
  · refine ⟨(s.emitAll w now events).2.map ([·]), ?_, fun block hb => ?_⟩
    · rw [← List.flatMap_def]
      exact (List.flatMap_singleton' _).symm
    · obtain ⟨e, he, rfl⟩ := List.mem_map.mp hb
      exact .inl ⟨e, rfl, (List.filterMap_eq_nil_iff.mp hnone) e he⟩

theorem speaks_beginProbe (reason : ReconcileReason) : Speaks s (s.beginProbe w reason).1 [] := by
  rcases s.beginProbe_cases w reason with h | ⟨state, probing, queued, -, h⟩
  · rw [h]
    exact .silent rfl rfl rfl
  · rw [h]
    exact .silent rfl rfl rfl

theorem speaks_beginProbes (reason : ReconcileReason) (ws : List WorktreeId) :
    Speaks s (s.beginProbes reason ws).1 [] := by
  induction ws generalizing s with
  | nil => exact .silent rfl rfl rfl
  | cons w rest ih => exact (s.speaks_beginProbe w reason).trans (ih _)

theorem speaks_flushRoot (h : s.Sound) :
    Speaks s (s.flushRoot w now).1 (s.flushRoot w now).2.envelopes := by
  cases hb : s.batcher.pending? w with
  | none =>
    rw [flushRoot_of_not_pending hb]
    exact .silent rfl rfl rfl
  | some batch =>
    obtain ⟨root, ht⟩ := root_of_pending? (h.owned w) hb
    rw [flushRoot_of_pending hb ht]
    have hdrop : Speaks s { s with batcher := s.batcher.drop w } [] := .silent rfl rfl rfl
    have htold := speaks_batch { s with batcher := s.batcher.drop w } w now batch.paths
    have hprobe := speaks_beginProbe ({ s with
      batcher := ((s.batcher.drop w).changesets w batch.paths now).1 }.emitAll w now
        (((s.batcher.drop w).changesets w batch.paths now).2.map .filesChanged)).1 w .flush
    have hall := (hdrop.trans htold).trans hprobe
    rwa [List.nil_append, List.append_nil] at hall

theorem speaks_flushRoots (h : s.Sound) (ws : List WorktreeId) :
    Speaks s (s.flushRoots now ws).1 (s.flushRoots now ws).2.envelopes := by
  induction ws generalizing s with
  | nil => exact .silent rfl rfl rfl
  | cons w rest ih =>
    rw [(s.flushRoots_cons now w rest).1, (s.flushRoots_cons now w rest).2]
    exact (s.speaks_flushRoot w now h).trans (ih _ (h.perform (.flushRoot w now)))

theorem news_spec {d : StatusDelta} {w : WorktreeId} {event : FilesystemEvent}
    (h : event ∈ StatusDelta.news d w) :
    event.root = w ∧ Event.changeset? (.filesystem event) = none := by
  simp only [StatusDelta.news, List.mem_append, Option.mem_toList, Option.map_eq_some_iff] at h
  rcases h with ⟨counts, -, rfl⟩ | ⟨branch, -, rfl⟩
  · exact ⟨rfl, rfl⟩
  · exact ⟨rfl, rfl⟩

theorem speaks_applyReport (reason : ReconcileReason) (state : RootState)
    (report : StatusReport) :
    Speaks s (s.applyReport w reason state report now).1
      (s.applyReport w reason state report now).2 := by
  simp only [applyReport, emitAll_append]
  generalize StatusDelta.between _ report = delta
  generalize (if tellsPaths reason state then _ else ([] : PathSet)) = paths
  have hstate : Speaks s (s.withState w { state with lastReport := some report }) [] :=
    .silent rfl rfl rfl
  have hbatch := speaks_batch (s.withState w { state with lastReport := some report }) w now paths
  have hnews := speaks_news ({ s.withState w { state with lastReport := some report } with
    batcher := (s.batcher.changesets w paths now).1 }.emitAll w now
      ((s.batcher.changesets w paths now).2.map .filesChanged)).1 w now
    (fun event hm => (news_spec hm).1) (fun event hm => (news_spec (d := delta) hm).2)
  exact hstate.trans (hbatch.trans hnews)

theorem speaks_applyStatus (o : ProbeOutcome) :
    Speaks s (s.applyStatus o now).1 (s.applyStatus o now).2.envelopes := by
  have hresumed : ∀ (mid : FsSource × List Envelope) (queued : Option ReconcileReason),
      Speaks s mid.1 mid.2 →
        Speaks s (resumed mid o.worktree queued).1
          (resumed mid o.worktree queued).2.envelopes := by
    intro mid queued h
    rw [envelopes_resumed]
    cases queued with
    | none => exact h
    | some reason => exact List.append_nil mid.2 ▸ h.trans (mid.1.speaks_beginProbe _ reason)
  cases h : s.awaiting? o with
  | none =>
    rw [applyStatus_of_dropped h]
    exact .silent rfl rfl rfl
  | some state =>
    rw [applyStatus_of_awaited h]
    refine hresumed _ _ ?_
    simp only [heard]
    cases o.report with
    | none => exact .silent rfl rfl rfl
    | some report => exact s.speaks_applyReport _ _ _ _ _

theorem speaks_ingest (paths : List Path) : Speaks s (s.ingest paths now).1 [] := by
  have hnotes : ∀ (routes : List Route) (s : FsSource),
      Speaks s (routes.foldl (note · now) s) [] := by
    intro routes
    induction routes with
    | nil => exact fun s => .silent rfl rfl rfl
    | cons r rest ih =>
      intro s
      have hfirst : Speaks s (s.note now r) [] := by
        cases r with
        | unowned => exact .silent rfl rfl rfl
        | statusOnly w => exact .silent rfl rfl rfl
        | changed w rel => exact .silent rfl rfl rfl
      exact hfirst.trans (ih _)
  exact hnotes _ s

variable {s}

theorem speaks_perform (h : s.Sound) (x : Step) : Speaks s (perform s x).1 (perform s x).2 := by
  cases x with
  | register w path tier =>
    cases hr : s.register w path tier with
    | error e => simpa only [perform, hr] using .silent rfl rfl rfl
    | ok out =>
      obtain ⟨-, table, root, -, hs⟩ := register_eq_ok hr
      have hentered : Speaks s (s.entered table w) [] := .silent rfl rfl rfl
      simp only [perform, hr, hs]
      exact hentered.trans (speaks_beginProbe _ w .wake)
  | unregister w =>
    cases hr : s.unregister w with
    | error e => simpa only [perform, hr] using .silent rfl rfl rfl
    | ok out =>
      obtain ⟨table, root, -, -, hs⟩ := unregister_cases hr
      simp only [perform, hr, hs]
      exact .silent rfl rfl rfl
  | setTier w tier =>
    cases hr : s.setTier w tier with
    | error e => simpa only [perform, hr] using .silent rfl rfl rfl
    | ok out =>
      obtain ⟨table, -, hs⟩ := setTier_cases hr
      simp only [perform, hr, hs]
      exact .silent rfl rfl rfl
  | setFocused w => exact .silent rfl rfl rfl
  | ingest paths now => exact s.speaks_ingest now paths
  | flushRoot w now => exact s.speaks_flushRoot w now h
  | flushDue now => exact s.speaks_flushRoots now h _
  | request w reason => exact s.speaks_beginProbe w reason
  | requestAll reason => exact s.speaks_beginProbes reason _
  | answer o now => exact s.speaks_applyStatus now o

theorem speaks_told (h : s.Sound) (steps : List Step) :
    Speaks s (s.after steps) (s.told steps) := by
  induction steps generalizing s with
  | nil => exact .silent rfl rfl rfl
  | cons x rest ih => exact (speaks_perform h x).trans (ih (h.perform x))

end Telling

end FsSource

def ReplayBuffer.appendAll (b : ReplayBuffer) : List Envelope → Except ReplayError ReplayBuffer
  | [] => .ok b
  | e :: rest =>
    match b.append e with
    | (b, .ok _) => b.appendAll rest
    | (_, .error err) => .error err

theorem Sequencer.Numbers.appendAll_eq_ok {source : Source} {q q' : Sequencer}
    {told : List Envelope} (h : Numbers source q told q') {b : ReplayBuffer}
    (hs : b.source = source) (hspace : q.lastSeq + told.length ≤ wordMax)
    (hnew : b.epoch < q.epoch ∨ b.epoch = q.epoch ∧ b.lastSeq ≤ q.lastSeq) :
    ∃ b', b.appendAll told = .ok b' := by
  induction h generalizing b with
  | nil q => exact ⟨b, rfl⟩
  | @cons q q' e told hsource hstamp _ ih =>
    rw [List.length_cons] at hspace
    have hadvance : q.advance.lastSeq = q.lastSeq + 1 := satAdd_eq (by omega)
    have hepoch : e.epoch = q.epoch := congrArg Stamp.epoch hstamp
    have hseq : e.seq = q.lastSeq + 1 := (congrArg Stamp.seq hstamp).trans hadvance
    have hstep : ∃ out : ReplayBuffer × Option Envelope, b.append e = out.map id .ok ∧
        out.1.source = source ∧ out.1.epoch = q.epoch ∧ out.1.lastSeq = q.lastSeq + 1 := by
      rcases b.append_cases e with ⟨-, hno⟩ | ⟨-, -, ha⟩ | ⟨-, he, -, ha⟩
      · exact absurd ⟨hsource.trans hs.symm, by omega⟩ hno
      · refine ⟨_, ha, ?_, ?_, ?_⟩
        · rw [ReplayBuffer.source_store]
          exact hs
        · rw [ReplayBuffer.epoch_store]
          exact hepoch
        · rw [ReplayBuffer.lastSeq_store, hseq]
      · refine ⟨_, ha, ?_, ?_, ?_⟩
        · rw [ReplayBuffer.source_store, hs]
        · rw [ReplayBuffer.epoch_store, ← he, hepoch]
        · rw [ReplayBuffer.lastSeq_store, hseq]
    obtain ⟨out, ha, hsource', hepoch', hlast'⟩ := hstep
    obtain ⟨b', hb'⟩ := ih hsource' (by omega) (.inr ⟨hepoch', by omega⟩)
    refine ⟨b', ?_⟩
    simp only [ReplayBuffer.appendAll, ha, Prod.map]
    exact hb'

namespace FsSource

/-- All that the source tells is numbered without holes, and so are the changesets of each root; the
parts of a batch stand together, and a history takes all of it. -/
theorem told_without_holes (config : FsConfig) (epoch : Nat) (steps : List Step)
    (hspace : ((create config epoch).told steps).length < 2 ^ 64) :
    let s := create config epoch
    let told := s.told steps
    (∀ (i : Nat) (e : Envelope), told[i]? = some e →
        e.source = .filesystem ∧ e.stamp = ⟨epoch, i + 1⟩) ∧
      (∀ before x behind, steps = before ++ x :: behind →
        ∀ e ∈ (perform (s.after before) x).2, ∃ event : FilesystemEvent,
          e.event = .filesystem event ∧ e.worktree = some event.root ∧
            ((s.after before).table.get? event.root).isSome = true) ∧
      (∀ w, batchSeqs w told = List.range' 1 (batchSeqs w told).length) ∧
      (∃ blocks : List (List Envelope), told = blocks.flatten ∧
        ∀ block ∈ blocks, Block (max config.batch.maxPaths 1) block) ∧
      ∀ capacity, ∃ b, (ReplayBuffer.create .filesystem capacity).appendAll told = .ok b := by
  intro s told
  have hsound : s.Sound := sound_create config epoch
  have hspeaks : Speaks s (s.after steps) told := speaks_told hsound steps
  have hword : told.length ≤ wordMax := Nat.le_of_lt_succ hspace
  refine ⟨?_, ?_, hspeaks.batches, hspeaks.blocks, ?_⟩
  · intro i e hi
    obtain ⟨hsource, hstamp⟩ := hspeaks.numbers.stamp_eq hi
    obtain ⟨hlt, -⟩ := List.getElem?_eq_some_iff.mp hi
    refine ⟨hsource, hstamp.trans ?_⟩
    have hlast : s.sequencer.lastSeq = 0 := rfl
    rw [hlast, Nat.zero_add, Nat.min_eq_left (by omega)]
    rfl
  · rintro before x behind rfl e he
    obtain ⟨event, hevent, hw⟩ := (speaks_perform (hsound.after before) x).placed e he
    exact ⟨event, hevent, hw, registered_of_told (hsound.after before) he hw⟩
  · intro capacity
    refine hspeaks.numbers.appendAll_eq_ok rfl ?_ ?_
    · exact (Nat.zero_add _).symm ▸ hword
    · exact (Nat.eq_zero_or_pos epoch).elim (fun h => .inr ⟨h.symm, Nat.le_refl 0⟩) .inl

def onePathEach : FsConfig := ⟨⟨500, 2000, 1⟩, false, []⟩

def returned : List Step :=
  [.register ⟨"W1"⟩ ⟨"/repo"⟩ .activeInApp, .ingest [⟨"/repo/b"⟩, ⟨"/repo/a"⟩] 0,
    .flushRoot ⟨"W1"⟩ 0, .ingest [⟨"/repo/c"⟩] 1, .unregister ⟨"W1"⟩,
    .register ⟨"W1"⟩ ⟨"/repo"⟩ .activeInApp, .ingest [⟨"/repo/d"⟩] 2, .flushDue 1000,
    .answer ⟨⟨"W1"⟩, 2, .wake, some ⟨.zero, some "main", []⟩⟩ 1001]

theorem told_without_holes_returned :
    ((create onePathEach 7).told returned).length < 2 ^ 64 ∧
      batchSeqs ⟨"W1"⟩ ((create onePathEach 7).told returned) = [1, 2, 3] ∧
      ∃ b, (ReplayBuffer.create .filesystem 2).appendAll
        ((create onePathEach 7).told returned) = .ok b := by
  have hspace : ((create onePathEach 7).told returned).length < 2 ^ 64 := by decide +kernel
  obtain ⟨-, -, hbatches, -, hhistory⟩ := told_without_holes onePathEach 7 returned hspace
  have hthree : (batchSeqs ⟨"W1"⟩ ((create onePathEach 7).told returned)).length = 3 := by
    decide +kernel
  have hnumbers := hbatches ⟨"W1"⟩
  rw [hthree] at hnumbers
  exact ⟨hspace, hnumbers, hhistory 2⟩

end FsSource

end Switchboard
