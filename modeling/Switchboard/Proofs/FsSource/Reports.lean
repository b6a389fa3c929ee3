import Switchboard.FsSource
import Switchboard.Proofs.Projection.Views

/-!
# Reports

The last report on a root changes only when the answer of a probe is taken. Here is what each step
of the filesystem source does to the last reports, and what a pane that is bound to a root sees of
what the step tells.
-/
namespace Switchboard

namespace FsSource

def taken? (s : FsSource) (o : ProbeOutcome) : Option StatusReport :=
  match s.state? o.worktree with
  | none => none
  | some state => if state.generation = o.generation then o.report else none

def baseline (s : FsSource) (o : ProbeOutcome) : Option StatusReport :=
  if o.reason = .resync then none else s.lastReport? o.worktree

theorem lastReport?_of_baseline {s : FsSource} {o : ProbeOutcome} {report : StatusReport}
    (h : s.baseline o = some report) : s.lastReport? o.worktree = some report := by
  by_cases hr : o.reason = .resync
  · rw [baseline, if_pos hr] at h
    cases h
  · rwa [baseline, if_neg hr] at h

theorem baseline_eq_none {s : FsSource} {o : ProbeOutcome} :
    s.baseline o = none ↔ o.reason = .resync ∨ s.lastReport? o.worktree = none := by
  by_cases hr : o.reason = .resync <;> simp [baseline, hr]

def Consistent (s : FsSource) : Prop := ∀ w, (s.state? w).isSome = (s.table.get? w).isSome

theorem consistent_create (config : FsConfig) (epoch : Nat) : Consistent (create config epoch) :=
  fun _ => rfl

theorem lastReport?_congr {s s' : FsSource} (h : s'.roots = s.roots) (w : WorktreeId) :
    s'.lastReport? w = s.lastReport? w := by
  simp only [lastReport?, state?, h]

theorem Consistent.congr {s s' : FsSource} (h : Consistent s) (hr : s'.roots = s.roots)
    (ht : s'.table = s.table) : Consistent s' := by
  intro w
  simp only [state?, hr, ht]
  exact h w

theorem state?_withState (s : FsSource) (w : WorktreeId) (state : RootState) (u : WorktreeId) :
    (s.withState w state).state? u = if w = u then some state else s.state? u :=
  Table.get?_set _ _ _ _

theorem lastReport?_withState (s : FsSource) (w : WorktreeId) (state : RootState)
    (u : WorktreeId) :
    (s.withState w state).lastReport? u = if w = u then state.lastReport else s.lastReport? u := by
  simp only [lastReport?, state?_withState]
  by_cases hu : w = u
  · simp only [if_pos hu, Option.bind_some]
  · simp only [if_neg hu]

theorem Consistent.withState {s : FsSource} (h : Consistent s) {w : WorktreeId}
    (hw : (s.state? w).isSome = true) (state : RootState) : Consistent (s.withState w state) := by
  intro u
  rw [state?_withState]
  by_cases hu : w = u
  · subst hu
    rw [if_pos rfl]
    exact ((h w).symm.trans hw).symm
  · rw [if_neg hu]
    exact h u

theorem beginProbe_cases (s : FsSource) (w : WorktreeId) (reason : ReconcileReason) :
    (s.beginProbe w reason).1 = s ∨
      ∃ state probing queued, s.state? w = some state ∧
        (s.beginProbe w reason).1 = s.withState w { state with probing, queued } := by
  simp only [beginProbe]
  split
  · next root state _ hstate =>
    by_cases hp : state.probing = true
    · rw [if_pos hp]
      exact .inr ⟨state, state.probing, _, hstate, rfl⟩
    · rw [if_neg hp]
      exact .inr ⟨state, true, state.queued, hstate, rfl⟩
  · exact .inl rfl

theorem lastReport?_beginProbe (s : FsSource) (w : WorktreeId) (reason : ReconcileReason)
    (u : WorktreeId) : (s.beginProbe w reason).1.lastReport? u = s.lastReport? u := by
  rcases s.beginProbe_cases w reason with h | ⟨state, probing, queued, hs, h⟩
  · rw [h]
  · rw [h, lastReport?_withState]
    by_cases hu : w = u
    · subst hu
      simp only [if_pos, lastReport?, hs, Option.bind_some]
    · rw [if_neg hu]

theorem Consistent.beginProbe {s : FsSource} (h : Consistent s) (w : WorktreeId)
    (reason : ReconcileReason) : Consistent (s.beginProbe w reason).1 := by
  rcases s.beginProbe_cases w reason with hb | ⟨state, probing, queued, hs, hb⟩
  · rw [hb]
    exact h
  · rw [hb]
    exact h.withState (by rw [hs]; rfl) _

theorem beginProbes_cons (s : FsSource) (reason : ReconcileReason) (w : WorktreeId)
    (rest : List WorktreeId) :
    (s.beginProbes reason (w :: rest)).1 = ((s.beginProbe w reason).1.beginProbes reason rest).1 :=
  rfl

theorem lastReport?_beginProbes (s : FsSource) (reason : ReconcileReason) (ws : List WorktreeId)
    (u : WorktreeId) : (s.beginProbes reason ws).1.lastReport? u = s.lastReport? u := by
  induction ws generalizing s with
  | nil => rfl
  | cons w rest ih => rw [beginProbes_cons, ih, lastReport?_beginProbe]

theorem Consistent.beginProbes {s : FsSource} (h : Consistent s) (reason : ReconcileReason)
    (ws : List WorktreeId) : Consistent (s.beginProbes reason ws).1 := by
  induction ws generalizing s with
  | nil => exact h
  | cons w rest ih =>
    rw [beginProbes_cons]
    exact ih (h.beginProbe w reason)

theorem emitAll_cons (s : FsSource) (w : WorktreeId) (now : Nat) (event : FilesystemEvent)
    (rest : List FilesystemEvent) :
    s.emitAll w now (event :: rest) =
      (((s.emit w now event).1.emitAll w now rest).1,
        (s.emit w now event).2 :: ((s.emit w now event).1.emitAll w now rest).2) := rfl

theorem emitAll_state (s : FsSource) (w : WorktreeId) (now : Nat) (events : List FilesystemEvent) :
    (s.emitAll w now events).1.roots = s.roots ∧ (s.emitAll w now events).1.table = s.table := by
  induction events generalizing s with
  | nil => exact ⟨rfl, rfl⟩
  | cons event rest ih =>
    rw [emitAll_cons]
    exact ih _

theorem foldl_statusAfter_emitAll (s : FsSource) (w : WorktreeId) (now : Nat)
    (events : List FilesystemEvent) (u : WorktreeId) (old : Option StatusCounts) :
    (s.emitAll w now events).2.foldl (Envelope.statusAfter u) old =
      if u = w then events.foldl FilesystemEvent.statusAfter old else old := by
  induction events generalizing s old with
  | nil => simp [emitAll]
  | cons event rest ih =>
    rw [emitAll_cons, List.foldl_cons, ih, List.foldl_cons]
    by_cases hu : u = w
    · rw [if_pos hu, if_pos hu]
      simp only [Envelope.statusAfter, emit, Source.filesystem, if_pos hu]
    · rw [if_neg hu, if_neg hu]
      simp only [Envelope.statusAfter, emit, Source.filesystem, if_neg hu]

theorem foldl_branchAfter_emitAll (s : FsSource) (w : WorktreeId) (now : Nat)
    (events : List FilesystemEvent) (u : WorktreeId) (old : Option String) :
    (s.emitAll w now events).2.foldl (Envelope.branchAfter u) old =
      if u = w then events.foldl FilesystemEvent.branchAfter old else old := by
  induction events generalizing s old with
  | nil => simp [emitAll]
  | cons event rest ih =>
    rw [emitAll_cons, List.foldl_cons, ih, List.foldl_cons]
    by_cases hu : u = w
    · rw [if_pos hu, if_pos hu]
      simp only [Envelope.branchAfter, emit, Source.filesystem, if_pos hu]
    · rw [if_neg hu, if_neg hu]
      simp only [Envelope.branchAfter, emit, Source.filesystem, if_neg hu]

theorem foldl_after_changesets (css : List Changeset) (status : Option StatusCounts)
    (branch : Option String) :
    (css.map FilesystemEvent.filesChanged).foldl FilesystemEvent.statusAfter status = status ∧
      (css.map FilesystemEvent.filesChanged).foldl FilesystemEvent.branchAfter branch = branch := by
  induction css with
  | nil => exact ⟨rfl, rfl⟩
  | cons cs rest ih => exact ih

theorem foldl_after_news (d : StatusDelta) (w : WorktreeId) (status : Option StatusCounts)
    (branch : Option String) :
    (StatusDelta.news d w).foldl FilesystemEvent.statusAfter status =
        (d.counts.map some).getD status ∧
      (StatusDelta.news d w).foldl FilesystemEvent.branchAfter branch = d.branch.getD branch := by
  rcases d with ⟨changed, counts, news⟩
  rcases counts with _ | counts <;> rcases news with _ | news <;> exact ⟨rfl, rfl⟩

/-- A step that leaves the reports as they are, and the status and branch of every view. -/
structure Quiet (s s' : FsSource) (told : List Envelope) : Prop where
  reports : ∀ w, s'.lastReport? w = s.lastReport? w
  status : ∀ w old, told.foldl (Envelope.statusAfter w) old = old
  branch : ∀ w old, told.foldl (Envelope.branchAfter w) old = old

theorem Quiet.of_reports {s s' : FsSource} (h : ∀ w, s'.lastReport? w = s.lastReport? w) :
    Quiet s s' [] := ⟨h, fun _ _ => rfl, fun _ _ => rfl⟩

theorem Quiet.trans {s s' s'' : FsSource} {told more : List Envelope} (h : Quiet s s' told)
    (h' : Quiet s' s'' more) : Quiet s s'' (told ++ more) := by
  refine ⟨fun w => (h'.reports w).trans (h.reports w), ?_, ?_⟩
  · intro w old
    rw [List.foldl_append, h.status, h'.status]
  · intro w old
    rw [List.foldl_append, h.branch, h'.branch]

theorem quiet_emitAll (s : FsSource) (w : WorktreeId) (now : Nat) (css : List Changeset) :
    Quiet s (s.emitAll w now (css.map .filesChanged)).1
      (s.emitAll w now (css.map .filesChanged)).2 := by
  refine ⟨fun u => lastReport?_congr (s.emitAll_state w now _).1 u, ?_, ?_⟩
  · intro u old
    rw [foldl_statusAfter_emitAll, (foldl_after_changesets css old none).1, ite_self]
  · intro u old
    rw [foldl_branchAfter_emitAll, (foldl_after_changesets css none old).2, ite_self]

theorem flushRoot_cases (s : FsSource) (w : WorktreeId) (now : Nat) :
    (∃ batcher, (s.flushRoot w now).1 = { s with batcher } ∧
        (s.flushRoot w now).2.envelopes = []) ∨
      ∃ batcher, ∃ css : List Changeset,
        (s.flushRoot w now).1 = (({ s with batcher }.emitAll w now
          (css.map .filesChanged)).1.beginProbe w .flush).1 ∧
        (s.flushRoot w now).2.envelopes =
          ({ s with batcher }.emitAll w now (css.map .filesChanged)).2 := by
  rcases hb : s.batcher.take w now with ⟨batcher, _ | batch⟩
  · have hf : s.flushRoot w now = (s, .nothing) := by simp only [flushRoot, hb]
    rw [hf]
    exact .inl ⟨s.batcher, rfl, rfl⟩
  cases ht : s.table.get? w with
  | none =>
    have hf : s.flushRoot w now = ({ s with batcher }, .nothing) := by
      simp only [flushRoot, hb, ht]
    rw [hf]
    exact .inl ⟨batcher, rfl, rfl⟩
  | some root =>
    refine .inr ⟨batcher, batch.changesets, ?_, ?_⟩
    · simp only [flushRoot, hb, ht]
    · simp only [flushRoot, hb, ht]

theorem quiet_flushRoot (s : FsSource) (w : WorktreeId) (now : Nat) :
    Quiet s (s.flushRoot w now).1 (s.flushRoot w now).2.envelopes := by
  rcases s.flushRoot_cases w now with ⟨batcher, hs, he⟩ | ⟨batcher, css, hs, he⟩
  · rw [hs, he]
    exact .of_reports fun _ => rfl
  · have hq := quiet_emitAll { s with batcher } w now css
    rw [hs, he]
    exact ⟨fun u => (lastReport?_beginProbe _ _ _ u).trans (hq.reports u), hq.status, hq.branch⟩

theorem Consistent.flushRoot {s : FsSource} (h : Consistent s) (w : WorktreeId) (now : Nat) :
    Consistent (s.flushRoot w now).1 := by
  rcases s.flushRoot_cases w now with ⟨batcher, hs, -⟩ | ⟨batcher, css, hs, -⟩
  · rw [hs]
    exact h.congr rfl rfl
  · have hst := emitAll_state { s with batcher } w now (css.map .filesChanged)
    rw [hs]
    exact (h.congr hst.1 hst.2).beginProbe _ _

theorem flushRoots_cons (s : FsSource) (now : Nat) (w : WorktreeId) (rest : List WorktreeId) :
    (s.flushRoots now (w :: rest)).1 = ((s.flushRoot w now).1.flushRoots now rest).1 ∧
      (s.flushRoots now (w :: rest)).2.envelopes =
        (s.flushRoot w now).2.envelopes ++
          ((s.flushRoot w now).1.flushRoots now rest).2.envelopes :=
  ⟨rfl, rfl⟩

theorem quiet_flushRoots (s : FsSource) (now : Nat) (ws : List WorktreeId) :
    Quiet s (s.flushRoots now ws).1 (s.flushRoots now ws).2.envelopes := by
  induction ws generalizing s with
  | nil => exact .of_reports fun _ => rfl
  | cons w rest ih =>
    obtain ⟨hs, he⟩ := s.flushRoots_cons now w rest
    rw [hs, he]
    exact (s.quiet_flushRoot w now).trans (ih _)

theorem Consistent.flushRoots {s : FsSource} (h : Consistent s) (now : Nat)
    (ws : List WorktreeId) : Consistent (s.flushRoots now ws).1 := by
  induction ws generalizing s with
  | nil => exact h
  | cons w rest ih =>
    rw [(s.flushRoots_cons now w rest).1]
    exact ih (h.flushRoot w now)

def resumed (mid : FsSource × List Envelope) (w : WorktreeId) :
    Option ReconcileReason → FsSource × StepOutput
  | none => (mid.1, ⟨mid.2, []⟩)
  | some reason => ((mid.1.beginProbe w reason).1, ⟨mid.2, (mid.1.beginProbe w reason).2.toList⟩)

theorem lastReport?_resumed (mid : FsSource × List Envelope) (w : WorktreeId)
    (queued : Option ReconcileReason) (u : WorktreeId) :
    (resumed mid w queued).1.lastReport? u = mid.1.lastReport? u := by
  cases queued with
  | none => rfl
  | some reason => exact lastReport?_beginProbe _ _ _ u

theorem envelopes_resumed (mid : FsSource × List Envelope) (w : WorktreeId)
    (queued : Option ReconcileReason) : (resumed mid w queued).2.envelopes = mid.2 := by
  cases queued <;> rfl

theorem Consistent.resumed {mid : FsSource × List Envelope} (h : Consistent mid.1)
    (w : WorktreeId) (queued : Option ReconcileReason) :
    Consistent (resumed mid w queued).1 := by
  cases queued with
  | none => exact h
  | some reason => exact h.beginProbe w reason

def RootState.over (state : RootState) : RootState :=
  { state with probing := false, queued := none }

theorem applyStatus_of_state {s : FsSource} {o : ProbeOutcome} {state : RootState}
    (hs : s.state? o.worktree = some state) (hg : state.generation = o.generation) (now : Nat) :
    s.applyStatus o now = match o.report with
      | none => resumed (s.withState o.worktree (RootState.over state), []) o.worktree state.queued
      | some report =>
        resumed (s.applyReport o.worktree o.reason (RootState.over state) report now) o.worktree
          state.queued := by
  simp only [applyStatus, hs]
  rw [if_neg fun h => h hg]
  cases o.report <;> cases state.queued <;> rfl

theorem lastReport?_applyReport (s : FsSource) (w : WorktreeId) (reason : ReconcileReason)
    (state : RootState) (report : StatusReport) (now : Nat) (u : WorktreeId) :
    (s.applyReport w reason state report now).1.lastReport? u =
      if w = u then some report else s.lastReport? u := by
  simp only [applyReport]
  rw [lastReport?_congr (emitAll_state _ _ _ _).1 u]
  exact lastReport?_withState _ _ _ _

theorem told_applyReport (s : FsSource) (w : WorktreeId) (reason : ReconcileReason)
    (state : RootState) (report : StatusReport) (now : Nat) :
    ∃ (q : FsSource) (css : List Changeset), (s.applyReport w reason state report now).2 =
      (q.emitAll w now (css.map .filesChanged ++ StatusDelta.news
        (.between (if reason = .resync then none else state.lastReport) report) w)).2 :=
  ⟨_, _, rfl⟩

theorem Consistent.applyReport {s : FsSource} (h : Consistent s) {w : WorktreeId}
    (hw : (s.state? w).isSome = true) (reason : ReconcileReason) (state : RootState)
    (report : StatusReport) (now : Nat) :
    Consistent (s.applyReport w reason state report now).1 :=
  (h.withState hw { state with lastReport := some report }).congr (emitAll_state _ _ _ _).1
    (emitAll_state _ _ _ _).2

theorem Consistent.applyStatus {s : FsSource} (h : Consistent s) (o : ProbeOutcome) (now : Nat) :
    Consistent (s.applyStatus o now).1 := by
  cases hs : s.state? o.worktree with
  | none =>
    simp only [FsSource.applyStatus, hs]
    exact h
  | some state =>
    by_cases hg : state.generation = o.generation
    · have hw : (s.state? o.worktree).isSome = true := by rw [hs]; rfl
      rw [applyStatus_of_state hs hg]
      cases o.report with
      | none => exact (h.withState hw _).resumed _ _
      | some report => exact (h.applyReport hw _ _ _ _).resumed _ _
    · simp only [FsSource.applyStatus, hs]
      rw [if_pos hg]
      exact h

theorem quiet_applyStatus {s : FsSource} {o : ProbeOutcome} (h : s.taken? o = none) (now : Nat) :
    Quiet s (s.applyStatus o now).1 (s.applyStatus o now).2.envelopes := by
  cases hs : s.state? o.worktree with
  | none =>
    simp only [applyStatus, hs]
    exact .of_reports fun _ => rfl
  | some state =>
    by_cases hg : state.generation = o.generation
    · have hr : o.report = none := by simpa only [taken?, hs, if_pos hg] using h
      have ha := applyStatus_of_state hs hg now
      simp only [hr] at ha
      rw [ha, envelopes_resumed]
      refine .of_reports fun u => ?_
      rw [lastReport?_resumed, lastReport?_withState]
      by_cases hu : o.worktree = u
      · rw [if_pos hu, ← hu, lastReport?, hs]
        rfl
      · rw [if_neg hu]
    · simp only [applyStatus, hs]
      rw [if_pos hg]
      exact .of_reports fun _ => rfl

theorem applyStatus_of_taken {s : FsSource} {o : ProbeOutcome} {report : StatusReport}
    (h : s.taken? o = some report) (now : Nat) :
    (∀ u, (s.applyStatus o now).1.lastReport? u =
        if o.worktree = u then some report else s.lastReport? u) ∧
      ∃ (q : FsSource) (css : List Changeset), (s.applyStatus o now).2.envelopes =
        (q.emitAll o.worktree now (css.map .filesChanged ++ StatusDelta.news
          (.between (s.baseline o) report) o.worktree)).2 := by
  cases hs : s.state? o.worktree with
  | none =>
    simp only [taken?, hs] at h
    cases h
  | some state =>
    by_cases hg : state.generation = o.generation
    · have hr : o.report = some report := by simpa only [taken?, hs, if_pos hg] using h
      have ha := applyStatus_of_state hs hg now
      have hlast : s.lastReport? o.worktree = (RootState.over state).lastReport := by
        simp only [lastReport?, hs, Option.bind_some, RootState.over]
      simp only [hr] at ha
      rw [ha, envelopes_resumed, baseline, hlast]
      refine ⟨fun u => ?_, told_applyReport _ _ _ _ _ _⟩
      rw [lastReport?_resumed, lastReport?_applyReport]
    · simp only [taken?, hs, if_neg hg] at h
      cases h

def entered (s : FsSource) (table : RootTable) (w : WorktreeId) : FsSource :=
  { s with table, nextGeneration := s.nextGeneration + 1 }.withState w
    ⟨s.nextGeneration, none, false, none⟩

theorem register_eq_ok {s s' : FsSource} {w : WorktreeId} {path : Path} {tier : ActivityTier}
    {probe : ProbeRequest} (h : s.register w path tier = .ok (s', probe)) :
    s.table.get? w = none ∧ ∃ table root, table.roots = Table.set s.table.roots w root ∧
      s' = ((s.entered table w).beginProbe w .wake).1 := by
  simp only [register, bind, Except.bind] at h
  cases hi : s.table.insert w path tier with
  | error e => rw [hi] at h; cases h
  | ok table =>
    simp only [hi] at h
    have hs' : s' = ((s.entered table w).beginProbe w .wake).1 := by
      split at h
      · next hb =>
        cases h
        exact (congrArg Prod.fst hb).symm
      · cases h
    simp only [RootTable.insert] at hi
    by_cases hw : Table.contains s.table.roots w = true
    · rw [if_pos hw] at hi
      cases hi
    · rw [if_neg hw] at hi
      have hget : s.table.get? w = none := by simpa [Table.contains, RootTable.get?] using hw
      split at hi
      · cases hi
      · cases hi
        exact ⟨hget, _, _, rfl, hs'⟩

theorem quiet_register {s s' : FsSource} {w : WorktreeId} {path : Path} {tier : ActivityTier}
    {probe : ProbeRequest} (hc : Consistent s) (h : s.register w path tier = .ok (s', probe)) :
    Quiet s s' [] := by
  obtain ⟨hnone, table, root, -, rfl⟩ := register_eq_ok h
  have hstate : s.state? w = none := by
    have := hc w
    rw [hnone] at this
    simpa using this
  refine .of_reports fun u => ?_
  rw [lastReport?_beginProbe, entered, lastReport?_withState]
  by_cases hu : w = u
  · rw [if_pos hu, ← hu, lastReport?, hstate]
    rfl
  · rw [if_neg hu]
    rfl

theorem Consistent.register {s s' : FsSource} {w : WorktreeId} {path : Path} {tier : ActivityTier}
    {probe : ProbeRequest} (hc : Consistent s) (h : s.register w path tier = .ok (s', probe)) :
    Consistent s' := by
  obtain ⟨-, table, root, htable, rfl⟩ := register_eq_ok h
  refine Consistent.beginProbe ?_ _ _
  intro u
  have ht : (s.entered table w).table.get? u = if w = u then some root else s.table.get? u := by
    show Table.get? table.roots u = _
    rw [htable]
    exact Table.get?_set _ _ _ _
  rw [ht, entered, state?_withState]
  by_cases hu : w = u
  · rw [if_pos hu, if_pos hu]
    rfl
  · rw [if_neg hu, if_neg hu]
    exact hc u

theorem unregister_eq_ok {s s' : FsSource} {w : WorktreeId} {info : RootInfo}
    (h : s.unregister w = .ok (s', info)) :
    s'.roots = Table.erase s.roots w ∧ s'.table.roots = Table.erase s.table.roots w ∧
      s'.sequencer = s.sequencer := by
  simp only [unregister, bind, Except.bind] at h
  cases hi : s.table.remove w with
  | error e => rw [hi] at h; cases h
  | ok out =>
    simp only [hi] at h
    cases h
    refine ⟨rfl, ?_, rfl⟩
    simp only [RootTable.remove] at hi
    split at hi
    · cases hi
    · cases hi
      rfl

theorem lastReport?_unregister {s s' : FsSource} {w : WorktreeId} {info : RootInfo}
    (h : s.unregister w = .ok (s', info)) {u : WorktreeId} (hu : w ≠ u) :
    s'.lastReport? u = s.lastReport? u := by
  simp only [lastReport?, state?, (unregister_eq_ok h).1, Table.get?_erase, if_neg hu]

theorem Consistent.unregister {s s' : FsSource} {w : WorktreeId} {info : RootInfo}
    (hc : Consistent s) (h : s.unregister w = .ok (s', info)) : Consistent s' := by
  obtain ⟨hr, ht, -⟩ := unregister_eq_ok h
  intro u
  simp only [state?, RootTable.get?, hr, ht, Table.get?_erase]
  by_cases hu : w = u
  · rw [if_pos hu, if_pos hu]
    rfl
  · rw [if_neg hu, if_neg hu]
    exact hc u

theorem setTier_eq_ok {s s' : FsSource} {w : WorktreeId} {tier : ActivityTier}
    (h : s.setTier w tier = .ok s') :
    ∃ table root root', s' = { s with table } ∧ s.table.get? w = some root ∧
      table.roots = Table.set s.table.roots w root' := by
  simp only [setTier, bind, Except.bind] at h
  cases hi : s.table.setTier w tier with
  | error e => rw [hi] at h; cases h
  | ok table =>
    simp only [hi] at h
    cases h
    simp only [RootTable.setTier] at hi
    cases hg : s.table.get? w with
    | none => rw [hg] at hi; cases hi
    | some root =>
      rw [hg] at hi
      cases hi
      exact ⟨_, root, _, rfl, rfl, rfl⟩

theorem Consistent.setTier {s s' : FsSource} {w : WorktreeId} {tier : ActivityTier}
    (hc : Consistent s) (h : s.setTier w tier = .ok s') : Consistent s' := by
  obtain ⟨table, root, root', rfl, hg, ht⟩ := setTier_eq_ok h
  intro u
  show (s.state? u).isSome = (Table.get? table.roots u).isSome
  rw [ht, Table.get?_set]
  by_cases hu : w = u
  · rw [if_pos hu, ← hu, hc w, hg]
    rfl
  · rw [if_neg hu]
    exact hc u

theorem ingest_state (s : FsSource) (paths : List Path) (now : Nat) :
    ∃ batcher, (s.ingest paths now).1 = { s with batcher } := by
  have h : ∀ routes : List Route, ∃ batcher, routes.foldl (note · now) s = { s with batcher } := by
    intro routes
    induction routes generalizing s with
    | nil => exact ⟨s.batcher, rfl⟩
    | cons route rest ih =>
      have hn : ∃ batcher, s.note now route = { s with batcher } := by
        cases route with
        | unowned => exact ⟨s.batcher, rfl⟩
        | statusOnly w => exact ⟨_, rfl⟩
        | changed w rel => exact ⟨_, rfl⟩
      obtain ⟨batcher, hn⟩ := hn
      obtain ⟨batcher', h'⟩ := ih (s.note now route)
      exact ⟨batcher', by rw [List.foldl_cons, h', hn]⟩
  exact h _

end FsSource

end Switchboard
