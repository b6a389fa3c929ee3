import Switchboard.Proofs.Batcher
import Switchboard.Proofs.Projection.Status
import Switchboard.Proofs.Roots.Ownership

/-!
# Runs of the filesystem source

Only registering and unregistering change which roots there are and under which number they were
registered. All other steps keep that, and the invariant of the source follows for every run.
-/
namespace Switchboard

def RootState.asked (state : RootState) (reason : ReconcileReason) : RootState :=
  if state.probing then { state with queued := some (.queue state.queued reason) }
  else { state with probing := true }

def RootState.answered (state : RootState) (report : Option StatusReport) : RootState :=
  { state with
    lastReport := report.or state.lastReport, probing := state.queued.isSome, queued := none }

namespace RootState

variable (state : RootState)

@[simp] theorem generation_asked (reason : ReconcileReason) :
    (state.asked reason).generation = state.generation := by
  simp only [asked]
  split <;> rfl

end RootState

namespace FsSource

open Mirror (Step perform)

def generation? (s : FsSource) (w : WorktreeId) : Option Nat := (s.state? w).map (·.generation)

def after (s : FsSource) (steps : List Step) : FsSource :=
  steps.foldl (fun s x => (perform s x).1) s

def told (s : FsSource) : List Step → List Envelope
  | [] => []
  | x :: rest => (perform s x).2 ++ told (perform s x).1 rest

def issued (s : FsSource) : Step → List ProbeRequest
  | .register w path tier =>
    match s.register w path tier with
    | .ok (_, probe) => [probe]
    | .error _ => []
  | .flushRoot w now => (s.flushRoot w now).2.probes
  | .flushDue now => (s.flushDue now).2.probes
  | .request w reason => (s.beginProbe w reason).2.toList
  | .requestAll reason => (s.reconcileAll reason).2
  | .answer o now => (s.applyStatus o now).2.probes
  | _ => []

def probes (s : FsSource) : List Step → List ProbeRequest
  | [] => []
  | x :: rest => s.issued x ++ probes (perform s x).1 rest

section Runs

variable (s : FsSource) (x : Step) (steps more : List Step)

@[simp] theorem after_nil : s.after [] = s := rfl

@[simp] theorem after_cons : s.after (x :: steps) = (perform s x).1.after steps := rfl

theorem after_append : s.after (steps ++ more) = (s.after steps).after more := List.foldl_append

theorem told_append : s.told (steps ++ more) = s.told steps ++ (s.after steps).told more := by
  induction steps generalizing s with
  | nil => rfl
  | cons x rest ih => simp [told, ih]

end Runs

/-- What holds of every step that leaves the registered roots alone. -/
structure Keeps (s s' : FsSource) : Prop where
  table : s'.table = s.table
  nextGeneration : s'.nextGeneration = s.nextGeneration
  ignoreDirs : s'.ignoreDirs = s.ignoreDirs
  policy : s'.batcher.policy = s.batcher.policy
  generation : ∀ u, s'.generation? u = s.generation? u
  sorted : Table.Sorted s.batcher.pending → Table.Sorted s'.batcher.pending
  owned : ∀ u, s'.batcher.hasPending u = true →
    s.batcher.hasPending u = true ∨ (s.table.get? u).isSome = true

theorem Keeps.refl (s : FsSource) : Keeps s s :=
  ⟨rfl, rfl, rfl, rfl, fun _ => rfl, fun h => h, fun _ h => .inl h⟩

theorem Keeps.trans {s s' s'' : FsSource} (h : Keeps s s') (h' : Keeps s' s'') : Keeps s s'' where
  table := h'.table.trans h.table
  nextGeneration := h'.nextGeneration.trans h.nextGeneration
  ignoreDirs := h'.ignoreDirs.trans h.ignoreDirs
  policy := h'.policy.trans h.policy
  generation u := (h'.generation u).trans (h.generation u)
  sorted hs := h'.sorted (h.sorted hs)
  owned u hu := by
    rcases h'.owned u hu with hu | hu
    · exact h.owned u hu
    · exact .inr (h.table ▸ hu)

theorem isSome_generation? (s : FsSource) (u : WorktreeId) :
    (s.generation? u).isSome = (s.state? u).isSome := Option.isSome_map

theorem Keeps.consistent {s s' : FsSource} (h : Keeps s s') (hc : s.Consistent) :
    s'.Consistent := by
  intro u
  rw [← isSome_generation?, h.generation, isSome_generation?, h.table]
  exact hc u

theorem keeps_withState {s : FsSource} {w : WorktreeId} {old new : RootState}
    (ho : s.state? w = some old) (hg : new.generation = old.generation) :
    Keeps s (s.withState w new) := by
  refine ⟨rfl, rfl, rfl, rfl, fun u => ?_, fun h => h, fun _ h => .inl h⟩
  rw [generation?, state?_withState]
  by_cases hu : w = u
  · subst hu
    simp [generation?, ho, hg]
  · simp [generation?, hu]

theorem keeps_numbering (s : FsSource) (batcher : Batcher) (sequencer : Sequencer)
    (hp : batcher.pending = s.batcher.pending) (hq : batcher.policy = s.batcher.policy) :
    Keeps s { s with batcher, sequencer } := by
  refine ⟨rfl, rfl, rfl, hq, fun _ => rfl, ?_, ?_⟩
  · exact fun h => by rw [hp]; exact h
  · intro u hu
    left
    rwa [Batcher.hasPending, Batcher.pending?, hp] at hu

theorem emitAll_fst (s : FsSource) (w : WorktreeId) (now : Nat) (events : List FilesystemEvent) :
    ∃ sequencer, (s.emitAll w now events).1 = { s with sequencer } := by
  induction events generalizing s with
  | nil => exact ⟨s.sequencer, rfl⟩
  | cons event rest ih =>
    obtain ⟨sequencer, h⟩ := ih (s.emit w now event).1
    exact ⟨sequencer, by rw [emitAll_cons, h]; rfl⟩

section Probes

variable {s : FsSource} {w : WorktreeId} {state : RootState}

theorem beginProbe_of_no_state (hs : s.state? w = none) (reason : ReconcileReason) :
    s.beginProbe w reason = (s, none) := by
  simp only [beginProbe, hs]
  cases s.table.get? w <;> rfl

theorem beginProbe_of_state (hc : s.Consistent) (hs : s.state? w = some state)
    (reason : ReconcileReason) : ∃ root, s.table.get? w = some root ∧
      s.beginProbe w reason = (s.withState w (state.asked reason),
        if state.probing then none else some ⟨w, root.path, state.generation, reason⟩) := by
  obtain ⟨root, hr⟩ := Option.isSome_iff_exists.mp ((hc w).symm.trans (by rw [hs]; rfl))
  refine ⟨root, hr, ?_⟩
  simp only [beginProbe, hr, hs, RootState.asked]
  split <;> rfl

theorem keeps_beginProbe (hc : s.Consistent) (w : WorktreeId) (reason : ReconcileReason) :
    Keeps s (s.beginProbe w reason).1 := by
  cases hs : s.state? w with
  | none =>
    rw [beginProbe_of_no_state hs]
    exact .refl s
  | some state =>
    obtain ⟨root, -, hb⟩ := beginProbe_of_state hc hs reason
    rw [hb]
    exact keeps_withState hs (by simp)

theorem keeps_beginProbes (hc : s.Consistent) (reason : ReconcileReason) (ws : List WorktreeId) :
    Keeps s (s.beginProbes reason ws).1 := by
  induction ws generalizing s with
  | nil => exact .refl s
  | cons w rest ih =>
    have h := keeps_beginProbe hc w reason
    exact h.trans (ih (h.consistent hc))

theorem batcher_beginProbe (hc : s.Consistent) (w : WorktreeId) (reason : ReconcileReason) :
    (s.beginProbe w reason).1.batcher = s.batcher := by
  cases hs : s.state? w with
  | none => rw [beginProbe_of_no_state hs]
  | some state =>
    obtain ⟨root, -, hb⟩ := beginProbe_of_state hc hs reason
    rw [hb]
    rfl

theorem state?_beginProbe (hc : s.Consistent) (w : WorktreeId) (reason : ReconcileReason)
    (u : WorktreeId) : (s.beginProbe w reason).1.state? u =
      if w = u then (s.state? u).map (·.asked reason) else s.state? u := by
  cases hs : s.state? w with
  | none =>
    rw [beginProbe_of_no_state hs]
    by_cases hu : w = u
    · subst hu
      simp [hs]
    · simp [hu]
  | some state =>
    obtain ⟨root, -, hb⟩ := beginProbe_of_state hc hs reason
    rw [hb, state?_withState]
    by_cases hu : w = u
    · subst hu
      simp [hs]
    · simp [hu]

end Probes

section Flushing

variable {s : FsSource} {w : WorktreeId}

theorem root_of_pending? {batch : PendingBatch}
    (ho : s.batcher.hasPending w = true → (s.table.get? w).isSome = true)
    (hb : s.batcher.pending? w = some batch) : ∃ root, s.table.get? w = some root := by
  refine Option.isSome_iff_exists.mp (ho ?_)
  rw [Batcher.hasPending, hb]
  rfl

theorem flushRoot_of_pending {batch : PendingBatch} {root : Root}
    (hb : s.batcher.pending? w = some batch) (ht : s.table.get? w = some root) (now : Nat) :
    let cut := (s.batcher.drop w).changesets w batch.paths now
    let mid := { s with batcher := cut.1 }.emitAll w now (cut.2.map .filesChanged)
    s.flushRoot w now = ((mid.1.beginProbe w .flush).1,
      ⟨mid.2, (mid.1.beginProbe w .flush).2.toList⟩) := by
  have htake : s.batcher.take w now =
      (((s.batcher.drop w).changesets w batch.paths now).1,
        some ⟨((s.batcher.drop w).changesets w batch.paths now).2, batch.statusDirty⟩) := by
    simp only [Batcher.take, hb]
  simp only [flushRoot, htake, ht]

theorem flushRoot_of_not_pending (hb : s.batcher.pending? w = none) (now : Nat) :
    s.flushRoot w now = (s, .nothing) := by
  simp only [flushRoot, Batcher.take, hb]

theorem keeps_take (s : FsSource) (w : WorktreeId) (paths : PathSet) (now : Nat)
    (events : List FilesystemEvent) :
    Keeps s ({ s with
      batcher := ((s.batcher.drop w).changesets w paths now).1 }.emitAll w now events).1 := by
  obtain ⟨sequencer, he⟩ := emitAll_fst
    { s with batcher := ((s.batcher.drop w).changesets w paths now).1 } w now events
  obtain ⟨hpending, hpolicy⟩ := (s.batcher.drop w).changesets_batcher w now paths
  rw [he]
  refine ⟨rfl, rfl, rfl, hpolicy, fun _ => rfl, ?_, ?_⟩
  · intro h
    rw [hpending]
    exact h.erase w
  · intro u hu
    left
    rw [Batcher.hasPending, Batcher.pending?_changesets, Batcher.pending?_drop] at hu
    by_cases hw : w = u
    · simp [hw] at hu
    · rwa [if_neg hw] at hu

theorem keeps_flushRoot (hc : s.Consistent) (ho : s.batcher.hasPending w = true →
    (s.table.get? w).isSome = true) (now : Nat) : Keeps s (s.flushRoot w now).1 := by
  cases hb : s.batcher.pending? w with
  | none =>
    rw [flushRoot_of_not_pending hb]
    exact .refl s
  | some batch =>
    obtain ⟨root, ht⟩ := root_of_pending? ho hb
    rw [flushRoot_of_pending hb ht]
    have h := keeps_take s w batch.paths now
      (((s.batcher.drop w).changesets w batch.paths now).2.map .filesChanged)
    exact h.trans (keeps_beginProbe (h.consistent hc) w .flush)

theorem pending?_flushRoot (hc : s.Consistent) (ho : s.batcher.hasPending w = true →
    (s.table.get? w).isSome = true) (now : Nat) (u : WorktreeId) :
    (s.flushRoot w now).1.batcher.pending? u = if w = u then none else s.batcher.pending? u := by
  cases hb : s.batcher.pending? w with
  | none =>
    rw [flushRoot_of_not_pending hb]
    by_cases hu : w = u
    · subst hu
      simpa using hb
    · rw [if_neg hu]
  | some batch =>
    obtain ⟨root, ht⟩ := root_of_pending? ho hb
    rw [flushRoot_of_pending hb ht]
    have hk := keeps_take s w batch.paths now
      (((s.batcher.drop w).changesets w batch.paths now).2.map .filesChanged)
    rw [batcher_beginProbe (hk.consistent hc)]
    obtain ⟨sequencer, he⟩ := emitAll_fst
      { s with batcher := ((s.batcher.drop w).changesets w batch.paths now).1 } w now
      (((s.batcher.drop w).changesets w batch.paths now).2.map .filesChanged)
    rw [he, Batcher.pending?_changesets, Batcher.pending?_drop]

theorem keeps_flushRoots (hc : s.Consistent) (ho : ∀ u, s.batcher.hasPending u = true →
    (s.table.get? u).isSome = true) (now : Nat) (ws : List WorktreeId) :
    Keeps s (s.flushRoots now ws).1 := by
  induction ws generalizing s with
  | nil => exact .refl s
  | cons w rest ih =>
    have h := keeps_flushRoot hc (ho w) now
    refine h.trans (ih (h.consistent hc) ?_)
    intro u hu
    rw [h.table]
    exact (h.owned u hu).elim (ho u) id

end Flushing

theorem keeps_note {s : FsSource} (now : Nat) {route : Route}
    (hr : ∀ w, route = .statusOnly w ∨ (∃ rel, route = .changed w rel) →
      (s.table.get? w).isSome = true) : Keeps s (s.note now route) := by
  cases route with
  | unowned => exact .refl s
  | statusOnly w =>
    refine ⟨rfl, rfl, rfl, rfl, fun _ => rfl, fun h => h.set _ _, ?_⟩
    intro u hu
    simp only [note, Batcher.hasPending, Batcher.pending?_noteStatus] at hu
    by_cases hw : w = u
    · exact .inr (hw ▸ hr w (.inl rfl))
    · rw [if_neg hw] at hu
      exact .inl hu
  | changed w rel =>
    refine ⟨rfl, rfl, rfl, rfl, fun _ => rfl, fun h => h.set _ _, ?_⟩
    intro u hu
    simp only [note, Batcher.hasPending, Batcher.pending?_notePath] at hu
    by_cases hw : w = u
    · exact .inr (hw ▸ hr w (.inr ⟨rel, rfl⟩))
    · rw [if_neg hw] at hu
      exact .inl hu

theorem registered_of_route {s : FsSource} (ht : s.table.Sound) {raw : Path} {w : WorktreeId}
    (h : s.route raw = .statusOnly w ∨ ∃ rel, s.route raw = .changed w rel) :
    (s.table.get? w).isSome = true := by
  simp only [route] at h
  cases ho : s.table.ownerOf? raw.normalize with
  | none => simp [ho] at h
  | some owner =>
    obtain ⟨root, rel⟩ := owner
    obtain ⟨⟨hin, -, -⟩, -⟩ := ht.ownerOf?_eq_some_iff.mp ho
    have hw : root.worktree = w := by
      rw [ho] at h
      dsimp only at h
      split at h <;> simp_all
    rw [← hw, ht.get?_of_mem hin]
    rfl

theorem keeps_notes {s : FsSource} (ht : s.table.Sound) (now : Nat) {routes : List Route}
    (hr : ∀ route ∈ routes, ∀ w, route = .statusOnly w ∨ (∃ rel, route = .changed w rel) →
      (s.table.get? w).isSome = true) : Keeps s (routes.foldl (note · now) s) := by
  induction routes generalizing s with
  | nil => exact .refl s
  | cons route rest ih =>
    have h := keeps_note now (hr route List.mem_cons_self)
    refine h.trans (ih (h.table ▸ ht) ?_)
    rw [h.table]
    exact fun r hm => hr r (List.mem_cons_of_mem _ hm)

theorem keeps_ingest {s : FsSource} (ht : s.table.Sound) (paths : List Path) (now : Nat) :
    Keeps s (s.ingest paths now).1 := by
  refine keeps_notes ht now ?_
  intro route hm w hw
  obtain ⟨raw, -, rfl⟩ := List.mem_map.mp hm
  exact registered_of_route ht hw

section Answers

variable {s : FsSource} {o : ProbeOutcome}

/-- The state of the root that an answer is for, if the answer is taken. -/
def awaiting? (s : FsSource) (o : ProbeOutcome) : Option RootState :=
  (s.state? o.worktree).filter (·.generation = o.generation)

theorem awaiting?_eq_some {state : RootState} : s.awaiting? o = some state ↔
    s.state? o.worktree = some state ∧ state.generation = o.generation := by
  simp [awaiting?, Option.filter_eq_some_iff]

theorem applyStatus_of_dropped (h : s.awaiting? o = none) (now : Nat) :
    s.applyStatus o now = (s, .nothing) := by
  simp only [applyStatus]
  cases hs : s.state? o.worktree with
  | none => rfl
  | some state =>
    have hg : state.generation ≠ o.generation := by
      simpa [awaiting?, hs] using h
    simp only [if_pos hg]

def heard (s : FsSource) (o : ProbeOutcome) (state : RootState) (now : Nat) :
    FsSource × List Envelope :=
  match o.report with
  | none => (s.withState o.worktree (RootState.over state), [])
  | some report => s.applyReport o.worktree o.reason (RootState.over state) report now

theorem applyStatus_of_awaited {state : RootState} (h : s.awaiting? o = some state) (now : Nat) :
    s.applyStatus o now = resumed (s.heard o state now) o.worktree state.queued := by
  obtain ⟨hs, hg⟩ := awaiting?_eq_some.mp h
  rw [applyStatus_of_state hs hg, heard]
  cases o.report <;> rfl

theorem heard_fst (s : FsSource) (o : ProbeOutcome) (state : RootState) (now : Nat) :
    ∃ batcher sequencer, batcher.pending = s.batcher.pending ∧
      batcher.policy = s.batcher.policy ∧
      (s.heard o state now).1 = { s.withState o.worktree { state with
        lastReport := o.report.or state.lastReport, probing := false, queued := none } with
          batcher, sequencer } := by
  rw [heard]
  cases o.report with
  | none => exact ⟨s.batcher, s.sequencer, rfl, rfl, rfl⟩
  | some report =>
    simp only [applyReport]
    obtain ⟨sequencer, he⟩ := emitAll_fst _ o.worktree now _
    rw [he]
    exact ⟨_, sequencer, (Batcher.changesets_batcher _ _ _ _).1,
      (Batcher.changesets_batcher _ _ _ _).2, rfl⟩

theorem keeps_heard {state : RootState} (h : s.awaiting? o = some state) (now : Nat) :
    Keeps s (s.heard o state now).1 := by
  obtain ⟨hs, -⟩ := awaiting?_eq_some.mp h
  obtain ⟨batcher, sequencer, hp, hq, he⟩ := heard_fst s o state now
  rw [he]
  refine Keeps.trans (keeps_withState hs ?_) (keeps_numbering _ batcher sequencer hp hq)
  rfl

theorem keeps_applyStatus (hc : s.Consistent) (o : ProbeOutcome) (now : Nat) :
    Keeps s (s.applyStatus o now).1 := by
  cases h : s.awaiting? o with
  | none =>
    rw [applyStatus_of_dropped h]
    exact .refl s
  | some state =>
    have hk := keeps_heard h now
    rw [applyStatus_of_awaited h]
    cases state.queued with
    | none => exact hk
    | some reason => exact hk.trans (keeps_beginProbe (hk.consistent hc) _ reason)

theorem state?_heard (s : FsSource) (o : ProbeOutcome) (state : RootState) (now : Nat)
    (u : WorktreeId) : (s.heard o state now).1.state? u =
      if o.worktree = u then some { state with
        lastReport := o.report.or state.lastReport, probing := false, queued := none }
      else s.state? u := by
  obtain ⟨batcher, sequencer, -, -, he⟩ := heard_fst s o state now
  rw [he]
  exact state?_withState _ _ _ _

theorem state?_applyStatus (hc : s.Consistent) {state : RootState}
    (h : s.awaiting? o = some state) (now : Nat) (u : WorktreeId) :
    (s.applyStatus o now).1.state? u =
      if o.worktree = u then some (state.answered o.report) else s.state? u := by
  have hk := keeps_heard h now
  rw [applyStatus_of_awaited h]
  cases hq : state.queued with
  | none =>
    simp only [resumed, state?_heard, RootState.answered, hq]
    rfl
  | some reason =>
    simp only [resumed]
    rw [state?_beginProbe (hk.consistent hc), state?_heard]
    by_cases hu : o.worktree = u
    · simp [hu, RootState.asked, RootState.answered, hq]
    · simp [hu]

theorem probes_applyStatus (hc : s.Consistent) {state : RootState}
    (h : s.awaiting? o = some state) (now : Nat) : ∃ path, (s.applyStatus o now).2.probes =
      (state.queued.map fun reason => ⟨o.worktree, path, o.generation, reason⟩).toList := by
  have hk := keeps_heard h now
  obtain ⟨-, hg⟩ := awaiting?_eq_some.mp h
  rw [applyStatus_of_awaited h]
  cases state.queued with
  | none => exact ⟨⟨""⟩, rfl⟩
  | some reason =>
    have hs := state?_heard s o state now o.worktree
    rw [if_pos rfl] at hs
    obtain ⟨root, -, hb⟩ := beginProbe_of_state (hk.consistent hc) hs reason
    refine ⟨root.path, ?_⟩
    simp [resumed, hb, hg]

end Answers

section Registration

variable {s s' : FsSource} {w : WorktreeId} {path : Path} {tier : ActivityTier}

theorem register_cases {probe : ProbeRequest} (h : s.register w path tier = .ok (s', probe)) :
    ∃ table, s.table.insert w path tier = .ok table ∧
      (s.entered table w).beginProbe w .wake = (s', some probe) := by
  simp only [register, bind, Except.bind] at h
  cases hi : s.table.insert w path tier with
  | error e => rw [hi] at h; cases h
  | ok table =>
    simp only [hi] at h
    refine ⟨table, rfl, ?_⟩
    split at h
    · next hb =>
      cases h
      exact hb
    · cases h

theorem unregister_cases {info : RootInfo} (h : s.unregister w = .ok (s', info)) :
    ∃ table root, s.table.remove w = .ok (table, root) ∧ info = s.table.info root ∧
      s' = { s with
        table
        batcher := s.batcher.drop w
        roots := Table.erase s.roots w
        focused := if s.focused = some w then none else s.focused } := by
  simp only [unregister, bind, Except.bind] at h
  cases hi : s.table.remove w with
  | error e => rw [hi] at h; cases h
  | ok out =>
    simp only [hi] at h
    cases h
    exact ⟨out.1, out.2, rfl, rfl, rfl⟩

theorem setTier_cases (h : s.setTier w tier = .ok s') :
    ∃ table, s.table.setTier w tier = .ok table ∧ s' = { s with table } := by
  simp only [setTier, bind, Except.bind] at h
  cases hi : s.table.setTier w tier with
  | error e => rw [hi] at h; cases h
  | ok table =>
    simp only [hi] at h
    cases h
    exact ⟨table, rfl, rfl⟩

theorem state?_entered (s : FsSource) (table : RootTable) (w u : WorktreeId) :
    (s.entered table w).state? u =
      if w = u then some ⟨s.nextGeneration, none, false, none⟩ else s.state? u :=
  state?_withState _ _ _ _

theorem consistent_entered (hc : s.Consistent) {table : RootTable}
    (h : s.table.insert w path tier = .ok table) : (s.entered table w).Consistent := by
  obtain ⟨-, -, rfl⟩ := RootTable.insert_eq_ok h
  intro u
  rw [state?_entered]
  have ht : (s.entered { s.table with
      roots := Table.set s.table.roots w
        ⟨w, path, tier, path.key s.table.foldCase⟩ } w).table.get? u =
      if w = u then some ⟨w, path, tier, path.key s.table.foldCase⟩ else s.table.get? u :=
    Table.get?_set _ _ _ _
  rw [ht]
  by_cases hu : w = u
  · simp [hu]
  · simpa [hu] using hc u

theorem state?_register (hc : s.Consistent) {probe : ProbeRequest}
    (h : s.register w path tier = .ok (s', probe)) (u : WorktreeId) :
    s'.state? u = if w = u then some ⟨s.nextGeneration, none, true, none⟩ else s.state? u := by
  obtain ⟨table, hi, hb⟩ := register_cases h
  have := state?_beginProbe (consistent_entered hc hi) w .wake u
  rw [hb, state?_entered] at this
  rw [this]
  by_cases hu : w = u
  · simp [hu, RootState.asked]
  · simp [hu]

theorem probe_register (hc : s.Consistent) {probe : ProbeRequest}
    (h : s.register w path tier = .ok (s', probe)) :
    probe = ⟨w, path, s.nextGeneration, .wake⟩ := by
  obtain ⟨table, hi, hb⟩ := register_cases h
  have hs := state?_entered s table w w
  rw [if_pos rfl] at hs
  obtain ⟨root, hr, hb'⟩ := beginProbe_of_state (consistent_entered hc hi) hs .wake
  have hpath : root.path = path := by
    obtain ⟨-, -, rfl⟩ := RootTable.insert_eq_ok hi
    have hget : Table.get? (Table.set s.table.roots w
        (⟨w, path, tier, path.key s.table.foldCase⟩ : Root)) w = some root := hr
    rw [Table.get?_set_self, Option.some.injEq] at hget
    rw [← hget]
  rw [hb', Prod.mk.injEq] at hb
  have hp : some (⟨w, root.path, s.nextGeneration, .wake⟩ : ProbeRequest) = some probe := hb.2
  rw [← Option.some.inj hp, hpath]

end Registration

structure Sound (s : FsSource) : Prop where
  table : s.table.Sound
  consistent : s.Consistent
  numbered : ∀ u g, s.generation? u = some g → g < s.nextGeneration
  parts : 0 < s.batcher.policy.maxPaths
  sorted : Table.Sorted s.batcher.pending
  owned : ∀ u, s.batcher.hasPending u = true → (s.table.get? u).isSome = true

theorem sound_create (config : FsConfig) (epoch : Nat) : Sound (create config epoch) where
  table := RootTable.sound_create _
  consistent := consistent_create _ _
  numbered u g h := by cases h
  parts := Nat.le_max_right _ _
  sorted := Table.sorted_nil
  owned u h := by cases h

namespace Sound

variable {s s' : FsSource} {w : WorktreeId} {path : Path} {tier : ActivityTier}

theorem keeps (h : s.Sound) (hk : Keeps s s') : s'.Sound where
  table := hk.table ▸ h.table
  consistent := hk.consistent h.consistent
  numbered u g hg := by
    rw [hk.nextGeneration]
    exact h.numbered u g (hk.generation u ▸ hg)
  parts := hk.policy ▸ h.parts
  sorted := hk.sorted h.sorted
  owned u hu := by
    rw [hk.table]
    exact (hk.owned u hu).elim (h.owned u) id

theorem entered (h : s.Sound) {table : RootTable} (hi : s.table.insert w path tier = .ok table) :
    (s.entered table w).Sound where
  table := h.table.insert hi
  consistent := consistent_entered h.consistent hi
  numbered u g hg := by
    rw [generation?, state?_entered] at hg
    show g < s.nextGeneration + 1
    by_cases hu : w = u
    · simp only [if_pos hu, Option.map_some, Option.some.injEq] at hg
      omega
    · rw [if_neg hu] at hg
      have := h.numbered u g hg
      omega
  parts := h.parts
  sorted := h.sorted
  owned u hu := by
    have hin : (s.table.get? u).isSome = true := h.owned u hu
    rw [← h.consistent] at hin
    rw [← consistent_entered h.consistent hi, state?_entered]
    by_cases hw : w = u
    · simp [hw]
    · simpa [hw] using hin

theorem register (h : s.Sound) {probe : ProbeRequest}
    (hr : s.register w path tier = .ok (s', probe)) : s'.Sound := by
  obtain ⟨table, hi, hb⟩ := register_cases hr
  have hk := keeps_beginProbe (h.entered hi).consistent w .wake
  rw [hb] at hk
  exact (h.entered hi).keeps hk

theorem unregister (h : s.Sound) {info : RootInfo} (hu : s.unregister w = .ok (s', info)) :
    s'.Sound := by
  have hc := h.consistent.unregister hu
  obtain ⟨table, root, hr, -, rfl⟩ := unregister_cases hu
  refine ⟨h.table.remove hr, hc, ?_, h.parts, h.sorted.erase w, ?_⟩
  · intro u g hg
    rw [generation?, state?, Table.get?_erase] at hg
    by_cases hw : w = u
    · simp [hw] at hg
    · rw [if_neg hw] at hg
      exact h.numbered u g hg
  · intro u hu
    obtain ⟨-, rfl⟩ := RootTable.remove_eq_ok hr
    simp only [Batcher.hasPending, Batcher.pending?_drop, RootTable.get?, Table.get?_erase] at hu ⊢
    by_cases hw : w = u
    · simp [hw] at hu
    · rw [if_neg hw] at hu ⊢
      exact h.owned u hu

theorem setTier (h : s.Sound) (ht : s.setTier w tier = .ok s') : s'.Sound := by
  have hc := h.consistent.setTier ht
  obtain ⟨table, hi, rfl⟩ := setTier_cases ht
  refine ⟨h.table.setTier hi, hc, h.numbered, h.parts, h.sorted, ?_⟩
  intro u hu
  have := h.owned u hu
  rw [← h.consistent] at this
  rwa [← hc u]

theorem perform_cases (h : s.Sound) (x : Step) :
    Keeps s (perform s x).1 ∨
      (∃ w path tier probe, x = .register w path tier ∧
        s.register w path tier = .ok ((perform s x).1, probe)) ∨
      (∃ w info, x = .unregister w ∧ s.unregister w = .ok ((perform s x).1, info)) ∨
      ∃ w tier, x = .setTier w tier ∧ s.setTier w tier = .ok (perform s x).1 := by
  cases x with
  | register w path tier =>
    cases hr : s.register w path tier with
    | error e => exact .inl (by simpa only [perform, hr] using .refl s)
    | ok out => exact .inr (.inl ⟨w, path, tier, out.2, rfl, by simp only [perform, hr]⟩)
  | unregister w =>
    cases hr : s.unregister w with
    | error e => exact .inl (by simpa only [perform, hr] using .refl s)
    | ok out => exact .inr (.inr (.inl ⟨w, out.2, rfl, by simp only [perform, hr]⟩))
  | setTier w tier =>
    cases hr : s.setTier w tier with
    | error e => exact .inl (by simpa only [perform, hr] using .refl s)
    | ok out => exact .inr (.inr (.inr ⟨w, tier, rfl, by simp only [perform, hr]⟩))
  | setFocused w =>
    exact .inl ⟨rfl, rfl, rfl, rfl, fun _ => rfl, fun h => h, fun _ h => .inl h⟩
  | ingest paths now => exact .inl (keeps_ingest h.table paths now)
  | flushRoot w now => exact .inl (keeps_flushRoot h.consistent (h.owned w) now)
  | flushDue now => exact .inl (keeps_flushRoots h.consistent h.owned now _)
  | request w reason => exact .inl (keeps_beginProbe h.consistent w reason)
  | requestAll reason => exact .inl (keeps_beginProbes h.consistent reason _)
  | answer o now => exact .inl (keeps_applyStatus h.consistent o now)

theorem perform (h : s.Sound) (x : Step) : (Mirror.perform s x).1.Sound := by
  rcases h.perform_cases x with hk | ⟨w, path, tier, probe, -, hr⟩ | ⟨w, info, -, hr⟩ |
    ⟨w, tier, -, hr⟩
  · exact h.keeps hk
  · exact h.register hr
  · exact h.unregister hr
  · exact h.setTier hr

theorem after (h : s.Sound) (steps : List Step) : (s.after steps).Sound := by
  induction steps generalizing s with
  | nil => exact h
  | cons x rest ih => exact ih (h.perform x)

theorem generation?_perform (h : s.Sound) (x : Step) {u : WorktreeId} {g : Nat}
    (hg : (Mirror.perform s x).1.generation? u = some g) :
    s.generation? u = some g ∨ g = s.nextGeneration := by
  rcases h.perform_cases x with hk | ⟨w, path, tier, probe, -, hr⟩ | ⟨w, info, -, hr⟩ |
    ⟨w, tier, -, hr⟩
  · exact .inl (hk.generation u ▸ hg)
  · rw [generation?, state?_register h.consistent hr] at hg
    by_cases hu : w = u
    · rw [if_pos hu, Option.map_some, Option.some.injEq] at hg
      exact .inr hg.symm
    · rw [if_neg hu] at hg
      exact .inl hg
  · obtain ⟨table, root, -, -, he⟩ := unregister_cases hr
    rw [he, generation?, state?, Table.get?_erase] at hg
    by_cases hu : w = u
    · simp [hu] at hg
    · rw [if_neg hu] at hg
      exact .inl hg
  · obtain ⟨table, -, he⟩ := setTier_cases hr
    rw [he] at hg
    exact .inl hg

theorem nextGeneration_perform (h : s.Sound) (x : Step) :
    s.nextGeneration ≤ (Mirror.perform s x).1.nextGeneration := by
  rcases h.perform_cases x with hk | ⟨w, path, tier, probe, -, hr⟩ | ⟨w, info, -, hr⟩ |
    ⟨w, tier, -, hr⟩
  · exact Nat.le_of_eq hk.nextGeneration.symm
  · obtain ⟨table, hi, hb⟩ := register_cases hr
    have hk := keeps_beginProbe (h.entered hi).consistent w .wake
    rw [hb] at hk
    rw [hk.nextGeneration]
    exact Nat.le_succ _
  · obtain ⟨table, root, -, -, he⟩ := unregister_cases hr
    rw [he]
  · obtain ⟨table, -, he⟩ := setTier_cases hr
    rw [he]

theorem nextGeneration_after (h : s.Sound) (steps : List Step) :
    s.nextGeneration ≤ (s.after steps).nextGeneration := by
  induction steps generalizing s with
  | nil => exact Nat.le_refl _
  | cons x rest ih => exact Nat.le_trans (h.nextGeneration_perform x) (ih (h.perform x))

theorem generation_ge_after (h : s.Sound) {floor : Nat} (hn : floor ≤ s.nextGeneration)
    (hw : ∀ g, s.generation? w = some g → floor ≤ g) (steps : List Step) :
    ∀ g, (s.after steps).generation? w = some g → floor ≤ g := by
  induction steps generalizing s with
  | nil => exact hw
  | cons x rest ih =>
    refine ih (h.perform x) (Nat.le_trans hn (h.nextGeneration_perform x)) fun g hg => ?_
    rcases h.generation?_perform x hg with hg | rfl
    · exact hw g hg
    · exact hn

theorem generation?_between (h : s.Sound) {g : Nat} {steps more : List Step}
    (hg : s.generation? w = some g) (hg' : (s.after (steps ++ more)).generation? w = some g) :
    (s.after steps).generation? w = some g := by
  have hlt : g + 1 ≤ (s.after steps).nextGeneration :=
    Nat.le_trans (h.numbered w g hg) (h.nextGeneration_after steps)
  have hle : ∀ g', (s.after steps).generation? w = some g' → g ≤ g' :=
    h.generation_ge_after (Nat.le_of_lt (h.numbered w g hg)) (by simp [hg]) steps
  rw [after_append] at hg'
  by_contra hne
  -- The root would have a newer number, or none, and from there it never gets back to this one.
  have := (h.after steps).generation_ge_after hlt (fun g' hg' => ?_) more g hg'
  · omega
  · have hne' : g' ≠ g := fun he => hne (he ▸ hg')
    have := hle g' hg'
    omega

theorem generation?_perform_unregister (h : s.Sound) (w : WorktreeId) :
    (Mirror.perform s (.unregister w)).1.generation? w = none := by
  simp only [Mirror.perform]
  cases hu : s.unregister w with
  | ok out =>
    obtain ⟨table, root, -, -, he⟩ := unregister_cases hu
    simp only [he, generation?, state?, Table.get?_erase, if_pos, Option.map_none]
  | error e =>
    have hnone : s.table.get? w = none := by
      cases ht : s.table.get? w with
      | none => rfl
      | some root =>
        have hr : s.table.remove w = .ok ({ s.table with
            roots := Table.erase s.table.roots w }, root) := by
          simp only [RootTable.remove, ht]
        simp [FsSource.unregister, hr, bind, Except.bind] at hu
    have hstate := h.consistent w
    rw [hnone] at hstate
    simpa [generation?] using hstate

theorem unregister_not_mem (h : s.Sound) {g : Nat} {steps : List Step}
    (hg : s.generation? w = some g) (hg' : (s.after steps).generation? w = some g) :
    .unregister w ∉ steps := by
  intro hm
  obtain ⟨before, behind, rfl⟩ := List.append_of_mem hm
  have hsplit : before ++ .unregister w :: behind = (before ++ [.unregister w]) ++ behind := by simp
  rw [hsplit] at hg'
  have hbetween := h.generation?_between hg hg'
  rw [after_append] at hbetween
  have hnone := (h.after before).generation?_perform_unregister w
  exact absurd (hbetween.symm.trans hnone) (by simp)

end Sound

end FsSource

end Switchboard
