import Switchboard.Proofs.FsSource.Changes
import Switchboard.Proofs.FsSource.Probes

/-!
# Unregistering a root

Numbers of registrations only grow, so what was asked for under an old number is never taken again,
and what a root has pending when it is unregistered is gone. After that only a new registration and
new notices make the source tell anything of it.
-/
namespace Switchboard

open Mirror (Step perform)

namespace FsSource

section Generations

variable {s : FsSource} {w : WorktreeId} {steps : List Step}

theorem generation_lt_of_mem_probes (h : s.Sound) {r : ProbeRequest} (hr : r ∈ s.probes steps) :
    r.generation < (s.after steps).nextGeneration := by
  induction steps generalizing s with
  | nil => cases hr
  | cons x rest ih =>
    rcases List.mem_append.mp hr with hr | hr
    · have := (h.perform x).numbered _ _ (generation?_of_issued h hr)
      have := (h.perform x).nextGeneration_after rest
      rw [after_cons]
      omega
    · exact ih (h.perform x) hr

theorem applyStatus_of_old {r : ProbeRequest}
    (h : ∀ g, s.generation? r.worktree = some g → r.generation < g) (report : Option StatusReport)
    (now : Nat) : s.applyStatus (r.outcome report) now = (s, .nothing) := by
  refine applyStatus_of_dropped ?_ now
  rw [Option.eq_none_iff_forall_ne_some]
  intro state ha
  obtain ⟨hs, hg⟩ := awaiting?_eq_some.mp ha
  have hlt := h state.generation (Option.map_eq_some_iff.mpr ⟨state, hs, rfl⟩)
  have hg : state.generation = r.generation := hg
  omega

end Generations

section Telling

variable {s : FsSource} {w : WorktreeId}

theorem worktree_emitAll (s : FsSource) (w : WorktreeId) (now : Nat)
    (events : List FilesystemEvent) : ∀ e ∈ (s.emitAll w now events).2, e.worktree = some w := by
  induction events generalizing s with
  | nil => simp [emitAll]
  | cons event rest ih =>
    rw [emitAll_cons, List.forall_mem_cons]
    exact ⟨rfl, ih _⟩

theorem registered_of_told_flushRoot (h : s.Sound) {u : WorktreeId} {now : Nat} {e : Envelope}
    (he : e ∈ (s.flushRoot u now).2.envelopes) (hw : e.worktree = some w) :
    (s.table.get? w).isSome = true := by
  cases hb : s.batcher.pending? u with
  | none =>
    rw [flushRoot_of_not_pending hb] at he
    cases he
  | some batch =>
    have hu : (s.table.get? u).isSome = true :=
      h.owned u ((Batcher.hasPending_iff _ _).mpr ⟨batch, hb⟩)
    obtain ⟨root, ht⟩ := Option.isSome_iff_exists.mp hu
    rw [flushRoot_of_pending hb ht] at he
    rw [worktree_emitAll _ _ _ _ e he, Option.some.injEq] at hw
    exact hw ▸ hu

theorem registered_of_told_flushRoots (h : s.Sound) {now : Nat} {ws : List WorktreeId}
    {e : Envelope} (he : e ∈ (s.flushRoots now ws).2.envelopes) (hw : e.worktree = some w) :
    (s.table.get? w).isSome = true := by
  induction ws generalizing s with
  | nil => cases he
  | cons u rest ih =>
    have hk := keeps_flushRoot h.consistent (h.owned u) now
    rcases List.mem_append.mp he with he | he
    · exact registered_of_told_flushRoot h he hw
    · exact hk.table ▸ ih (h.keeps hk) he

theorem registered_of_told_answer (h : s.Sound) {o : ProbeOutcome} {now : Nat} {e : Envelope}
    (he : e ∈ (s.applyStatus o now).2.envelopes) (hw : e.worktree = some w) :
    (s.table.get? w).isSome = true := by
  cases ha : s.awaiting? o with
  | none =>
    rw [applyStatus_of_dropped ha] at he
    cases he
  | some state =>
    obtain ⟨hs, -⟩ := awaiting?_eq_some.mp ha
    rw [applyStatus_of_awaited ha, envelopes_resumed, heard] at he
    cases hr : o.report with
    | none =>
      rw [hr] at he
      cases he
    | some report =>
      rw [hr] at he
      rw [worktree_emitAll _ _ _ _ e he, Option.some.injEq] at hw
      rw [← hw, ← h.consistent, hs]
      rfl

theorem registered_of_told (h : s.Sound) {x : Step} {e : Envelope} (he : e ∈ (perform s x).2)
    (hw : e.worktree = some w) : (s.table.get? w).isSome = true := by
  cases x with
  | flushRoot u now => exact registered_of_told_flushRoot h he hw
  | flushDue now => exact registered_of_told_flushRoots h he hw
  | answer o now => exact registered_of_told_answer h he hw
  | register u path tier =>
    simp only [perform] at he
    split at he <;> cases he
  | unregister u =>
    simp only [perform] at he
    split at he <;> cases he
  | setTier u tier =>
    simp only [perform] at he
    split at he <;> cases he
  | _ => cases he

theorem registered_perform (h : s.Sound) {x : Step}
    (hw : ((perform s x).1.table.get? w).isSome = true) : (s.table.get? w).isSome = true ∨
      ∃ path tier out, x = .register w path tier ∧ s.register w path tier = .ok out := by
  rcases h.perform_cases x with hk | ⟨u, path, tier, probe, rfl, hr⟩ | ⟨u, info, -, hu⟩ |
    ⟨u, tier, -, ht⟩
  · exact .inl (hk.table ▸ hw)
  · by_cases hwu : u = w
    · exact .inr ⟨path, tier, _, by rw [hwu], hwu ▸ hr⟩
    · rw [← (h.perform _).consistent, state?_register h.consistent hr, if_neg hwu] at hw
      exact .inl (h.consistent w ▸ hw)
  · obtain ⟨table, root, -, -, he⟩ := unregister_cases hu
    rw [← (h.perform x).consistent, he, state?, Table.get?_erase] at hw
    by_cases hwu : u = w
    · simp [hwu] at hw
    · rw [if_neg hwu] at hw
      exact .inl (h.consistent w ▸ hw)
  · obtain ⟨table, -, he⟩ := setTier_cases ht
    rw [← (h.perform x).consistent, he] at hw
    exact .inl (h.consistent w ▸ hw)

theorem registered_after (h : s.Sound) {steps : List Step}
    (hw : ((s.after steps).table.get? w).isSome = true) : (s.table.get? w).isSome = true ∨
      ∃ before path tier between out, steps = before ++ .register w path tier :: between ∧
        (s.after before).register w path tier = .ok out := by
  induction steps generalizing s with
  | nil => exact .inl hw
  | cons x rest ih =>
    rcases ih (h.perform x) hw with hw | ⟨before, path, tier, between, out, rfl, ho⟩
    · rcases registered_perform h hw with hw | ⟨path, tier, out, rfl, ho⟩
      · exact .inl hw
      · exact .inr ⟨[], path, tier, rest, out, rfl, ho⟩
    · exact .inr ⟨x :: before, path, tier, between, out, rfl, ho⟩

end Telling

/-- A notice that came in and was not flushed yet. -/
def Pends (s : FsSource) : Route → Prop
  | .unowned => False
  | .statusOnly w => s.batcher.statusPending w = true
  | .changed w rel => rel ∈ s.batcher.waiting w

def Noticed (s : FsSource) (steps : List Step) (r : Route) : Prop :=
  ∃ before raws now behind, steps = before ++ .ingest raws now :: behind ∧
    ∃ raw ∈ raws, (s.after before).route raw = r

section Pending

variable {s s' : FsSource} {w : WorktreeId} {r : Route}

def Spends (s s' : FsSource) : Prop :=
  ∀ w batch, s'.batcher.pending? w = some batch → s.batcher.pending? w = some batch

theorem Spends.trans {s'' : FsSource} (h : Spends s s') (h' : Spends s' s'') : Spends s s'' :=
  fun w batch hb => h w batch (h' w batch hb)

theorem Spends.pends (hp : Spends s s') (h : s'.Pends r) : s.Pends r := by
  cases r with
  | unowned => exact h
  | statusOnly w =>
    simp only [Pends, Batcher.statusPending] at h ⊢
    cases hb : s'.batcher.pending? w with
    | none => simp [hb] at h
    | some batch =>
      rw [hb] at h
      rwa [hp w batch hb]
  | changed w rel =>
    simp only [Pends, Batcher.waiting] at h ⊢
    cases hb : s'.batcher.pending? w with
    | none => simp [hb] at h
    | some batch =>
      rw [hb] at h
      rwa [hp w batch hb]

theorem pends_note (s : FsSource) (now : Nat) {new : Route} (h : (s.note now new).Pends r) :
    s.Pends r ∨ new = r := by
  cases new with
  | unowned => exact .inl h
  | statusOnly u =>
    cases r with
    | unowned => exact .inl h
    | statusOnly w =>
      by_cases hu : u = w
      · exact .inr (hu ▸ rfl)
      · left
        simpa [Pends, note, Batcher.statusPending_noteStatus, hu] using h
    | changed w rel =>
      left
      simpa [Pends, note, Batcher.waiting_noteStatus] using h
  | changed u rel' =>
    cases r with
    | unowned => exact .inl h
    | statusOnly w =>
      left
      simpa [Pends, note, Batcher.statusPending_notePath] using h
    | changed w rel =>
      simp only [Pends, note, Batcher.waiting_notePath] at h ⊢
      by_cases hu : u = w
      · rw [if_pos hu] at h
        rcases PathSet.mem_insert h with rfl | h
        · exact .inr (hu ▸ rfl)
        · exact .inl h
      · rw [if_neg hu] at h
        exact .inl h

theorem pends_ingest {raws : List Path} {now : Nat} (h : (s.ingest raws now).1.Pends r) :
    s.Pends r ∨ ∃ raw ∈ raws, s.route raw = r := by
  have hnotes : ∀ (routes : List Route) (s : FsSource),
      (routes.foldl (note · now) s).Pends r → s.Pends r ∨ r ∈ routes := by
    intro routes
    induction routes with
    | nil => exact fun s h => .inl h
    | cons new rest ih =>
      intro s h
      rcases ih _ h with h | h
      · refine (pends_note s now h).imp id ?_
        rintro rfl
        exact List.mem_cons_self
      · exact .inr (List.mem_cons_of_mem _ h)
  exact (hnotes _ s h).imp id List.mem_map.mp

theorem spends_beginProbe (hc : s.Consistent) (w : WorktreeId) (reason : ReconcileReason) :
    Spends s (s.beginProbe w reason).1 := by
  intro u batch hb
  rwa [batcher_beginProbe hc] at hb

theorem spends_beginProbes (hc : s.Consistent) (reason : ReconcileReason) (ws : List WorktreeId) :
    Spends s (s.beginProbes reason ws).1 := by
  induction ws generalizing s with
  | nil => exact fun _ _ hb => hb
  | cons w rest ih =>
    exact (spends_beginProbe hc w reason).trans
      (ih ((keeps_beginProbe hc w reason).consistent hc))

theorem spends_flushRoot (h : s.Sound) (w : WorktreeId) (now : Nat) :
    Spends s (s.flushRoot w now).1 := by
  intro u batch hb
  rw [pending?_flushRoot h.consistent (h.owned w)] at hb
  split at hb
  · cases hb
  · exact hb

theorem spends_flushRoots (h : s.Sound) (now : Nat) (ws : List WorktreeId) :
    Spends s (s.flushRoots now ws).1 := by
  induction ws generalizing s with
  | nil => exact fun _ _ hb => hb
  | cons w rest ih =>
    exact (spends_flushRoot h w now).trans
      (ih (h.keeps (keeps_flushRoot h.consistent (h.owned w) now)))

theorem spends_answer (hc : s.Consistent) (o : ProbeOutcome) (now : Nat) :
    Spends s (s.applyStatus o now).1 := by
  cases ha : s.awaiting? o with
  | none =>
    rw [applyStatus_of_dropped ha]
    exact fun _ _ hb => hb
  | some state =>
    have hheard : Spends s (s.heard o state now).1 := by
      obtain ⟨batcher, sequencer, hp, -, he⟩ := heard_fst s o state now
      intro u batch hb
      rw [he] at hb
      rwa [Batcher.pending?, ← hp]
    rw [applyStatus_of_awaited ha]
    cases state.queued with
    | none => exact hheard
    | some reason =>
      exact hheard.trans (spends_beginProbe ((keeps_heard ha now).consistent hc) _ reason)

theorem spends_perform (h : s.Sound) {x : Step} (hx : ∀ raws now, x ≠ .ingest raws now) :
    Spends s (perform s x).1 := by
  cases x with
  | ingest raws now => exact absurd rfl (hx raws now)
  | register u path tier =>
    simp only [perform]
    cases hr : s.register u path tier with
    | error e => exact fun _ _ hb => hb
    | ok out =>
      obtain ⟨table, hi, hb⟩ := register_cases hr
      have hs := spends_beginProbe (consistent_entered h.consistent hi) u .wake
      rw [hb] at hs
      exact hs
  | unregister u =>
    simp only [perform]
    cases hu : s.unregister u with
    | error e => exact fun _ _ hb => hb
    | ok out =>
      obtain ⟨table, root, -, -, he⟩ := unregister_cases hu
      intro w batch hb
      rw [he, Batcher.pending?_drop] at hb
      split at hb
      · cases hb
      · exact hb
  | setTier u tier =>
    simp only [perform]
    cases ht : s.setTier u tier with
    | error e => exact fun _ _ hb => hb
    | ok out =>
      obtain ⟨table, -, rfl⟩ := setTier_cases ht
      exact fun _ _ hb => hb
  | setFocused u => exact fun _ _ hb => hb
  | flushRoot u now => exact spends_flushRoot h u now
  | flushDue now => exact spends_flushRoots h now _
  | request u reason => exact spends_beginProbe h.consistent u reason
  | requestAll reason => exact spends_beginProbes h.consistent reason _
  | answer o now => exact spends_answer h.consistent o now

theorem pends_perform (h : s.Sound) {x : Step} (hr : (perform s x).1.Pends r) :
    s.Pends r ∨ ∃ raws now, x = .ingest raws now ∧ ∃ raw ∈ raws, s.route raw = r := by
  by_cases hx : ∃ raws now, x = .ingest raws now
  · obtain ⟨raws, now, rfl⟩ := hx
    exact (pends_ingest hr).imp id fun hraw => ⟨raws, now, rfl, hraw⟩
  · exact .inl ((spends_perform h fun raws now he => hx ⟨raws, now, he⟩).pends hr)

theorem pends_after (h : s.Sound) {steps : List Step} (hr : (s.after steps).Pends r) :
    s.Pends r ∨ s.Noticed steps r := by
  induction steps generalizing s with
  | nil => exact .inl hr
  | cons x rest ih =>
    rcases ih (h.perform x) hr with hr | ⟨before, raws, now, behind, rfl, hraw⟩
    · refine (pends_perform h hr).imp id ?_
      rintro ⟨raws, now, rfl, hraw⟩
      exact ⟨[], raws, now, rest, rfl, hraw⟩
    · exact .inr ⟨x :: before, raws, now, behind, rfl, hraw⟩

theorem pends_of_told (h : s.Sound) {x : Step} (hx : x.IsFlush) {rel : Path}
    (hr : rel ∈ changedPaths w (perform s x).2) : s.Pends (.changed w rel) := by
  rw [Pends, ← told_flush h hx w]
  exact List.mem_append_left _ hr

end Pending

section Unregistered

variable {s s' : FsSource} {w : WorktreeId} {info : RootInfo}

theorem generation?_unregister (h : s.unregister w = .ok (s', info)) : s'.generation? w = none := by
  obtain ⟨table, root, -, -, rfl⟩ := unregister_cases h
  rw [generation?, state?, Table.get?_erase, if_pos rfl]
  rfl

theorem not_pends_unregister (h : s.unregister w = .ok (s', info)) :
    ¬ s'.Pends (.statusOnly w) ∧ ∀ rel, ¬ s'.Pends (.changed w rel) := by
  obtain ⟨table, root, -, -, rfl⟩ := unregister_cases h
  simp [Pends, Batcher.statusPending, Batcher.waiting, Batcher.pending?_drop]

theorem unregister_of_drop_eq (h : s.unregister w = .ok (s', info)) {batcher : Batcher}
    (hb : batcher.drop w = s.batcher.drop w) :
    { s with batcher }.unregister w = .ok (s', info) := by
  simp only [unregister, hb]
  exact h

end Unregistered

/-- A root that is unregistered is done with, whatever comes after, be it registered again or not:
answers to what was asked for before do nothing, it is told of only after it is registered again,
and what it had pending plays no part, neither in the state it leaves behind nor in what is pending
or flushed later, which all came in since. -/
theorem unregister_cancels {config : FsConfig} {epoch : Nat} {front : List Step} {w : WorktreeId}
    {s' : FsSource} {info : RootInfo}
    (h : ((create config epoch).after front).unregister w = .ok (s', info)) (later : List Step) :
    (∀ r ∈ (create config epoch).probes front, r.worktree = w → ∀ report now,
        (s'.after later).applyStatus (r.outcome report) now = (s'.after later, .nothing)) ∧
      (∀ before x behind, later = before ++ x :: behind →
        ∀ e ∈ (perform (s'.after before) x).2, e.worktree = some w →
          ∃ first path tier between out, before = first ++ .register w path tier :: between ∧
            (s'.after first).register w path tier = .ok out) ∧
      (∀ batcher, batcher.drop w = ((create config epoch).after front).batcher.drop w →
        { (create config epoch).after front with batcher }.unregister w = .ok (s', info)) ∧
      (∀ r, (r = .statusOnly w ∨ ∃ rel, r = .changed w rel) → (s'.after later).Pends r →
        s'.Noticed later r) ∧
      ∀ before x behind, later = before ++ x :: behind → x.IsFlush →
        ∀ rel ∈ changedPaths w (perform (s'.after before) x).2,
          s'.Noticed before (.changed w rel) := by
  have hs : ((create config epoch).after front).Sound := (sound_create config epoch).after front
  have hs' : s'.Sound := hs.unregister h
  have hnone : s'.generation? w = none := generation?_unregister h
  have hnext : s'.nextGeneration = ((create config epoch).after front).nextGeneration := by
    obtain ⟨table, root, -, -, rfl⟩ := unregister_cases h
    rfl
  have hnew : ∀ steps r, (r = .statusOnly w ∨ ∃ rel, r = .changed w rel) →
      (s'.after steps).Pends r → s'.Noticed steps r := by
    intro steps r hr hp
    refine (pends_after hs' hp).resolve_left ?_
    rcases hr with rfl | ⟨rel, rfl⟩
    · exact (not_pends_unregister h).1
    · exact (not_pends_unregister h).2 rel
  refine ⟨?_, ?_, fun batcher hb => unregister_of_drop_eq h hb, hnew later, ?_⟩
  · rintro r hr rfl report now
    -- Whatever number the root has by now was not given out when the request was issued.
    have hlt := generation_lt_of_mem_probes (sound_create config epoch) hr
    have hge := hs'.generation_ge_after (Nat.le_of_eq hnext.symm)
      (by rw [hnone]; exact fun g hg => nomatch hg) later
    exact applyStatus_of_old (fun g hg => Nat.lt_of_lt_of_le hlt (hge g hg)) report now
  · rintro before x behind rfl e he hw
    have hreg := registered_of_told (hs'.after before) he hw
    refine (registered_after hs' hreg).resolve_left ?_
    rw [← hs'.consistent, ← isSome_generation?, hnone]
    simp
  · rintro before x behind rfl hx rel hrel
    exact hnew before _ (.inr ⟨rel, rfl⟩) (pends_of_told (hs'.after before) hx hrel)

def busy : List Step :=
  [.register ⟨"W1"⟩ ⟨"/repo"⟩ .activeInApp, .ingest [⟨"/repo/a.txt"⟩] 1, .flushRoot ⟨"W1"⟩ 2,
    .ingest [⟨"/repo/b.txt"⟩, ⟨"/repo/.git/HEAD"⟩] 3]

def moved : List Step :=
  [.register ⟨"W1"⟩ ⟨"/work"⟩ .activeInApp, .ingest [⟨"/work/c.txt"⟩] 5, .flushRoot ⟨"W1"⟩ 6]

theorem unregister_cancels_moved :
    let s := (create ⟨.standard, false, [".git"]⟩ 0).after busy
    let s' := (perform s (.unregister ⟨"W1"⟩)).1
    s.Pends (.changed ⟨"W1"⟩ ⟨"b.txt"⟩) ∧ s.Pends (.statusOnly ⟨"W1"⟩) ∧
      (∃ info, s.unregister ⟨"W1"⟩ = .ok (s', info)) ∧
      (∃ r ∈ (create ⟨.standard, false, [".git"]⟩ 0).probes busy, r.worktree = ⟨"W1"⟩ ∧
        ∀ report now, (s'.after moved).applyStatus (r.outcome report) now =
          (s'.after moved, .nothing)) ∧
      changedPaths ⟨"W1"⟩ (s'.told moved) = [⟨"c.txt"⟩] ∧
      s'.Noticed (moved.take 2) (.changed ⟨"W1"⟩ ⟨"c.txt"⟩) := by
  intro s s'
  have hok : (s.unregister ⟨"W1"⟩).toOption.isSome = true := by decide +kernel
  have hu : ∃ info, s.unregister ⟨"W1"⟩ = .ok (s', info) := by
    cases h : s.unregister ⟨"W1"⟩ with
    | error e =>
      rw [h] at hok
      cases hok
    | ok out => exact ⟨out.2, by simp only [s', perform, h]⟩
  obtain ⟨info, hu⟩ := hu
  obtain ⟨hold, -, -, -, hflush⟩ := unregister_cancels hu moved
  have hr : (⟨⟨"W1"⟩, ⟨"/repo"⟩, 1, .wake⟩ : ProbeRequest) ∈
      (create ⟨.standard, false, [".git"]⟩ 0).probes busy := by decide +kernel
  have hc : (⟨"c.txt"⟩ : Path) ∈
      changedPaths ⟨"W1"⟩ (perform (s'.after (moved.take 2)) (.flushRoot ⟨"W1"⟩ 6)).2 := by
    decide +kernel
  refine ⟨?_, ?_, ⟨info, hu⟩, ⟨_, hr, rfl, fun report now => hold _ hr rfl report now⟩, ?_,
    hflush (moved.take 2) _ [] rfl trivial _ hc⟩
  · show (⟨"b.txt"⟩ : Path) ∈ s.batcher.waiting ⟨"W1"⟩
    decide +kernel
  · show s.batcher.statusPending ⟨"W1"⟩ = true
    decide +kernel
  · decide +kernel

end FsSource

end Switchboard
