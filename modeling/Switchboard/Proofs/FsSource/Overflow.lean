import Switchboard.Proofs.FsSource.Changes

/-!
# Paths the watcher missed

A report that was asked for because notices may be missing tells the paths in which it differs from
the last report. The last report may be one that followed a flush: that one tells no paths, and what
it shows for the first time is told by no later report either.
-/
namespace Switchboard

open Mirror (Step perform)

def StatusReport.Lists (report : StatusReport) (p : Path) : Prop :=
  PathSet.contains report.dirty p = true

def ReconcileReason.Reveals (last : Option StatusReport) (report : StatusReport) (p : Path) :
    ReconcileReason → Prop
  | .flush => False
  | .resync => report.Lists p
  | .wake | .overflow | .driftSweep => ∃ previous, last = some previous ∧
      ¬ (previous.Lists p ↔ report.Lists p)

namespace FsSource

/-- What tells that a path of a root has changed: a flush while it waits, or a report. -/
def Tells (s : FsSource) (w : WorktreeId) (p : Path) : Step → Prop
  | .flushRoot u _ => u = w ∧ PathSet.contains (s.batcher.waiting w) p = true
  | .flushDue now => w ∈ s.dueRoots now ∧ PathSet.contains (s.batcher.waiting w) p = true
  | .answer o _ => o.worktree = w ∧
      ∃ report, s.taken? o = some report ∧ o.reason.Reveals (s.lastReport? w) report p
  | _ => False

/-- A report shows the path otherwise than the last one and does not tell it. -/
def Swallows (s : FsSource) (w : WorktreeId) (p : Path) (x : Step) : Prop :=
  ∃ o now report last, x = .answer o now ∧ o.worktree = w ∧ s.taken? o = some report ∧
    s.lastReport? w = some last ∧ ¬ (last.Lists p ↔ report.Lists p) ∧ ¬ s.Tells w p x

end FsSource

namespace RootTable

def Belongs (t : RootTable) (w : WorktreeId) (p : Path) : Prop :=
  (t.ownerOf? p).map (·.1.worktree) = some w

variable {t : RootTable} {w : WorktreeId} {root : Root} {p q : Path}

theorem belongs_join_congr (hpq : p.same q = true) (base : Path) :
    t.Belongs w (base.join p) ↔ t.Belongs w (base.join q) := by
  have hkey : (base.join p).key t.foldCase = (base.join q).key t.foldCase := by
    have hown : p.key t.foldCase = q.key t.foldCase := by
      rw [Path.key, Path.key, Path.same_iff.mp hpq]
    have habs : p.isAbsolute = q.isAbsolute := by
      rw [Bool.eq_iff_iff, Path.isAbsolute_iff_components, Path.isAbsolute_iff_components,
        Path.same_iff.mp hpq]
    cases hp : p.isAbsolute with
    | true => rw [Path.join, Path.join, if_pos hp, if_pos (habs ▸ hp), hown]
    | false => rw [Path.key_join _ _ _ hp, Path.key_join _ _ _ (habs ▸ hp), hown]
  simp only [Belongs, ownerOf?, hkey, Option.map_map, Function.comp_def]

theorem Sound.belongs_of_nestedIn_eq_nil (h : t.Sound) (hr : t.get? w = some root)
    (hn : t.nestedIn w = []) (hp : p.isAbsolute = false) :
    t.Belongs w (root.path.join p) := by
  have hpre : root.key <+: (root.path.join p).key t.foldCase := by
    rw [Path.key_join _ _ _ hp, h.keyed root (Sound.mem_of_get? hr)]
    exact List.prefix_append _ _
  rw [Belongs, h.ownerOf?_of_nestedIn_eq_nil hr hn hpre, Option.map_some, h.worktree_of_get? hr]

end RootTable

namespace FsSource

section Step

variable {s : FsSource} {w : WorktreeId} {root : Root} {p : Path}

theorem ownedPaths_eq (hr : s.table.get? w = some root) (set : PathSet) : s.ownedPaths w set =
    set.filter fun rel => (s.table.ownerOf? (root.path.join rel)).map (·.1.worktree) = some w := by
  simp only [ownedPaths, hr]
  refine List.filter_congr fun rel _ => ?_
  cases s.table.ownerOf? (root.path.join rel) <;> simp

theorem contains_ownedPaths (hr : s.table.get? w = some root) (set : PathSet) :
    PathSet.contains (s.ownedPaths w set) p = true ↔
      PathSet.contains set p = true ∧ s.table.Belongs w (root.path.join p) := by
  rw [ownedPaths_eq hr, PathSet.contains_filter, decide_eq_true_eq]
  · rfl
  · exact fun p q hpq => decide_eq_decide.mpr (RootTable.belongs_join_congr hpq root.path)

theorem changedPaths_flushRoots (h : s.Sound) (now : Nat) (ws : List WorktreeId) :
    changedPaths w (s.flushRoots now ws).2.envelopes =
      if w ∈ ws then s.batcher.waiting w else [] := by
  induction ws generalizing s with
  | nil => rfl
  | cons u rest ih =>
    have hsound : (s.flushRoot u now).1.Sound := h.perform (.flushRoot u now)
    have hes : (s.flushRoots now (u :: rest)).2.envelopes = (s.flushRoot u now).2.envelopes ++
        ((s.flushRoot u now).1.flushRoots now rest).2.envelopes := rfl
    rw [hes, changedPaths_append, ih hsound, waiting_flushRoot h, changedPaths_flushRoot h]
    by_cases hu : u = w
    · simp [hu]
    · have hw : w ≠ u := Ne.symm hu
      simp [hu, hw]

theorem taken?_eq_some {o : ProbeOutcome} {report : StatusReport} :
    s.taken? o = some report ↔ ∃ state, s.awaiting? o = some state ∧ o.report = some report := by
  simp only [awaiting?_eq_some, taken?]
  cases s.state? o.worktree with
  | none => simp
  | some state => by_cases hg : state.generation = o.generation <;> simp [hg]

theorem changes_applyReport (hparts : 0 < s.batcher.policy.maxPaths) (w : WorktreeId)
    (reason : ReconcileReason) (state : RootState) (report : StatusReport) (now : Nat) :
    changes (s.applyReport w reason state report now).2 =
      (if tellsPaths reason state then s.ownedPaths w (StatusDelta.between
        (if reason = .resync then none else state.lastReport) report).changed else []).map
          (w, ·) := by
  have hnews : ∀ d : StatusDelta, ∀ event ∈ StatusDelta.news d w,
      Event.changeset? (.filesystem event) = none := by
    intro d event he
    simp only [StatusDelta.news, List.mem_append, Option.mem_toList, Option.map_eq_some_iff] at he
    rcases he with ⟨_, -, rfl⟩ | ⟨_, -, rfl⟩ <;> rfl
  simp only [applyReport]
  rw [changes_emitAll _ _ _ (Batcher.worktree_changesets _ _ _ _) (hnews _)]
  exact congrArg _ (Batcher.flatMap_changesets _ _ _ _ hparts)

theorem contains_answer (h : s.Sound) (hr : s.table.get? w = some root) {o : ProbeOutcome}
    (ho : o.worktree = w) {report : StatusReport} (ht : s.taken? o = some report) (now : Nat) :
    PathSet.contains (changedPaths w (s.applyStatus o now).2.envelopes) p = true ↔
      o.reason.Reveals (s.lastReport? w) report p ∧ s.table.Belongs w (root.path.join p) := by
  subst ho
  obtain ⟨state, ha, hreport⟩ := taken?_eq_some.mp ht
  have hlast : s.lastReport? o.worktree = (RootState.over state).lastReport := by
    simp only [lastReport?, (awaiting?_eq_some.mp ha).1, Option.bind_some, RootState.over]
  have hself : ∀ paths : List Path,
      ((paths.map (o.worktree, ·)).filter (·.1 = o.worktree)).map (·.2) = paths := by
    intro paths
    simp [List.filter_map, Function.comp_def]
  have hnothing : PathSet.contains [] p = false := rfl
  rw [applyStatus_of_awaited ha, envelopes_resumed, heard, hreport]
  dsimp only
  rw [changedPaths, changes_applyReport h.parts, hself, hlast]
  cases hreason : o.reason with
  | flush => simp [tellsPaths, ReconcileReason.isPull, ReconcileReason.Reveals, hnothing]
  | resync =>
    simp only [tellsPaths, ReconcileReason.isPull, ReconcileReason.Reveals]
    rw [if_pos (by simp), contains_ownedPaths hr]
    rfl
  | wake | overflow | driftSweep =>
    simp only [ReconcileReason.Reveals]
    cases hl : (RootState.over state).lastReport with
    | none => simp [tellsPaths, hl, hnothing]
    | some previous =>
      rw [if_pos (by simp [tellsPaths, hl, ReconcileReason.isPull]), contains_ownedPaths hr]
      simp only [StatusDelta.between, reduceCtorEq, if_false, PathSet.contains_symmDiff,
        Option.some.injEq, exists_eq_left', StatusReport.Lists, ← Bool.eq_iff_iff, ne_eq]

theorem envelopes_of_not_taken {o : ProbeOutcome} (h : s.taken? o = none) (now : Nat) :
    (s.applyStatus o now).2.envelopes = [] := by
  cases ha : s.awaiting? o with
  | none =>
    rw [applyStatus_of_dropped ha]
    rfl
  | some state =>
    have hr : o.report = none := by
      cases hr : o.report with
      | none => rfl
      | some report => rw [taken?_eq_some.mpr ⟨state, ha, hr⟩] at h; cases h
    rw [applyStatus_of_awaited ha, envelopes_resumed, heard, hr]

theorem changedPaths_of_not_taken {o : ProbeOutcome} (h : s.taken? o = none) (now : Nat) :
    changedPaths w (s.applyStatus o now).2.envelopes = [] := by
  rw [envelopes_of_not_taken h]
  rfl

theorem changedPaths_of_other (h : s.Sound) {o : ProbeOutcome} (ho : o.worktree ≠ w) (now : Nat) :
    changedPaths w (s.applyStatus o now).2.envelopes = [] := by
  cases ht : s.taken? o with
  | none => exact changedPaths_of_not_taken ht now
  | some report =>
    obtain ⟨state, ha, hr⟩ := taken?_eq_some.mp ht
    rw [applyStatus_of_awaited ha, envelopes_resumed, heard, hr]
    dsimp only
    rw [changedPaths, changes_applyReport h.parts]
    simp [List.filter_map, Function.comp_def, ho]

theorem told_eq_nil {x : Step} (hf : ¬ x.IsFlush) (ha : ∀ o now, x ≠ .answer o now) :
    (perform s x).2 = [] := by
  cases x with
  | flushRoot u now => exact absurd trivial hf
  | flushDue now => exact absurd trivial hf
  | answer o now => exact absurd rfl (ha o now)
  | register u path tier => simp only [perform]; split <;> rfl
  | unregister u => simp only [perform]; split <;> rfl
  | setTier u tier => simp only [perform]; split <;> rfl
  | _ => rfl

theorem told_iff_tells (h : s.Sound) (hr : s.table.get? w = some root)
    (hn : s.table.nestedIn w = []) (hp : p.isAbsolute = false) (x : Step) :
    PathSet.contains (changedPaths w (perform s x).2) p = true ↔ s.Tells w p x := by
  have hnothing : PathSet.contains [] p = false := rfl
  cases x with
  | flushRoot u now =>
    simp only [perform, Tells, changedPaths_flushRoot h]
    by_cases hu : u = w <;> simp [hu, hnothing]
  | flushDue now =>
    have hflush := changedPaths_flushRoots (w := w) h now (s.dueRoots now)
    simp only [perform, Tells, flushDue, hflush]
    by_cases hw : w ∈ s.dueRoots now <;> simp [hw, hnothing]
  | answer o now =>
    simp only [perform, Tells]
    by_cases ho : o.worktree = w
    · cases ht : s.taken? o with
      | none => simp [changedPaths_of_not_taken ht, hnothing]
      | some report =>
        have hbelongs := h.table.belongs_of_nestedIn_eq_nil hr hn hp
        simp [contains_answer h hr ho ht, ho, hbelongs]
    · simp [changedPaths_of_other h ho, ho, hnothing]
  | _ => rw [told_eq_nil (by simp [Step.IsFlush]) (by simp)]; simp [Tells, changedPaths, hnothing]

end Step

def Somewhere (s : FsSource) (steps : List Step) (P : FsSource → Step → Prop) : Prop :=
  ∃ before x behind, steps = before ++ x :: behind ∧ P (s.after before) x

section Runs

variable {s : FsSource} {w : WorktreeId} {p : Path} {P : FsSource → Step → Prop}

theorem somewhere_nil : ¬ s.Somewhere [] P := by
  rintro ⟨before, x, behind, he, -⟩
  simp at he

theorem somewhere_cons {x : Step} {rest : List Step} :
    s.Somewhere (x :: rest) P ↔ P s x ∨ (perform s x).1.Somewhere rest P := by
  constructor
  · rintro ⟨before, y, behind, he, hP⟩
    cases before with
    | nil =>
      obtain ⟨rfl, rfl⟩ := List.cons.inj he
      exact .inl hP
    | cons z before =>
      obtain ⟨rfl, rfl⟩ := List.cons.inj he
      exact .inr ⟨before, y, behind, rfl, hP⟩
  · rintro (hP | ⟨before, y, behind, rfl, hP⟩)
    · exact ⟨[], x, rest, rfl, hP⟩
    · exact ⟨x :: before, y, behind, rfl, hP⟩

/-- A root is registered and has no root nested in it, before and after each of the steps. -/
def Alone (s : FsSource) (w : WorktreeId) (steps : List Step) : Prop :=
  ∀ before behind, steps = before ++ behind →
    ((s.after before).table.get? w).isSome = true ∧ (s.after before).table.nestedIn w = []

theorem Alone.tail {x : Step} {rest : List Step} (h : s.Alone w (x :: rest)) :
    (perform s x).1.Alone w rest := by
  rintro before behind rfl
  exact h (x :: before) behind rfl

theorem told_iff_somewhere (h : s.Sound) (hp : p.isAbsolute = false) {steps : List Step}
    (ha : s.Alone w steps) :
    PathSet.contains (changedPaths w (s.told steps)) p = true ↔
      s.Somewhere steps fun t x => t.Tells w p x := by
  induction steps generalizing s with
  | nil => simp [told, changedPaths, PathSet.contains, somewhere_nil]
  | cons x rest ih =>
    obtain ⟨hreg, hn⟩ := ha [] (x :: rest) rfl
    obtain ⟨root, hr⟩ := Option.isSome_iff_exists.mp hreg
    rw [told, changedPaths_append, PathSet.contains_append, Bool.or_eq_true, somewhere_cons,
      told_iff_tells h hr hn hp, ih (h.perform x) ha.tail]

theorem lastReport?_perform (h : s.Sound) {x : Step} (hx : x ≠ .unregister w) :
    (perform s x).1.lastReport? w = s.lastReport? w ∨
      ∃ o now report, x = .answer o now ∧ o.worktree = w ∧ s.taken? o = some report ∧
        (perform s x).1.lastReport? w = some report := by
  rcases (Mirror.perform_cases h.consistent hx).2 with ⟨hl, -⟩ | ⟨o, now, report, rfl, rfl, ht⟩
  · exact .inl hl
  · exact .inr ⟨o, now, report, rfl, rfl, ht, (Mirror.told_of_taken ht now none none).1⟩

theorem lists_after (h : s.Sound) {steps : List Step} (hx : .unregister w ∉ steps)
    {last : StatusReport} (hl : s.lastReport? w = some last)
    (ht : ¬ s.Somewhere steps fun t x => t.Tells w p x)
    (hs : ¬ s.Somewhere steps fun t x => t.Swallows w p x) :
    ∃ last', (s.after steps).lastReport? w = some last' ∧ (last'.Lists p ↔ last.Lists p) := by
  induction steps generalizing s last with
  | nil => exact ⟨last, hl, Iff.rfl⟩
  | cons x rest ih =>
    rw [somewhere_cons, not_or] at ht hs
    rw [List.mem_cons, not_or] at hx
    rcases lastReport?_perform h (Ne.symm hx.1) with hsame | ⟨o, now, report, rfl, ho, hto, hnew⟩
    · exact ih (h.perform x) hx.2 (hsame.trans hl) ht.2 hs.2
    · have hagree : last.Lists p ↔ report.Lists p := by
        by_contra hne
        exact hs.1 ⟨o, now, report, last, rfl, ho, hto, hl, hne, ht.1⟩
      obtain ⟨last', hl', hlists⟩ := ih (h.perform _) hx.2 hnew ht.2 hs.2
      exact ⟨last', hl', hlists.trans hagree.symm⟩

theorem generation?_of_taken {o : ProbeOutcome} {report : StatusReport}
    (ht : s.taken? o = some report) : s.generation? o.worktree = some o.generation := by
  obtain ⟨state, ha, -⟩ := taken?_eq_some.mp ht
  obtain ⟨hs, hg⟩ := awaiting?_eq_some.mp ha
  rw [generation?, hs, Option.map_some, hg]

theorem alone_of_generation (h : s.Sound) {g : Nat} {steps : List Step}
    (hg : s.generation? w = some g) (hg' : (s.after steps).generation? w = some g)
    (hn : ∀ before behind, steps = before ++ behind → (s.after before).table.nestedIn w = []) :
    s.Alone w steps := by
  rintro before behind rfl
  refine ⟨?_, hn before behind rfl⟩
  rw [← (h.after before).consistent, ← isSome_generation?, h.generation?_between hg hg']
  rfl

end Runs

/-- Between a report on a root with no root nested in it and a later one of the same registration
that was asked for because notices may be missing, take a path in which the two differ. It is told
after the first report, up to and with the second one, exactly if something in between tells it or
the last report before the second one still shows it otherwise; and it is told if no report in
between swallows it. -/
theorem told_unless_swallowed (config : FsConfig) (epoch : Nat) (front mid : List Step)
    (now₁ now₂ : Nat) {w : WorktreeId} {p : Path} {o₁ o₂ : ProbeOutcome} {r₁ r₂ : StatusReport}
    (h₁ : ((create config epoch).after front).taken? o₁ = some r₁) (hw₁ : o₁.worktree = w)
    (h₂ : ((create config epoch).after (front ++ .answer o₁ now₁ :: mid)).taken? o₂ = some r₂)
    (hw₂ : o₂.worktree = w) (hg : o₂.generation = o₁.generation)
    (hr₂ : o₂.reason = .wake ∨ o₂.reason = .overflow ∨ o₂.reason = .driftSweep)
    (hn : ∀ before behind, mid = before ++ behind →
      ((create config epoch).after (front ++ .answer o₁ now₁ :: before)).table.nestedIn w = [])
    (hp : p.isAbsolute = false) (hd : ¬ (r₁.Lists p ↔ r₂.Lists p)) :
    let s₁ := (create config epoch).after (front ++ [.answer o₁ now₁])
    let told := changedPaths w (s₁.told (mid ++ [.answer o₂ now₂]))
    (PathSet.contains told p = true ↔ (s₁.Somewhere mid fun s x => s.Tells w p x) ∨
        ∃ last, (s₁.after mid).lastReport? w = some last ∧ ¬ (last.Lists p ↔ r₂.Lists p)) ∧
      ((¬ s₁.Somewhere mid fun s x => s.Swallows w p x) → PathSet.contains told p = true) := by
  intro s₁ told
  have hs₁ : s₁.Sound := (sound_create config epoch).after _
  have hafter : ∀ steps, (create config epoch).after (front ++ .answer o₁ now₁ :: steps) =
      s₁.after steps := by
    intro steps
    rw [← List.singleton_append, ← List.append_assoc, after_append]
  simp only [hafter] at h₂ hn
  have hfirst : s₁.lastReport? w = some r₁ ∧ s₁.generation? w = some o₁.generation := by
    have hs : ((create config epoch).after front).Sound := (sound_create config epoch).after front
    have hstep : s₁ = (perform ((create config epoch).after front) (.answer o₁ now₁)).1 := by
      simp only [s₁, after_append, after_cons, after_nil]
    have hk := keeps_applyStatus hs.consistent o₁ now₁
    rw [hstep, ← hw₁]
    exact ⟨(Mirror.told_of_taken h₁ now₁ none none).1,
      (hk.generation _).trans (generation?_of_taken h₁)⟩
  have hlast : (s₁.after mid).generation? w = some o₁.generation := by
    rw [← hg, ← hw₂]
    exact generation?_of_taken h₂
  have halone := alone_of_generation hs₁ hfirst.2 hlast hn
  have hstays := hs₁.unregister_not_mem hfirst.2 hlast
  obtain ⟨hreg, hnest⟩ := halone mid [] (List.append_nil mid).symm
  obtain ⟨root, hroot⟩ := Option.isSome_iff_exists.mp hreg
  -- The second report tells the path if the last one before it shows the path otherwise.
  have hanswer : (s₁.after mid).Tells w p (.answer o₂ now₂) ↔
      ∃ last, (s₁.after mid).lastReport? w = some last ∧ ¬ (last.Lists p ↔ r₂.Lists p) := by
    simp only [Tells, hw₂, h₂, true_and, Option.some.injEq, exists_eq_left']
    rcases hr₂ with hr | hr | hr <;> rw [hr] <;> rfl
  have htold : PathSet.contains told p = true ↔ (s₁.Somewhere mid fun s x => s.Tells w p x) ∨
      ∃ last, (s₁.after mid).lastReport? w = some last ∧ ¬ (last.Lists p ↔ r₂.Lists p) := by
    have hsplit : told = changedPaths w (s₁.told mid) ++
        changedPaths w (perform (s₁.after mid) (.answer o₂ now₂)).2 := by
      simp only [told, told_append, changedPaths_append, FsSource.told, List.append_nil]
    rw [hsplit, PathSet.contains_append, Bool.or_eq_true, told_iff_somewhere hs₁ hp halone,
      told_iff_tells (hs₁.after mid) hroot hnest hp, hanswer]
  refine ⟨htold, fun hs => htold.mpr ?_⟩
  by_cases ht : s₁.Somewhere mid fun s x => s.Tells w p x
  · exact .inl ht
  · obtain ⟨last, hl, hlists⟩ := lists_after hs₁ hstays hfirst.1 ht hs
    exact .inr ⟨last, hl, fun hagree => hd (hlists.symm.trans hagree)⟩

def firstReport : ProbeOutcome := ⟨⟨"W1"⟩, 1, .wake, some .clean⟩

def flushBetween : List Step :=
  [.ingest [⟨"/repo/.git/index"⟩] 2, .flushRoot ⟨"W1"⟩ 3,
    .answer ⟨⟨"W1"⟩, 1, .flush, some ⟨⟨0, 0, 1⟩, none, [⟨"x.txt"⟩]⟩⟩ 4, .request ⟨"W1"⟩ .overflow]

def overflowReport (paths : List Path) : ProbeOutcome :=
  ⟨⟨"W1"⟩, 1, .overflow, some ⟨⟨0, 0, 1⟩, none, paths⟩⟩

def oneRoot : FsSource :=
  (create ⟨.standard, false, [".git"]⟩ 0).after [.register ⟨"W1"⟩ ⟨"/repo"⟩ .activeInApp]

theorem told_unless_swallowed_missed :
    oneRoot.taken? firstReport = some .clean ∧
      ¬ (StatusReport.clean.Lists ⟨"y.txt"⟩ ↔
        StatusReport.Lists ⟨⟨0, 0, 1⟩, none, [⟨"x.txt"⟩, ⟨"y.txt"⟩]⟩ ⟨"y.txt"⟩) ∧
      PathSet.contains (changedPaths ⟨"W1"⟩ ((perform oneRoot (.answer firstReport 1)).1.told
        (flushBetween ++ [.answer (overflowReport [⟨"x.txt"⟩, ⟨"y.txt"⟩]) 5])))
          ⟨"y.txt"⟩ = true := by
  have h₁ : oneRoot.taken? firstReport = some .clean := by decide +kernel
  have h₂ : (oneRoot.after (.answer firstReport 1 :: flushBetween)).taken?
      (overflowReport [⟨"x.txt"⟩, ⟨"y.txt"⟩]) =
        some ⟨⟨0, 0, 1⟩, none, [⟨"x.txt"⟩, ⟨"y.txt"⟩]⟩ := by decide +kernel
  have hprefixes : ∀ n < 5, (oneRoot.after
      (.answer firstReport 1 :: flushBetween.take n)).table.nestedIn ⟨"W1"⟩ = [] := by
    decide +kernel
  have hn : ∀ before behind, flushBetween = before ++ behind →
      (oneRoot.after (.answer firstReport 1 :: before)).table.nestedIn ⟨"W1"⟩ = [] := by
    intro before behind he
    have hlength : flushBetween.length = before.length + behind.length := by
      rw [he, List.length_append]
    have hfour : flushBetween.length = 4 := rfl
    have htake : before = flushBetween.take before.length := by rw [he, List.take_left]
    rw [htake]
    exact hprefixes before.length (by omega)
  have hd : ¬ (StatusReport.clean.Lists ⟨"y.txt"⟩ ↔
      StatusReport.Lists ⟨⟨0, 0, 1⟩, none, [⟨"x.txt"⟩, ⟨"y.txt"⟩]⟩ ⟨"y.txt"⟩) := by
    simp only [StatusReport.Lists]
    decide +kernel
  have hlast : ((perform oneRoot (.answer firstReport 1)).1.after flushBetween).lastReport? ⟨"W1"⟩ =
      some ⟨⟨0, 0, 1⟩, none, [⟨"x.txt"⟩]⟩ := by decide +kernel
  have htold := (told_unless_swallowed ⟨.standard, false, [".git"]⟩ 0
    [.register ⟨"W1"⟩ ⟨"/repo"⟩ .activeInApp] flushBetween 1 5 h₁ rfl h₂ rfl rfl
    (.inr (.inl rfl)) hn (by decide +kernel) hd).1
  refine ⟨h₁, hd, htold.mpr (.inr ⟨_, hlast, ?_⟩)⟩
  simp only [StatusReport.Lists]
  decide +kernel

/-- A report after a flush is told no paths, and the next one has nothing new in it. -/
theorem not_told_after_flush :
    oneRoot.taken? firstReport = some .clean ∧ oneRoot.lastReport? ⟨"W1"⟩ = none ∧
      (oneRoot.after (.answer firstReport 1 :: flushBetween)).taken? (overflowReport [⟨"x.txt"⟩]) =
        some ⟨⟨0, 0, 1⟩, none, [⟨"x.txt"⟩]⟩ ∧
      (∀ n < 5, (oneRoot.after
        (.answer firstReport 1 :: flushBetween.take n)).table.nestedIn ⟨"W1"⟩ = []) ∧
      PathSet.symmDiff StatusReport.clean.dirty [⟨"x.txt"⟩] = [⟨"x.txt"⟩] ∧
      changedPaths ⟨"W1"⟩ ((perform oneRoot (.answer firstReport 1)).1.told
        (flushBetween ++ [.answer (overflowReport [⟨"x.txt"⟩]) 5])) = [] := by
  decide +kernel

end FsSource

end Switchboard
