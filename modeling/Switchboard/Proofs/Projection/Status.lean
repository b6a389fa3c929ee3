import Mathlib.Data.List.Induction
import Switchboard.Proofs.FsSource.Reports

/-!
# What a bound pane shows of the last report

A pane that is bound to a root sees everything the filesystem source tells of it. Then its status is
always that of the last report. Its branch is that of the last report too, until a report that tells
everything again has no branch, where the one before it had one: such a report tells no branch at
all, and the pane goes on showing the old one.
-/
namespace Switchboard

namespace StatusDelta

variable {previous : Option StatusReport} {report : StatusReport}

theorem counts_between {status : Option StatusCounts}
    (h : ∀ r, previous = some r → status = some r.counts) :
    ((between previous report).counts.map some).getD status = some report.counts := by
  cases previous with
  | none => rfl
  | some r =>
    by_cases hc : r.counts = report.counts
    · simp [between, hc, h r rfl]
    · simp [between, hc]

theorem branch_between {branch : Option String}
    (h : ∀ r, previous = some r → branch = r.branch) :
    (between previous report).branch.getD branch =
      if previous = none ∧ report.branch = none then branch else report.branch := by
  cases previous with
  | none => cases hb : report.branch <;> simp [between, hb]
  | some r =>
    by_cases hc : r.branch = report.branch
    · simp [between, hc, h r rfl]
    · simp [between, hc]

end StatusDelta

/-- The filesystem source, and a projection that is told whatever the source tells. -/
structure Mirror where
  source : FsSource
  projection : Projection

namespace Mirror

inductive Arrangement where
  | bind (pane : PaneId) (w : WorktreeId) (cwd : Option Path)
  | unbind (pane : PaneId)
  | setRoot (w : WorktreeId) (root : Path)
  | forgetRoot (w : WorktreeId)

def arrange (p : Projection) : Arrangement → Projection
  | .bind pane w cwd => p.bind pane w cwd
  | .unbind pane => (p.unbind pane).1
  | .setRoot w root => p.setRoot w root
  | .forgetRoot w => p.forgetRoot w

inductive Step where
  | register (w : WorktreeId) (path : Path) (tier : ActivityTier)
  | unregister (w : WorktreeId)
  | setTier (w : WorktreeId) (tier : ActivityTier)
  | setFocused (w : Option WorktreeId)
  | ingest (paths : List Path) (now : Nat)
  | flushRoot (w : WorktreeId) (now : Nat)
  | flushDue (now : Nat)
  | request (w : WorktreeId) (reason : ReconcileReason)
  | requestAll (reason : ReconcileReason)
  | answer (o : ProbeOutcome) (now : Nat)

def perform (s : FsSource) : Step → FsSource × List Envelope
  | .register w path tier =>
    match s.register w path tier with
    | .ok (s, _) => (s, [])
    | .error _ => (s, [])
  | .unregister w =>
    match s.unregister w with
    | .ok (s, _) => (s, [])
    | .error _ => (s, [])
  | .setTier w tier =>
    match s.setTier w tier with
    | .ok s => (s, [])
    | .error _ => (s, [])
  | .setFocused w => (s.setFocused w, [])
  | .ingest paths now => ((s.ingest paths now).1, [])
  | .flushRoot w now => ((s.flushRoot w now).1, (s.flushRoot w now).2.envelopes)
  | .flushDue now => ((s.flushDue now).1, (s.flushDue now).2.envelopes)
  | .request w reason => ((s.beginProbe w reason).1, [])
  | .requestAll reason => ((s.reconcileAll reason).1, [])
  | .answer o now => ((s.applyStatus o now).1, (s.applyStatus o now).2.envelopes)

def step (m : Mirror) (s : Step) : Mirror :=
  ⟨(perform m.source s).1, m.projection.applyEach (perform m.source s).2⟩

def run (m : Mirror) (steps : List Step) : Mirror := steps.foldl step m

def start (config : FsConfig) (epoch changeCapacity : Nat) (arrangements : List Arrangement) :
    Mirror :=
  ⟨.create config epoch, arrangements.foldl arrange (.create changeCapacity)⟩

def boundTo? (m : Mirror) (pane : PaneId) : Option WorktreeId :=
  (m.projection.view? pane).map (·.worktree)

def ShowsStatus (m : Mirror) (w : WorktreeId) (pane : PaneId) : Prop :=
  ∀ report, m.source.lastReport? w = some report →
    (m.projection.view? pane).bind (·.status) = some report.counts

def ShowsBranch (m : Mirror) (w : WorktreeId) (pane : PaneId) : Prop :=
  ∀ report, m.source.lastReport? w = some report →
    (m.projection.view? pane).map (·.branch) = some report.branch

/-- The step takes a report that tells everything again and has no branch, where the last report on
the root had one. -/
def LosesBranch (m : Mirror) (w : WorktreeId) : Step → Prop
  | .answer o _ =>
    o.worktree = w ∧ o.reason = .resync ∧
      (∃ report, m.source.taken? o = some report ∧ report.branch = none) ∧
      ∃ last, m.source.lastReport? w = some last ∧ last.branch ≠ none
  | _ => False

structure Follows (m : Mirror) (w : WorktreeId) (pane : PaneId) (view : PaneView) : Prop where
  keyed : m.projection.Keyed
  consistent : m.source.Consistent
  shown : m.projection.view? pane = some view
  bound : view.worktree = w
  status : ∀ report, m.source.lastReport? w = some report → view.status = some report.counts
  untold : m.source.lastReport? w = none → view.branch = none

theorem perform_cases {s : FsSource} (hc : s.Consistent) {w : WorktreeId} {x : Step}
    (hx : x ≠ .unregister w) :
    (perform s x).1.Consistent ∧
      (((perform s x).1.lastReport? w = s.lastReport? w ∧
          (∀ old, (perform s x).2.foldl (Envelope.statusAfter w) old = old) ∧
          ∀ old, (perform s x).2.foldl (Envelope.branchAfter w) old = old) ∨
        ∃ o now report, x = .answer o now ∧ o.worktree = w ∧ s.taken? o = some report) := by
  have quiet : ∀ {s' : FsSource} {told : List Envelope}, s.Quiet s' told →
      s'.lastReport? w = s.lastReport? w ∧
        (∀ old, told.foldl (Envelope.statusAfter w) old = old) ∧
        ∀ old, told.foldl (Envelope.branchAfter w) old = old :=
    fun h => ⟨h.reports w, h.status w, h.branch w⟩
  have unchanged : s.Quiet s [] := .of_reports fun _ => rfl
  cases x with
  | register u path tier =>
    simp only [perform]
    split
    · next hr => exact ⟨hc.register hr, .inl (quiet (FsSource.quiet_register hc hr))⟩
    · exact ⟨hc, .inl (quiet unchanged)⟩
  | unregister u =>
    simp only [perform]
    split
    · next hr =>
      have hu : u ≠ w := fun h => hx (h ▸ rfl)
      exact ⟨hc.unregister hr,
        .inl ⟨FsSource.lastReport?_unregister hr hu, fun _ => rfl, fun _ => rfl⟩⟩
    · exact ⟨hc, .inl (quiet unchanged)⟩
  | setTier u tier =>
    simp only [perform]
    split
    · next hr =>
      refine ⟨hc.setTier hr, .inl (quiet (.of_reports fun v => ?_))⟩
      obtain ⟨table, root, root', rfl, -, -⟩ := FsSource.setTier_eq_ok hr
      rfl
    · exact ⟨hc, .inl (quiet unchanged)⟩
  | setFocused u => exact ⟨hc.congr rfl rfl, .inl (quiet (.of_reports fun _ => rfl))⟩
  | ingest paths now =>
    obtain ⟨batcher, hb⟩ := s.ingest_state paths now
    simp only [perform, hb]
    exact ⟨hc.congr rfl rfl, .inl (quiet (.of_reports fun _ => rfl))⟩
  | flushRoot u now => exact ⟨hc.flushRoot u now, .inl (quiet (s.quiet_flushRoot u now))⟩
  | flushDue now => exact ⟨hc.flushRoots now _, .inl (quiet (s.quiet_flushRoots now _))⟩
  | request u reason =>
    exact ⟨hc.beginProbe u reason,
      .inl (quiet (.of_reports fun v => s.lastReport?_beginProbe u reason v))⟩
  | requestAll reason =>
    exact ⟨hc.beginProbes reason _,
      .inl (quiet (.of_reports fun v => s.lastReport?_beginProbes reason _ v))⟩
  | answer o now =>
    refine ⟨hc.applyStatus o now, ?_⟩
    cases ht : s.taken? o with
    | none => exact .inl (quiet (FsSource.quiet_applyStatus ht now))
    | some report =>
      by_cases hw : o.worktree = w
      · exact .inr ⟨o, now, report, rfl, hw, ht⟩
      · obtain ⟨hreports, q, css, htold⟩ := FsSource.applyStatus_of_taken ht now
        refine .inl ⟨(hreports w).trans (if_neg hw), ?_, ?_⟩
        · intro old
          simp only [perform, htold]
          rw [FsSource.foldl_statusAfter_emitAll, if_neg (Ne.symm hw)]
        · intro old
          simp only [perform, htold]
          rw [FsSource.foldl_branchAfter_emitAll, if_neg (Ne.symm hw)]

theorem told_of_taken {s : FsSource} {o : ProbeOutcome} {report : StatusReport}
    (h : s.taken? o = some report) (now : Nat) (status : Option StatusCounts)
    (branch : Option String) :
    let delta := StatusDelta.between (s.baseline o) report
    (perform s (.answer o now)).1.lastReport? o.worktree = some report ∧
      (perform s (.answer o now)).2.foldl (Envelope.statusAfter o.worktree) status =
        (delta.counts.map some).getD status ∧
      (perform s (.answer o now)).2.foldl (Envelope.branchAfter o.worktree) branch =
        delta.branch.getD branch := by
  intro delta
  obtain ⟨hreports, q, css, htold⟩ := FsSource.applyStatus_of_taken h now
  simp only [perform, htold]
  refine ⟨(hreports _).trans (if_pos rfl), ?_, ?_⟩
  · rw [FsSource.foldl_statusAfter_emitAll, if_pos rfl, List.foldl_append,
      (FsSource.foldl_after_changesets css status none).1, (FsSource.foldl_after_news _ _ _ none).1]
  · rw [FsSource.foldl_branchAfter_emitAll, if_pos rfl, List.foldl_append,
      (FsSource.foldl_after_changesets css none branch).2, (FsSource.foldl_after_news _ _ none _).2]

section

variable {m : Mirror} {w : WorktreeId} {o : ProbeOutcome} {report : StatusReport}

theorem losesBranch_answer (h : m.source.taken? o = some report) {now : Nat} :
    m.LosesBranch w (.answer o now) ↔ o.worktree = w ∧ o.reason = .resync ∧
      report.branch = none ∧ ∃ last, m.source.lastReport? w = some last ∧ last.branch ≠ none := by
  simp only [LosesBranch, h, Option.some.injEq, exists_eq_left']

theorem not_losesBranch_of_same {x : Step}
    (h : (perform m.source x).1.lastReport? w = m.source.lastReport? w) :
    ¬ m.LosesBranch w x := by
  cases x with
  | answer o now =>
    rintro ⟨rfl, -, ⟨report, ht, hnone⟩, last, hlast, hsome⟩
    have hreport := (told_of_taken ht now none none).1
    rw [h, hlast, Option.some.injEq] at hreport
    exact hsome (hreport ▸ hnone)
  | _ => exact id

end

namespace Follows

variable {m : Mirror} {w : WorktreeId} {pane : PaneId} {view : PaneView} {o : ProbeOutcome}
  {report : StatusReport}

theorem showsStatus (h : Follows m w pane view) : m.ShowsStatus w pane := by
  intro report hr
  rw [h.shown, Option.bind_some]
  exact h.status report hr

theorem showsBranch_iff (h : Follows m w pane view) :
    m.ShowsBranch w pane ↔
      ∀ report, m.source.lastReport? w = some report → view.branch = report.branch := by
  simp only [ShowsBranch, h.shown, Option.map_some, Option.some.injEq]

theorem branch_between_iff (h : Follows m o.worktree pane view)
    (hshow : m.ShowsBranch o.worktree pane) (ht : m.source.taken? o = some report) (now : Nat) :
    (StatusDelta.between (m.source.baseline o) report).branch.getD view.branch = report.branch ↔
      ¬ m.LosesBranch o.worktree (.answer o now) := by
  have hold := h.showsBranch_iff.mp hshow
  rw [StatusDelta.branch_between fun r hr => hold r (FsSource.lastReport?_of_baseline hr),
    losesBranch_answer ht]
  by_cases hfull : m.source.baseline o = none ∧ report.branch = none
  · rw [if_pos hfull]
    cases hlast : m.source.lastReport? o.worktree with
    | none => simp [h.untold hlast, hfull.2]
    | some last =>
      have hreason : o.reason = .resync :=
        (FsSource.baseline_eq_none.mp hfull.1).resolve_right (by simp [hlast])
      simp [hold last hlast, hfull.2, hreason]
  · rw [if_neg hfull]
    refine ⟨fun _ hl => ?_, fun _ => rfl⟩
    exact hfull ⟨FsSource.baseline_eq_none.mpr (.inl hl.2.1), hl.2.2.1⟩

theorem step_of_same (h : Follows m w pane view) {x : Step}
    (hc : (perform m.source x).1.Consistent)
    (hlast : (perform m.source x).1.lastReport? w = m.source.lastReport? w)
    (hstatus : ∀ old, (perform m.source x).2.foldl (Envelope.statusAfter w) old = old)
    (hbranch : ∀ old, (perform m.source x).2.foldl (Envelope.branchAfter w) old = old) :
    ∃ view', Follows (m.step x) w pane view' ∧ view'.branch = view.branch := by
  obtain ⟨view', hv', hw', hs', hb'⟩ :=
    Projection.view?_applyEach h.keyed h.shown (perform m.source x).2
  rw [h.bound] at hw' hs' hb'
  rw [hstatus] at hs'
  rw [hbranch] at hb'
  refine ⟨view', ⟨Projection.keyed_applyEach h.keyed _, hc, hv', hw', ?_, ?_⟩, hb'⟩
  · intro report hr
    rw [hs']
    exact h.status report (hlast ▸ hr)
  · intro hr
    rw [hb']
    exact h.untold (hlast ▸ hr)

theorem step_of_taken (h : Follows m o.worktree pane view) (ht : m.source.taken? o = some report)
    (now : Nat) : ∃ view', Follows (m.step (.answer o now)) o.worktree pane view' ∧
      view'.branch =
        (StatusDelta.between (m.source.baseline o) report).branch.getD view.branch := by
  obtain ⟨hlast, hstatus, hbranch⟩ := told_of_taken ht now view.status view.branch
  obtain ⟨view', hv', hw', hs', hb'⟩ :=
    Projection.view?_applyEach h.keyed h.shown (perform m.source (.answer o now)).2
  rw [h.bound] at hw' hs' hb'
  rw [hstatus] at hs'
  rw [hbranch] at hb'
  refine ⟨view', ⟨Projection.keyed_applyEach h.keyed _, h.consistent.applyStatus o now, hv', hw',
    ?_, ?_⟩, hb'⟩
  · intro r hr
    cases hlast.symm.trans hr
    rw [hs']
    exact StatusDelta.counts_between fun r hr =>
      h.status r (FsSource.lastReport?_of_baseline hr)
  · intro hr
    cases hlast.symm.trans hr

theorem step (h : Follows m w pane view) {x : Step} (hx : x ≠ .unregister w) :
    ∃ view', Follows (m.step x) w pane view' ∧
      (m.ShowsBranch w pane → ((m.step x).ShowsBranch w pane ↔ ¬ m.LosesBranch w x)) := by
  obtain ⟨hc, ⟨hlast, hstatus, hbranch⟩ | ⟨o, now, report, rfl, rfl, ht⟩⟩ :=
    perform_cases h.consistent hx
  · obtain ⟨view', hf, hb⟩ := h.step_of_same hc hlast hstatus hbranch
    refine ⟨view', hf, fun hshow => ?_⟩
    rw [hf.showsBranch_iff, hb]
    exact ⟨fun _ => not_losesBranch_of_same hlast,
      fun _ report hr => h.showsBranch_iff.mp hshow report (hlast ▸ hr)⟩
  · obtain ⟨view', hf, hb⟩ := h.step_of_taken ht now
    refine ⟨view', hf, fun hshow => ?_⟩
    have hlast := (told_of_taken ht now none none).1
    rw [← h.branch_between_iff hshow ht now, ← hb, hf.showsBranch_iff]
    constructor
    · exact fun hall => hall report hlast
    · intro hreport r hr
      cases hlast.symm.trans hr
      exact hreport

end Follows

theorem blank_arrange {p : Projection} (hk : p.Keyed)
    (h : ∀ pane view, p.view? pane = some view → view.status = none ∧ view.branch = none)
    (a : Arrangement) : (arrange p a).Keyed ∧ ∀ pane view,
      (arrange p a).view? pane = some view → view.status = none ∧ view.branch = none := by
  cases a with
  | bind pane w cwd =>
    refine ⟨hk.bind pane w cwd, ?_⟩
    have hnew : (p.rebound pane w cwd).status = none ∧ (p.rebound pane w cwd).branch = none := by
      rcases p.rebound_cases pane w cwd with ⟨view, hv, -, hnew⟩ | ⟨-, hnew⟩
      · rw [hnew]
        exact h pane view hv
      · rw [hnew]
        exact ⟨rfl, rfl⟩
    intro other view hv
    rw [arrange, Projection.view?_bind hk] at hv
    by_cases ho : pane = other
    · rw [if_pos ho, Option.some.injEq] at hv
      exact hv ▸ hnew
    · rw [if_neg ho] at hv
      exact h other view hv
  | unbind pane =>
    refine ⟨hk.unbind pane, ?_⟩
    intro other view hv
    rw [arrange, Projection.view?_unbind] at hv
    by_cases ho : pane = other
    · rw [if_pos ho] at hv
      cases hv
    · rw [if_neg ho] at hv
      exact h other view hv
  | setRoot w root => exact ⟨hk.setRoot w root, h⟩
  | forgetRoot w => exact ⟨hk.forgetRoot w, h⟩

theorem blank_start (config : FsConfig) (epoch changeCapacity : Nat)
    (arrangements : List Arrangement) :
    (start config epoch changeCapacity arrangements).projection.Keyed ∧ ∀ pane view,
      (start config epoch changeCapacity arrangements).projection.view? pane = some view →
        view.status = none ∧ view.branch = none := by
  have h : ∀ p : Projection, p.Keyed →
      (∀ pane view, p.view? pane = some view → view.status = none ∧ view.branch = none) →
      (arrangements.foldl arrange p).Keyed ∧ ∀ pane view,
        (arrangements.foldl arrange p).view? pane = some view →
          view.status = none ∧ view.branch = none := by
    induction arrangements with
    | nil => exact fun p hk hb => ⟨hk, hb⟩
    | cons a rest ih =>
      intro p hk hb
      obtain ⟨hk', hb'⟩ := blank_arrange hk hb a
      exact ih _ hk' hb'
  refine h _ (.create changeCapacity) ?_
  intro pane view hv
  cases hv

section Runs

variable {config : FsConfig} {epoch changeCapacity : Nat} {arrangements : List Arrangement}
variable {w : WorktreeId} {pane : PaneId}

theorem follows_run (hb : (start config epoch changeCapacity arrangements).boundTo? pane = some w)
    {steps : List Step} (hs : .unregister w ∉ steps) :
    ∃ view, Follows ((start config epoch changeCapacity arrangements).run steps) w pane view := by
  induction steps using List.reverseRecOn with
  | nil =>
    obtain ⟨hk, hblank⟩ := blank_start config epoch changeCapacity arrangements
    obtain ⟨view, hv, hw⟩ := Option.map_eq_some_iff.mp hb
    refine ⟨view, hk, FsSource.consistent_create _ _, hv, hw, ?_, fun _ => (hblank _ _ hv).2⟩
    intro report hr
    cases hr
  | append_singleton steps x ih =>
    obtain ⟨view, hf⟩ := ih fun h => hs (List.mem_append_left _ h)
    have hrun : (start config epoch changeCapacity arrangements).run (steps ++ [x]) =
        ((start config epoch changeCapacity arrangements).run steps).step x := by
      simp [run]
    obtain ⟨view', hf', -⟩ := hf.step (x := x) (by
      rintro rfl
      exact hs (by simp))
    rw [hrun]
    exact ⟨view', hf'⟩

/-- A pane that was bound to the root from the start always shows the status of the last report. It
always shows the branch of the last report exactly if no report on the way loses it. -/
theorem shows_last_report_iff
    (hb : (start config epoch changeCapacity arrangements).boundTo? pane = some w)
    {steps : List Step} (hs : .unregister w ∉ steps) :
    (∀ front rest, steps = front ++ rest →
        ((start config epoch changeCapacity arrangements).run front).ShowsStatus w pane) ∧
      ((∀ front rest, steps = front ++ rest →
          ((start config epoch changeCapacity arrangements).run front).ShowsBranch w pane) ↔
        ∀ front x rest, steps = front ++ x :: rest →
          ¬ ((start config epoch changeCapacity arrangements).run front).LosesBranch w x) := by
  have hfollows : ∀ front rest, steps = front ++ rest →
      ∃ view, Follows ((start config epoch changeCapacity arrangements).run front) w pane view := by
    rintro front rest rfl
    exact follows_run hb fun h => hs (List.mem_append_left _ h)
  have hstep : ∀ front x rest, steps = front ++ x :: rest →
      ((start config epoch changeCapacity arrangements).run front).ShowsBranch w pane →
      (((start config epoch changeCapacity arrangements).run (front ++ [x])).ShowsBranch w pane ↔
        ¬ ((start config epoch changeCapacity arrangements).run front).LosesBranch w x) := by
    rintro front x rest rfl
    obtain ⟨view, hf⟩ := hfollows front _ rfl
    obtain ⟨view', -, hstep⟩ := hf.step (x := x) (by
      rintro rfl
      exact hs (by simp))
    have hrun : (start config epoch changeCapacity arrangements).run (front ++ [x]) =
        ((start config epoch changeCapacity arrangements).run front).step x := by
      simp [run]
    rw [hrun]
    exact hstep
  refine ⟨?_, ?_, ?_⟩
  · intro front rest h
    obtain ⟨view, hf⟩ := hfollows front rest h
    exact hf.showsStatus
  · intro hall front x rest h
    exact (hstep front x rest h (hall front _ h)).mp (hall (front ++ [x]) rest (by simp [h]))
  · intro hnever front
    induction front using List.reverseRecOn with
    | nil =>
      intro rest h report hr
      cases hr
    | append_singleton front x ih =>
      intro rest h
      have h' : steps = front ++ x :: rest := by simp [h]
      exact (hstep front x rest h' (ih _ h')).mpr (hnever front x rest h')

end Runs

def detached : List Step :=
  [.register ⟨"W1"⟩ ⟨"/repo"⟩ .activeInApp,
    .answer ⟨⟨"W1"⟩, 1, .wake, some ⟨.zero, some "main", []⟩⟩ 0,
    .requestAll .resync,
    .answer ⟨⟨"W1"⟩, 1, .resync, some ⟨.zero, none, []⟩⟩ 1]

def onePane : Mirror := start ⟨.standard, false, []⟩ 0 16 [.bind ⟨"p1"⟩ ⟨"W1"⟩ none]

theorem shows_last_status_detached :
    onePane.boundTo? ⟨"p1"⟩ = some ⟨"W1"⟩ ∧
      (onePane.run detached).source.lastReport? ⟨"W1"⟩ = some ⟨.zero, none, []⟩ ∧
      ∀ front rest, detached = front ++ rest → (onePane.run front).ShowsStatus ⟨"W1"⟩ ⟨"p1"⟩ := by
  have hbound : onePane.boundTo? ⟨"p1"⟩ = some ⟨"W1"⟩ := by decide +kernel
  have hstays : Step.unregister ⟨"W1"⟩ ∉ detached := by simp [detached]
  exact ⟨hbound, by decide +kernel, (shows_last_report_iff hbound hstays).1⟩

theorem not_showsBranch_detached : ¬ (onePane.run detached).ShowsBranch ⟨"W1"⟩ ⟨"p1"⟩ := by
  intro h
  have hreport : (onePane.run detached).source.lastReport? ⟨"W1"⟩ = some ⟨.zero, none, []⟩ := by
    decide +kernel
  have hshown : ((onePane.run detached).projection.view? ⟨"p1"⟩).map (·.branch) =
      some (some "main") := by decide +kernel
  rw [h _ hreport] at hshown
  cases hshown

end Mirror

end Switchboard
