import Switchboard.Proofs.FsSource.IgnoreDirs
import Switchboard.Proofs.FsSource.Numbering

/-!
# What a report tells

A report is compared with the last one on its root. It tells the paths in which the two differ, then
the counts and then the branch, each only if it is another one than before. Of the paths it tells
those that no deeper root owns, and a report that follows a flush tells none, since the flush has
told them.
-/
namespace Switchboard

open Mirror (Step perform)

namespace RootTable

variable {t : RootTable} {w : WorktreeId} {root : Root} {p : Path}

/-- A path below the root, as the root sees it, that lies below no deeper root. -/
def IsOwn (t : RootTable) (root : Root) (p : Path) : Prop :=
  root.key <+: (root.path.join p).key t.foldCase ∧
    ∀ r ∈ t.list, r.key <+: (root.path.join p).key t.foldCase → r.key.length ≤ root.key.length

theorem Sound.belongs_iff_isOwn (h : t.Sound) (hr : t.get? w = some root) :
    t.Belongs w (root.path.join p) ↔ t.IsOwn root p := by
  have hin := Sound.mem_of_get? hr
  have hw := h.worktree_of_get? hr
  rw [Belongs, Option.map_eq_some_iff]
  constructor
  · rintro ⟨⟨owner, rel⟩, ho, howner⟩
    obtain ⟨⟨hmem, hpre, hmax⟩, -⟩ := h.ownerOf?_eq_some_iff.mp ho
    obtain rfl : root = owner := by
      have hget := h.get?_of_mem hmem
      rwa [show owner.worktree = w from howner, hr, Option.some.injEq] at hget
    exact ⟨hpre, hmax⟩
  · rintro ⟨hpre, hmax⟩
    exact ⟨(root, _), h.ownerOf?_eq_some_iff.mpr ⟨⟨hin, hpre, hmax⟩, rfl⟩, hw⟩

end RootTable

theorem Batcher.changesets_nil (b : Batcher) (w : WorktreeId) (now : Nat) :
    b.changesets w [] now = (b, []) := by
  rw [changesets, chunksOf, if_neg (by simp)]
  rfl

namespace FsSource

section Answer

variable {s : FsSource} {w : WorktreeId} {root : Root} {prev next : StatusReport}
  {o : ProbeOutcome} {p : Path}

theorem taken?_of_generation (hg : s.generation? o.worktree = some o.generation) :
    s.taken? o = o.report := by
  obtain ⟨state, hstate, hg⟩ := Option.map_eq_some_iff.mp hg
  simp only [taken?, hstate, if_pos hg]

theorem mem_ownedPaths (h : s.table.Sound) (hr : s.table.get? w = some root) {set : PathSet} :
    p ∈ s.ownedPaths w set ↔ p ∈ set ∧ s.table.IsOwn root p := by
  rw [ownedPaths_eq hr, List.mem_filter, decide_eq_true_eq, ← h.belongs_iff_isOwn hr]
  rfl

theorem sorted_ownedPaths {set : PathSet} (hs : set.Sorted) :
    (s.ownedPaths w set).Sorted := by
  simp only [ownedPaths]
  split
  · exact .nil
  · exact hs.sublist List.filter_sublist

def toldPaths (s : FsSource) (o : ProbeOutcome) (prev next : StatusReport) : PathSet :=
  if o.reason = .flush then [] else s.ownedPaths o.worktree (.symmDiff prev.dirty next.dirty)

theorem news_between (prev next : StatusReport) (w : WorktreeId) :
    StatusDelta.news (.between (some prev) next) w =
      (if prev.counts = next.counts then [] else [.gitStatusChanged w next.counts]) ++
        if prev.branch = next.branch then [] else [.branchChanged w next.branch] := by
  by_cases hc : prev.counts = next.counts <;> by_cases hb : prev.branch = next.branch <;>
    simp [StatusDelta.news, StatusDelta.between, hc, hb]

theorem events_applyStatus (hp : s.lastReport? o.worktree = some prev)
    (ht : s.taken? o = some next) (hreason : o.reason ≠ .resync) (now : Nat) :
    (s.applyStatus o now).2.envelopes.map (·.event) =
      ((s.batcher.changesets o.worktree (s.toldPaths o prev next) now).2.map
          FilesystemEvent.filesChanged ++
        StatusDelta.news (.between (some prev) next) o.worktree).map .filesystem := by
  obtain ⟨state, ha, hr⟩ := taken?_eq_some.mp ht
  have hlast : (RootState.over state).lastReport = some prev := by
    rw [← hp, lastReport?, (awaiting?_eq_some.mp ha).1]
    rfl
  have htells : tellsPaths o.reason (RootState.over state) = o.reason.isPull := by
    simp [tellsPaths, hlast]
  have hpaths : s.toldPaths o prev next =
      if o.reason.isPull then s.ownedPaths o.worktree (.symmDiff prev.dirty next.dirty)
      else [] := by
    by_cases hf : o.reason = .flush <;> simp [toldPaths, ReconcileReason.isPull, hf]
  rw [applyStatus_of_awaited ha, envelopes_resumed, heard, hr, hpaths]
  simp only [applyReport, event_emitAll, if_neg hreason, hlast, htells]
  rfl

theorem envelopes_of_same (hp : s.lastReport? o.worktree = some prev) (ht : s.taken? o = some next)
    (hreason : o.reason ≠ .resync) (hcounts : prev.counts = next.counts)
    (hbranch : prev.branch = next.branch) (hdirty : ∀ p, prev.Lists p ↔ next.Lists p) (now : Nat) :
    (s.applyStatus o now).2.envelopes = [] := by
  have hnone : s.toldPaths o prev next = [] := by
    simp only [toldPaths, PathSet.symmDiff_eq_nil hdirty, ownedPaths]
    split
    · rfl
    · split <;> rfl
  have hevents := events_applyStatus hp ht hreason now
  rw [hnone, Batcher.changesets_nil, news_between, if_pos hcounts, if_pos hbranch] at hevents
  exact List.map_eq_nil_iff.mp hevents

theorem sorted_toldPaths (hs : prev.dirty.Sorted) : (s.toldPaths o prev next).Sorted := by
  rw [toldPaths]
  split
  · exact .nil
  · exact sorted_ownedPaths hs.symmDiff

theorem mem_toldPaths (h : s.table.Sound) (hr : s.table.get? o.worktree = some root)
    (hprev : prev.dirty.Sorted) (hnext : next.dirty.Sorted) (hreason : o.reason ≠ .flush) :
    p ∈ s.toldPaths o prev next ↔
      ((p ∈ prev.dirty ∧ ¬ next.Lists p) ∨ (p ∈ next.dirty ∧ ¬ prev.Lists p)) ∧
        s.table.IsOwn root p := by
  rw [toldPaths, if_neg hreason, mem_ownedPaths h hr, PathSet.mem_symmDiff hprev hnext]
  simp only [StatusReport.Lists, Bool.not_eq_true]

end Answer

section Runs

variable {s : FsSource} {w : WorktreeId} {report : StatusReport}

theorem lastReport?_perform_unregister (h : s.Sound) (w : WorktreeId) :
    (perform s (.unregister w)).1.lastReport? w = none := by
  have hg := h.generation?_perform_unregister w
  rw [generation?, Option.map_eq_none_iff] at hg
  rw [lastReport?, hg]
  rfl

theorem answered_of_lastReport (h : s.Sound) {steps : List Step}
    (hl : (s.after steps).lastReport? w = some report) :
    s.lastReport? w = some report ∨ ∃ o now, .answer o now ∈ steps ∧ o.report = some report := by
  induction steps generalizing s with
  | nil => exact .inl hl
  | cons x rest ih =>
    rcases ih (h.perform x) hl with hl | ⟨o, now, hm, hr⟩
    · by_cases hx : x = .unregister w
      · rw [hx, lastReport?_perform_unregister h] at hl
        cases hl
      rcases lastReport?_perform h hx with hsame | ⟨o, now, report', rfl, -, ht, hnew⟩
      · exact .inl (hsame ▸ hl)
      · obtain ⟨state, -, hr⟩ := taken?_eq_some.mp ht
        rw [hnew, Option.some.injEq] at hl
        exact .inr ⟨o, now, List.mem_cons_self, hl ▸ hr⟩
    · exact .inr ⟨o, now, List.mem_cons_of_mem _ hm, hr⟩

end Runs

/-- A report that is taken tells what is other than in the last report on its root, whatever was
done before: the paths in which the two differ and that no deeper root owns, each once and in order,
then the counts and then the branch if they changed. After a flush it tells no paths. It is the last
report from then on, so a report like it tells nothing. A probe that failed tells nothing either and
leaves the last report as it is. The paths of a report are a set, so they stand in it in order. -/
theorem tells_exactly_the_delta (config : FsConfig) (epoch : Nat) (steps : List Step)
    (hsets : ∀ o now report, .answer o now ∈ steps → o.report = some report → report.dirty.Sorted)
    {w : WorktreeId} {root : Root} {prev : StatusReport} {o : ProbeOutcome} (now : Nat)
    (hroot : ((create config epoch).after steps).table.get? w = some root)
    (hprev : ((create config epoch).after steps).lastReport? w = some prev) (hw : o.worktree = w)
    (hcurrent : ((create config epoch).after steps).generation? w = some o.generation) :
    let s := (create config epoch).after steps
    let s' := (s.applyStatus o now).1
    let told := (s.applyStatus o now).2.envelopes
    (∀ next, o.report = some next → next.dirty.Sorted →
      (o.reason ≠ .resync → ∃ css : List Changeset,
        told.map (·.event) = css.map (fun cs => .filesystem (.filesChanged cs)) ++
          (if prev.counts = next.counts then []
            else [.filesystem (.gitStatusChanged w next.counts)]) ++
          (if prev.branch = next.branch then []
            else [.filesystem (.branchChanged w next.branch)]) ∧
        (∀ cs ∈ css, cs.worktree = w) ∧
        (o.reason = .flush → css = []) ∧
        (o.reason ≠ .flush → PathSet.Sorted (css.flatMap (·.paths)) ∧
          ∀ p, p ∈ css.flatMap (·.paths) ↔
            ((p ∈ prev.dirty ∧ ¬ next.Lists p) ∨ (p ∈ next.dirty ∧ ¬ prev.Lists p)) ∧
              s.table.IsOwn root p)) ∧
      s'.lastReport? w = some next ∧
      ∀ again report now', again.worktree = w → again.generation = o.generation →
        again.reason ≠ .resync → again.report = some report → report.counts = next.counts →
        report.branch = next.branch → (∀ p, report.Lists p ↔ next.Lists p) →
        (s'.applyStatus again now').2.envelopes = []) ∧
    (o.report = none → told = [] ∧ s'.lastReport? w = some prev) := by
  intro s s' told
  have hs : s.Sound := (sound_create config epoch).after steps
  subst hw
  have htaken : s.taken? o = o.report := taken?_of_generation hcurrent
  refine ⟨fun next hnext hsorted => ⟨fun hreason => ?_, ?_, ?_⟩, fun hnone => ?_⟩
  · have hprevSorted : prev.dirty.Sorted := by
      rcases answered_of_lastReport (sound_create config epoch) hprev with hl | ⟨o, now, hm, hr⟩
      · cases hl
      · exact hsets o now prev hm hr
    refine ⟨(s.batcher.changesets o.worktree (s.toldPaths o prev next) now).2, ?_,
      s.batcher.worktree_changesets _ _ _, fun hflush => ?_, fun hpull => ?_⟩
    · have hevents := events_applyStatus hprev (htaken.trans hnext) hreason now
      rw [hevents, news_between, List.map_append, List.map_append, List.map_map,
        ← List.append_assoc, apply_ite (List.map Event.filesystem),
        apply_ite (List.map Event.filesystem)]
      rfl
    · rw [toldPaths, if_pos hflush, Batcher.changesets_nil]
    · rw [Batcher.flatMap_changesets _ _ _ _ hs.parts]
      exact ⟨sorted_toldPaths hprevSorted,
        fun p => mem_toldPaths hs.table hroot hprevSorted hsorted hpull⟩
  · exact (Mirror.told_of_taken (htaken.trans hnext) now none none).1
  · intro again report now' hagain hgeneration hreason hreport hcounts hbranch hdirty
    have hlast := (Mirror.told_of_taken (htaken.trans hnext) now none none).1
    rw [← hagain] at hlast
    have hgeneration' : s'.generation? again.worktree = some again.generation := by
      rw [(keeps_applyStatus hs.consistent o now).generation, hagain, hgeneration]
      exact hcurrent
    have htaken' : s'.taken? again = some report :=
      (taken?_of_generation hgeneration').trans hreport
    exact envelopes_of_same hlast htaken' hreason hcounts.symm hbranch.symm
      (fun p => (hdirty p).symm) now'
  · have hnot : s.taken? o = none := htaken.trans hnone
    exact ⟨envelopes_of_not_taken hnot now,
      ((quiet_applyStatus hnot now).reports o.worktree).trans hprev⟩

def nestedReports : List Step :=
  [.register ⟨"W1"⟩ ⟨"/repo"⟩ .activeInApp, .register ⟨"W2"⟩ ⟨"/repo/sub"⟩ .activeInApp,
    .answer ⟨⟨"W1"⟩, 1, .wake, some ⟨⟨1, 0, 0⟩, some "main", [⟨"a.txt"⟩, ⟨"b.txt"⟩]⟩⟩ 1,
    .request ⟨"W1"⟩ .driftSweep]

theorem tells_exactly_the_delta_nested :
    let s := (create ⟨.standard, false, []⟩ 0).after nestedReports
    let o : ProbeOutcome :=
      ⟨⟨"W1"⟩, 1, .driftSweep, some ⟨⟨1, 0, 1⟩, some "main", [⟨"b.txt"⟩, ⟨"sub/c.txt"⟩]⟩⟩
    s.lastReport? ⟨"W1"⟩ = some ⟨⟨1, 0, 0⟩, some "main", [⟨"a.txt"⟩, ⟨"b.txt"⟩]⟩ ∧
      s.generation? ⟨"W1"⟩ = some o.generation ∧
      (s.applyStatus o 2).2.envelopes.map (·.event) =
        [.filesystem (.filesChanged ⟨⟨"W1"⟩, [⟨"a.txt"⟩], 2, 1, 1, 1⟩),
          .filesystem (.gitStatusChanged ⟨"W1"⟩ ⟨1, 0, 1⟩)] ∧
      (s.applyStatus o 2).1.lastReport? ⟨"W1"⟩ =
        some ⟨⟨1, 0, 1⟩, some "main", [⟨"b.txt"⟩, ⟨"sub/c.txt"⟩]⟩ := by
  intro s o
  have hsets : ∀ o now report, .answer o now ∈ nestedReports → o.report = some report →
      report.dirty.Sorted := by
    intro o now report hm hr
    simp only [nestedReports, List.mem_cons, reduceCtorEq, Step.answer.injEq, List.not_mem_nil,
      or_false, false_or] at hm
    rw [hm.1, Option.some.injEq] at hr
    rw [← hr, PathSet.Sorted]
    decide +kernel
  have hroot : s.table.get? ⟨"W1"⟩ =
      some ⟨⟨"W1"⟩, ⟨"/repo"⟩, .activeInApp, Path.key false ⟨"/repo"⟩⟩ := by decide +kernel
  have hprev : s.lastReport? ⟨"W1"⟩ =
      some ⟨⟨1, 0, 0⟩, some "main", [⟨"a.txt"⟩, ⟨"b.txt"⟩]⟩ := by decide +kernel
  have hcurrent : s.generation? ⟨"W1"⟩ = some o.generation := by decide +kernel
  have hnext : PathSet.Sorted [⟨"b.txt"⟩, ⟨"sub/c.txt"⟩] := by
    rw [PathSet.Sorted]
    decide +kernel
  have htells := tells_exactly_the_delta ⟨.standard, false, []⟩ 0 nestedReports hsets (o := o) 2
    hroot hprev rfl hcurrent
  exact ⟨hprev, hcurrent, by decide +kernel, (htells.1 _ rfl hnext).2.1⟩

end FsSource

end Switchboard
