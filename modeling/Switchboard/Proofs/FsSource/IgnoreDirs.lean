import Switchboard.Proofs.FsSource.Overflow
import Switchboard.Proofs.FsSource.Unregister

/-!
# Ignored directories

A notice of a path past an ignored name only marks the status of its root, so no such path waits,
and no flush tells one. A report is not looked through: an answer to a pull tells a path past an
ignored name just as any other. So such a path is told exactly if a report discloses it.
-/
namespace Switchboard

open Mirror (Step perform)

namespace FsSource

/-- The step takes a report that tells the path as a change of the root: the root owns the path, and
the report shows it otherwise than the last one, or shows it where everything is told again. -/
def Discloses (s : FsSource) (w : WorktreeId) (p : Path) (x : Step) : Prop :=
  ∃ o now report root, x = .answer o now ∧ o.worktree = w ∧ s.taken? o = some report ∧
    o.reason.Reveals (s.lastReport? w) report p ∧
    s.table.get? w = some root ∧ s.table.Belongs w (root.path.join p)

def Clean (s : FsSource) : Prop :=
  ∀ w rel, s.Pends (.changed w rel) → s.isIgnored rel = false

section Excluding

variable {s : FsSource} {w : WorktreeId} {p : Path}

theorem isIgnored_congr {q : Path} (h : p.same q = true) : s.isIgnored p = s.isIgnored q := by
  rw [isIgnored, isIgnored, Path.same_iff.mp h]

theorem ignoreDirs_perform (h : s.Sound) (x : Step) :
    (perform s x).1.ignoreDirs = s.ignoreDirs := by
  rcases h.perform_cases x with hk | ⟨u, path, tier, probe, -, hr⟩ | ⟨u, info, -, hr⟩ |
    ⟨u, tier, -, hr⟩
  · exact hk.ignoreDirs
  · obtain ⟨table, hi, hb⟩ := register_cases hr
    have hk := keeps_beginProbe (consistent_entered h.consistent hi) u .wake
    rw [hb] at hk
    exact hk.ignoreDirs
  · obtain ⟨table, root, -, -, hs⟩ := unregister_cases hr
    rw [hs]
  · obtain ⟨table, -, hs⟩ := setTier_cases hr
    rw [hs]

theorem isIgnored_perform (h : s.Sound) (x : Step) (rel : Path) :
    (perform s x).1.isIgnored rel = s.isIgnored rel := by
  rw [isIgnored, isIgnored, ignoreDirs_perform h]

theorem not_isIgnored_of_route {raw rel : Path} (h : s.route raw = .changed w rel) :
    s.isIgnored rel = false := by
  simp only [route] at h
  cases ho : s.table.ownerOf? raw.normalize with
  | none => simp [ho] at h
  | some owner =>
    simp only [ho] at h
    split at h
    · cases h
    · next hnot =>
      obtain ⟨-, rfl⟩ := Route.changed.inj h
      rw [Bool.or_eq_true, not_or, Bool.not_eq_true] at hnot
      exact Bool.not_eq_true _ ▸ hnot.2

theorem clean_create (config : FsConfig) (epoch : Nat) : (create config epoch).Clean := by
  intro w rel h
  cases h

theorem Clean.perform (hc : s.Clean) (h : s.Sound) (x : Step) : (perform s x).1.Clean := by
  intro w rel hr
  rw [isIgnored_perform h]
  rcases pends_perform h hr with hold | ⟨raws, now, -, raw, -, hroute⟩
  · exact hc w rel hold
  · exact not_isIgnored_of_route hroute

theorem root_of_taken (h : s.Sound) {o : ProbeOutcome} {report : StatusReport}
    (ht : s.taken? o = some report) : ∃ root, s.table.get? o.worktree = some root := by
  obtain ⟨state, ha, -⟩ := taken?_eq_some.mp ht
  rw [← Option.isSome_iff_exists, ← h.consistent, (awaiting?_eq_some.mp ha).1]
  rfl

theorem told_iff_discloses (h : s.Sound) (hc : s.Clean) (hp : s.isIgnored p = true) (x : Step) :
    PathSet.contains (changedPaths w (perform s x).2) p = true ↔ s.Discloses w p x := by
  by_cases hf : x.IsFlush
  · refine iff_of_false (fun htold => ?_) ?_
    · obtain ⟨q, hq, hpq⟩ := PathSet.contains_iff.mp htold
      have hclean := hc w q (pends_of_told h hf hq)
      rw [← isIgnored_congr hpq, hp] at hclean
      cases hclean
    · rintro ⟨o, now, report, root, rfl, -⟩
      exact hf
  by_cases ha : ∃ o now, x = .answer o now
  · obtain ⟨o, now, rfl⟩ := ha
    constructor
    · intro htold
      by_cases ho : o.worktree = w
      · subst ho
        cases ht : s.taken? o with
        | none =>
          rw [Mirror.perform, changedPaths_of_not_taken ht] at htold
          cases htold
        | some report =>
          obtain ⟨root, hr⟩ := root_of_taken h ht
          obtain ⟨hreveals, hbelongs⟩ := (contains_answer h hr rfl ht now).mp htold
          exact ⟨o, now, report, root, rfl, rfl, ht, hreveals, hr, hbelongs⟩
      · rw [Mirror.perform, changedPaths_of_other h ho] at htold
        cases htold
    · rintro ⟨o', now', report, root, he, ho, ht, hreveals, hr, hbelongs⟩
      cases he
      exact (contains_answer h hr ho ht now).mpr ⟨hreveals, hbelongs⟩
  · rw [told_eq_nil hf fun o now he => ha ⟨o, now, he⟩]
    refine iff_of_false (fun htold => by cases htold) ?_
    rintro ⟨o, now, report, root, rfl, -⟩
    exact ha ⟨o, now, rfl⟩

theorem told_iff_somewhere_discloses (h : s.Sound) (hc : s.Clean) (hp : s.isIgnored p = true)
    (steps : List Step) :
    PathSet.contains (changedPaths w (s.told steps)) p = true ↔
      s.Somewhere steps fun t x => t.Discloses w p x := by
  induction steps generalizing s with
  | nil => simp [told, changedPaths, PathSet.contains, somewhere_nil]
  | cons x rest ih =>
    rw [told, changedPaths_append, PathSet.contains_append, Bool.or_eq_true, somewhere_cons,
      told_iff_discloses h hc hp,
      ih (h.perform x) (hc.perform h x) ((isIgnored_perform h x p).trans hp)]

end Excluding

/-- Whatever the ignored names and the steps, a path past an ignored name is told as a change of a
root exactly if a report on the way discloses it: no flush ever tells one. -/
theorem ignored_told_iff_disclosed (config : FsConfig) (epoch : Nat) (steps : List Step)
    (w : WorktreeId) {p : Path} (hp : (create config epoch).isIgnored p = true) :
    PathSet.contains (changedPaths w ((create config epoch).told steps)) p = true ↔
      (create config epoch).Somewhere steps fun s x => s.Discloses w p x :=
  told_iff_somewhere_discloses (sound_create config epoch) (clean_create config epoch) hp steps

def vendored : List Step :=
  [.register ⟨"W1"⟩ ⟨"/repo"⟩ .activeInApp, .answer ⟨⟨"W1"⟩, 1, .wake, some .clean⟩ 1,
    .request ⟨"W1"⟩ .overflow,
    .answer ⟨⟨"W1"⟩, 1, .overflow, some ⟨⟨0, 0, 1⟩, none, [⟨"node_modules/a.js"⟩]⟩⟩ 2]

theorem ignored_told_iff_disclosed_vendored :
    let s := create ⟨.standard, false, ["node_modules"]⟩ 0
    s.isIgnored ⟨"node_modules/a.js"⟩ = true ∧
      s.Somewhere vendored fun s x => s.Discloses ⟨"W1"⟩ ⟨"node_modules/a.js"⟩ x := by
  intro s
  have hp : s.isIgnored ⟨"node_modules/a.js"⟩ = true := by decide +kernel
  exact ⟨hp, (ignored_told_iff_disclosed _ 0 vendored ⟨"W1"⟩ hp).mp (by decide +kernel)⟩

/-- A report tells a path past an ignored name. -/
theorem not_always_excluded :
    ¬ ∀ (config : FsConfig) (epoch : Nat) (steps : List Step),
      ∀ cs ∈ changesets ((create config epoch).told steps), ∀ rel ∈ cs.paths,
        ∀ c ∈ rel.components, c.text.lossy ∉ config.ignoreDirs := by
  intro h
  have htold : changesets ((create ⟨.standard, false, ["node_modules"]⟩ 0).told vendored) =
      [⟨⟨"W1"⟩, [⟨"node_modules/a.js"⟩], 2, 1, 1, 1⟩] := by decide +kernel
  refine h ⟨.standard, false, ["node_modules"]⟩ 0 vendored _ (htold ▸ List.mem_cons_self) _
    List.mem_cons_self (.name "node_modules") ?_ List.mem_cons_self
  decide +kernel

end FsSource

end Switchboard
