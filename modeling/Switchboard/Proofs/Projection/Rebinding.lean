import Switchboard.Proofs.Projection.Isolation

/-!
# Shown paths and the scope

A path comes to be shown because it lies in the scope of the pane, and is kept as it was collected.
The scope is computed anew whenever it is asked for, from the directory and from the root. So a pane
shows nothing outside its scope until one of them changes under the paths it shows: the pane gets
another directory in the same worktree, or the worktree gets another root, or loses it.
-/
namespace Switchboard

def PaneView.Within (view : PaneView) (scope : Scope) : Prop :=
  ∀ rel ∈ view.changed, scope.admits rel = true

namespace PaneView

variable {view : PaneView} {scope : Scope} {event : FilesystemEvent} {cs : Changeset} {rel : Path}

theorem changed_after_news (view : PaneView) (scope : Scope) (now : Nat)
    (h : ∀ cs, event ≠ .filesChanged cs) :
    (view.after scope event now).changed = view.changed := by
  cases event with
  | filesChanged cs => exact absurd rfl (h cs)
  | gitStatusChanged w counts =>
    simp only [after, Projection.see]
    by_cases hc : view.status = some counts <;> simp [hc]
  | branchChanged w branch =>
    simp only [after, Projection.see]
    by_cases hc : view.branch = branch <;> simp [hc]

theorem changed_after_filesChanged (view : PaneView) (scope : Scope) (cs : Changeset) (now : Nat) :
    (view.after scope (.filesChanged cs) now).changed =
      if cs.batchSeq ≤ view.lastBatchSeq ∨ PathSet.ofList (cs.paths.filter scope.admits) = [] then
        view.changed
      else if view.fresh = true ∨ cs.part ≤ 1 then PathSet.ofList (cs.paths.filter scope.admits)
      else view.changed.insertAll (PathSet.ofList (cs.paths.filter scope.admits)) := by
  simp only [after, Projection.see, Projection.seeChangeset]
  by_cases hold : cs.batchSeq ≤ view.lastBatchSeq
  · simp [hold]
  by_cases hnone : PathSet.ofList (cs.paths.filter scope.admits) = []
  · simp [hold, hnone]
  · simp [hold, hnone]

theorem mem_visible (h : rel ∈ PathSet.ofList (cs.paths.filter scope.admits)) :
    rel ∈ cs.paths ∧ scope.admits rel = true :=
  List.mem_filter.mp (PathSet.mem_of_mem_ofList h)

theorem mem_changed_after {now : Nat} (h : rel ∈ (view.after scope event now).changed) :
    rel ∈ view.changed ∨ ∃ cs, event = .filesChanged cs ∧ view.lastBatchSeq < cs.batchSeq ∧
      rel ∈ cs.paths ∧ scope.admits rel = true := by
  cases event with
  | filesChanged cs =>
    rw [changed_after_filesChanged] at h
    split at h
    · exact .inl h
    · next hnew =>
      rw [not_or, Nat.not_le] at hnew
      have hbrought : rel ∈ PathSet.ofList (cs.paths.filter scope.admits) →
          ∃ cs', FilesystemEvent.filesChanged cs = .filesChanged cs' ∧
            view.lastBatchSeq < cs'.batchSeq ∧ rel ∈ cs'.paths ∧ scope.admits rel = true :=
        fun hm => ⟨cs, rfl, hnew.1, mem_visible hm⟩
      split at h
      · exact .inr (hbrought h)
      · exact (PathSet.mem_insertAll h).imp_right hbrought
  | gitStatusChanged w counts =>
    rw [view.changed_after_news scope now (by simp)] at h
    exact .inl h
  | branchChanged w branch =>
    rw [view.changed_after_news scope now (by simp)] at h
    exact .inl h

theorem within_unresolved_iff : view.Within .unresolved ↔ view.changed = [] := by
  simp only [Within, Scope.admits, Bool.false_eq_true, List.eq_nil_iff_forall_not_mem]

theorem within_after (h : view.Within scope) (event : FilesystemEvent) (now : Nat) :
    (view.after scope event now).Within scope := by
  intro rel hm
  rcases mem_changed_after hm with hm | ⟨-, -, -, -, ha⟩
  · exact h rel hm
  · exact ha

theorem within_after_fresh (hnew : view.lastBatchSeq < cs.batchSeq)
    (hfresh : view.fresh = true ∨ cs.part ≤ 1)
    (hsome : PathSet.ofList (cs.paths.filter scope.admits) ≠ []) (now : Nat) :
    (view.after scope (.filesChanged cs) now).Within scope := by
  intro rel hm
  rw [changed_after_filesChanged, if_neg (not_or.mpr ⟨Nat.not_le.mpr hnew, hsome⟩), if_pos hfresh]
    at hm
  exact (mem_visible hm).2

end PaneView

namespace Projection

def InScope (p : Projection) (pane : PaneId) : Prop :=
  ∀ view, p.view? pane = some view → view.Within (p.scope view)

/-- The operation changes the scope of a pane so that it leaves out something the pane shows. The
pane gets another directory in the same worktree, or the worktree gets another root; or it loses its
root, which leaves a pane with an absolute directory without any scope. -/
def Uncovers (p : Projection) (pane : PaneId) : Operation → Prop
  | .arrange (.bind other w cwd) => other = pane ∧ ∃ view, p.view? pane = some view ∧
    view.worktree = w ∧ ¬ view.Within (p.scope { view with cwd })
  | .arrange (.setRoot w root) => ∃ view, p.view? pane = some view ∧ view.worktree = w ∧
    ¬ view.Within ((p.setRoot w root).scope view)
  | .arrange (.forgetRoot w) => ∃ view, p.view? pane = some view ∧ view.worktree = w ∧
    view.cwd.any Path.isAbsolute = true ∧ view.changed ≠ []
  | .arrange (.unbind _) | .apply _ => False

/-- The envelope brings a pane of the worktree the path, which lies in the scope of the pane. -/
def Brings (p : Projection) (pane : PaneId) (w : WorktreeId) (rel : Path) : Operation → Prop
  | .apply e => ∃ view cs, p.view? pane = some view ∧ view.worktree = w ∧
    e.heard? = some (w, .filesChanged cs) ∧ view.lastBatchSeq < cs.batchSeq ∧ rel ∈ cs.paths ∧
    (p.scope view).admits rel = true
  | .arrange _ => False

section Steps

variable {p : Projection} {pane : PaneId} {view : PaneView} {w : WorktreeId}

theorem scope_bind (p : Projection) (other : PaneId) (w : WorktreeId) (cwd : Option Path)
    (view : PaneView) : (p.bind other w cwd).scope view = p.scope view :=
  scope_congr_root (root?_perform p (.arrange (.bind other w cwd)) view.worktree)

theorem scope_apply (p : Projection) (e : Envelope) (view : PaneView) :
    (p.apply e).1.scope view = p.scope view :=
  scope_congr_root (root?_perform p (.apply e) view.worktree)

theorem scope_setRoot_of_ne (h : view.worktree ≠ w) (root : Path) :
    (p.setRoot w root).scope view = p.scope view :=
  scope_congr_root (Table.get?_set_of_ne _ _ (Ne.symm h))

theorem scope_forgetRoot_of_ne (h : view.worktree ≠ w) :
    (p.forgetRoot w).scope view = p.scope view :=
  scope_congr_root ((Table.get?_erase _ _ _).trans (if_neg (Ne.symm h)))

theorem scope_forgetRoot (h : view.worktree = w) : (p.forgetRoot w).scope view =
    if view.cwd.any Path.isAbsolute = true then .unresolved else p.scope view := by
  have hgone : Table.get? (p.forgetRoot w).roots view.worktree = none :=
    (Table.get?_erase _ _ _).trans (if_pos h.symm)
  simp only [scope, hgone]
  cases view.cwd with
  | none => rfl
  | some cwd => cases hc : cwd.isAbsolute <;> simp [hc]

theorem inScope_of_view? (hv : p.view? pane = some view) :
    p.InScope pane ↔ view.Within (p.scope view) := by
  simp only [InScope, hv, Option.some.injEq, forall_eq']

theorem inScope_of_unbound (hv : p.view? pane = none) : p.InScope pane := by
  intro view h
  rw [hv] at h
  cases h

theorem within_shown (h : view.Within (p.scope view)) (e : Envelope) :
    (p.shown e view).Within (p.scope view) := by
  rw [shown_eq]
  split
  · split
    · exact PaneView.within_after h _ _
    · exact h
  · exact h

theorem scope_shown (p : Projection) (e : Envelope) (view : PaneView) :
    p.scope (p.shown e view) = p.scope view := by
  rw [shown_eq]
  split
  · split
    · simp only [scope, view.cwd_after, view.worktree_after]
    · rfl
  · rfl

/-- A pane that shows nothing outside its scope goes on so, unless its scope changes under it. -/
theorem inScope_perform_iff (hk : Keyed p) (h : p.InScope pane) (op : Operation) :
    (p.perform op).InScope pane ↔ ¬ p.Uncovers pane op := by
  cases op with
  | arrange a =>
    cases a with
    | bind other w cwd =>
      by_cases ho : other = pane
      · subst ho
        have hafter := (view?_bind hk other w cwd other).trans (if_pos rfl)
        rw [show p.perform (.arrange (.bind other w cwd)) = p.bind other w cwd from rfl,
          inScope_of_view? hafter, scope_bind]
        rcases p.rebound_cases other w cwd with ⟨view, hv, hw, hnew⟩ | ⟨hmoved, hnew⟩
        · rw [hnew]
          simp only [Uncovers, hv, Option.some.injEq, exists_eq_left', hw, true_and, not_not]
          rfl
        · have hempty : (p.rebound other w cwd).changed = [] := by rw [hnew]; rfl
          simp only [PaneView.Within, hempty, Uncovers]
          simp only [List.not_mem_nil, false_imp_iff, implies_true, true_and, true_iff, not_exists,
            not_and]
          exact fun view hv hw => absurd hw (hmoved view hv)
      · have hafter := (view?_bind hk other w cwd pane).trans (if_neg ho)
        refine iff_of_true ?_ fun hu => ho hu.1
        intro view hv
        exact (p.scope_bind other w cwd view).symm ▸ h view (hafter ▸ hv)
    | unbind other =>
      refine iff_of_true ?_ id
      intro view hv
      have hscope : (p.perform (.arrange (.unbind other))).scope view = p.scope view :=
        scope_congr_root (root?_perform p _ view.worktree)
      have hkept := (p.view?_unbind other pane).symm.trans hv
      split at hkept
      · cases hkept
      · exact hscope.symm ▸ h view hkept
    | setRoot w root =>
      cases hv : p.view? pane with
      | none => exact iff_of_true (inScope_of_unbound hv) (by simp [Uncovers, hv])
      | some view =>
        rw [inScope_of_view? (show (p.perform (.arrange (.setRoot w root))).view? pane = some view
          from hv)]
        by_cases hw : view.worktree = w
        · simp only [Uncovers, hv, Option.some.injEq, exists_eq_left', hw, true_and, not_not]
          rfl
        · refine iff_of_true ?_ (by simp [Uncovers, hv, hw])
          exact (scope_setRoot_of_ne hw root).symm ▸ h view hv
    | forgetRoot w =>
      cases hv : p.view? pane with
      | none => exact iff_of_true (inScope_of_unbound hv) (by simp [Uncovers, hv])
      | some view =>
        have hold := h view hv
        rw [inScope_of_view? (show (p.perform (.arrange (.forgetRoot w))).view? pane = some view
          from hv), show p.perform (.arrange (.forgetRoot w)) = p.forgetRoot w from rfl]
        by_cases hw : view.worktree = w
        · simp only [Uncovers, hv, Option.some.injEq, exists_eq_left', hw, true_and, not_and,
            not_not]
          rw [scope_forgetRoot hw]
          split
          · next habs => simp only [habs, true_imp_iff, PaneView.within_unresolved_iff]
          · next hrel => exact iff_of_true hold fun habs => absurd habs hrel
        · refine iff_of_true ?_ (by simp [Uncovers, hv, hw])
          exact (scope_forgetRoot_of_ne hw).symm ▸ hold
  | apply e =>
    refine iff_of_true ?_ id
    intro view hv
    rw [perform, view?_apply hk] at hv
    obtain ⟨old, hold, rfl⟩ := Option.map_eq_some_iff.mp hv
    rw [perform, scope_apply, scope_shown]
    exact within_shown (h old hold) e

theorem mem_changed_perform (hk : Keyed p) {op : Operation} {rel : Path}
    (hv : (p.perform op).view? pane = some view) (hm : rel ∈ view.changed) :
    (∃ old, p.view? pane = some old ∧ old.worktree = view.worktree ∧ rel ∈ old.changed) ∨
      p.Brings pane view.worktree rel op := by
  cases op with
  | arrange a =>
    left
    cases a with
    | bind other w cwd =>
      have hafter := (view?_bind hk other w cwd pane).symm.trans hv
      split at hafter
      · next ho =>
        rw [← Option.some.inj hafter] at hm ⊢
        rcases p.rebound_cases other w cwd with ⟨old, hold, -, hnew⟩ | ⟨-, hnew⟩
        · rw [hnew] at hm ⊢
          exact ⟨old, ho ▸ hold, rfl, hm⟩
        · rw [hnew] at hm
          cases hm
      · exact ⟨view, hafter, rfl, hm⟩
    | unbind other =>
      have hafter := (p.view?_unbind other pane).symm.trans hv
      split at hafter
      · cases hafter
      · exact ⟨view, hafter, rfl, hm⟩
    | setRoot w root => exact ⟨view, hv, rfl, hm⟩
    | forgetRoot w => exact ⟨view, hv, rfl, hm⟩
  | apply e =>
    rw [perform, view?_apply hk] at hv
    obtain ⟨old, hold, rfl⟩ := Option.map_eq_some_iff.mp hv
    rw [(p.shown_spec e old).1]
    rw [shown_eq] at hm
    split at hm
    · next w event hheard =>
      split at hm
      · next hw =>
        rcases PaneView.mem_changed_after hm with hm | ⟨cs, rfl, hnew, hpath, ha⟩
        · exact .inl ⟨old, hold, rfl, hm⟩
        · exact .inr ⟨old, cs, hold, rfl, hw.symm ▸ hheard, hnew, hpath, ha⟩
      · exact .inl ⟨old, hold, rfl, hm⟩
    · exact .inl ⟨old, hold, rfl, hm⟩

end Steps

section Runs

variable {p : Projection} {pane : PaneId}

theorem performAll_append (p : Projection) (before later : List Operation) :
    p.performAll (before ++ later) = (p.performAll before).performAll later := List.foldl_append

theorem inScope_performAll_iff (hk : Keyed p) (later : List Operation) :
    (∀ front, front <+: later → (p.performAll front).InScope pane) ↔ p.InScope pane ∧
      ∀ front op behind, later = front ++ op :: behind →
        ¬ (p.performAll front).Uncovers pane op := by
  constructor
  · intro h
    refine ⟨h [] List.nil_prefix, fun front op behind hsplit => ?_⟩
    have hfront := h front ⟨op :: behind, hsplit.symm⟩
    have hnext := h (front ++ [op]) ⟨behind, by rw [hsplit]; simp⟩
    rw [performAll_append] at hnext
    exact (inScope_perform_iff (hk.performAll front) hfront op).mp hnext
  · rintro ⟨hstart, hnever⟩ front hfront
    induction front using List.reverseRecOn with
    | nil => exact hstart
    | append_singleton front op ih =>
      obtain ⟨behind, hsplit⟩ := hfront
      rw [performAll_append]
      refine (inScope_perform_iff (hk.performAll front) (ih ⟨op :: behind, ?_⟩) op).mpr
        (hnever front op behind ?_)
      · rw [← hsplit]; simp
      · rw [← hsplit]; simp

theorem brought_of_shown (capacity : Nat) {operations : List Operation} {view : PaneView}
    {rel : Path} (hv : ((create capacity).performAll operations).view? pane = some view)
    (hm : rel ∈ view.changed) : ∃ front op behind, operations = front ++ op :: behind ∧
      ((create capacity).performAll front).Brings pane view.worktree rel op := by
  -- from the last operation backwards: either it brings the path, or that was shown before it
  induction operations using List.reverseRecOn generalizing view with
  | nil => cases hv
  | append_singleton operations op ih =>
    rw [performAll_append] at hv
    have hk := (Keyed.create capacity).performAll operations
    rcases mem_changed_perform hk hv hm with ⟨old, hold, hw, hmem⟩ | hbrings
    · obtain ⟨front, op', behind, rfl, hbrings⟩ := ih hold hmem
      exact ⟨front, op', behind ++ [op], by simp, hw ▸ hbrings⟩
    · exact ⟨operations, op, [], rfl, hbrings⟩

end Runs

/-- Every path a pane shows lay in its scope when it was brought. From any moment on, the pane shows
nothing outside its scope as long as it does so now and its scope is not changed under it, and no
longer. What it shows outside its scope is gone with the next batch of which it sees anything. -/
theorem in_scope_iff_never_uncovered (capacity : Nat) (before later : List Operation)
    (pane : PaneId) :
    let p := (create capacity).performAll before
    (∀ view rel, p.view? pane = some view → rel ∈ view.changed →
      ∃ front op behind, before = front ++ op :: behind ∧
        ((create capacity).performAll front).Brings pane view.worktree rel op) ∧
    ((∀ front, front <+: later → (p.performAll front).InScope pane) ↔ p.InScope pane ∧
      ∀ front op behind, later = front ++ op :: behind →
        ¬ (p.performAll front).Uncovers pane op) ∧
    ∀ view e cs rel, p.view? pane = some view →
      e.heard? = some (view.worktree, .filesChanged cs) → view.lastBatchSeq < cs.batchSeq →
      view.fresh = true ∨ cs.part ≤ 1 → rel ∈ cs.paths → (p.scope view).admits rel = true →
      (p.perform (.apply e)).InScope pane := by
  intro p
  have hk : Keyed p := (Keyed.create capacity).performAll before
  refine ⟨fun view rel hv hm => brought_of_shown capacity hv hm, inScope_performAll_iff hk later,
    ?_⟩
  intro view e cs rel hv he hnew hfresh hm ha
  have hsome : PathSet.ofList (cs.paths.filter (p.scope view).admits) ≠ [] :=
    PathSet.ofList_ne_nil (List.mem_filter.mpr ⟨hm, ha⟩)
  have hafter : (p.perform (.apply e)).view? pane =
      some (view.after (p.scope view) (.filesChanged cs) e.timestamp) :=
    view?_apply_of_heard hk hv rfl he
  rw [inScope_of_view? hafter, perform, scope_after]
  exact PaneView.within_after_fresh hnew hfresh hsome e.timestamp

def movedWithin : List Operation :=
  [.arrange (.bind ⟨"p"⟩ ⟨"W"⟩ (some ⟨"src"⟩)), .apply (part "W" 1 ["src/a.txt"]),
    .arrange (.bind ⟨"p"⟩ ⟨"W"⟩ (some ⟨"docs"⟩))]

/-- It goes on showing the file, which is not in its scope any more. -/
theorem not_always_in_scope :
    ¬ ∀ operations pane, ((create 4096).performAll operations).InScope pane := by
  intro h
  have hview : ((create 4096).performAll movedWithin).view? ⟨"p"⟩ = some
      ⟨⟨"p"⟩, ⟨"W"⟩, some ⟨"docs"⟩, [⟨"src/a.txt"⟩], 1, none, none, 0, false⟩ := by decide +kernel
  have hscope := h movedWithin ⟨"p"⟩ _ hview ⟨"src/a.txt"⟩ List.mem_cons_self
  revert hscope
  decide +kernel

end Projection

end Switchboard
