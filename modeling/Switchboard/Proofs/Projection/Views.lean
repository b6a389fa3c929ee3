import Switchboard.Projection
import Switchboard.Proofs.Table

/-!
# Views

Every view in a projection stands under its own pane, so an envelope changes each view on its own:
what a pane sees after it follows from what the pane saw, from its scope and from the envelope.
-/
namespace Switchboard

def PaneView.after (view : PaneView) (scope : Scope) (event : FilesystemEvent) (now : Nat) :
    PaneView :=
  match Projection.see scope view event with
  | .stale => view
  | .unchanged view => view
  | .changed view _ => { view with updatedAt := now }

namespace FilesystemEvent

def statusAfter (old : Option StatusCounts) : FilesystemEvent → Option StatusCounts
  | .gitStatusChanged _ counts => some counts
  | _ => old

def branchAfter (old : Option String) : FilesystemEvent → Option String
  | .branchChanged _ branch => branch
  | _ => old

end FilesystemEvent

namespace PaneView

variable (view : PaneView) (scope : Scope) (event : FilesystemEvent) (now : Nat)

theorem after_filesChanged (cs : Changeset) :
    (view.after scope (.filesChanged cs) now).pane = view.pane ∧
      (view.after scope (.filesChanged cs) now).worktree = view.worktree ∧
      (view.after scope (.filesChanged cs) now).status = view.status ∧
      (view.after scope (.filesChanged cs) now).branch = view.branch ∧
      (view.after scope (.filesChanged cs) now).cwd = view.cwd := by
  simp only [after, Projection.see, Projection.seeChangeset]
  by_cases hold : cs.batchSeq ≤ view.lastBatchSeq
  · simp [hold]
  · rw [if_neg hold]
    by_cases hempty : (PathSet.ofList (cs.paths.filter scope.admits)).isEmpty = true
    · simp [hempty]
    · simp [hempty]

theorem pane_after : (view.after scope event now).pane = view.pane := by
  cases event with
  | filesChanged cs => exact (view.after_filesChanged scope now cs).1
  | gitStatusChanged w counts =>
    simp only [after, Projection.see]
    by_cases h : view.status = some counts <;> simp [h]
  | branchChanged w branch =>
    simp only [after, Projection.see]
    by_cases h : view.branch = branch <;> simp [h]

theorem worktree_after : (view.after scope event now).worktree = view.worktree := by
  cases event with
  | filesChanged cs => exact (view.after_filesChanged scope now cs).2.1
  | gitStatusChanged w counts =>
    simp only [after, Projection.see]
    by_cases h : view.status = some counts <;> simp [h]
  | branchChanged w branch =>
    simp only [after, Projection.see]
    by_cases h : view.branch = branch <;> simp [h]

theorem status_after :
    (view.after scope event now).status = event.statusAfter view.status := by
  cases event with
  | filesChanged cs => exact (view.after_filesChanged scope now cs).2.2.1
  | gitStatusChanged w counts =>
    simp only [after, Projection.see, FilesystemEvent.statusAfter]
    by_cases h : view.status = some counts <;> simp [h]
  | branchChanged w branch =>
    simp only [after, Projection.see, FilesystemEvent.statusAfter]
    by_cases h : view.branch = branch <;> simp [h]

theorem branch_after :
    (view.after scope event now).branch = event.branchAfter view.branch := by
  cases event with
  | filesChanged cs => exact (view.after_filesChanged scope now cs).2.2.2.1
  | gitStatusChanged w counts =>
    simp only [after, Projection.see, FilesystemEvent.branchAfter]
    by_cases h : view.status = some counts <;> simp [h]
  | branchChanged w branch =>
    simp only [after, Projection.see, FilesystemEvent.branchAfter]
    by_cases h : view.branch = branch <;> simp [h]

theorem cwd_after : (view.after scope event now).cwd = view.cwd := by
  cases event with
  | filesChanged cs => exact (view.after_filesChanged scope now cs).2.2.2.2
  | gitStatusChanged w counts =>
    simp only [after, Projection.see]
    by_cases h : view.status = some counts <;> simp [h]
  | branchChanged w branch =>
    simp only [after, Projection.see]
    by_cases h : view.branch = branch <;> simp [h]

end PaneView

namespace Projection

structure Keyed (p : Projection) : Prop where
  sorted : Table.Sorted p.panes
  named : ∀ entry ∈ p.panes, entry.2.pane = entry.1

theorem panes_record (p : Projection) (pane : PaneId) (kind : ChangeKind) :
    (p.record pane kind).panes = p.panes := by
  simp only [record]
  repeat' split
  all_goals rfl

theorem roots_record (p : Projection) (pane : PaneId) (kind : ChangeKind) :
    (p.record pane kind).roots = p.roots := by
  simp only [record]
  repeat' split
  all_goals rfl

theorem view?_record (p : Projection) (pane : PaneId) (kind : ChangeKind) (other : PaneId) :
    (p.record pane kind).view? other = p.view? other := by
  rw [view?, panes_record, view?]

theorem view?_withView (p : Projection) (view : PaneView) (pane : PaneId) :
    (p.withView view).view? pane = if view.pane = pane then some view else p.view? pane :=
  Table.get?_set _ _ _ _

theorem scope_congr {p q : Projection} (h : p.roots = q.roots) (view : PaneView) :
    p.scope view = q.scope view := by
  simp only [scope, h]

namespace Keyed

variable {p : Projection}

theorem create (capacity : Nat) : Keyed (.create capacity) where
  sorted := Table.sorted_nil
  named entry he := by cases he

theorem pane_of_view? (h : Keyed p) {pane : PaneId} {view : PaneView}
    (hv : p.view? pane = some view) : view.pane = pane :=
  h.named _ (Table.mem_of_get? hv)

theorem view?_of_mem (h : Keyed p) {view : PaneView} (hv : view ∈ p.views) :
    p.view? view.pane = some view := by
  obtain ⟨entry, he, rfl⟩ := List.mem_map.mp hv
  rw [h.named entry he]
  exact h.sorted.get?_of_mem he

theorem nodup_panes (h : Keyed p) : (p.views.map PaneView.pane).Nodup := by
  have hk : p.views.map PaneView.pane = Table.keys p.panes := by
    rw [views, List.map_map]
    exact List.map_congr_left h.named
  rw [hk]
  exact h.sorted.nodup_keys

theorem record (h : Keyed p) (pane : PaneId) (kind : ChangeKind) : Keyed (p.record pane kind) := by
  refine ⟨?_, ?_⟩
  · rw [panes_record]
    exact h.sorted
  · rw [panes_record]
    exact h.named

theorem withView (h : Keyed p) (view : PaneView) : Keyed (p.withView view) := by
  refine ⟨h.sorted.set _ _, ?_⟩
  intro entry he
  rcases Table.mem_set he with rfl | he
  · rfl
  · exact h.named entry he

theorem setRoot (h : Keyed p) (w : WorktreeId) (root : Path) : Keyed (p.setRoot w root) :=
  ⟨h.sorted, h.named⟩

theorem forgetRoot (h : Keyed p) (w : WorktreeId) : Keyed (p.forgetRoot w) := ⟨h.sorted, h.named⟩

theorem bind (h : Keyed p) (pane : PaneId) (w : WorktreeId) (cwd : Option Path) :
    Keyed (p.bind pane w cwd) :=
  (h.withView _).record _ _

theorem unbind (h : Keyed p) (pane : PaneId) : Keyed (p.unbind pane).1 := by
  simp only [Projection.unbind]
  cases p.view? pane with
  | none => exact h
  | some view =>
    refine Keyed.record ⟨h.sorted.erase pane, ?_⟩ _ _
    intro entry he
    exact h.named entry (List.mem_filter.mp he).1

theorem applyTo (h : Keyed p) (view : PaneView) (event : FilesystemEvent) (now : Nat) :
    Keyed (p.applyTo view event now).1 := by
  simp only [Projection.applyTo]
  cases see (p.scope view) view event with
  | stale => exact h
  | unchanged view => exact h.withView view
  | changed view kind => exact (h.withView _).record _ _

theorem applyToAll (h : Keyed p) (event : FilesystemEvent) (now : Nat) (views : List PaneView) :
    Keyed (p.applyToAll event now views).1 := by
  induction views generalizing p with
  | nil => exact h
  | cons view rest ih => exact ih (h.applyTo view event now)

theorem apply (h : Keyed p) (e : Envelope) : Keyed (p.apply e).1 := by
  simp only [Projection.apply]
  split
  · exact h.applyToAll _ _ _
  · exact h

end Keyed

theorem rebound_cases (p : Projection) (pane : PaneId) (w : WorktreeId) (cwd : Option Path) :
    (∃ view, p.view? pane = some view ∧ view.worktree = w ∧
        p.rebound pane w cwd = { view with cwd }) ∨
      (∀ view, p.view? pane = some view → view.worktree ≠ w) ∧
        p.rebound pane w cwd = { PaneView.empty pane w with cwd } := by
  simp only [rebound]
  cases hv : p.view? pane with
  | none =>
    refine .inr ⟨fun view h => ?_, rfl⟩
    cases h
  | some view =>
    by_cases hw : view.worktree = w
    · exact .inl ⟨view, rfl, hw, if_pos hw⟩
    · refine .inr ⟨fun other h => ?_, if_neg hw⟩
      cases h
      exact hw

theorem pane_rebound {p : Projection} (hk : Keyed p) (pane : PaneId) (w : WorktreeId)
    (cwd : Option Path) : (p.rebound pane w cwd).pane = pane := by
  rcases p.rebound_cases pane w cwd with ⟨view, hv, -, hnew⟩ | ⟨-, hnew⟩
  · have hpane : view.pane = pane := hk.pane_of_view? hv
    rw [hnew]
    exact hpane
  · rw [hnew]
    rfl

theorem worktree_rebound (p : Projection) (pane : PaneId) (w : WorktreeId) (cwd : Option Path) :
    (p.rebound pane w cwd).worktree = w := by
  rcases p.rebound_cases pane w cwd with ⟨view, -, hw, hnew⟩ | ⟨-, hnew⟩
  · rw [hnew]
    exact hw
  · rw [hnew]
    rfl

theorem view?_bind {p : Projection} (hk : Keyed p) (pane : PaneId) (w : WorktreeId)
    (cwd : Option Path) (other : PaneId) :
    (p.bind pane w cwd).view? other =
      if pane = other then some (p.rebound pane w cwd) else p.view? other := by
  rw [bind, view?_record, view?_withView, pane_rebound hk]

theorem view?_unbind (p : Projection) (pane other : PaneId) :
    (p.unbind pane).1.view? other = if pane = other then none else p.view? other := by
  simp only [unbind]
  cases hv : p.view? pane with
  | none =>
    by_cases hp : pane = other
    · rw [if_pos hp, ← hp, hv]
    · rw [if_neg hp]
  | some view =>
    simp only [view?_record]
    simp only [view?, Table.get?_erase]

theorem roots_applyTo (p : Projection) (view : PaneView) (event : FilesystemEvent) (now : Nat) :
    (p.applyTo view event now).1.roots = p.roots := by
  simp only [applyTo]
  cases see (p.scope view) view event with
  | stale => rfl
  | unchanged view => rfl
  | changed view kind => exact roots_record _ _ _

theorem view?_applyTo {p : Projection} {view : PaneView} (h : p.view? view.pane = some view)
    (event : FilesystemEvent) (now : Nat) (pane : PaneId) :
    (p.applyTo view event now).1.view? pane =
      if view.pane = pane then some (view.after (p.scope view) event now) else p.view? pane := by
  have hpane := view.pane_after (p.scope view) event now
  simp only [applyTo, PaneView.after] at hpane ⊢
  cases hs : see (p.scope view) view event with
  | stale =>
    by_cases hp : view.pane = pane
    · rw [if_pos hp, ← hp, h]
    · rw [if_neg hp]
  | unchanged seen =>
    simp only [hs] at hpane
    simp only [view?_withView, hpane]
  | changed seen kind =>
    simp only [hs] at hpane
    simp only [view?_record, view?_withView, hpane]

theorem view?_applyToAll {p : Projection} (h : Keyed p) {event : FilesystemEvent} {now : Nat}
    {views : List PaneView} (hn : (views.map PaneView.pane).Nodup)
    (hc : ∀ v ∈ views, p.view? v.pane = some v) (pane : PaneId) :
    (p.applyToAll event now views).1.view? pane =
      (p.view? pane).map fun v => if v ∈ views then v.after (p.scope v) event now else v := by
  induction views generalizing p with
  | nil => simp [applyToAll]
  | cons view rest ih =>
    obtain ⟨hfirst, hrest⟩ := List.nodup_cons.mp hn
    have hv := hc view List.mem_cons_self
    have hother : ∀ v ∈ rest, view.pane ≠ v.pane :=
      fun v hv he => hfirst (List.mem_map.mpr ⟨v, hv, he.symm⟩)
    have hstep : (p.applyToAll event now (view :: rest)).1 =
        ((p.applyTo view event now).1.applyToAll event now rest).1 := rfl
    have hscope : ∀ v, (p.applyTo view event now).1.scope v = p.scope v :=
      fun v => scope_congr (roots_applyTo p view event now) v
    rw [hstep, ih (h.applyTo view event now) hrest]
    · simp only [hscope]
      rw [view?_applyTo hv]
      by_cases hp : view.pane = pane
      · have hnot : view.after (p.scope view) event now ∉ rest := by
          intro hm
          exact hother _ hm (view.pane_after _ _ _).symm
        rw [if_pos hp, ← hp, hv]
        simp [hnot]
      · rw [if_neg hp]
        cases hq : p.view? pane with
        | none => rfl
        | some v =>
          have hne : v ≠ view := by
            rintro rfl
            exact hp (h.pane_of_view? hq)
          simp [hne]
    · intro v hm
      rw [view?_applyTo hv, if_neg (hother v hm)]
      exact hc v (List.mem_cons_of_mem _ hm)

def shown (p : Projection) (e : Envelope) (view : PaneView) : PaneView :=
  match e.source, e.worktree, e.event with
  | .system .filesystemWatcher, some worktree, .filesystem event =>
    if view.worktree = worktree then view.after (p.scope view) event e.timestamp else view
  | _, _, _ => view

theorem view?_apply {p : Projection} (h : Keyed p) (e : Envelope) (pane : PaneId) :
    (p.apply e).1.view? pane = (p.view? pane).map (p.shown e) := by
  have hsub : ∀ w, (p.views.filter (·.worktree = w)).Sublist p.views := fun w => List.filter_sublist
  have hall : ∀ w event now,
      (p.applyToAll event now (p.views.filter (·.worktree = w))).1.view? pane =
        (p.view? pane).map fun v =>
          if v.worktree = w then v.after (p.scope v) event now else v := by
    intro w event now
    rw [view?_applyToAll h (h.nodup_panes.sublist ((hsub w).map _)) ?_]
    · cases hv : p.view? pane with
      | none => rfl
      | some v =>
        have hmem : v ∈ p.views := List.mem_map.mpr ⟨_, Table.mem_of_get? hv, rfl⟩
        simp [hmem]
    · intro v hv
      exact h.view?_of_mem ((hsub w).subset hv)
  have hnone : (p.view? pane).map (fun v => v) = p.view? pane := Option.map_id_fun' ▸ rfl
  rcases e with ⟨source, worktree, stamp, command, correlation, timestamp, event⟩
  rcases source with id | system
  · exact hnone.symm
  cases system
  rcases worktree with _ | w
  · exact hnone.symm
  cases event with
  | filesystem event => exact hall w event timestamp
  | terminal event | web event | diff event | viewer event | lifecycle event => exact hnone.symm

end Projection

namespace Envelope

def statusAfter (w : WorktreeId) (old : Option StatusCounts) (e : Envelope) :
    Option StatusCounts :=
  match e.source, e.worktree, e.event with
  | .system .filesystemWatcher, some worktree, .filesystem event =>
    if w = worktree then event.statusAfter old else old
  | _, _, _ => old

def branchAfter (w : WorktreeId) (old : Option String) (e : Envelope) : Option String :=
  match e.source, e.worktree, e.event with
  | .system .filesystemWatcher, some worktree, .filesystem event =>
    if w = worktree then event.branchAfter old else old
  | _, _, _ => old

end Envelope

namespace Projection

theorem shown_spec (p : Projection) (e : Envelope) (view : PaneView) :
    (p.shown e view).worktree = view.worktree ∧
      (p.shown e view).status = e.statusAfter view.worktree view.status ∧
      (p.shown e view).branch = e.branchAfter view.worktree view.branch := by
  simp only [shown, Envelope.statusAfter, Envelope.branchAfter]
  split
  · next worktree event _ _ _ =>
    by_cases hw : view.worktree = worktree
    · simp only [if_pos hw]
      exact ⟨view.worktree_after _ _ _, view.status_after _ _ _, view.branch_after _ _ _⟩
    · simp only [if_neg hw, and_self]
  · exact ⟨rfl, rfl, rfl⟩

def applyEach (p : Projection) (es : List Envelope) : Projection :=
  es.foldl (fun p e => (p.apply e).1) p

theorem keyed_applyEach {p : Projection} (h : Keyed p) (es : List Envelope) :
    Keyed (p.applyEach es) := by
  induction es generalizing p with
  | nil => exact h
  | cons e rest ih => exact ih (h.apply e)

theorem view?_applyEach {p : Projection} (h : Keyed p) {pane : PaneId} {view : PaneView}
    (hv : p.view? pane = some view) (es : List Envelope) :
    ∃ view', (p.applyEach es).view? pane = some view' ∧ view'.worktree = view.worktree ∧
      view'.status = es.foldl (Envelope.statusAfter view.worktree) view.status ∧
      view'.branch = es.foldl (Envelope.branchAfter view.worktree) view.branch := by
  induction es generalizing p view with
  | nil => exact ⟨view, hv, rfl, rfl, rfl⟩
  | cons e rest ih =>
    have hstep : (p.apply e).1.view? pane = some (p.shown e view) := by
      rw [view?_apply h, hv]
      rfl
    obtain ⟨hw, hs, hb⟩ := p.shown_spec e view
    obtain ⟨view', hv', hw', hs', hb'⟩ := ih (h.apply e) hstep
    rw [hw, hs] at hs'
    rw [hw, hb] at hb'
    exact ⟨view', hv', hw'.trans hw, hs', hb'⟩

end Projection

end Switchboard
