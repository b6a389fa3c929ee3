import Switchboard.Proofs.Feed.Recovery
import Switchboard.Proofs.Projection.BatchCursor

/-!
# Split and repeated changesets

A batch that is too large is told in parts, and a changeset may be delivered once more after it was
applied. Neither shows in a pane: its first part only announces that the next visible part replaces
the changed paths, so the pane ends with the visible paths of the whole batch, or keeps what it
showed if there are none; and what comes again is stale for every pane of the root.
-/
namespace Switchboard

namespace Projection

theorem roots_applyToAll (p : Projection) (event : FilesystemEvent) (now : Nat)
    (views : List PaneView) : (p.applyToAll event now views).1.roots = p.roots := by
  induction views generalizing p with
  | nil => rfl
  | cons view rest ih => exact (ih _).trans (roots_applyTo p view event now)

theorem roots_apply (p : Projection) (e : Envelope) : (p.apply e).1.roots = p.roots := by
  rw [apply_eq]
  cases e.heard? with
  | none => rfl
  | some told => exact roots_applyToAll p _ _ _

theorem roots_applyEach (p : Projection) (es : List Envelope) :
    (p.applyEach es).roots = p.roots := by
  induction es generalizing p with
  | nil => rfl
  | cons e rest ih => exact (ih _).trans (roots_apply p e)

/-- Every pane of the root stands at the changeset of this number, or behind it. -/
def Passed (p : Projection) (w : WorktreeId) (n : Nat) : Prop :=
  ∀ pane view, p.view? pane = some view → view.worktree = w → n ≤ view.lastBatchSeq

theorem lastBatchSeq_le_after (view : PaneView) (scope : Scope) (event : FilesystemEvent)
    (now : Nat) : view.lastBatchSeq ≤ (view.after scope event now).lastBatchSeq := by
  cases event with
  | filesChanged cs =>
    rw [view.lastBatchSeq_after_filesChanged]
    exact Nat.le_max_left _ _
  | gitStatusChanged w counts => exact Nat.le_of_eq (view.lastBatchSeq_after_news _ _ rfl).symm
  | branchChanged w branch => exact Nat.le_of_eq (view.lastBatchSeq_after_news _ _ rfl).symm

section Passing

variable {p : Projection} {w : WorktreeId} {n : Nat}

theorem Passed.apply (hk : Keyed p) (h : Passed p w n) (e : Envelope) :
    Passed (p.apply e).1 w n := by
  intro pane view hv hw
  rw [view?_apply hk] at hv
  obtain ⟨old, hold, rfl⟩ := Option.map_eq_some_iff.mp hv
  rw [(p.shown_spec e old).1] at hw
  refine (h pane old hold hw).trans ?_
  rw [shown_eq]
  split
  · split
    · exact lastBatchSeq_le_after ..
    · exact Nat.le_refl _
  · exact Nat.le_refl _

theorem Passed.applyEach (hk : Keyed p) (h : Passed p w n) (es : List Envelope) :
    Passed (p.applyEach es) w n := by
  induction es generalizing p with
  | nil => exact h
  | cons e rest ih => exact ih (hk.apply e) (h.apply hk e)

variable {e : Envelope} {cs : Changeset}

theorem shown_of_heard (p : Projection) (he : e.heard? = some (w, .filesChanged cs))
    {view : PaneView} (hw : view.worktree = w) :
    p.shown e view = view.after (p.scope view) (.filesChanged cs) e.timestamp := by
  simp only [shown_eq, he, if_pos hw]

theorem passed_apply (hk : Keyed p) (he : e.heard? = some (w, .filesChanged cs)) :
    Passed (p.apply e).1 w cs.batchSeq := by
  intro pane view hv hw
  rw [view?_apply hk] at hv
  obtain ⟨old, hold, rfl⟩ := Option.map_eq_some_iff.mp hv
  rw [(p.shown_spec e old).1] at hw
  rw [p.shown_of_heard he hw, old.lastBatchSeq_after_filesChanged]
  exact Nat.le_max_right _ _

theorem passed_of_mem (hk : Keyed p) {es : List Envelope} (hm : e ∈ es)
    (he : e.heard? = some (w, .filesChanged cs)) : Passed (p.applyEach es) w cs.batchSeq := by
  obtain ⟨before, behind, rfl⟩ := List.mem_iff_append.mp hm
  have hbefore : Keyed (p.applyEach before) := keyed_applyEach hk before
  rw [applyEach, List.foldl_append]
  exact (passed_apply hbefore he).applyEach (hbefore.apply e) behind

theorem applyToAll_of_stale (p : Projection) {event : FilesystemEvent} (now : Nat)
    {views : List PaneView} (h : ∀ view ∈ views, see (p.scope view) view event = .stale) :
    p.applyToAll event now views = (p, ⟨0, views.length⟩) := by
  induction views with
  | nil => rfl
  | cons view rest ih =>
    obtain ⟨hfirst, hrest⟩ := List.forall_mem_cons.mp h
    simp only [applyToAll, applyTo, hfirst, ih hrest, List.length_cons, Nat.add_comm]

theorem apply_of_passed (hk : Keyed p) (he : e.heard? = some (w, .filesChanged cs))
    (hn : Passed p w cs.batchSeq) :
    p.apply e = (p, ⟨0, (p.views.filter (·.worktree = w)).length⟩) := by
  simp only [apply_eq, he]
  refine p.applyToAll_of_stale _ fun view hview => ?_
  obtain ⟨hv, hw⟩ := List.mem_filter.mp hview
  exact see_eq_stale_iff.mpr
    ⟨cs, rfl, hn view.pane view (hk.view?_of_mem hv) (of_decide_eq_true hw)⟩

end Passing

end Projection

inductive Delivery where
  | part (e : Envelope)
  | again (e : Envelope)

def Delivery.envelope : Delivery → Envelope
  | .part e => e
  | .again e => e

/-- The changesets of the root are delivered in order behind a history. In between comes what is
not newer than a changeset of the root that was applied before. -/
inductive Redelivers (w : WorktreeId) : List Envelope → List Changeset → List Delivery → Prop where
  | done (history : List Envelope) : Redelivers w history [] []
  | part {history : List Envelope} {e : Envelope} {cs : Changeset} {css : List Changeset}
      {ds : List Delivery} (he : e.heard? = some (w, .filesChanged cs))
      (h : Redelivers w (history ++ [e]) css ds) :
      Redelivers w history (cs :: css) (.part e :: ds)
  | again {history : List Envelope} {e earlier : Envelope} {cs old : Changeset}
      {css : List Changeset} {ds : List Delivery} (he : e.heard? = some (w, .filesChanged cs))
      (hm : earlier ∈ history) (hearlier : earlier.heard? = some (w, .filesChanged old))
      (hle : cs.batchSeq ≤ old.batchSeq) (h : Redelivers w (history ++ [e]) css ds) :
      Redelivers w history css (.again e :: ds)

namespace Redelivers

open Projection

variable {start : Projection} {w : WorktreeId} {history : List Envelope} {css : List Changeset}
  {ds : List Delivery}

theorem behind {before rest : List Delivery} (h : Redelivers w history css (before ++ rest)) :
    ∃ css', Redelivers w (history ++ before.map Delivery.envelope) css' rest := by
  induction before generalizing history css with
  | nil => exact ⟨css, (List.append_nil history).symm ▸ h⟩
  | cons d before ih =>
    rw [List.map_cons, List.append_cons]
    cases h with
    | part he h => exact ih h
    | again he hm hearlier hle h => exact ih h

theorem apply_again (hk : Keyed start) {e : Envelope}
    (h : Redelivers w history css (.again e :: ds)) :
    (start.applyEach history).apply e = (start.applyEach history,
      ⟨0, ((start.applyEach history).views.filter (·.worktree = w)).length⟩) := by
  cases h with
  | again he hm hearlier hle _ =>
    have hpassed := passed_of_mem hk hm hearlier
    exact apply_of_passed (keyed_applyEach hk history) he
      fun pane view hv hw => hle.trans (hpassed pane view hv hw)

theorem applyEach_eq (hk : Keyed start) (h : Redelivers w history css ds) :
    ∃ es : List Envelope,
      es.map Envelope.heard? = css.map (fun cs => some (w, .filesChanged cs)) ∧
        (start.applyEach history).applyEach (ds.map Delivery.envelope) =
          (start.applyEach history).applyEach es := by
  induction h with
  | done history => exact ⟨[], rfl, rfl⟩
  | @part history e cs css ds he _ ih =>
    obtain ⟨es, hes, hsame⟩ := ih
    rw [Projection.applyEach_concat] at hsame
    refine ⟨e :: es, ?_, hsame⟩
    rw [List.map_cons, List.map_cons, he, hes]
  | @again history e earlier cs old css ds he hm hearlier hle h ih =>
    obtain ⟨es, hes, hsame⟩ := ih
    have hagain := apply_again hk (.again he hm hearlier hle h)
    rw [Projection.applyEach_concat, hagain] at hsame
    refine ⟨es, hes, Eq.trans ?_ hsame⟩
    rw [List.map_cons, applyEach, List.foldl_cons, Delivery.envelope, hagain]
    rfl

end Redelivers

def Scope.showing (scope : Scope) (old : PathSet) (paths : List Path) : PathSet :=
  if (paths.filter scope.admits).isEmpty then old else paths.filter scope.admits

structure PaneView.Seen (scope : Scope) (old : PathSet) (paths : List Path) (view : PaneView) :
    Prop where
  fresh : view.fresh = (paths.filter scope.admits).isEmpty
  changed : view.changed = scope.showing old paths

namespace PaneView

variable {scope : Scope} {view : PaneView} {cs : Changeset}

theorem seen_first (hnew : view.lastBatchSeq < cs.batchSeq) (hpart : cs.part ≤ 1)
    (hsorted : PathSet.Sorted cs.paths) (now : Nat) :
    (view.after scope (.filesChanged cs) now).Seen scope view.changed cs.paths := by
  have hvisible : PathSet.ofList (cs.paths.filter scope.admits) = cs.paths.filter scope.admits :=
    (hsorted.sublist List.filter_sublist).ofList_eq
  simp only [after, Projection.see, Projection.seeChangeset, if_neg (Nat.not_le_of_lt hnew),
    hvisible, hpart, decide_true, Bool.or_true]
  cases hempty : (cs.paths.filter scope.admits).isEmpty with
  | true => exact ⟨hempty.symm, by simp only [Scope.showing, hempty, if_true]⟩
  | false => exact ⟨hempty.symm, by simp [Scope.showing, hempty]⟩

theorem Seen.next {old : PathSet} {paths : List Path} (h : view.Seen scope old paths)
    (hnew : view.lastBatchSeq < cs.batchSeq) (hpart : 1 < cs.part)
    (hsorted : PathSet.Sorted (paths ++ cs.paths)) (now : Nat) :
    (view.after scope (.filesChanged cs) now).Seen scope old (paths ++ cs.paths) := by
  have hall : PathSet.Sorted (paths.filter scope.admits ++ cs.paths.filter scope.admits) := by
    rw [← List.filter_append]
    exact hsorted.sublist List.filter_sublist
  have hvisible : PathSet.ofList (cs.paths.filter scope.admits) = cs.paths.filter scope.admits :=
    (hall.sublist (List.sublist_append_right _ _)).ofList_eq
  have hlater : decide (cs.part ≤ 1) = false := decide_eq_false (Nat.not_le_of_lt hpart)
  simp only [after, Projection.see, Projection.seeChangeset, if_neg (Nat.not_le_of_lt hnew),
    hvisible, hlater, Bool.or_false]
  by_cases hnone : cs.paths.filter scope.admits = []
  · simp only [hnone, List.isEmpty_nil, if_true]
    refine ⟨?_, ?_⟩
    · rw [List.filter_append, hnone, List.append_nil]
      exact h.fresh
    · rw [Scope.showing, List.filter_append, hnone, List.append_nil]
      exact h.changed
  · have hsome : (cs.paths.filter scope.admits).isEmpty = false := by simpa using hnone
    have hboth : (paths.filter scope.admits ++ cs.paths.filter scope.admits).isEmpty = false := by
      simp [hnone]
    simp only [hsome, Bool.false_eq_true, if_false]
    refine ⟨by rw [List.filter_append, hboth], ?_⟩
    simp only [Scope.showing, List.filter_append, hboth, Bool.false_eq_true, if_false, h.fresh]
    cases hfirst : (paths.filter scope.admits).isEmpty with
    | true => rw [if_pos rfl, List.isEmpty_iff.mp hfirst, List.nil_append]
    | false =>
      have hold : view.changed = paths.filter scope.admits := by
        rw [h.changed, Scope.showing, hfirst]
        rfl
      rw [if_neg Bool.false_ne_true, hold]
      exact hall.insertAll_eq_append

end PaneView

namespace Projection

/-- What a pane of the root shows after the first parts of a batch. -/
structure Showing (p : Projection) (pane : PaneId) (w : WorktreeId) (scope : Scope)
    (old : PathSet) (paths : List Path) (n : Nat) (view : PaneView) : Prop where
  keyed : Keyed p
  shown : p.view? pane = some view
  bound : view.worktree = w
  scope_eq : p.scope view = scope
  cursor : view.lastBatchSeq = n
  seen : view.Seen scope old paths

section Parts

variable {p : Projection} {pane : PaneId} {w : WorktreeId} {view : PaneView} {e : Envelope}
  {cs : Changeset}

theorem scope_after (p : Projection) (view : PaneView) (e : Envelope) (scope : Scope)
    (event : FilesystemEvent) (now : Nat) :
    (p.apply e).1.scope (view.after scope event now) = p.scope view := by
  simp only [Projection.scope, roots_apply, view.cwd_after, view.worktree_after]

theorem view?_apply_of_heard (hk : Keyed p) (hv : p.view? pane = some view)
    (hw : view.worktree = w) (he : e.heard? = some (w, .filesChanged cs)) :
    (p.apply e).1.view? pane =
      some (view.after (p.scope view) (.filesChanged cs) e.timestamp) := by
  rw [view?_apply hk, hv, Option.map_some, p.shown_of_heard he hw]

theorem showing_first (hk : Keyed p) (hv : p.view? pane = some view) (hw : view.worktree = w)
    (he : e.heard? = some (w, .filesChanged cs)) (hnew : view.lastBatchSeq < cs.batchSeq)
    (hpart : cs.part ≤ 1) (hsorted : PathSet.Sorted cs.paths) :
    Showing (p.apply e).1 pane w (p.scope view) view.changed cs.paths cs.batchSeq
      (view.after (p.scope view) (.filesChanged cs) e.timestamp) where
  keyed := hk.apply e
  shown := view?_apply_of_heard hk hv hw he
  bound := (view.worktree_after _ _ _).trans hw
  scope_eq := p.scope_after view e _ _ _
  cursor := by
    rw [view.lastBatchSeq_after_filesChanged]
    exact max_eq_right (Nat.le_of_lt hnew)
  seen := PaneView.seen_first hnew hpart hsorted e.timestamp

theorem Showing.next {scope : Scope} {old : PathSet} {paths : List Path} {n : Nat}
    (h : Showing p pane w scope old paths n view) (he : e.heard? = some (w, .filesChanged cs))
    (hnew : n < cs.batchSeq) (hpart : 1 < cs.part)
    (hsorted : PathSet.Sorted (paths ++ cs.paths)) :
    Showing (p.apply e).1 pane w scope old (paths ++ cs.paths) cs.batchSeq
      (view.after scope (.filesChanged cs) e.timestamp) where
  keyed := h.keyed.apply e
  shown := h.scope_eq ▸ view?_apply_of_heard h.keyed h.shown h.bound he
  bound := (view.worktree_after _ _ _).trans h.bound
  scope_eq := (p.scope_after view e _ _ _).trans h.scope_eq
  cursor := by
    rw [view.lastBatchSeq_after_filesChanged, h.cursor]
    exact max_eq_right (Nat.le_of_lt hnew)
  seen := h.seen.next (h.cursor.symm ▸ hnew) hpart hsorted e.timestamp

theorem Showing.rest {scope : Scope} {old : PathSet} {paths : List Path} {n : Nat}
    (h : Showing p pane w scope old paths n view) {css : List Changeset} {es : List Envelope}
    (hes : es.map Envelope.heard? = css.map fun cs => some (w, .filesChanged cs))
    (hseqs : css.map (·.batchSeq) = List.range' (n + 1) css.length)
    (hparts : ∀ cs ∈ css, 1 < cs.part)
    (hsorted : PathSet.Sorted (paths ++ css.flatMap (·.paths))) :
    ∃ m view', Showing (p.applyEach es) pane w scope old (paths ++ css.flatMap (·.paths)) m
      view' := by
  induction css generalizing p view paths n es with
  | nil =>
    obtain rfl := List.map_eq_nil_iff.mp hes
    exact ⟨n, view, (List.append_nil paths).symm ▸ h⟩
  | cons cs rest ih =>
    obtain ⟨e, others, rfl, he, hothers⟩ := List.map_eq_cons_iff.mp hes
    rw [List.length_cons, List.range'_succ, List.map_cons, List.cons.injEq] at hseqs
    obtain ⟨hpart, hrest⟩ := List.forall_mem_cons.mp hparts
    rw [List.flatMap_cons, ← List.append_assoc] at hsorted ⊢
    have hnext := h.next he (by omega) hpart
      (hsorted.sublist (List.sublist_append_left _ _))
    rw [hseqs.1] at hnext
    exact ih hnext hothers hseqs.2 hrest hsorted

end Parts

theorem showing_batch {p : Projection} {pane : PaneId} {w : WorktreeId} {view : PaneView}
    (hk : Keyed p) (hv : p.view? pane = some view) (hw : view.worktree = w) {b : Batcher}
    {paths : PathSet} (hmax : 0 < b.policy.maxPaths) (hsorted : paths.Sorted) {now : Nat}
    (hcursor : view.lastBatchSeq ≤ b.lastBatchSeq w) {es : List Envelope}
    (hes : es.map Envelope.heard? =
      (b.changesets w paths now).2.map fun cs => some (w, .filesChanged cs)) :
    ((p.applyEach es).view? pane).map (·.changed) =
      some ((p.scope view).showing view.changed paths) := by
  have hpaths := b.flatMap_changesets w now paths hmax
  have hseqs := b.batchSeq_changesets w now paths
  have hparts := b.part_changesets w now paths
  generalize (b.changesets w paths now).2 = css at hes hpaths hseqs hparts
  cases css with
  | nil =>
    obtain rfl := List.map_eq_nil_iff.mp hes
    obtain rfl : [] = paths := hpaths
    rw [applyEach, List.foldl_nil, hv]
    rfl
  | cons first rest =>
    obtain ⟨e, others, rfl, he, hothers⟩ := List.map_eq_cons_iff.mp hes
    rw [List.length_cons, List.range'_succ, List.map_cons, List.cons.injEq] at hseqs
    rw [List.length_cons, List.range'_succ, List.map_cons, List.map_cons, List.cons.injEq]
      at hparts
    obtain ⟨hseq, hseqs⟩ := hseqs
    obtain ⟨hpart, hparts⟩ := hparts
    rw [List.flatMap_cons] at hpaths
    -- the count of the parts stops at its bound, but no later part counts as a first one
    have hlater : ∀ cs ∈ rest, 1 < cs.part := by
      intro cs hcs
      have hm : cs.part ∈ rest.map (·.part) := List.mem_map_of_mem hcs
      rw [hparts] at hm
      obtain ⟨i, hi, hmin⟩ := List.mem_map.mp hm
      have htwo := (List.mem_range'_1.mp hi).1
      have hroom : 1 < Batcher.partMax := by decide
      omega
    rw [← hpaths] at hsorted
    have hfirst := showing_first hk hv hw he (by omega) (by rw [hpart]; exact Nat.min_le_left ..)
      (hsorted.sublist (List.sublist_append_left _ _))
    obtain ⟨m, view', hall⟩ := hfirst.rest hothers (hseq ▸ hseqs) hlater hsorted
    have hshown : ((p.apply e).1.applyEach others).view? pane = some view' := hall.shown
    have hstep : p.applyEach (e :: others) = (p.apply e).1.applyEach others := rfl
    rw [hstep, hshown, Option.map_some, hall.seen.changed, hpaths]

/-- A batch that is told in parts shows as if it was told at once, whatever is delivered again in
between: the pane shows the paths of the batch in its scope, or what it showed before if there are
none. What is delivered again is stale for every pane of the root. -/
theorem split_and_redelivery_are_invisible {policy : BatchPolicy} {b : Batcher}
    (hb : b.policy = (Batcher.create policy).policy) {paths : PathSet} (hsorted : paths.Sorted)
    (now : Nat) {start : Projection} (hk : Keyed start) {history : List Envelope} {pane : PaneId}
    {w : WorktreeId} {view : PaneView}
    (hv : (start.applyEach history).view? pane = some view) (hw : view.worktree = w)
    (hcursor : view.lastBatchSeq ≤ b.lastBatchSeq w) {ds : List Delivery}
    (hds : Redelivers w history (b.changesets w paths now).2 ds) {whole : Envelope}
    {cs : Changeset} (hwhole : whole.heard? = some (w, .filesChanged cs))
    (hpaths : cs.paths = paths) (hpart : cs.part = 1) (hnew : view.lastBatchSeq < cs.batchSeq) :
    let p := start.applyEach history
    let visible := (p.scope view).showing view.changed paths
    ((p.applyEach (ds.map Delivery.envelope)).view? pane).map (·.changed) = some visible ∧
      ((p.apply whole).1.view? pane).map (·.changed) = some visible ∧
      ∀ before e behind, ds = before ++ .again e :: behind →
        let q := p.applyEach (before.map Delivery.envelope)
        q.apply e = (q, ⟨0, (q.views.filter (·.worktree = w)).length⟩) := by
  intro p visible
  have hkp : Keyed p := keyed_applyEach hk history
  have hmax : 0 < b.policy.maxPaths := hb ▸ Nat.lt_of_lt_of_le Nat.one_pos (Nat.le_max_right _ 1)
  refine ⟨?_, ?_, ?_⟩
  · obtain ⟨es, hes, hsame⟩ := hds.applyEach_eq hk
    rw [hsame]
    exact showing_batch hkp hv hw hmax hsorted hcursor hes
  · have hwholly := showing_first hkp hv hw hwhole hnew (Nat.le_of_eq hpart) (hpaths ▸ hsorted)
    rw [hwholly.shown, Option.map_some, hwholly.seen.changed, hpaths]
  · rintro before e behind rfl q
    obtain ⟨css, hagain⟩ := hds.behind
    have hq : start.applyEach (history ++ before.map Delivery.envelope) = q := List.foldl_append
    have hstale := hagain.apply_again hk
    rwa [hq] at hstale

def carrying (cs : Changeset) : Envelope :=
  ⟨.filesystem, some cs.worktree, ⟨0, cs.batchSeq⟩, none, none, 0, .filesystem (.filesChanged cs)⟩

def outOfScope : Changeset := ⟨⟨"W1"⟩, [⟨"docs/a"⟩], 0, 2, 1, 3⟩

def inScope : List Changeset :=
  [⟨⟨"W1"⟩, [⟨"src/a"⟩], 0, 3, 2, 3⟩, ⟨⟨"W1"⟩, [⟨"src/b"⟩], 0, 4, 3, 3⟩]

def interrupted (before : Changeset) : List Delivery :=
  [.part (carrying outOfScope), .again (carrying before), .again (carrying outOfScope)] ++
    inScope.map fun cs => .part (carrying cs)

theorem split_and_redelivery_are_invisible_out_of_scope :
    let b : Batcher := { Batcher.create ⟨500, 2000, 1⟩ with batchSeqs := [(⟨"W1"⟩, 1)] }
    let before : Changeset := ⟨⟨"W1"⟩, [⟨"src/old"⟩], 0, 1, 1, 1⟩
    let p := ((create 4).bind ⟨"p"⟩ ⟨"W1"⟩ (some ⟨"src"⟩)).applyEach [carrying before]
    (b.changesets ⟨"W1"⟩ [⟨"docs/a"⟩, ⟨"src/a"⟩, ⟨"src/b"⟩] 0).2 = outOfScope :: inScope ∧
      (p.view? ⟨"p"⟩).map (·.changed) = some [⟨"src/old"⟩] ∧
      ((p.applyEach ((interrupted before).map Delivery.envelope)).view? ⟨"p"⟩).map (·.changed) =
        some [⟨"src/a"⟩, ⟨"src/b"⟩] := by
  intro b before p
  have hcut : (b.changesets ⟨"W1"⟩ [⟨"docs/a"⟩, ⟨"src/a"⟩, ⟨"src/b"⟩] 0).2 =
      outOfScope :: inScope := by decide +kernel
  have hk : Keyed ((create 4).bind ⟨"p"⟩ ⟨"W1"⟩ (some ⟨"src"⟩)) :=
    (Keyed.create 4).bind ⟨"p"⟩ ⟨"W1"⟩ (some ⟨"src"⟩)
  have hv : p.view? ⟨"p"⟩ = some
      ⟨⟨"p"⟩, ⟨"W1"⟩, some ⟨"src"⟩, [⟨"src/old"⟩], 1, none, none, 0, false⟩ := by decide +kernel
  have hold : carrying before ∈ [carrying before] ++ [carrying outOfScope] := by simp
  have hpart : carrying outOfScope ∈
      [carrying before] ++ [carrying outOfScope] ++ [carrying before] := by simp
  have hds : Redelivers ⟨"W1"⟩ [carrying before]
      (b.changesets ⟨"W1"⟩ [⟨"docs/a"⟩, ⟨"src/a"⟩, ⟨"src/b"⟩] 0).2 (interrupted before) := by
    rw [hcut]
    exact .part rfl (.again rfl hold rfl (Nat.le_refl 1) (.again rfl hpart rfl (Nat.le_refl 2)
      (.part rfl (.part rfl (.done _)))))
  have hpolicy : b.policy = (Batcher.create ⟨500, 2000, 1⟩).policy := rfl
  have hsorted : PathSet.Sorted [⟨"docs/a"⟩, ⟨"src/a"⟩, ⟨"src/b"⟩] := by
    simp only [PathSet.Sorted]
    decide +kernel
  have hwhole : (carrying ⟨⟨"W1"⟩, [⟨"docs/a"⟩, ⟨"src/a"⟩, ⟨"src/b"⟩], 0, 2, 1, 1⟩).heard? =
      some (⟨"W1"⟩, .filesChanged ⟨⟨"W1"⟩, [⟨"docs/a"⟩, ⟨"src/a"⟩, ⟨"src/b"⟩], 0, 2, 1, 1⟩) := rfl
  obtain ⟨hsplit, -, -⟩ := split_and_redelivery_are_invisible hpolicy hsorted 0 hk hv rfl
    (by decide +kernel) hds hwhole rfl rfl (by decide +kernel)
  exact ⟨hcut, by rw [hv]; rfl, hsplit.trans (by decide +kernel)⟩

end Projection

end Switchboard
