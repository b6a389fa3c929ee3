import Switchboard.Proofs.Projection.Status

/-!
# The chronicle of a projection

A reader that follows a projection asks for the changes since the version it read last. All changes
that were ever made, numbered from one, are the chronicle; the log is its end. A reader whose next
change is still in the log gets the rest of the chronicle, and no pane looks different to it that
the rest does not name. A reader that is further behind is told so.
-/
namespace Switchboard

/-- What a pane shows. The rest of a view only tells old changesets from new ones. -/
def PaneView.face (view : PaneView) :
    WorktreeId × Option Path × PathSet × Option StatusCounts × Option String × Nat :=
  (view.worktree, view.cwd, view.changed, view.status, view.branch, view.updatedAt)

def Envelope.heard? (e : Envelope) : Option (WorktreeId × FilesystemEvent) :=
  match e.source, e.worktree, e.event with
  | .system .filesystemWatcher, some worktree, .filesystem event => some (worktree, event)
  | _, _, _ => none

namespace Projection

/-- A change before it has its version. -/
abbrev Mark := PaneId × ChangeKind

def chronicle (marks : List Mark) : List ProjectionChange :=
  marks.mapIdx fun i mark => ⟨i + 1, mark.1, mark.2⟩

section Chronicle

variable (marks : List Mark)

theorem length_chronicle : (chronicle marks).length = marks.length := List.length_mapIdx

theorem version_getElem_chronicle {i : Nat} (h : i < (chronicle marks).length) :
    (chronicle marks)[i].version = i + 1 := by
  simp [chronicle]

theorem pane_getElem_chronicle {i : Nat} (h : i < (chronicle marks).length)
    (hm : i < marks.length) : (chronicle marks)[i].pane = marks[i].1 := by
  simp [chronicle]

theorem chronicle_concat (mark : Mark) :
    chronicle (marks ++ [mark]) = chronicle marks ++ [⟨marks.length + 1, mark.1, mark.2⟩] :=
  List.mapIdx_concat

theorem versions_drop_chronicle (n : Nat) :
    ((chronicle marks).drop n).map (·.version) = List.range' (n + 1) (marks.length - n) := by
  apply List.ext_getElem
  · simp [length_chronicle]
  · intro i h h'
    simp only [List.getElem_map, List.getElem_drop, version_getElem_chronicle,
      List.getElem_range']
    omega

theorem exists_index_of_mem_drop {n : Nat} {change : ProjectionChange}
    (h : change ∈ (chronicle marks).drop n) :
    ∃ (i : Nat) (hi : i < (chronicle marks).length), n ≤ i ∧ (chronicle marks)[i] = change := by
  obtain ⟨i, hi, rfl⟩ := List.mem_iff_getElem.mp h
  rw [List.length_drop] at hi
  exact ⟨n + i, by omega, by omega, by rw [List.getElem_drop]⟩

theorem mem_drop_chronicle {n i : Nat} (hi : i < (chronicle marks).length) (hn : n ≤ i) :
    (chronicle marks)[i] ∈ (chronicle marks).drop n :=
  List.mem_drop_iff_getElem.mpr ⟨i - n, by omega, by simp only [Nat.add_sub_of_le hn]⟩

theorem exists_change_of_mem_right {later : List Mark} {mark : Mark} (h : mark ∈ later)
    (before : List Mark) :
    ∃ change ∈ (chronicle (before ++ later)).drop before.length, change.pane = mark.1 := by
  obtain ⟨i, hi, rfl⟩ := List.mem_iff_getElem.mp h
  have hj : before.length + i < (before ++ later).length := by simp; omega
  have hj' : before.length + i < (chronicle (before ++ later)).length := by
    rwa [length_chronicle]
  refine ⟨(chronicle (before ++ later))[before.length + i],
    mem_drop_chronicle _ hj' (by omega), ?_⟩
  rw [pane_getElem_chronicle _ hj' hj, List.getElem_append_right (by omega)]
  simp

theorem filter_drop_chronicle {kept since : Nat} (h : kept ≤ since) :
    ((chronicle marks).drop kept).filter (since < ·.version) = (chronicle marks).drop since := by
  have hsplit : (chronicle marks).drop kept =
      ((chronicle marks).drop kept).take (since - kept) ++ (chronicle marks).drop since := by
    conv_lhs => rw [← List.take_append_drop (since - kept) ((chronicle marks).drop kept)]
    rw [List.drop_drop, Nat.add_sub_of_le h]
  have hold : (((chronicle marks).drop kept).take (since - kept)).filter (since < ·.version) =
      [] := by
    simp only [List.filter_eq_nil_iff, decide_eq_true_eq, Nat.not_lt]
    intro change hc
    obtain ⟨i, hi, rfl⟩ := List.mem_iff_getElem.mp hc
    simp only [List.length_take, List.length_drop] at hi
    simp only [List.getElem_take, List.getElem_drop, version_getElem_chronicle]
    omega
  have hnew : ((chronicle marks).drop since).filter (since < ·.version) =
      (chronicle marks).drop since := by
    simp only [List.filter_eq_self, decide_eq_true_eq]
    intro change hc
    obtain ⟨i, hi, hle, rfl⟩ := exists_index_of_mem_drop marks hc
    rw [version_getElem_chronicle]
    omega
  rw [hsplit, List.filter_append, hold, hnew, List.nil_append]

end Chronicle

structure Logged (p : Projection) (marks : List Mark) : Prop where
  version_eq : p.version = marks.length
  changes_eq : p.changes = (chronicle marks).drop p.trimmedThrough
  trimmed_le : p.trimmedThrough ≤ marks.length

namespace Logged

variable {p : Projection} {marks : List Mark}

theorem create (capacity : Nat) : Logged (.create capacity) [] := ⟨rfl, rfl, Nat.le_refl 0⟩

theorem congr {q : Projection} (h : Logged p marks) (hversion : q.version = p.version)
    (hchanges : q.changes = p.changes) (htrimmed : q.trimmedThrough = p.trimmedThrough) :
    Logged q marks where
  version_eq := hversion.trans h.version_eq
  changes_eq := by rw [hchanges, htrimmed, h.changes_eq]
  trimmed_le := by rw [htrimmed]; exact h.trimmed_le

theorem withView (h : Logged p marks) (view : PaneView) : Logged (p.withView view) marks :=
  h.congr rfl rfl rfl

theorem record (h : Logged p marks) (pane : PaneId) (kind : ChangeKind) :
    Logged (p.record pane kind) (marks ++ [(pane, kind)]) := by
  have hlen := length_chronicle marks
  have hchanges := h.changes_eq
  have htrimmed := h.trimmed_le
  -- Nothing that was dropped comes back, so the new change goes to the end of what is kept.
  have hgrown : p.changes ++ [⟨p.version + 1, pane, kind⟩] =
      (chronicle (marks ++ [(pane, kind)])).drop p.trimmedThrough := by
    rw [chronicle_concat, List.drop_append_of_le_length (by omega), ← hchanges, h.version_eq]
  cases hc : p.changes with
  | nil =>
    rw [hc] at hgrown
    simp only [Projection.record, hc]
    exact ⟨by simp [h.version_eq], hgrown, by simp; omega⟩
  | cons oldest rest =>
    rw [hc] at hchanges hgrown
    have hlt : p.trimmedThrough < (chronicle marks).length := by
      by_contra hge
      rw [List.drop_eq_nil_of_le (by omega)] at hchanges
      cases hchanges
    simp only [Projection.record, hc]
    split
    · rw [List.drop_eq_getElem_cons hlt, List.cons.injEq] at hchanges
      have holdest : oldest.version = p.trimmedThrough + 1 := by
        rw [hchanges.1, version_getElem_chronicle]
      refine ⟨by simp [h.version_eq], ?_, by simp; omega⟩
      rw [holdest, ← List.tail_drop, ← hgrown]
      rfl
    · exact ⟨by simp [h.version_eq], hgrown, by simp; omega⟩

theorem changesSince_eq_none_iff (h : Logged p marks) {since : Nat} (_ : since ≤ p.version) :
    p.changesSince since = none ↔
      ∃ change ∈ chronicle marks, since < change.version ∧ change ∉ p.changes := by
  have hlen := length_chronicle marks
  have htrimmed := h.trimmed_le
  have hnone : p.changesSince since = none ↔ since < p.trimmedThrough := by
    simp [Projection.changesSince]
  rw [hnone, h.changes_eq]
  constructor
  · intro hlt
    have hi : since < (chronicle marks).length := by omega
    refine ⟨(chronicle marks)[since], List.getElem_mem hi, ?_, ?_⟩
    · rw [version_getElem_chronicle]
      omega
    · intro hmem
      obtain ⟨j, hj, hle, heq⟩ := exists_index_of_mem_drop marks hmem
      have hversion := congrArg ProjectionChange.version heq
      rw [version_getElem_chronicle, version_getElem_chronicle] at hversion
      omega
  · rintro ⟨change, hc, hnew, hgone⟩
    obtain ⟨i, hi, rfl⟩ := List.mem_iff_getElem.mp hc
    rw [version_getElem_chronicle] at hnew
    by_contra hle
    exact hgone (mem_drop_chronicle marks hi (by omega))

theorem changesSince_eq_some (h : Logged p marks) {since : Nat} {changes : List ProjectionChange}
    (hs : p.changesSince since = some changes) : changes = (chronicle marks).drop since := by
  simp only [Projection.changesSince] at hs
  split at hs
  · cases hs
  · next hge =>
    rw [← Option.some.inj hs, h.changes_eq]
    exact filter_drop_chronicle marks (by omega)

end Logged

inductive Operation where
  | arrange (a : Mirror.Arrangement)
  | apply (e : Envelope)

def perform (p : Projection) : Operation → Projection
  | .arrange a => Mirror.arrange p a
  | .apply e => (p.apply e).1

def performAll (p : Projection) (operations : List Operation) : Projection :=
  operations.foldl perform p

def mark? (p : Projection) (event : FilesystemEvent) (view : PaneView) : Option Mark :=
  match see (p.scope view) view event with
  | .changed _ kind => some (view.pane, kind)
  | .unchanged _ | .stale => none

theorem apply_eq (p : Projection) (e : Envelope) :
    p.apply e = match e.heard? with
      | some (w, event) => p.applyToAll event e.timestamp (p.views.filter (·.worktree = w))
      | none => (p, ⟨0, 0⟩) := by
  rcases e with ⟨_ | _ | _, _ | _, _, _, _, _, _ | _ | _ | _ | _ | _⟩ <;> rfl

theorem shown_eq (p : Projection) (e : Envelope) (view : PaneView) :
    p.shown e view = match e.heard? with
      | some (w, event) =>
        if view.worktree = w then view.after (p.scope view) event e.timestamp else view
      | none => view := by
  rcases e with ⟨_ | _ | _, _ | _, _, _, _, _, _ | _ | _ | _ | _ | _⟩ <;> rfl

def marksOf (p : Projection) (e : Envelope) : List Mark :=
  match e.heard? with
  | some (w, event) => (p.views.filter (·.worktree = w)).filterMap (p.mark? event)
  | none => []

def marks (p : Projection) : Operation → List Mark
  | .arrange (.bind pane _ _) => [(pane, .binding)]
  | .arrange (.unbind pane) => if (p.view? pane).isSome then [(pane, .binding)] else []
  | .arrange (.setRoot _ _) | .arrange (.forgetRoot _) => []
  | .apply e => p.marksOf e

def allMarks (p : Projection) : List Operation → List Mark
  | [] => []
  | op :: rest => p.marks op ++ (p.perform op).allMarks rest

theorem allMarks_append (p : Projection) (before later : List Operation) :
    p.allMarks (before ++ later) = p.allMarks before ++ (p.performAll before).allMarks later := by
  induction before generalizing p with
  | nil => rfl
  | cons op rest ih =>
    rw [List.cons_append, allMarks, ih, allMarks, List.append_assoc]
    rfl

theorem mark?_congr {p q : Projection} (h : p.roots = q.roots) (event : FilesystemEvent) :
    p.mark? event = q.mark? event := by
  funext view
  simp only [mark?, scope_congr h view]

namespace Logged

variable {p : Projection} {logged : List Mark}

theorem applyTo (h : Logged p logged) (view : PaneView) (event : FilesystemEvent) (now : Nat) :
    Logged (p.applyTo view event now).1 (logged ++ (p.mark? event view).toList) := by
  have hpane := view.pane_after (p.scope view) event now
  simp only [PaneView.after] at hpane
  simp only [Projection.applyTo, Projection.mark?]
  cases hs : see (p.scope view) view event with
  | stale => exact (List.append_nil logged).symm ▸ h
  | unchanged seen => exact (List.append_nil logged).symm ▸ h.withView seen
  | changed seen kind =>
    simp only [hs] at hpane
    rw [← hpane]
    exact (h.withView { seen with updatedAt := now }).record seen.pane kind

theorem applyToAll (h : Logged p logged) (event : FilesystemEvent) (now : Nat)
    (views : List PaneView) :
    Logged (p.applyToAll event now views).1 (logged ++ views.filterMap (p.mark? event)) := by
  induction views generalizing p logged with
  | nil => exact (List.append_nil logged).symm ▸ h
  | cons view rest ih =>
    have hrest := ih (h.applyTo view event now)
    rw [mark?_congr (roots_applyTo p view event now) event] at hrest
    have hmarks : (view :: rest).filterMap (p.mark? event) =
        (p.mark? event view).toList ++ rest.filterMap (p.mark? event) := by
      cases hm : p.mark? event view <;> simp [hm]
    rw [hmarks, ← List.append_assoc]
    exact hrest

theorem apply (h : Logged p logged) (e : Envelope) :
    Logged (p.apply e).1 (logged ++ p.marksOf e) := by
  rw [apply_eq, marksOf]
  cases e.heard? with
  | none => exact (List.append_nil logged).symm ▸ h
  | some told => exact h.applyToAll told.2 e.timestamp _

theorem unbind (h : Logged p logged) (pane : PaneId) :
    Logged (p.unbind pane).1
      (logged ++ if (p.view? pane).isSome then [(pane, .binding)] else []) := by
  simp only [Projection.unbind]
  cases p.view? pane with
  | none => exact (List.append_nil logged).symm ▸ h
  | some view =>
    have herased : Logged { p with panes := Table.erase p.panes pane } logged :=
      h.congr rfl rfl rfl
    exact herased.record pane .binding

theorem perform (h : Logged p logged) (op : Operation) :
    Logged (p.perform op) (logged ++ p.marks op) := by
  cases op with
  | arrange a =>
    cases a with
    | bind pane w cwd => exact (h.withView (p.rebound pane w cwd)).record pane .binding
    | unbind pane => exact h.unbind pane
    | setRoot w root => exact (List.append_nil logged).symm ▸ h.congr rfl rfl rfl
    | forgetRoot w => exact (List.append_nil logged).symm ▸ h.congr rfl rfl rfl
  | apply e => exact h.apply e

theorem performAll (h : Logged p logged) (operations : List Operation) :
    Logged (p.performAll operations) (logged ++ p.allMarks operations) := by
  induction operations generalizing p logged with
  | nil => exact (List.append_nil logged).symm ▸ h
  | cons op rest ih =>
    rw [allMarks, ← List.append_assoc]
    exact ih (h.perform op)

end Logged

theorem Keyed.perform {p : Projection} (h : Keyed p) (op : Operation) : Keyed (p.perform op) := by
  cases op with
  | arrange a =>
    cases a with
    | bind pane w cwd => exact h.bind pane w cwd
    | unbind pane => exact h.unbind pane
    | setRoot w root => exact h.setRoot w root
    | forgetRoot w => exact h.forgetRoot w
  | apply e => exact h.apply e

theorem Keyed.performAll {p : Projection} (h : Keyed p) (operations : List Operation) :
    Keyed (p.performAll operations) := by
  induction operations generalizing p with
  | nil => exact h
  | cons op rest ih => exact ih (h.perform op)

def face? (p : Projection) (pane : PaneId) :
    Option (WorktreeId × Option Path × PathSet × Option StatusCounts × Option String × Nat) :=
  (p.view? pane).map PaneView.face

theorem pane_of_mark? {p : Projection} {event : FilesystemEvent} {view : PaneView} {mark : Mark}
    (h : p.mark? event view = some mark) : mark.1 = view.pane := by
  simp only [mark?] at h
  split at h
  · cases h
    rfl
  · cases h
  · cases h

theorem face_after_of_unmarked {p : Projection} {event : FilesystemEvent} {view : PaneView}
    (h : p.mark? event view = none) (now : Nat) :
    (view.after (p.scope view) event now).face = view.face := by
  simp only [mark?] at h
  simp only [PaneView.after]
  cases hs : see (p.scope view) view event with
  | stale => rfl
  | changed seen kind => simp [hs] at h
  | unchanged seen =>
    cases event with
    | filesChanged cs =>
      simp only [see, seeChangeset] at hs
      split at hs
      · cases hs
      · split at hs
        · cases hs
          rfl
        · cases hs
    | gitStatusChanged w counts =>
      simp only [see] at hs
      split at hs
      · cases hs
        rfl
      · cases hs
    | branchChanged w branch =>
      simp only [see] at hs
      split at hs
      · cases hs
        rfl
      · cases hs

theorem face_shown_of_unmarked {p : Projection} {e : Envelope} {view : PaneView}
    (hv : view ∈ p.views) (h : ∀ mark ∈ p.marksOf e, mark.1 ≠ view.pane) :
    (p.shown e view).face = view.face := by
  rw [marksOf] at h
  rw [shown_eq]
  cases hheard : e.heard? with
  | none => rfl
  | some told =>
    obtain ⟨w, event⟩ := told
    simp only [hheard] at h ⊢
    by_cases hw : view.worktree = w
    · rw [if_pos hw]
      refine face_after_of_unmarked (Option.eq_none_iff_forall_not_mem.mpr ?_) e.timestamp
      intro mark hm
      have hbound : view ∈ p.views.filter (·.worktree = w) :=
        List.mem_filter.mpr ⟨hv, by simp [hw]⟩
      exact h mark (List.mem_filterMap.mpr ⟨view, hbound, hm⟩) (pane_of_mark? hm)
    · rw [if_neg hw]

theorem face?_unbind_of_unmarked {p : Projection} {other pane : PaneId}
    (h : (p.view? other).isSome → other ≠ pane) :
    (p.unbind other).1.face? pane = p.face? pane := by
  rw [face?, face?, view?_unbind]
  by_cases ho : other = pane
  · have hnone : p.view? other = none :=
      Option.not_isSome_iff_eq_none.mp fun hs => h hs ho
    rw [if_pos ho, ← ho, hnone]
  · rw [if_neg ho]

theorem face?_perform_of_unmarked {p : Projection} (hk : Keyed p) {op : Operation} {pane : PaneId}
    (h : ∀ mark ∈ p.marks op, mark.1 ≠ pane) : (p.perform op).face? pane = p.face? pane := by
  cases op with
  | arrange a =>
    cases a with
    | bind other w cwd =>
      have hne : other ≠ pane := h (other, .binding) (by simp [marks])
      simp only [face?, perform, Mirror.arrange, view?_bind hk, if_neg hne]
    | unbind other =>
      refine face?_unbind_of_unmarked fun hs => h (other, .binding) ?_
      simp [marks, hs]
    | setRoot w root => rfl
    | forgetRoot w => rfl
  | apply e =>
    simp only [face?, perform, view?_apply hk]
    cases hv : p.view? pane with
    | none => rfl
    | some view =>
      have hpane := hk.pane_of_view? hv
      have hmem : view ∈ p.views := List.mem_map.mpr ⟨_, Table.mem_of_get? hv, rfl⟩
      have hface := face_shown_of_unmarked (e := e) hmem (by rw [hpane]; exact h)
      simp only [Option.map_some, hface]

theorem face?_performAll_of_unmarked {p : Projection} (hk : Keyed p) {pane : PaneId}
    {operations : List Operation} (h : ∀ mark ∈ p.allMarks operations, mark.1 ≠ pane) :
    (p.performAll operations).face? pane = p.face? pane := by
  induction operations generalizing p with
  | nil => rfl
  | cons op rest ih =>
    simp only [allMarks, List.mem_append] at h
    have hfirst := face?_perform_of_unmarked hk fun mark hm => h mark (.inl hm)
    exact (ih (hk.perform op) fun mark hm => h mark (.inr hm)).trans hfirst

/-- A reader that stands at an earlier version gets nothing exactly if a change it has not seen is
dropped. Otherwise it gets all later changes in order, and they name every pane that looks
different. -/
theorem changesSince_complete (capacity : Nat) (before later : List Operation) :
    let p := (create capacity).performAll before
    let q := p.performAll later
    let all := chronicle ((create capacity).allMarks (before ++ later))
    all.map (·.version) = List.range' 1 q.version ∧
      (q.changesSince p.version = none ↔
        ∃ change ∈ all, p.version < change.version ∧ change ∉ q.changes) ∧
      ∀ changes, q.changesSince p.version = some changes →
        changes = all.drop p.version ∧
          changes.map (·.version) = List.range' (p.version + 1) (q.version - p.version) ∧
          ∀ pane, p.face? pane ≠ q.face? pane → ∃ change ∈ changes, change.pane = pane := by
  intro p q all
  have hp : Logged p ((create capacity).allMarks before) :=
    (Logged.create capacity).performAll before
  have hall : (create capacity).allMarks (before ++ later) =
      (create capacity).allMarks before ++ p.allMarks later :=
    allMarks_append (create capacity) before later
  have hq : Logged q ((create capacity).allMarks (before ++ later)) := by
    rw [hall]
    exact hp.performAll later
  have hle : p.version ≤ q.version := by
    rw [hp.version_eq, hq.version_eq, hall, List.length_append]
    omega
  refine ⟨?_, hq.changesSince_eq_none_iff hle, ?_⟩
  · rw [hq.version_eq]
    exact versions_drop_chronicle _ 0
  · intro changes hc
    obtain rfl : changes = all.drop p.version := hq.changesSince_eq_some hc
    refine ⟨rfl, by rw [hq.version_eq]; exact versions_drop_chronicle _ _, ?_⟩
    intro pane hne
    by_contra hnone
    refine hne (face?_performAll_of_unmarked (Keyed.create capacity |>.performAll before) ?_).symm
    rintro mark hm rfl
    obtain ⟨change, hmem, hpane⟩ := exists_change_of_mem_right hm
      ((create capacity).allMarks before)
    refine hnone ⟨change, ?_, hpane⟩
    simpa only [all, hall, hp.version_eq] using hmem

example :
    let q := (create 2).performAll
      [.arrange (.bind ⟨"p"⟩ ⟨"W1"⟩ none), .arrange (.bind ⟨"p"⟩ ⟨"W2"⟩ none),
        .arrange (.unbind ⟨"p"⟩)]
    q.changesSince 0 = none ∧
      q.changesSince 1 = some [⟨2, ⟨"p"⟩, .binding⟩, ⟨3, ⟨"p"⟩, .binding⟩] := by
  decide

end Projection

end Switchboard
