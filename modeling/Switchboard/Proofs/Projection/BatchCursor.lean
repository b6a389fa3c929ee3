import Switchboard.Proofs.FsSource.Numbering
import Switchboard.Proofs.Projection.ChangesSince

/-!
# Cursors of panes

A pane drops a changeset that is not newer than the last one it took. The source counts the
changesets of a root through all its registrations, and a pane starts below all numbers when it is
bound. So a reader that takes what is told in order drops nothing, whenever its panes come, move and
go, and each pane stands at the last changeset of its root that was told since it was bound.
-/
namespace Switchboard

theorem Envelope.heard?_eq_some {e : Envelope} {w : WorktreeId} {event : FilesystemEvent}
    (hs : e.source = .filesystem) (hw : e.worktree = some w) (he : e.event = .filesystem event) :
    e.heard? = some (w, event) := by
  simp only [heard?, hs, hw, he, Source.filesystem]

theorem Envelope.event_of_heard? {e : Envelope} {w : WorktreeId} {event : FilesystemEvent}
    (h : e.heard? = some (w, event)) : e.event = .filesystem event := by
  rcases e with ⟨_ | _ | _, _ | _, _, _, _, _, _ | _ | _ | _ | _ | _⟩ <;> cases h
  rfl

def latestBatch (w : WorktreeId) (told : List Envelope) : Nat :=
  (batchSeqs w told).getLast?.getD 0

/-- What the filesystem source tells, with the changesets of each root in order. -/
structure InSequence (told : List Envelope) : Prop where
  heard : ∀ e ∈ told, ∃ event : FilesystemEvent, e.heard? = some (event.root, event)
  increasing : ∀ w, (batchSeqs w told).Pairwise (· < ·)
  positive : ∀ w, ∀ n ∈ batchSeqs w told, 0 < n

theorem batchSeqs_sublist (w : WorktreeId) {some all : List Envelope} (h : some.Sublist all) :
    (batchSeqs w some).Sublist (batchSeqs w all) :=
  ((h.filterMap _).filter _).map _

namespace InSequence

variable {told more : List Envelope}

theorem sublist (h : InSequence told) (hs : more.Sublist told) : InSequence more where
  heard e he := h.heard e (hs.subset he)
  increasing w := (h.increasing w).sublist (batchSeqs_sublist w hs)
  positive w n hn := h.positive w n ((batchSeqs_sublist w hs).subset hn)

theorem left (h : InSequence (told ++ more)) : InSequence told :=
  h.sublist (List.sublist_append_left told more)

theorem right (h : InSequence (told ++ more)) : InSequence more :=
  h.sublist (List.sublist_append_right told more)

theorem lt_of_mem (h : InSequence (told ++ more)) {w : WorktreeId} {n m : Nat}
    (hn : n ∈ batchSeqs w told) (hm : m ∈ batchSeqs w more) : n < m := by
  have hall := h.increasing w
  rw [batchSeqs_append] at hall
  exact (List.pairwise_append.mp hall).2.2 n hn m hm

end InSequence

theorem FsSource.inSequence_told {s : FsSource} (h : s.Sound) (steps : List Mirror.Step) :
    InSequence (s.told steps) := by
  have hspeaks := s.speaks_told h steps
  refine ⟨fun e he => ?_, fun w => ?_, fun w n hn => ?_⟩
  · obtain ⟨i, hi⟩ := List.getElem?_of_mem he
    obtain ⟨event, hevent, hw⟩ := hspeaks.placed e he
    exact ⟨event, e.heard?_eq_some (hspeaks.numbers.stamp_eq hi).1 hw hevent⟩
  · rw [hspeaks.batches w]
    exact List.pairwise_lt_range'
  · rw [hspeaks.batches w] at hn
    exact Nat.lt_of_lt_of_le (Nat.succ_pos _) (List.mem_range'_1.mp hn).1

theorem mem_foldl_max (ns : List Nat) (n : Nat) : ns.foldl max n = n ∨ ns.foldl max n ∈ ns := by
  induction ns generalizing n with
  | nil => exact .inl rfl
  | cons m rest ih =>
    rw [List.foldl_cons]
    rcases ih (max n m) with h | h
    · rcases Nat.le_total n m with hle | hle
      · rw [h, max_eq_right hle]
        exact .inr List.mem_cons_self
      · rw [h, max_eq_left hle]
        exact .inl rfl
    · exact .inr (List.mem_cons_of_mem m h)

theorem foldl_max_of_increasing {ns : List Nat} (h : ns.Pairwise (· < ·)) :
    ns.foldl max 0 = ns.getLast?.getD 0 := by
  induction ns using List.reverseRecOn with
  | nil => rfl
  | append_singleton front last ih =>
    obtain ⟨hfront, -, hlt⟩ := List.pairwise_append.mp h
    rw [List.foldl_append, ih hfront, List.getLast?_concat, Option.getD_some]
    refine max_eq_right ?_
    cases hl : front.getLast? with
    | none => exact Nat.zero_le last
    | some n =>
      exact Nat.le_of_lt (hlt n (List.mem_of_getLast? hl) last List.mem_cons_self)

theorem le_foldl_max (ns : List Nat) (n : Nat) : n ≤ ns.foldl max n := by
  induction ns generalizing n with
  | nil => exact Nat.le_refl n
  | cons m rest ih => exact (Nat.le_max_left n m).trans (ih (max n m))

namespace PaneView

variable (view : PaneView) (scope : Scope) (now : Nat)

theorem lastBatchSeq_after_filesChanged (cs : Changeset) :
    (view.after scope (.filesChanged cs) now).lastBatchSeq =
      max view.lastBatchSeq cs.batchSeq := by
  simp only [after, Projection.see, Projection.seeChangeset]
  by_cases hold : cs.batchSeq ≤ view.lastBatchSeq
  · rw [if_pos hold, max_eq_left hold]
  · rw [if_neg hold, max_eq_right (Nat.le_of_not_le hold)]
    by_cases hempty : (PathSet.ofList (cs.paths.filter scope.admits)).isEmpty = true
    · simp [hempty]
    · simp [hempty]

theorem lastBatchSeq_after_news {event : FilesystemEvent}
    (h : Event.changeset? (.filesystem event) = none) :
    (view.after scope event now).lastBatchSeq = view.lastBatchSeq := by
  cases event with
  | filesChanged cs => cases h
  | gitStatusChanged w counts =>
    simp only [after, Projection.see]
    by_cases hc : view.status = some counts <;> simp [hc]
  | branchChanged w branch =>
    simp only [after, Projection.see]
    by_cases hb : view.branch = branch <;> simp [hb]

end PaneView

namespace Projection

theorem see_eq_stale_iff {scope : Scope} {view : PaneView} {event : FilesystemEvent} :
    see scope view event = .stale ↔
      ∃ cs, event = .filesChanged cs ∧ cs.batchSeq ≤ view.lastBatchSeq := by
  cases event with
  | filesChanged cs =>
    simp only [see, seeChangeset, FilesystemEvent.filesChanged.injEq, exists_eq_left']
    by_cases hold : cs.batchSeq ≤ view.lastBatchSeq
    · simp [hold]
    · rw [if_neg hold, iff_false_right hold]
      split <;> simp
  | gitStatusChanged w counts =>
    simp only [see]
    split <;> simp
  | branchChanged w branch =>
    simp only [see]
    split <;> simp

theorem stale_applyTo (p : Projection) (view : PaneView) (event : FilesystemEvent) (now : Nat) :
    (p.applyTo view event now).2.stale =
      if see (p.scope view) view event = .stale then 1 else 0 := by
  simp only [applyTo]
  cases see (p.scope view) view event with
  | stale => rfl
  | unchanged seen => rfl
  | changed seen kind => rfl

theorem stale_applyToAll (p : Projection) (event : FilesystemEvent) (now : Nat)
    (views : List PaneView) :
    (p.applyToAll event now views).2.stale =
      views.countP fun view => see (p.scope view) view event = .stale := by
  induction views generalizing p with
  | nil => rfl
  | cons view rest ih =>
    have hscope : ∀ v, (p.applyTo view event now).1.scope v = p.scope v :=
      fun v => scope_congr (roots_applyTo p view event now) v
    have hrest := ih (p.applyTo view event now).1
    simp only [hscope] at hrest
    simp only [applyToAll, hrest, stale_applyTo, List.countP_cons, decide_eq_true_eq]
    exact Nat.add_comm _ _

theorem lastBatchSeq_shown (p : Projection) {e : Envelope} {event : FilesystemEvent}
    (h : e.heard? = some (event.root, event)) (view : PaneView) :
    (p.shown e view).lastBatchSeq =
      (batchSeqs view.worktree [e]).foldl max view.lastBatchSeq := by
  have hevent := e.event_of_heard? h
  simp only [shown_eq, h]
  cases hc : Event.changeset? (.filesystem event) with
  | none =>
    have hnone : batchSeqs view.worktree [e] = [] := by
      simp only [batchSeqs, changesets, List.filterMap_cons, hevent, hc, List.filterMap_nil,
        List.filter_nil, List.map_nil]
    rw [hnone, List.foldl_nil]
    split
    · exact view.lastBatchSeq_after_news _ _ hc
    · rfl
  | some cs =>
    obtain rfl : event = .filesChanged cs := by
      cases event with
      | filesChanged other => cases hc; rfl
      | gitStatusChanged w counts => cases hc
      | branchChanged w branch => cases hc
    have hone : changesets [e] = [cs] := by
      simp only [changesets, List.filterMap_cons, hevent, hc, List.filterMap_nil]
    simp only [batchSeqs, hone]
    split
    · next hw =>
      have hroot : cs.worktree = view.worktree := hw.symm
      rw [view.lastBatchSeq_after_filesChanged, List.filter_cons_of_pos (by simp [hroot])]
      rfl
    · next hw =>
      have hroot : cs.worktree ≠ view.worktree := fun he => hw he.symm
      rw [List.filter_cons_of_neg (by simpa using hroot)]
      rfl

def Operation.envelope? : Operation → Option Envelope
  | .arrange _ => none
  | .apply e => some e

def applied (operations : List Operation) : List Envelope :=
  operations.filterMap Operation.envelope?

theorem applied_append (before later : List Operation) :
    applied (before ++ later) = applied before ++ applied later := List.filterMap_append

def Operation.Holds (pane : PaneId) (w : WorktreeId) : Operation → Prop
  | .arrange (.bind other u _) => other = pane → u = w
  | .arrange (.unbind other) => other ≠ pane
  | .arrange (.setRoot _ _) | .arrange (.forgetRoot _) | .apply _ => True

structure Caught (p : Projection) (told : List Envelope) : Prop where
  keyed : Keyed p
  behind : ∀ pane view, p.view? pane = some view →
    view.lastBatchSeq = 0 ∨ view.lastBatchSeq ∈ batchSeqs view.worktree told

namespace Caught

variable {p : Projection} {told : List Envelope}

theorem create (capacity : Nat) : Caught (.create capacity) [] where
  keyed := .create capacity
  behind pane view h := by cases h

theorem bind (h : Caught p told) (pane : PaneId) (w : WorktreeId) (cwd : Option Path) :
    Caught (p.bind pane w cwd) told := by
  refine ⟨h.keyed.bind pane w cwd, fun other view hv => ?_⟩
  rw [view?_bind h.keyed] at hv
  split at hv
  · cases hv
    rcases p.rebound_cases pane w cwd with ⟨view, hold, -, hnew⟩ | ⟨-, hnew⟩
    · rw [hnew]
      exact h.behind pane view hold
    · rw [hnew]
      exact .inl rfl
  · exact h.behind other view hv

theorem unbind (h : Caught p told) (pane : PaneId) : Caught (p.unbind pane).1 told := by
  refine ⟨h.keyed.unbind pane, fun other view hv => ?_⟩
  rw [view?_unbind] at hv
  split at hv
  · cases hv
  · exact h.behind other view hv

theorem arrange (h : Caught p told) (a : Mirror.Arrangement) :
    Caught (Mirror.arrange p a) told := by
  cases a with
  | bind pane w cwd => exact h.bind pane w cwd
  | unbind pane => exact h.unbind pane
  | setRoot w root => exact ⟨h.keyed.setRoot w root, h.behind⟩
  | forgetRoot w => exact ⟨h.keyed.forgetRoot w, h.behind⟩

theorem apply (h : Caught p told) {e : Envelope} (hs : InSequence (told ++ [e])) :
    Caught (p.apply e).1 (told ++ [e]) := by
  obtain ⟨event, hheard⟩ := hs.heard e (by simp)
  refine ⟨h.keyed.apply e, fun pane view hv => ?_⟩
  rw [view?_apply h.keyed] at hv
  obtain ⟨old, hold, rfl⟩ := Option.map_eq_some_iff.mp hv
  rw [p.lastBatchSeq_shown hheard, (p.shown_spec e old).1, batchSeqs_append, List.mem_append]
  rcases mem_foldl_max (batchSeqs old.worktree [e]) old.lastBatchSeq with heq | hmem
  · rw [heq]
    exact (h.behind pane old hold).imp_right .inl
  · exact .inr (.inr hmem)

theorem stale_apply (h : Caught p told) {e : Envelope} (hs : InSequence (told ++ [e])) :
    (p.apply e).2.stale = 0 := by
  obtain ⟨event, hheard⟩ := hs.heard e (by simp)
  rw [apply_eq, hheard]
  simp only [stale_applyToAll, List.countP_eq_zero, decide_eq_true_eq]
  intro view hview hstale
  obtain ⟨hv, hw⟩ := List.mem_filter.mp hview
  obtain ⟨cs, rfl, hle⟩ := see_eq_stale_iff.mp hstale
  have hroot : view.worktree = cs.worktree := of_decide_eq_true hw
  have hnew : cs.batchSeq ∈ batchSeqs cs.worktree [e] := by
    simp [batchSeqs, changesets, e.event_of_heard? hheard, Event.changeset?]
  -- a cursor below all numbers is behind what comes, and so is one at a changeset told before
  rcases h.behind view.pane view (h.keyed.view?_of_mem hv) with hzero | hmem
  · have := hs.right.positive cs.worktree _ hnew
    omega
  · rw [hroot] at hmem
    have := hs.lt_of_mem hmem hnew
    omega

theorem performAll (h : Caught p told) {operations : List Operation}
    (hs : InSequence (told ++ applied operations)) :
    Caught (p.performAll operations) (told ++ applied operations) := by
  induction operations generalizing p told with
  | nil => exact (List.append_nil told).symm ▸ h
  | cons op rest ih =>
    cases op with
    | arrange a => exact ih (h.arrange a) hs
    | apply e =>
      have hsplit : told ++ applied (.apply e :: rest) = (told ++ [e]) ++ applied rest := by
        rw [List.append_assoc]
        rfl
      rw [hsplit] at hs ⊢
      exact ih (h.apply hs.left) hs

end Caught

section Holding

variable {p : Projection} {pane : PaneId} {view : PaneView}

theorem view?_perform_of_holds (hk : Keyed p) (hv : p.view? pane = some view) {op : Operation}
    (hheard : ∀ e, op = .apply e → ∃ event : FilesystemEvent, e.heard? = some (event.root, event))
    (hholds : op.Holds pane view.worktree) :
    ∃ next, (p.perform op).view? pane = some next ∧ next.worktree = view.worktree ∧
      next.lastBatchSeq =
        (batchSeqs view.worktree op.envelope?.toList).foldl max view.lastBatchSeq := by
  cases op with
  | arrange a =>
    cases a with
    | bind other w cwd =>
      by_cases hp : other = pane
      · subst hp
        obtain rfl : w = view.worktree := hholds rfl
        refine ⟨_, (view?_bind hk other view.worktree cwd other).trans (if_pos rfl),
          p.worktree_rebound other view.worktree cwd, ?_⟩
        -- a binding to the root that the pane is bound to keeps its cursor
        rcases p.rebound_cases other view.worktree cwd with ⟨old, hold, -, hnew⟩ | ⟨hno, -⟩
        · obtain rfl : view = old := Option.some.inj (hv.symm.trans hold)
          rw [hnew]
          rfl
        · exact absurd rfl (hno view hv)
      · exact ⟨view, (view?_bind hk other w cwd pane).trans ((if_neg hp).trans hv), rfl, rfl⟩
    | unbind other =>
      exact ⟨view, (view?_unbind p other pane).trans ((if_neg hholds).trans hv), rfl, rfl⟩
    | setRoot w root => exact ⟨view, hv, rfl, rfl⟩
    | forgetRoot w => exact ⟨view, hv, rfl, rfl⟩
  | apply e =>
    obtain ⟨event, he⟩ := hheard e rfl
    refine ⟨p.shown e view, ?_, (p.shown_spec e view).1, p.lastBatchSeq_shown he view⟩
    rw [perform, view?_apply hk, hv, Option.map_some]

theorem view?_performAll_of_holds (hk : Keyed p) (hv : p.view? pane = some view)
    {operations : List Operation}
    (hheard : ∀ e ∈ applied operations, ∃ event : FilesystemEvent,
      e.heard? = some (event.root, event))
    (hholds : ∀ op ∈ operations, op.Holds pane view.worktree) :
    ∃ view', (p.performAll operations).view? pane = some view' ∧
      view'.worktree = view.worktree ∧
      view'.lastBatchSeq =
        (batchSeqs view.worktree (applied operations)).foldl max view.lastBatchSeq := by
  induction operations generalizing p view with
  | nil => exact ⟨view, hv, rfl, rfl⟩
  | cons op rest ih =>
    obtain ⟨hop, hrest⟩ := List.forall_mem_cons.mp hholds
    have happlied : applied (op :: rest) = op.envelope?.toList ++ applied rest := by
      cases op with
      | arrange a => rfl
      | apply e => rfl
    rw [happlied] at hheard ⊢
    obtain ⟨next, hnext, hw, hseq⟩ := view?_perform_of_holds hk hv
      (fun e he => hheard e (by simp [he, Operation.envelope?])) hop
    obtain ⟨view', hv', hw', hseq'⟩ := ih (hk.perform op) hnext
      (fun e he => hheard e (List.mem_append_right _ he)) (hw.symm ▸ hrest)
    refine ⟨view', hv', hw'.trans hw, ?_⟩
    rw [hseq', hw, hseq, batchSeqs_append, List.foldl_append]

end Holding

/-- A reader that takes what is told in order drops nothing. While a pane stays bound to a root, it
stands at the last changeset of the root since it was bound, and never goes back. -/
theorem stale_eq_zero_in_order (config : FsConfig) (epoch capacity : Nat)
    (steps : List Mirror.Step) (operations : List Operation)
    (h : (applied operations).Sublist ((FsSource.create config epoch).told steps)) :
    (∀ before e behind, operations = before ++ .apply e :: behind →
      (((create capacity).performAll before).apply e).2.stale = 0) ∧
      ∀ before pane w cwd first more behind,
        operations = before ++ .arrange (.bind pane w cwd) :: (first ++ more) ++ behind →
        (∀ view, ((create capacity).performAll before).view? pane = some view →
          view.worktree ≠ w) →
        (∀ op ∈ first ++ more, op.Holds pane w) →
        let bound := (create capacity).performAll (before ++ [.arrange (.bind pane w cwd)])
        ∃ earlier later, (bound.performAll first).view? pane = some earlier ∧
          (bound.performAll (first ++ more)).view? pane = some later ∧
          earlier.worktree = w ∧ later.worktree = w ∧
          earlier.lastBatchSeq = latestBatch w (applied first) ∧
          earlier.lastBatchSeq ≤ later.lastBatchSeq := by
  have hall : InSequence (applied operations) :=
    (FsSource.inSequence_told (FsSource.sound_create config epoch) steps).sublist h
  constructor
  · rintro before e behind rfl
    have hbefore : InSequence (applied before ++ [e]) := by
      rw [applied_append] at hall
      exact hall.sublist ((List.Sublist.refl _).append
        (List.singleton_sublist.mpr List.mem_cons_self))
    have hcaught : Caught ((create capacity).performAll before) (applied before) :=
      (Caught.create capacity).performAll hbefore.left
    exact hcaught.stale_apply hbefore
  · rintro before pane w cwd first more behind rfl hnew hholds bound
    have hk : Keyed ((create capacity).performAll before) :=
      (Keyed.create capacity).performAll before
    have hbound : bound = ((create capacity).performAll before).bind pane w cwd :=
      List.foldl_append
    have hkb : Keyed bound := hbound ▸ hk.bind pane w cwd
    rcases ((create capacity).performAll before).rebound_cases pane w cwd with
      ⟨old, hold, hsame, -⟩ | ⟨-, hstart⟩
    · exact absurd hsame (hnew old hold)
    have hview : bound.view? pane = some { PaneView.empty pane w with cwd } := by
      rw [hbound, view?_bind hk, if_pos rfl, hstart]
    have hduring : InSequence (applied first ++ applied more) := by
      rw [← applied_append]
      have hmiddle : (first ++ more) <:+:
          before ++ .arrange (.bind pane w cwd) :: (first ++ more) ++ behind :=
        ⟨before ++ [.arrange (.bind pane w cwd)], behind, by simp⟩
      exact hall.sublist (hmiddle.sublist.filterMap _)
    obtain ⟨earlier, hearlier, hroot, hseq⟩ := view?_performAll_of_holds hkb hview
      hduring.left.heard (fun op hop => hholds op (List.mem_append_left more hop))
    have hw : earlier.worktree = w := hroot
    obtain ⟨later, hlater, hroot', hseq'⟩ := view?_performAll_of_holds (hkb.performAll first)
      hearlier hduring.right.heard
      (fun op hop => hw.symm ▸ hholds op (List.mem_append_right first hop))
    refine ⟨earlier, later, hearlier, ?_, hw, hroot'.trans hw, ?_, ?_⟩
    · rw [performAll, List.foldl_append]
      exact hlater
    · exact hseq.trans (foldl_max_of_increasing (hduring.left.increasing w))
    · rw [hseq']
      exact le_foldl_max _ _

def away : List Operation :=
  let told := (FsSource.create FsSource.onePathEach 7).told FsSource.returned
  .arrange (.bind ⟨"p"⟩ ⟨"W1"⟩ none) :: (told.take 1).map .apply ++
    .arrange (.bind ⟨"p"⟩ ⟨"W2"⟩ none) :: ((told.drop 1).take 1).map .apply

def back : List Operation :=
  (((FsSource.create FsSource.onePathEach 7).told FsSource.returned).drop 2).map .apply

theorem stale_eq_zero_in_order_away :
    let home : Operation := .arrange (.bind ⟨"p"⟩ ⟨"W1"⟩ (some ⟨"src"⟩))
    (applied (away ++ home :: (back ++ []) ++ [])).Sublist
        ((FsSource.create FsSource.onePathEach 7).told FsSource.returned) ∧
      ∃ view, ((create 4).performAll (away ++ [home] ++ back)).view? ⟨"p"⟩ = some view ∧
        view.worktree = ⟨"W1"⟩ ∧ view.lastBatchSeq = 3 := by
  intro home
  have hinorder : (applied (away ++ home :: (back ++ []) ++ [])).Sublist
      ((FsSource.create FsSource.onePathEach 7).told FsSource.returned) := by decide +kernel
  obtain ⟨-, hstands⟩ := stale_eq_zero_in_order FsSource.onePathEach 7 4 FsSource.returned
    (away ++ home :: (back ++ []) ++ []) hinorder
  have hleft : ∀ view, ((create 4).performAll away).view? ⟨"p"⟩ = some view →
      view.worktree ≠ ⟨"W1"⟩ := by
    have hw2 : (((create 4).performAll away).view? ⟨"p"⟩).map (·.worktree) = some ⟨"W2"⟩ := by
      decide +kernel
    intro view hv
    rw [hv, Option.map_some, Option.some.injEq] at hw2
    rw [hw2]
    decide
  have hstays : ∀ op ∈ back ++ [], op.Holds ⟨"p"⟩ ⟨"W1"⟩ := by
    intro op hop
    rw [List.append_nil] at hop
    obtain ⟨e, -, rfl⟩ := List.mem_map.mp hop
    trivial
  obtain ⟨view, -, hv, -, hw, -, hseq, -⟩ :=
    hstands away ⟨"p"⟩ ⟨"W1"⟩ (some ⟨"src"⟩) back [] [] rfl hleft hstays
  refine ⟨hinorder, view, ?_, hw, hseq.trans (by decide +kernel)⟩
  rw [performAll, List.foldl_append]
  exact hv

end Projection

end Switchboard
