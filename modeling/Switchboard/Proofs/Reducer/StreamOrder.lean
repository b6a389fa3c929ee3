import Switchboard.Proofs.Reducer.Runs

/-!
# The order of a stream

Envelopes that are always equally urgent make up a stream: those of one pane, or those that the file
system tells of one worktree. However visibility changes, what is handed out of a stream is a part
of what was pushed of it, in the same order. Since the intake pushes only what is newer than all it
has seen of the source, the stamps of a stream grow from the first batch to the last.
-/
namespace Switchboard

/-- The envelopes are equally urgent whatever is visible. -/
def IsStream (p : Envelope → Bool) : Prop :=
  ∀ (v : Resolver) (a b : Envelope), p a = true → p b = true → v.tier a = v.tier b

theorem isStream_pane (pane : PaneId) : IsStream fun e => e.source = .pane pane := by
  intro v a b ha hb
  rw [decide_eq_true_iff] at ha hb
  simp only [Resolver.tier, ha, hb]

theorem isStream_filesystem (facet : Option WorktreeId) :
    IsStream fun e => decide (e.source = .filesystem ∧ e.worktree = facet) := by
  intro v a b ha hb
  rw [decide_eq_true_iff] at ha hb
  simp only [Resolver.tier, ha.1, ha.2, hb.1, hb.2, Source.filesystem]

namespace Course

def pushed (requests : List Request) : List Envelope :=
  (requests.filterMap Request.entry?).filterMap Entry.envelope?

theorem pushed_append (requests more : List Request) :
    pushed (requests ++ more) = pushed requests ++ pushed more := by
  simp only [pushed, List.filterMap_append]

theorem pushed_concat (requests : List Request) {x : Entry} (hx : x.envelope? = none) :
    pushed (requests ++ [.enter x]) = pushed requests := by
  rw [pushed_append]
  exact (congrArg (pushed requests ++ ·) (List.filterMap_cons_none hx)).trans (List.append_nil _)

theorem run_append (c : Course) (requests more : List Request) :
    c.run (requests ++ more) = (c.run requests).run more := List.foldl_append

theorem notified_flush {c : Course} (h : c.reducer.Collects c.since) (now : Nat) :
    notified (c.flush now).batches = notified c.batches ++
      (c.reducer.resolver.arrange (owed (c.since.filterMap Entry.envelope?))).map (·.envelope) := by
  have hbatch := h.batch_eq (.refl _) now
  rw [flush, notified_append]
  refine congrArg (notified c.batches ++ ·) ?_
  rw [notified, List.flatMap_cons, List.flatMap_nil, List.append_nil]
  exact congrArg (fun b => b.notifications.map (·.envelope)) hbatch

/-- What was handed out of a stream, and behind it what is owed of it, was pushed in this order. -/
theorem stream_sublist (frame begin : Nat) (requests : List Request) {p : Envelope → Bool}
    (hp : IsStream p) :
    let c := (start frame begin).run requests
    ((notified c.batches).filter p ++ (owed (c.since.filterMap Entry.envelope?)).filter p).Sublist
      ((pushed requests).filter p) := by
  induction requests using List.reverseRecOn with
  | nil => exact .slnil
  | append_singleton requests x ih =>
    have hcollects := (Sound.run frame begin requests).collects
    simp only [run_append, pushed_append, List.filter_append]
    generalize (start frame begin).run requests = c at ih hcollects
    have hflush : ∀ now, ((notified (c.flush now).batches).filter p ++
        (owed ((c.flush now).since.filterMap Entry.envelope?)).filter p).Sublist
          ((pushed requests).filter p) := by
      intro now
      rw [notified_flush hcollects, List.filter_append, Resolver.filter_arrange _ _ (hp _)]
      exact (List.append_nil _).symm ▸ ih
    have hsilent : ∀ x : Entry, x.envelope? = none → ((notified c.batches).filter p ++
        (owed ((c.since ++ [x]).filterMap Entry.envelope?)).filter p).Sublist
          ((pushed requests).filter p ++ (pushed [.enter x]).filter p) := by
      intro x hx
      rw [filterMap_concat_none hx]
      exact ih.trans (List.sublist_append_left _ _)
    cases x with
    | enter x =>
      cases x with
      | envelope e =>
        have hes : (c.since ++ [Entry.envelope e]).filterMap Entry.envelope? =
            c.since.filterMap Entry.envelope? ++ [e] := List.filterMap_append
        show ((notified c.batches).filter p ++ (owed ((c.since ++
          [Entry.envelope e]).filterMap Entry.envelope?)).filter p).Sublist
            ((pushed requests).filter p ++ [e].filter p)
        rw [hes, owed, standing_concat, List.filter_append, ← List.append_assoc]
        refine List.Sublist.append_right (List.Sublist.trans ?_ ih) _
        exact (List.filter_sublist.filter p).append_left _
      | flush now => exact (hflush now).trans (List.sublist_append_left _ _)
      | loss gap => exact hsilent (.loss gap) rfl
      | control x => exact hsilent (.control x) rfl
    | poll now =>
      simp only [run, List.foldl_cons, List.foldl_nil, ask_poll]
      split
      · exact (hflush now).trans (List.sublist_append_left _ _)
      · exact ih.trans (List.sublist_append_left _ _)

end Course

namespace Intake

/-- What an intake goes through: envelopes of the bus, refills from any histories, what it is told
beside, and batches. -/
inductive Step where
  | accept (e : Envelope)
  | refill (recoveries : List Recovery)
  | control (c : Control)
  | poll (now : Nat)
  | flush (now : Nat)
  deriving DecidableEq

def perform (i : Intake) : Step → Intake × Option Batch
  | .accept e => (i.accept e, none)
  | .refill recoveries => (recoveries.foldl acceptRecovery i, none)
  | .control c => (i.control c, none)
  | .poll now =>
    let (reducer, batch) := i.reducer.poll now
    ({ i with reducer }, batch)
  | .flush now =>
    let (reducer, batch) := i.reducer.flush now
    ({ i with reducer }, some batch)

def batches (i : Intake) : List Step → List Batch
  | [] => []
  | x :: rest => (i.perform x).2.toList ++ (i.perform x).1.batches rest

/-- The reducer of the intake is on a course, and what it was given of the source is older than
all that the cursor lets pass. -/
structure Rises (source : Source) (frame begin : Nat) (i : Intake) (handedOut : List Batch)
    (requests : List Request) : Prop where
  reducer : ((Course.start frame begin).run requests).reducer = i.reducer
  batches : ((Course.start frame begin).run requests).batches = handedOut
  grows : ((Course.pushed requests).filter (·.source = source)).Pairwise
    fun a b => a.stamp.before b.stamp = true
  seen : ∀ e ∈ Course.pushed requests, e.source = source → ¬ i.cursor.isNew e = true

namespace Rises

variable {source : Source} {frame begin : Nat} {i : Intake} {handedOut : List Batch}
  {requests : List Request}

theorem create (source : Source) (frame begin : Nat) :
    Rises source frame begin (.create frame begin) [] [] where
  reducer := rfl
  batches := rfl
  grows := .nil
  seen _ he := nomatch he

theorem accept (h : Rises source frame begin i handedOut requests) (e : Envelope) :
    ∃ more, Rises source frame begin (i.accept e) handedOut more := by
  by_cases hn : i.cursor.isNew e = true
  · refine ⟨requests ++ [.enter (.envelope e)], ?_⟩
    have hi : i.accept e = ⟨i.reducer.push e, (i.cursor.advance e).1⟩ := by
      simp only [Intake.accept, Cursor.advance_of_isNew hn, if_true]
    rw [hi]
    refine ⟨?_, ?_, ?_, ?_⟩
    · rw [Course.run_append]
      exact congrArg (Reducer.push · e) h.reducer
    · rw [Course.run_append]
      exact h.batches
    · rw [Course.pushed_append, List.filter_append]
      refine List.pairwise_append.mpr ⟨h.grows, ?_, ?_⟩
      · exact List.Pairwise.sublist List.filter_sublist (List.pairwise_singleton _ _)
      · intro a ha b hb
        obtain ⟨hb, hbs⟩ := List.mem_filter.mp hb
        obtain ⟨ha, has⟩ := List.mem_filter.mp ha
        rw [decide_eq_true_iff] at has hbs
        rw [List.mem_singleton.mp hb] at hbs ⊢
        have hold := h.seen a ha has
        rw [Cursor.isNew_iff] at hold hn
        push Not at hold
        obtain ⟨stamp, hlast, hnot⟩ := hold
        refine Stamp.before_of_not_before (by simpa using hnot) (hn stamp ?_)
        rw [hbs, ← has, hlast]
    · intro a ha has hna
      rw [Course.pushed_append] at ha
      rcases List.mem_append.mp ha with ha | ha
      · exact h.seen a ha has ((Cursor.isNew_advance _ _ _).mp hna).1
      · rw [List.mem_singleton.mp ha, Cursor.isNew_advance_self] at hna
        cases hna
  · refine ⟨requests, ?_⟩
    have hi : i.accept e = i := by
      simp only [Intake.accept, Cursor.advance_of_not_isNew hn, Bool.false_eq_true, if_false]
    rw [hi]
    exact h

theorem recordLoss (h : Rises source frame begin i handedOut requests)
    (lost : Option DeliveryGap) :
    ∃ more, Rises source frame begin (i.recordLoss lost) handedOut more := by
  cases lost with
  | none => exact ⟨requests, h⟩
  | some gap =>
    have hpushed : Course.pushed (requests ++ [.enter (.loss gap)]) = Course.pushed requests :=
      Course.pushed_concat requests rfl
    refine ⟨requests ++ [.enter (.loss gap)], ?_, ?_, hpushed ▸ h.grows, hpushed ▸ h.seen⟩
    · rw [Course.run_append]
      exact congrArg (Reducer.recordGap · gap) h.reducer
    · rw [Course.run_append]
      exact h.batches

theorem acceptRecovery (h : Rises source frame begin i handedOut requests) (r : Recovery) :
    ∃ more, Rises source frame begin (i.acceptRecovery r) handedOut more := by
  have hevents : ∀ (es : List Envelope) (i : Intake) (requests : List Request),
      Rises source frame begin i handedOut requests →
      ∃ more, Rises source frame begin (es.foldl Intake.accept i) handedOut more := by
    intro es
    induction es with
    | nil => exact fun i requests h => ⟨requests, h⟩
    | cons e es ih =>
      intro i requests h
      obtain ⟨more, hmore⟩ := h.accept e
      exact ih _ _ hmore
  obtain ⟨more, hmore⟩ := h.recordLoss r.lost
  exact hevents r.events _ _ hmore

theorem refill (h : Rises source frame begin i handedOut requests) (recoveries : List Recovery) :
    ∃ more, Rises source frame begin (recoveries.foldl Intake.acceptRecovery i) handedOut more := by
  induction recoveries generalizing i requests with
  | nil => exact ⟨requests, h⟩
  | cons r recoveries ih =>
    obtain ⟨more, hmore⟩ := h.acceptRecovery r
    exact ih hmore

theorem control (h : Rises source frame begin i handedOut requests) {c : Control}
    (hc : ∀ pane, c = .forget pane → source ≠ .pane pane) :
    ∃ more, Rises source frame begin (i.control c) handedOut more := by
  have hpushed : Course.pushed (requests ++ [.enter (.control c)]) = Course.pushed requests :=
    Course.pushed_concat requests rfl
  have hreducer : (i.control c).reducer = i.reducer.control c := by
    cases c <;> rfl
  have hnew : ∀ e : Envelope, e.source = source →
      ((i.control c).cursor.isNew e = i.cursor.isNew e) := by
    intro e he
    cases c with
    | setFocus focus => rfl
    | bind pane worktree => rfl
    | forget pane =>
      have hother : Source.pane pane ≠ e.source := fun heq => hc pane rfl (he.symm.trans heq.symm)
      simp only [Intake.control, Cursor.isNew, Cursor.last?_forget, hother, if_false]
  refine ⟨requests ++ [.enter (.control c)], ?_, ?_, hpushed ▸ h.grows, ?_⟩
  · rw [Course.run_append, hreducer, ← h.reducer]
    rfl
  · rw [Course.run_append]
    exact h.batches
  · intro e he hes
    rw [hnew e hes]
    exact h.seen e (hpushed ▸ he) hes

theorem flush (h : Rises source frame begin i handedOut requests) (now : Nat) :
    Rises source frame begin { i with reducer := (i.reducer.flush now).1 }
      (handedOut ++ [(i.reducer.flush now).2]) (requests ++ [.enter (.flush now)]) := by
  have hpushed : Course.pushed (requests ++ [.enter (.flush now)]) = Course.pushed requests :=
    Course.pushed_concat requests rfl
  refine ⟨?_, ?_, hpushed ▸ h.grows, hpushed ▸ h.seen⟩
  · rw [Course.run_append]
    exact congrArg (fun r => (Reducer.flush r now).1) h.reducer
  · rw [Course.run_append, ← h.reducer, ← h.batches]
    rfl

theorem poll (h : Rises source frame begin i handedOut requests) (now : Nat) :
    ∃ more, Rises source frame begin { i with reducer := (i.reducer.poll now).1 }
      (handedOut ++ (i.reducer.poll now).2.toList) more := by
  by_cases hd : i.reducer.isDue now = true
  · have hpoll : i.reducer.poll now =
        ((i.reducer.flush now).1, some (i.reducer.flush now).2) := if_pos hd
    rw [hpoll]
    exact ⟨_, h.flush now⟩
  · have hpoll : i.reducer.poll now = (i.reducer, none) := if_neg hd
    rw [hpoll, Option.toList_none, List.append_nil]
    exact ⟨requests, h⟩

theorem perform (h : Rises source frame begin i handedOut requests) {x : Step}
    (hx : ∀ pane, x = .control (.forget pane) → source ≠ .pane pane) :
    ∃ more, Rises source frame begin (i.perform x).1 (handedOut ++ (i.perform x).2.toList)
      more := by
  have hsilent : handedOut ++ (none : Option Batch).toList = handedOut := List.append_nil _
  cases x with
  | accept e => exact hsilent.symm ▸ h.accept e
  | refill recoveries => exact hsilent.symm ▸ h.refill recoveries
  | control c => exact hsilent.symm ▸ h.control fun pane hc => hx pane (congrArg Step.control hc)
  | poll now => exact h.poll now
  | flush now => exact ⟨_, h.flush now⟩

theorem run (h : Rises source frame begin i handedOut requests) (steps : List Step)
    (hsteps : ∀ pane, .control (.forget pane) ∈ steps → source ≠ .pane pane) :
    ∃ i' more, Rises source frame begin i' (handedOut ++ i.batches steps) more := by
  induction steps generalizing i handedOut requests with
  | nil => exact ⟨i, requests, (List.append_nil handedOut).symm ▸ h⟩
  | cons x rest ih =>
    have hx : ∀ pane, x = .control (.forget pane) → source ≠ .pane pane :=
      fun pane heq => hsteps pane (heq ▸ List.mem_cons_self)
    obtain ⟨more, hmore⟩ := h.perform hx
    rw [Intake.batches, ← List.append_assoc]
    exact ih hmore fun pane hp => hsteps pane (List.mem_cons_of_mem _ hp)

theorem told (h : Rises source frame begin i handedOut requests) {p : Envelope → Bool}
    (hp : IsStream p) (hs : ∀ e, p e = true → e.source = source) :
    ((notified handedOut).filter p).Pairwise fun a b => a.stamp.before b.stamp = true := by
  have hpart : ((notified handedOut).filter p).Sublist ((Course.pushed requests).filter p) := by
    have hall := Course.stream_sublist frame begin requests hp
    rw [← h.batches]
    exact (List.sublist_append_left _ _).trans hall
  have hsource : (Course.pushed requests).filter p =
      ((Course.pushed requests).filter (·.source = source)).filter p := by
    rw [List.filter_filter]
    refine List.filter_congr fun e _ => ?_
    rw [Bool.eq_iff_iff, Bool.and_eq_true, decide_eq_true_iff]
    exact ⟨fun he => ⟨he, hs e he⟩, And.left⟩
  exact h.grows.sublist (hpart.trans (hsource ▸ List.filter_sublist))

end Rises

/-- Whatever an intake goes through, the stamps of a pane grow along all that is handed out, as long
as the pane is not forgotten, and so do the stamps of what the file system tells of one worktree. -/
theorem delivered_in_order (frame begin : Nat) (steps : List Step) :
    let told := notified ((create frame begin).batches steps)
    (∀ pane, .control (.forget pane) ∉ steps →
      (told.filter (·.source = .pane pane)).Pairwise fun a b => a.stamp.before b.stamp = true) ∧
    ∀ facet, (told.filter fun e => e.source = .filesystem ∧ e.worktree = facet).Pairwise
      fun a b => a.stamp.before b.stamp = true := by
  refine ⟨?_, ?_⟩
  · intro pane hforget
    have hsteps : ∀ other, .control (.forget other) ∈ steps → Source.pane pane ≠ .pane other := by
      rintro other hother heq
      exact hforget (Source.pane.inj heq ▸ hother)
    obtain ⟨i, requests, h⟩ := (Rises.create (.pane pane) frame begin).run steps hsteps
    exact h.told (isStream_pane pane) fun e he => of_decide_eq_true he
  · intro facet
    have hsteps : ∀ pane, .control (.forget pane) ∈ steps → Source.filesystem ≠ .pane pane :=
      fun _ _ heq => nomatch heq
    obtain ⟨i, requests, h⟩ := (Rises.create .filesystem frame begin).run steps hsteps
    exact h.told (isStream_filesystem facet) fun e he => (of_decide_eq_true he).1

theorem delivered_in_order_refocused :
    let pane : PaneId := ⟨"a"⟩
    let said (seq : Nat) (event : Event) : Envelope :=
      ⟨.pane pane, none, ⟨0, seq⟩, none, none, 0, event⟩
    let started := said 1 (.lifecycle (.stateChanged .created .ready))
    let title := said 2 (.terminal (.titleChanged "one"))
    let retitled := said 3 (.terminal (.titleChanged "two"))
    let bell := said 4 (.terminal .bell)
    let steps : List Step :=
      [.accept title, .accept started, .accept retitled, .flush 16,
        .control (.setFocus (.on pane)), .refill [⟨[started, title, retitled, bell], none⟩],
        .control (.bind pane ⟨"w"⟩), .accept retitled, .poll 40]
    .control (.forget pane) ∉ steps ∧
      (notified ((create 16 0).batches steps)).filter (·.source = .pane pane) = [retitled, bell] ∧
      ((notified ((create 16 0).batches steps)).filter (·.source = .pane pane)).Pairwise
        fun a b => a.stamp.before b.stamp = true := by
  intro pane said started title retitled bell steps
  have hforget : .control (.forget pane) ∉ steps := by decide
  exact ⟨hforget, by decide +kernel, (delivered_in_order 16 0 steps).1 pane hforget⟩

end Intake

end Switchboard
