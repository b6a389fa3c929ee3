import Mathlib.Algebra.Group.Nat.Defs
import Switchboard.Proofs.Pane.Stream

/-!
# How streams end

A follower stops when it has handed on the event that ends its pane. It never meets that event if
the ring overtook it and the mark that it hands on instead leads past the event: then it waits for
ever. This can come about exactly if the pane tells more after the subscription than the ring holds.
-/
namespace Switchboard

namespace Ring

theorem le_roundUp (fuel p n : Nat) : min n (2 ^ fuel * p) ≤ roundUp fuel p n := by
  induction fuel generalizing p with
  | zero =>
    simp only [roundUp]
    omega
  | succ fuel ih =>
    simp only [roundUp]
    split
    · omega
    · have := ih (2 * p)
      rwa [← Nat.mul_assoc, ← Nat.pow_succ] at this

theorem le_sizeFor (n : Nat) : min n wordMax ≤ sizeFor n :=
  Nat.le_trans (by simp only [wordMax]; omega) (le_roundUp 64 1 n)

end Ring

theorem Speaker.Logged.lost {sp : Speaker} {log : List Envelope} (h : sp.Logged log) {n : Nat}
    (hn : n + sp.replay.capacity < min log.length wordMax) : n < sp.replay.evictedThrough := by
  rw [h.evictedThrough_eq]
  omega

def StreamItem.isFinal : StreamItem → Bool
  | .event e => e.isFinal
  | .resync .. => false

namespace Subscription

def atRest (s : Subscription) : Bool :=
  s.unsent.isEmpty && s.move?.isNone && s.follower.queue.isEmpty

/-- The last that the reader got is the event that ends the pane, and the follower has stopped. -/
def Ends (s : Subscription) : Prop :=
  s.follower.running = false ∧ s.taken.getLast?.any StreamItem.isFinal = true

instance (s : Subscription) : Decidable s.Ends := inferInstanceAs (Decidable (_ ∧ _))

/-- The last that the reader got is a mark behind the end, and the follower waits for more. -/
def Hangs (s : Subscription) : Prop :=
  s.follower.running = true ∧ ∃ epoch, s.taken.getLast? = some (.resync epoch s.pane.lastSeq)

variable {c opened : Nat} {backlog rest : List StreamItem} {sent : List Envelope}
  {s s' : Subscription}

theorem atRest_iff : s.atRest = true ↔
    s.unsent = [] ∧ s.move? = none ∧ s.follower.queue = [] := by
  simp [atRest, and_assoc]

theorem errand_of_atRest (h : s.atRest = true) : s.errand = none ∧
    s.follower.overtaken s.live = false ∧ s.follower.step? s.pane s.live = none := by
  obtain ⟨hu, hm, -⟩ := atRest_iff.mp h
  simp only [move?, hu, List.isEmpty_nil, if_true] at hm
  cases he : s.errand with
  | some errand => cases errand <;> simp [he] at hm
  | none =>
    rw [he] at hm
    simp only at hm
    split at hm
    · cases hm
    next ho => exact ⟨rfl, Bool.eq_false_iff.mpr ho, Option.map_eq_none_iff.mp hm⟩

theorem lastSeq_of_waiting (h : s.Sound c opened backlog sent rest) (hrest : s.atRest = true)
    (hr : s.follower.running = true) : s.follower.inHand = [] ∧ s.follower.ending = false ∧
      s.follower.lastSeq = s.pane.lastSeq := by
  obtain ⟨hu, -, hq⟩ := atRest_iff.mp hrest
  obtain ⟨he, ho, hstep⟩ := errand_of_atRest hrest
  obtain ⟨hhand, hend, next, hempty⟩ := step?_eq_none hstep ho hq hr
  rw [h.live] at hempty
  have hread := Ring.length_le_of_receive hempty
  have hbehind := h.behind he hend
  have hknown := h.known
  have hlast := h.lastSeq_eq
  rw [hu, List.length_nil, Nat.add_zero] at hlast
  refine ⟨hhand, hend, ?_⟩
  omega

theorem getLast?_of_seq {sp : Speaker} {log : List Envelope} (h : sp.Logged log)
    (hspace : log.length < wordMax) {e : Envelope} (he : e ∈ log) (hseq : log.length ≤ e.seq) :
    log.getLast? = some e := by
  obtain ⟨i, hi⟩ := List.getElem?_of_mem he
  have hlt := (List.getElem?_eq_some_iff.mp hi).1
  have hnum := h.numbered i e hi
  have hlast : i = log.length - 1 := by omega
  rw [List.getLast?_eq_getElem?, ← hlast, hi]

theorem ends_or_hangs (h : s.Sound c opened backlog sent rest) (hrest : s.atRest = true)
    (hspace : s.pane.lastSeq < wordMax) (hnew : opened < s.pane.lastSeq)
    (hfinal : ∃ e, sent.getLast? = some e ∧ e.isFinal = true) : s.Ends ∨ s.Hangs := by
  obtain ⟨hu, -, hq⟩ := atRest_iff.mp hrest
  have hlast := h.lastSeq_eq
  rw [hu, List.length_nil, Nat.add_zero] at hlast
  have hlogged := h.logged
  have htold := h.reads.told
  rw [hu, List.append_nil] at hlogged htold
  have hstream := h.stream
  cases hr : s.follower.running with
  | false =>
    obtain ⟨hend, hhand⟩ := h.stopped hr
    obtain ⟨e, hl, hf⟩ := h.reads.last hend
    rw [Subscription.stream, hq, hhand, List.append_nil, List.append_nil] at hstream
    refine .inl ⟨hr, ?_⟩
    rw [hstream, List.getLast?_append, hl]
    exact hf
  | true =>
    obtain ⟨hhand, hend, hplace⟩ := lastSeq_of_waiting h hrest hr
    rw [Subscription.stream, hq, hhand, List.append_nil, List.append_nil] at hstream
    have hat : StreamItem.placeAfter opened rest = s.pane.lastSeq := h.reads.place.trans hplace
    refine .inr ⟨hr, ?_⟩
    cases hl : rest.getLast? with
    | none =>
      rw [List.getLast?_eq_none_iff.mp hl] at hat
      exact absurd hat (Nat.ne_of_lt hnew)
    | some item =>
      have hitem := (StreamItem.placeAfter_of_getLast? hl).symm.trans hat
      have hmem : item ∈ rest := List.mem_of_getLast? hl
      cases item with
      | event e =>
        have hseq : e.seq = s.pane.lastSeq := hitem
        have hsame := getLast?_of_seq hlogged (by omega) (htold e hmem) (by omega)
        obtain ⟨f, hf, hfin⟩ := hfinal
        rw [hsame] at hf
        cases hf
        rw [h.reads.finals e hmem hfin] at hend
        cases hend
      | resync epoch lastSeq =>
        have hseq : lastSeq = s.pane.lastSeq := hitem
        refine ⟨epoch, ?_⟩
        rw [hstream, List.getLast?_append, hl, hseq]
        rfl

structure Abreast (first : Nat) (backlog : List StreamItem) (s : Subscription) : Prop where
  errand : s.errand = none
  next : first ≤ s.follower.next
  marks : ∀ epoch n, .resync epoch n ∈ s.stream → .resync epoch n ∈ backlog

namespace Abreast

variable {first : Nat}

theorem move (ha : s.Abreast first backlog) (h : s.Sound c opened backlog sent rest)
    (hroom : sent.length ≤ first + c) (hm : s.move? = some s') : s'.Abreast first backlog := by
  obtain ⟨items, hstream, hitems⟩ := h.stream_move? hm
  have hmarks : ∀ epoch n, .resync epoch n ∈ s'.stream → .resync epoch n ∈ backlog := by
    intro epoch n hmem
    rw [hstream] at hmem
    rcases List.mem_append.mp hmem with hmem | hmem
    · exact ha.marks epoch n hmem
    · rcases hitems with ⟨es, rfl⟩ | ⟨epoch, he, -⟩
      · obtain ⟨e, -, he⟩ := List.mem_map.mp hmem
        cases he
      · rw [ha.errand] at he
        cases he
  have hnext := ha.next
  have hnot : s.follower.overtaken s.live = false := by
    rw [Bool.eq_false_iff]
    intro ho
    obtain ⟨-, -, -, hlt⟩ := overtaken_iff.mp ho
    rw [h.live, Ring.oldest_window] at hlt
    omega
  rcases move?_cases hm with ⟨he, -, -⟩ | ⟨epoch, he, -, -⟩ | ⟨-, ho, -⟩ | ⟨-, ho, f, hf, rfl⟩
  · rw [ha.errand] at he
    cases he
  · rw [ha.errand] at he
    cases he
  · rw [hnot] at ho
    cases ho
  refine ⟨ha.errand, ?_, hmarks⟩
  obtain ⟨-, ⟨item, items, -, rfl⟩ | ⟨-, -, rfl⟩ | ⟨-, -, e, next, hget, rfl⟩⟩ := step?_cases hf ho
  · exact hnext
  · exact hnext
  · have := (Ring.lt_sent_of_receive hget).2
    show first ≤ next
    omega

theorem run (ha : s.Abreast first backlog) (h : s.Sound c opened backlog sent rest)
    (steps : List Step)
    (hroom : (sent ++ s.unsent ++ s.pane.told (operations steps)).length ≤ first + c) :
    (s.run steps).Abreast first backlog := by
  induction steps generalizing s sent rest with
  | nil => exact ha
  | cons st steps ih =>
    obtain ⟨sent', rest', hs, hu⟩ := h.step st
    rw [operations_cons, Pane.told_append, ← List.append_assoc, ← hu, ← pane_step] at hroom
    refine ih ?_ hs hroom
    cases st with
    | perform op => exact ⟨ha.errand, ha.next, ha.marks⟩
    | send =>
      simp only [Subscription.step, send]
      split <;> exact ⟨ha.errand, ha.next, ha.marks⟩
    | read count =>
      refine ⟨ha.errand, ha.next, ?_⟩
      simp only [Subscription.step, stream_read]
      exact ha.marks
    | move =>
      cases hm : s.move? with
      | none =>
        simp only [Subscription.step, hm]
        exact ha
      | some next =>
        simp only [Subscription.step, hm]
        refine ha.move h ?_ hm
        -- What is in the ring now is part of what is in it in the end.
        have hlen := congrArg List.length hu
        simp only [List.length_append] at hlen hroom
        omega

end Abreast

structure Doomed (s : Subscription) : Prop where
  silent : s.unsent = []
  stage : (s.errand = none ∧ s.follower.running = true ∧ s.follower.ending = false ∧
      s.follower.next < s.live.oldest ∧ s.follower.lastSeq < s.pane.replay.evictedThrough) ∨
    (s.errand = some .refill ∧ s.follower.lastSeq < s.pane.replay.evictedThrough) ∨
    (∃ epoch, s.errand = some (.mark epoch)) ∨
    ∃ epoch, .resync epoch s.pane.lastSeq ∈ s.stream

namespace Doomed

theorem move (hd : s.Doomed) (h : s.Sound c opened backlog sent rest) (hm : s.move? = some s') :
    s'.Doomed := by
  obtain ⟨hpane, hunsent, hlive, -⟩ := pane_move? hm
  refine ⟨hunsent.trans hd.silent, ?_⟩
  rcases hd.stage with ⟨he, hr, hend, hlt, hlost⟩ | ⟨he, hlost⟩ | ⟨epoch, he⟩ | ⟨epoch, hmem⟩
  · rcases move?_cases hm with ⟨he', -, -⟩ | ⟨epoch, he', -, -⟩ | ⟨-, -, rfl⟩ | ⟨-, ho, f, hf, rfl⟩
    · rw [he] at he'
      cases he'
    · rw [he] at he'
      cases he'
    · exact .inr (.inl ⟨rfl, hlost⟩)
    · have hhand : s.follower.inHand ≠ [] := by
        intro hhand
        rw [overtaken_iff.mpr ⟨hr, hhand, hend, hlt⟩] at ho
        cases ho
      obtain ⟨-, ⟨item, items, -, rfl⟩ | ⟨hnil, -, -⟩ | ⟨hnil, -, -⟩⟩ := step?_cases hf ho
      · exact .inl ⟨he, hr, hend, hlt, hlost⟩
      · exact absurd hnil hhand
      · exact absurd hnil hhand
  · simp only [move?, he, hd.silent, List.isEmpty_nil, if_true, Option.some.injEq] at hm
    refine .inr (.inr (.inl ?_))
    rw [← hm]
    simp only [look, ReplayBuffer.replayFrom, ReplayBuffer.replay]
    by_cases hepoch : s.follower.epoch ≠ s.pane.replay.epoch
    · rw [if_pos hepoch]
      exact ⟨_, rfl⟩
    · rw [if_neg hepoch, if_pos hlost]
      exact ⟨_, rfl⟩
  · simp only [move?, he, hd.silent, List.isEmpty_nil, if_true, Option.some.injEq] at hm
    refine .inr (.inr (.inr ⟨epoch, ?_⟩))
    rw [← hm]
    simp [Subscription.stream, mark]
  · obtain ⟨items, hstream, -⟩ := h.stream_move? hm
    refine .inr (.inr (.inr ⟨epoch, ?_⟩))
    rw [hstream, hpane]
    exact List.mem_append_left _ hmem

theorem run (hd : s.Doomed) (h : s.Sound c opened backlog sent rest) {steps : List Step}
    (hquiet : operations steps = []) : (s.run steps).Doomed := by
  induction steps generalizing s sent rest with
  | nil => exact hd
  | cons st steps ih =>
    obtain ⟨sent', rest', hs, -⟩ := h.step st
    rw [operations_cons, List.append_eq_nil_iff] at hquiet
    refine ih ?_ hs hquiet.2
    cases st with
    | perform op => cases hquiet.1
    | send =>
      have hsend : s.send = s := by simp [send, hd.silent]
      simp only [Subscription.step, hsend]
      exact hd
    | read count =>
      refine ⟨hd.silent, ?_⟩
      simp only [Subscription.step, stream_read]
      exact hd.stage
    | move =>
      cases hm : s.move? with
      | none =>
        simp only [Subscription.step, hm]
        exact hd
      | some next =>
        simp only [Subscription.step, hm]
        exact hd.move h hm

theorem mark_of_atRest (hd : s.Doomed) (hrest : s.atRest = true) :
    ∃ epoch, .resync epoch s.pane.lastSeq ∈ s.stream := by
  obtain ⟨he, ho, hstep⟩ := errand_of_atRest hrest
  rcases hd.stage with ⟨-, hr, hend, hlt, -⟩ | ⟨he', -⟩ | ⟨epoch, he'⟩ | hmem
  · obtain ⟨hhand, -⟩ := step?_eq_none hstep ho (atRest_iff.mp hrest).2.2 hr
    rw [overtaken_iff.mpr ⟨hr, hhand, hend, hlt⟩] at ho
    cases ho
  · rw [he] at he'
    cases he'
  · rw [he] at he'
    cases he'
  · exact hmem

end Doomed

theorem not_event_of_mark {n m epoch : Nat} {items : List StreamItem}
    (h : StreamItem.Unbroken n items) (hmark : .resync epoch m ∈ items)
    (hle : ∀ e, .event e ∈ items → e.seq ≤ m) : items.getLast?.any StreamItem.isFinal = false := by
  cases hl : items.getLast? with
  | none => rfl
  | some item =>
    cases item with
    | resync epoch' m' => rfl
    | event e =>
      obtain ⟨front, hfront⟩ := List.getLast?_eq_some_iff.mp hl
      rw [hfront] at h hmark
      obtain ⟨hunbroken, hlast, -⟩ := StreamItem.unbroken_append.mp h
      have hmem : .resync epoch m ∈ front := by
        rcases List.mem_append.mp hmark with hmem | hmem
        · exact hmem
        · cases List.mem_singleton.mp hmem
      obtain ⟨xs, ys, rfl⟩ := List.append_of_mem hmem
      obtain ⟨-, -, hys⟩ := StreamItem.unbroken_append.mp hunbroken
      have hge : m ≤ StreamItem.placeAfter n (xs ++ .resync epoch m :: ys) := by
        rw [StreamItem.placeAfter_append]
        exact hys.le
      have hseq : e.seq = StreamItem.placeAfter n (xs ++ .resync epoch m :: ys) + 1 := hlast
      have := hle e (List.mem_of_getLast? hl)
      omega

def errandRank : Option Errand → Nat
  | none => 0
  | some (.mark _) => 1
  | some .refill => 2

/-- What there is still to do: to send, to receive, to look up and to hand on. -/
def weight (s : Subscription) : Nat × Nat × Nat × Nat :=
  (s.unsent.length, s.live.sent - s.follower.next, errandRank s.errand,
    2 * s.follower.inHand.length + s.follower.queue.length + s.follower.running.toNat)

def Lighter (s' s : Subscription) : Prop := WellFoundedRelation.rel s'.weight s.weight

theorem lighter_iff : s'.Lighter s ↔ s'.unsent.length < s.unsent.length ∨
    s'.unsent.length = s.unsent.length ∧
      (s'.live.sent - s'.follower.next < s.live.sent - s.follower.next ∨
        s'.live.sent - s'.follower.next = s.live.sent - s.follower.next ∧
          (errandRank s'.errand < errandRank s.errand ∨
            errandRank s'.errand = errandRank s.errand ∧
              2 * s'.follower.inHand.length + s'.follower.queue.length +
                  s'.follower.running.toNat <
                2 * s.follower.inHand.length + s.follower.queue.length +
                  s.follower.running.toNat)) := by
  simp only [Lighter, weight, WellFoundedRelation.rel, Prod.lex_def]
  rfl

theorem lighter_send (hu : s.unsent ≠ []) : s.send.Lighter s := by
  rw [lighter_iff]
  cases h : s.unsent with
  | nil => exact absurd h hu
  | cons e rest =>
    left
    simp [send, h]

theorem lighter_read (hq : s.follower.queue ≠ []) (count : Nat) :
    (s.read (count + 1)).Lighter s := by
  have hpos := List.length_pos_iff.mpr hq
  rw [lighter_iff]
  refine .inr ⟨rfl, .inr ⟨rfl, .inr ⟨rfl, ?_⟩⟩⟩
  simp only [read, Follower.takeQueued, List.length_drop]
  omega

theorem lighter_move (hm : s.move? = some s') : s'.Lighter s := by
  rw [lighter_iff]
  rcases move?_cases hm with ⟨he, -, rfl⟩ | ⟨epoch, he, -, rfl⟩ | ⟨he, ho, rfl⟩ |
    ⟨he, ho, f, hf, rfl⟩
  · simp only [look]
    split <;> exact .inr ⟨rfl, .inr ⟨rfl, .inl (by simp [he, errandRank])⟩⟩
  · exact .inr ⟨rfl, .inr ⟨rfl, .inl (by simp [mark, he, errandRank])⟩⟩
  · refine .inr ⟨rfl, .inl ?_⟩
    obtain ⟨-, -, -, hlt⟩ := overtaken_iff.mp ho
    have hle : s.live.oldest ≤ s.live.sent := Nat.sub_le _ _
    show s.live.sent - s.live.oldest < s.live.sent - s.follower.next
    omega
  obtain ⟨hr, ⟨item, items, hhand, rfl⟩ | ⟨-, -, rfl⟩ | ⟨-, -, e, next, hget, rfl⟩⟩ :=
    step?_cases hf ho
  · refine .inr ⟨rfl, .inr ⟨rfl, .inr ⟨rfl, ?_⟩⟩⟩
    simp only [hhand, List.length_append, List.length_cons, List.length_nil]
    omega
  · refine .inr ⟨rfl, .inr ⟨rfl, .inr ⟨rfl, ?_⟩⟩⟩
    simp [hr]
  · refine .inr ⟨rfl, .inl ?_⟩
    obtain ⟨hlt, rfl⟩ := Ring.lt_sent_of_receive hget
    show s.live.sent - (s.follower.next + 1) < s.live.sent - s.follower.next
    omega

theorem operations_append (steps more : List Step) :
    operations (steps ++ more) = operations steps ++ operations more := List.filterMap_append

theorem run_append (s : Subscription) (steps more : List Step) :
    s.run (steps ++ more) = (s.run steps).run more := List.foldl_append

/-- Nothing more is done with the pane; its ring, the follower and the reader get their turns again
and again. -/
structure Fair (schedule : Nat → Step) : Prop where
  quiet : ∀ n, (schedule n).operation? = none
  sends : ∀ n, ∃ m, n ≤ m ∧ schedule m = .send
  moves : ∀ n, ∃ m, n ≤ m ∧ schedule m = .move
  reads : ∀ n, ∃ m, n ≤ m ∧ ∃ count, schedule m = .read (count + 1)

theorem Fair.drop {schedule : Nat → Step} (h : Fair schedule) (k : Nat) :
    Fair fun n => schedule (k + n) := by
  have hlater : ∀ turn : Step → Prop, (∀ n, ∃ m, n ≤ m ∧ turn (schedule m)) →
      ∀ n, ∃ m, n ≤ m ∧ turn (schedule (k + m)) := by
    intro turn hturns n
    obtain ⟨m, hle, hturn⟩ := hturns (k + n)
    refine ⟨m - k, by omega, ?_⟩
    rwa [Nat.add_sub_cancel' (by omega)]
  exact ⟨fun n => h.quiet _, hlater (· = .send) h.sends, hlater (· = .move) h.moves,
    hlater (∃ count, · = .read (count + 1)) h.reads⟩

theorem lighter_of_changed {st : Step} (hquiet : st.operation? = none) :
    s.step st = s ∨ (s.step st).Lighter s := by
  cases st with
  | perform op => cases hquiet
  | send =>
    by_cases hu : s.unsent = []
    · exact .inl (by simp [step, send, hu])
    · exact .inr (lighter_send hu)
  | move =>
    cases hm : s.move? with
    | none => exact .inl (by simp [step, hm])
    | some next =>
      refine .inr ?_
      simp only [step, hm]
      exact lighter_move hm
  | read count =>
    cases count with
    | zero => exact .inl (by simp [step, read, Follower.takeQueued])
    | succ count =>
      by_cases hq : s.follower.queue = []
      · refine .inl ?_
        simp only [step, read, Follower.takeQueued, hq, List.drop_nil, List.take_nil,
          List.append_nil]
        rw [← hq]
      · exact .inr (lighter_read hq count)

theorem exists_lighter {schedule : Nat → Step} (hf : Fair schedule) (h : s.atRest ≠ true) :
    ∃ m, (s.step (schedule m)).Lighter s := by
  by_cases hu : s.unsent = []
  · by_cases hq : s.follower.queue = []
    · cases hm : s.move? with
      | none => exact absurd (atRest_iff.mpr ⟨hu, hm, hq⟩) h
      | some next =>
        obtain ⟨m, -, hturn⟩ := hf.moves 0
        refine ⟨m, ?_⟩
        simp only [hturn, step, hm]
        exact lighter_move hm
    · obtain ⟨m, -, count, hturn⟩ := hf.reads 0
      exact ⟨m, hturn ▸ lighter_read hq count⟩
  · obtain ⟨m, -, hturn⟩ := hf.sends 0
    exact ⟨m, hturn ▸ lighter_send hu⟩

theorem exists_run_lighter {schedule : Nat → Step} (hf : Fair schedule) {m : Nat}
    (hm : (s.step (schedule m)).Lighter s) :
    ∃ n, (s.run ((List.range n).map schedule)).Lighter s := by
  induction m generalizing schedule with
  | zero => exact ⟨1, hm⟩
  | succ m ih =>
    rcases lighter_of_changed (s := s) (hf.quiet 0) with hsame | hlighter
    · obtain ⟨n, hn⟩ := ih (hf.drop 1) (by rwa [Nat.add_comm 1 m])
      refine ⟨1 + n, ?_⟩
      rw [List.range_add, List.map_append, run_append, List.map_map]
      show ((s.step (schedule 0)).run _).Lighter s
      rw [hsame]
      exact hn
    · exact ⟨1, hlighter⟩

theorem rest_of_fair (s : Subscription) {schedule : Nat → Step} (hf : Fair schedule) :
    ∃ n, (s.run ((List.range n).map schedule)).atRest = true := by
  by_cases h : s.atRest = true
  · exact ⟨0, h⟩
  · obtain ⟨m, hm⟩ := exists_lighter hf h
    obtain ⟨n, hn⟩ := exists_run_lighter hf hm
    obtain ⟨k, hk⟩ := rest_of_fair (s.run ((List.range n).map schedule)) (hf.drop n)
    refine ⟨n + k, ?_⟩
    rw [List.range_add, List.map_append, run_append, List.map_map]
    exact hk
termination_by s.weight
decreasing_by exact hn

def roundRobin (n : Nat) : Step :=
  if n % 3 = 0 then .send else if n % 3 = 1 then .move else .read 1

theorem fair_roundRobin : Fair roundRobin where
  quiet n := by
    simp only [roundRobin]
    split
    · rfl
    · split <;> rfl
  sends n := ⟨3 * n, by omega, by simp [roundRobin]⟩
  moves n := ⟨3 * n + 1, by omega, by simp [roundRobin]⟩
  reads n := ⟨3 * n + 2, by omega, 0, by simp [roundRobin]⟩

theorem exists_rest (s : Subscription) :
    ∃ more, operations more = [] ∧ (s.run more).atRest = true := by
  obtain ⟨n, hn⟩ := s.rest_of_fair fair_roundRobin
  refine ⟨_, ?_, hn⟩
  simp [operations, fair_roundRobin.quiet]

theorem mark_backlog {p : Pane} {from_ : Option Nat} {epoch n : Nat}
    (h : .resync epoch n ∈ Follower.backlog p from_) : n = p.lastSeq := by
  cases from_ with
  | none => cases h
  | some start =>
    simp only [Follower.backlog] at h
    split at h
    · obtain ⟨e, -, he⟩ := List.mem_map.mp h
      cases he
    · cases List.mem_singleton.mp h
      rfl

theorem run_performs (s : Subscription) (ops : List Pane.Operation) :
    operations (ops.map .perform) = ops ∧
      (s.run (ops.map .perform)).follower = s.follower ∧
      (s.run (ops.map .perform)).errand = s.errand := by
  induction ops generalizing s with
  | nil => exact ⟨rfl, rfl, rfl⟩
  | cons op rest ih =>
    obtain ⟨hops, hfollower, herrand⟩ := ih (s.perform op)
    refine ⟨?_, hfollower, herrand⟩
    rw [List.map_cons, operations_cons, hops]
    rfl

theorem run_sends (s : Subscription) :
    ∃ n, s.run (.replicate n .send) =
      { s with unsent := [], live := s.unsent.foldl Ring.send s.live } := by
  induction hu : s.unsent generalizing s with
  | nil =>
    refine ⟨0, ?_⟩
    show s = { s with unsent := [], live := s.live }
    rw [← hu]
  | cons e rest ih =>
    have hsend : s.send = { s with unsent := rest, live := s.live.send e } := by
      simp [send, hu]
    obtain ⟨n, hn⟩ := ih s.send (by rw [hsend])
    refine ⟨n + 1, ?_⟩
    rw [show s.run (.replicate (n + 1) .send) = s.send.run (.replicate n .send) from rfl, hn,
      hsend]
    rfl

theorem operations_sends (n : Nat) : operations (.replicate n .send) = [] := by
  simp [operations, Step.operation?]

structure Ending (l : LivePane) (c : Nat) (log : List Envelope) (ops : List Pane.Operation) :
    Prop where
  live : l.live = .window c log
  logged : l.pane.speaker.Logged log
  opened : l.pane.state.isTerminal = false
  closed : (l.pane.performAll ops).state.isTerminal = true
  space : (l.pane.performAll ops).lastSeq < wordMax

namespace Ending

variable {l : LivePane} {log : List Envelope} {ops : List Pane.Operation}

theorem lastSeq_open (h : Ending l c log ops) : l.pane.lastSeq = log.length ∧
    (l.pane.performAll ops).lastSeq = log.length + (l.pane.told ops).length := by
  have hold : l.pane.lastSeq = min log.length wordMax := h.logged.last
  have hnew : (l.pane.performAll ops).lastSeq =
      min (log.length + (l.pane.told ops).length) wordMax := by
    rw [← List.length_append]
    exact (h.logged.tells (l.pane.tells_performAll ops)).last
  have := h.space
  omega

theorem lastSeq_lt (h : Ending l c log ops) :
    l.pane.lastSeq < (l.pane.performAll ops).lastSeq := by
  obtain ⟨hold, hnew⟩ := h.lastSeq_open
  obtain ⟨e, he, -⟩ := Pane.last_told h.opened h.closed
  have := List.length_pos_iff.mpr (List.ne_nil_of_mem (List.mem_of_getLast? he))
  omega

theorem run (h : Ending l c log ops) (from_ : Option Nat) {steps : List Step}
    (hops : operations steps = ops) :
    ((open_ l from_).run steps).pane = l.pane.performAll ops ∧
    ∃ sent rest, ((open_ l from_).run steps).Sound c l.pane.lastSeq
        (Follower.backlog l.pane from_) sent rest ∧
      sent ++ ((open_ l from_).run steps).unsent = log ++ l.pane.told ops := by
  obtain ⟨sent, rest, hs, hu⟩ :=
    (Sound.open_ h.live h.logged h.opened from_).run steps
  rw [hops] at hu
  refine ⟨?_, sent, rest, hs, ?_⟩
  · rw [pane_run, hops]
    rfl
  · simpa [open_] using hu

theorem ends_or_hangs (h : Ending l c log ops) (from_ : Option Nat) {steps : List Step}
    (hops : operations steps = ops) (hrest : ((open_ l from_).run steps).atRest = true) :
    ((open_ l from_).run steps).Ends ∨ ((open_ l from_).run steps).Hangs := by
  obtain ⟨hpane, sent, rest, hs, hu⟩ := h.run from_ hops
  rw [(atRest_iff.mp hrest).1, List.append_nil] at hu
  obtain ⟨e, he, hf⟩ := Pane.last_told h.opened h.closed
  refine Subscription.ends_or_hangs hs hrest (hpane ▸ h.space) (hpane ▸ h.lastSeq_lt) ⟨e, ?_, hf⟩
  rw [hu, List.getLast?_append, he]
  rfl

theorem abreast (h : Ending l c log ops) (from_ : Option Nat) :
    (open_ l from_).Abreast log.length (Follower.backlog l.pane from_) := by
  refine ⟨rfl, ?_, ?_⟩
  · show log.length ≤ l.live.sent
    rw [h.live]
    exact Nat.le_refl _
  · intro epoch n hmem
    rw [(Sound.open_ h.live h.logged h.opened from_).stream, List.append_nil] at hmem
    exact hmem

theorem ends_of_room (h : Ending l c log ops) (from_ : Option Nat)
    (hroom : (l.pane.performAll ops).lastSeq ≤ l.pane.lastSeq + c) {steps : List Step}
    (hops : operations steps = ops) (hrest : ((open_ l from_).run steps).atRest = true) :
    ((open_ l from_).run steps).Ends := by
  rcases h.ends_or_hangs from_ hops hrest with hends | ⟨-, epoch, hlast⟩
  · exact hends
  obtain ⟨hold, hnew⟩ := h.lastSeq_open
  have hlt := h.lastSeq_lt
  have hsound := Sound.open_ h.live h.logged h.opened from_
  have htold : (log ++ (open_ l from_).unsent ++ l.pane.told (operations steps)).length ≤
      log.length + c := by
    rw [hops]
    simp only [open_, List.append_nil, List.length_append]
    omega
  have hmarks := (h.abreast from_).run hsound steps htold
  have hmem : .resync epoch ((open_ l from_).run steps).pane.lastSeq ∈
      ((open_ l from_).run steps).stream := by
    rw [Subscription.stream, List.append_assoc]
    exact List.mem_append_left _ (List.mem_of_getLast? hlast)
  have hsame := mark_backlog (hmarks.marks _ _ hmem)
  rw [(h.run from_ hops).1] at hsame
  omega

/-- If the ring has no room for all that is told, a follower that does not move before the end
comes too late. -/
theorem exists_doomed (h : Ending l c log ops) (from_ : Option Nat)
    (hc : min l.pane.replay.capacity wordMax ≤ c)
    (hfull : l.pane.lastSeq + c < (l.pane.performAll ops).lastSeq) :
    ∃ steps, operations steps = ops ∧ ((open_ l from_).run steps).Doomed := by
  obtain ⟨hops, hfollower, herrand⟩ := run_performs (open_ l from_) ops
  obtain ⟨n, hn⟩ := run_sends ((open_ l from_).run (ops.map .perform))
  have hall : operations (ops.map .perform ++ .replicate n .send) = ops := by
    rw [operations_append, hops, operations_sends, List.append_nil]
  refine ⟨_, hall, ?_⟩
  obtain ⟨hpane, sent, rest, hs, hu⟩ := h.run from_ hall
  obtain ⟨hold, hnew⟩ := h.lastSeq_open
  have hspace := h.space
  have hlogged := h.logged.tells (l.pane.tells_performAll ops)
  have hlost : l.pane.lastSeq < (l.pane.performAll ops).replay.evictedThrough := by
    refine hlogged.lost ?_
    rw [show (l.pane.performAll ops).speaker.replay.capacity = _ from
      l.pane.capacity_performAll ops, List.length_append]
    omega
  have hopened : (open_ l from_).follower = ⟨l.pane.epoch, l.pane.lastSeq, l.live.sent,
      Follower.backlog l.pane from_, false, [], true⟩ := by
    simp [open_, Follower.open_, h.opened]
  have hsent : l.live.sent = log.length := congrArg Ring.sent h.live
  rw [run_append, hn] at hpane hs hu ⊢
  have hunsent : sent = log ++ l.pane.told ops := by simpa using hu
  refine ⟨rfl, .inl ⟨herrand, ?_⟩⟩
  have hlive := hs.live
  simp only [hfollower, hopened] at hpane hlive ⊢
  refine ⟨trivial, trivial, ?_, ?_⟩
  · rw [hlive, Ring.oldest_window, hunsent, List.length_append, hsent]
    omega
  · rw [hpane]
    exact hlost

theorem exists_not_ends (h : Ending l c log ops) (from_ : Option Nat)
    (hc : min l.pane.replay.capacity wordMax ≤ c)
    (hfull : l.pane.lastSeq + c < (l.pane.performAll ops).lastSeq) :
    ∃ steps, operations steps = ops ∧ ((open_ l from_).run steps).atRest = true ∧
      ¬ ((open_ l from_).run steps).Ends := by
  obtain ⟨steps, hops, hdoomed⟩ := h.exists_doomed from_ hc hfull
  obtain ⟨-, sent, rest, hs, -⟩ := h.run from_ hops
  obtain ⟨more, hmore, hrest⟩ := exists_rest ((open_ l from_).run steps)
  have hlate := hdoomed.run hs hmore
  rw [← run_append] at hrest hlate
  have hall : operations (steps ++ more) = ops := by
    rw [operations_append, hops, hmore, List.append_nil]
  refine ⟨_, hall, hrest, ?_⟩
  rintro ⟨hstopped, hfinal⟩
  obtain ⟨hpane, sent, rest, hs, -⟩ := h.run from_ hall
  obtain ⟨epoch, hmark⟩ := hlate.mark_of_atRest hrest
  have hstream := hs.stream
  rw [hstream] at hmark
  have hnew : .resync epoch ((open_ l from_).run (steps ++ more)).pane.lastSeq ∈ rest := by
    refine (List.mem_append.mp hmark).resolve_left fun hold => ?_
    have hsame := mark_backlog hold
    have hlt := h.lastSeq_lt
    rw [hpane] at hsame
    omega
  have hbehind := not_event_of_mark hs.reads.unbroken hnew fun e he =>
    hs.logged.seq_le_last (hs.reads.told e he)
  rw [Subscription.stream, (atRest_iff.mp hrest).2.2, (hs.stopped hstopped).2, List.append_nil,
    List.append_nil] at hstream
  rw [hstream, List.getLast?_append_of_ne_nil _ (List.ne_nil_of_mem hnew), hbehind] at hfinal
  cases hfinal

end Ending

/-- A reader that takes all it gets sees every stream end with the event that ends the pane
exactly if the ring has room for all that the pane tells after the subscription. If it has not,
there are schedules on which the last that comes is a mark, and the follower waits for ever. -/
theorem ends_iff_room (id : PaneId) (backend : Backend) (metadata : Metadata)
    (capabilities : Capabilities) (epoch capacity : Nat) (before ops : List Pane.Operation)
    (from_ : Option Nat) :
    let l := (LivePane.create (Pane.create id backend metadata capabilities epoch
      capacity)).performAll before
    let q := l.pane.performAll ops
    l.pane.state.isTerminal = false → q.state.isTerminal = true → q.lastSeq < wordMax →
      ((∀ steps, operations steps = ops → ((open_ l from_).run steps).atRest = true →
          ((open_ l from_).run steps).Ends) ↔
        q.lastSeq ≤ l.pane.lastSeq + Ring.sizeFor (max capacity 1)) ∧
      (∀ steps, operations steps = ops → ((open_ l from_).run steps).atRest = true →
        ((open_ l from_).run steps).Ends ∨ ((open_ l from_).run steps).Hangs) ∧
      ∀ steps schedule, Fair schedule →
        ∃ n, ((open_ l from_).run (steps ++ (List.range n).map schedule)).atRest = true := by
  intro l q hopen hover hspace
  obtain ⟨hpane, hlog, hlive⟩ :=
    logged_performAll id backend metadata capabilities epoch capacity before
  have hending : Ending l _ _ ops := ⟨hlive, hlog, hopen, hover, hspace⟩
  have hcapacity : l.pane.replay.capacity = max capacity 1 := by
    rw [hpane, Pane.capacity_performAll]
    rfl
  refine ⟨⟨?_, ?_⟩, ?_, ?_⟩
  · intro hall
    by_contra hfull
    obtain ⟨steps, hops, hrest, hnot⟩ := hending.exists_not_ends from_
      (hcapacity ▸ Ring.le_sizeFor _) (Nat.lt_of_not_le hfull)
    exact hnot (hall steps hops hrest)
  · intro hroom steps hops hrest
    exact hending.ends_of_room from_ hroom hops hrest
  · intro steps hops hrest
    exact hending.ends_or_hangs from_ hops hrest
  · intro steps schedule hfair
    obtain ⟨n, hrest⟩ := ((open_ l from_).run steps).rest_of_fair hfair
    refine ⟨n, ?_⟩
    rw [run_append]
    exact hrest

def kill : Pane.Operation := .handle ⟨⟨"c1"⟩, none, ⟨"p1"⟩, .terminal .kill, 0⟩ 0

theorem ends_iff_room_kill :
    let l := (LivePane.create (terminal 2)).performAll [.start 0]
    l.pane.state.isTerminal = false ∧ (l.pane.performAll [kill]).state.isTerminal = true ∧
      (l.pane.performAll [kill]).lastSeq < wordMax ∧
      ∀ steps, operations steps = [kill] → ((open_ l none).run steps).atRest = true →
        ((open_ l none).run steps).Ends := by
  have hopen : ((LivePane.create (terminal 2)).performAll [.start 0]).pane.state.isTerminal =
      false := by decide +kernel
  have hover : (((LivePane.create (terminal 2)).performAll [.start 0]).pane.performAll
      [kill]).state.isTerminal = true := by decide +kernel
  have hspace : (((LivePane.create (terminal 2)).performAll [.start 0]).pane.performAll
      [kill]).lastSeq < wordMax := by decide +kernel
  obtain ⟨hroom, -, -⟩ := ends_iff_room ⟨"p1"⟩ (.create ⟨"p1"⟩ .terminal)
    ⟨none, none, none, none⟩ (.ofKind .terminal) 0 2 [.start 0] [kill] none hopen hover hspace
  exact ⟨hopen, hover, hspace, hroom.mpr (by decide +kernel)⟩

def overrun : List Step :=
  [.perform kill, .send, .send, .move, .move, .move, .move, .move, .read 1]

theorem not_always_ends : ¬ ∀ (id : PaneId) (backend : Backend) (metadata : Metadata)
    (capabilities : Capabilities) (epoch capacity : Nat) (before ops : List Pane.Operation)
    (from_ : Option Nat) (steps : List Step),
    let l := (LivePane.create (Pane.create id backend metadata capabilities epoch
      capacity)).performAll before
    1 ≤ capacity → l.pane.state.isTerminal = false →
      (l.pane.performAll ops).state.isTerminal = true → operations steps = ops →
      ((open_ l from_).run steps).atRest = true → ((open_ l from_).run steps).Ends := by
  intro h
  have hends := h ⟨"p1"⟩ (.create ⟨"p1"⟩ .terminal) ⟨none, none, none, none⟩ (.ofKind .terminal) 0 1
    [.start 0] [kill] none overrun (by decide) (by decide +kernel) (by decide +kernel) rfl
    (by decide +kernel)
  have hnot : ¬ ((open_ ((LivePane.create (terminal 1)).performAll [.start 0]) none).run
      overrun).Ends := by decide +kernel
  exact hnot hends

end Subscription

end Switchboard
