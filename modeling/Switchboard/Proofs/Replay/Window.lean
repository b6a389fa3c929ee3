import Mathlib.Data.List.Pairwise
import Switchboard.Intake
import Switchboard.Ring

/-!
# Windows on what was told

A broadcast ring and a history both show the newest part of a list that only grows: the ring that
of all messages sent, a history that of what one run of a source told. Here both are computed from
the whole list, so that what a receiver gets and what a refill hands out can be said in terms of
the list alone. A receiver gets the list in order from its place on, or learns that its place has
left the window; a refill splits what is new to its cursor into a part handed out and a part
announced as lost.
-/
namespace Switchboard

namespace Ring

variable {α : Type}

def window (capacity : Nat) (log : List α) : Ring α :=
  ⟨capacity, log.length, log.drop (log.length - capacity)⟩

theorem create_eq_window (n : Nat) : (create n : Ring α) = window (sizeFor n) [] := by
  simp [create, window]

theorem send_window (c : Nat) (log : List α) (a : α) :
    (window c log).send a = window c (log ++ [a]) := by
  have hkept : (log.drop (log.length - c) ++ [a]).drop
      ((log.drop (log.length - c) ++ [a]).length - c) =
        (log ++ [a]).drop ((log ++ [a]).length - c) := by
    by_cases hc : log.length < c
    · have h0 : log.length - c = 0 := by omega
      rw [h0, List.drop_zero]
    · rw [← List.drop_append_of_le_length (by omega), List.drop_drop]
      congr 1
      simp only [List.length_drop, List.length_append, List.length_cons, List.length_nil]
      omega
  simp only [send, window, Ring.mk.injEq, true_and]
  exact ⟨by simp, hkept⟩

theorem foldl_send_window (c : Nat) (log more : List α) :
    more.foldl send (window c log) = window c (log ++ more) := by
  induction more generalizing log with
  | nil => rw [List.append_nil]; rfl
  | cons a rest ih => rw [List.foldl_cons, send_window, ih, List.append_assoc]; rfl

theorem oldest_window (c : Nat) (log : List α) : (window c log).oldest = log.length - c := by
  simp only [oldest, window, List.length_drop]
  omega

theorem drop_drop_window (c : Nat) (log : List α) {next : Nat} (h : log.length - c ≤ next) :
    (log.drop (log.length - c)).drop (next - (log.length - c)) = log.drop next := by
  rw [List.drop_drop]
  congr 1
  omega

theorem receive_window_message {c : Nat} {log : List α} {next : Nat} {a : α}
    (ha : log[next]? = some a) (h : log.length - c ≤ next) :
    (window c log).receive next = (.message a, next + 1) := by
  have hlt : next < log.length := (List.getElem?_eq_some_iff.mp ha).1
  have hget : (log.drop (log.length - c))[next - (log.length - c)]? = some a := by
    rw [List.getElem?_drop, ← ha]
    congr 1
    omega
  simp only [receive, oldest_window]
  rw [if_neg (by simpa [window] using hlt), if_neg (by omega)]
  simp only [window, hget]

theorem receive_window_lagged {c : Nat} {log : List α} {next : Nat} (h : next < log.length - c) :
    (window c log).receive next = (.lagged (log.length - c - next), log.length - c) := by
  simp only [receive, oldest_window]
  rw [if_neg (by simp only [window]; omega), if_pos h]

theorem receive_window_empty {c : Nat} {log : List α} {next : Nat} (h : log.length ≤ next) :
    (window c log).receive next = (.empty, next) := by
  simp only [receive]
  rw [if_pos (by simpa [window] using h)]

theorem outstanding_window {c : Nat} {log : List α} {next : Nat} (h : log.length - c ≤ next) :
    (window c log).outstanding next = (log.drop next).map .message := by
  simp only [outstanding, oldest_window]
  by_cases hn : log.length ≤ next
  · rw [if_pos (by simpa [window] using hn), List.drop_eq_nil_of_le hn, List.map_nil]
  · rw [if_neg (by simpa [window] using hn), if_neg (by omega)]
    simp only [window]
    rw [drop_drop_window c log h]

theorem outstanding_window_lagged {c : Nat} {log : List α} {next : Nat}
    (h : next < log.length - c) :
    (window c log).outstanding next =
      .lagged (log.length - c - next) :: (log.drop (log.length - c)).map .message := by
  simp only [outstanding, oldest_window]
  rw [if_neg (by simp only [window]; omega), if_pos h]
  simp only [window]

end Ring

namespace Stamp

theorem not_before_iff {a b : Stamp} : a.before b = false ↔ b.before a = true ∨ a = b := by
  rcases a with ⟨ea, sa⟩
  rcases b with ⟨eb, sb⟩
  simp only [before, Bool.or_eq_false_iff, Bool.and_eq_false_iff, Bool.or_eq_true,
    Bool.and_eq_true, decide_eq_true_eq, decide_eq_false_iff_not, beq_iff_eq, Stamp.mk.injEq,
    beq_eq_false_iff_ne]
  omega

theorem before_asymm {a b : Stamp} (h : a.before b = true) : ¬ b.before a = true := by
  intro hb
  have hirr := before_trans h hb
  rw [before_irrefl] at hirr
  cases hirr

theorem before_of_not_before {a b c : Stamp} (hba : b.before a = false) (hbc : b.before c = true) :
    a.before c = true := by
  rcases not_before_iff.mp hba with h | h
  · exact before_trans h hbc
  · exact h ▸ hbc

end Stamp

def toldBy (source : Source) (told : List Envelope) : List Envelope :=
  told.filter (·.source = source)

section ToldBy

variable {source : Source} {told : List Envelope} {e : Envelope}

theorem mem_toldBy : e ∈ toldBy source told ↔ e ∈ told ∧ e.source = source := by
  rw [toldBy, List.mem_filter, decide_eq_true_iff]

theorem toldBy_append (source : Source) (told more : List Envelope) :
    toldBy source (told ++ more) = toldBy source told ++ toldBy source more :=
  List.filter_append ..

theorem toldBy_cons_self (h : e.source = source) (rest : List Envelope) :
    toldBy source (e :: rest) = e :: toldBy source rest :=
  List.filter_cons_of_pos (decide_eq_true h)

theorem toldBy_cons_of_ne (h : e.source ≠ source) (rest : List Envelope) :
    toldBy source (e :: rest) = toldBy source rest :=
  List.filter_cons_of_neg (by simpa using h)

theorem toldBy_eq_self (h : ∀ e ∈ told, e.source = source) : toldBy source told = told :=
  List.filter_eq_self.mpr fun e he => decide_eq_true (h e he)

end ToldBy

/-- The stamps of each source grow along the list, from number 1 on. -/
structure Ordered (told : List Envelope) : Prop where
  grows : told.Pairwise fun a b => a.source = b.source → a.stamp.before b.stamp = true
  positive : ∀ e ∈ told, 1 ≤ e.seq

namespace Ordered

theorem nil : Ordered [] := ⟨.nil, by simp⟩

theorem sublist {told part : List Envelope} (h : Ordered told) (hs : part.Sublist told) :
    Ordered part :=
  ⟨h.grows.sublist hs, fun e he => h.positive e (hs.subset he)⟩

theorem nodup {told : List Envelope} (h : Ordered told) : told.Nodup := by
  refine h.grows.imp ?_
  rintro a b hab rfl
  have := hab rfl
  rw [Stamp.before_irrefl] at this
  cases this

theorem append {told more : List Envelope} (h : Ordered told) (hm : Ordered more)
    (hnew : ∀ a ∈ told, ∀ b ∈ more, a.source = b.source → a.stamp.before b.stamp = true) :
    Ordered (told ++ more) := by
  refine ⟨List.pairwise_append.mpr ⟨h.grows, hm.grows, hnew⟩, ?_⟩
  intro e he
  rcases List.mem_append.mp he with he | he
  · exact h.positive e he
  · exact hm.positive e he

theorem before_of_take_drop {told : List Envelope} (h : Ordered told) (n : Nat) {a b : Envelope}
    (ha : a ∈ told.take n) (hb : b ∈ told.drop n) (hs : a.source = b.source) :
    a.stamp.before b.stamp = true := by
  have hg := h.grows
  rw [← List.take_append_drop n told] at hg
  exact (List.pairwise_append.mp hg).2.2 a ha b hb hs

theorem mem_take_of_before {told : List Envelope} (h : Ordered told) {n : Nat} {a e : Envelope}
    (he : told[n]? = some e) (ha : a ∈ told) (hs : a.source = e.source)
    (hb : a.stamp.before e.stamp = true) : a ∈ told.take n := by
  rw [← List.take_append_drop n told, List.mem_append] at ha
  refine ha.resolve_right fun ha => ?_
  have hord : Ordered (told.drop n) := h.sublist (List.drop_sublist _ _)
  obtain ⟨hn, rfl⟩ := List.getElem?_eq_some_iff.mp he
  rw [List.drop_eq_getElem_cons hn] at ha hord
  rcases List.mem_cons.mp ha with rfl | ha
  · exact Stamp.before_asymm hb hb
  · exact Stamp.before_asymm hb ((List.pairwise_cons.mp hord.grows).1 a ha hs.symm)

theorem forward {front before behind : List Envelope} {e : Envelope}
    (h : Ordered (front ++ (before ++ e :: behind))) (hne : ∀ b ∈ before, b.source ≠ e.source) :
    Ordered (front ++ e :: (before ++ behind)) := by
  have hmem : ∀ a, a ∈ e :: (before ++ behind) ↔ a ∈ before ++ e :: behind :=
    fun a => List.perm_middle.mem_iff.symm
  obtain ⟨hfront, hrest, hcross⟩ := List.pairwise_append.mp h.grows
  obtain ⟨-, hbehind, -⟩ := List.pairwise_append.mp hrest
  refine ⟨List.pairwise_append.mpr ⟨hfront, List.pairwise_cons.mpr ⟨?_, ?_⟩, ?_⟩, ?_⟩
  · intro b hb hs
    rcases List.mem_append.mp hb with hb | hb
    · exact absurd hs.symm (hne b hb)
    · exact (List.pairwise_cons.mp hbehind).1 b hb hs
  · exact hrest.sublist ((List.sublist_cons_self _ _).append_left _)
  · exact fun a ha b hb => hcross a ha b ((hmem b).mp hb)
  · intro a ha
    rw [List.mem_append, hmem, ← List.mem_append] at ha
    exact h.positive a ha

theorem eq_or_before_getLast {told : List Envelope} (h : Ordered told) {a l : Envelope}
    (ha : a ∈ told) (hl : told.getLast? = some l) :
    a = l ∨ (a.source = l.source → a.stamp.before l.stamp = true) := by
  obtain ⟨older, rfl⟩ := List.getLast?_eq_some_iff.mp hl
  rcases List.mem_append.mp ha with ha | ha
  · exact .inr ((List.pairwise_append.mp h.grows).2.2 a ha l (by simp))
  · exact .inl (List.mem_singleton.mp ha)

theorem eq_of_stamp {told : List Envelope} (h : Ordered told) {a b : Envelope} (ha : a ∈ told)
    (hb : b ∈ told) (hs : a.source = b.source) (ht : a.stamp = b.stamp) : a = b := by
  by_contra hne
  have hsym : Std.Symm fun a b : Envelope => a.source = b.source → a.stamp ≠ b.stamp :=
    ⟨fun a b hab hs ht => hab hs.symm ht.symm⟩
  have hg : told.Pairwise fun a b => a.source = b.source → a.stamp ≠ b.stamp := by
    refine h.grows.imp ?_
    intro a b hab hs ht
    have := hab hs
    rw [ht, Stamp.before_irrefl] at this
    cases this
  exact hg.forall ha hb hne hs ht

end Ordered

end Switchboard
