import Mathlib.Data.List.Induction
import Switchboard.Proofs.Replay.Window

/-!
# Histories

What one run of a source told goes into its history, which keeps the newest part of it. Which part
that is follows from the list of all that was told, and so does what a consumer gets back: of all
that is new to its cursor the kept part is handed out, and the rest is covered by a gap.
-/
namespace Switchboard

/-- The gap announces the loss of the envelope. -/
def DeliveryGap.Covers (g : DeliveryGap) (e : Envelope) : Prop :=
  g.source = e.source ∧ g.epoch = e.epoch ∧ e.seq ≤ g.lastSeq

instance (g : DeliveryGap) (e : Envelope) : Decidable (g.Covers e) :=
  inferInstanceAs (Decidable (_ ∧ _))

/-- One run of a source, and how much of what it tells is kept. -/
structure Voice where
  source : Source
  epoch : Nat
  capacity : Nat
  deriving DecidableEq

namespace ReplayBuffer

def window (source : Source) (capacity : Nat) (log : List Envelope) : ReplayBuffer where
  source
  capacity
  entries := log.drop (log.length - capacity)
  epoch := (log.getLast?.map Envelope.epoch).getD 0
  lastSeq := (log.getLast?.map Envelope.seq).getD 0
  evictedThrough := ((log.take (log.length - capacity)).getLast?.map Envelope.seq).getD 0
  totalEvicted := log.length - capacity

theorem create_eq_window (source : Source) (capacity : Nat) :
    create source capacity = window source (max capacity 1) [] := by
  simp [create, window]

theorem push_of_source_ne {b : ReplayBuffer} {e : Envelope} (h : e.source ≠ b.source) :
    b.push e = b := by
  simp only [push, append, if_pos h]

theorem source_store (b : ReplayBuffer) (e : Envelope) : (b.store e).1.source = b.source := by
  simp only [store]
  repeat' split
  all_goals rfl

theorem source_push (b : ReplayBuffer) (e : Envelope) : (b.push e).source = b.source := by
  simp only [push, append]
  by_cases hs : e.source ≠ b.source
  · rw [if_pos hs]
  by_cases hold : e.epoch < b.epoch
  · rw [if_neg hs, if_pos hold]
  by_cases hnew : b.epoch < e.epoch
  · rw [if_neg hs, if_neg hold, if_pos hnew]
    exact source_store (b.reset e.epoch) e
  by_cases hseq : e.seq ≤ b.lastSeq
  · rw [if_neg hs, if_neg hold, if_neg hnew, if_pos hseq]
  · rw [if_neg hs, if_neg hold, if_neg hnew, if_neg hseq]
    exact source_store b e

theorem capacity_push (b : ReplayBuffer) (e : Envelope) : (b.push e).capacity = b.capacity := by
  have hstore : ∀ b : ReplayBuffer, (b.store e).1.capacity = b.capacity := by
    intro b
    simp only [store]
    repeat' split
    all_goals rfl
  simp only [push, append]
  split
  · rfl
  · split
    · rfl
    · split
      · exact hstore (b.reset e.epoch)
      · split
        · rfl
        · exact hstore b

theorem capacity_foldl_push (b : ReplayBuffer) (es : List Envelope) :
    (es.foldl push b).capacity = b.capacity := by
  induction es generalizing b with
  | nil => rfl
  | cons e rest ih => rw [List.foldl_cons, ih, capacity_push]

theorem source_foldl_push (b : ReplayBuffer) (es : List Envelope) :
    (es.foldl push b).source = b.source := by
  induction es generalizing b with
  | nil => rfl
  | cons e rest ih => rw [List.foldl_cons, ih, source_push]

theorem store_window {source : Source} {capacity : Nat} (hc : 0 < capacity) {log : List Envelope}
    {e : Envelope} (he : ∀ l, log.getLast? = some l → l.epoch = e.epoch) (hl : log ≠ []) :
    ((window source capacity log).store e).1 = window source capacity (log ++ [e]) := by
  have hepoch : (log.getLast?.map Envelope.epoch).getD 0 = e.epoch := by
    rw [List.getLast?_eq_some_getLast hl, Option.map_some, Option.getD_some]
    exact he _ (List.getLast?_eq_some_getLast hl)
  by_cases hfull : capacity ≤ log.length
  · have hlt : log.length - capacity < log.length := by omega
    have hdrop : log.drop (log.length - capacity) =
        log[log.length - capacity] :: log.drop (log.length - capacity + 1) :=
      List.drop_eq_getElem_cons hlt
    have hsucc : (log ++ [e]).length - capacity = log.length - capacity + 1 := by
      simp only [List.length_append, List.length_cons, List.length_nil]
      omega
    have htake : (log ++ [e]).take (log.length - capacity + 1) =
        log.take (log.length - capacity) ++ [log[log.length - capacity]] := by
      rw [List.take_append_of_le_length (by omega), List.take_append_getElem hlt]
    have hlen : (log.drop (log.length - capacity)).length = capacity := by
      rw [List.length_drop]
      omega
    have hdropped : (log ++ [e]).drop (log.length - capacity + 1) =
        log.drop (log.length - capacity + 1) ++ [e] := List.drop_append_of_le_length (by omega)
    simp only [store, window, hdrop]
    rw [if_pos (by rw [← hdrop, hlen])]
    simp only [hsucc, hdropped, htake, hepoch, List.getLast?_concat, Option.map_some,
      Option.getD_some]
  · have h0 : log.length - capacity = 0 := by omega
    have h1 : (log ++ [e]).length - capacity = 0 := by
      simp only [List.length_append, List.length_cons, List.length_nil]
      omega
    rcases log with _ | ⟨old, rest⟩
    · exact absurd rfl hl
    · simp only [store, window, h0, h1, List.drop_zero, List.take_zero]
      rw [if_neg (by omega)]
      simp only [hepoch, List.getLast?_concat, Option.map_some, Option.getD_some]

theorem push_window {source : Source} {capacity : Nat} (hc : 0 < capacity) {log : List Envelope}
    {e : Envelope} (hs : e.source = source) (hpos : 1 ≤ e.seq)
    (he : ∀ l ∈ log, l.epoch = e.epoch ∧ l.seq < e.seq) :
    (window source capacity log).push e = window source capacity (log ++ [e]) := by
  have hs' : ¬ e.source ≠ (window source capacity log).source := fun h => h hs
  simp only [push, append, if_neg hs']
  by_cases hl : log = []
  · subst hl
    have h1 : 1 - capacity = 0 := by omega
    by_cases hz : e.epoch = 0
    · simp [window, store, hz, h1, show ¬ e.seq ≤ 0 by omega]
    · simp [window, store, reset, h1, show 0 < e.epoch by omega]
  · have hlast := List.getLast?_eq_some_getLast hl
    obtain ⟨hle, hls⟩ := he _ (List.getLast_mem hl)
    have hep : (window source capacity log).epoch = e.epoch := by
      simp only [window, hlast, Option.map_some, Option.getD_some, hle]
    have hsq : (window source capacity log).lastSeq < e.seq := by
      simpa only [window, hlast, Option.map_some, Option.getD_some] using hls
    rw [hep, if_neg (by omega), if_neg (by omega), if_neg (by omega)]
    refine store_window hc ?_ hl
    intro l h
    rw [hlast] at h
    cases h
    exact hle

theorem foldl_push_window {source : Source} {capacity epoch : Nat} (hc : 0 < capacity)
    {log : List Envelope} (h : Ordered log)
    (hown : ∀ e ∈ log, e.source = source ∧ e.epoch = epoch) :
    log.foldl push (window source capacity []) = window source capacity log := by
  induction log using List.reverseRecOn with
  | nil => rfl
  | append_singleton log e ih =>
    have he := hown e (by simp)
    have hlog : ∀ l ∈ log, l.source = source ∧ l.epoch = epoch :=
      fun l hl => hown l (List.mem_append_left _ hl)
    rw [List.foldl_append, ih (h.sublist (List.sublist_append_left _ _)) hlog]
    refine push_window hc he.1 (h.positive e (by simp)) ?_
    intro l hl
    have hle : l.epoch = e.epoch := (hlog l hl).2.trans he.2.symm
    have hb := (List.pairwise_append.mp h.grows).2.2 l hl e (by simp)
      ((hlog l hl).1.trans he.1.symm)
    rw [Stamp.before_iff] at hb
    refine ⟨hle, ?_⟩
    rcases hb with hb | hb
    · exact absurd hle (Nat.ne_of_lt hb)
    · exact hb.2

end ReplayBuffer

theorem Cursor.isNew_iff {c : Cursor} {e : Envelope} :
    c.isNew e = true ↔ ∀ stamp, c.last? e.source = some stamp → stamp.before e.stamp = true := by
  simp only [isNew]
  cases c.last? e.source with
  | none => simp
  | some stamp => simp

namespace Voice

variable {told : List Envelope} (v : Voice)

def owns (e : Envelope) : Bool := decide (e.source = v.source ∧ e.epoch = v.epoch)

def size : Nat := max v.capacity 1

def spoken (told : List Envelope) : List Envelope := told.filter v.owns

def history (told : List Envelope) : ReplayBuffer :=
  (v.spoken told).foldl ReplayBuffer.push (.create v.source v.capacity)

def kept (told : List Envelope) : List Envelope :=
  (v.spoken told).drop ((v.spoken told).length - v.size)

def dropped (told : List Envelope) : List Envelope :=
  (v.spoken told).take ((v.spoken told).length - v.size)

theorem mem_spoken {e : Envelope} :
    e ∈ v.spoken told ↔ e ∈ told ∧ e.source = v.source ∧ e.epoch = v.epoch := by
  simp [spoken, owns]

theorem spoken_append (told more : List Envelope) :
    v.spoken (told ++ more) = v.spoken told ++ v.spoken more := List.filter_append _ _

theorem spoken_forward {front before behind : List Envelope} {e : Envelope}
    (hne : ∀ b ∈ before, b.source ≠ e.source) :
    v.spoken (front ++ e :: (before ++ behind)) = v.spoken (front ++ (before ++ e :: behind)) := by
  by_cases ho : v.owns e = true
  · have hbefore : before.filter v.owns = [] := by
      rw [List.filter_eq_nil_iff]
      intro b hb hob
      simp only [owns, decide_eq_true_eq] at ho hob
      exact hne b hb (hob.1.trans ho.1.symm)
    simp [spoken, ho, hbefore]
  · simp [spoken, ho]

theorem dropped_append_kept (told : List Envelope) :
    v.dropped told ++ v.kept told = v.spoken told := List.take_append_drop _ _

theorem ordered_spoken (h : Ordered told) : Ordered (v.spoken told) :=
  h.sublist List.filter_sublist

theorem source_history : (v.history told).source = v.source :=
  ReplayBuffer.source_foldl_push _ _

theorem history_eq_window (h : Ordered told) :
    v.history told = .window v.source v.size (v.spoken told) := by
  rw [history, ReplayBuffer.create_eq_window]
  have hown : ∀ e ∈ v.spoken told, e.source = v.source ∧ e.epoch = v.epoch :=
    fun e he => (v.mem_spoken.mp he).2
  exact ReplayBuffer.foldl_push_window (by omega) (v.ordered_spoken h) hown

theorem entries_history (h : Ordered told) : (v.history told).entries = v.kept told := by
  rw [v.history_eq_window h]
  rfl

theorem dropped_append (told more : List Envelope) :
    v.dropped told <+: v.dropped (told ++ more) := by
  have hlen : (v.spoken told).length - v.size ≤ (v.spoken (told ++ more)).length - v.size := by
    rw [spoken_append, List.length_append]
    omega
  have hprefix := (List.take_prefix ((v.spoken told).length - v.size) (v.spoken told)).trans
    (List.prefix_append (v.spoken told) (v.spoken more))
  rw [← spoken_append] at hprefix
  refine List.prefix_of_prefix_length_le hprefix (List.take_prefix _ _) ?_
  rw [dropped, dropped, List.length_take, List.length_take]
  omega

theorem mem_kept_of_append {more : List Envelope} (h : Ordered (told ++ more)) {e : Envelope}
    (he : e ∈ told) (hk : e ∈ v.kept (told ++ more)) : e ∈ v.kept told := by
  have hown := (v.mem_spoken.mp (List.mem_of_mem_drop hk)).2
  have hsp : e ∈ v.dropped told ++ v.kept told := by
    rw [v.dropped_append_kept]
    exact v.mem_spoken.mpr ⟨he, hown⟩
  refine (List.mem_append.mp hsp).resolve_left ?_
  intro hd
  have hn := (v.ordered_spoken h).nodup
  rw [← v.dropped_append_kept] at hn
  exact (List.nodup_append.mp hn).2.2 e ((v.dropped_append told more).subset hd) e hk rfl

theorem getLast?_kept : (v.kept told).getLast? = (v.spoken told).getLast? := by
  by_cases hn : v.spoken told = []
  · simp [kept, hn]
  · have hpos : 0 < (v.spoken told).length := List.length_pos_iff.mpr hn
    have hsize : 1 ≤ v.size := Nat.le_max_right _ _
    rw [kept, List.getLast?_drop, if_neg (by omega)]

theorem epoch_history (h : Ordered told) (hne : v.spoken told ≠ []) :
    (v.history told).epoch = v.epoch := by
  rw [v.history_eq_window h]
  simp only [ReplayBuffer.window, List.getLast?_eq_some_getLast hne, Option.map_some,
    Option.getD_some]
  exact (v.mem_spoken.mp (List.getLast_mem hne)).2.2

theorem recoverAfter_history (h : Ordered told) (c : Cursor) (k : Nat)
    (hk : ∀ e ∈ v.spoken told, (c.isNew e = true ↔ k < e.seq)) :
    (v.history told).recoverAfter k =
      ⟨(v.kept told).filter c.isNew,
        ((v.dropped told).getLast?.filter c.isNew).map fun e => ⟨e.source, e.epoch, e.seq⟩⟩ := by
  have hkept : (v.kept told).filter (fun e => decide (k < e.seq)) =
      (v.kept told).filter c.isNew := by
    apply List.filter_congr
    intro e he
    have := hk e (List.mem_of_mem_drop he)
    by_cases hn : c.isNew e = true
    · simp [hn, this.mp hn]
    · simp [hn, show ¬ k < e.seq from fun hlt => hn (this.mpr hlt)]
  have hevicted : (v.history told).evictedThrough =
      ((v.dropped told).getLast?.map Envelope.seq).getD 0 := by
    rw [v.history_eq_window h]
    rfl
  have hepoch : ∀ l ∈ v.dropped told, (v.history told).epoch = l.epoch := by
    intro l hl
    have hsp : l ∈ v.spoken told := List.mem_of_mem_take hl
    exact (v.epoch_history h (List.ne_nil_of_mem hsp)).trans (v.mem_spoken.mp hsp).2.2.symm
  simp only [ReplayBuffer.recoverAfter, ReplayBuffer.after, v.entries_history h, hkept, hevicted,
    v.source_history, Recovery.mk.injEq, true_and]
  cases hl : (v.dropped told).getLast? with
  | none => simp
  | some l =>
    have hmem : l ∈ v.dropped told := List.mem_of_getLast? hl
    have hsp : l ∈ v.spoken told := List.mem_of_mem_take hmem
    simp only [Option.map_some, Option.getD_some, hepoch l hmem]
    by_cases hlt : k < l.seq
    · rw [if_pos hlt, Option.filter_some_pos ((hk l hsp).mpr hlt), Option.map_some,
        (v.mem_spoken.mp hsp).2.1]
    · have hn : ¬ c.isNew l = true := fun hn => hlt ((hk l hsp).mp hn)
      rw [if_neg hlt, Option.filter_some_neg (by simpa using hn), Option.map_none]

theorem recover_of_silent (h : Ordered told) (hnil : v.spoken told = []) (stamp : Option Stamp) :
    (v.history told).recover stamp = .nothing := by
  have hafter : ∀ k, (ReplayBuffer.window v.source v.size []).recoverAfter k = .nothing := by
    intro k
    simp [ReplayBuffer.recoverAfter, ReplayBuffer.after, ReplayBuffer.window, Recovery.nothing]
  rw [v.history_eq_window h, hnil]
  simp only [ReplayBuffer.recover, hafter]
  repeat' split
  all_goals rfl

theorem isNew_iff_of_spoken {c : Cursor} {e : Envelope} (he : e ∈ v.spoken told) :
    c.isNew e = true ↔ ∀ stamp, c.last? v.source = some stamp →
      stamp.epoch < v.epoch ∨ stamp.epoch = v.epoch ∧ stamp.seq < e.seq := by
  obtain ⟨-, hs, hv⟩ := v.mem_spoken.mp he
  rw [Cursor.isNew_iff, hs]
  simp only [Stamp.before_iff]
  rw [← hv]
  rfl

theorem nothing_of_not_isNew {c : Cursor} (h : ∀ e ∈ v.spoken told, ¬ c.isNew e = true) :
    Recovery.nothing = ⟨(v.kept told).filter c.isNew,
      ((v.dropped told).getLast?.filter c.isNew).map fun e => ⟨e.source, e.epoch, e.seq⟩⟩ := by
  have hkept : (v.kept told).filter c.isNew = [] :=
    List.filter_eq_nil_iff.mpr fun e he => h e (List.mem_of_mem_drop he)
  have hdropped : (v.dropped told).getLast?.filter c.isNew = none := by
    cases hl : (v.dropped told).getLast? with
    | none => rfl
    | some l =>
      refine Option.filter_some_neg ?_
      simpa using h l (List.mem_of_mem_take (List.mem_of_getLast? hl))
  rw [hkept, hdropped]
  rfl

/-- A refill hands out what is kept and new to the cursor, and announces the newest of what is
gone, if that is new to the cursor. -/
theorem recover_history (h : Ordered told) (c : Cursor) :
    (v.history told).recover (c.last? v.source) =
      ⟨(v.kept told).filter c.isNew,
        ((v.dropped told).getLast?.filter c.isNew).map fun e => ⟨e.source, e.epoch, e.seq⟩⟩ := by
  by_cases hnil : v.spoken told = []
  · rw [v.recover_of_silent h hnil]
    exact v.nothing_of_not_isNew fun e he => by simp [hnil] at he
  have hpos : ∀ e ∈ v.spoken told, 0 < e.seq := (v.ordered_spoken h).positive
  cases hc : c.last? v.source with
  | none =>
    refine v.recoverAfter_history h c 0 ?_
    intro e he
    simp [v.isNew_iff_of_spoken he, hc, hpos e he]
  | some stamp =>
    simp only [ReplayBuffer.recover, v.epoch_history h hnil]
    by_cases heq : stamp.epoch = v.epoch
    · rw [if_pos heq]
      refine v.recoverAfter_history h c stamp.seq ?_
      intro e he
      simp [v.isNew_iff_of_spoken he, hc, heq]
    rw [if_neg heq]
    by_cases hlt : v.epoch < stamp.epoch
    · rw [if_pos hlt]
      refine v.nothing_of_not_isNew ?_
      intro e he hn
      have := (v.isNew_iff_of_spoken he).mp hn stamp hc
      omega
    · rw [if_neg hlt]
      refine v.recoverAfter_history h c 0 ?_
      intro e he
      have hsm : stamp.epoch < v.epoch := by omega
      simp [v.isNew_iff_of_spoken he, hc, hsm, hpos e he]

end Voice

end Switchboard
