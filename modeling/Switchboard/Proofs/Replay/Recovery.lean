import Switchboard.Proofs.Replay.History

/-!
# What a history answers for

A history accepts what its source tells in stamps that only grow, and forgets the older epochs when
a newer one begins. Its answers are compared here with the list of everything it accepted in its
present epoch: a request gets all that it asks for or learns of a gap, and a recovery parts what the
consumer has not seen into what it still gets and what it is told to be lost.
-/
namespace Switchboard

namespace ReplayBuffer

variable {b : ReplayBuffer} {told : List Envelope} {e : Envelope}

def accepted (b : ReplayBuffer) : List Envelope → List Envelope
  | [] => []
  | e :: rest =>
    match b.append e with
    | (b, .ok _) => e :: b.accepted rest
    | (b, .error _) => b.accepted rest

/-- Those of them that belong to the epoch in which the history is then. -/
def current (b : ReplayBuffer) (calls : List Envelope) : List Envelope :=
  (b.accepted calls).filter (·.epoch = (calls.foldl push b).epoch)

theorem append_cases (b : ReplayBuffer) (e : Envelope) :
    (∃ err, b.append e = (b, .error err)) ∧
        ¬ (e.source = b.source ∧ (b.epoch < e.epoch ∨ e.epoch = b.epoch ∧ b.lastSeq < e.seq)) ∨
      e.source = b.source ∧ b.epoch < e.epoch ∧
        b.append e = ((b.reset e.epoch).store e).map id .ok ∨
      e.source = b.source ∧ e.epoch = b.epoch ∧ b.lastSeq < e.seq ∧
        b.append e = (b.store e).map id .ok := by
  simp only [append]
  by_cases hs : e.source ≠ b.source
  · rw [if_pos hs]
    exact .inl ⟨⟨_, rfl⟩, fun h => hs h.1⟩
  rw [if_neg hs]
  have hs' : e.source = b.source := not_not.mp hs
  by_cases hold : e.epoch < b.epoch
  · rw [if_pos hold]
    refine .inl ⟨⟨_, rfl⟩, ?_⟩
    rintro ⟨-, h⟩
    omega
  rw [if_neg hold]
  by_cases hnew : b.epoch < e.epoch
  · rw [if_pos hnew]
    exact .inr (.inl ⟨hs', hnew, rfl⟩)
  rw [if_neg hnew]
  by_cases hseq : e.seq ≤ b.lastSeq
  · rw [if_pos hseq]
    refine .inl ⟨⟨_, rfl⟩, ?_⟩
    rintro ⟨-, h⟩
    omega
  · rw [if_neg hseq]
    exact .inr (.inr ⟨hs', by omega, by omega, rfl⟩)

theorem push_of_error {err : ReplayError} (h : (b.append e).2 = .error err) : b.push e = b := by
  rcases b.append_cases e with ⟨⟨err, ha⟩, -⟩ | ⟨-, -, ha⟩ | ⟨-, -, -, ha⟩
  · exact congrArg Prod.fst ha
  · rw [ha] at h
    cases h
  · rw [ha] at h
    cases h

theorem push_of_ok {out : ReplayBuffer × Option Envelope} (h : b.append e = out.map id .ok) :
    b.push e = out.1 := by
  rw [push, h]
  rfl

theorem accepted_of_error {b' : ReplayBuffer} {err : ReplayError}
    (h : b.append e = (b', .error err)) : b.accepted [e] = [] := by
  simp only [accepted, h]

theorem accepted_of_ok {evicted : Option Envelope} (h : (b.append e).2 = .ok evicted) :
    b.accepted [e] = [e] := by
  rw [accepted]
  rcases hanswer : b.append e with ⟨b', err | out⟩
  · rw [hanswer] at h
    cases h
  · rfl

theorem accepted_append (b : ReplayBuffer) (calls more : List Envelope) :
    b.accepted (calls ++ more) = b.accepted calls ++ (calls.foldl push b).accepted more := by
  induction calls generalizing b with
  | nil => rfl
  | cons e rest ih =>
    simp only [List.cons_append, accepted, List.foldl_cons]
    have hpush : b.push e = (b.append e).1 := rfl
    rcases hanswer : b.append e with ⟨b', err | out⟩
    · rw [hpush, hanswer]
      exact ih b'
    · rw [hpush, hanswer]
      exact congrArg (e :: ·) (ih b')

theorem epoch_store (b : ReplayBuffer) (e : Envelope) : (b.store e).1.epoch = b.epoch := by
  simp only [store]
  repeat' split
  all_goals rfl

theorem lastSeq_store (b : ReplayBuffer) (e : Envelope) : (b.store e).1.lastSeq = e.seq := by
  simp only [store]
  repeat' split
  all_goals rfl

theorem store_congr {w : ReplayBuffer} (hc : b.capacity = w.capacity)
    (hent : b.entries = w.entries) (hev : b.evictedThrough = w.evictedThrough) (e : Envelope) :
    (b.store e).1.capacity = b.capacity ∧ (b.store e).1.entries = (w.store e).1.entries ∧
      (b.store e).1.evictedThrough = (w.store e).1.evictedThrough := by
  rcases b with ⟨source, capacity, entries, epoch, lastSeq, through, total⟩
  subst hc hent hev
  simp only [store]
  cases w.entries with
  | nil => exact ⟨rfl, rfl, rfl⟩
  | cons old rest =>
    simp only
    split
    · exact ⟨rfl, rfl, rfl⟩
    · exact ⟨rfl, rfl, rfl⟩

theorem seq_le_last {told : List Envelope} (hg : told.Pairwise fun a b => a.seq < b.seq)
    {e : Envelope} (he : e ∈ told) : e.seq ≤ (told.getLast?.map Envelope.seq).getD 0 := by
  have hne : told ≠ [] := List.ne_nil_of_mem he
  rw [List.getLast?_eq_some_getLast hne, Option.map_some, Option.getD_some]
  rw [← List.dropLast_concat_getLast hne] at hg he
  rcases List.mem_append.mp he with he | he
  · exact Nat.le_of_lt ((List.pairwise_append.mp hg).2.2 e he _ List.mem_cons_self)
  · exact Nat.le_of_eq (congrArg Envelope.seq (List.mem_singleton.mp he))

/-- The list is what the history accepted in its present epoch, and the newest part of it is
kept. -/
structure Recalls (b : ReplayBuffer) (told : List Envelope) : Prop where
  room : 0 < b.capacity
  own : ∀ e ∈ told, e.source = b.source ∧ e.epoch = b.epoch
  grows : told.Pairwise fun a b => a.seq < b.seq
  last : b.lastSeq = (told.getLast?.map Envelope.seq).getD 0
  entries : b.entries = told.drop (told.length - b.capacity)
  evicted : b.evictedThrough =
    ((told.take (told.length - b.capacity)).getLast?.map Envelope.seq).getD 0

namespace Recalls

theorem create (source : Source) (capacity : Nat) : (create source capacity).Recalls [] where
  room := Nat.le_max_right _ _
  own e he := by cases he
  grows := .nil
  last := rfl
  entries := by simp [ReplayBuffer.create]
  evicted := by simp [ReplayBuffer.create]

theorem reset (h : b.Recalls told) (epoch : Nat) : (b.reset epoch).Recalls [] where
  room := h.room
  own e he := by cases he
  grows := .nil
  last := rfl
  entries := by simp [ReplayBuffer.reset]
  evicted := by simp [ReplayBuffer.reset]

theorem store (h : b.Recalls told) (hs : e.source = b.source) (he : e.epoch = b.epoch)
    (hnew : ∀ a ∈ told, a.seq < e.seq) : (b.store e).1.Recalls (told ++ [e]) := by
  have hwindow : (b.store e).1.capacity = b.capacity ∧
      (b.store e).1.entries = (window b.source b.capacity (told ++ [e])).entries ∧
      (b.store e).1.evictedThrough =
        (window b.source b.capacity (told ++ [e])).evictedThrough := by
    by_cases hnil : told = []
    · subst hnil
      have hroom := h.room
      have hz : 1 - b.capacity = 0 := by omega
      have hempty : b.entries = [] := by simpa using h.entries
      have hzero : b.evictedThrough = 0 := by simpa using h.evicted
      simp only [ReplayBuffer.store, hempty]
      simp [window, hz, hzero]
    · have hepoch : ∀ l, told.getLast? = some l → l.epoch = e.epoch :=
        fun l hl => ((h.own l (List.mem_of_getLast? hl)).2).trans he.symm
      rw [← store_window h.room hepoch hnil]
      have hkept : b.entries = (window b.source b.capacity told).entries := h.entries
      have hgone : b.evictedThrough = (window b.source b.capacity told).evictedThrough := h.evicted
      exact store_congr (b := b) (w := window b.source b.capacity told) rfl hkept hgone e
  obtain ⟨hcap, hentries, hevicted⟩ := hwindow
  refine ⟨hcap ▸ h.room, ?_, ?_, ?_, hcap ▸ hentries, hcap ▸ hevicted⟩
  · intro a ha
    rw [source_store, epoch_store]
    rcases List.mem_append.mp ha with ha | ha
    · exact h.own a ha
    · rw [List.mem_singleton.mp ha]
      exact ⟨hs, he⟩
  · refine List.pairwise_append.mpr ⟨h.grows, List.pairwise_singleton _ _, ?_⟩
    intro a ha x hx
    rw [List.mem_singleton.mp hx]
    exact hnew a ha
  · rw [lastSeq_store, List.getLast?_concat]
    rfl

theorem le_lastSeq (h : b.Recalls told) (he : e ∈ told) : e.seq ≤ b.lastSeq :=
  h.last ▸ seq_le_last h.grows he

theorem parts (h : b.Recalls told) : ∃ gone, told = gone ++ b.entries ∧
    (∀ a ∈ gone, ∀ e ∈ b.entries, a.seq < e.seq) ∧
    (∀ a ∈ gone, a ∉ b.entries ∧ a.seq ≤ b.evictedThrough) ∧
    (b.evictedThrough = 0 ∨ ∃ l ∈ gone, l.seq = b.evictedThrough) := by
  have hsplit : told = told.take (told.length - b.capacity) ++ b.entries := by
    rw [h.entries, List.take_append_drop]
  have hev := h.evicted
  generalize told.take (told.length - b.capacity) = gone at hsplit hev
  have hg := h.grows
  rw [hsplit] at hg
  obtain ⟨hgone, -, hcross⟩ := List.pairwise_append.mp hg
  refine ⟨gone, hsplit, hcross, ?_, ?_⟩
  · intro a ha
    refine ⟨fun hk => Nat.lt_irrefl _ (hcross a ha a hk), ?_⟩
    rw [hev]
    exact seq_le_last hgone ha
  · cases hl : gone.getLast? with
    | none =>
      rw [hl] at hev
      exact .inl hev
    | some l =>
      rw [hl] at hev
      exact .inr ⟨l, List.mem_of_getLast? hl, hev.symm⟩

theorem push_newer (h : b.Recalls told) (hs : e.source = b.source) (hlt : b.epoch < e.epoch) :
    (b.push e).Recalls [e] := by
  rcases b.append_cases e with ⟨-, hn⟩ | ⟨-, -, ha⟩ | ⟨-, he, -, -⟩
  · exact absurd ⟨hs, .inl hlt⟩ hn
  · rw [push_of_ok ha]
    have hstored := (h.reset e.epoch).store (e := e) hs rfl (by simp)
    exact hstored
  · omega

theorem push_next (h : b.Recalls told) (hs : e.source = b.source) (he : e.epoch = b.epoch)
    (hlt : b.lastSeq < e.seq) : (b.push e).Recalls (told ++ [e]) := by
  rcases b.append_cases e with ⟨-, hn⟩ | ⟨-, hnew, -⟩ | ⟨-, -, -, ha⟩
  · exact absurd ⟨hs, .inr ⟨he, hlt⟩⟩ hn
  · omega
  · rw [push_of_ok ha]
    exact h.store hs he fun a hmem => Nat.lt_of_le_of_lt (h.le_lastSeq hmem) hlt

theorem push (h : b.Recalls told) (e : Envelope) :
    b.accepted [e] = [] ∧ b.push e = b ∨
      b.accepted [e] = [e] ∧ b.epoch < e.epoch ∧ (b.push e).Recalls [e] ∨
      b.accepted [e] = [e] ∧ e.epoch = b.epoch ∧ (b.push e).Recalls (told ++ [e]) := by
  rcases b.append_cases e with ⟨⟨err, ha⟩, -⟩ | ⟨hs, hlt, ha⟩ | ⟨hs, he, hlt, ha⟩
  · exact .inl ⟨accepted_of_error ha, push_of_error (congrArg Prod.snd ha)⟩
  · exact .inr (.inl ⟨accepted_of_ok (congrArg Prod.snd ha), hlt, h.push_newer hs hlt⟩)
  · exact .inr (.inr ⟨accepted_of_ok (congrArg Prod.snd ha), he, h.push_next hs he hlt⟩)

end Recalls

theorem push_of_old (he : e.epoch = b.epoch) (hle : e.seq ≤ b.lastSeq) :
    b.push e = b := by
  rcases b.append_cases e with ⟨⟨err, ha⟩, -⟩ | ⟨-, hlt, -⟩ | ⟨-, -, hlt, -⟩
  · exact push_of_error (congrArg Prod.snd ha)
  · omega
  · omega

theorem recalls_current (source : Source) (capacity : Nat) (calls : List Envelope) :
    (calls.foldl push (create source capacity)).Recalls
        ((create source capacity).current calls) ∧
      ∀ e ∈ (create source capacity).accepted calls,
        e.epoch ≤ (calls.foldl push (create source capacity)).epoch := by
  induction calls using List.reverseRecOn with
  | nil => exact ⟨.create source capacity, fun e he => by cases he⟩
  | append_singleton calls e ih =>
    obtain ⟨hrec, hold⟩ := ih
    rw [current, accepted_append, List.foldl_append, List.foldl_cons, List.foldl_nil]
    rw [current] at hrec
    generalize calls.foldl push (create source capacity) = b at hrec hold
    rcases hrec.push e with ⟨ha, hp⟩ | ⟨ha, hlt, hr⟩ | ⟨ha, he, hr⟩
    · rw [ha, hp, List.append_nil]
      exact ⟨hrec, hold⟩
    · have hp : e.epoch = (b.push e).epoch := (hr.own e List.mem_cons_self).2
      have hnone : ((create source capacity).accepted calls).filter (·.epoch = e.epoch) = [] := by
        rw [List.filter_eq_nil_iff]
        intro a hmem
        have := hold a hmem
        simp only [decide_eq_true_eq]
        omega
      rw [ha, ← hp, List.filter_append, hnone]
      refine ⟨by simpa using hr, ?_⟩
      intro a hmem
      rcases List.mem_append.mp hmem with hmem | hmem
      · exact Nat.le_of_lt (Nat.lt_of_le_of_lt (hold a hmem) hlt)
      · exact Nat.le_of_eq (congrArg Envelope.epoch (List.mem_singleton.mp hmem))
    · have hp : e.epoch = (b.push e).epoch := (hr.own e (by simp)).2
      rw [ha, ← hp, he, List.filter_append]
      refine ⟨by simpa [he] using hr, ?_⟩
      intro a hmem
      rcases List.mem_append.mp hmem with hmem | hmem
      · exact hold a hmem
      · rw [List.mem_singleton.mp hmem]
        exact Nat.le_of_eq he

namespace Recalls

theorem seq_le_of_not_mem (h : b.Recalls told) (he : e ∈ told) (hk : e ∉ b.entries) :
    e.seq ≤ b.evictedThrough := by
  obtain ⟨gone, hsplit, -, hgone, -⟩ := h.parts
  rw [hsplit] at he
  exact (hgone e ((List.mem_append.mp he).resolve_right hk)).2

theorem exists_evicted (h : b.Recalls told) (hpos : 0 < b.evictedThrough) :
    ∃ l ∈ told, l ∉ b.entries ∧ l.seq = b.evictedThrough := by
  obtain ⟨gone, hsplit, -, hgone, hz | ⟨l, hl, heq⟩⟩ := h.parts
  · omega
  · exact ⟨l, hsplit ▸ List.mem_append_left _ hl, (hgone l hl).1, heq⟩

theorem mem_entries_iff (h : b.Recalls told) (he : e ∈ told) (hpos : 0 < e.seq) :
    e ∈ b.entries ↔ b.evictedThrough < e.seq := by
  constructor
  · intro hk
    obtain ⟨gone, hsplit, hcross, hgone, hz | ⟨l, hl, heq⟩⟩ := h.parts
    · omega
    · exact heq ▸ hcross l hl e hk
  · intro hlt
    by_contra hk
    have := h.seq_le_of_not_mem he hk
    omega

theorem lost_iff (h : b.Recalls told) (from_ : Nat) :
    (∃ e ∈ told, from_ < e.seq ∧ e ∉ b.entries) ↔ from_ < b.evictedThrough := by
  constructor
  · rintro ⟨e, he, hlt, hk⟩
    exact Nat.lt_of_lt_of_le hlt (h.seq_le_of_not_mem he hk)
  · intro hlt
    obtain ⟨l, hl, hk, heq⟩ := h.exists_evicted (Nat.zero_lt_of_lt hlt)
    exact ⟨l, hl, heq ▸ hlt, hk⟩

theorem after_eq (h : b.Recalls told) (from_ : Nat) :
    b.after from_ = (told.filter (from_ < ·.seq)).filter (· ∈ b.entries) := by
  obtain ⟨gone, hsplit, -, hgone, -⟩ := h.parts
  have hnone : (gone.filter (from_ < ·.seq)).filter (· ∈ b.entries) = [] := by
    rw [List.filter_eq_nil_iff]
    intro a ha
    simpa using (hgone a (List.mem_filter.mp ha).1).1
  have hall : (b.entries.filter (from_ < ·.seq)).filter (· ∈ b.entries) =
      b.entries.filter (from_ < ·.seq) := by
    rw [List.filter_eq_self]
    intro a ha
    simpa using (List.mem_filter.mp ha).1
  conv_rhs => rw [hsplit]
  rw [List.filter_append, List.filter_append, hnone, hall]
  rfl

theorem kept_iff (h : b.Recalls told) (from_ : Nat) :
    (∀ e ∈ told, from_ < e.seq → e ∈ b.entries) ↔ b.evictedThrough ≤ from_ := by
  rw [← Nat.not_lt, ← h.lost_iff from_]
  push Not
  rfl

theorem after_of_kept (h : b.Recalls told) {from_ : Nat} (hk : b.evictedThrough ≤ from_) :
    b.after from_ = told.filter (from_ < ·.seq) := by
  rw [h.after_eq, List.filter_eq_self]
  intro e he
  obtain ⟨hmem, hseq⟩ := List.mem_filter.mp he
  simpa using (h.kept_iff from_).mpr hk e hmem (by simpa using hseq)

theorem replay_eq (h : b.Recalls told) (from_ : Nat) :
    b.replay from_ =
      if ∀ e ∈ told, from_ < e.seq → e ∈ b.entries then .events (told.filter (from_ < ·.seq))
      else .gap .evicted from_ b.oldestSeq b.epoch := by
  rw [replay]
  by_cases hlt : from_ < b.evictedThrough
  · rw [if_pos hlt, if_neg fun hall => by have := (h.kept_iff from_).mp hall; omega]
  · have hk : b.evictedThrough ≤ from_ := Nat.le_of_not_lt hlt
    rw [if_neg hlt, if_pos ((h.kept_iff from_).mpr hk), h.after_of_kept hk]

theorem accepts_iff (h : b.Recalls told) (e : Envelope) :
    (∃ evicted, (b.append e).2 = .ok evicted) ↔ e.source = b.source ∧
      (b.epoch < e.epoch ∨ e.epoch = b.epoch ∧ 1 ≤ e.seq ∧ ∀ a ∈ told, a.seq < e.seq) := by
  have hlast : b.lastSeq < e.seq ↔ 1 ≤ e.seq ∧ ∀ a ∈ told, a.seq < e.seq := by
    constructor
    · intro hlt
      exact ⟨by omega, fun a ha => Nat.lt_of_le_of_lt (h.le_lastSeq ha) hlt⟩
    · rintro ⟨hpos, hall⟩
      rw [h.last]
      cases hl : told.getLast? with
      | none => exact hpos
      | some l => exact hall l (List.mem_of_getLast? hl)
  rw [← hlast]
  rcases b.append_cases e with ⟨⟨err, ha⟩, hn⟩ | ⟨hs, hlt, ha⟩ | ⟨hs, he, hlt, ha⟩
  · rw [ha]
    exact ⟨fun ⟨out, ho⟩ => (by cases ho), fun hy => absurd hy hn⟩
  · exact ⟨fun _ => ⟨hs, .inl hlt⟩, fun _ => ⟨_, congrArg Prod.snd ha⟩⟩
  · exact ⟨fun _ => ⟨hs, .inr ⟨he, hlt⟩⟩, fun _ => ⟨_, congrArg Prod.snd ha⟩⟩

end Recalls

/-- A history keeps the newest of what it accepted in its epoch. Whoever asks for all that came
after a number gets exactly that while all of it is kept, and learns of a gap otherwise. -/
theorem replay_exact_or_gap (source : Source) (capacity : Nat) (calls : List Envelope) :
    let b := calls.foldl push (create source capacity)
    let told := (create source capacity).current calls
    told.Pairwise (fun a b => a.seq < b.seq) ∧
      b.capacity = max capacity 1 ∧
      b.entries = told.drop (told.length - min told.length b.capacity) ∧
      (∀ e, (∃ evicted, (b.append e).2 = .ok evicted) ↔ e.source = source ∧
        (b.epoch < e.epoch ∨ e.epoch = b.epoch ∧ 1 ≤ e.seq ∧ ∀ a ∈ told, a.seq < e.seq)) ∧
      (∀ e err, (b.append e).2 = .error err → (b.append e).1 = b) ∧
      (∀ from_, b.replay from_ =
        if ∀ e ∈ told, from_ < e.seq → e ∈ b.entries then .events (told.filter (from_ < ·.seq))
        else .gap .evicted from_ b.oldestSeq b.epoch) ∧
      ∀ epoch from_, b.replayFrom epoch from_ =
        if epoch = b.epoch then b.replay from_
        else .gap .epochReset from_ b.oldestSeq b.epoch := by
  intro b told
  have hrec : b.Recalls told := (recalls_current source capacity calls).1
  have hsource : b.source = source := source_foldl_push _ _
  have hlength : told.length - min told.length b.capacity = told.length - b.capacity := by
    omega
  refine ⟨hrec.grows, capacity_foldl_push _ _, ?_, ?_, fun e err => push_of_error,
    hrec.replay_eq, ?_⟩
  · rw [hlength]
    exact hrec.entries
  · intro e
    rw [hrec.accepts_iff e, hsource]
  · intro epoch from_
    rw [replayFrom]
    by_cases he : epoch = b.epoch
    · rw [if_neg (not_not.mpr he), if_pos he]
    · rw [if_pos he, if_neg he]

/-- The number after which a consumer wants to go on; none if it is ahead of the history. -/
def resumeAt (b : ReplayBuffer) : Option Stamp → Option Nat
  | none => some 0
  | some stamp =>
    if b.epoch < stamp.epoch then none
    else if stamp.epoch < b.epoch then some 0
    else some stamp.seq

theorem recover_eq (b : ReplayBuffer) (cursor : Option Stamp) :
    b.recover cursor = ((b.resumeAt cursor).map b.recoverAfter).getD .nothing := by
  cases cursor with
  | none => rfl
  | some stamp =>
    simp only [recover, resumeAt]
    by_cases hlt : b.epoch < stamp.epoch
    · rw [if_neg (by omega), if_pos hlt, if_pos hlt]
      rfl
    rw [if_neg hlt, if_neg hlt]
    by_cases hold : stamp.epoch < b.epoch
    · rw [if_neg (by omega), if_pos hold]
      rfl
    · rw [if_pos (by omega), if_neg hold]
      rfl

/-- Of what a consumer has not seen it gets what is kept, and the newest of the rest is announced
as lost; a consumer ahead of the history gets nothing. -/
theorem recover_partitions (source : Source) (capacity : Nat) (calls : List Envelope)
    (cursor : Option Stamp) :
    let b := calls.foldl push (create source capacity)
    let told := (create source capacity).current calls
    let r := b.recover cursor
    (∀ stamp, cursor = some stamp → b.epoch < stamp.epoch → r = .nothing) ∧
      ∀ from_, b.resumeAt cursor = some from_ →
        r.events = (told.filter (from_ < ·.seq)).filter (· ∈ b.entries) ∧
        (r.lost.isSome ↔ ∃ e ∈ told, from_ < e.seq ∧ e ∉ b.entries) ∧
        (∀ gap, r.lost = some gap → gap.source = source ∧ gap.epoch = b.epoch ∧
          (∃ e ∈ told, e ∉ b.entries ∧ e.seq = gap.lastSeq) ∧
          ∀ e ∈ told, e ∉ b.entries → e.seq ≤ gap.lastSeq) ∧
        (∀ e ∈ told, from_ < e.seq →
          (e ∈ r.events ↔ ¬ ∃ gap, r.lost = some gap ∧ e.seq ≤ gap.lastSeq)) ∧
        (r.lost.isSome ↔ (b.replay from_).isGap) := by
  intro b told r
  have hrec : b.Recalls told := (recalls_current source capacity calls).1
  have hsource : b.source = source := source_foldl_push _ _
  have hr : r = ((b.resumeAt cursor).map b.recoverAfter).getD .nothing := b.recover_eq cursor
  constructor
  · rintro stamp rfl hlt
    rw [hr, resumeAt, if_pos hlt]
    rfl
  intro from_ hfrom
  rw [hfrom] at hr
  have hevents : r.events = (told.filter (from_ < ·.seq)).filter (· ∈ b.entries) := by
    rw [hr, ← hrec.after_eq from_]
    rfl
  have hlost : r.lost =
      if from_ < b.evictedThrough then some ⟨b.source, b.epoch, b.evictedThrough⟩ else none := by
    rw [hr]
    rfl
  have hsome : r.lost.isSome ↔ from_ < b.evictedThrough := by
    rw [hlost]
    by_cases hlt : from_ < b.evictedThrough <;> simp [hlt]
  have hcovers : ∀ n, (∃ gap, r.lost = some gap ∧ n ≤ gap.lastSeq) ↔
      from_ < b.evictedThrough ∧ n ≤ b.evictedThrough := by
    intro n
    rw [hlost]
    by_cases hlt : from_ < b.evictedThrough <;> simp [hlt]
  refine ⟨hevents, hsome.trans (hrec.lost_iff from_).symm, ?_, ?_, ?_⟩
  · intro gap hgap
    have hlt : from_ < b.evictedThrough := hsome.mp (by rw [hgap]; rfl)
    rw [hlost, if_pos hlt] at hgap
    cases hgap
    exact ⟨hsource, rfl, hrec.exists_evicted (by omega), fun e => hrec.seq_le_of_not_mem⟩
  · intro e he hlt
    have hkept := hrec.mem_entries_iff he (by omega)
    rw [hevents, hcovers]
    simp only [List.mem_filter, decide_eq_true_eq, he, hlt, hkept, true_and]
    omega
  · rw [hsome, replay]
    by_cases hlt : from_ < b.evictedThrough <;> simp [hlt, ReplayResult.isGap]

end ReplayBuffer

end Switchboard
