import Switchboard.Proofs.Notifier.Steps

/-!
# The numbers of an epoch

What a source tells in one epoch is numbered from one on without a hole, until the numbers run out,
whoever else tells something in between. Epochs only go up, so as long as no number has run out the
stamps of a source grow with all that it tells.
-/
namespace Switchboard

/-- The numbers told in an epoch of a source, in the order in which they were told. -/
def row (source : Source) (epoch : Nat) (told : List Envelope) : List Nat :=
  ((toldBy source told).filter (·.epoch = epoch)).map Envelope.seq

section

variable {source : Source} {epoch : Nat} {told : List Envelope} {e : Envelope}

theorem row_append (source : Source) (epoch : Nat) (told more : List Envelope) :
    row source epoch (told ++ more) = row source epoch told ++ row source epoch more := by
  simp only [row, toldBy_append, List.filter_append, List.map_append]

theorem row_eq_nil (h : ∀ e ∈ told, e.source = source → e.epoch ≠ epoch) :
    row source epoch told = [] := by
  rw [row, List.filter_eq_nil_iff.mpr, List.map_nil]
  intro e he hepoch
  obtain ⟨hmem, hs⟩ := mem_toldBy.mp he
  exact h e hmem hs (of_decide_eq_true hepoch)

theorem row_eq_map (h : ∀ e ∈ told, e.source = source ∧ e.epoch = epoch) :
    row source epoch told = told.map Envelope.seq := by
  rw [row, toldBy_eq_self fun e he => (h e he).1,
    List.filter_eq_self.mpr fun e he => decide_eq_true (h e he).2]

theorem length_row_le (source : Source) (epoch : Nat) (told : List Envelope) :
    (row source epoch told).length ≤ (toldBy source told).length := by
  rw [row, List.length_map]
  exact List.length_filter_le _ _

theorem pair_sublist_row {a b : Envelope} (h : [a, b].Sublist told) (hs : a.source = b.source)
    (he : a.epoch = b.epoch) : [a.seq, b.seq].Sublist (row b.source b.epoch told) := by
  have hpair : row b.source b.epoch [a, b] = [a.seq, b.seq] := row_eq_map (by simp [hs, he])
  rw [← hpair]
  exact ((h.filter _).filter _).map _

end

namespace Sequencer.Numbers

variable {source : Source} {q q' : Sequencer} {told : List Envelope}

theorem lastSeq_eq (h : Numbers source q told q') (hq : q.lastSeq ≤ wordMax) :
    q'.lastSeq = min (q.lastSeq + told.length) wordMax := by
  induction h with
  | nil q => exact (Nat.min_eq_left hq).symm
  | @cons q q' e told _ _ _ ih =>
    have hadvance : q.advance.lastSeq = min (q.lastSeq + 1) wordMax := rfl
    rw [ih (satAdd_le _ _), hadvance, List.length_cons]
    omega

theorem own (h : Numbers source q told q') {e : Envelope} (he : e ∈ told) :
    e.source = source ∧ e.epoch = q.epoch := by
  obtain ⟨i, hi⟩ := List.getElem?_of_mem he
  exact ⟨(h.stamp_eq hi).1, congrArg Stamp.epoch (h.stamp_eq hi).2⟩

end Sequencer.Numbers

namespace Scene

variable {s s' : Scene}

theorem Leads.published (h : Leads s s') : s.published <+: s'.published := by
  induction h with
  | refl => exact List.prefix_rfl
  | tail _ hm ih =>
    refine ih.trans ?_
    cases hm with
    | tell hs ht => exact List.prefix_append _ _
    | leave hp hs ht => exact List.prefix_append _ _
    | _ => exact List.prefix_rfl

/-- The rows have no holes, and who can tell something knows where its own row ends. The last epoch
there is has no row of its own, since all later lives of a pane would have to share it. -/
structure InRows (s : Scene) : Prop where
  distinct : (s.speakers.map Speaker.source).Nodup
  rows : ∀ source epoch, epoch < wordMax → ∀ i n,
    (row source epoch s.published)[i]? = some n → n = min (i + 1) wordMax
  ends : ∀ sp ∈ s.speakers, sp.sequencer.epoch < wordMax → sp.sequencer.lastSeq =
    min (row sp.source sp.sequencer.epoch s.published).length wordMax
  rises : s.published.Pairwise fun a b => a.source = b.source → a.epoch ≤ b.epoch
  latest : ∀ sp ∈ s.speakers, ∀ e ∈ s.published, e.source = sp.source →
    e.epoch ≤ sp.sequencer.epoch
  recorded : ∀ e ∈ s.published, ∀ pane, e.source = .pane pane →
    ∃ epoch, Table.get? s.epochs pane = some epoch ∧ e.epoch ≤ epoch
  known : ∀ sp ∈ s.speakers, ∀ pane, sp.source = .pane pane →
    ∃ epoch, Table.get? s.epochs pane = some epoch ∧ sp.sequencer.epoch ≤ epoch
  bounded : ∀ pane epoch, Table.get? s.epochs pane = some epoch → epoch ≤ wordMax

namespace InRows

section Say

variable {front behind keep : List Speaker} {sp sp' : Speaker} {told : List Envelope}

theorem row_say (ht : sp.Tells told sp') (source : Source) (epoch : Nat) :
    source = sp.source ∧ epoch = sp.sequencer.epoch ∧
        row source epoch (s.published ++ told) =
          row source epoch s.published ++ told.map Envelope.seq ∨
      (source = sp.source → epoch ≠ sp.sequencer.epoch) ∧
        row source epoch (s.published ++ told) = row source epoch s.published := by
  rw [row_append]
  by_cases hown : source = sp.source ∧ epoch = sp.sequencer.epoch
  · obtain ⟨rfl, rfl⟩ := hown
    exact .inl ⟨rfl, rfl, congrArg _ (row_eq_map fun e he => ht.numbers.own he)⟩
  · refine .inr ⟨fun h₁ h₂ => hown ⟨h₁, h₂⟩, ?_⟩
    have hnone : row source epoch told = [] := by
      refine row_eq_nil fun e he hs hepoch => ?_
      obtain ⟨hsource, heq⟩ := ht.numbers.own he
      exact hown ⟨hs.symm.trans hsource, hepoch.symm.trans heq⟩
    rw [hnone, List.append_nil]

theorem rows_say (h : InRows s) (hsp : sp ∈ s.speakers) (ht : sp.Tells told sp') {source : Source}
    {epoch : Nat} (he : epoch < wordMax) {i n : Nat}
    (hn : (row source epoch (s.published ++ told))[i]? = some n) : n = min (i + 1) wordMax := by
  rcases row_say ht source epoch with ⟨rfl, rfl, hrow⟩ | ⟨-, hrow⟩
  · have hends := h.ends sp hsp he
    rw [hrow] at hn
    by_cases hi : i < (row sp.source sp.sequencer.epoch s.published).length
    · rw [List.getElem?_append_left hi] at hn
      exact h.rows _ _ he i n hn
    · rw [List.getElem?_append_right (by omega), List.getElem?_map, Option.map_eq_some_iff] at hn
      obtain ⟨e, hget, rfl⟩ := hn
      have hseq : e.seq = min (sp.sequencer.lastSeq +
        (i - (row sp.source sp.sequencer.epoch s.published).length) + 1) wordMax :=
        congrArg Stamp.seq (ht.numbers.stamp_eq hget).2
      generalize wordMax = limit at hends hseq ⊢
      omega
  · rw [hrow] at hn
    exact h.rows _ _ he i n hn

theorem ends_say (h : InRows s) (hs : s.speakers = front ++ sp :: behind)
    (ht : sp.Tells told sp') (hk : keep = [sp'] ∨ keep = []) {x : Speaker}
    (hx : x ∈ front ++ keep ++ behind) (he : x.sequencer.epoch < wordMax) :
    x.sequencer.lastSeq =
      min (row x.source x.sequencer.epoch (s.published ++ told)).length wordMax := by
  have hsp := mem_speakers_of_split hs
  rcases mem_of_mem_keep hk hx with rfl | hx
  · rw [ht.numbers.epoch_eq] at he ⊢
    have hends := h.ends sp hsp he
    have hlast := ht.numbers.lastSeq_eq (by omega)
    rcases row_say (s := s) ht x.source sp.sequencer.epoch with ⟨-, -, hrow⟩ | ⟨hne, -⟩
    · rw [hrow, List.length_append, List.length_map, ht.source]
      omega
    · exact absurd rfl (hne ht.source)
  · rcases row_say (s := s) ht x.source x.sequencer.epoch with ⟨hsource, -, -⟩ | ⟨-, hrow⟩
    · exact absurd hsource (source_ne_of_distinct h.distinct hs x hx)
    · rw [hrow]
      exact h.ends x (mem_speakers_of_rest hs hx) he

theorem say (h : InRows s) (hs : s.speakers = front ++ sp :: behind) (ht : sp.Tells told sp')
    (hk : keep = [sp'] ∨ keep = []) : InRows (s.say (front ++ keep ++ behind) told) := by
  have hsp := mem_speakers_of_split hs
  refine ⟨distinct_say h.distinct hs ht hk, fun _ _ he _ _ => h.rows_say hsp ht he,
    fun _ hx he => h.ends_say hs ht hk hx he, ?_, ?_, ?_, ?_, h.bounded⟩
  · refine List.pairwise_append.mpr ⟨h.rises, ?_, ?_⟩
    · refine List.pairwise_of_forall_mem_list fun a ha b hb _ => ?_
      exact Nat.le_of_eq ((ht.numbers.own ha).2.trans (ht.numbers.own hb).2.symm)
    · intro a ha b hb hab
      obtain ⟨hsource, hepoch⟩ := ht.numbers.own hb
      rw [hepoch]
      exact h.latest sp hsp a ha (hab.trans hsource)
  · intro x hx e he hes
    rcases mem_of_mem_keep hk hx with rfl | hx <;> rcases List.mem_append.mp he with he | he
    · rw [ht.numbers.epoch_eq]
      exact h.latest sp hsp e he (hes.trans ht.source)
    · exact Nat.le_of_eq ((ht.numbers.own he).2.trans ht.numbers.epoch_eq.symm)
    · exact h.latest x (mem_speakers_of_rest hs hx) e he hes
    · exact absurd (hes.symm.trans (ht.numbers.own he).1)
        (source_ne_of_distinct h.distinct hs x hx)
  · intro e he pane hp
    rcases List.mem_append.mp he with he | he
    · exact h.recorded e he pane hp
    · obtain ⟨hsource, hepoch⟩ := ht.numbers.own he
      rw [hepoch]
      exact h.known sp hsp pane (hsource.symm.trans hp)
  · intro x hx pane hp
    rcases mem_of_mem_keep hk hx with rfl | hx
    · rw [ht.numbers.epoch_eq]
      exact h.known sp hsp pane (ht.source.symm.trans hp)
    · exact h.known x (mem_speakers_of_rest hs hx) pane hp

end Say

section Welcome

variable {front behind : List Speaker} {pane : PaneId} {capacity : Nat}

theorem epoch_le_nextEpoch (h : InRows s) {e : Envelope} (he : e ∈ s.published)
    (hs : e.source = .pane pane) :
    e.epoch ≤ s.nextEpoch pane ∧ (s.nextEpoch pane < wordMax → e.epoch < s.nextEpoch pane) := by
  obtain ⟨epoch, hget, hle⟩ := h.recorded e he pane hs
  have hbound := h.bounded pane epoch hget
  have hnext : s.nextEpoch pane = min (epoch + 1) wordMax := by
    simp only [nextEpoch, hget, satSucc, satAdd]
  omega

theorem nextEpoch_le (s : Scene) (pane : PaneId) : s.nextEpoch pane ≤ wordMax := by
  simp only [nextEpoch]
  cases Table.get? s.epochs pane with
  | none => exact Nat.zero_le _
  | some epoch => exact satAdd_le _ _

theorem welcome (h : InRows s) (hs : s.speakers = front ++ behind)
    (hnew : ∀ sp ∈ s.speakers, sp.source ≠ .pane pane) :
    InRows (s.welcome front behind pane capacity) := by
  have hlater : ∀ {other : PaneId} {n : Nat},
      (∃ epoch, Table.get? s.epochs other = some epoch ∧ n ≤ epoch) →
      ∃ epoch, Table.get? (s.welcome front behind pane capacity).epochs other = some epoch ∧
        n ≤ epoch := by
    rintro other n ⟨epoch, hget, hle⟩
    obtain ⟨epoch', hget', hle'⟩ := s.epoch_le_welcome front behind pane capacity hget
    exact ⟨epoch', hget', Nat.le_trans hle hle'⟩
  refine ⟨distinct_welcome h.distinct capacity hs hnew, h.rows, ?_, h.rises, ?_,
    fun e he other ho => hlater (h.recorded e he other ho), ?_, ?_⟩
  · intro x hx he
    rcases (mem_speakers_welcome hs).mp hx with rfl | hx
    -- an epoch before the last one there is has not been used by this pane
    · have hfresh : row (.pane pane) (s.nextEpoch pane) s.published = [] := by
        refine row_eq_nil fun e hmem hes => ?_
        exact Nat.ne_of_lt ((h.epoch_le_nextEpoch hmem hes).2 he)
      show 0 = min (row (.pane pane) (s.nextEpoch pane) s.published).length wordMax
      rw [hfresh]
      rfl
    · exact h.ends x hx he
  · intro x hx e he hes
    rcases (mem_speakers_welcome hs).mp hx with rfl | hx
    · exact (h.epoch_le_nextEpoch he hes).1
    · exact h.latest x hx e he hes
  · intro x hx other ho
    rcases (mem_speakers_welcome hs).mp hx with rfl | hx
    · cases ho
      exact ⟨_, Table.get?_set_self _ _ _, Nat.le_max_right _ _⟩
    · exact hlater (h.known x hx other ho)
  · intro other epoch hget
    by_cases ho : pane = other
    · subst ho
      have hset := (Table.get?_set_self _ _ _).symm.trans hget
      have hnext := nextEpoch_le s pane
      rw [Option.some.injEq] at hset
      cases hold : Table.get? s.epochs pane with
      | none =>
        rw [hold, Option.getD_none] at hset
        omega
      | some old =>
        have hbound := h.bounded pane old hold
        rw [hold, Option.getD_some] at hset
        omega
    · exact h.bounded other epoch ((Table.get?_set_of_ne _ _ ho).symm.trans hget)

end Welcome

theorem move (h : InRows s) (hm : Move s s') : InRows s' := by
  have hsame : ∀ (notifier : Notifier) (delivered : List Batch),
      InRows { s with notifier, delivered } := fun _ _ =>
    ⟨h.distinct, h.rows, h.ends, h.rises, h.latest, h.recorded, h.known, h.bounded⟩
  cases hm with
  | catchUp => exact hsame _ _
  | control c => exact hsame _ _
  | frame now => exact hsame _ _
  | finish now => exact hsame _ _
  | @tell front behind sp sp' told hs ht =>
    rw [← List.singleton_append, ← List.append_assoc]
    exact h.say hs ht (.inl rfl)
  | @leave front behind sp sp' told pane hp hs ht =>
    rw [← List.append_nil front]
    exact h.say hs ht (.inr rfl)
  | enter pane capacity hs hnew => exact h.welcome hs hnew

theorem leads (h : InRows s) (hl : Leads s s') : InRows s' := by
  induction hl with
  | refl => exact h
  | tail _ hm ih => exact ih.move hm

theorem row_eq (h : InRows s) {source : Source} {epoch : Nat} (he : epoch < wordMax)
    (hspace : (row source epoch s.published).length ≤ wordMax) :
    row source epoch s.published = List.range' 1 (row source epoch s.published).length := by
  refine List.ext_getElem (List.length_range').symm fun i hi _ => ?_
  have hn := h.rows source epoch he i _ (List.getElem?_eq_getElem hi)
  rw [hn, List.getElem_range']
  omega

theorem grows (h : InRows s) {source : Source}
    (hepochs : ∀ e ∈ toldBy source s.published, e.epoch < wordMax)
    (hspace : (toldBy source s.published).length ≤ wordMax) :
    (toldBy source s.published).Pairwise fun a b => a.stamp.before b.stamp = true := by
  rw [List.pairwise_iff_forall_sublist]
  intro a b hpair
  have hin : [a, b].Sublist s.published := hpair.trans List.filter_sublist
  obtain ⟨-, hsa⟩ := mem_toldBy.mp (hpair.subset List.mem_cons_self)
  have hb := hpair.subset (List.mem_cons_of_mem _ List.mem_cons_self)
  obtain ⟨-, rfl⟩ := mem_toldBy.mp hb
  have hle := List.pairwise_iff_forall_sublist.mp h.rises hin hsa
  rw [Stamp.before_iff]
  rcases Nat.lt_or_eq_of_le hle with hlt | heq
  · exact .inl hlt
  · have hrow := pair_sublist_row hin hsa heq
    rw [h.row_eq (hepochs b hb) (Nat.le_trans (length_row_le _ _ _) hspace)] at hrow
    exact .inr ⟨heq, List.pairwise_iff_forall_sublist.mp List.pairwise_lt_range' hrow⟩

end InRows

end Scene

end Switchboard
