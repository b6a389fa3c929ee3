import Switchboard.Proofs.Notifier.HandedOut

/-!
# Repetition

What was read once comes a second time only from a history, and only if the cursor has forgotten
its source before the notifier was overtaken. A critical envelope is then handed out again; a lossy
one may still be replaced before it is.
-/
namespace Switchboard

namespace Scene

variable {s s' : Scene} {e : Envelope}

/-- When the notifier catches up now, it takes in what it has read already. -/
def Repeats (s : Scene) (e : Envelope) : Prop :=
  s.Overtaken ∧ e ∈ s.read ∧ s.cursor.last? e.source = none ∧ ∃ b ∈ s.histories, e ∈ b.entries

instance (s : Scene) (e : Envelope) : Decidable (s.Repeats e) :=
  inferInstanceAs (Decidable (_ ∧ _ ∧ _ ∧ ∃ b ∈ s.histories, _))

theorem mem_entries_iff (h : Sound s) :
    (∃ b ∈ s.histories, e ∈ b.entries) ↔ ∃ v ∈ s.voices, e ∈ v.kept s.published := by
  rw [histories_eq h]
  constructor
  · rintro ⟨b, hb, he⟩
    obtain ⟨v, hv, rfl⟩ := List.mem_map.mp hb
    rw [v.entries_history h.ordered] at he
    exact ⟨v, hv, he⟩
  · rintro ⟨v, hv, he⟩
    refine ⟨_, List.mem_map.mpr ⟨v, hv, rfl⟩, ?_⟩
    rwa [v.entries_history h.ordered]

theorem mem_taken_iff (h : Sound s) (hr : e ∈ s.read) : e ∈ s.taken ↔ s.Repeats e := by
  constructor
  · intro ht
    have hnot : e ∉ s.passed := fun hp =>
      h.not_unread hr (unread_of_mem_onBus (List.mem_filter.mp hp).1)
    obtain ⟨ho, ⟨v, hv, hk⟩, hn⟩ := kept_of_refilled ((List.mem_append.mp ht).resolve_right hnot)
    refine ⟨ho, hr, ?_, (mem_entries_iff h).mpr ⟨v, hv, hk⟩⟩
    exact (h.seen v hv e (List.mem_of_mem_drop hk) hr).resolve_right fun hseen => hseen hn
  · rintro ⟨ho, -, hc, hb⟩
    refine List.mem_append_left _ ?_
    rw [refilled, if_pos ho]
    refine mem_newKept.mpr ⟨(mem_entries_iff h).mp hb, ?_⟩
    rw [Cursor.isNew_iff]
    intro stamp hst
    rw [hc] at hst
    cases hst

def Held (s : Scene) : Prop :=
  ∀ v ∈ s.voices, ∀ e ∈ v.kept s.published, e ∈ s.read → e.policy = .critical → 0 < s.shown e

theorem taken_of_kept (h : Sound s) {v : Voice} (hv : v ∈ s.voices) (hk : e ∈ v.kept s.published)
    (hu : e ∈ s.unread) : e ∈ s.taken := by
  by_cases ho : s.Overtaken
  · refine List.mem_append_left _ ?_
    rw [refilled, if_pos ho]
    exact mem_newKept.mpr ⟨⟨v, hv, hk⟩, h.isNew_of_unread hu⟩
  · exact taken_of_unread h hu ho

theorem Held.catchUp (hd : Held s) (h : Sound s) : Held s.catchUp := by
  intro v hv e hk _ hp
  have hshown := shown_catchUp_of_critical h hp
  have he : e ∈ s.published := (v.mem_spoken.mp (List.mem_of_mem_drop hk)).1
  rcases Sound.read_or_unread he with hr | hu
  · have := hd v hv e hk hr hp
    omega
  · have := List.count_pos_iff.mpr (taken_of_kept h hv hk hu)
    omega

theorem Held.steady (hd : Held s) (h' : Sound s') (hst : Steady s s') (hha : Hands s s') :
    Held s' := by
  intro v hv e hk hr hp
  rw [hst.read] at hr
  rw [hha.shown]
  have he : e ∈ s.published := Sound.published_of_read hr
  rcases hst.voices v hv with hv | hn
  · obtain ⟨more, hpub⟩ := hst.published
    have hord := h'.ordered
    rw [← hpub] at hk hord
    exact hd v hv e (v.mem_kept_of_append hord he hk) hr hp
  · have hsp := v.mem_spoken.mpr ⟨he, (v.mem_spoken.mp (List.mem_of_mem_drop hk)).2⟩
    rw [hn] at hsp
    cases hsp

theorem Held.leads (hd : Held s) (h : Sound s) (hl : Leads s s') (hu : Unspent s') : Held s' := by
  refine h.induct hl hu hd ?_ ?_
  · intro b _ hsound _ ih
    exact ih.catchUp hsound
  · intro b c _ hsound hc hm hst hha ih
    exact ih.steady (hsound.move hm hc) hst hha

theorem shown_le_of_leads (h : Sound s) (hp : e.policy = .critical) (hl : Leads s s')
    (hu : Unspent s') : s.shown e ≤ s'.shown e := by
  refine h.induct (P := fun b => s.shown e ≤ b.shown e) hl hu (Nat.le_refl _) ?_ ?_
  · intro b _ hsound _ ih
    have := shown_catchUp_of_critical hsound hp
    omega
  · intro b c _ _ _ _ _ hha ih
    rw [hha.shown]
    exact ih

def RepeatedOnTheWay (s s' : Scene) (e : Envelope) (again : Scene → Prop) : Prop :=
  ∃ a, Leads s a ∧ Leads a.catchUp s' ∧ a.Repeats e ∧ again a

theorem RepeatedOnTheWay.tail {again later : Scene → Prop} {s'' : Scene}
    (h : RepeatedOnTheWay s s' e again) (hm : Move s' s'')
    (himp : ∀ a, again a → later a) : RepeatedOnTheWay s s'' e later := by
  obtain ⟨a, ha, hac, hr, hp⟩ := h
  exact ⟨a, ha, hac.tail hm, hr, himp a hp⟩

theorem repeated_of_shown (hf : Fresh s) (hl : Leads s s') (hu : Unspent s')
    (h2 : 2 ≤ s'.shown e) : RepeatedOnTheWay s s' e fun _ => True := by
  revert h2
  refine hf.sound.induct
    (P := fun b => 2 ≤ b.shown e → RepeatedOnTheWay s b e fun _ => True) hl hu ?_ ?_ ?_
  · intro h2
    rw [hf.shown] at h2
    omega
  · intro b hl hsound hb ih h2
    by_cases h2' : 2 ≤ b.shown e
    · exact (ih h2').tail (.catchUp b) fun _ => id
    · have hle := shown_catchUp_le hsound e
      have hone := List.nodup_iff_count_le_one.mp (nodup_taken hsound) e
      have hread := (hf.honest.leads hf.sound hl hb).shown e (by omega)
      have htaken : e ∈ b.taken := List.count_pos_iff.mp (by omega)
      exact ⟨b, hl, .refl, (mem_taken_iff hsound hread).mp htaken, trivial⟩
  · intro b c _ _ _ hm _ hha ih h2
    rw [hha.shown] at h2
    exact (ih h2).tail hm fun _ => id

theorem repeated_of_pending (hf : Fresh s) (hl : Leads s s') (hu : Unspent s')
    (hw : 0 < s'.reducer.pending.count e) (hn : 0 < (notified s'.delivered).count e) :
    RepeatedOnTheWay s s' e fun a => 0 < (notified a.delivered).count e ∧
      (notified a.delivered).count e ≤ (notified s'.delivered).count e := by
  revert hw hn
  refine hf.sound.induct
    (P := fun b => 0 < b.reducer.pending.count e → 0 < (notified b.delivered).count e →
      RepeatedOnTheWay s b e fun a => 0 < (notified a.delivered).count e ∧
        (notified a.delivered).count e ≤ (notified b.delivered).count e) hl hu ?_ ?_ ?_
  · intro hw _
    rw [hf.pending] at hw
    cases hw
  · intro b hl hsound hb ih _ hn
    have hdel : b.catchUp.delivered = b.delivered := rfl
    rw [hdel] at hn
    by_cases hwait : 0 < b.reducer.pending.count e
    · exact (ih hwait hn).tail (.catchUp b) fun _ => id
    · have hread := (hf.honest.leads hf.sound hl hb).shown e (by rw [shown]; omega)
      have hle := shown_catchUp_le hsound e
      rw [shown, shown, hdel] at hle
      have htaken : e ∈ b.taken := List.count_pos_iff.mp (by omega)
      exact ⟨b, hl, .refl, (mem_taken_iff hsound hread).mp htaken, hn, Nat.le_refl _⟩
  · intro b c _ _ _ hm _ hha ih hw hn
    rcases hha with ⟨hr, hd⟩ | ⟨hp, -⟩
    · rw [hr] at hw
      rw [hd] at hn ⊢
      exact (ih hw hn).tail hm fun _ => id
    · rw [hp] at hw
      cases hw

theorem repeated_of_notified (hf : Fresh s) (hp : e.policy ≠ .critical) (hl : Leads s s')
    (hu : Unspent s') (h2 : 2 ≤ (notified s'.delivered).count e) :
    RepeatedOnTheWay s s' e fun a => 0 < (notified a.delivered).count e ∧
      (notified a.delivered).count e < (notified s'.delivered).count e := by
  revert h2
  refine hf.sound.induct
    (P := fun b => 2 ≤ (notified b.delivered).count e →
      RepeatedOnTheWay s b e fun a => 0 < (notified a.delivered).count e ∧
        (notified a.delivered).count e < (notified b.delivered).count e) hl hu ?_ ?_ ?_
  · intro h2
    rw [hf.delivered] at h2
    cases h2
  · intro b _ _ _ ih h2
    exact (ih h2).tail (.catchUp b) fun _ => id
  · intro b c hl hsound hc hm _ hha ih h2
    have hmono := hha.notified_le e
    by_cases h2' : 2 ≤ (notified b.delivered).count e
    · exact (ih h2').tail hm fun a ha => ⟨ha.1, by omega⟩
    rcases hha with ⟨-, hd⟩ | ⟨-, -, hn, -⟩
    · rw [hd] at h2
      exact absurd h2 h2'
    -- it waited once at most, so it had been handed out before
    · have hone := hsound.tidy.count_le_one hp
      rw [hn, shown] at h2 ⊢
      have hpending : 0 < b.reducer.pending.count e := by omega
      have hnotified : 0 < (notified b.delivered).count e := by omega
      exact (repeated_of_pending hf hl (hm.unspent hc) hpending hnotified).tail hm
        fun a ha => ⟨ha.1, by omega⟩

theorem held_of_fresh (hf : Fresh s) : Held s := by
  intro v _ e hk
  have he := (v.mem_spoken.mp (List.mem_of_mem_drop hk)).1
  rw [hf.published] at he
  cases he

theorem timesNotified_eq_count (h : Sound s) (hh : Honest s) (he : e ∈ s.published) :
    timesNotified s.delivered e.source e.stamp = (notified s.delivered).count e := by
  refine List.countP_congr fun x hx => ?_
  have hshown : 0 < s.shown x := Nat.lt_of_lt_of_le (List.count_pos_iff.mpr hx)
    (Nat.le_add_left _ _)
  have hpub : x ∈ s.published := Sound.published_of_read (hh.shown x hshown)
  rw [decide_eq_true_iff, beq_iff_eq]
  constructor
  · rintro ⟨hs, ht⟩
    exact h.ordered.eq_of_stamp hpub he hs ht
  · rintro rfl
    exact ⟨rfl, rfl⟩

/-- What is critical is handed out whenever it is taken in; what is lossy was handed out before the
moment and after it. -/
def HandsAgain (s : Scene) (e : Envelope) (a : Scene) : Prop :=
  e.policy = .critical ∨ 0 < (notified a.delivered).count e ∧
    (notified a.delivered).count e < (notified s.delivered).count e

theorem notified_twice_iff (hf : Fresh s) (hl : Leads s s') (hu : Unspent s') (hs : Settled s')
    (he : e ∈ s'.published) :
    2 ≤ timesNotified s'.delivered e.source e.stamp ↔
      RepeatedOnTheWay s s' e (HandsAgain s' e) := by
  have h := hf.sound
  have hshown : s'.shown e = (notified s'.delivered).count e := by
    rw [shown, hs.pending, List.count_nil, Nat.zero_add]
  rw [timesNotified_eq_count (h.leads hl hu) (hf.honest.leads h hl hu) he]
  constructor
  · intro h2
    by_cases hp : e.policy = .critical
    · obtain ⟨a, ha, hac, hr, -⟩ := repeated_of_shown hf hl hu (hshown ▸ h2)
      exact ⟨a, ha, hac, hr, .inl hp⟩
    · obtain ⟨a, ha, hac, hr, hagain⟩ := repeated_of_notified hf hp hl hu h2
      exact ⟨a, ha, hac, hr, .inr hagain⟩
  · rintro ⟨a, ha, hac, hr, hp | ⟨hlt, hlt'⟩⟩
    · have hua : Unspent a := hac.unspent_of_catchUp hu
      have hsound := h.leads ha hua
      obtain ⟨v, hv, hk⟩ := (mem_entries_iff hsound).mp hr.2.2.2
      have hbefore := (held_of_fresh hf).leads h ha hua v hv e hk hr.2.1 hp
      have htaken := List.count_pos_iff.mpr ((mem_taken_iff hsound hr.2.1).mpr hr)
      have hcatch := shown_catchUp_of_critical hsound hp
      have hafter := shown_le_of_leads hsound.catchUp hp hac hu
      omega
    · omega

end Scene

end Switchboard
