import Switchboard.Proofs.Notifier.HandedOut

/-!
# Losses

A critical envelope is handed out, or a gap announces its loss, unless the notifier was overtaken
when nobody who could be asked held the run of it: then it is lost without a word. Whether that
happened can be told at the moment of catching up.
-/
namespace Switchboard

namespace Scene

variable {s s' : Scene} {e : Envelope}

def Accounted (s : Scene) (e : Envelope) : Prop := 0 < s.shown e ∨ ∃ g ∈ s.gaps, g.Covers e

def Holds (s : Scene) (e : Envelope) : Prop :=
  ∃ b ∈ s.histories, b.source = e.source ∧ b.epoch = e.epoch ∧ e.seq ≤ b.lastSeq

def Skips (s : Scene) (e : Envelope) : Prop :=
  e ∈ s.unread ∧ (e ∈ s.published.take s.bus.oldest ∨
    ∃ b ∈ s.histories, b.source = e.source ∧ e.epoch < b.epoch)

/-- The gap that was to announce the envelope gives its place to one of a later run. -/
def Displaces (s : Scene) (e : Envelope) : Prop :=
  e ∈ s.read ∧ s.shown e = 0 ∧ (∃ g ∈ s.reducer.gaps, g.Covers e) ∧
    (∀ g ∈ announced s.delivered, ¬ g.Covers e) ∧
    ∃ b ∈ s.histories, b.source = e.source ∧ (b.recover (s.cursor.last? b.source)).lost ≠ none

/-- When the notifier catches up now, the envelope is lost without a word. -/
def Misses (s : Scene) (e : Envelope) : Prop :=
  s.Overtaken ∧ ¬ s.Holds e ∧ (s.Skips e ∨ s.Displaces e)

instance (s : Scene) (e : Envelope) : Decidable (s.Holds e) :=
  inferInstanceAs (Decidable (∃ b ∈ s.histories, _))

instance (s : Scene) (e : Envelope) : Decidable (s.Skips e) :=
  inferInstanceAs (Decidable (_ ∧ (_ ∨ ∃ b ∈ s.histories, _)))

instance (s : Scene) (e : Envelope) : Decidable (s.Displaces e) :=
  inferInstanceAs (Decidable (_ ∧ _ ∧ (∃ g ∈ s.reducer.gaps, _) ∧
    (∀ g ∈ announced s.delivered, _) ∧ ∃ b ∈ s.histories, _))

instance (s : Scene) (e : Envelope) : Decidable (s.Misses e) :=
  inferInstanceAs (Decidable (_ ∧ _ ∧ (_ ∨ _)))

theorem Misses.published (h : s.Misses e) : e ∈ s.published := by
  rcases h.2.2 with ⟨hu, -⟩ | ⟨hr, -⟩
  · exact List.mem_of_mem_drop hu
  · exact List.mem_of_mem_take hr

/-- The envelope is past, nothing was said of it, and nobody can be asked for it. -/
structure Lost (s : Scene) (e : Envelope) : Prop where
  read : e ∈ s.read
  silent : ¬ s.Accounted e
  gone : ∀ v ∈ s.voices, e ∉ v.spoken s.published

theorem mem_histories (h : Sound s) {b : ReplayBuffer} :
    b ∈ s.histories ↔ ∃ v ∈ s.voices, b = .window v.source v.size (v.spoken s.published) := by
  rw [histories_eq h, List.mem_map]
  constructor
  · rintro ⟨v, hv, rfl⟩
    exact ⟨v, hv, v.history_eq_window h.ordered⟩
  · rintro ⟨v, hv, rfl⟩
    exact ⟨v, hv, v.history_eq_window h.ordered⟩

theorem window_cases (v : Voice) (told : List Envelope) :
    v.spoken told = [] ∧ (ReplayBuffer.window v.source v.size (v.spoken told)).epoch = 0 ∧
        (ReplayBuffer.window v.source v.size (v.spoken told)).lastSeq = 0 ∨
      ∃ l, (v.spoken told).getLast? = some l ∧
        (ReplayBuffer.window v.source v.size (v.spoken told)).epoch = v.epoch ∧
        (ReplayBuffer.window v.source v.size (v.spoken told)).lastSeq = l.seq := by
  cases hl : (v.spoken told).getLast? with
  | none =>
    have hn := List.getLast?_eq_none_iff.mp hl
    exact .inl ⟨hn, by simp [hn, ReplayBuffer.window], by simp [hn, ReplayBuffer.window]⟩
  | some l =>
    refine .inr ⟨l, rfl, ?_, ?_⟩
    · simp only [ReplayBuffer.window, hl, Option.map_some, Option.getD_some]
      exact (v.mem_spoken.mp (List.mem_of_getLast? hl)).2.2
    · simp only [ReplayBuffer.window, hl, Option.map_some, Option.getD_some]

theorem holds_iff (h : Sound s) (he : e ∈ s.published) :
    s.Holds e ↔ ∃ v ∈ s.voices, e ∈ v.spoken s.published := by
  constructor
  · rintro ⟨b, hb, hs, hep, hseq⟩
    obtain ⟨v, hv, rfl⟩ := (mem_histories h).mp hb
    refine ⟨v, hv, v.mem_spoken.mpr ⟨he, hs.symm, ?_⟩⟩
    rcases window_cases v s.published with ⟨-, -, hz⟩ | ⟨l, -, hv', -⟩
    · have := h.ordered.positive e he
      omega
    · exact hep.symm.trans hv'
  · rintro ⟨v, hv, hsp⟩
    obtain ⟨-, hs, hep⟩ := v.mem_spoken.mp hsp
    refine ⟨_, (mem_histories h).mpr ⟨v, hv, rfl⟩, hs.symm, ?_⟩
    rcases window_cases v s.published with ⟨hn, -, -⟩ | ⟨l, hl, hv', hseq⟩
    · rw [hn] at hsp
      cases hsp
    · refine ⟨hv'.trans hep.symm, hseq ▸ ?_⟩
      obtain ⟨-, hls, hle⟩ := v.mem_spoken.mp (List.mem_of_getLast? hl)
      rcases (v.ordered_spoken h.ordered).eq_or_before_getLast hsp hl with rfl | hb
      · exact Nat.le_refl _
      · have hb' := Stamp.before_iff.mp (hb (hs.trans hls.symm))
        have : e.stamp.epoch = l.stamp.epoch := hep.trans hle.symm
        show e.stamp.seq ≤ l.stamp.seq
        omega

theorem passed_of_taken (hg : ∀ v ∈ s.voices, e ∉ v.spoken s.published) (he : e ∈ s.taken) :
    e ∈ s.passed := by
  refine (List.mem_append.mp he).resolve_left fun hr => ?_
  obtain ⟨-, ⟨v, hv, hk⟩, -⟩ := kept_of_refilled hr
  exact hg v hv (List.mem_of_mem_drop hk)

theorem spoken_of_loss {g : DeliveryGap} (hg : g ∈ s.losses) (hc : g.Covers e)
    (he : e ∈ s.published) : ∃ v ∈ s.voices, e ∈ v.spoken s.published := by
  obtain ⟨-, v, hv, l, hl, -, rfl⟩ := mem_losses.mp hg
  obtain ⟨-, hls, hle⟩ := source_of_dropped hl
  exact ⟨v, hv, v.mem_spoken.mpr ⟨he, hc.1.symm.trans hls, hc.2.1.symm.trans hle⟩⟩

theorem Honest.read_of_covers (hh : Honest s) (h : Sound s) {g : DeliveryGap} (hg : g ∈ s.gaps)
    (hc : g.Covers e) (he : e ∈ s.published) : e ∈ s.read := by
  refine (Sound.read_or_unread he).resolve_right fun hu => ?_
  obtain ⟨l, hl, rfl⟩ := hh.gaps g hg
  obtain ⟨hs, hep, hseq⟩ := hc
  have hb := Stamp.before_iff.mp (h.ordered.before_of_take_drop _ hl hu hs)
  have hep' : l.stamp.epoch = e.stamp.epoch := hep
  have hseq' : e.stamp.seq ≤ l.stamp.seq := hseq
  omega

theorem lost_iff (h : Sound s) (ho : s.Overtaken) {source : Source} :
    (∃ b ∈ s.histories, b.source = source ∧ (b.recover (s.cursor.last? b.source)).lost ≠ none) ↔
      ∃ g ∈ s.losses, g.source = source := by
  have hanswer : ∀ v : Voice, ((v.history s.published).recover (s.cursor.last? v.source)).lost =
      ((v.dropped s.published).getLast?.filter s.cursor.isNew).map fun e =>
        ⟨e.source, e.epoch, e.seq⟩ :=
    fun v => congrArg Recovery.lost (v.recover_history h.ordered s.cursor)
  constructor
  · rintro ⟨b, hb, hs, hl⟩
    rw [histories_eq h] at hb
    obtain ⟨v, hv, rfl⟩ := List.mem_map.mp hb
    rw [v.source_history] at hs hl
    rw [hanswer] at hl
    cases hl' : (v.dropped s.published).getLast?.filter s.cursor.isNew with
    | none =>
      rw [hl'] at hl
      exact absurd rfl hl
    | some l =>
      obtain ⟨hlast, hn⟩ := Option.filter_eq_some_iff.mp hl'
      exact ⟨_, mem_losses.mpr ⟨ho, v, hv, l, hlast, hn, rfl⟩,
        (source_of_dropped hlast).2.1.trans hs⟩
  · rintro ⟨g, hg, rfl⟩
    obtain ⟨-, v, hv, l, hl, hn, rfl⟩ := mem_losses.mp hg
    have hs : (v.history s.published).source = l.source :=
      v.source_history.trans (source_of_dropped hl).2.1.symm
    refine ⟨v.history s.published, ?_, hs, ?_⟩
    · rw [histories_eq h]
      exact List.mem_map.mpr ⟨v, hv, rfl⟩
    · rw [v.source_history, hanswer, hl, Option.filter_some_pos hn]
      exact Option.some_ne_none _

theorem not_passed_of_skips (h : Sound s) (ho : s.Overtaken) (hk : s.Skips e) :
    e ∉ s.passed := by
  intro hp
  obtain ⟨hbus, hnew⟩ := List.mem_filter.mp hp
  obtain ⟨hu, hgone | ⟨b, hb, hs, hlt⟩⟩ := hk
  · have hn := h.ordered.nodup
    rw [← List.take_append_drop s.bus.oldest s.published] at hn
    rw [onBus, Nat.max_eq_right (Nat.le_of_lt ho)] at hbus
    exact (List.nodup_append.mp hn).2.2 e hgone e hbus rfl
  · obtain ⟨v, hv, rfl⟩ := (mem_histories h).mp hb
    rcases window_cases v s.published with ⟨-, hz, -⟩ | ⟨l, hl, hve, -⟩
    · rw [hz] at hlt
      exact Nat.not_lt_zero _ hlt
    -- the newest of the later run is handed out, and nothing older passes behind it
    · obtain ⟨hlp, hls, hle⟩ := v.mem_spoken.mp (List.mem_of_getLast? hl)
      have hsource : l.source = e.source := hls.trans hs
      have hbefore : e.stamp.before l.stamp = true :=
        Stamp.before_iff.mpr (.inl (Nat.lt_of_lt_of_eq hlt (hve.trans hle.symm)))
      have hlu : l ∈ s.unread := by
        refine (Sound.read_or_unread hlp).resolve_left fun hr => ?_
        exact Stamp.before_asymm hbefore (h.ordered.before_of_take_drop _ hr hu hsource)
      have hkept : l ∈ v.kept s.published := List.mem_of_getLast? (v.getLast?_kept.trans hl)
      have hrefilled : l ∈ s.refilled := by
        rw [refilled, if_pos ho]
        exact mem_newKept.mpr ⟨⟨v, hv, hkept⟩, h.isNew_of_unread hlu⟩
      exact Stamp.before_asymm hbefore
        (((Cursor.isNew_follow _ _ _).mp hnew).2 l hrefilled hsource)

theorem lost_of_misses (h : Sound s) (hh : Honest s) (hm : s.Misses e) : s.catchUp.Lost e := by
  have he := hm.published
  obtain ⟨ho, hholds, hwhy⟩ := hm
  have hgone : ∀ v ∈ s.voices, e ∉ v.spoken s.published :=
    fun v hv hsp => hholds ((holds_iff h he).mpr ⟨v, hv, hsp⟩)
  have hshown : s.shown e = 0 := by
    rcases hwhy with ⟨hu, -⟩ | hd
    · refine Nat.eq_zero_of_not_pos fun hs => ?_
      exact h.not_unread (hh.shown e hs) hu
    · exact hd.2.1
  have htaken : e ∉ s.taken := by
    intro ht
    have hp := passed_of_taken hgone ht
    rcases hwhy with hk | ⟨hr, -⟩
    · exact not_passed_of_skips h ho hk hp
    · exact h.not_unread hr (unread_of_mem_onBus (List.mem_filter.mp hp).1)
  refine ⟨?_, ?_, hgone⟩
  · rw [read_catchUp h]
    exact he
  rintro (hs | ⟨g, hg, hc⟩)
  · have hle := shown_catchUp_le h e
    rw [hshown, List.count_eq_zero.mpr htaken] at hle
    omega
  have hnoloss : g ∉ s.losses := by
    intro hl
    obtain ⟨v, hv, hsp⟩ := spoken_of_loss hl hc he
    exact hgone v hv hsp
  have hold : g ∈ s.gaps := (mem_gaps_catchUp h hg).resolve_left hnoloss
  rcases hwhy with ⟨hu, -⟩ | ⟨-, -, -, hsilent, hlost⟩
  · exact h.not_unread (hh.read_of_covers h hold hc he) hu
  · obtain ⟨l, hl, hls⟩ := (lost_iff h ho).mp hlost
    rcases List.mem_append.mp hg with hg | hg
    · obtain ⟨-, hstays⟩ := ((mem_reducer_gaps_catchUp h).mp hg).resolve_left hnoloss
      exact hstays l hl (hls.trans hc.1.symm)
    · exact hsilent g hg hc

namespace Lost

theorem catchUp (hl : s.Lost e) (h : Sound s) : s.catchUp.Lost e := by
  have he : e ∈ s.published := Sound.published_of_read hl.read
  refine ⟨?_, ?_, hl.gone⟩
  · rw [read_catchUp h]
    exact he
  rintro (hs | ⟨g, hg, hc⟩)
  · have htaken : e ∉ s.taken := by
      intro ht
      have hp := passed_of_taken hl.gone ht
      exact h.not_unread hl.read (unread_of_mem_onBus (List.mem_filter.mp hp).1)
    have hle := shown_catchUp_le h e
    rw [List.count_eq_zero.mpr htaken] at hle
    exact hl.silent (.inl (by omega))
  · rcases mem_gaps_catchUp h hg with hg | hg
    · obtain ⟨v, hv, hsp⟩ := spoken_of_loss hg hc he
      exact hl.gone v hv hsp
    · exact hl.silent (.inr ⟨g, hg, hc⟩)

theorem steady (hl : s.Lost e) (hst : Steady s s') (hha : Hands s s') : s'.Lost e := by
  have he : e ∈ s.published := Sound.published_of_read hl.read
  refine ⟨hst.read ▸ hl.read, ?_, ?_⟩
  · rintro (hs | ⟨g, hg, hc⟩)
    · exact hl.silent (.inl (hha.shown e ▸ hs))
    · exact hl.silent (.inr ⟨g, (hha.mem_gaps g).mp hg, hc⟩)
  · intro v hv hsp
    have hsp' : e ∈ v.spoken s.published := v.mem_spoken.mpr ⟨he, (v.mem_spoken.mp hsp).2⟩
    rcases hst.voices v hv with hv | hn
    · exact hl.gone v hv hsp'
    · rw [hn] at hsp'
      cases hsp'

theorem leads (hl : s.Lost e) (h : Sound s) (hs : Leads s s') (hu : Unspent s') : s'.Lost e := by
  refine h.induct (P := fun b => b.Lost e) hs hu hl ?_ ?_
  · intro b _ hsound _ ih
    exact ih.catchUp hsound
  · intro b c _ _ _ _ hst hha ih
    exact ih.steady hst hha

end Lost

theorem mem_losses_of_refill {g : DeliveryGap} (ho : s.Overtaken) {v : Voice} (hv : v ∈ s.voices)
    (hg : .loss g ∈ v.refill s.published s.cursor) : g ∈ s.losses := by
  rw [losses, refills, if_pos ho]
  exact List.mem_filterMap.mpr ⟨.loss g, List.mem_flatMap.mpr ⟨v, hv, hg⟩, rfl⟩

theorem mem_taken_of_refill (ho : s.Overtaken) {v : Voice} (hv : v ∈ s.voices)
    (he : .envelope e ∈ v.refill s.published s.cursor) : e ∈ s.taken := by
  have hm : Entry.envelope e ∈ s.entries := by
    rw [entries, refills, if_pos ho]
    exact List.mem_append_left _ (List.mem_append_left _ (List.mem_flatMap.mpr ⟨v, hv, he⟩))
  rw [← taken_eq]
  exact List.mem_filterMap.mpr ⟨.envelope e, hm, rfl⟩

theorem taken_or_loss (h : Sound s) (hu : e ∈ s.unread) (hm : ¬ s.Misses e) :
    e ∈ s.taken ∨ ∃ g ∈ s.losses, g.Covers e := by
  have he : e ∈ s.published := List.mem_of_mem_drop hu
  have hnew := h.isNew_of_unread hu
  by_cases ho : s.Overtaken
  case neg => exact .inl (taken_of_unread h hu ho)
  by_cases hholds : s.Holds e
  · obtain ⟨v, hv, hsp⟩ := (holds_iff h he).mp hholds
    rcases v.mem_refill_of_isNew h.ordered hsp hnew with hr | ⟨g, hg, hc⟩
    · exact .inl (mem_taken_of_refill ho hv hr)
    · exact .inr ⟨g, mem_losses_of_refill ho hv hg, hc⟩
  -- nobody has it, so it is still on the bus and only older runs are handed out before it
  · have hkeeps : ¬ s.Skips e := fun hk => hm ⟨ho, hholds, .inl hk⟩
    have hbus : e ∈ s.onBus := by
      rw [onBus, Nat.max_eq_right (Nat.le_of_lt ho)]
      rw [← List.take_append_drop s.bus.oldest s.published] at he
      exact (List.mem_append.mp he).resolve_left fun hg => hkeeps ⟨hu, .inl hg⟩
    refine .inl (List.mem_append_right _ (List.mem_filter.mpr ⟨hbus, ?_⟩))
    refine (Cursor.isNew_follow _ _ _).mpr ⟨hnew, ?_⟩
    intro x hx hxs
    obtain ⟨-, ⟨v, hv, hk⟩, -⟩ := kept_of_refilled hx
    have hsp : x ∈ v.spoken s.published := List.mem_of_mem_drop hk
    obtain ⟨-, hvs, hve⟩ := v.mem_spoken.mp hsp
    have hsource : v.source = e.source := hvs.symm.trans hxs
    have hne : v.epoch ≠ e.epoch := fun heq =>
      hholds ((holds_iff h he).mpr ⟨v, hv, v.mem_spoken.mpr ⟨he, hsource.symm, heq.symm⟩⟩)
    have hle : ¬ e.epoch < v.epoch := by
      intro hlt
      refine hkeeps ⟨hu, .inr ⟨_, (mem_histories h).mpr ⟨v, hv, rfl⟩, hsource, ?_⟩⟩
      rcases window_cases v s.published with ⟨hn, -, -⟩ | ⟨l, -, hep, -⟩
      · rw [hn] at hsp
        cases hsp
      · exact Nat.lt_of_lt_of_eq hlt hep.symm
    refine Stamp.before_iff.mpr (.inl ?_)
    show x.epoch < e.epoch
    omega

theorem covers_of_loss (h : Sound s) (hh : Honest s) {g l : DeliveryGap}
    (hg : g ∈ s.reducer.gaps) (hc : g.Covers e) (hl : l ∈ s.losses) (hs : l.source = g.source)
    (hsp : ∃ v ∈ s.voices, e ∈ v.spoken s.published) : l.Covers e := by
  obtain ⟨hgs, hge, hgl⟩ := hc
  obtain ⟨v, hv, hsp⟩ := hsp
  obtain ⟨-, hes, hee⟩ := v.mem_spoken.mp hsp
  obtain ⟨-, v', hv', x, hx, -, rfl⟩ := mem_losses.mp hl
  obtain ⟨-, hxs, hxe⟩ := source_of_dropped hx
  obtain rfl := h.voice_unique hv hv' (hes.symm.trans (hgs.symm.trans (hs.symm.trans hxs)))
  obtain ⟨y, hy, hseq⟩ := hh.waiting g hg v hv (hes.symm.trans hgs.symm) (hee.symm.trans hge.symm)
  have hys := (v.mem_spoken.mp (List.mem_of_mem_take hy)).2
  refine ⟨hs.trans hgs, hxe.trans hee.symm, ?_⟩
  have hord : Ordered (v.dropped s.published) :=
    (v.ordered_spoken h.ordered).sublist (List.take_sublist _ _)
  have hyx : y.seq ≤ x.seq := by
    rcases hord.eq_or_before_getLast hy hx with rfl | hb
    · exact Nat.le_refl _
    · have hb' := Stamp.before_iff.mp (hb (hys.1.trans hxs.symm))
      have hep : y.stamp.epoch = x.stamp.epoch := hys.2.trans hxe.symm
      show y.stamp.seq ≤ x.stamp.seq
      omega
  show e.seq ≤ x.seq
  omega

theorem accounted_catchUp (h : Sound s) (hh : Honest s) (he : e ∈ s.published)
    (hp : e.policy = .critical) (hm : ¬ s.Misses e) (ha : e ∈ s.unread ∨ s.Accounted e) :
    s.catchUp.Accounted e := by
  have hshown := shown_catchUp_of_critical h hp
  have hnew : ∀ l ∈ s.losses, l ∈ s.catchUp.gaps :=
    fun l hl => List.mem_append_left _ ((mem_reducer_gaps_catchUp h).mpr (.inl hl))
  have hgiven : ∀ g ∈ announced s.delivered, g ∈ s.catchUp.gaps :=
    fun g hg => List.mem_append_right _ hg
  rcases ha with hu | hs | ⟨g, hg, hc⟩
  · rcases taken_or_loss h hu hm with ht | ⟨g, hg, hc⟩
    · have := List.count_pos_iff.mpr ht
      exact .inl (by omega)
    · exact .inr ⟨g, hnew g hg, hc⟩
  · exact .inl (by omega)
  rcases List.mem_append.mp hg with hw | hg
  case inr => exact .inr ⟨g, hgiven g hg, hc⟩
  by_cases hl : ∃ l ∈ s.losses, l.source = g.source
  · obtain ⟨l, hl, hs⟩ := hl
    by_cases hholds : s.Holds e
    · exact .inr ⟨l, hnew l hl, covers_of_loss h hh hw hc hl hs ((holds_iff h he).mp hholds)⟩
    -- it is displaced unless something else told of it already
    · have ho : s.Overtaken := (mem_losses.mp hl).1
      by_cases hs₀ : s.shown e = 0
      · by_cases hd : ∃ g ∈ announced s.delivered, g.Covers e
        · obtain ⟨g', hg', hc'⟩ := hd
          exact .inr ⟨g', hgiven g' hg', hc'⟩
        · refine absurd ⟨ho, hholds, .inr ⟨?_, hs₀, ⟨g, hw, hc⟩, ?_, ?_⟩⟩ hm
          · exact hh.read_of_covers h (List.mem_append_left _ hw) hc he
          · exact fun g' hg' hc' => hd ⟨g', hg', hc'⟩
          · exact (lost_iff h ho).mpr ⟨l, hl, hs.trans hc.1⟩
      · exact .inl (by omega)
  · refine .inr ⟨g, List.mem_append_left _ ?_, hc⟩
    exact (mem_reducer_gaps_catchUp h).mpr (.inr ⟨hw, fun l hl' hs => hl ⟨l, hl', hs⟩⟩)

def MissedOnTheWay (s s' : Scene) (e : Envelope) : Prop :=
  ∃ a, Leads s a ∧ Leads a.catchUp s' ∧ a.Misses e

theorem MissedOnTheWay.tail {s'' : Scene} (h : MissedOnTheWay s s' e) (hm : Move s' s'') :
    MissedOnTheWay s s'' e := by
  obtain ⟨a, ha, hac, hmiss⟩ := h
  exact ⟨a, ha, hac.tail hm, hmiss⟩

theorem accounted_or_missed (hf : Fresh s) (hl : Leads s s') (hu : Unspent s')
    (he : e ∈ s'.published) (hp : e.policy = .critical) :
    e ∈ s'.unread ∨ s'.Accounted e ∨ MissedOnTheWay s s' e := by
  revert he
  refine hf.sound.induct
    (P := fun b => e ∈ b.published → e ∈ b.unread ∨ b.Accounted e ∨ MissedOnTheWay s b e)
    hl hu ?_ ?_ ?_
  · intro he
    rw [hf.published] at he
    cases he
  · intro b hl hsound hb ih he
    have hhonest := hf.honest.leads hf.sound hl hb
    by_cases hmiss : b.Misses e
    · exact .inr (.inr ⟨b, hl, .refl, hmiss⟩)
    rcases ih he with hn | hacc | hmissed
    · exact .inr (.inl (accounted_catchUp hsound hhonest he hp hmiss (.inl hn)))
    · exact .inr (.inl (accounted_catchUp hsound hhonest he hp hmiss (.inr hacc)))
    · exact .inr (.inr (hmissed.tail (.catchUp b)))
  · intro b c hl hsound _ hm hst hha ih he
    rcases Sound.read_or_unread he with hr | hn
    · rw [hst.read] at hr
      rcases ih (Sound.published_of_read hr) with hn | hacc | hmissed
      · exact absurd hn (hsound.not_unread hr)
      · refine .inr (.inl (hacc.imp ?_ ?_))
        · exact fun hsh => hha.shown e ▸ hsh
        · rintro ⟨g, hg, hc⟩
          exact ⟨g, (hha.mem_gaps g).mpr hg, hc⟩
      · exact .inr (.inr (hmissed.tail hm))
    · exact .inl hn

theorem told_iff (hf : Fresh s) (hl : Leads s s') (hu : Unspent s') (hs : Settled s')
    (he : e ∈ s'.published) (hp : e.policy = .critical) :
    (e ∈ notified s'.delivered ∨ ∃ g ∈ announced s'.delivered, g.Covers e) ↔
      ¬ MissedOnTheWay s s' e := by
  have h := hf.sound
  have haccounted : s'.Accounted e ↔
      e ∈ notified s'.delivered ∨ ∃ g ∈ announced s'.delivered, g.Covers e := by
    rw [Accounted, shown, gaps, hs.pending, hs.gaps, List.count_nil, Nat.zero_add,
      List.count_pos_iff, List.nil_append]
  rw [← haccounted]
  constructor
  · rintro hacc ⟨a, ha, hac, hmiss⟩
    have ha' : Unspent a := hac.unspent_of_catchUp hu
    have hsound := h.leads ha ha'
    have hlost := lost_of_misses hsound (hf.honest.leads h ha ha') hmiss
    exact (hlost.leads hsound.catchUp hac hu).silent hacc
  · intro hn
    rcases accounted_or_missed hf hl hu he hp with hun | hacc | hmiss
    · exact absurd hun ((h.leads hl hu).not_unread (hs.read ▸ he))
    · exact hacc
    · exact absurd hmiss hn

def Anchored (s : Scene) : Prop :=
  ∀ e ∈ s.published, e.source = .filesystem → ∃ v ∈ s.voices, e ∈ v.spoken s.published

theorem Anchored.move (ha : Anchored s) (hm : Move s s') (hu : Unspent s') : Anchored s' := by
  cases hm with
  | catchUp => exact ha
  | control c => exact ha
  | frame now => exact ha
  | finish now => exact ha
  | @tell front behind sp sp' told hs ht =>
    have hw := hu.told
    have hvoice : (front ++ sp' :: behind).map Speaker.voice = s.voices := by
      rw [voices, hs, List.map_append, List.map_cons, List.map_append, List.map_cons,
        voice_of_tells ht hw]
    intro e he hfs
    show ∃ v ∈ (front ++ sp' :: behind).map Speaker.voice, e ∈ v.spoken (s.published ++ told)
    rw [hvoice]
    rcases List.mem_append.mp he with he | he
    · obtain ⟨v, hv, hsp⟩ := ha e he hfs
      rw [v.mem_spoken] at hsp
      exact ⟨v, hv, v.mem_spoken.mpr ⟨List.mem_append_left _ hsp.1, hsp.2⟩⟩
    · refine ⟨sp.voice, List.mem_map.mpr ⟨sp, mem_speakers_of_split hs, rfl⟩, ?_⟩
      rw [Voice.spoken_append, spoken_told ht hw]
      exact List.mem_append_right _ he
  | @leave front behind sp sp' told pane hp hs ht =>
    have hw := hu.told
    intro e he hfs
    rcases List.mem_append.mp he with he | he
    · obtain ⟨v, hv, hsp⟩ := ha e he hfs
      obtain ⟨x, hx, rfl⟩ := List.mem_map.mp hv
      rw [Voice.mem_spoken] at hsp
      have hxs : x.source = .filesystem := hsp.2.1.symm.trans hfs
      have hne : x ≠ sp := by
        rintro rfl
        rw [hxs] at hp
        cases hp
      refine ⟨x.voice, List.mem_map.mpr ⟨x, ?_, rfl⟩,
        Voice.mem_spoken _ |>.mpr ⟨List.mem_append_left _ hsp.1, hsp.2⟩⟩
      rw [hs] at hx
      simp only [Scene.say, List.mem_append, List.mem_cons] at hx ⊢
      tauto
    · have hes := ((ht.numbers.spec hw).2.2.2 e he).1
      rw [hfs, hp] at hes
      cases hes
  | @enter front behind pane capacity hs hnew =>
    intro e he hfs
    obtain ⟨v, hv, hsp⟩ := ha e he hfs
    obtain ⟨x, hx, rfl⟩ := List.mem_map.mp hv
    exact ⟨x.voice, List.mem_map.mpr ⟨x, (mem_speakers_welcome hs).mpr (.inr hx), rfl⟩, hsp⟩

theorem Anchored.leads (ha : Anchored s) (hl : Leads s s') (hu : Unspent s') : Anchored s' := by
  induction hl with
  | refl => exact ha
  | tail _ hm ih => exact (ih (hm.unspent hu)).move hm hu

theorem not_missed_of_filesystem (hf : Fresh s) (hu : Unspent s') (hfs : e.source = .filesystem) :
    ¬ MissedOnTheWay s s' e := by
  rintro ⟨a, ha, hac, hmiss⟩
  have hua : Unspent a := hac.unspent_of_catchUp hu
  have he := hmiss.published
  have hanchored : Anchored s := by
    intro x hx
    rw [hf.published] at hx
    cases hx
  exact hmiss.2.1 ((holds_iff (hf.sound.leads ha hua) he).mpr (hanchored.leads ha hua e he hfs))

end Scene

end Switchboard
