import Switchboard.Proofs.Notifier.CatchUp

/-!
# What becomes of an envelope

Only catching up reads the bus. Every other move leaves what waits in the reducer where it is, or
hands all of it out. So what was handed out or announced stays so, and was read before; and a gap
that waits to be announced speaks of what is gone from a history, not of what it still has.
-/
namespace Switchboard

namespace Scene

variable {s s' : Scene}

def shown (s : Scene) (e : Envelope) : Nat :=
  s.reducer.pending.count e + (notified s.delivered).count e

def gaps (s : Scene) : List DeliveryGap := s.reducer.gaps ++ announced s.delivered

def Hands (s s' : Scene) : Prop :=
  s'.reducer = s.reducer ∧ s'.delivered = s.delivered ∨
    s'.reducer.pending = [] ∧ s'.reducer.gaps = [] ∧
      (∀ e, (notified s'.delivered).count e = s.shown e) ∧
      announced s'.delivered = announced s.delivered ++ s.reducer.gaps

structure Steady (s s' : Scene) : Prop where
  published : s.published <+: s'.published
  read : s'.read = s.read
  voices : ∀ v ∈ s'.voices, v ∈ s.voices ∨ v.spoken s.published = []

namespace Hands

variable (h : Hands s s')

include h

theorem shown (e : Envelope) : s'.shown e = s.shown e := by
  rcases h with ⟨hr, hd⟩ | ⟨hp, -, hn, -⟩
  · rw [Scene.shown, Scene.shown, hr, hd]
  · rw [Scene.shown, hp, hn, List.count_nil, Nat.zero_add]

theorem notified_le (e : Envelope) :
    (notified s.delivered).count e ≤ (notified s'.delivered).count e := by
  rcases h with ⟨-, hd⟩ | ⟨-, -, hn, -⟩
  · exact Nat.le_of_eq (by rw [hd])
  · rw [hn]
    exact Nat.le_add_left _ _

theorem mem_gaps (g : DeliveryGap) : g ∈ s'.gaps ↔ g ∈ s.gaps := by
  rcases h with ⟨hr, hd⟩ | ⟨-, hg, -, ha⟩
  · rw [gaps, gaps, hr, hd]
  · rw [gaps, gaps, hg, ha, List.nil_append, List.mem_append, List.mem_append]
    exact or_comm

theorem mem_reducer_gaps {g : DeliveryGap} (hg : g ∈ s'.reducer.gaps) : g ∈ s.reducer.gaps := by
  rcases h with ⟨hr, -⟩ | ⟨-, hn, -, -⟩
  · exact hr ▸ hg
  · rw [hn] at hg
    cases hg

end Hands

theorem hands_deliver {out : Notifier × Option Batch} {now : Nat}
    (ho : out = (s.notifier, none) ∨ out = (⟨⟨(s.reducer.flush now).1, s.cursor⟩,
      s.notifier.next, s.notifier.controls⟩, some (s.reducer.flush now).2)) :
    Hands s (s.deliver out) := by
  rcases ho with rfl | rfl
  · exact .inl ⟨rfl, List.append_nil _⟩
  · obtain ⟨hg, ha⟩ := s.reducer.gaps_flush now
    refine .inr ⟨s.reducer.pending_flush now, hg, ?_, ?_⟩
    · intro e
      show (notified (s.delivered ++ [(s.reducer.flush now).2])).count e = _
      rw [notified_append, List.count_append, s.reducer.count_flush now e]
      exact Nat.add_comm _ _
    · show announced (s.delivered ++ [(s.reducer.flush now).2]) = _
      rw [announced_append, ha]

theorem steady_deliver {out : Notifier × Option Batch} (hn : out.1.next = s.notifier.next) :
    Steady s (s.deliver out) := by
  refine ⟨List.prefix_rfl, ?_, fun v hv => .inl hv⟩
  show s.published.take out.1.next = _
  rw [hn]
  rfl

theorem steady_say (h : Sound s) {front behind keep : List Speaker} {sp sp' : Speaker}
    {told : List Envelope} (hs : s.speakers = front ++ sp :: behind) (ht : sp.Tells told sp')
    (hk : keep = [sp'] ∨ keep = []) (hu : Unspent (s.say (front ++ keep ++ behind) told)) :
    Steady s (s.say (front ++ keep ++ behind) told) := by
  refine ⟨List.prefix_append _ _, List.take_append_of_le_length h.place, ?_⟩
  intro v hv
  exact .inl (mem_voices_say hs ht hu.told hk hv)

theorem steady_welcome (h : Sound s) {front behind : List Speaker} {pane : PaneId}
    {capacity : Nat} (hs : s.speakers = front ++ behind)
    (hu : Unspent (s.welcome front behind pane capacity)) :
    Steady s (s.welcome front behind pane capacity) := by
  refine ⟨List.prefix_rfl, rfl, ?_⟩
  intro v hv
  obtain ⟨x, hx, rfl⟩ := List.mem_map.mp hv
  rcases (mem_speakers_welcome hs).mp hx with rfl | hx
  · exact .inr (h.silent_newcomer hu capacity)
  · exact .inl (List.mem_map.mpr ⟨x, hx, rfl⟩)

theorem Move.steady (hm : Move s s') (h : Sound s) (hu : Unspent s') :
    s' = s.catchUp ∨ Steady s s' ∧ Hands s s' := by
  have hsame : ∀ {front behind : List Speaker} {told : List Envelope},
      Hands s (s.say (front ++ behind) told) := .inl ⟨rfl, rfl⟩
  cases hm with
  | catchUp => exact .inl rfl
  | control c => exact .inr ⟨⟨List.prefix_rfl, rfl, fun v hv => .inl hv⟩, .inl ⟨rfl, rfl⟩⟩
  | frame now =>
    refine .inr ⟨steady_deliver ?_, hands_deliver (s.notifier.tick_cases now)⟩
    rcases s.notifier.tick_cases now with ht | ht <;> rw [ht]
  | finish now =>
    have hf := (s.notifier.finish_cases now).imp_left And.left
    refine .inr ⟨steady_deliver ?_, hands_deliver hf⟩
    rcases hf with hf | hf <;> rw [hf]
  | @tell front behind sp sp' told hs ht =>
    have heq : front ++ sp' :: behind = front ++ [sp'] ++ behind := by simp
    rw [heq] at hu ⊢
    exact .inr ⟨steady_say h hs ht (.inl rfl) hu, hsame⟩
  | @leave front behind sp sp' told pane hp hs ht =>
    have heq : front ++ behind = front ++ [] ++ behind := by simp
    rw [heq] at hu ⊢
    exact .inr ⟨steady_say h hs ht (.inr rfl) hu, hsame⟩
  | enter pane capacity hs hnew => exact .inr ⟨steady_welcome h hs hu, .inl ⟨rfl, rfl⟩⟩

theorem Sound.induct {P : Scene → Prop} (h : Sound s) (hl : Leads s s') (hu : Unspent s')
    (start : P s) (catchUp : ∀ b, Leads s b → Sound b → Unspent b → P b → P b.catchUp)
    (steady : ∀ b c, Leads s b → Sound b → Unspent c → Move b c → Steady b c → Hands b c →
      P b → P c) : P s' := by
  induction hl with
  | refl => exact start
  | @tail b c hl hm ih =>
    have hb := hm.unspent hu
    have hsound := h.leads hl hb
    rcases hm.steady hsound hu with rfl | ⟨hst, hha⟩
    · exact catchUp b hl hsound hb (ih hb)
    · exact steady b c hl hsound hu hm hst hha (ih hb)

theorem shown_catchUp_le (h : Sound s) (e : Envelope) :
    s.catchUp.shown e ≤ s.shown e + s.taken.count e := by
  have hle := Reducer.count_after_le s.gathers_entries s.reducer e
  rw [taken_eq] at hle
  have hd : s.catchUp.delivered = s.delivered := rfl
  rw [shown, shown, reducer_catchUp h, hd]
  omega

theorem shown_catchUp_of_critical (h : Sound s) {e : Envelope} (he : e.policy = .critical) :
    s.catchUp.shown e = s.shown e + s.taken.count e := by
  have heq := Reducer.count_after_of_critical s.gathers_entries h.tidy he
  rw [taken_eq] at heq
  have hd : s.catchUp.delivered = s.delivered := rfl
  rw [shown, shown, reducer_catchUp h, hd]
  omega

theorem mem_reducer_gaps_catchUp (h : Sound s) {g : DeliveryGap} :
    g ∈ s.catchUp.reducer.gaps ↔
      g ∈ s.losses ∨ g ∈ s.reducer.gaps ∧ ∀ l ∈ s.losses, l.source ≠ g.source := by
  have hd := distinct_losses h
  rw [← losses_eq] at hd
  rw [reducer_catchUp h, Reducer.mem_gaps_after s.gathers_entries hd, losses_eq]

theorem mem_gaps_catchUp (h : Sound s) {g : DeliveryGap} (hg : g ∈ s.catchUp.gaps) :
    g ∈ s.losses ∨ g ∈ s.gaps := by
  rcases List.mem_append.mp hg with hg | hg
  · rcases (mem_reducer_gaps_catchUp h).mp hg with hg | ⟨hg, -⟩
    · exact .inl hg
    · exact .inr (List.mem_append_left _ hg)
  · exact .inr (List.mem_append_right _ hg)

theorem Sound.published_of_read {e : Envelope} (he : e ∈ s.read) : e ∈ s.published :=
  List.mem_of_mem_take he

theorem Sound.not_unread (h : Sound s) {e : Envelope} (he : e ∈ s.read) : e ∉ s.unread := by
  intro hu
  have hn := h.ordered.nodup
  rw [← List.take_append_drop s.notifier.next s.published] at hn
  exact (List.nodup_append.mp hn).2.2 e he e hu rfl

theorem Sound.read_or_unread {e : Envelope} (he : e ∈ s.published) :
    e ∈ s.read ∨ e ∈ s.unread := by
  rw [← List.take_append_drop s.notifier.next s.published] at he
  exact List.mem_append.mp he

theorem Sound.voice_unique (h : Sound s) {v v' : Voice} (hv : v ∈ s.voices) (hv' : v' ∈ s.voices)
    (hs : v.source = v'.source) : v = v' :=
  List.inj_on_of_nodup_map (distinct_voices h) hv hv' hs

theorem Sound.isNew_of_unread (h : Sound s) {e : Envelope}
    (he : e ∈ s.unread) : s.cursor.isNew e = true := by
  rw [Cursor.isNew_iff]
  intro stamp hst
  obtain ⟨x, hx, hxs, rfl⟩ := h.stamps hst
  exact h.ordered.before_of_take_drop _ hx he hxs

theorem kept_of_refilled {e : Envelope} (he : e ∈ s.refilled) :
    s.Overtaken ∧ (∃ v ∈ s.voices, e ∈ v.kept s.published) ∧ s.cursor.isNew e = true := by
  by_cases ho : s.Overtaken
  · rw [refilled, if_pos ho] at he
    exact ⟨ho, mem_newKept.mp he⟩
  · rw [refilled, if_neg ho] at he
    cases he

theorem taken_of_unread (h : Sound s) {e : Envelope} (hu : e ∈ s.unread) (ho : ¬ s.Overtaken) :
    e ∈ s.taken := by
  refine List.mem_append_right _ (List.mem_filter.mpr ⟨?_, ?_⟩)
  · rw [onBus, Nat.max_eq_left (Nat.le_of_not_lt ho)]
    exact hu
  · rw [refilled, if_neg ho]
    exact h.isNew_of_unread hu

/-- Nothing is left to read or to hand out. -/
structure Settled (s : Scene) : Prop where
  read : s.read = s.published
  pending : s.reducer.pending = []
  gaps : s.reducer.gaps = []

theorem settled_finish (h : Sound s) (now : Nat) :
    Settled (s.catchUp.deliver (s.catchUp.notifier.finish now)) := by
  rcases s.catchUp.notifier.finish_cases now with ⟨hf, hp⟩ | hf
  · rw [hf]
    obtain ⟨hpending, hgaps⟩ := Reducer.nothing_of_not_hasPending hp
    exact ⟨read_catchUp h, hpending, hgaps⟩
  · rw [hf]
    exact ⟨read_catchUp h, s.catchUp.reducer.pending_flush now, rfl⟩

structure Honest (s : Scene) : Prop where
  shown : ∀ e, 0 < s.shown e → e ∈ s.read
  gaps : ∀ g ∈ s.gaps, ∃ l ∈ s.read, g = ⟨l.source, l.epoch, l.seq⟩
  waiting : ∀ g ∈ s.reducer.gaps, ∀ v ∈ s.voices, v.source = g.source → v.epoch = g.epoch →
    ∃ l ∈ v.dropped s.published, g.lastSeq = l.seq

namespace Honest

theorem catchUp (hh : Honest s) (h : Sound s) : Honest s.catchUp := by
  have hread := read_catchUp h
  have hloss : ∀ g ∈ s.losses, ∃ v ∈ s.voices, ∃ l ∈ v.dropped s.published,
      g = ⟨l.source, l.epoch, l.seq⟩ := by
    intro g hg
    obtain ⟨-, v, hv, l, hl, -, rfl⟩ := mem_losses.mp hg
    exact ⟨v, hv, l, List.mem_of_getLast? hl, rfl⟩
  refine ⟨?_, ?_, ?_⟩
  · intro e he
    rw [hread]
    have hle := shown_catchUp_le h e
    by_cases hs : 0 < s.shown e
    · exact Sound.published_of_read (hh.shown e hs)
    · exact (mem_taken (List.count_pos_iff.mp (by omega))).1
  · intro g hg
    rw [hread]
    rcases mem_gaps_catchUp h hg with hg | hg
    · obtain ⟨v, -, l, hl, rfl⟩ := hloss g hg
      exact ⟨l, (v.mem_spoken.mp (List.mem_of_mem_take hl)).1, rfl⟩
    · obtain ⟨l, hl, rfl⟩ := hh.gaps g hg
      exact ⟨l, Sound.published_of_read hl, rfl⟩
  · intro g hg v hv hs he
    rcases (mem_reducer_gaps_catchUp h).mp hg with hg | ⟨hg, -⟩
    · obtain ⟨v', hv', l, hl, rfl⟩ := hloss g hg
      have hls := (v'.mem_spoken.mp (List.mem_of_mem_take hl)).2.1
      obtain rfl := h.voice_unique hv hv' (hs.trans hls)
      exact ⟨l, hl, rfl⟩
    · exact hh.waiting g hg v hv hs he

theorem steady (hh : Honest s) (hst : Steady s s') (hha : Hands s s') : Honest s' := by
  refine ⟨?_, ?_, ?_⟩
  · intro e he
    rw [hst.read]
    exact hh.shown e (hha.shown e ▸ he)
  · intro g hg
    rw [hst.read]
    exact hh.gaps g ((hha.mem_gaps g).mp hg)
  · intro g hg v hv hs he
    have hg' := hha.mem_reducer_gaps hg
    rcases hst.voices v hv with hv | hn
    · obtain ⟨l, hl, hseq⟩ := hh.waiting g hg' v hv hs he
      obtain ⟨more, hp⟩ := hst.published
      rw [← hp]
      exact ⟨l, (v.dropped_append s.published more).subset hl, hseq⟩
    -- a voice that has told nothing owns nothing that was lost
    · obtain ⟨l, hl, rfl⟩ := hh.gaps g (List.mem_append_left _ hg')
      have hsp := v.mem_spoken.mpr ⟨Sound.published_of_read hl, hs.symm, he.symm⟩
      rw [hn] at hsp
      cases hsp

theorem leads (hh : Honest s) (h : Sound s) (hl : Leads s s') (hu : Unspent s') : Honest s' := by
  refine h.induct hl hu hh ?_ ?_
  · intro b _ hsound _ ih
    exact ih.catchUp hsound
  · intro b c _ _ _ _ hst hha ih
    exact ih.steady hst hha

end Honest

structure Fresh (s : Scene) : Prop where
  sound : Sound s
  published : s.published = []
  pending : s.reducer.pending = []
  gaps : s.reducer.gaps = []
  delivered : s.delivered = []

namespace Fresh

variable (h : Fresh s)

include h

theorem shown (e : Envelope) : s.shown e = 0 := by
  rw [Scene.shown, h.pending, h.delivered]
  rfl

theorem honest : Honest s := by
  refine ⟨?_, ?_, ?_⟩
  · intro e he
    rw [h.shown] at he
    cases he
  · intro g hg
    rw [Scene.gaps, h.gaps, h.delivered] at hg
    cases hg
  · intro g hg
    rw [h.gaps] at hg
    cases hg

end Fresh

end Scene

end Switchboard
