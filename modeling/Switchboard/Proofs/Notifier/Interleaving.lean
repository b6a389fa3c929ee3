import Mathlib.Data.List.Nodup
import Switchboard.Proofs.Intake

/-!
# The relay from sources to the reducer

Some sources tell on one bus, each in numbers of its own that only grow, and each puts what it tells
into its history before it puts it on the bus. The notifier follows the bus and goes back to the
histories when it was overtaken. However these steps are mixed, and however small the ring and the
histories are, nothing enters the reducer twice, and nothing is missed without a gap.
-/
namespace Switchboard

namespace Ledger

variable {told : List Envelope} {l : Ledger}

/-- Whatever the cursor has gone past was accounted for, and nothing twice. -/
structure Faithful (told : List Envelope) (l : Ledger) : Prop where
  stamps : ∀ {source stamp}, l.cursor.last? source = some stamp →
    ∃ e ∈ told, e.source = source ∧ e.stamp = stamp
  accounts : ∀ e ∈ told, ¬ l.cursor.isNew e = true → l.Accounts e
  handed : ∀ e ∈ l.handed, e ∈ told ∧ ¬ l.cursor.isNew e = true
  once : l.handed.Nodup

theorem handed_append (l : Ledger) (c : Cursor) (xs : List Entry) :
    (Ledger.mk c (l.entries ++ xs)).handed = l.handed ++ xs.filterMap Entry.envelope? :=
  List.filterMap_append

theorem losses_append (l : Ledger) (c : Cursor) (xs : List Entry) :
    (Ledger.mk c (l.entries ++ xs)).losses = l.losses ++ xs.filterMap Entry.loss? :=
  List.filterMap_append

theorem accounts_append {c : Cursor} {xs : List Entry} {e : Envelope} (h : l.Accounts e) :
    (Ledger.mk c (l.entries ++ xs)).Accounts e := by
  rcases h with h | ⟨g, hg, hc⟩
  · refine .inl ?_
    rw [handed_append]
    exact List.mem_append_left _ h
  · refine .inr ⟨g, ?_, hc⟩
    rw [losses_append]
    exact List.mem_append_left _ hg

theorem accounts_of_mem {c : Cursor} {xs : List Entry} {e : Envelope}
    (h : .envelope e ∈ xs ∨ ∃ g, .loss g ∈ xs ∧ g.Covers e) :
    (Ledger.mk c (l.entries ++ xs)).Accounts e := by
  rcases h with h | ⟨g, hg, hc⟩
  · refine .inl ?_
    rw [handed_append]
    exact List.mem_append_right _ (List.mem_filterMap.mpr ⟨_, h, rfl⟩)
  · refine .inr ⟨g, ?_, hc⟩
    rw [losses_append]
    exact List.mem_append_right _ (List.mem_filterMap.mpr ⟨_, hg, rfl⟩)

namespace Faithful

theorem start : Faithful [] .start where
  stamps h := by cases h
  accounts e he := by cases he
  handed e he := by cases he
  once := .nil

theorem congr {other : List Envelope} (h : Faithful told l) (hm : ∀ e, e ∈ other ↔ e ∈ told) :
    Faithful other l where
  stamps hs := by
    obtain ⟨e, he, hes⟩ := h.stamps hs
    exact ⟨e, (hm e).mpr he, hes⟩
  accounts e he := h.accounts e ((hm e).mp he)
  handed e he := ⟨(hm e).mpr (h.handed e he).1, (h.handed e he).2⟩
  once := h.once

theorem isNew_of_newer (h : Faithful told l) {e : Envelope}
    (he : ∀ a ∈ told, a.source = e.source → a.stamp.before e.stamp = true) :
    l.cursor.isNew e = true := by
  rw [Cursor.isNew_iff]
  intro stamp hs
  obtain ⟨a, ha, has, hst⟩ := h.stamps hs
  exact hst ▸ he a ha has

theorem tell (h : Faithful told l) {e : Envelope}
    (he : ∀ a ∈ told, a.source = e.source → a.stamp.before e.stamp = true) :
    Faithful (told ++ [e]) l where
  stamps hs := by
    obtain ⟨a, ha, has⟩ := h.stamps hs
    exact ⟨a, List.mem_append_left _ ha, has⟩
  accounts a ha hn := by
    rcases List.mem_append.mp ha with ha | ha
    · exact h.accounts a ha hn
    · rw [List.mem_singleton.mp ha] at hn
      exact absurd (h.isNew_of_newer he) hn
  handed a ha := ⟨List.mem_append_left _ (h.handed a ha).1, (h.handed a ha).2⟩
  once := h.once

theorem write (h : Faithful told l) {x : Entry} (he : x.envelope? = none) (hl : x.loss? = none) :
    Faithful told (l.write x) := by
  have hh : (l.write x).handed = l.handed := by
    rw [Ledger.write, handed_append]
    simp [he]
  have hlo : (l.write x).losses = l.losses := by
    rw [Ledger.write, losses_append]
    simp [hl]
  refine ⟨h.stamps, ?_, ?_, ?_⟩
  · intro e he hn
    simpa only [Accounts, hh, hlo] using h.accounts e he hn
  · rw [hh]
    exact h.handed
  · rw [hh]
    exact h.once

theorem accept (h : Faithful told l) (hord : Ordered told) {e : Envelope} (he : e ∈ told)
    (hold : ∀ a ∈ told, a.source = e.source → a.stamp.before e.stamp = true →
      ¬ l.cursor.isNew a = true) : Faithful told (l.accept e) := by
  by_cases hn : l.cursor.isNew e = true
  · have ha : l.accept e = ⟨(l.cursor.advance e).1, l.entries ++ [.envelope e]⟩ := by
      simp [Ledger.accept, Cursor.advance, hn, Ledger.write]
    have hh : (l.accept e).handed = l.handed ++ [e] := by
      rw [ha, handed_append]
      rfl
    rw [ha] at hh ⊢
    refine ⟨?_, ?_, ?_, ?_⟩
    · intro source stamp hs
      rcases Cursor.last?_advance hs with hs | ⟨hs, hst⟩
      · exact h.stamps hs
      · exact ⟨e, he, hs, hst⟩
    · intro a ham hna
      by_cases hold' : l.cursor.isNew a = true
      · have hnot : ¬ (e.source = a.source → e.stamp.before a.stamp = true) :=
          fun hb => hna ((Cursor.isNew_advance _ _ _).mpr ⟨hold', hb⟩)
        push Not at hnot
        obtain ⟨hs, hb⟩ := hnot
        rcases Stamp.not_before_iff.mp (by simpa using hb) with hb | hb
        · exact absurd hold' (hold a ham hs.symm hb)
        · rw [hord.eq_of_stamp ham he hs.symm hb.symm]
          exact accounts_of_mem (.inl List.mem_cons_self)
      · exact accounts_append (h.accounts a ham hold')
    · intro a haa
      rw [hh] at haa
      rcases List.mem_append.mp haa with haa | haa
      · refine ⟨(h.handed a haa).1, fun hna => (h.handed a haa).2 ?_⟩
        exact ((Cursor.isNew_advance _ _ _).mp hna).1
      · rw [List.mem_singleton.mp haa]
        exact ⟨he, by rw [Cursor.isNew_advance_self]; exact Bool.false_ne_true⟩
    · rw [hh, List.nodup_append]
      refine ⟨h.once, by simp, ?_⟩
      rintro a haa b hb rfl
      rw [List.mem_singleton.mp hb] at haa
      exact (h.handed e haa).2 hn
  · have ha : l.accept e = l := by simp [Ledger.accept, Cursor.advance, hn]
    rw [ha]
    exact h

theorem recover (h : Faithful told l) (hord : Ordered told) {voices : List Voice}
    (hd : (voices.map Voice.source).Nodup)
    (hown : ∀ e ∈ told, ∃ v ∈ voices, e ∈ v.spoken told) :
    Faithful told (l.recover (voices.map (·.history told))) ∧
      ∀ e ∈ told, ¬ (l.recover (voices.map (·.history told))).cursor.isNew e = true := by
  rw [recover_histories hord hd]
  have hseen : ∀ e ∈ told,
      ¬ (l.cursor.follow (newKept voices told l.cursor)).isNew e = true := by
    intro e he
    obtain ⟨v, hv, hs⟩ := hown e he
    exact not_isNew_follow_newKept hord hv hs
  have hkept : ∀ e ∈ newKept voices told l.cursor, e ∈ told ∧ l.cursor.isNew e = true := by
    intro e he
    obtain ⟨⟨v, -, he⟩, hn⟩ := mem_newKept.mp he
    exact ⟨(v.mem_spoken.mp (List.mem_of_mem_drop he)).1, hn⟩
  have hh : (Ledger.mk (l.cursor.follow (newKept voices told l.cursor))
      (l.entries ++ voices.flatMap (·.refill told l.cursor))).handed =
        l.handed ++ newKept voices told l.cursor := by
    rw [handed_append, List.filterMap_flatMap, newKept]
    congr 2
    funext v
    exact v.filterMap_envelope?_refill told l.cursor
  refine ⟨⟨?_, ?_, ?_, ?_⟩, hseen⟩
  · intro source stamp hs
    rcases Cursor.last?_follow hs with hs | ⟨e, he, hes⟩
    · exact h.stamps hs
    · exact ⟨e, (hkept e he).1, hes⟩
  · intro e he _
    by_cases hn : l.cursor.isNew e = true
    · obtain ⟨v, hv, hs⟩ := hown e he
      refine accounts_of_mem ?_
      rcases v.mem_refill_of_isNew hord hs hn with hm | ⟨g, hg, hc⟩
      · exact .inl (List.mem_flatMap.mpr ⟨v, hv, hm⟩)
      · exact .inr ⟨g, List.mem_flatMap.mpr ⟨v, hv, hg⟩, hc⟩
    · exact accounts_append (h.accounts e he hn)
  · intro e he
    rw [hh] at he
    have het : e ∈ told := by
      rcases List.mem_append.mp he with he | he
      · exact (h.handed e he).1
      · exact (hkept e he).1
    exact ⟨het, hseen e het⟩
  · rw [hh, List.nodup_append]
    refine ⟨h.once, (ordered_newKept hord hd).nodup, ?_⟩
    rintro a ha b hb rfl
    exact (h.handed a ha).2 (hkept a hb).2

end Faithful

end Ledger

/-- The bus, the histories of all who tell on it, and the notifier that follows it. -/
structure Relay where
  bus : Ring Envelope
  histories : List ReplayBuffer
  /-- What is in a history and not yet on the bus. -/
  waiting : List Envelope
  published : List Envelope
  notifier : Notifier
  ledger : Ledger

namespace Relay

inductive Step where
  | keep (e : Envelope)
  | publish (source : Source)
  | receive
  | control (c : Control)
  | frame (now : Nat)
  deriving DecidableEq

def start (voices : List Voice) (busCapacity frame : Nat) : Relay where
  bus := .create busCapacity
  histories := voices.map fun v => .create v.source v.capacity
  waiting := []
  published := []
  notifier := .create frame
  ledger := .start

def keep (r : Relay) (e : Envelope) : Relay :=
  { r with histories := r.histories.map (·.push e), waiting := r.waiting ++ [e] }

def publish (r : Relay) (source : Source) : Relay :=
  match r.waiting.find? (·.source = source) with
  | none => r
  | some e =>
    { r with
      bus := r.bus.send e
      waiting := r.waiting.erase e
      published := r.published ++ [e] }

def receive (r : Relay) : Relay :=
  let (received, next) := r.bus.receive r.notifier.next
  { r with
    notifier := { r.notifier with
      intake := Notifier.receive r.histories r.notifier.intake received
      next }
    ledger := r.ledger.receive r.histories received }

theorem receive_eq {r : Relay} {x : Ring.Received Envelope} {next : Nat}
    (h : r.bus.receive r.notifier.next = (x, next)) :
    r.receive = { r with
      notifier := { r.notifier with
        intake := Notifier.receive r.histories r.notifier.intake x
        next }
      ledger := r.ledger.receive r.histories x } := by
  simp only [receive, h]

def control (r : Relay) (c : Control) : Relay :=
  { r with
    notifier := { r.notifier with intake := r.notifier.intake.control c }
    ledger := r.ledger.control c }

def frame (r : Relay) (now : Nat) : Relay :=
  { r with
    notifier := (r.notifier.tick now).1
    ledger := if r.notifier.intake.reducer.isDue now then r.ledger.write (.flush now)
      else r.ledger }

def step (r : Relay) : Step → Relay
  | .keep e => r.keep e
  | .publish source => r.publish source
  | .receive => r.receive
  | .control c => r.control c
  | .frame now => r.frame now

def run (r : Relay) (steps : List Step) : Relay := steps.foldl step r

def told (r : Relay) : List Envelope := r.published ++ r.waiting

def Step.kept? : Step → Option Envelope
  | .keep e => some e
  | _ => none

def kept (steps : List Step) : List Envelope := steps.filterMap Step.kept?

/-- Each source has one voice and numbers what it tells from 1 upward, and the notifier is not told
to forget any of them. -/
structure Lawful (voices : List Voice) (steps : List Step) : Prop where
  distinct : (voices.map Voice.source).Nodup
  owned : ∀ e ∈ kept steps, ∃ v ∈ voices, e.source = v.source ∧ e.epoch = v.epoch
  grows : (kept steps).Pairwise fun a b => a.source = b.source → a.seq < b.seq
  positive : ∀ e ∈ kept steps, 1 ≤ e.seq
  remembers : ∀ pane, .control (.forget pane) ∉ steps

theorem Lawful.of_append {voices : List Voice} {steps more : List Step}
    (h : Lawful voices (steps ++ more)) : Lawful voices steps := by
  have hk : kept (steps ++ more) = kept steps ++ kept more := List.filterMap_append
  have hsub : (kept steps).Sublist (kept (steps ++ more)) := hk ▸ List.sublist_append_left _ _
  exact ⟨h.distinct, fun e he => h.owned e (hsub.subset he), h.grows.sublist hsub,
    fun e he => h.positive e (hsub.subset he),
    fun pane hp => h.remembers pane (List.mem_append_left _ hp)⟩

structure Sound (voices : List Voice) (size frame : Nat) (r : Relay) : Prop where
  bus : r.bus = .window size r.published
  histories : r.histories = voices.map (·.history r.told)
  intake : r.notifier.intake = r.ledger.intake (.create frame 0)
  place : r.notifier.next ≤ r.published.length
  ordered : Ordered r.told
  owned : ∀ e ∈ r.told, ∃ v ∈ voices, e ∈ v.spoken r.told
  seen : ∀ e ∈ r.published.take r.notifier.next, ¬ r.ledger.cursor.isNew e = true
  faithful : r.ledger.Faithful r.told

theorem publish_cases (r : Relay) (source : Source) :
    r.publish source = r ∨ ∃ e before behind,
      r.waiting = before ++ e :: behind ∧ (∀ a ∈ before, a.source ≠ e.source) ∧
      r.publish source = { r with
        bus := r.bus.send e
        waiting := before ++ behind
        published := r.published ++ [e] } := by
  simp only [publish]
  cases hf : r.waiting.find? (·.source = source) with
  | none => exact .inl rfl
  | some e =>
    obtain ⟨hs, before, behind, hw, hb⟩ := List.find?_eq_some_iff_append.mp hf
    have hne : ∀ a ∈ before, a.source ≠ e.source := by
      intro a ha hae
      have := hb a ha
      simp_all
    have herase : r.waiting.erase e = before ++ behind := by
      rw [hw, List.erase_append_right _ fun he => hne e he rfl, List.erase_cons_head]
    exact .inr ⟨e, before, behind, hw, hne, by simp only [herase]⟩

theorem mem_told_step (r : Relay) (s : Step) (e : Envelope) :
    e ∈ (r.step s).told ↔ e ∈ r.told ∨ s.kept? = some e := by
  cases s with
  | keep a =>
    have : (r.step (.keep a)).told = r.told ++ [a] := (List.append_assoc _ _ _).symm
    simp [this, Step.kept?, eq_comm]
  | publish source =>
    rcases r.publish_cases source with h | ⟨a, before, behind, hw, -, h⟩
    · simp [step, h, Step.kept?]
    · simp only [step, h, told, hw, Step.kept?, List.mem_append, List.mem_cons, reduceCtorEq,
        or_false, List.not_mem_nil]
      tauto
  | receive => simp [step, receive, told, Step.kept?]
  | control c => simp [step, control, told, Step.kept?]
  | frame now => simp [step, frame, told, Step.kept?]

namespace Sound

variable {voices : List Voice} {size frame : Nat} {r : Relay}

theorem start (voices : List Voice) (busCapacity frame : Nat) :
    Sound voices (Ring.sizeFor busCapacity) frame (.start voices busCapacity frame) where
  bus := Ring.create_eq_window busCapacity
  histories := rfl
  intake := rfl
  place := Nat.le_refl 0
  ordered := .nil
  owned e he := by cases he
  seen e he := by cases he
  faithful := .start

theorem keep (h : Sound voices size frame r) (hd : (voices.map Voice.source).Nodup)
    {e : Envelope} {v : Voice} (hv : v ∈ voices)
    (hs : e.source = v.source) (he : e.epoch = v.epoch) (hpos : 1 ≤ e.seq)
    (hnew : ∀ a ∈ r.told, a.source = e.source → a.stamp.before e.stamp = true) :
    Sound voices size frame (r.keep e) := by
  have ht : (r.keep e).told = r.told ++ [e] := (List.append_assoc _ _ _).symm
  refine ⟨h.bus, ?_, h.intake, h.place, ?_, ?_, h.seen, ?_⟩
  · rw [ht]
    show r.histories.map (·.push e) = _
    rw [h.histories, List.map_map]
    apply List.map_congr_left
    intro u hu
    show (u.history r.told).push e = u.history (r.told ++ [e])
    by_cases hue : e.source = u.source
    · have huv : u = v := List.inj_on_of_nodup_map hd hu hv (hue.symm.trans hs)
      simp [Voice.history, Voice.spoken, Voice.owns, huv, hs, he]
    · rw [ReplayBuffer.push_of_source_ne (by rwa [u.source_history])]
      simp [Voice.history, Voice.spoken, Voice.owns, hue]
  · rw [ht]
    refine h.ordered.append ⟨List.pairwise_singleton _ _, by simpa using hpos⟩ ?_
    intro a ha b hb
    rw [List.mem_singleton.mp hb]
    exact hnew a ha
  · rw [ht]
    intro a ha
    rcases List.mem_append.mp ha with ha | ha
    · obtain ⟨u, hu, hus⟩ := h.owned a ha
      refine ⟨u, hu, ?_⟩
      rw [u.spoken_append]
      exact List.mem_append_left _ hus
    · rw [List.mem_singleton.mp ha]
      exact ⟨v, hv, v.mem_spoken.mpr ⟨by simp, hs, he⟩⟩
  · rw [ht]
    exact h.faithful.tell hnew

theorem publish (h : Sound voices size frame r) (source : Source) :
    Sound voices size frame (r.publish source) := by
  rcases r.publish_cases source with hp | ⟨e, before, behind, hw, hne, hp⟩
  · rw [hp]
    exact h
  have ht : r.told = r.published ++ (before ++ e :: behind) := by rw [told, hw]
  have ht' : (r.publish source).told = r.published ++ e :: (before ++ behind) := by
    rw [hp]
    exact (List.append_cons _ _ _).symm
  have hspoken : ∀ v : Voice, v.spoken (r.publish source).told = v.spoken r.told := by
    intro v
    rw [ht, ht', v.spoken_forward hne]
  have hmem : ∀ a, a ∈ (r.publish source).told ↔ a ∈ r.told := by
    intro a
    rw [ht, ht', List.mem_append, List.mem_append, ← List.perm_middle.mem_iff]
  have hord : Ordered (r.publish source).told := ht' ▸ (ht ▸ h.ordered).forward hne
  refine ⟨?_, ?_, ?_, ?_, hord, ?_, ?_, ?_⟩
  · rw [hp]
    show r.bus.send e = _
    rw [h.bus, Ring.send_window]
  · have hh : r.histories = voices.map (·.history (r.publish source).told) := by
      rw [h.histories]
      apply List.map_congr_left
      intro v _
      rw [Voice.history, Voice.history, hspoken v]
    rw [hp] at hh ⊢
    exact hh
  · rw [hp]
    exact h.intake
  · have := h.place
    rw [hp]
    simp only [List.length_append]
    omega
  · intro a ha
    obtain ⟨v, hv, hs⟩ := h.owned a ((hmem a).mp ha)
    exact ⟨v, hv, by rwa [hspoken v]⟩
  · rw [hp]
    show ∀ a ∈ (r.published ++ [e]).take r.notifier.next, _
    rw [List.take_append_of_le_length h.place]
    exact h.seen
  · rw [hp]
    exact h.faithful.congr fun a => by rw [← hp]; exact hmem a

theorem intake_receive (h : Sound voices size frame r) (x : Ring.Received Envelope) :
    Notifier.receive r.histories r.notifier.intake x =
      (r.ledger.receive r.histories x).intake (.create frame 0) := by
  rw [h.intake, Ledger.intake_receive]

theorem receive_lagged (h : Sound voices size frame r) (hd : (voices.map Voice.source).Nodup)
    (hlag : r.notifier.next < r.published.length - size) : Sound voices size frame r.receive := by
  obtain ⟨hf, hseen⟩ := h.faithful.recover h.ordered hd h.owned
  rw [← h.histories] at hf hseen
  have hr : r.receive = { r with
      notifier := { r.notifier with
        intake := r.notifier.intake.recover r.histories
        next := r.published.length - size }
      ledger := r.ledger.recover r.histories } :=
    receive_eq (by rw [h.bus, Ring.receive_window_lagged hlag])
  rw [hr]
  refine ⟨h.bus, h.histories, h.intake_receive (.lagged 0), Nat.sub_le _ _, h.ordered, h.owned,
    ?_, hf⟩
  intro e he
  exact hseen e (List.mem_append_left _ (List.mem_of_mem_take he))

theorem receive_message (h : Sound voices size frame r) {e : Envelope}
    (hget : r.published[r.notifier.next]? = some e)
    (hle : r.published.length - size ≤ r.notifier.next) : Sound voices size frame r.receive := by
  obtain ⟨hlt, hat⟩ := List.getElem?_eq_some_iff.mp hget
  have he : e ∈ r.told := List.mem_append_left _ (List.mem_of_getElem? hget)
  have hr : r.receive = { r with
      notifier := { r.notifier with
        intake := r.notifier.intake.accept e
        next := r.notifier.next + 1 }
      ledger := r.ledger.accept e } :=
    receive_eq (by rw [h.bus, Ring.receive_window_message hget hle])
  -- what is older than `e` stands before it on the bus
  have hold : ∀ a ∈ r.told, a.source = e.source → a.stamp.before e.stamp = true →
      ¬ r.ledger.cursor.isNew a = true := by
    intro a ha hs hb
    have htold : r.told[r.notifier.next]? = some e := by
      rw [told, List.getElem?_append_left hlt, hget]
    have htake := h.ordered.mem_take_of_before htold ha hs hb
    rw [told, List.take_append_of_le_length h.place] at htake
    exact h.seen a htake
  rw [hr]
  refine ⟨h.bus, h.histories, h.intake_receive (.message e), hlt, h.ordered, h.owned, ?_,
    h.faithful.accept h.ordered he hold⟩
  intro a ha
  show ¬ (r.ledger.accept e).cursor.isNew a = true
  rw [Ledger.cursor_accept, Cursor.isNew_advance]
  rintro ⟨hn, hb⟩
  rw [← List.take_append_getElem hlt, hat, List.mem_append, List.mem_singleton] at ha
  rcases ha with ha | rfl
  · exact h.seen a ha hn
  · have := hb rfl
    rw [Stamp.before_irrefl] at this
    cases this

theorem receive (h : Sound voices size frame r) (hd : (voices.map Voice.source).Nodup) :
    Sound voices size frame r.receive := by
  by_cases hempty : r.published.length ≤ r.notifier.next
  · have hr : r.receive = r := receive_eq (by rw [h.bus, Ring.receive_window_empty hempty])
    rw [hr]
    exact h
  by_cases hlag : r.notifier.next < r.published.length - size
  · exact h.receive_lagged hd hlag
  · exact h.receive_message (List.getElem?_eq_getElem (Nat.lt_of_not_le hempty))
      (Nat.le_of_not_lt hlag)

theorem write (h : Sound voices size frame r) {x : Entry} (he : x.envelope? = none)
    (hl : x.loss? = none) {notifier : Notifier} (hn : notifier.next = r.notifier.next)
    (hi : notifier.intake = (r.ledger.write x).intake (.create frame 0)) :
    Sound voices size frame { r with notifier, ledger := r.ledger.write x } where
  bus := h.bus
  histories := h.histories
  intake := hi
  place := hn ▸ h.place
  ordered := h.ordered
  owned := h.owned
  seen := hn ▸ h.seen
  faithful := h.faithful.write he hl

theorem control (h : Sound voices size frame r) {c : Control} (hc : ∀ pane, c ≠ .forget pane) :
    Sound voices size frame (r.control c) := by
  have hw : r.ledger.control c = r.ledger.write (.control c) := by
    cases c with
    | setFocus focus => rfl
    | bind pane worktree => rfl
    | forget pane => exact absurd rfl (hc pane)
  simp only [Relay.control, hw]
  refine h.write rfl rfl rfl ?_
  show r.notifier.intake.control c = _
  rw [h.intake, ← hw, Ledger.intake_control]

theorem frame_step (h : Sound voices size frame r) (now : Nat) :
    Sound voices size frame (r.frame now) := by
  by_cases hdue : r.notifier.intake.reducer.isDue now = true
  · simp only [Relay.frame, if_pos hdue]
    refine h.write rfl rfl rfl ?_
    have htick : (r.notifier.tick now).1.intake =
        ⟨(r.notifier.intake.reducer.flush now).1, r.notifier.intake.cursor⟩ := by
      simp only [Notifier.tick, Reducer.poll, if_pos hdue]
    rw [htick, Ledger.intake_write, h.intake]
    rfl
  · have hr : r.frame now = r := by
      simp only [Relay.frame, if_neg hdue, Notifier.tick, Reducer.poll]
    rw [hr]
    exact h

end Sound

/-- The invariant holds along every run, and all that was told came in the course of it. -/
theorem sound_run {voices : List Voice} (busCapacity frame : Nat) {steps : List Step}
    (h : Lawful voices steps) :
    Sound voices (Ring.sizeFor busCapacity) frame (run (start voices busCapacity frame) steps) ∧
      ∀ e, e ∈ (run (start voices busCapacity frame) steps).told ↔ e ∈ kept steps := by
  induction steps using List.reverseRecOn with
  | nil =>
    refine ⟨.start voices busCapacity frame, fun e => ?_⟩
    simp [run, start, told, kept]
  | append_singleton steps s ih =>
    obtain ⟨hsound, hmem⟩ := ih h.of_append
    have hrun : run (start voices busCapacity frame) (steps ++ [s]) =
        (run (start voices busCapacity frame) steps).step s := by
      simp [run]
    have hkept : kept (steps ++ [s]) = kept steps ++ s.kept?.toList := by
      cases hs : s.kept? with
      | none => simp [kept, hs]
      | some e => simp [kept, hs]
    rw [hrun]
    generalize run (start voices busCapacity frame) steps = r at hsound hmem
    refine ⟨?_, ?_⟩
    · cases s with
      | keep e =>
        have hlast : kept (steps ++ [.keep e]) = kept steps ++ [e] := hkept
        obtain ⟨v, hv, hs, he⟩ := h.owned e (by simp [hlast])
        refine hsound.keep h.distinct hv hs he (h.positive e (by simp [hlast])) ?_
        intro a ha has
        have hak : a ∈ kept steps := (hmem a).mp ha
        obtain ⟨u, hu, hus, hue⟩ := h.owned a (by simp [hlast, hak])
        have huv : u = v :=
          List.inj_on_of_nodup_map h.distinct hu hv (hus.symm.trans (has.trans hs))
        have hg := h.grows
        rw [hlast] at hg
        have hseq := (List.pairwise_append.mp hg).2.2 a hak e (by simp) has
        rw [Stamp.before_iff]
        exact .inr ⟨hue.trans (huv ▸ he.symm), hseq⟩
      | publish source => exact hsound.publish source
      | receive => exact hsound.receive h.distinct
      | control c =>
        refine hsound.control ?_
        rintro pane rfl
        exact h.remembers pane (by simp)
      | frame now => exact hsound.frame_step now
    · intro e
      rw [mem_told_step, hmem, hkept, List.mem_append, Option.mem_toList]

/-- Nothing enters the reducer twice, and once the notifier has taken all that the bus has for it,
whatever was published has entered the reducer or is covered by a gap that has. -/
theorem handed_once_or_lost {voices : List Voice} (busCapacity frame : Nat) {steps : List Step}
    (h : Lawful voices steps) :
    let r := run (start voices busCapacity frame) steps
    r.notifier.intake = r.ledger.intake (.create frame 0) ∧
      (r.ledger.handed.map fun e => (e.source, e.stamp)).Nodup ∧
      (r.bus.sent ≤ r.notifier.next → ∀ e ∈ r.published,
        r.ledger.handed.count e = 1 ∨ ∃ g ∈ r.ledger.losses, g.Covers e) := by
  intro r
  obtain ⟨hsound, -⟩ := sound_run busCapacity frame h
  refine ⟨hsound.intake, ?_, ?_⟩
  · refine List.Nodup.map_on ?_ hsound.faithful.once
    intro a ha b hb hab
    obtain ⟨hs, ht⟩ := Prod.mk.inj hab
    exact hsound.ordered.eq_of_stamp (hsound.faithful.handed a ha).1
      (hsound.faithful.handed b hb).1 hs ht
  · intro hdrained e he
    have hsent : r.bus.sent = r.published.length := congrArg Ring.sent hsound.bus
    have hall : r.published.take r.notifier.next = r.published :=
      List.take_of_length_le (hsent ▸ hdrained)
    have hseen : ¬ r.ledger.cursor.isNew e = true := hsound.seen e (hall.symm ▸ he)
    rcases hsound.faithful.accounts e (List.mem_append_left _ he) hseen with hh | hl
    · exact .inl (List.count_eq_one_of_mem hsound.faithful.once hh)
    · exact .inr hl

def note (source : Source) (seq : Nat) : Envelope :=
  ⟨source, none, ⟨0, seq⟩, none, none, 0, .lifecycle (.stateChanged .created .ready)⟩

def paneAndFiles : List Voice := [⟨.pane ⟨"a"⟩, 0, 1⟩, ⟨.filesystem, 0, 4⟩]

def overtaken : List Step :=
  [.keep (note (.pane ⟨"a"⟩) 1), .keep (note (.pane ⟨"a"⟩) 2), .publish (.pane ⟨"a"⟩),
    .keep (note .filesystem 1), .publish .filesystem, .publish (.pane ⟨"a"⟩), .receive,
    .keep (note (.pane ⟨"a"⟩) 3), .publish (.pane ⟨"a"⟩), .receive, .frame 16, .receive,
    .receive]

theorem handed_once_or_lost_overtaken :
    Lawful paneAndFiles overtaken ∧
      (run (start paneAndFiles 1 16) overtaken).ledger.losses = [⟨.pane ⟨"a"⟩, 0, 1⟩] ∧
      ∀ e ∈ (run (start paneAndFiles 1 16) overtaken).published,
        (run (start paneAndFiles 1 16) overtaken).ledger.handed.count e = 1 ∨
          ∃ g ∈ (run (start paneAndFiles 1 16) overtaken).ledger.losses, g.Covers e := by
  have hlawful : Lawful paneAndFiles overtaken :=
    ⟨by decide, by decide, by decide, by decide, by simp [overtaken]⟩
  have hdrained : (run (start paneAndFiles 1 16) overtaken).bus.sent ≤
      (run (start paneAndFiles 1 16) overtaken).notifier.next := by decide +kernel
  have hlosses : (run (start paneAndFiles 1 16) overtaken).ledger.losses =
      [⟨.pane ⟨"a"⟩, 0, 1⟩] := by decide +kernel
  obtain ⟨-, -, hall⟩ := handed_once_or_lost 1 16 hlawful
  exact ⟨hlawful, hlosses, hall hdrained⟩

end Relay

end Switchboard
