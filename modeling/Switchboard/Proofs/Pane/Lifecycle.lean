import Mathlib.Algebra.Group.Nat.Defs
import Switchboard.Proofs.Pane.Emission
import Switchboard.Proofs.Pane.Transitions
import Switchboard.Proofs.Replay.Recovery

/-!
# The life of a pane, as told

What a pane tells in its life is one list: its numbers run from 1 without a hole (and stay where
they are once they have run out), its history recalls it, its states can be read off it, and the
event that ends the pane is the last of it.
-/
namespace Switchboard

namespace Speaker

/-- All that the speaker has told is in the list, number after number. -/
structure Logged (sp : Speaker) (log : List Envelope) : Prop where
  source : sp.replay.source = sp.source
  epoch : sp.replay.epoch = sp.sequencer.epoch ∨
    log = [] ∧ sp.replay.epoch < sp.sequencer.epoch
  last : sp.sequencer.lastSeq = min log.length wordMax
  numbered : ∀ i e, log[i]? = some e → e.seq = min (i + 1) wordMax
  history : sp.replay.Recalls (log.take wordMax)

namespace Logged

variable {sp sp' : Speaker} {log told : List Envelope} {e : Envelope}

theorem numbered_history (h : sp.Logged log) {i : Nat} (hi : (log.take wordMax)[i]? = some e) :
    e.seq = i + 1 := by
  rw [List.getElem?_take] at hi
  split at hi
  · rw [h.numbered i e hi]
    omega
  · cases hi

theorem seq_last_take (h : sp.Logged log) {k : Nat} (hk : k ≤ min log.length wordMax) :
    ((((log.take wordMax).take k).getLast?).map Envelope.seq).getD 0 = k := by
  rcases Nat.eq_zero_or_pos k with rfl | hpos
  · rw [List.take_zero]
    rfl
  · have hlt : k - 1 < (log.take wordMax).length := by rw [List.length_take]; omega
    have hlen : ((log.take wordMax).take k).length = k := by
      rw [List.length_take, List.length_take]; omega
    have hget := List.getElem?_eq_getElem hlt
    have hseq := h.numbered_history hget
    rw [List.getLast?_eq_getElem?, hlen, List.getElem?_take_of_lt (by omega), hget,
      Option.map_some, Option.getD_some, hseq]
    omega

theorem lastSeq_history (h : sp.Logged log) : sp.replay.lastSeq = min log.length wordMax := by
  have hall := h.seq_last_take (Nat.le_refl _)
  rw [List.take_of_length_le (by rw [List.length_take]; omega)] at hall
  rw [h.history.last, hall]

theorem evictedThrough_eq (h : sp.Logged log) :
    sp.replay.evictedThrough = min log.length wordMax - sp.replay.capacity := by
  have hlen : (log.take wordMax).length = min log.length wordMax := by
    rw [List.length_take, Nat.min_comm]
  rw [h.history.evicted, hlen]
  exact h.seq_last_take (Nat.sub_le _ _)

theorem seq_le_last (h : sp.Logged log) (he : e ∈ log) : e.seq ≤ sp.sequencer.lastSeq := by
  obtain ⟨i, hi⟩ := List.getElem?_of_mem he
  have hlt := (List.getElem?_eq_some_iff.mp hi).1
  have hseq := h.numbered i e hi
  have hlast := h.last
  omega

theorem after_history (h : sp.Logged log) {n : Nat} (hk : sp.replay.evictedThrough ≤ n) :
    sp.replay.after n = (log.take wordMax).drop n := by
  rw [h.history.after_of_kept hk]
  conv_lhs => rw [← List.take_append_drop n (log.take wordMax)]
  have hold : ((log.take wordMax).take n).filter (n < ·.seq) = [] := by
    rw [List.filter_eq_nil_iff]
    intro a ha
    obtain ⟨i, hi⟩ := List.getElem?_of_mem ha
    rw [List.getElem?_take] at hi
    split at hi
    · have := h.numbered_history hi
      simp only [decide_eq_true_eq]
      omega
    · cases hi
  have hnew : ((log.take wordMax).drop n).filter (n < ·.seq) = (log.take wordMax).drop n := by
    rw [List.filter_eq_self]
    intro a ha
    obtain ⟨i, hi⟩ := List.getElem?_of_mem ha
    rw [List.getElem?_drop] at hi
    have := h.numbered_history hi
    simp only [decide_eq_true_eq]
    omega
  rw [List.filter_append, hold, hnew, List.nil_append]

theorem emit (h : sp.Logged log) (hs : e.source = sp.source)
    (ht : e.stamp = sp.sequencer.advance.stamp) :
    Logged ⟨sp.source, sp.sequencer.advance, sp.replay.push e⟩ (log ++ [e]) := by
  have hseq : e.seq = min (log.length + 1) wordMax := by
    have : e.seq = satSucc sp.sequencer.lastSeq := congrArg Stamp.seq ht
    rw [this, h.last, satSucc, satAdd]
    omega
  have hepoch : e.epoch = sp.sequencer.epoch := congrArg Stamp.epoch ht
  have hsource : e.source = sp.replay.source := hs.trans h.source.symm
  have hlast := h.lastSeq_history
  have hpos : 0 < wordMax := by decide
  have hhistory : (sp.replay.push e).Recalls ((log ++ [e]).take wordMax) ∧
      (sp.replay.push e).epoch = sp.sequencer.epoch := by
    rcases h.epoch with he | ⟨rfl, hlt⟩
    · by_cases hfull : wordMax ≤ log.length
      · have hold : sp.replay.push e = sp.replay :=
          ReplayBuffer.push_of_old (hepoch.trans he.symm) (by omega)
        rw [hold, List.take_append_of_le_length hfull]
        exact ⟨h.history, he⟩
      · have hshort : log.take wordMax = log := List.take_of_length_le (by omega)
        have hnext := h.history.push_next hsource (hepoch.trans he.symm) (by omega)
        rw [hshort] at hnext
        rw [List.take_of_length_le (by simp; omega)]
        exact ⟨hnext, (hnext.own e (by simp)).2.symm.trans hepoch⟩
    · have hnew := h.history.push_newer hsource (hepoch ▸ hlt)
      rw [List.nil_append, List.take_of_length_le hpos]
      exact ⟨hnew, (hnew.own e List.mem_cons_self).2.symm.trans hepoch⟩
  refine ⟨?_, .inl hhistory.2, ?_, ?_, hhistory.1⟩
  · exact (ReplayBuffer.source_push _ _).trans h.source
  · show satSucc sp.sequencer.lastSeq = _
    rw [h.last, satSucc, satAdd, List.length_append, List.length_singleton]
    omega
  · intro i a ha
    rcases Nat.lt_trichotomy i log.length with hi | rfl | hi
    · rw [List.getElem?_append_left hi] at ha
      exact h.numbered i a ha
    · rw [List.getElem?_concat_length] at ha
      cases ha
      exact hseq
    · rw [List.getElem?_eq_none (by simp; omega)] at ha
      cases ha

theorem numbers {source : Source} {q q' : Sequencer}
    (hn : Sequencer.Numbers source q told q') {replay : ReplayBuffer} {log : List Envelope}
    (h : Logged ⟨source, q, replay⟩ log) :
    Logged ⟨source, q', told.foldl ReplayBuffer.push replay⟩ (log ++ told) := by
  induction hn generalizing replay log with
  | nil q =>
    rw [List.append_nil]
    exact h
  | @cons q q' e told hs ht _ ih =>
    have hnext := ih (h.emit hs ht)
    rw [List.append_assoc] at hnext
    exact hnext

theorem accepted_eq {source : Source} {q q' : Sequencer}
    (hn : Sequencer.Numbers source q told q') {replay : ReplayBuffer} {log : List Envelope}
    (h : Logged ⟨source, q, replay⟩ log) (hlen : log.length + told.length ≤ wordMax) :
    replay.accepted told = told := by
  induction hn generalizing replay log with
  | nil q => rfl
  | @cons q q' e told hs ht _ ih =>
    rw [List.length_cons] at hlen
    have hlast : q.lastSeq = min log.length wordMax := h.last
    have hseq : e.seq = q.lastSeq + 1 := by
      have : e.seq = min (q.lastSeq + 1) wordMax := congrArg Stamp.seq ht
      omega
    have hepoch : e.epoch = q.epoch := congrArg Stamp.epoch ht
    have hnew : ∀ a ∈ log.take wordMax, a.seq < e.seq := by
      intro a ha
      have : a.seq ≤ q.lastSeq := h.seq_le_last (List.mem_of_mem_take ha)
      omega
    have hplace : replay.epoch < e.epoch ∨
        e.epoch = replay.epoch ∧ 1 ≤ e.seq ∧ ∀ a ∈ log.take wordMax, a.seq < e.seq := by
      rcases h.epoch with he | ⟨-, hlt⟩
      · exact .inr ⟨hepoch.trans he.symm, by omega, hnew⟩
      · exact .inl (hepoch ▸ hlt)
    obtain ⟨out, ho⟩ := (h.history.accepts_iff e).mpr ⟨hs.trans h.source.symm, hplace⟩
    have hrest := ih (h.emit hs ht) (by simp; omega)
    rw [← List.singleton_append, ReplayBuffer.accepted_append, ReplayBuffer.accepted_of_ok ho]
    exact congrArg ([e] ++ ·) hrest

theorem tells (h : sp.Logged log) (ht : sp.Tells told sp') : sp'.Logged (log ++ told) := by
  have hn := h.numbers ht.numbers
  rw [← ht.source, ← ht.replay] at hn
  exact hn

end Logged

end Speaker

namespace Pane

inductive Operation where
  | start (now : Nat)
  | handle (command : CommandEnvelope) (now : Nat)
  | shutdown (now : Nat)

def perform (p : Pane) : Operation → Outcome Unit
  | .start now => { p.start now with result := () }
  | .handle command now => { p.handle command now with result := () }
  | .shutdown now => { p.shutdown now with result := () }

theorem sound_perform (p : Pane) (op : Operation) : Outcome.Sound p (p.perform op) := by
  cases op with
  | start now => exact p.sound_start now
  | handle command now => exact p.sound_handle command now
  | shutdown now => exact p.sound_shutdown now

theorem logged_create (id : PaneId) (backend : Backend) (metadata : Metadata)
    (capabilities : Capabilities) (epoch capacity : Nat) :
    (create id backend metadata capabilities epoch capacity).speaker.Logged [] where
  source := rfl
  epoch := by
    rcases Nat.eq_zero_or_pos epoch with rfl | hpos
    · exact .inl rfl
    · exact .inr ⟨rfl, hpos⟩
  last := rfl
  numbered i e he := by cases he
  history := .create _ _

theorem narrates_perform {p : Pane} {Fit : Backend → Prop} {Own : Event → Prop}
    (hm : Backend.Manners Fit Own) (hb : Fit p.backend) (op : Operation) :
    Narrates Fit Own p.state (p.perform op) := by
  cases op with
  | start now => exact (narrates_start hm hb now).withResult ()
  | handle command now => exact (narrates_handle hm hb command now).withResult ()
  | shutdown now => exact (narrates_shutdown hm hb now).withResult ()

def performAll (p : Pane) (ops : List Operation) : Pane :=
  ops.foldl (fun p op => (p.perform op).pane) p

def told (p : Pane) : List Operation → List Envelope
  | [] => []
  | op :: rest => (p.perform op).told ++ (p.perform op).pane.told rest

theorem told_append (p : Pane) (ops more : List Operation) :
    p.told (ops ++ more) = p.told ops ++ (p.performAll ops).told more := by
  induction ops generalizing p with
  | nil => rfl
  | cons op rest ih =>
    simp only [List.cons_append, told, ih, List.append_assoc]
    rfl

theorem tells_performAll (p : Pane) (ops : List Operation) :
    p.speaker.Tells (p.told ops) (p.performAll ops).speaker := by
  induction ops generalizing p with
  | nil => exact .nothing _
  | cons op rest ih => exact (p.sound_perform op).append (ih _)

theorem capacity_performAll (p : Pane) (ops : List Operation) :
    (p.performAll ops).replay.capacity = p.replay.capacity := by
  have hreplay := (p.tells_performAll ops).replay
  show (p.performAll ops).speaker.replay.capacity = _
  rw [hreplay, ReplayBuffer.capacity_foldl_push]
  rfl

theorem stamp_told {p : Pane} {epoch : Nat} (hp : p.sequencer = .start epoch)
    {ops : List Operation} (hlen : (p.told ops).length ≤ wordMax) {i : Nat} {e : Envelope}
    (hi : (p.told ops)[i]? = some e) : e.source = .pane p.id ∧ e.stamp = ⟨epoch, i + 1⟩ := by
  have hlt := (List.getElem?_eq_some_iff.mp hi).1
  have hzero : 0 + i + 1 = i + 1 := by omega
  have hstamp := (p.tells_performAll ops).numbers.stamp_eq hi
  rw [show p.speaker.sequencer = .start epoch from hp, Sequencer.start, hzero,
    Nat.min_eq_left (by omega)] at hstamp
  exact hstamp

theorem entries_performAll {p : Pane} (hp : p.speaker.Logged []) {ops : List Operation}
    (hlen : (p.told ops).length ≤ wordMax) : (p.performAll ops).replay.entries =
      (p.told ops).drop ((p.told ops).length - p.replay.capacity) := by
  have hcapacity : (p.performAll ops).speaker.replay.capacity = p.replay.capacity :=
    p.capacity_performAll ops
  have hentries := (hp.tells (p.tells_performAll ops)).history.entries
  rw [List.nil_append, List.take_of_length_le hlen, hcapacity] at hentries
  exact hentries

theorem tale_performAll {p : Pane} {Fit : Backend → Prop} {Own : Event → Prop}
    (hm : Backend.Manners Fit Own) (hb : Fit p.backend) (ops : List Operation) :
    Tale Own p.state ((p.told ops).map Envelope.event) (p.performAll ops).state := by
  induction ops generalizing p with
  | nil => exact .nil _
  | cons op rest ih =>
    have hop := narrates_perform hm hb op
    rw [told, List.map_append]
    exact hop.tale.append (ih hop.fit)

theorem last_told {p : Pane} (hp : p.state.isTerminal = false) {ops : List Operation}
    (he : (p.performAll ops).state.isTerminal = true) :
    ∃ e, (p.told ops).getLast? = some e ∧ e.isFinal = true := by
  have htale := tale_performAll (p := p) Backend.manners_any trivial ops
  obtain ⟨t, ht, hlast⟩ := htale.last_eq hp he
  rw [List.getLast?_map] at hlast
  obtain ⟨e, hl, hev⟩ := Option.map_eq_some_iff.mp hlast
  refine ⟨e, hl, ?_⟩
  rw [Envelope.isFinal, hev, transitionEvent, ht]

/-- What a pane tells in its life, if its backend is not scripted. The numbers run from 1 without a
hole, and the history takes all of it and keeps the newest. Every change of state begins where the
one before it led to, and the pane is where the last one leads. A failure is told right before the
end, and behind the end nothing is told. -/
theorem life_as_told (id : PaneId) (backend : Backend) (metadata : Metadata)
    (capabilities : Capabilities) (epoch capacity : Nat) (ops : List Operation) :
    let p := create id backend metadata capabilities epoch capacity
    let told := p.told ops
    let changes := told.filterMap (·.event.transition?)
    let states := LifecycleState.created :: changes.map (·.target)
    backend.BuiltIn → told.length < 2 ^ 64 →
      (∀ i (e : Envelope), told[i]? = some e →
        e.source = .pane id ∧ e.stamp = ⟨epoch, i + 1⟩) ∧
      p.replay.accepted told = told ∧
      (p.performAll ops).replay.entries = told.drop (told.length - max capacity 1) ∧
      changes.map (·.source) = states.dropLast ∧
      states.Pairwise (·.rank < ·.rank) ∧
      states.getLast? = some (p.performAll ops).state ∧
      (∀ i (e : Envelope) reason, told[i]? = some e → e.event.failure? = some reason →
        ∃ (next : Envelope) (s : LifecycleState), told[i + 1]? = some next ∧
          next.event.transition? = some ⟨s, .terminated⟩) ∧
      ∀ i (e : Envelope) t, told[i]? = some e → e.event.transition? = some t →
        t.target = .terminated → told.length = i + 1 := by
  intro p told changes states hb hlen
  have hcreated := logged_create id backend metadata capabilities epoch capacity
  have htale : Tale Event.IsPlain .created (told.map Envelope.event) (p.performAll ops).state :=
    tale_performAll (p := p) Backend.manners_builtIn hb ops
  have hchanges : (told.map Envelope.event).filterMap Event.transition? = changes :=
    List.filterMap_map
  have hword : told.length ≤ wordMax := Nat.le_of_lt_succ hlen
  have hevent : ∀ {i : Nat} {e : Envelope}, told[i]? = some e →
      (told.map Envelope.event)[i]? = some e.event := by
    intro i e hi
    rw [List.getElem?_map, hi, Option.map_some]
  refine ⟨fun i e => stamp_told rfl hword, ?_, entries_performAll hcreated hword, ?_, ?_, ?_, ?_,
    ?_⟩
  · have hnumbers := (p.tells_performAll ops).numbers
    exact Speaker.Logged.accepted_eq hnumbers hcreated (by simpa using hword)
  · have hsources := htale.sources
    rw [hchanges] at hsources
    exact hsources
  · have hrises := htale.rises
    rw [hchanges] at hrises
    exact hrises
  · rw [List.getLast?_cons, htale.last, hchanges]
  · intro i e reason hi he
    obtain ⟨s, hs⟩ := htale.failed_next (hevent hi) he
    obtain ⟨next, hnext, hev⟩ := Option.map_eq_some_iff.mp (List.getElem?_map ▸ hs)
    exact ⟨next, s, hnext, hev ▸ rfl⟩
  · intro i e t hi he ht
    have hend := htale.ends (hevent hi) he ht
    rwa [List.length_map] at hend

theorem life_as_told_started_twice :
    let id : PaneId := ⟨"p"⟩
    let p := create id (.create id .terminal) ⟨none, none, none, none⟩ (.ofKind .terminal) 7 3
    let input : CommandEnvelope := ⟨⟨"c"⟩, none, id, .terminal (.sendInput "ls"), 0⟩
    let ops : List Operation :=
      [.handle input 0, .start 1, .handle input 2, .start 3, .handle input 4, .start 5, .shutdown 6]
    let told := p.told ops
    p.backend.BuiltIn ∧ told.length < 2 ^ 64 ∧
      told.map (·.event) =
        [.lifecycle (.stateChanged .created .ready), .terminal (.resized 80 24),
          .terminal (.inputAccepted 2), .lifecycle (.failed "terminal already started"),
          .lifecycle (.stateChanged .ready .terminated)] ∧
      (∀ i (e : Envelope), told[i]? = some e → e.source = .pane id ∧ e.stamp = ⟨7, i + 1⟩) ∧
      (p.performAll ops).replay.entries = told.drop 2 ∧
      (p.performAll ops).state = .terminated := by
  intro id p input ops told
  have hb : p.backend.BuiltIn := trivial
  have hlength : told.length = 5 := by decide +kernel
  have hshort : told.length < 2 ^ 64 := by
    rw [hlength]
    decide
  have hstamps := (life_as_told id (.create id .terminal) ⟨none, none, none, none⟩
    (.ofKind .terminal) 7 3 ops hb hshort).1
  exact ⟨hb, hshort, by decide +kernel, hstamps, by decide +kernel, by decide +kernel⟩

end Pane

end Switchboard
