import Mathlib.Data.List.Nodup
import Mathlib.Logic.Relation
import Switchboard.Proofs.Pane.Emission
import Switchboard.Proofs.Reducer.Pending
import Switchboard.Proofs.Table

/-!
# The scene of delivery

What is delivered depends on the bus, on those who tell and can be asked again, and on the notifier.
This is the scene, and all that happens in a workspace changes it by a few moves: somebody tells
something, a pane enters or leaves, the notifier catches up, or a frame ends. Here are the moves and
what holds in every scene that they lead to.
-/
namespace Switchboard

structure Scene where
  bus : Ring Envelope
  published : List Envelope
  speakers : List Speaker
  epochs : Table PaneId Nat
  notifier : Notifier
  delivered : List Batch

namespace Speaker

def voice (sp : Speaker) : Voice := ⟨sp.source, sp.sequencer.epoch, sp.replay.capacity⟩

def newcomer (pane : PaneId) (epoch capacity : Nat) : Speaker :=
  ⟨.pane pane, .start epoch, .create (.pane pane) capacity⟩

end Speaker

namespace Scene

def cursor (s : Scene) : Cursor := s.notifier.intake.cursor

def reducer (s : Scene) : Reducer := s.notifier.intake.reducer

def histories (s : Scene) : List ReplayBuffer := s.speakers.map Speaker.replay

def voices (s : Scene) : List Voice := s.speakers.map Speaker.voice

/-- What the notifier has read of the bus, or gone past. -/
def read (s : Scene) : List Envelope := s.published.take s.notifier.next

def unread (s : Scene) : List Envelope := s.published.drop s.notifier.next

def catchUp (s : Scene) : Scene := { s with notifier := s.notifier.catchUp s.bus s.histories }

def deliver (s : Scene) (out : Notifier × Option Batch) : Scene :=
  { s with notifier := out.1, delivered := s.delivered ++ out.2.toList }

def say (s : Scene) (speakers : List Speaker) (told : List Envelope) : Scene :=
  { s with bus := told.foldl Ring.send s.bus, published := s.published ++ told, speakers }

def nextEpoch (s : Scene) (pane : PaneId) : Nat :=
  match Table.get? s.epochs pane with
  | none => 0
  | some epoch => satSucc epoch

def welcome (s : Scene) (front behind : List Speaker) (pane : PaneId) (capacity : Nat) : Scene :=
  { s with
    speakers := front ++ .newcomer pane (s.nextEpoch pane) capacity :: behind
    epochs := Table.set s.epochs pane
      (max ((Table.get? s.epochs pane).getD (s.nextEpoch pane)) (s.nextEpoch pane)) }

inductive Move : Scene → Scene → Prop where
  | catchUp (s : Scene) : Move s s.catchUp
  | control (s : Scene) (c : Control) : Move s { s with notifier := s.notifier.tell c }
  | frame (s : Scene) (now : Nat) : Move s (s.deliver (s.notifier.tick now))
  | finish (s : Scene) (now : Nat) : Move s (s.deliver (s.notifier.finish now))
  | tell {s : Scene} {front behind : List Speaker} {sp sp' : Speaker} {told : List Envelope}
      (hs : s.speakers = front ++ sp :: behind) (ht : sp.Tells told sp') :
      Move s (s.say (front ++ sp' :: behind) told)
  | enter {s : Scene} {front behind : List Speaker} (pane : PaneId) (capacity : Nat)
      (hs : s.speakers = front ++ behind) (hnew : ∀ sp ∈ s.speakers, sp.source ≠ .pane pane) :
      Move s (s.welcome front behind pane capacity)
  | leave {s : Scene} {front behind : List Speaker} {sp sp' : Speaker} {told : List Envelope}
      {pane : PaneId} (hp : sp.source = .pane pane) (hs : s.speakers = front ++ sp :: behind)
      (ht : sp.Tells told sp') : Move s (s.say (front ++ behind) told)

def Leads : Scene → Scene → Prop := Relation.ReflTransGen Move

/-- No number and no epoch has reached the end of its range. -/
structure Unspent (s : Scene) : Prop where
  numbers : ∀ e ∈ s.published, e.seq < wordMax
  epochs : ∀ pane epoch, Table.get? s.epochs pane = some epoch → epoch < wordMax

theorem unspent_of_entries {s : Scene} (hs : ∀ e ∈ s.published, e.seq < wordMax)
    (he : ∀ entry ∈ s.epochs, entry.2 < wordMax) : s.Unspent :=
  ⟨hs, fun pane epoch hg => he (pane, epoch) (Table.mem_of_get? hg)⟩

theorem Unspent.told {s : Scene} {speakers : List Speaker} {told : List Envelope}
    (hu : Unspent (s.say speakers told)) : ∀ e ∈ told, e.seq < wordMax :=
  fun e he => hu.numbers e (List.mem_append_right _ he)

theorem Move.unspent {s s' : Scene} (h : Move s s') (hu : Unspent s') : Unspent s := by
  have hsay : ∀ {speakers : List Speaker} {told : List Envelope},
      Unspent (s.say speakers told) → Unspent s :=
    fun hu => ⟨fun e he => hu.numbers e (List.mem_append_left _ he), hu.epochs⟩
  cases h with
  | catchUp => exact ⟨hu.numbers, hu.epochs⟩
  | control c => exact ⟨hu.numbers, hu.epochs⟩
  | frame now => exact ⟨hu.numbers, hu.epochs⟩
  | finish now => exact ⟨hu.numbers, hu.epochs⟩
  | tell hs ht => exact hsay hu
  | leave hp hs ht => exact hsay hu
  | enter pane capacity hs hnew =>
    refine ⟨hu.numbers, ?_⟩
    intro other epoch he
    by_cases ho : pane = other
    · subst ho
      have := hu.epochs pane _ (Table.get?_set_self _ _ _)
      rw [he, Option.getD_some] at this
      omega
    · exact hu.epochs other epoch ((Table.get?_set_of_ne _ _ ho).trans he)

theorem Leads.unspent {s s' : Scene} (h : Leads s s') (hu : Unspent s') : Unspent s := by
  induction h with
  | refl => exact hu
  | tail _ hm ih => exact ih (hm.unspent hu)

theorem Leads.unspent_of_catchUp {s s' : Scene} (h : Leads s.catchUp s') (hu : Unspent s') :
    Unspent s := (Move.catchUp s).unspent (h.unspent hu)

structure Sound (s : Scene) : Prop where
  bus : s.bus = .window s.bus.capacity s.published
  distinct : (s.speakers.map Speaker.source).Nodup
  ordered : Ordered s.published
  kept : ∀ sp ∈ s.speakers, sp.replay = sp.voice.history s.published
  numbered : ∀ sp ∈ s.speakers, ∀ e ∈ s.published, e.source = sp.source →
    e.epoch < sp.sequencer.epoch ∨
      e.epoch = sp.sequencer.epoch ∧ e.seq ≤ sp.sequencer.lastSeq
  recorded : ∀ e ∈ s.published, ∀ pane, e.source = .pane pane →
    ∃ epoch, Table.get? s.epochs pane = some epoch ∧ e.epoch ≤ epoch
  known : ∀ sp ∈ s.speakers, ∀ pane, sp.source = .pane pane →
    ∃ epoch, Table.get? s.epochs pane = some epoch ∧ sp.sequencer.epoch ≤ epoch
  place : s.notifier.next ≤ s.published.length
  stamps : ∀ {source stamp}, s.cursor.last? source = some stamp →
    ∃ e ∈ s.read, e.source = source ∧ e.stamp = stamp
  seen : ∀ v ∈ s.voices, ∀ e ∈ v.spoken s.published, e ∈ s.read →
    s.cursor.last? e.source = none ∨ ¬ s.cursor.isNew e = true
  tidy : s.reducer.Tidy

theorem mem_speakers_welcome {s : Scene} {front behind : List Speaker} {pane : PaneId}
    {capacity : Nat} (hs : s.speakers = front ++ behind) {sp : Speaker} :
    sp ∈ (s.welcome front behind pane capacity).speakers ↔
      sp = .newcomer pane (s.nextEpoch pane) capacity ∨ sp ∈ s.speakers := by
  simp only [Scene.welcome, hs, List.mem_append, List.mem_cons]
  tauto

theorem epoch_le_welcome (s : Scene) (front behind : List Speaker) (pane : PaneId)
    (capacity : Nat) {other : PaneId} {epoch : Nat}
    (h : Table.get? s.epochs other = some epoch) :
    ∃ epoch', Table.get? (s.welcome front behind pane capacity).epochs other = some epoch' ∧
      epoch ≤ epoch' := by
  by_cases ho : pane = other
  · subst ho
    refine ⟨_, Table.get?_set_self _ _ _, ?_⟩
    rw [h, Option.getD_some]
    exact Nat.le_max_left _ _
  · exact ⟨epoch, (Table.get?_set_of_ne _ _ ho).trans h, Nat.le_refl _⟩

section Tells

variable {sp sp' : Speaker} {told : List Envelope}

theorem voice_of_tells (ht : sp.Tells told sp') (hw : ∀ e ∈ told, e.seq < wordMax) :
    sp'.voice = sp.voice := by
  have hepoch := (ht.numbers.spec hw).1
  simp only [Speaker.voice, ht.source, hepoch, ht.replay, ReplayBuffer.capacity_foldl_push]

theorem spoken_told (ht : sp.Tells told sp') (hw : ∀ e ∈ told, e.seq < wordMax) :
    sp.voice.spoken told = told := by
  rw [Voice.spoken, List.filter_eq_self]
  intro e he
  obtain ⟨hs, hepoch, -, -⟩ := (ht.numbers.spec hw).2.2.2 e he
  exact decide_eq_true ⟨hs, hepoch⟩

theorem spoken_told_of_ne (ht : sp.Tells told sp') (hw : ∀ e ∈ told, e.seq < wordMax)
    {v : Voice} (hv : v.source ≠ sp.source) : v.spoken told = [] := by
  rw [Voice.spoken, List.filter_eq_nil_iff]
  intro e he ho
  have hs := ((ht.numbers.spec hw).2.2.2 e he).1
  have hev := (of_decide_eq_true ho).1
  exact hv (hev.symm.trans hs)

theorem mem_of_mem_keep {front behind keep : List Speaker} (hk : keep = [sp'] ∨ keep = [])
    {x : Speaker} (hx : x ∈ front ++ keep ++ behind) : x = sp' ∨ x ∈ front ++ behind := by
  rcases hk with rfl | rfl <;> simp at hx ⊢ <;> tauto

theorem mem_speakers_of_rest {s : Scene} {front behind : List Speaker}
    (hs : s.speakers = front ++ sp :: behind) {x : Speaker} (hx : x ∈ front ++ behind) :
    x ∈ s.speakers := by
  rw [hs]
  simp only [List.mem_append, List.mem_cons] at hx ⊢
  tauto

theorem mem_speakers_of_split {s : Scene} {front behind : List Speaker}
    (hs : s.speakers = front ++ sp :: behind) : sp ∈ s.speakers :=
  hs ▸ List.mem_append_right _ List.mem_cons_self

theorem mem_voices_say {s : Scene} {front behind keep : List Speaker}
    (hs : s.speakers = front ++ sp :: behind) (ht : sp.Tells told sp')
    (hw : ∀ e ∈ told, e.seq < wordMax) (hk : keep = [sp'] ∨ keep = []) {v : Voice}
    (hv : v ∈ (s.say (front ++ keep ++ behind) told).voices) : v ∈ s.voices := by
  obtain ⟨x, hx, rfl⟩ := List.mem_map.mp hv
  rcases mem_of_mem_keep hk hx with rfl | hx
  · rw [voice_of_tells ht hw]
    exact List.mem_map.mpr ⟨sp, mem_speakers_of_split hs, rfl⟩
  · exact List.mem_map.mpr ⟨x, mem_speakers_of_rest hs hx, rfl⟩

end Tells

section Distinct

variable {s : Scene} {front behind keep : List Speaker} {sp sp' : Speaker} {told : List Envelope}

theorem source_ne_of_distinct (hd : (s.speakers.map Speaker.source).Nodup)
    (hs : s.speakers = front ++ sp :: behind) :
    ∀ x ∈ front ++ behind, x.source ≠ sp.source := by
  rw [hs, List.map_append, List.map_cons] at hd
  have hnot : sp.source ∉ front.map Speaker.source ++ behind.map Speaker.source :=
    (List.nodup_cons.mp (List.nodup_middle.mp hd)).1
  intro x hx he
  refine hnot ?_
  rw [← List.map_append]
  exact List.mem_map.mpr ⟨x, hx, he⟩

theorem distinct_say (hd : (s.speakers.map Speaker.source).Nodup)
    (hs : s.speakers = front ++ sp :: behind) (ht : sp.Tells told sp')
    (hk : keep = [sp'] ∨ keep = []) : ((front ++ keep ++ behind).map Speaker.source).Nodup := by
  rw [hs] at hd
  rcases hk with rfl | rfl
  · simpa [ht.source] using hd
  · rw [List.append_nil]
    refine hd.sublist (List.Sublist.map _ ?_)
    exact List.Sublist.append_left (List.sublist_cons_self _ _) _

theorem distinct_welcome (hd : (s.speakers.map Speaker.source).Nodup) {pane : PaneId}
    (capacity : Nat) (hs : s.speakers = front ++ behind)
    (hnew : ∀ sp ∈ s.speakers, sp.source ≠ .pane pane) :
    ((s.welcome front behind pane capacity).speakers.map Speaker.source).Nodup := by
  rw [hs, List.map_append] at hd
  show ((front ++ _ :: behind).map Speaker.source).Nodup
  rw [List.map_append, List.map_cons, List.nodup_middle]
  refine List.nodup_cons.mpr ⟨?_, hd⟩
  rw [← List.map_append, ← hs]
  intro hm
  obtain ⟨x, hx, he⟩ := List.mem_map.mp hm
  exact hnew x hx he

end Distinct

namespace Sound

variable {s : Scene}

theorem source_ne_of_split (h : Sound s) {front behind : List Speaker} {sp : Speaker}
    (hs : s.speakers = front ++ sp :: behind) :
    ∀ x ∈ front ++ behind, x.source ≠ sp.source := source_ne_of_distinct h.distinct hs

theorem newer (h : Sound s) {sp sp' : Speaker} {told : List Envelope} (hsp : sp ∈ s.speakers)
    (ht : sp.Tells told sp') (hw : ∀ e ∈ told, e.seq < wordMax) :
    ∀ a ∈ s.published, ∀ b ∈ told, a.source = b.source → a.stamp.before b.stamp = true := by
  intro a ha b hb hab
  obtain ⟨hs, hepoch, hlast, -⟩ := (ht.numbers.spec hw).2.2.2 b hb
  rw [Stamp.before_iff]
  show a.epoch < b.epoch ∨ a.epoch = b.epoch ∧ a.seq < b.seq
  rcases h.numbered sp hsp a ha (hab.trans hs) with hlt | ⟨heq, hle⟩
  · exact .inl (hepoch ▸ hlt)
  · exact .inr ⟨heq.trans hepoch.symm, by omega⟩

section Say

variable {front behind keep : List Speaker} {sp sp' : Speaker} {told : List Envelope}

theorem kept_say (h : Sound s) (hs : s.speakers = front ++ sp :: behind)
    (ht : sp.Tells told sp') (hk : keep = [sp'] ∨ keep = [])
    (hw : ∀ e ∈ told, e.seq < wordMax) {x : Speaker} (hx : x ∈ front ++ keep ++ behind) :
    x.replay = x.voice.history (s.published ++ told) := by
  rcases mem_of_mem_keep hk hx with rfl | hx
  · rw [voice_of_tells ht hw, ht.replay, h.kept sp (mem_speakers_of_split hs)]
    simp only [Voice.history, Voice.spoken_append, spoken_told ht hw, List.foldl_append]
  · have hsilent := spoken_told_of_ne (v := x.voice) ht hw (h.source_ne_of_split hs x hx)
    rw [h.kept x (mem_speakers_of_rest hs hx)]
    simp only [Voice.history, Voice.spoken_append, hsilent, List.append_nil]

theorem numbered_say (h : Sound s) (hs : s.speakers = front ++ sp :: behind)
    (ht : sp.Tells told sp') (hk : keep = [sp'] ∨ keep = [])
    (hw : ∀ e ∈ told, e.seq < wordMax) {x : Speaker} (hx : x ∈ front ++ keep ++ behind)
    {e : Envelope} (he : e ∈ s.published ++ told) (hes : e.source = x.source) :
    e.epoch < x.sequencer.epoch ∨
      e.epoch = x.sequencer.epoch ∧ e.seq ≤ x.sequencer.lastSeq := by
  obtain ⟨hepoch, hlast, -, hall⟩ := ht.numbers.spec hw
  rcases mem_of_mem_keep hk hx with rfl | hx <;> rcases List.mem_append.mp he with he | he
  · have hold := h.numbered sp (mem_speakers_of_split hs) e he (hes.trans ht.source)
    rw [hepoch]
    omega
  · obtain ⟨-, hee, -, hel⟩ := hall e he
    exact .inr ⟨hee.trans hepoch.symm, hel⟩
  · exact h.numbered x (mem_speakers_of_rest hs hx) e he hes
  · exact absurd (hes.symm.trans (hall e he).1) (h.source_ne_of_split hs x hx)

theorem recorded_say (h : Sound s) (hs : s.speakers = front ++ sp :: behind)
    (ht : sp.Tells told sp') (hw : ∀ e ∈ told, e.seq < wordMax) {e : Envelope}
    (he : e ∈ s.published ++ told) {pane : PaneId} (hp : e.source = .pane pane) :
    ∃ epoch, Table.get? s.epochs pane = some epoch ∧ e.epoch ≤ epoch := by
  rcases List.mem_append.mp he with he | he
  · exact h.recorded e he pane hp
  · obtain ⟨hes, hee, -, -⟩ := (ht.numbers.spec hw).2.2.2 e he
    obtain ⟨epoch, hget, hle⟩ :=
      h.known sp (mem_speakers_of_split hs) pane (hes.symm.trans hp)
    exact ⟨epoch, hget, hee ▸ hle⟩

theorem known_say (h : Sound s) (hs : s.speakers = front ++ sp :: behind)
    (ht : sp.Tells told sp') (hk : keep = [sp'] ∨ keep = [])
    (hw : ∀ e ∈ told, e.seq < wordMax) {x : Speaker} (hx : x ∈ front ++ keep ++ behind)
    {pane : PaneId} (hp : x.source = .pane pane) :
    ∃ epoch, Table.get? s.epochs pane = some epoch ∧ x.sequencer.epoch ≤ epoch := by
  rcases mem_of_mem_keep hk hx with rfl | hx
  · obtain ⟨epoch, hget, hle⟩ :=
      h.known sp (mem_speakers_of_split hs) pane (ht.source.symm.trans hp)
    exact ⟨epoch, hget, (ht.numbers.spec hw).1 ▸ hle⟩
  · exact h.known x (mem_speakers_of_rest hs hx) pane hp

theorem say (h : Sound s) (hs : s.speakers = front ++ sp :: behind) (ht : sp.Tells told sp')
    (hk : keep = [sp'] ∨ keep = []) (hu : Unspent (s.say (front ++ keep ++ behind) told)) :
    Sound (s.say (front ++ keep ++ behind) told) := by
  have hw := hu.told
  have hord := (ht.numbers.spec hw).2.2.1
  have hread : (s.say (front ++ keep ++ behind) told).read = s.read :=
    List.take_append_of_le_length h.place
  refine ⟨?_, distinct_say h.distinct hs ht hk,
    h.ordered.append hord (h.newer (mem_speakers_of_split hs) ht hw),
    fun _ hx => h.kept_say hs ht hk hw hx,
    fun _ hx _ he hes => h.numbered_say hs ht hk hw hx he hes,
    fun _ he _ hp => h.recorded_say hs ht hw he hp,
    fun _ hx _ hp => h.known_say hs ht hk hw hx hp, ?_, ?_, ?_, h.tidy⟩
  · show told.foldl Ring.send s.bus = Ring.window (told.foldl Ring.send s.bus).capacity _
    rw [h.bus, Ring.foldl_send_window]
    rfl
  · have := h.place
    simp only [Scene.say, List.length_append]
    omega
  · intro source stamp hst
    obtain ⟨e, he, hes⟩ := h.stamps hst
    exact ⟨e, hread.symm ▸ he, hes⟩
  · intro v hv e he hr
    have hr' : e ∈ s.read := hread ▸ hr
    have hsp : e ∈ v.spoken s.published :=
      v.mem_spoken.mpr ⟨List.mem_of_mem_take hr', (v.mem_spoken.mp he).2⟩
    exact h.seen v (mem_voices_say hs ht hw hk hv) e hsp hr'

end Say

end Sound

end Scene

end Switchboard
