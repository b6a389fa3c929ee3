import Switchboard.Proofs.Pane.Lifecycle
import Switchboard.Proofs.Pane.Resources

/-!
# Going on from a snapshot

A snapshot of a pane names an epoch and a number, and a consumer that has looked at the pane asks
for all that came after it. The number is that of the sequencer, and the answer is that of the
history, which learns the epoch of the pane only with the first envelope. So the two agree as soon
as anything is told; before that, a pane of a later epoch turns its own snapshot down.
-/
namespace Switchboard

namespace Speaker.Logged

variable {sp : Speaker} {log : List Envelope}

theorem replayFrom_eq (h : sp.Logged log) (he : sp.replay.epoch = sp.sequencer.epoch) (n : Nat) :
    sp.replay.replayFrom sp.sequencer.epoch n =
      if n + sp.replay.capacity < min log.length wordMax then
        .gap .evicted n sp.replay.oldestSeq sp.sequencer.epoch
      else .events ((log.take wordMax).drop n) := by
  have hev := h.evictedThrough_eq
  rw [ReplayBuffer.replayFrom, if_neg (not_not.mpr he.symm), ReplayBuffer.replay, he]
  by_cases hlost : n + sp.replay.capacity < min log.length wordMax
  · rw [if_pos hlost, if_pos (by omega)]
  · rw [if_neg hlost, if_neg (by omega), h.after_history (by omega)]

end Speaker.Logged

namespace Pane

/-- Asked for what came after the snapshot, the pane hands all of it out if it is no more than there
is room for, and names a gap otherwise. -/
def Resumes (s : PaneSnapshot) (since : List Envelope) (room : Nat) (q : Pane) : Prop :=
  (since.length ≤ room → q.replay.replayFrom s.epoch s.lastSeq = .events since) ∧
    (room < since.length → (q.replay.replayFrom s.epoch s.lastSeq).isGap = true)

theorem drop_take_append_iff (log since : List Envelope) :
    ((log ++ since).take wordMax).drop (min log.length wordMax) = since ↔
      since = [] ∨ log.length + since.length ≤ wordMax := by
  constructor
  · intro h
    have hlen := congrArg List.length h
    rw [List.length_drop, List.length_take, List.length_append] at hlen
    rw [← List.length_eq_zero_iff]
    omega
  · rintro (rfl | hfits)
    · rw [List.append_nil]
      apply List.drop_eq_nil_of_le
      rw [List.length_take]
      omega
    · rw [List.take_of_length_le (by rwa [List.length_append]), Nat.min_eq_left (by omega),
        List.drop_left]

section Asking

variable {p q : Pane} {log since : List Envelope}

theorem resumes_iff_of_logged (hp : p.speaker.Logged log) (hq : q.speaker.Logged (log ++ since))
    (hpq : q.epoch = p.epoch) (he : q.replay.epoch = q.epoch) :
    Resumes p.snapshot since q.replay.capacity q ↔
      since = [] ∨ log.length + min since.length (q.replay.capacity + 1) ≤ wordMax := by
  have hroom : 0 < q.replay.capacity := hq.history.room
  have hlast : p.lastSeq = min log.length wordMax := hp.last
  have hanswer : q.replay.replayFrom p.snapshot.epoch p.snapshot.lastSeq =
      if p.lastSeq + q.replay.capacity < min (log ++ since).length wordMax then
        .gap .evicted p.lastSeq q.replay.oldestSeq q.epoch
      else .events (((log ++ since).take wordMax).drop p.lastSeq) := by
    rw [show p.snapshot.epoch = q.epoch from hpq.symm]
    exact hq.replayFrom_eq he p.lastSeq
  simp only [Resumes, hanswer, hlast, List.length_append]
  by_cases hfew : since.length ≤ q.replay.capacity
  · -- nothing that is asked for was pushed out
    rw [if_neg (by omega), ReplayResult.events.injEq, drop_take_append_iff]
    have hsince : min since.length (q.replay.capacity + 1) = since.length := by omega
    rw [hsince]
    exact ⟨fun h => h.1 hfew, fun h => ⟨fun _ => h, fun hmany => by omega⟩⟩
  · have hne : since ≠ [] := fun h => hfew (by rw [h]; exact Nat.zero_le _)
    have hsince : min since.length (q.replay.capacity + 1) = q.replay.capacity + 1 := by omega
    rw [hsince]
    split
    · next hlost => exact iff_of_true ⟨fun h => absurd h hfew, fun _ => rfl⟩ (.inr (by omega))
    · next hkept =>
      refine iff_of_false (fun h => ?_) ?_
      · have hgap := h.2 (by omega)
        cases hgap
      · rintro (h | h)
        · exact hne h
        · omega

theorem resumes_iff_of_untold (hp : p.speaker.Logged []) (hq : q.speaker.Logged [])
    (hpq : q.epoch = p.epoch) (hzero : q.replay.epoch = 0) :
    Resumes p.snapshot [] q.replay.capacity q ↔ p.epoch = 0 := by
  by_cases he : p.epoch = 0
  · have hknown : q.replay.epoch = q.epoch := by rw [hzero, hpq, he]
    exact iff_of_true ((resumes_iff_of_logged hp hq hpq hknown).mpr (.inl rfl)) he
  · have hgap : q.replay.replayFrom p.snapshot.epoch p.snapshot.lastSeq =
        .gap .epochReset p.lastSeq q.replay.oldestSeq q.replay.epoch :=
      if_pos (hzero ▸ he)
    refine iff_of_false (fun h => ?_) he
    have hevents := h.1 (Nat.zero_le _)
    rw [hgap] at hevents
    cases hevents

end Asking

def Operation.isCommand : Operation → Bool
  | .handle _ _ => true
  | .start _ | .shutdown _ => false

section Created

variable {p : Pane}

theorem told_telling_eq_nil {α : Type} {cause : Cause} {events : List Event} {result : α} :
    (p.telling cause events result).told = [] ↔ events = [] := by
  have hevents : (p.telling cause events result).told.map Envelope.event = events :=
    p.events_tell cause events
  rw [← List.map_eq_nil_iff (f := Envelope.event), hevents]

theorem perform_handle_of_created (hs : p.state = .created) (command : CommandEnvelope)
    (now : Nat) : p.perform (.handle command now) = p.silent () := by
  have hclosed : p.state ≠ .ready := by rw [hs]; decide
  obtain ⟨e, he⟩ := refusal?_of_not_ready hclosed command
  simp only [perform, handle, he]
  rfl

theorem told_start_ne_nil (hs : p.state = .created) (now : Nat) : (p.start now).told ≠ [] := by
  have hstate : p.lifecycle.state = .created := hs
  have hopen : p.lifecycle.state.isTerminal = false := by rw [hstate]; rfl
  simp only [start]
  split
  next backend e _ =>
    simp only [fail, Lifecycle.fail, hopen, Bool.false_eq_true, if_false]
    exact mt told_telling_eq_nil.mp (List.cons_ne_nil _ _)
  next backend events _ =>
    have hready : ¬ LifecycleState.ready.rank ≤ p.lifecycle.state.rank := by rw [hstate]; decide
    simp only [Lifecycle.markReady, Lifecycle.advance, if_neg hready]
    exact mt told_telling_eq_nil.mp (List.cons_ne_nil _ _)

theorem told_shutdown_ne_nil (hs : p.state = .created) (hr : p.released = false) (now : Nat) :
    (p.shutdown now).told ≠ [] := by
  intro hnone
  have htale := (narrates_shutdown (p := p) Backend.manners_any trivial now).tale
  rw [hnone, List.map_nil, state_shutdown hr, hs] at htale
  cases htale.eq_of_nil

theorem told_eq_nil_iff (hs : p.state = .created) (hr : p.released = false)
    (operations : List Operation) :
    p.told operations = [] ↔ ∀ op ∈ operations, op.isCommand = true := by
  induction operations with
  | nil => simp [told]
  | cons op rest ih =>
    rw [told, List.append_eq_nil_iff, List.forall_mem_cons]
    cases op with
    | start now =>
      refine iff_of_false (fun h => told_start_ne_nil hs now h.1) fun h => ?_
      cases h.1
    | shutdown now =>
      refine iff_of_false (fun h => told_shutdown_ne_nil hs hr now h.1) fun h => ?_
      cases h.1
    | handle command now =>
      rw [perform_handle_of_created hs]
      exact and_congr (iff_of_true rfl rfl) ih

end Created

/-- A consumer that goes on from a snapshot gets what was told since, if there is room for it, and
learns of a gap otherwise. This is so at once and ever after if the epoch of the pane is the first
one, or if the pane has been started or shut down by the time of the question, and as long as the
numbers do not run out. A pane of a later epoch that has only been sent commands, which it turned
down, answers that the epoch of its own snapshot is another one. -/
theorem resumes_iff (id : PaneId) (backend : Backend) (metadata : Metadata)
    (capabilities : Capabilities) (epoch capacity : Nat) (before more : List Operation) :
    let origin := create id backend metadata capabilities epoch capacity
    let p := origin.performAll before
    let q := p.performAll more
    let room := max capacity 1
    (Resumes p.snapshot (p.told more) room q ↔
      (epoch = 0 ∨ ∃ op ∈ before ++ more, op.isCommand = false) ∧
      (p.told more = [] ∨
        (origin.told before).length + min (p.told more).length (room + 1) ≤ wordMax)) ∧
    (epoch ≠ 0 → (∀ op ∈ before ++ more, op.isCommand = true) →
      p.told more = [] ∧ q.replay.replayFrom p.snapshot.epoch p.snapshot.lastSeq =
        .gap .epochReset 0 none 0) := by
  intro origin p q room
  have hcreated := logged_create id backend metadata capabilities epoch capacity
  have htells := origin.tells_performAll before
  have hp : p.speaker.Logged (origin.told before) := hcreated.tells htells
  have hq : q.speaker.Logged (origin.told before ++ p.told more) :=
    hp.tells (p.tells_performAll more)
  have hpepoch : p.epoch = epoch := htells.numbers.epoch_eq
  have hqepoch : q.epoch = p.epoch := (p.tells_performAll more).numbers.epoch_eq
  have hroom : q.replay.capacity = room :=
    (p.capacity_performAll more).trans (origin.capacity_performAll before)
  have hcommands : origin.told (before ++ more) = [] ↔
      ∀ op ∈ before ++ more, op.isCommand = true := told_eq_nil_iff rfl rfl _
  rw [told_append] at hcommands
  by_cases hnone : origin.told before ++ p.told more = []
  · have hall := hcommands.mp hnone
    obtain ⟨hb, hm⟩ := List.append_eq_nil_iff.mp hnone
    have hreplay : q.replay = .create (.pane id) capacity := by
      have hpreplay : p.replay = (origin.told before).foldl ReplayBuffer.push origin.replay :=
        htells.replay
      have hqreplay : q.replay = (p.told more).foldl ReplayBuffer.push p.replay :=
        (p.tells_performAll more).replay
      rw [hqreplay, hpreplay, hb, hm]
      rfl
    have hzero : q.replay.epoch = 0 := by rw [hreplay]; rfl
    have hnever : ¬ ∃ op ∈ before ++ more, op.isCommand = false := by
      rintro ⟨op, hop, hc⟩
      rw [hall op hop] at hc
      cases hc
    rw [hb] at hp
    rw [hb, hm] at hq
    refine ⟨?_, fun he _ => ⟨hm, ?_⟩⟩
    · rw [hm, ← hroom, resumes_iff_of_untold hp hq hqepoch hzero, hpepoch, or_iff_left hnever]
      exact (and_iff_left (.inl rfl)).symm
    · have hlast : p.snapshot.lastSeq = 0 := hp.last
      have hepoch : p.snapshot.epoch = epoch := hpepoch
      rw [hreplay, hlast, hepoch]
      exact if_pos he
  · have hknown : q.replay.epoch = q.epoch := hq.epoch.resolve_right fun h => hnone h.1
    have hcalled : ∃ op ∈ before ++ more, op.isCommand = false := by
      by_contra hnever
      refine hnone (hcommands.mpr fun op hop => ?_)
      by_contra hc
      exact hnever ⟨op, hop, by simpa using hc⟩
    refine ⟨?_, fun _ hall => absurd (hcommands.mpr hall) hnone⟩
    rw [← hroom, resumes_iff_of_logged hp hq hqepoch hknown]
    exact (and_iff_right (.inr hcalled)).symm

/-- A new terminal of epoch 5 is asked right away for what came after its own snapshot. -/
theorem not_always_resumes :
    ¬ ∀ id kind metadata capabilities epoch capacity before more, 1 ≤ capacity →
      let p := (create id (.create id kind) metadata capabilities epoch capacity).performAll before
      Resumes p.snapshot (p.told more) capacity (p.performAll more) := by
  intro h
  have hnew := (h ⟨"p1"⟩ .terminal ⟨none, none, none, none⟩ (.ofKind .terminal) 5 256 [] []
    (by decide)).1 (Nat.zero_le _)
  revert hnew
  decide +kernel

end Pane

end Switchboard
