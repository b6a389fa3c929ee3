import Switchboard.Observer
import Switchboard.Pane.Stream
import Switchboard.Proofs.FsSource.Reports
import Switchboard.Proofs.Replay.History

/-!
# Who tells, and in which numbers

A pane and the observer of the file system tell in the same way: every envelope takes the next
number and goes into the history, in the order in which it is told. That is all the bus and those
who follow it have to know of either.
-/
namespace Switchboard

namespace Sequencer

inductive Numbers (source : Source) : Sequencer → List Envelope → Sequencer → Prop where
  | nil (q : Sequencer) : Numbers source q [] q
  | cons {q q' : Sequencer} {e : Envelope} {told : List Envelope} (hs : e.source = source)
      (ht : e.stamp = q.advance.stamp) (h : Numbers source q.advance told q') :
      Numbers source q (e :: told) q'

theorem Numbers.append {source : Source} {q q' q'' : Sequencer} {told more : List Envelope}
    (h : Numbers source q told q') (h' : Numbers source q' more q'') :
    Numbers source q (told ++ more) q'' := by
  induction h with
  | nil q => exact h'
  | cons hs ht _ ih => exact .cons hs ht (ih h')

theorem Numbers.epoch_eq {source : Source} {q q' : Sequencer} {told : List Envelope}
    (h : Numbers source q told q') : q'.epoch = q.epoch := by
  induction h with
  | nil q => rfl
  | cons _ _ _ ih => exact ih

theorem Numbers.stamp_eq {source : Source} {q q' : Sequencer} {told : List Envelope}
    (h : Numbers source q told q') {i : Nat} {e : Envelope} (hi : told[i]? = some e) :
    e.source = source ∧ e.stamp = ⟨q.epoch, min (q.lastSeq + i + 1) wordMax⟩ := by
  induction h generalizing i with
  | nil q => cases hi
  | @cons q q' x told hs ht _ ih =>
    cases i with
    | zero =>
      cases hi
      exact ⟨hs, ht⟩
    | succ i =>
      obtain ⟨hsource, hstamp⟩ := ih hi
      refine ⟨hsource, hstamp.trans ?_⟩
      have hnext : q.advance.lastSeq = min (q.lastSeq + 1) wordMax := rfl
      rw [hnext, Stamp.mk.injEq]
      exact ⟨rfl, by omega⟩

theorem Numbers.spec {source : Source} {q q' : Sequencer} {told : List Envelope}
    (h : Numbers source q told q') (hw : ∀ e ∈ told, e.seq < wordMax) :
    q'.epoch = q.epoch ∧ q.lastSeq ≤ q'.lastSeq ∧ Ordered told ∧
      ∀ e ∈ told, e.source = source ∧ e.epoch = q.epoch ∧ q.lastSeq < e.seq ∧
        e.seq ≤ q'.lastSeq := by
  induction h with
  | nil q => exact ⟨rfl, Nat.le_refl _, .nil, fun e he => by cases he⟩
  | @cons q q' e told hs ht _ ih =>
    obtain ⟨hepoch, hlast, hord, hall⟩ := ih fun x hx => hw x (List.mem_cons_of_mem _ hx)
    have hseq : e.seq = satSucc q.lastSeq := congrArg Stamp.seq ht
    have hnext : satSucc q.lastSeq = q.lastSeq + 1 := by
      have := hw e List.mem_cons_self
      rw [hseq] at this
      simp only [satSucc, satAdd] at this ⊢
      omega
    have hadv : q.advance.lastSeq = q.lastSeq + 1 := hnext
    rw [hadv] at hlast hall
    refine ⟨hepoch, by omega, ⟨List.pairwise_cons.mpr ⟨?_, hord.grows⟩, ?_⟩, ?_⟩
    · intro x hx _
      obtain ⟨-, hxe, hxl, -⟩ := hall x hx
      rw [Stamp.before_iff]
      refine .inr ⟨(congrArg Stamp.epoch ht).trans hxe.symm, ?_⟩
      show e.seq < x.seq
      omega
    · intro x hx
      rcases List.mem_cons.mp hx with rfl | hx
      · omega
      · exact hord.positive x hx
    · intro x hx
      rcases List.mem_cons.mp hx with rfl | hx
      · exact ⟨hs, congrArg Stamp.epoch ht, by omega, by omega⟩
      · obtain ⟨hxs, hxe, hxl, hxu⟩ := hall x hx
        exact ⟨hxs, hxe, by omega, hxu⟩

end Sequencer

/-- Who tells, as far as it shows in what is told. -/
structure Speaker where
  source : Source
  sequencer : Sequencer
  replay : ReplayBuffer

namespace Speaker

structure Tells (sp : Speaker) (told : List Envelope) (sp' : Speaker) : Prop where
  source : sp'.source = sp.source
  numbers : Sequencer.Numbers sp.source sp.sequencer told sp'.sequencer
  replay : sp'.replay = told.foldl ReplayBuffer.push sp.replay

theorem Tells.nothing (sp : Speaker) : Tells sp [] sp := ⟨rfl, .nil _, rfl⟩

theorem Tells.append {sp sp' sp'' : Speaker} {told more : List Envelope} (h : Tells sp told sp')
    (h' : Tells sp' more sp'') : Tells sp (told ++ more) sp'' := by
  refine ⟨h'.source.trans h.source, h.numbers.append (h.source ▸ h'.numbers), ?_⟩
  rw [h'.replay, h.replay, List.foldl_append]

end Speaker

namespace Pane

def speaker (p : Pane) : Speaker := ⟨.pane p.id, p.sequencer, p.replay⟩

theorem tells_emit (p : Pane) (cause : Cause) (event : Event) :
    p.speaker.Tells [p.envelope cause event] (p.emit cause event).speaker :=
  ⟨rfl, .cons rfl rfl (.nil _), rfl⟩

theorem tells_tell (p : Pane) (cause : Cause) (events : List Event) :
    p.speaker.Tells (p.tell cause events).2 (p.tell cause events).1.speaker := by
  induction events generalizing p with
  | nil => exact .nothing _
  | cons event rest ih => exact (p.tells_emit cause event).append (ih _)

def Outcome.Sound {α : Type} (p : Pane) (o : Outcome α) : Prop :=
  p.speaker.Tells o.told o.pane.speaker

variable {α : Type}

theorem sound_telling (p : Pane) (cause : Cause) (events : List Event) (result : α) :
    Outcome.Sound p (p.telling cause events result) := p.tells_tell cause events

theorem sound_silent (p : Pane) (result : α) : Outcome.Sound p (p.silent result) := .nothing _

theorem sound_fail (p : Pane) (cause : Cause) (reason : String) (result : α) :
    Outcome.Sound p (p.fail cause reason result) := by
  simp only [fail]
  rcases p.lifecycle.fail reason with ⟨lifecycle, _ | t⟩
  · exact p.sound_silent result
  · exact sound_telling { p with lifecycle } _ _ _

theorem sound_start (p : Pane) (now : Nat) : Outcome.Sound p (p.start now) := by
  simp only [start]
  rcases p.backend.start p.metadata with ⟨backend, e | events⟩
  · exact sound_fail { p with backend } _ _ _
  · cases p.lifecycle.markReady with
    | error e => exact sound_silent { p with backend } _
    | ok out => exact sound_telling { p with backend, lifecycle := out.1 } _ _ _

theorem sound_updateMetadata {p : Pane} {cause : Cause} {patch : MetadataPatch}
    {o : Outcome Unit} (h : p.updateMetadata cause patch = .ok o) : Outcome.Sound p o := by
  simp only [updateMetadata] at h
  split at h
  · cases h
  · split at h
    · cases h
    · split at h
      · cases h
        exact sound_telling { p with metadata := patch.apply p.metadata } _ _ _
      · cases h
        exact sound_silent { p with metadata := patch.apply p.metadata } _

theorem speaker_terminate (p : Pane) : p.terminate.1.speaker = p.speaker := by
  simp only [terminate]
  rcases p.lifecycle.terminate with ⟨lifecycle, _ | t⟩ <;> rfl

theorem speaker_endIfStopped (p : Pane) : p.endIfStopped.1.speaker = p.speaker := by
  simp only [endIfStopped]
  by_cases h : p.backend.isAlive = true
  · rw [if_pos h]
  · rw [if_neg h]
    exact p.speaker_terminate

theorem speaker_beginDrain (p : Pane) : p.beginDrain.1.speaker = p.speaker := by
  simp only [beginDrain]
  cases p.state with
  | ready =>
    cases p.lifecycle.beginDrain with
    | error e => rfl
    | ok out => rfl
  | _ => rfl

theorem sound_applyBackend (p : Pane) (command : CommandEnvelope) (now : Nat) :
    Outcome.Sound p (p.applyBackend command now) := by
  simp only [applyBackend]
  rcases p.backend.apply command.command with ⟨backend, e | events⟩
  · cases e with
    | invalid reason => exact sound_silent { p with backend } _
    | fatal reason => exact sound_fail { p with backend } _ _ _
  · have ht := sound_telling (endIfStopped { p with backend }).1 (Cause.of command now)
      (events ++ (endIfStopped { p with backend }).2) ()
    rw [Outcome.Sound, speaker_endIfStopped] at ht
    exact ht

theorem sound_handle (p : Pane) (command : CommandEnvelope) (now : Nat) :
    Outcome.Sound p (p.handle command now) := by
  simp only [handle]
  cases p.refusal? command with
  | some e => exact p.sound_silent _
  | none =>
    cases command.command with
    | updateMetadata patch =>
      cases hu : p.updateMetadata (Cause.of command now) patch with
      | ok o =>
        simp only [hu]
        exact sound_updateMetadata hu
      | error e =>
        simp only [hu]
        exact p.sound_silent _
    | _ => exact p.sound_applyBackend command now

theorem sound_shutdown (p : Pane) (now : Nat) : Outcome.Sound p (p.shutdown now) := by
  simp only [shutdown]
  by_cases hr : p.released = true
  · rw [if_pos hr]
    exact p.sound_silent _
  rw [if_neg hr]
  have hd := speaker_beginDrain { p with released := true }
  generalize hq : beginDrain { p with released := true } = q at hd
  have hs : (terminate { q.1 with backend := q.1.backend.shutdown.1 }).1.speaker = p.speaker :=
    (speaker_terminate _).trans hd
  have ht := sound_telling (terminate { q.1 with backend := q.1.backend.shutdown.1 }).1
    (Cause.at now) (q.2 ++ (terminate { q.1 with backend := q.1.backend.shutdown.1 }).2)
    q.1.backend.shutdown.2
  rw [Outcome.Sound, hs] at ht
  exact ht

end Pane

namespace FsSource

theorem numbers_emitAll {s : FsSource} {q : Sequencer} (hq : s.sequencer = q) (w : WorktreeId)
    (now : Nat) (events : List FilesystemEvent) :
    Sequencer.Numbers .filesystem q (s.emitAll w now events).2
      (s.emitAll w now events).1.sequencer := by
  induction events generalizing s q with
  | nil => exact hq ▸ .nil _
  | cons event rest ih =>
    subst hq
    exact .cons rfl rfl (ih rfl)

theorem sequencer_beginProbe (s : FsSource) (w : WorktreeId) (reason : ReconcileReason) :
    (s.beginProbe w reason).1.sequencer = s.sequencer := by
  rcases s.beginProbe_cases w reason with h | ⟨state, probing, queued, -, h⟩
  · rw [h]
  · rw [h]
    rfl

theorem sequencer_beginProbes (s : FsSource) (reason : ReconcileReason) (ws : List WorktreeId) :
    (s.beginProbes reason ws).1.sequencer = s.sequencer := by
  induction ws generalizing s with
  | nil => rfl
  | cons w rest ih => rw [beginProbes_cons, ih, sequencer_beginProbe]

theorem numbers_flushRoots (s : FsSource) (now : Nat) (ws : List WorktreeId) :
    Sequencer.Numbers .filesystem s.sequencer (s.flushRoots now ws).2.envelopes
      (s.flushRoots now ws).1.sequencer := by
  induction ws generalizing s with
  | nil => exact .nil _
  | cons w rest ih =>
    have hfirst : Sequencer.Numbers .filesystem s.sequencer (s.flushRoot w now).2.envelopes
        (s.flushRoot w now).1.sequencer := by
      rcases s.flushRoot_cases w now with ⟨batcher, hs, he⟩ | ⟨batcher, css, hs, he⟩
      · rw [hs, he]
        exact .nil _
      · rw [hs, he, sequencer_beginProbe]
        exact numbers_emitAll (s := { s with batcher }) rfl w now _
    rw [(s.flushRoots_cons now w rest).1, (s.flushRoots_cons now w rest).2]
    exact hfirst.append (ih _)

theorem numbers_applyStatus (s : FsSource) (o : ProbeOutcome) (now : Nat) :
    Sequencer.Numbers .filesystem s.sequencer (s.applyStatus o now).2.envelopes
      (s.applyStatus o now).1.sequencer := by
  have hresumed : ∀ (mid : FsSource × List Envelope) (queued : Option ReconcileReason),
      Sequencer.Numbers .filesystem s.sequencer mid.2 mid.1.sequencer →
      Sequencer.Numbers .filesystem s.sequencer (resumed mid o.worktree queued).2.envelopes
        (resumed mid o.worktree queued).1.sequencer := by
    intro mid queued h
    cases queued with
    | none => exact h
    | some reason =>
      simp only [resumed, sequencer_beginProbe]
      exact h
  cases hs : s.state? o.worktree with
  | none =>
    simp only [applyStatus, hs]
    exact .nil _
  | some state =>
    by_cases hg : state.generation = o.generation
    · rw [applyStatus_of_state hs hg]
      cases o.report with
      | none => exact hresumed _ _ (.nil _)
      | some report => exact hresumed _ _ (numbers_emitAll (by rfl) _ _ _)
    · simp only [applyStatus, hs]
      rw [if_pos hg]
      exact .nil _

end FsSource

namespace Observer

def speaker (o : Observer) : Speaker := ⟨.filesystem, o.source.sequencer, o.replay⟩

theorem tells_flushDue (o : Observer) (now : Nat) :
    o.speaker.Tells (o.flushDue now).2 (o.flushDue now).1.speaker :=
  ⟨rfl, o.source.numbers_flushRoots now _, rfl⟩

theorem tells_answer (o : Observer) (look : Path → Option StatusReport) (now : Nat) :
    o.speaker.Tells (o.answer look now).2 (o.answer look now).1.speaker := by
  simp only [answer]
  cases o.probes with
  | nil => exact .nothing _
  | cons probe rest => exact ⟨rfl, o.source.numbers_applyStatus _ now, rfl⟩

theorem speaker_reconcile (o : Observer) (reason : ReconcileReason) :
    (o.reconcile reason).speaker = o.speaker := by
  have h := o.source.sequencer_beginProbes reason
    (o.source.scheduled (o.source.table.list.map (·.worktree)))
  simp only [speaker, reconcile, FsSource.reconcileAll, h]

theorem speaker_ingest (o : Observer) (paths : List Path) (now : Nat) :
    (o.ingest paths now).speaker = o.speaker := by
  obtain ⟨batcher, h⟩ := o.source.ingest_state paths now
  simp only [speaker, ingest, h]

theorem speaker_register {o o' : Observer} {w : WorktreeId} {path : Path} {tier : ActivityTier}
    (h : o.register w path tier = .ok o') : o'.speaker = o.speaker := by
  simp only [register, bind, Except.bind] at h
  cases hr : o.source.register w path tier with
  | error e => rw [hr] at h; cases h
  | ok out =>
    rw [hr] at h
    cases h
    obtain ⟨-, table, root, -, hs⟩ := FsSource.register_eq_ok hr
    simp only [speaker, hs, FsSource.sequencer_beginProbe]
    rfl

theorem speaker_unregister {o o' : Observer} {w : WorktreeId} (h : o.unregister w = .ok o') :
    o'.speaker = o.speaker := by
  simp only [unregister, bind, Except.bind] at h
  cases hr : o.source.unregister w with
  | error e => rw [hr] at h; cases h
  | ok out =>
    rw [hr] at h
    cases h
    simp only [speaker, (FsSource.unregister_eq_ok hr).2.2]

theorem speaker_setTier {o o' : Observer} {w : WorktreeId} {tier : ActivityTier}
    (h : o.setTier w tier = .ok o') : o'.speaker = o.speaker := by
  simp only [setTier, bind, Except.bind] at h
  cases hr : o.source.setTier w tier with
  | error e => rw [hr] at h; cases h
  | ok source =>
    rw [hr] at h
    cases h
    obtain ⟨table, root, root', rfl, -, -⟩ := FsSource.setTier_eq_ok hr
    rfl

end Observer

end Switchboard
