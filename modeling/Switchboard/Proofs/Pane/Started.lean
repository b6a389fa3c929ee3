import Switchboard.Proofs.Pane.Commands
import Switchboard.Proofs.Workspace.Accounts

/-!
# A pane in service

A pane that was created is ready when it was started: no backend that is new refuses to start. From
then on a command leaves it ready or ends it, and a shutdown ends it in any case.
-/
namespace Switchboard

open Books (Serves)

theorem Backend.start_create (id : PaneId) (kind : PaneKind) (metadata : Metadata) :
    ∃ backend events, (Backend.create id kind).start metadata = (backend, .ok events) := by
  cases kind <;> exact ⟨_, _, rfl⟩

def Outcome.ends (o : Outcome (Except CommandError CommandAck)) : Bool :=
  match o.result with
  | .error e => e.isFatal || o.pane.state.isTerminal
  | .ok _ => o.pane.state.isTerminal

theorem Outcome.isTerminal_of_not_ends {o : Outcome (Except CommandError CommandAck)}
    (h : o.ends = false) : o.pane.state.isTerminal = false := by
  simp only [ends] at h
  split at h
  · exact (Bool.or_eq_false_iff.mp h).2
  · exact h

namespace Pane

variable {α : Type} {p q : Pane}

theorem released_tell (p : Pane) (cause : Cause) (events : List Event) :
    (p.tell cause events).1.released = p.released := by
  induction events generalizing p with
  | nil => rfl
  | cons event rest ih => exact ih _

theorem metadata_telling (p : Pane) (cause : Cause) (events : List Event) (result : α) :
    (p.telling cause events result).pane.metadata = p.metadata := p.metadata_tell cause events

theorem state_telling (p : Pane) (cause : Cause) (events : List Event) (result : α) :
    (p.telling cause events result).pane.state = p.state :=
  congrArg Lifecycle.state (p.lifecycle_tell cause events)

structure Lasts (p q : Pane) : Prop where
  id : q.id = p.id
  released : q.released = p.released
  state : q.state = p.state ∨ q.state = .terminated

theorem lasts_telling (h : Lasts p q) (cause : Cause) (events : List Event) (result : α) :
    Lasts p (q.telling cause events result).pane where
  id := (Source.pane.inj (sound_telling q cause events result).source).trans h.id
  released := (q.released_tell cause events).trans h.released
  state := by
    rw [state_telling]
    exact h.state

theorem lasts_fail (p : Pane) (cause : Cause) (reason : String) (result : α) :
    Lasts p (p.fail cause reason result).pane := by
  by_cases hp : p.state.isTerminal = true
  · have hf : p.lifecycle.fail reason = (p.lifecycle, none) := if_pos hp
    simp only [fail, hf]
    exact ⟨rfl, rfl, .inl rfl⟩
  · have hf : p.lifecycle.fail reason =
        (⟨.terminated, some reason⟩, some ⟨p.lifecycle.state, .terminated⟩) := if_neg hp
    simp only [fail, hf]
    exact lasts_telling (p := p) (q := { p with lifecycle := ⟨.terminated, some reason⟩ })
      ⟨rfl, rfl, .inr rfl⟩ _ _ _

theorem lasts_terminate (p : Pane) : Lasts p p.terminate.1 ∧ p.terminate.1.state = .terminated := by
  simp only [terminate, Lifecycle.terminate]
  by_cases hp : p.lifecycle.state.isTerminal = true
  · have hstate : p.lifecycle.state = .terminated := by simpa [LifecycleState.isTerminal] using hp
    simp only [if_pos hp]
    exact ⟨⟨rfl, rfl, .inl rfl⟩, hstate⟩
  · simp only [if_neg hp]
    exact ⟨⟨rfl, rfl, .inr rfl⟩, rfl⟩

theorem lasts_applyBackend (p : Pane) (command : CommandEnvelope) (now : Nat) :
    Lasts p (p.applyBackend command now).pane := by
  simp only [applyBackend]
  rcases p.backend.apply command.command with ⟨backend, e | events⟩
  · cases e with
    | invalid reason => exact ⟨rfl, rfl, .inl rfl⟩
    | fatal reason =>
      have h := lasts_fail { p with backend } (Cause.of command now) reason
        (Except.error (α := CommandAck) (CommandError.backend p.id reason))
      exact ⟨h.id, h.released, h.state⟩
  · refine lasts_telling (q := (endIfStopped { p with backend }).1) ?_ _ _ ()
    simp only [endIfStopped]
    split
    · exact ⟨rfl, rfl, .inl rfl⟩
    · have h := (lasts_terminate { p with backend }).1
      exact ⟨h.id, h.released, h.state⟩

theorem lasts_updateMetadata {cause : Cause} {patch : MetadataPatch} {o : Outcome Unit}
    (h : p.updateMetadata cause patch = .ok o) :
    Lasts p o.pane ∧ o.pane.metadata = patch.apply p.metadata ∧ o.pane.state = p.state := by
  simp only [updateMetadata] at h
  split at h
  · cases h
  · split at h
    · cases h
    · split at h
      · cases h
        exact ⟨lasts_telling (p := p) (q := { p with metadata := patch.apply p.metadata })
          ⟨rfl, rfl, .inl rfl⟩ _ _ _, metadata_telling _ _ _ _,
          state_telling _ _ _ _⟩
      · cases h
        exact ⟨⟨rfl, rfl, .inl rfl⟩, rfl, rfl⟩

theorem lasts_handle (p : Pane) (command : CommandEnvelope) (now : Nat) :
    Lasts p (p.handle command now).pane := by
  simp only [handle]
  cases p.refusal? command with
  | some e => exact ⟨rfl, rfl, .inl rfl⟩
  | none =>
    cases command.command with
    | updateMetadata patch =>
      simp only
      cases hu : p.updateMetadata (Cause.of command now) patch with
      | ok o => exact (lasts_updateMetadata hu).1
      | error e => exact ⟨rfl, rfl, .inl rfl⟩
    | _ => exact p.lasts_applyBackend command now

theorem metadata_handle {command : CommandEnvelope} {patch : MetadataPatch}
    (hc : command.command = .updateMetadata patch) {now : Nat} {ack : CommandAck}
    (h : (p.handle command now).result = .ok ack) :
    (p.handle command now).pane.metadata = patch.apply p.metadata ∧
      (p.handle command now).pane.state = p.state := by
  simp only [handle, hc] at h ⊢
  cases hr : p.refusal? command with
  | some e =>
    simp only [hr] at h
    cases h
  | none =>
    simp only [hr] at h ⊢
    cases hu : p.updateMetadata (Cause.of command now) patch with
    | ok o => exact (lasts_updateMetadata hu).2
    | error e =>
      simp only [hu] at h
      cases h

theorem state_shutdown (hr : p.released = false) (now : Nat) :
    (p.shutdown now).pane.state = .terminated := by
  simp only [shutdown, hr, Bool.false_eq_true, if_false]
  exact (state_telling _ _ _ _).trans (lasts_terminate _).2

section

variable {id : PaneId} (h : Serves .ready id p) (command : CommandEnvelope) (now : Nat)

include h

theorem serves_handle (he : (p.handle command now).ends = false) :
    Serves .ready id (p.handle command now).pane := by
  obtain ⟨hid, hreleased, hstate⟩ := p.lasts_handle command now
  refine ⟨hid.trans h.1, hreleased.trans h.2.1, ?_⟩
  rcases hstate with hs | hs
  · exact hs.trans h.2.2
  · have hopen := Outcome.isTerminal_of_not_ends he
    rw [hs] at hopen
    cases hopen

theorem state_handle_shutdown (later : Nat) :
    ((p.handle command now).pane.shutdown later).pane.state = .terminated :=
  state_shutdown ((p.lasts_handle command now).released.trans h.2.1) later

end

def move? (p : Pane) (command : CommandEnvelope) (now : Nat) : Option (Option WorktreeId) :=
  match command.command, (p.handle command now).result with
  | .updateMetadata patch, .ok _ =>
    let after := patch.apply p.metadata
    if after.worktree = p.metadata.worktree && Metadata.sameCwd after.cwd p.metadata.cwd then none
    else some after.worktree
  | _, _ => none

theorem move?_of_ends {command : CommandEnvelope} {now : Nat} (hp : p.state = .ready)
    (he : (p.handle command now).ends = true) : p.move? command now = none := by
  simp only [move?]
  split
  next hc hr =>
    obtain ⟨-, hstate⟩ := metadata_handle hc hr
    simp only [Outcome.ends, hr, hstate, hp] at he
    cases he
  next => rfl

theorem serves_start (id : PaneId) (kind : PaneKind) (metadata : Metadata)
    (capabilities : Capabilities) (epoch capacity now : Nat) :
    let o := (create id (.create id kind) metadata capabilities epoch capacity).start now
    o.result = .ok () ∧ Serves .ready id o.pane := by
  obtain ⟨backend, events, hb⟩ := Backend.start_create id kind metadata
  simp only [start, create, hb]
  exact ⟨rfl, Source.pane.inj (sound_telling _ _ _ ()).source, released_tell _ _ _,
    state_telling _ _ _ ()⟩

end Pane

end Switchboard
