import Switchboard.Backend
import Switchboard.Replay

/-!
# Panes

A pane ties a backend to a life, a description and a numbered history. Everything that happens
to it is told in envelopes, numbered in a row and kept for replay; what an operation tells is
part of its outcome. A command that is turned down changes nothing and tells nothing.
-/
namespace Switchboard

structure Pane where
  id : PaneId
  kind : PaneKind
  capabilities : Capabilities
  lifecycle : Lifecycle
  metadata : Metadata
  sequencer : Sequencer
  replay : ReplayBuffer
  backend : Backend
  released : Bool

structure Cause where
  now : Nat
  command : Option CommandId
  correlation : Option CorrelationId
  deriving DecidableEq

def Cause.at (now : Nat) : Cause := ⟨now, none, none⟩

def Cause.of (command : CommandEnvelope) (now : Nat) : Cause :=
  ⟨now, some command.id, command.correlation⟩

structure Outcome (α : Type) where
  pane : Pane
  told : List Envelope
  result : α

structure PaneSnapshot where
  pane : PaneId
  kind : PaneKind
  lifecycle : LifecycleState
  failure : Option String
  metadata : Metadata
  capabilities : Capabilities
  epoch : Nat
  lastSeq : Nat
  deriving DecidableEq

namespace Pane

def create (id : PaneId) (backend : Backend) (metadata : Metadata) (capabilities : Capabilities)
    (epoch replayCapacity : Nat) : Pane where
  id
  kind := backend.kind
  capabilities
  lifecycle := .created
  metadata
  sequencer := .start epoch
  replay := .create (.pane id) replayCapacity
  backend
  released := false

def state (p : Pane) : LifecycleState := p.lifecycle.state

def epoch (p : Pane) : Nat := p.sequencer.epoch

def lastSeq (p : Pane) : Nat := p.sequencer.lastSeq

def snapshot (p : Pane) : PaneSnapshot where
  pane := p.id
  kind := p.kind
  lifecycle := p.lifecycle.state
  failure := p.lifecycle.failure
  metadata := p.metadata
  capabilities := p.capabilities
  epoch := p.epoch
  lastSeq := p.lastSeq

def envelope (p : Pane) (cause : Cause) (event : Event) : Envelope where
  source := .pane p.id
  worktree := p.metadata.worktree
  stamp := p.sequencer.advance.stamp
  command := cause.command
  correlation := cause.correlation
  timestamp := cause.now
  event

def emit (p : Pane) (cause : Cause) (event : Event) : Pane :=
  { p with
    sequencer := p.sequencer.advance
    replay := p.replay.push (p.envelope cause event) }

def tell (p : Pane) (cause : Cause) : List Event → Pane × List Envelope
  | [] => (p, [])
  | event :: rest =>
    let (q, told) := tell (p.emit cause event) cause rest
    (q, p.envelope cause event :: told)

def telling (p : Pane) (cause : Cause) (events : List Event) (result : α) : Outcome α :=
  let (pane, told) := p.tell cause events
  ⟨pane, told, result⟩

def silent (p : Pane) (result : α) : Outcome α := ⟨p, [], result⟩

def transitionEvent (t : Transition) : Event := .lifecycle (.stateChanged t.source t.target)

def fail (p : Pane) (cause : Cause) (reason : String) (result : α) : Outcome α :=
  match p.lifecycle.fail reason with
  | (_, none) => p.silent result
  | (lifecycle, some t) =>
    { p with lifecycle }.telling cause [.lifecycle (.failed reason), transitionEvent t] result

def start (p : Pane) (now : Nat) : Outcome (Except CommandError Unit) :=
  let cause := Cause.at now
  match p.backend.start p.metadata with
  | (backend, .error e) =>
    { p with backend }.fail cause e.message (.error (.backend p.id e.message))
  | (backend, .ok events) =>
    let p := { p with backend }
    match p.lifecycle.markReady with
    | .error e =>
      p.silent (.error (.validation ("cannot start " ++ p.id.name ++ ": " ++ e.message)))
    | .ok (lifecycle, t) =>
      { p with lifecycle }.telling cause (transitionEvent t :: events) (.ok ())

def acknowledge (command : CommandEnvelope) (o : Outcome Unit) :
    Outcome (Except CommandError CommandAck) :=
  { o with result := .ok ⟨command.id, o.told.map Envelope.seq⟩ }

def updateMetadata (p : Pane) (cause : Cause) (patch : MetadataPatch) :
    Except CommandError (Outcome Unit) :=
  if patch.isEmpty then .error (.validation "empty metadata patch")
  else
    match patch.conflict? with
    | some field =>
      .error (.validation ("metadata field " ++ field.label ++ " both set and cleared"))
    | none =>
      let q := { p with metadata := patch.apply p.metadata }
      if patch.changes p.metadata then
        .ok (q.telling cause [.lifecycle (.metadataChanged q.metadata)] ())
      else .ok (q.silent ())

def terminate (p : Pane) : Pane × List Event :=
  match p.lifecycle.terminate with
  | (lifecycle, some t) => ({ p with lifecycle }, [transitionEvent t])
  | (_, none) => (p, [])

def endIfStopped (p : Pane) : Pane × List Event :=
  if p.backend.isAlive then (p, []) else p.terminate

def applyBackend (p : Pane) (command : CommandEnvelope) (now : Nat) :
    Outcome (Except CommandError CommandAck) :=
  let cause := Cause.of command now
  match p.backend.apply command.command with
  | (backend, .ok events) =>
    let (p, ending) := { p with backend }.endIfStopped
    acknowledge command (p.telling cause (events ++ ending) ())
  | (backend, .error (.invalid reason)) =>
    { p with backend }.silent (.error (.validation reason))
  | (backend, .error (.fatal reason)) =>
    { p with backend }.fail cause reason (.error (.backend p.id reason))

/-- Why a pane turns a command down before looking into it: the target, then the capability,
then the state. -/
def refusal? (p : Pane) (command : CommandEnvelope) : Option CommandError :=
  let kind := command.command.kind
  if command.target ≠ p.id then
    some (.validation
      ("command " ++ command.id.name ++ " targets " ++ command.target.name ++ ", not "
        ++ p.id.name))
  else if !p.capabilities.contains kind then some (.capabilityDenied p.id kind)
  else if !p.state.acceptsCommands then some (.lifecycleClosed p.id p.state)
  else none

def handle (p : Pane) (command : CommandEnvelope) (now : Nat) :
    Outcome (Except CommandError CommandAck) :=
  match p.refusal? command with
  | some e => p.silent (.error e)
  | none =>
    match command.command with
    | .updateMetadata patch =>
      match p.updateMetadata (Cause.of command now) patch with
      | .ok outcome => acknowledge command outcome
      | .error e => p.silent (.error e)
    | _ => p.applyBackend command now

def beginDrain (p : Pane) : Pane × List Event :=
  match p.state with
  | .ready =>
    match p.lifecycle.beginDrain with
    | .ok (lifecycle, t) => ({ p with lifecycle }, [transitionEvent t])
    | .error _ => (p, [])
  | _ => (p, [])

/-- Drains, lets go of the backend and ends the pane. Only the first shutdown does anything. -/
def shutdown (p : Pane) (now : Nat) : Outcome (List ResourceId) :=
  if p.released then p.silent []
  else
    let (p, draining) := { p with released := true }.beginDrain
    let (backend, ids) := p.backend.shutdown
    let (p, ending) := { p with backend }.terminate
    p.telling (Cause.at now) (draining ++ ending) ids

end Pane

end Switchboard
