import Switchboard.Workspace

/-!
# What can be asked of a workspace

An operation answers before anything that takes time has happened; what it sets going shows
when the workspace comes to rest.
-/
namespace Switchboard

structure PaneSpec where
  pane : PaneId
  kind : PaneKind
  metadata : Metadata
  capabilities : Option Capabilities
  deriving DecidableEq

namespace Workspace

def newPane (ws : Workspace) (spec : PaneSpec) : Pane :=
  .create spec.pane (.create spec.pane spec.kind) spec.metadata
    (spec.capabilities.getD (.ofKind spec.kind)) (ws.registry.nextEpoch spec.pane)
    ws.config.replayCapacity

def discard (ws : Workspace) (pane : PaneId) : Workspace := (ws.close pane).1.unbind pane

def snapshot? (ws : Workspace) (pane : PaneId) : Option PaneSnapshot :=
  (ws.registry.lookup? pane).map (·.pane.snapshot)

def bindNew (ws : Workspace) (spec : PaneSpec) : Workspace :=
  match spec.metadata.worktree with
  | some w => ws.bind spec.pane w spec.metadata.cwd
  | none => ws

def startPane (ws : Workspace) (pane : PaneId) : Workspace × Except WorkspaceError PaneSnapshot :=
  match ws.registry.start pane ws.now with
  | none => (ws, .error (.registry (.notRegistered pane)))
  | some started =>
    let ws := { ws with registry := started.registry }.publish started.told
    match started.result, ws.snapshot? pane with
    | .ok (), some snapshot => (ws, .ok snapshot)
    | .ok (), none => (ws, .error (.registry (.notRegistered pane)))
    | .error e, _ => (ws.discard pane, .error (.command e))

def openPane (ws : Workspace) (spec : PaneSpec) : Workspace × Except WorkspaceError PaneSnapshot :=
  match ws.registry.register (.create (ws.newPane spec)) with
  | .error e => (ws, .error (.registry e))
  | .ok registry => ({ ws with registry }.bindNew spec).startPane spec.pane

def closePane (ws : Workspace) (pane : PaneId) :
    Workspace × Except RegistryError (List ResourceId) :=
  match ws.close pane with
  | (ws, .error e) => (ws, .error e)
  | (ws, .ok ids) => ((ws.unbind pane).syncFocused, .ok ids)

def rebindIfMoved (ws : Workspace) (pane : PaneId) (before after : Metadata) : Workspace :=
  if after.worktree = before.worktree && Metadata.sameCwd after.cwd before.cwd then ws
  else
    match after.worktree with
    | some w => ws.bind pane w after.cwd
    | none => ws.unbind pane

def afterCommand (ws : Workspace) (command : CommandEnvelope) (before : LivePane) : Workspace :=
  match command.command, ws.registry.lookup? command.target with
  | .updateMetadata _, some l =>
    ws.rebindIfMoved command.target before.pane.metadata l.pane.metadata
  | _, _ => ws

/-- A pane that ended by the command leaves before the answer is given. -/
def dispatch (ws : Workspace) (command : CommandEnvelope) :
    Workspace × Except CommandError CommandAck :=
  match ws.registry.lookup? command.target with
  | none => (ws, .error (.unknownPane command.target))
  | some before =>
    let handled := ws.registry.handle command ws.now
    let ws := { ws with registry := handled.registry }.publish handled.told
    if ws.registry.leaves command.target handled.result then
      (((ws.close command.target).1.unbind command.target).syncFocused, handled.result)
    else
      match handled.result with
      | .ok ack => (ws.afterCommand command before, .ok ack)
      | .error e => (ws, .error e)

def bindPane (ws : Workspace) (pane : PaneId) (w : WorktreeId) (cwd : Option Path) :
    Workspace × Except RegistryError Unit :=
  if ws.registry.contains pane then ((ws.bind pane w cwd).syncFocused, .ok ())
  else (ws, .error (.notRegistered pane))

def setFocus (ws : Workspace) (focus : Focus) : Workspace :=
  ({ ws with focus }.tellNotifier (.setFocus focus)).syncFocused

def addWorktree (ws : Workspace) (w : WorktreeId) (path : Path) :
    Workspace × Except RootError Path :=
  let tier := ws.tierFor w
  let ws := ws.catchUp
  match ws.tree.canonicalizeRoot path with
  | .error e => (ws, .error e)
  | .ok root =>
    match ws.observer.register w root tier with
    | .error e => (ws, .error e)
    | .ok observer => (({ ws with observer }.project (·.setRoot w root)).syncFocused, .ok root)

/-- Panes that are bound to the worktree stay bound. -/
def removeWorktree (ws : Workspace) (w : WorktreeId) : Workspace × Except RootError Unit :=
  let ws := ws.catchUp
  match ws.observer.unregister w with
  | .error e => (ws, .error e)
  | .ok observer => ({ ws with observer }.project (·.forgetRoot w), .ok ())

def worktrees (ws : Workspace) : List RootInfo := ws.observer.source.table.infos

def reconcile (ws : Workspace) (reason : ReconcileReason) : Workspace :=
  { ws with observer := ws.observer.reconcile reason }

def inject (ws : Workspace) (paths : List Path) : Workspace :=
  let ws := ws.catchUp
  { ws with observer := ws.observer.ingest (paths.map ws.tree.canonicalizeChanged) ws.now }

def setReport (ws : Workspace) (root : Path) (found : Option StatusReport) : Workspace :=
  { ws with look := fun p => if p.same root then found else ws.look p }

def panes (ws : Workspace) : List PaneId := ws.registry.ids

def view? (ws : Workspace) (pane : PaneId) : Option PaneView := ws.feed.projection.view? pane

def changesSince (ws : Workspace) (since : Nat) : Option (List ProjectionChange) :=
  ws.feed.projection.changesSince since

def filesystemSince (ws : Workspace) (epoch from_ : Nat) : ReplayResult :=
  ws.observer.replay.replayFrom epoch from_

def subscribe (ws : Workspace) (pane : PaneId) (from_ : Option Nat) :
    Workspace × Except RegistryError Nat :=
  match ws.registry.registered? pane with
  | none => (ws, .error (.notRegistered pane))
  | some (run, l) =>
    ({ ws with
        registry := ws.registry.update run (l.subscribe from_)
        streams := ws.streams ++ [⟨run, l.followers.length⟩] },
      .ok ws.streams.length)

def read (ws : Workspace) (stream : Nat) (count : Option Nat) : Workspace × Follower.Read :=
  match ws.streams[stream]? with
  | none => (ws, ⟨[], false⟩)
  | some s =>
    match ws.registry.run? s.run with
    | none => (ws, ⟨[], false⟩)
    | some l =>
      let (l, r) := l.readQueued s.index count
      ({ ws with registry := ws.registry.update s.run l }, r)

def closeAll (ws : Workspace) : List PaneId → Workspace
  | [] => ws
  | pane :: rest => (ws.close pane).1.closeAll rest

/-- Closes all panes and stops the observer; what is on the bus is still delivered. -/
def shutdown (ws : Workspace) : Workspace :=
  let ws := (ws.closeAll ws.panes).catchUp
  let (notifier, batch) := ws.notifier.finish ws.now
  { ws with
    notifier
    observer := { ws.observer with probes := [] }
    running := false }.deliver batch

end Workspace

end Switchboard
