import Switchboard.Feed
import Switchboard.Notifier
import Switchboard.Observer
import Switchboard.Registry
import Switchboard.Tree

/-!
# The workspace

Panes and the file system tell what happens to them on one bus; the notifier and the projection
feed follow it. What is told in one go may overtake those who follow: they catch up only when
whoever tells has to wait. All that was told and all that was delivered is kept.
-/
namespace Switchboard

structure StreamId where
  run : RunId
  index : Nat
  deriving DecidableEq

structure Workspace where
  config : Config
  now : Nat
  tree : Tree
  /-- What a look at the status of a root finds, if it does not fail. -/
  look : Path → Option StatusReport
  bus : Ring Envelope
  published : List Envelope
  registry : Registry
  bindings : Table PaneId WorktreeId
  focus : Focus
  observer : Observer
  notifier : Notifier
  feed : Feed
  delivered : List Batch
  streams : List StreamId
  /-- Nothing happens any more once it was shut down. -/
  running : Bool

inductive WorkspaceError where
  | registry (e : RegistryError)
  | command (e : CommandError)
  | root (e : RootError)
  deriving DecidableEq

def WorkspaceError.message : WorkspaceError → String
  | .registry e => e.message
  | .command e => e.message
  | .root e => e.message

namespace Workspace

def create (config : Config) (tree : Tree) : Workspace where
  config
  now := 0
  tree
  look := fun _ => some .clean
  bus := .create config.busCapacity
  published := []
  registry := .create config.shutdownTimeout
  bindings := []
  focus := .none
  observer := .create config
  notifier := .create config.frame
  feed := .create config.changeCapacity
  delivered := []
  streams := []
  running := true

def create? (config : Config) (tree : Tree) : Except ConfigError Workspace := do
  .ok (create (← config.validate) tree)

def publish (ws : Workspace) (es : List Envelope) : Workspace :=
  { ws with bus := es.foldl Ring.send ws.bus, published := ws.published ++ es }

def histories (ws : Workspace) : List ReplayBuffer := ws.observer.replay :: ws.registry.histories

def deliver (ws : Workspace) : Option Batch → Workspace
  | none => ws
  | some batch => { ws with delivered := ws.delivered ++ [batch] }

def honourResync (ws : Workspace) : Workspace :=
  if ws.feed.wantsResync then
    { ws with
      feed := { ws.feed with wantsResync := false }
      observer := ws.observer.reconcile .resync }
  else ws

/-- All who follow something move as far as they can; no time passes, and no probe is answered. -/
def catchUp (ws : Workspace) : Workspace :=
  let histories := ws.histories
  honourResync { ws with
    notifier := ws.notifier.catchUp ws.bus histories
    feed := ws.feed.drain ws.bus histories
    registry := ws.registry.settle }

def answerProbe (ws : Workspace) : Workspace :=
  let (observer, told) := ws.observer.answer ws.look ws.now
  { ws with observer }.publish told

def settleFor : Nat → Workspace → Workspace
  | 0, ws => ws.catchUp
  | fuel + 1, ws =>
    let ws := ws.catchUp
    if ws.observer.probes.isEmpty then ws else settleFor fuel ws.answerProbe

/-- How many probes are answered at one moment. Rings too small for the full status of all roots
would ask for it over and over. -/
def probeLimit : Nat := 100000

def settle (ws : Workspace) : Workspace := ws.settleFor probeLimit

def endFrame (ws : Workspace) : Workspace :=
  if ws.now % ws.config.frame = 0 then
    let (notifier, batch) := ws.notifier.tick ws.now
    { ws with notifier }.deliver batch
  else ws

def flushDue (ws : Workspace) : Workspace :=
  if ws.observer.isDue ws.now then
    let (observer, told) := ws.observer.flushDue ws.now
    { ws with observer }.publish told
  else ws

def sweep (ws : Workspace) : Workspace :=
  if ws.now % (1000 * ws.config.files.driftSweep) = 0 then
    { ws with observer := ws.observer.reconcile .driftSweep }
  else ws

def beat (ws : Workspace) : Workspace :=
  if ws.running then ws.endFrame.flushDue.sweep.settle else ws

def pass : Nat → Workspace → Workspace
  | 0, ws => ws
  | ms + 1, ws => pass ms { ws with now := ws.now + 1 }.beat

def rest (ws : Workspace) (ms : Nat) : Workspace := ws.settle.pass ms

def tierFor (ws : Workspace) (w : WorktreeId) : ActivityTier :=
  if ws.bindings.any (·.2 = w) then .activeInApp else .sidebarOnly

def refreshTier (ws : Workspace) (w : WorktreeId) : Workspace :=
  let tier := ws.tierFor w
  let ws := ws.catchUp
  match ws.observer.setTier w tier with
  | .ok observer => { ws with observer }
  | .error _ => ws

def project (ws : Workspace) (f : Projection → Projection) : Workspace :=
  { ws with feed := { ws.feed with projection := f ws.feed.projection } }

def tellNotifier (ws : Workspace) (c : Control) : Workspace :=
  { ws with notifier := ws.notifier.tell c }

def resolveCwd (ws : Workspace) : Option Path → Workspace × Option Path
  | none => (ws, none)
  | some cwd => (ws.catchUp, some (ws.tree.canonicalizeChanged cwd))

def bind (ws : Workspace) (pane : PaneId) (w : WorktreeId) (cwd : Option Path) : Workspace :=
  let (ws, cwd) := ws.resolveCwd cwd
  let ws := (ws.project (·.bind pane w cwd)).tellNotifier (.bind pane w)
  let previous := Table.get? ws.bindings pane
  let ws := { ws with bindings := Table.set ws.bindings pane w }
  let ws := match previous with
    | some old => if old = w then ws else ws.refreshTier old
    | none => ws
  ws.refreshTier w

def unbind (ws : Workspace) (pane : PaneId) : Workspace :=
  let ws := (ws.project fun p => (p.unbind pane).1).tellNotifier (.forget pane)
  let previous := Table.get? ws.bindings pane
  let ws := { ws with bindings := Table.erase ws.bindings pane }
  match previous with
  | some w => ws.refreshTier w
  | none => ws

def syncFocused (ws : Workspace) : Workspace :=
  { ws with observer := ws.observer.setFocused (ws.focus.focused.bind (Table.get? ws.bindings)) }

def awaitFollowers (ws : Workspace) (run : RunId) : Workspace :=
  let ws := ws.catchUp
  if (ws.registry.run? run).any LivePane.isFollowed then ws.rest ws.config.shutdownTimeout else ws

def stopFollowers (ws : Workspace) (run : RunId) (timeout : Nat) : Workspace :=
  match ws.registry.run? run with
  | none => ws
  | some l => { ws with registry := ws.registry.update run (l.finish timeout) }

def retire (ws : Workspace) (run : RunId) : Workspace :=
  if !(ws.registry.run? run).any LivePane.isFollowed then ws
  else if ws.config.shutdownTimeout = 0 then (ws.stopFollowers run 0).catchUp
  else (ws.awaitFollowers run).stopFollowers run ws.config.shutdownTimeout

def close (ws : Workspace) (pane : PaneId) :
    Workspace × Except RegistryError (List ResourceId) :=
  match ws.registry.unregister pane with
  | .error e => (ws, .error e)
  | .ok (registry, run) =>
    match registry.run? run with
    | none => (ws, .error (.notRegistered pane))
    | some l =>
      let o := l.pane.shutdown ws.now
      let registry := registry.update run (l.afterwards o)
      (({ ws with registry }.publish o.told).retire run, .ok o.result)

end Workspace

end Switchboard
