import Switchboard.Config
import Switchboard.Replay

/-!
# The observer of the file system

It keeps the filesystem source together with the history of what the source told, the watches
on the roots and the probes that wait for their turn. Whatever the source tells is in the
history before anyone else can see it. A watch covers everything below its root, so only roots
that lie in no other root are watched.
-/
namespace Switchboard

structure Watch where
  watched : PathSet
  /-- What the watcher itself watches, oldest first. -/
  active : List Path
  deriving DecidableEq

namespace Watch

def none : Watch := ⟨[], []⟩

def wanted (roots : RootTable) : PathSet :=
  PathSet.ofList ((roots.list.filter fun r => (roots.parentOf r).isNone).map (·.path))

def giveUp (active : List Path) (p : Path) : List Path := active.filter (!·.same p)

def sync (w : Watch) (roots : RootTable) : Watch :=
  let wanted := wanted roots
  let stale := w.watched.filter (!wanted.contains ·)
  let missing := wanted.filter (!w.watched.contains ·)
  let kept := w.watched.filter (!PathSet.contains stale ·)
  { watched := PathSet.insertAll kept missing
    active := stale.foldl giveUp w.active ++ missing }

end Watch

structure Observer where
  source : FsSource
  replay : ReplayBuffer
  watch : Watch
  probes : List ProbeRequest
  deriving DecidableEq

namespace Observer

def create (config : Config) : Observer where
  source := .create config.files.source 0
  replay := .create .filesystem config.replayCapacity
  watch := .none
  probes := []

/-- Takes over the source after a step, with all that the step told and asked for. -/
def advance (o : Observer) (step : FsSource × StepOutput) : Observer :=
  { o with
    source := step.1
    replay := step.2.envelopes.foldl ReplayBuffer.push o.replay
    probes := o.probes ++ step.2.probes }

def register (o : Observer) (w : WorktreeId) (path : Path) (tier : ActivityTier) :
    Except RootError Observer := do
  let (source, probe) ← o.source.register w path tier
  .ok { o with source, watch := o.watch.sync source.table, probes := o.probes ++ [probe] }

def unregister (o : Observer) (w : WorktreeId) : Except RootError Observer := do
  let (source, _) ← o.source.unregister w
  .ok { o with source, watch := o.watch.sync source.table }

def setTier (o : Observer) (w : WorktreeId) (tier : ActivityTier) : Except RootError Observer := do
  .ok { o with source := ← o.source.setTier w tier }

def setFocused (o : Observer) (w : Option WorktreeId) : Observer :=
  { o with source := o.source.setFocused w }

def ingest (o : Observer) (paths : List Path) (now : Nat) : Observer :=
  { o with source := (o.source.ingest paths now).1 }

def reconcile (o : Observer) (reason : ReconcileReason) : Observer :=
  let (source, probes) := o.source.reconcileAll reason
  { o with source, probes := o.probes ++ probes }

def isDue (o : Observer) (now : Nat) : Bool :=
  match o.source.nextDeadline with
  | some deadline => deadline ≤ now
  | none => false

def flushDue (o : Observer) (now : Nat) : Observer × List Envelope :=
  let step := o.source.flushDue now
  (o.advance step, step.2.envelopes)

def answer (o : Observer) (look : Path → Option StatusReport) (now : Nat) :
    Observer × List Envelope :=
  match o.probes with
  | [] => (o, [])
  | probe :: rest =>
    let step := o.source.applyStatus (probe.outcome (look probe.path)) now
    ({ o with probes := rest }.advance step, step.2.envelopes)

end Observer

end Switchboard
