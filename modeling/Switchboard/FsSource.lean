import Switchboard.Batcher
import Switchboard.Envelope
import Switchboard.Roots
import Switchboard.Status

/-!
# The filesystem source

It takes notices of changed paths and reports on the status of roots, and tells what changed.
A root has at most one probe under way; what is asked for meanwhile is asked for again when
its answer is there. Answers that were asked for under an earlier registration are dropped.
-/
namespace Switchboard

structure FsConfig where
  batch : BatchPolicy
  foldCase : Bool
  ignoreDirs : List String
  deriving DecidableEq

structure ProbeRequest where
  worktree : WorktreeId
  path : Path
  generation : Nat
  reason : ReconcileReason
  deriving DecidableEq

structure ProbeOutcome where
  worktree : WorktreeId
  generation : Nat
  reason : ReconcileReason
  report : Option StatusReport
  deriving DecidableEq

def ProbeRequest.outcome (r : ProbeRequest) (report : Option StatusReport) : ProbeOutcome :=
  ⟨r.worktree, r.generation, r.reason, report⟩

structure StepOutput where
  envelopes : List Envelope
  probes : List ProbeRequest
  deriving DecidableEq

def StepOutput.nothing : StepOutput := ⟨[], []⟩

structure IngestStats where
  routed : Nat
  statusOnly : Nat
  unowned : Nat
  deriving DecidableEq

structure RootState where
  generation : Nat
  lastReport : Option StatusReport
  probing : Bool
  queued : Option ReconcileReason
  deriving DecidableEq

structure FsSource where
  table : RootTable
  batcher : Batcher
  roots : Table WorktreeId RootState
  sequencer : Sequencer
  nextGeneration : Nat
  focused : Option WorktreeId
  ignoreDirs : List String
  deriving DecidableEq

namespace FsSource

def create (config : FsConfig) (epoch : Nat) : FsSource where
  table := .create config.foldCase
  batcher := .create config.batch
  roots := []
  sequencer := .start epoch
  nextGeneration := 1
  focused := none
  ignoreDirs := config.ignoreDirs

def epoch (s : FsSource) : Nat := s.sequencer.epoch

def state? (s : FsSource) (w : WorktreeId) : Option RootState := Table.get? s.roots w

def lastReport? (s : FsSource) (w : WorktreeId) : Option StatusReport :=
  (s.state? w).bind (·.lastReport)

def probing (s : FsSource) (w : WorktreeId) : Bool := ((s.state? w).map (·.probing)).getD false

def withState (s : FsSource) (w : WorktreeId) (state : RootState) : FsSource :=
  { s with roots := Table.set s.roots w state }

/-- Asks for a report, or remembers the reason while a probe is under way. -/
def beginProbe (s : FsSource) (w : WorktreeId) (reason : ReconcileReason) :
    FsSource × Option ProbeRequest :=
  match s.table.get? w, s.state? w with
  | some root, some state =>
    if state.probing then
      (s.withState w { state with queued := some (ReconcileReason.queue state.queued reason) },
        none)
    else
      (s.withState w { state with probing := true },
        some ⟨w, root.path, state.generation, reason⟩)
  | _, _ => (s, none)

def beginProbes (s : FsSource) (reason : ReconcileReason) :
    List WorktreeId → FsSource × List ProbeRequest
  | [] => (s, [])
  | w :: rest =>
    let (s, probe) := s.beginProbe w reason
    let (s, probes) := beginProbes s reason rest
    (s, probe.toList ++ probes)

def register (s : FsSource) (w : WorktreeId) (path : Path) (tier : ActivityTier) :
    Except RootError (FsSource × ProbeRequest) := do
  let table ← s.table.insert w path tier
  let s := { s with table, nextGeneration := s.nextGeneration + 1 }.withState w
    ⟨s.nextGeneration, none, false, none⟩
  match s.beginProbe w .wake with
  | (s, some probe) => .ok (s, probe)
  | (_, none) => .error (.notRegistered w)

def unregister (s : FsSource) (w : WorktreeId) : Except RootError (FsSource × RootInfo) := do
  let (table, root) ← s.table.remove w
  .ok ({ s with
      table
      batcher := s.batcher.drop w
      roots := Table.erase s.roots w
      focused := if s.focused = some w then none else s.focused }, s.table.info root)

def setTier (s : FsSource) (w : WorktreeId) (tier : ActivityTier) : Except RootError FsSource := do
  let table ← s.table.setTier w tier
  .ok { s with table }

def setFocused (s : FsSource) (focused : Option WorktreeId) : FsSource := { s with focused }

def isIgnored (s : FsSource) (rel : Path) : Bool :=
  rel.components.any fun c => s.ignoreDirs.contains c.text.lossy

inductive Route where
  | unowned
  | statusOnly (worktree : WorktreeId)
  | changed (worktree : WorktreeId) (rel : Path)
  deriving DecidableEq

def route (s : FsSource) (raw : Path) : Route :=
  match s.table.ownerOf? raw.normalize with
  | none => .unowned
  | some (root, rel) =>
    if rel.text.isEmpty || s.isIgnored rel then .statusOnly root.worktree
    else .changed root.worktree rel

def note (s : FsSource) (now : Nat) : Route → FsSource
  | .unowned => s
  | .statusOnly w => { s with batcher := s.batcher.noteStatus w now }
  | .changed w rel => { s with batcher := s.batcher.notePath w rel now }

def IngestStats.count (stats : IngestStats) : Route → IngestStats
  | .unowned => { stats with unowned := stats.unowned + 1 }
  | .statusOnly _ => { stats with statusOnly := stats.statusOnly + 1 }
  | .changed _ _ => { stats with routed := stats.routed + 1 }

def ingest (s : FsSource) (paths : List Path) (now : Nat) : FsSource × IngestStats :=
  let routes := paths.map s.route
  (routes.foldl (note · now) s, routes.foldl IngestStats.count ⟨0, 0, 0⟩)

def nextDeadline (s : FsSource) : Option Nat := s.batcher.nextDeadline

/-- The focused root first, then roots with a live pane, then the others, and by id. -/
def urgency (s : FsSource) (w : WorktreeId) : Nat × Nat × String :=
  (if s.focused = some w then 0 else 1,
    ((s.table.get? w).map (·.tier.rank)).getD ActivityTier.sidebarOnly.rank, w.name)

def sooner (s : FsSource) (a b : WorktreeId) : Bool :=
  let (f, t, n) := s.urgency a
  let (f', t', n') := s.urgency b
  f < f' || (f == f' && (t < t' || (t == t' && (compare n n').isLE)))

def scheduled (s : FsSource) (ws : List WorktreeId) : List WorktreeId := ws.mergeSort s.sooner

def dueRoots (s : FsSource) (now : Nat) : List WorktreeId := s.scheduled (s.batcher.due now)

def emit (s : FsSource) (w : WorktreeId) (now : Nat) (event : FilesystemEvent) :
    FsSource × Envelope :=
  let s := { s with sequencer := s.sequencer.advance }
  (s, { source := .filesystem, worktree := some w, stamp := s.sequencer.stamp, command := none,
        correlation := none, timestamp := now, event := .filesystem event })

def emitAll (s : FsSource) (w : WorktreeId) (now : Nat) :
    List FilesystemEvent → FsSource × List Envelope
  | [] => (s, [])
  | event :: rest =>
    let (s, e) := s.emit w now event
    let (s, es) := emitAll s w now rest
    (s, e :: es)

def flushRoot (s : FsSource) (w : WorktreeId) (now : Nat) : FsSource × StepOutput :=
  match s.batcher.take w now with
  | (_, none) => (s, .nothing)
  | (batcher, some batch) =>
    let s := { s with batcher }
    match s.table.get? w with
    | none => (s, .nothing)
    | some _ =>
      let (s, envelopes) := s.emitAll w now (batch.changesets.map .filesChanged)
      let (s, probe) := s.beginProbe w .flush
      (s, ⟨envelopes, probe.toList⟩)

def flushRoots (s : FsSource) (now : Nat) : List WorktreeId → FsSource × StepOutput
  | [] => (s, .nothing)
  | w :: rest =>
    let (s, out) := s.flushRoot w now
    let (s, others) := flushRoots s now rest
    (s, ⟨out.envelopes ++ others.envelopes, out.probes ++ others.probes⟩)

def flushDue (s : FsSource) (now : Nat) : FsSource × StepOutput := s.flushRoots now (s.dueRoots now)

def reconcileAll (s : FsSource) (reason : ReconcileReason) : FsSource × List ProbeRequest :=
  s.beginProbes reason (s.scheduled (s.table.list.map (·.worktree)))

def ownedPaths (s : FsSource) (w : WorktreeId) (paths : PathSet) : PathSet :=
  match s.table.get? w with
  | none => []
  | some root =>
    paths.filter fun rel =>
      match s.table.ownerOf? (root.path.join rel) with
      | some (owner, _) => owner.worktree = w
      | none => false

def StatusDelta.news (d : StatusDelta) (w : WorktreeId) : List FilesystemEvent :=
  (d.counts.map (FilesystemEvent.gitStatusChanged w)).toList
    ++ (d.branch.map (FilesystemEvent.branchChanged w)).toList

/-- Whether a report tells changed paths: a pull does, but for the first report of a root,
unless everything is wanted again. -/
def tellsPaths (reason : ReconcileReason) (state : RootState) : Bool :=
  reason.isPull && (reason = .resync || state.lastReport.isSome)

def applyReport (s : FsSource) (w : WorktreeId) (reason : ReconcileReason) (state : RootState)
    (report : StatusReport) (now : Nat) : FsSource × List Envelope :=
  let previous := if reason = .resync then none else state.lastReport
  let delta := StatusDelta.between previous report
  let s := s.withState w { state with lastReport := some report }
  let changed := if tellsPaths reason state then s.ownedPaths w delta.changed else []
  let (batcher, changesets) := s.batcher.changesets w changed now
  { s with batcher }.emitAll w now
    (changesets.map FilesystemEvent.filesChanged ++ StatusDelta.news delta w)

/-- Takes the answer of a probe; a failed probe changes nothing but that it is over. -/
def applyStatus (s : FsSource) (outcome : ProbeOutcome) (now : Nat) : FsSource × StepOutput :=
  let w := outcome.worktree
  match s.state? w with
  | none => (s, .nothing)
  | some state =>
    if state.generation ≠ outcome.generation then (s, .nothing)
    else
      let queued := state.queued
      let state := { state with probing := false, queued := none }
      let (s, envelopes) := match outcome.report with
        | none => (s.withState w state, [])
        | some report => s.applyReport w outcome.reason state report now
      match queued with
      | none => (s, ⟨envelopes, []⟩)
      | some reason =>
        let (s, probe) := s.beginProbe w reason
        (s, ⟨envelopes, probe.toList⟩)

end FsSource

end Switchboard
