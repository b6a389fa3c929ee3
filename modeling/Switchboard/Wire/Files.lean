import Switchboard.Config
import Switchboard.Projection
import Switchboard.Wire.Delivery

/-! # The written form of roots, reports, views and configurations -/
namespace Switchboard

open Json (nat)

def paths (ps : List Path) : Json := .ofList Path.toJson ps

def ActivityTier.ofJson? : Json → Option ActivityTier :=
  constant? .inPlace ActivityTier.name ActivityTier.all

def ReconcileReason.ofJson? : Json → Option ReconcileReason :=
  constant? .inPlace ReconcileReason.name ReconcileReason.all

def RootInfo.toJson (i : RootInfo) : Json :=
  .obj [("worktree_id", i.root.worktree.toJson), ("root_path", i.root.path.toJson),
    ("activity_tier", .str i.root.tier.name), ("parent", .ofOption WorktreeId.toJson i.parent),
    ("nested", .ofList WorktreeId.toJson i.nested)]

namespace StatusReport

def toJson (r : StatusReport) : Json :=
  .obj [("counts", r.counts.toJson), ("branch", .ofOption .str r.branch),
    ("dirty_paths", paths r.dirty)]

def ofJson? (v : Json) : Option StatusReport := do
  let f ← v.fields? 3
  let counts ← f.optional? 0 "counts" StatusCounts.ofJson?
  let dirty ← f.optional? 2 "dirty_paths" (Json.list? Path.ofJson?)
  some {
    counts := counts.getD .zero
    branch := ← f.optional? 1 "branch" Json.text?
    dirty := PathSet.ofList (dirty.getD []) }

end StatusReport

namespace BatchPolicy

def toJson (p : BatchPolicy) : Json :=
  .obj [("debounce_ms", nat p.debounce), ("max_latency_ms", nat p.maxLatency),
    ("max_batch_paths", nat p.maxPaths)]

def ofJson? (v : Json) : Option BatchPolicy := do
  let f ← v.fields? 3
  let debounce ← f.optional? 0 "debounce_ms" Json.nat64?
  let maxLatency ← f.optional? 1 "max_latency_ms" Json.nat64?
  let maxPaths ← f.optional? 2 "max_batch_paths" Json.nat64?
  some {
    debounce := debounce.getD standard.debounce
    maxLatency := maxLatency.getD standard.maxLatency
    maxPaths := maxPaths.getD standard.maxPaths }

end BatchPolicy

def ProbeRequest.toJson (r : ProbeRequest) : Json :=
  .obj [("worktree_id", r.worktree.toJson), ("root_path", r.path.toJson),
    ("generation", nat r.generation), ("reason", .str r.reason.name)]

def StepOutput.toJson (o : StepOutput) : Json :=
  .obj [("envelopes", .ofList Envelope.toJson o.envelopes),
    ("probes", .ofList ProbeRequest.toJson o.probes)]

def IngestStats.toJson (s : IngestStats) : Json :=
  .obj [("routed", nat s.routed), ("status_only", nat s.statusOnly), ("unowned", nat s.unowned)]

def PaneView.toJson (w : PaneView) : Json :=
  .obj [("pane_id", w.pane.toJson), ("worktree_id", w.worktree.toJson),
    ("cwd", .ofOption Path.toJson w.cwd), ("changed_paths", paths w.changed),
    ("last_batch_seq", nat w.lastBatchSeq), ("status", .ofOption StatusCounts.toJson w.status),
    ("branch", .ofOption .str w.branch), ("updated_at_ms", nat w.updatedAt)]

def ProjectionChange.toJson (c : ProjectionChange) : Json :=
  .obj [("version", nat c.version), ("pane_id", c.pane.toJson), ("kind", .str c.kind.name)]

def Scope.toJson : Scope → Json
  | .whole => .obj [("scope", .str "whole")]
  | .subtree p => .obj [("scope", .str "subtree"), ("path", p.toJson)]
  | .unresolved => .obj [("scope", .str "unresolved")]

namespace FilesConfig

def toJson (c : FilesConfig) : Json :=
  .obj ([("debounce_ms", nat c.debounce), ("max_latency_ms", nat c.maxLatency),
      ("max_batch_paths", nat c.maxBatchPaths), ("drift_sweep_secs", nat c.driftSweep)]
    ++ member "case_insensitive" Json.bool c.foldCase
    ++ [("ignore_dirs", .strings c.ignoreDirs)])

def ofJson? (base : FilesConfig) (v : Json) : Option FilesConfig := do
  let f ← v.fields? 6
  some {
    debounce := ← f.defaulted? 0 "debounce_ms" Json.nat64? base.debounce
    maxLatency := ← f.defaulted? 1 "max_latency_ms" Json.nat64? base.maxLatency
    maxBatchPaths := ← f.defaulted? 2 "max_batch_paths" Json.nat64? base.maxBatchPaths
    driftSweep := ← f.defaulted? 3 "drift_sweep_secs" Json.nat64? base.driftSweep
    foldCase := ← f.defaulted? 4 "case_insensitive" (Json.nullable? Json.bool?) base.foldCase
    ignoreDirs := ← f.defaulted? 5 "ignore_dirs" (Json.list? Json.text?) base.ignoreDirs }

end FilesConfig

namespace Config

def toJson (c : Config) : Json :=
  .obj [("bus_capacity", nat c.busCapacity), ("replay_capacity", nat c.replayCapacity),
    ("projection_change_capacity", nat c.changeCapacity), ("frame_ms", nat c.frame),
    ("shutdown_timeout_ms", nat c.shutdownTimeout), ("fs", c.files.toJson)]

def ofJson? (base : Config) (v : Json) : Option Config := do
  let f ← v.fields? 6
  some {
    busCapacity := ← f.defaulted? 0 "bus_capacity" Json.nat64? base.busCapacity
    replayCapacity := ← f.defaulted? 1 "replay_capacity" Json.nat64? base.replayCapacity
    changeCapacity := ← f.defaulted? 2 "projection_change_capacity" Json.nat64? base.changeCapacity
    frame := ← f.defaulted? 3 "frame_ms" Json.nat64? base.frame
    shutdownTimeout := ← f.defaulted? 4 "shutdown_timeout_ms" Json.nat64? base.shutdownTimeout
    files := ← f.defaulted? 5 "fs" (FilesConfig.ofJson? base.files) base.files }

end Config

end Switchboard
