import Switchboard.Envelope
import Switchboard.Wire.Basic

/-!
# The written form of events and envelopes

An event is written as its family beside the member of the family, and the member as an object
whose `type` tells its kind.
-/
namespace Switchboard

open Json (Fields)

namespace TerminalEvent

def toJson? : TerminalEvent → Option Json
  | .titleChanged title => some (variant "title_changed" [("title", .str title)])
  | .cwdChanged cwd => do some (variant "cwd_changed" [("cwd", ← cwd.toJson?)])
  | .inputAccepted bytes => some (variant "input_accepted" [("bytes", .nat bytes)])
  | .commandStarted line => some (variant "command_started" [("command_line", .str line)])
  | .resized cols rows =>
    some (variant "resized" [("cols", .nat cols.toNat), ("rows", .nat rows.toNat)])
  | .outputProgress lines => some (variant "output_progress" [("total_lines", .nat lines)])
  | .cleared => some (variant "cleared" [])
  | .bell => some (variant "bell" [])
  | .processExited code => some (variant "process_exited" [("exit_code", .int code.toInt)])

def kinds : List (Kind TerminalEvent) :=
  [ ⟨"title_changed", 1, fun f => do
      some (.titleChanged (← f.required? 0 "title" Json.text?))⟩,
    ⟨"cwd_changed", 1, fun f => do
      some (.cwdChanged (← f.required? 0 "cwd" Path.ofJson?))⟩,
    ⟨"input_accepted", 1, fun f => do
      some (.inputAccepted (← f.required? 0 "bytes" Json.nat64?))⟩,
    ⟨"command_started", 1, fun f => do
      some (.commandStarted (← f.required? 0 "command_line" Json.text?))⟩,
    ⟨"resized", 2, fun f => do
      some (.resized (← f.required? 0 "cols" uint16?) (← f.required? 1 "rows" uint16?))⟩,
    ⟨"output_progress", 1, fun f => do
      some (.outputProgress (← f.required? 0 "total_lines" Json.nat64?))⟩,
    ⟨"cleared", 0, fun _ => some .cleared⟩,
    ⟨"bell", 0, fun _ => some .bell⟩,
    ⟨"process_exited", 1, fun f => do
      some (.processExited (← f.required? 0 "exit_code" int32?))⟩ ]

def ofJson? : Json.Reading → Json → Option TerminalEvent := ofKinds? kinds

end TerminalEvent

namespace WebEvent

def toJson : WebEvent → Json
  | .navigationStarted url => variant "navigation_started" [("url", .str url)]
  | .navigationCompleted url => variant "navigation_completed" [("url", .str url)]
  | .titleChanged title => variant "title_changed" [("title", .str title)]
  | .loadProgress percent => variant "load_progress" [("percent", .nat percent.toNat)]
  | .historyChanged back forward =>
    variant "history_changed" [("can_go_back", .bool back), ("can_go_forward", .bool forward)]

def kinds : List (Kind WebEvent) :=
  [ ⟨"navigation_started", 1, fun f => do
      some (.navigationStarted (← f.required? 0 "url" Json.text?))⟩,
    ⟨"navigation_completed", 1, fun f => do
      some (.navigationCompleted (← f.required? 0 "url" Json.text?))⟩,
    ⟨"title_changed", 1, fun f => do
      some (.titleChanged (← f.required? 0 "title" Json.text?))⟩,
    ⟨"load_progress", 1, fun f => do
      some (.loadProgress (← f.required? 0 "percent" uint8?))⟩,
    ⟨"history_changed", 2, fun f => do
      some (.historyChanged (← f.required? 0 "can_go_back" Json.bool?)
        (← f.required? 1 "can_go_forward" Json.bool?))⟩ ]

def ofJson? : Json.Reading → Json → Option WebEvent := ofKinds? kinds

end WebEvent

namespace DiffEvent

def toJson? : DiffEvent → Option Json
  | .fileSelected path => do some (variant "file_selected" [("path", ← path.toJson?)])
  | .hunkStaged path hunk => do
    some (variant "hunk_staged" [("path", ← path.toJson?), ("hunk", .nat hunk.toNat)])
  | .hunkUnstaged path hunk => do
    some (variant "hunk_unstaged" [("path", ← path.toJson?), ("hunk", .nat hunk.toNat)])
  | .commentAdded path line body => do
    some (variant "comment_added"
      [("path", ← path.toJson?), ("line", .nat line.toNat), ("body", .str body)])
  | .scrollPositionChanged line =>
    some (variant "scroll_position_changed" [("line", .nat line.toNat)])

def kinds : List (Kind DiffEvent) :=
  [ ⟨"file_selected", 1, fun f => do
      some (.fileSelected (← f.required? 0 "path" Path.ofJson?))⟩,
    ⟨"hunk_staged", 2, fun f => do
      some (.hunkStaged (← f.required? 0 "path" Path.ofJson?) (← f.required? 1 "hunk" uint32?))⟩,
    ⟨"hunk_unstaged", 2, fun f => do
      some (.hunkUnstaged (← f.required? 0 "path" Path.ofJson?) (← f.required? 1 "hunk" uint32?))⟩,
    ⟨"comment_added", 3, fun f => do
      some (.commentAdded (← f.required? 0 "path" Path.ofJson?) (← f.required? 1 "line" uint32?)
        (← f.required? 2 "body" Json.text?))⟩,
    ⟨"scroll_position_changed", 1, fun f => do
      some (.scrollPositionChanged (← f.required? 0 "line" uint32?))⟩ ]

def ofJson? : Json.Reading → Json → Option DiffEvent := ofKinds? kinds

end DiffEvent

namespace ViewerEvent

def toJson? : ViewerEvent → Option Json
  | .fileOpened path => do some (variant "file_opened" [("path", ← path.toJson?)])
  | .fileClosed path => do some (variant "file_closed" [("path", ← path.toJson?)])
  | .cursorMoved line column =>
    some (variant "cursor_moved" [("line", .nat line.toNat), ("column", .nat column.toNat)])
  | .scrollPositionChanged line =>
    some (variant "scroll_position_changed" [("line", .nat line.toNat)])

def kinds : List (Kind ViewerEvent) :=
  [ ⟨"file_opened", 1, fun f => do
      some (.fileOpened (← f.required? 0 "path" Path.ofJson?))⟩,
    ⟨"file_closed", 1, fun f => do
      some (.fileClosed (← f.required? 0 "path" Path.ofJson?))⟩,
    ⟨"cursor_moved", 2, fun f => do
      some (.cursorMoved (← f.required? 0 "line" uint32?) (← f.required? 1 "column" uint32?))⟩,
    ⟨"scroll_position_changed", 1, fun f => do
      some (.scrollPositionChanged (← f.required? 0 "line" uint32?))⟩ ]

def ofJson? : Json.Reading → Json → Option ViewerEvent := ofKinds? kinds

end ViewerEvent

namespace LifecycleEvent

def toJson? : LifecycleEvent → Option Json
  | .stateChanged source target =>
    some (variant "state_changed" [("from", .str source.name), ("to", .str target.name)])
  | .metadataChanged metadata => do
    some (variant "metadata_changed" [("metadata", ← metadata.toJson?)])
  | .failed reason => some (variant "failed" [("reason", .str reason)])

def kinds : List (Kind LifecycleEvent) :=
  [ ⟨"state_changed", 2, fun f => do
      some (.stateChanged (← f.required? 0 "from" (LifecycleState.ofJson? .held))
        (← f.required? 1 "to" (LifecycleState.ofJson? .held)))⟩,
    ⟨"metadata_changed", 1, fun f => do
      some (.metadataChanged (← f.required? 0 "metadata" Metadata.ofJson?))⟩,
    ⟨"failed", 1, fun f => do
      some (.failed (← f.required? 0 "reason" Json.text?))⟩ ]

def ofJson? : Json.Reading → Json → Option LifecycleEvent := ofKinds? kinds

end LifecycleEvent

namespace Changeset

def members? (cs : Changeset) : Option (List (String × Json)) := do
  some [("worktree_id", cs.worktree.toJson), ("paths", ← Json.ofList? Path.toJson? cs.paths),
    ("timestamp_ms", .nat cs.timestamp), ("batch_seq", .nat cs.batchSeq),
    ("part", .nat cs.part), ("parts", .nat cs.parts)]

def toJson? (cs : Changeset) : Option Json := cs.members?.map .obj

def ofFields? (f : Fields) : Option Changeset := do
  some {
    worktree := ← f.required? 0 "worktree_id" WorktreeId.ofJson?
    paths := ← f.required? 1 "paths" (Json.list? Path.ofJson?)
    timestamp := ← f.required? 2 "timestamp_ms" Json.nat64?
    batchSeq := ← f.required? 3 "batch_seq" Json.nat64?
    part := ← f.required? 4 "part" Json.nat32?
    parts := ← f.required? 5 "parts" Json.nat32? }

end Changeset

namespace StatusCounts

def toJson (c : StatusCounts) : Json :=
  .obj [("changed", .nat c.changed.toNat), ("staged", .nat c.staged.toNat),
    ("untracked", .nat c.untracked.toNat)]

def ofJson? (v : Json) : Option StatusCounts := do
  let f ← v.fields? 3
  some {
    changed := ← f.required? 0 "changed" uint32?
    staged := ← f.required? 1 "staged" uint32?
    untracked := ← f.required? 2 "untracked" uint32? }

end StatusCounts

namespace FilesystemEvent

def toJson? : FilesystemEvent → Option Json
  | .filesChanged changes => do some (variant "files_changed" (← changes.members?))
  | .gitStatusChanged worktree counts =>
    some (variant "git_status_changed"
      [("worktree_id", worktree.toJson), ("counts", counts.toJson)])
  | .branchChanged worktree branch =>
    some (variant "branch_changed"
      [("worktree_id", worktree.toJson), ("branch", .ofOption .str branch)])

def kinds : List (Kind FilesystemEvent) :=
  [ ⟨"files_changed", 6, fun f => (Changeset.ofFields? f).map .filesChanged⟩,
    ⟨"git_status_changed", 2, fun f => do
      some (.gitStatusChanged (← f.required? 0 "worktree_id" WorktreeId.ofJson?)
        (← f.required? 1 "counts" StatusCounts.ofJson?))⟩,
    ⟨"branch_changed", 2, fun f => do
      some (.branchChanged (← f.required? 0 "worktree_id" WorktreeId.ofJson?)
        (← f.optional? 1 "branch" Json.text?))⟩ ]

def ofJson? : Json.Reading → Json → Option FilesystemEvent := ofKinds? kinds

end FilesystemEvent

namespace Event

def toJson? : Event → Option Json
  | .terminal e => e.toJson?.map (inDomain "terminal" "event")
  | .web e => some (inDomain "web" "event" e.toJson)
  | .diff e => e.toJson?.map (inDomain "diff" "event")
  | .viewer e => e.toJson?.map (inDomain "code_viewer" "event")
  | .lifecycle e => e.toJson?.map (inDomain "lifecycle" "event")
  | .filesystem e => e.toJson?.map (inDomain "filesystem" "event")

def ofJson? (v : Json) : Option Event := do
  let p ← v.pair? "domain" "event" contentRoom
  match p.tag with
  | "terminal" => (TerminalEvent.ofJson? p.reading p.content).map .terminal
  | "web" => (WebEvent.ofJson? p.reading p.content).map .web
  | "diff" => (DiffEvent.ofJson? p.reading p.content).map .diff
  | "code_viewer" => (ViewerEvent.ofJson? p.reading p.content).map .viewer
  | "lifecycle" => (LifecycleEvent.ofJson? p.reading p.content).map .lifecycle
  | "filesystem" => (FilesystemEvent.ofJson? p.reading p.content).map .filesystem
  | _ => none

end Event

namespace Envelope

def facets (worktree : Option WorktreeId) : Json :=
  .obj (member "worktree_id" WorktreeId.toJson worktree)

def facets? (v : Json) : Option (Option WorktreeId) := do
  let f ← v.fields? 1
  f.defaulted? 0 "worktree_id" (Json.nullable? WorktreeId.ofJson?) none

def toJson? (e : Envelope) : Option Json := do
  some (.obj ([("source", e.source.toJson), ("source_facets", facets e.worktree),
      ("seq", .nat e.seq), ("epoch", .nat e.epoch)]
    ++ member "command_id" CommandId.toJson e.command
    ++ member "correlation_id" CorrelationId.toJson e.correlation
    ++ [("timestamp_ms", .nat e.timestamp), ("event", ← e.event.toJson?)]))

def ofJson? (v : Json) : Option Envelope := do
  let f ← v.fields? 8
  let source ← f.required? 0 "source" Source.ofJson?
  let worktree ← f.defaulted? 1 "source_facets" facets? none
  let seq ← f.required? 2 "seq" Json.nat64?
  let epoch ← f.required? 3 "epoch" Json.nat64?
  let command ← f.defaulted? 4 "command_id" (Json.nullable? CommandId.ofJson?) none
  let correlation ← f.defaulted? 5 "correlation_id" (Json.nullable? CorrelationId.ofJson?) none
  let timestamp ← f.required? 6 "timestamp_ms" Json.nat64?
  let event ← f.required? 7 "event" Event.ofJson?
  some { source, worktree, stamp := ⟨epoch, seq⟩, command, correlation, timestamp, event }

end Envelope

end Switchboard
