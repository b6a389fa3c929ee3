import Switchboard.Wire.Basic

/-! # The written form of commands -/
namespace Switchboard

namespace TerminalCommand

def toJson : TerminalCommand → Json
  | .sendInput text => variant "send_input" [("text", .str text)]
  | .resize cols rows => variant "resize" [("cols", .nat cols.toNat), ("rows", .nat rows.toNat)]
  | .clear => variant "clear" []
  | .kill => variant "kill" []

def kinds : List (Kind TerminalCommand) :=
  [ ⟨"send_input", 1, fun f => do
      some (.sendInput (← f.required? 0 "text" Json.text?))⟩,
    ⟨"resize", 2, fun f => do
      some (.resize (← f.required? 0 "cols" uint16?) (← f.required? 1 "rows" uint16?))⟩,
    ⟨"clear", 0, fun _ => some .clear⟩,
    ⟨"kill", 0, fun _ => some .kill⟩ ]

def ofJson? : Json.Reading → Json → Option TerminalCommand := ofKinds? kinds

end TerminalCommand

namespace WebCommand

def toJson : WebCommand → Json
  | .navigate url => variant "navigate" [("url", .str url)]
  | .reload => variant "reload" []
  | .goBack => variant "go_back" []
  | .goForward => variant "go_forward" []

def kinds : List (Kind WebCommand) :=
  [ ⟨"navigate", 1, fun f => do
      some (.navigate (← f.required? 0 "url" Json.text?))⟩,
    ⟨"reload", 0, fun _ => some .reload⟩,
    ⟨"go_back", 0, fun _ => some .goBack⟩,
    ⟨"go_forward", 0, fun _ => some .goForward⟩ ]

def ofJson? : Json.Reading → Json → Option WebCommand := ofKinds? kinds

end WebCommand

namespace DiffCommand

def toJson? : DiffCommand → Option Json
  | .selectFile path => do some (variant "select_file" [("path", ← path.toJson?)])
  | .stageHunk path hunk => do
    some (variant "stage_hunk" [("path", ← path.toJson?), ("hunk", .nat hunk.toNat)])
  | .unstageHunk path hunk => do
    some (variant "unstage_hunk" [("path", ← path.toJson?), ("hunk", .nat hunk.toNat)])
  | .addComment path line body => do
    some (variant "add_comment"
      [("path", ← path.toJson?), ("line", .nat line.toNat), ("body", .str body)])
  | .scroll line => some (variant "scroll" [("line", .nat line.toNat)])

def kinds : List (Kind DiffCommand) :=
  [ ⟨"select_file", 1, fun f => do
      some (.selectFile (← f.required? 0 "path" Path.ofJson?))⟩,
    ⟨"stage_hunk", 2, fun f => do
      some (.stageHunk (← f.required? 0 "path" Path.ofJson?) (← f.required? 1 "hunk" uint32?))⟩,
    ⟨"unstage_hunk", 2, fun f => do
      some (.unstageHunk (← f.required? 0 "path" Path.ofJson?) (← f.required? 1 "hunk" uint32?))⟩,
    ⟨"add_comment", 3, fun f => do
      some (.addComment (← f.required? 0 "path" Path.ofJson?) (← f.required? 1 "line" uint32?)
        (← f.required? 2 "body" Json.text?))⟩,
    ⟨"scroll", 1, fun f => do
      some (.scroll (← f.required? 0 "line" uint32?))⟩ ]

def ofJson? : Json.Reading → Json → Option DiffCommand := ofKinds? kinds

end DiffCommand

namespace ViewerCommand

def toJson? : ViewerCommand → Option Json
  | .openFile path => do some (variant "open_file" [("path", ← path.toJson?)])
  | .goToLine line column =>
    some (variant "go_to_line" [("line", .nat line.toNat), ("column", .nat column.toNat)])
  | .closeFile => some (variant "close_file" [])
  | .scroll line => some (variant "scroll" [("line", .nat line.toNat)])

def kinds : List (Kind ViewerCommand) :=
  [ ⟨"open_file", 1, fun f => do
      some (.openFile (← f.required? 0 "path" Path.ofJson?))⟩,
    ⟨"go_to_line", 2, fun f => do
      some (.goToLine (← f.required? 0 "line" uint32?) (← f.required? 1 "column" uint32?))⟩,
    ⟨"close_file", 0, fun _ => some .closeFile⟩,
    ⟨"scroll", 1, fun f => do
      some (.scroll (← f.required? 0 "line" uint32?))⟩ ]

def ofJson? : Json.Reading → Json → Option ViewerCommand := ofKinds? kinds

end ViewerCommand

namespace Command

def toJson? : Command → Option Json
  | .terminal c => some (inDomain "terminal" "command" c.toJson)
  | .web c => some (inDomain "web" "command" c.toJson)
  | .diff c => c.toJson?.map (inDomain "diff" "command")
  | .viewer c => c.toJson?.map (inDomain "code_viewer" "command")
  | .updateMetadata patch => patch.toJson?.map (inDomain "update_metadata" "command")

def ofJson? (v : Json) : Option Command := do
  let p ← v.pair? "domain" "command" contentRoom
  match p.tag with
  | "terminal" => (TerminalCommand.ofJson? p.reading p.content).map .terminal
  | "web" => (WebCommand.ofJson? p.reading p.content).map .web
  | "diff" => (DiffCommand.ofJson? p.reading p.content).map .diff
  | "code_viewer" => (ViewerCommand.ofJson? p.reading p.content).map .viewer
  | "update_metadata" => (MetadataPatch.ofJson? p.reading p.content).map .updateMetadata
  | _ => none

end Command

namespace CommandEnvelope

def toJson? (c : CommandEnvelope) : Option Json := do
  some (.obj ([("command_id", c.id.toJson)]
    ++ member "correlation_id" CorrelationId.toJson c.correlation
    ++ [("target_pane_id", c.target.toJson), ("command", ← c.command.toJson?),
      ("timestamp_ms", .nat c.timestamp)]))

def ofJson? (v : Json) : Option CommandEnvelope := do
  let f ← v.fields? 5
  some {
    id := ← f.required? 0 "command_id" CommandId.ofJson?
    correlation := ← f.defaulted? 1 "correlation_id" (Json.nullable? CorrelationId.ofJson?) none
    target := ← f.required? 2 "target_pane_id" PaneId.ofJson?
    command := ← f.required? 3 "command" Command.ofJson?
    timestamp := ← f.required? 4 "timestamp_ms" Json.nat64? }

end CommandEnvelope

end Switchboard
