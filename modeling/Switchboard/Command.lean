import Switchboard.Lifecycle
import Switchboard.Metadata

/-!
# Commands

A command is sent to one pane. Its kind is what a pane's capabilities are stated in: the
default set of a pane holds the kinds of its own family and the metadata update.
-/
namespace Switchboard

inductive PaneKind where
  | terminal
  | webView
  | diff
  | codeViewer
  deriving DecidableEq

namespace PaneKind

def all : List PaneKind := [.terminal, .webView, .diff, .codeViewer]

def name : PaneKind → String
  | .terminal => "terminal"
  | .webView => "web_view"
  | .diff => "diff"
  | .codeViewer => "code_viewer"

end PaneKind

inductive TerminalCommand where
  | sendInput (text : String)
  | resize (cols rows : UInt16)
  | clear
  | kill
  deriving DecidableEq

inductive WebCommand where
  | navigate (url : String)
  | reload
  | goBack
  | goForward
  deriving DecidableEq

inductive DiffCommand where
  | selectFile (path : Path)
  | stageHunk (path : Path) (hunk : UInt32)
  | unstageHunk (path : Path) (hunk : UInt32)
  | addComment (path : Path) (line : UInt32) (body : String)
  | scroll (line : UInt32)
  deriving DecidableEq

inductive ViewerCommand where
  | openFile (path : Path)
  | goToLine (line column : UInt32)
  | closeFile
  | scroll (line : UInt32)
  deriving DecidableEq

inductive Command where
  | terminal (command : TerminalCommand)
  | web (command : WebCommand)
  | diff (command : DiffCommand)
  | viewer (command : ViewerCommand)
  | updateMetadata (patch : MetadataPatch)
  deriving DecidableEq

inductive CommandKind where
  | terminalInput
  | terminalResize
  | terminalClear
  | terminalKill
  | webNavigate
  | webReload
  | webHistory
  | diffSelect
  | diffStage
  | diffComment
  | diffScroll
  | viewerOpen
  | viewerNavigate
  | viewerClose
  | updateMetadata
  deriving DecidableEq

namespace CommandKind

def all : List CommandKind :=
  [.terminalInput, .terminalResize, .terminalClear, .terminalKill, .webNavigate, .webReload,
    .webHistory, .diffSelect, .diffStage, .diffComment, .diffScroll, .viewerOpen,
    .viewerNavigate, .viewerClose, .updateMetadata]

def name : CommandKind → String
  | .terminalInput => "terminal_input"
  | .terminalResize => "terminal_resize"
  | .terminalClear => "terminal_clear"
  | .terminalKill => "terminal_kill"
  | .webNavigate => "web_navigate"
  | .webReload => "web_reload"
  | .webHistory => "web_history"
  | .diffSelect => "diff_select"
  | .diffStage => "diff_stage"
  | .diffComment => "diff_comment"
  | .diffScroll => "diff_scroll"
  | .viewerOpen => "viewer_open"
  | .viewerNavigate => "viewer_navigate"
  | .viewerClose => "viewer_close"
  | .updateMetadata => "update_metadata"

end CommandKind

def Command.kind : Command → CommandKind
  | .terminal (.sendInput _) => .terminalInput
  | .terminal (.resize _ _) => .terminalResize
  | .terminal .clear => .terminalClear
  | .terminal .kill => .terminalKill
  | .web (.navigate _) => .webNavigate
  | .web .reload => .webReload
  | .web .goBack => .webHistory
  | .web .goForward => .webHistory
  | .diff (.selectFile _) => .diffSelect
  | .diff (.stageHunk _ _) => .diffStage
  | .diff (.unstageHunk _ _) => .diffStage
  | .diff (.addComment _ _ _) => .diffComment
  | .diff (.scroll _) => .diffScroll
  | .viewer (.openFile _) => .viewerOpen
  | .viewer (.goToLine _ _) => .viewerNavigate
  | .viewer (.scroll _) => .viewerNavigate
  | .viewer .closeFile => .viewerClose
  | .updateMetadata _ => .updateMetadata

structure CommandEnvelope where
  id : CommandId
  correlation : Option CorrelationId
  target : PaneId
  command : Command
  timestamp : Nat
  deriving DecidableEq

/-- Command kinds in the order of their declaration, each at most once. -/
structure Capabilities where
  kinds : List CommandKind
  deriving DecidableEq

namespace Capabilities

def ofList (kinds : List CommandKind) : Capabilities := ⟨CommandKind.all.filter (· ∈ kinds)⟩

def contains (c : Capabilities) (kind : CommandKind) : Bool := c.kinds.contains kind

def without (c : Capabilities) (kind : CommandKind) : Capabilities := ⟨c.kinds.filter (· ≠ kind)⟩

def ofKind (kind : PaneKind) : Capabilities :=
  ofList <| .updateMetadata :: match kind with
    | .terminal => [.terminalInput, .terminalResize, .terminalClear, .terminalKill]
    | .webView => [.webNavigate, .webReload, .webHistory]
    | .diff => [.diffSelect, .diffStage, .diffComment, .diffScroll]
    | .codeViewer => [.viewerOpen, .viewerNavigate, .viewerClose]

end Capabilities

structure CommandAck where
  command : CommandId
  emitted : List Nat
  deriving DecidableEq

inductive CommandError where
  | capabilityDenied (pane : PaneId) (kind : CommandKind)
  | lifecycleClosed (pane : PaneId) (state : LifecycleState)
  | unknownPane (pane : PaneId)
  | validation (reason : String)
  | backend (pane : PaneId) (reason : String)
  deriving DecidableEq

namespace CommandError

def message : CommandError → String
  | .capabilityDenied pane kind =>
    "pane " ++ pane.name ++ " does not accept " ++ kind.name ++ " commands"
  | .lifecycleClosed pane state =>
    "pane " ++ pane.name ++ " is " ++ state.name ++ "; command rejected"
  | .unknownPane pane => "no runtime registered for pane " ++ pane.name
  | .validation reason => "invalid command: " ++ reason
  | .backend pane reason => "backend failure on pane " ++ pane.name ++ ": " ++ reason

def isRejection : CommandError → Bool
  | .capabilityDenied _ _ => true
  | .lifecycleClosed _ _ => true
  | _ => false

def isFatal : CommandError → Bool
  | .backend _ _ => true
  | _ => false

end CommandError

end Switchboard
