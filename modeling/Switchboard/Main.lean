import Switchboard.CommandLine
import Switchboard.Config.Document
import Switchboard.Json
import Switchboard.Wire.Pane

/-!
# The program

`config` prints the configuration in effect. `run` opens a viewer for each root, takes every line
of the standard input for the path of a file that changed, and prints what is delivered as lines of
JSON. The time of a run is that of its input: a line comes when all that the line before it caused
is over.
-/
namespace Switchboard

namespace Session

def viewer (w : WorktreeId) : PaneId := ⟨"viewer-" ++ w.name⟩

def viewerSpec (w : WorktreeId) (root : Path) : PaneSpec where
  pane := viewer w
  kind := .codeViewer
  metadata := ⟨some w.name, some root, some w, none⟩
  capabilities := none

def openRoot (ws : Workspace) (w : WorktreeId) (path : Path) : Except WorkspaceError Workspace :=
  match ws.addWorktree w path with
  | (_, .error e) => .error (.root e)
  | (ws, .ok root) =>
    match ws.openPane (viewerSpec w root) with
    | (_, .error e) => .error e
    | (ws, .ok _) => .ok ws

def openRoots (ws : Workspace) : List (WorktreeId × Path) → Except WorkspaceError Workspace
  | [] => .ok ws
  | (w, path) :: rest => do openRoots (← openRoot ws w path) rest

def focusOn (ws : Workspace) : Option String → Workspace
  | none => ws
  | some name => ws.setFocus (.on (viewer ⟨name⟩))

def notificationLine (n : Notification) : Json :=
  .obj [("tier", .str n.tier.name), ("envelope", n.envelope.toJson)]

def gapLine (g : DeliveryGap) : Json := .obj [("gap", g.toJson)]

def lines (b : Batch) : List Json := b.notifications.map notificationLine ++ b.gaps.map gapLine

def patience (c : Config) : Nat := c.files.maxLatency + 2 * c.frame

end Session

end Switchboard

namespace Switchboard.Program

def usage : String :=
  String.intercalate "\n" [
    "Usage: switchboard [-c|--config FILE] COMMAND",
    "",
    "Commands:",
    "  run [--root ID=PATH]... [--focus ID]  Watch roots and print what is delivered",
    "  config                                Print the configuration in effect",
    "  help [COMMAND]                        Print this text"]

def complaint : CommandLine.UsageError → String
  | .missingCommand => "a command is missing"
  | .invalidCommand => "there is no such command"
  | .unknownArgument => "unexpected argument"
  | .invalidValue => "an option has no value"
  | .repeatedOption => "an option is given twice"
  | .tooManyValues => "an option takes no value"
  | e => e.message?.getD usage

def explain : ConfigError → String
  | .read path => "failed to read config " ++ path.display
  | .parse => "failed to parse config"
  | .invalid fault => fault.message
  | .unwritable => "a number of the configuration is too large"

def complain (code : UInt32) (text : String) : IO UInt32 := do
  (← IO.getStderr).putStrLn ("error: " ++ text)
  return code

def find (path : Path) : IO Config.Found := do
  try
    return .text (← IO.FS.readFile path.display)
  catch
    | .noFileOrDirectory .. => return .nothing
    | _ => return .unreadable

def loadConfig : Option Path → IO (Except ConfigError Config)
  | none => return .ok .standard
  | some path => return Config.load path (← find path)

def withDirectory (t : Tree) (path : Path) : IO (Tree × Path) := do
  let real ← IO.FS.realPath path.display
  let path : Path := ⟨real.toString⟩
  return (if ← real.isDir then t.makeDir path else t, path)

def withRoots (t : Tree) : List (WorktreeId × Path) → IO (Tree × List (WorktreeId × Path))
  | [] => return (t, [])
  | (w, path) :: rest => do
    let (t, path) ← withDirectory t path
    let (t, roots) ← withRoots t rest
    return (t, (w, path) :: roots)

def show_ (ws : Workspace) (shown : Nat) : IO Unit := do
  for batch in ws.delivered.drop shown do
    for line in Session.lines batch do
      IO.println line.render
  (← IO.getStdout).flush

partial def follow (input : IO.FS.Stream) (ws : Workspace) (shown : Nat) : IO Unit := do
  show_ ws shown
  let line ← input.getLine
  if line.isEmpty then
    show_ ws.shutdown ws.delivered.length
  else
    let changed : Path := ⟨line.trimAscii.toString⟩
    follow input ((ws.inject [changed]).rest (Session.patience ws.config)) ws.delivered.length

def run (config : Config) (roots : List (WorktreeId × Path)) (focus : Option String) :
    IO UInt32 := do
  let (tree, roots) ← withRoots .empty roots
  match Workspace.create? config tree with
  | .error e => complain 1 (explain e)
  | .ok ws =>
    match Session.openRoots (ws.rest 1) roots with
    | .error e => complain 1 e.message
    | .ok ws => do
      let ws := (Session.focusOn ws focus).rest (Session.patience config)
      follow (← IO.getStdin) ws 0
      return 0

def perform (config : Config) : CommandLine.Command → IO UInt32
  | .run roots focus => run config roots focus
  | .config =>
    match config.toToml with
    | .error e => complain 1 (explain e)
    | .ok text => do
      IO.print text
      return 0

end Switchboard.Program

open Switchboard Program in
def main (words : List String) : IO UInt32 := do
  match CommandLine.parse (← IO.getEnv "SWITCHBOARD_CONFIG") words with
  | .error .help => do
    IO.println usage
    return 0
  | .error e => complain 2 (complaint e)
  | .ok invocation =>
    match ← loadConfig invocation.config with
    | .error e => complain 1 (explain e)
    | .ok config => perform config invocation.command
