import Switchboard.Backend.Basic
import Switchboard.Text.Basic

/-!
# Terminals

A terminal knows its size, its directory and how many lines were sent to it. Only what ends in
a line feed is a line; a line that is not blank starts a command, and a change of directory is
noticed on the way.
-/
namespace Switchboard

structure Terminal where
  pane : PaneId
  cols : UInt16
  rows : UInt16
  cwd : Option Path
  totalLines : Nat
  alive : Bool
  started : Bool
  deriving DecidableEq

namespace Terminal

def create (pane : PaneId) : Terminal := ⟨pane, 80, 24, none, 0, false, false⟩

def killedExitCode : Int32 := 137

def completeFrom (current : List Char) : List Char → List (List Char)
  | [] => []
  | '\n' :: rest => current.reverse :: completeFrom [] rest
  | c :: rest => completeFrom (c :: current) rest

def completeLines (text : List Char) : List (List Char) := completeFrom [] text

def cdMark : List Char := ['c', 'd', ' ']

def cdTarget? (line : List Char) : Option Path :=
  if cdMark.isPrefixOf line then
    some ⟨String.ofList (Text.trimChars (line.drop cdMark.length))⟩
  else none

def resolveDir (cwd : Option Path) (target : Path) : Path :=
  match cwd with
  | some base => if target.isAbsolute then target else base.join target
  | none => target

/-- One complete line: the directory afterwards, and what it causes. -/
def runLine (cwd : Option Path) (line : List Char) : Option Path × List TerminalEvent :=
  let command := Text.trimChars line
  if command.isEmpty then (cwd, [])
  else
    let started := TerminalEvent.commandStarted (String.ofList command)
    match cdTarget? command with
    | none => (cwd, [started])
    | some target =>
      let dir := resolveDir cwd target
      (some dir, [.cwdChanged dir, started])

def runLines (cwd : Option Path) : List (List Char) → Option Path × List TerminalEvent
  | [] => (cwd, [])
  | line :: rest =>
    let (cwd, events) := runLine cwd line
    let (cwd, others) := runLines cwd rest
    (cwd, events ++ others)

def sendInput (t : Terminal) (text : String) : Reaction Terminal TerminalEvent :=
  if !t.alive then (t, .error (.fatal ("terminal process for " ++ t.pane.name ++ " has exited")))
  else if text.isEmpty then (t, .error (.invalid "empty input"))
  else
    let lines := completeLines text.toList
    let (cwd, events) := runLines t.cwd lines
    let totalLines := t.totalLines + lines.length
    let progress := if text.toList.getLast? = some '\n' then [.outputProgress totalLines] else []
    ({ t with cwd, totalLines }, .ok (.inputAccepted text.utf8ByteSize :: events ++ progress))

def start (t : Terminal) (metadata : Metadata) : Reaction Terminal TerminalEvent :=
  if t.started then (t, .error (.fatal "terminal already started"))
  else
    ({ t with started := true, alive := true, cwd := metadata.cwd },
      .ok (.resized t.cols t.rows :: (metadata.cwd.map TerminalEvent.cwdChanged).toList))

def apply (t : Terminal) : TerminalCommand → Reaction Terminal TerminalEvent
  | .sendInput text => t.sendInput text
  | .resize cols rows =>
    if cols = 0 ∨ rows = 0 then
      (t, .error (.invalid
        ("invalid terminal size " ++ toString cols.toNat ++ "x" ++ toString rows.toNat)))
    else ({ t with cols, rows }, .ok [.resized cols rows])
  | .clear => ({ t with totalLines := 0 }, .ok [.cleared])
  | .kill =>
    if t.alive then ({ t with alive := false }, .ok [.processExited killedExitCode])
    else (t, .error (.invalid "process already exited"))

def isAlive (t : Terminal) : Bool := t.alive || !t.started

def shutdown (t : Terminal) : Terminal × List ResourceId :=
  ({ t with alive := false, started := false },
    (if t.alive then [⟨"pty:" ++ t.pane.name⟩] else [])
      ++ (if t.started then [⟨"scrollback:" ++ t.pane.name⟩] else []))

end Terminal

end Switchboard
