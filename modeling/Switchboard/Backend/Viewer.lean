import Switchboard.Backend.Basic

/-!
# Code viewers

A viewer has at most one file open. Opening another one closes it first, and nothing can be
moved in a viewer without a file.
-/
namespace Switchboard

structure Viewer where
  pane : PaneId
  file : Option Path
  line : UInt32
  column : UInt32
  isOpen : Bool
  deriving DecidableEq

namespace Viewer

def create (pane : PaneId) : Viewer := ⟨pane, none, 1, 1, false⟩

def noFile : BackendError := .invalid "no file open"

def start (v : Viewer) : Reaction Viewer ViewerEvent := ({ v with isOpen := true }, .ok [])

def apply (v : Viewer) : ViewerCommand → Reaction Viewer ViewerEvent
  | .openFile path =>
    if path.text.isEmpty then (v, .error (.invalid "empty path"))
    else
      ({ v with file := some path, line := 1, column := 1 },
        .ok ((v.file.map ViewerEvent.fileClosed).toList ++ [.fileOpened path]))
  | .goToLine line column =>
    match v.file with
    | none => (v, .error noFile)
    | some _ =>
      if line = 0 ∨ column = 0 then (v, .error (.invalid "lines and columns are 1-based"))
      else ({ v with line, column }, .ok [.cursorMoved line column])
  | .closeFile =>
    match v.file with
    | none => (v, .error noFile)
    | some path => ({ v with file := none }, .ok [.fileClosed path])
  | .scroll line =>
    match v.file with
    | none => (v, .error noFile)
    | some _ => (v, .ok [.scrollPositionChanged line])

/-- A viewer that was never opened keeps its file. -/
def shutdown (v : Viewer) : Viewer × List ResourceId :=
  if v.isOpen then
    ({ v with isOpen := false, file := none },
      ⟨"viewer:" ++ v.pane.name⟩ :: (v.file.map fun f => ⟨"file:" ++ f.display⟩).toList)
  else (v, [])

end Viewer

end Switchboard
