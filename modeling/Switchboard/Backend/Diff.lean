import Switchboard.Backend.Basic
import Switchboard.Text.Basic

/-!
# Diff reviews

A review remembers which hunks are staged. A hunk is a path and a number, and paths that name
the same place are the same.
-/
namespace Switchboard

structure Diff where
  pane : PaneId
  selected : Option Path
  staged : List (Path × UInt32)
  comments : Nat
  isOpen : Bool
  deriving DecidableEq

namespace Diff

def create (pane : PaneId) : Diff := ⟨pane, none, [], 0, false⟩

def sameHunk (a b : Path × UInt32) : Bool := a.1.same b.1 && a.2 == b.2

def insertHunk (staged : List (Path × UInt32)) (hunk : Path × UInt32) :
    List (Path × UInt32) × Bool :=
  if staged.any (sameHunk hunk) then (staged, false) else (hunk :: staged, true)

def removeHunk (staged : List (Path × UInt32)) (hunk : Path × UInt32) :
    List (Path × UInt32) × Bool :=
  (staged.filter (!sameHunk hunk ·), staged.any (sameHunk hunk))

def isRelative (path : Path) : Bool := !path.text.isEmpty && !path.isAbsolute

def notRelative (path : Path) : BackendError :=
  .invalid ("diff paths must be worktree-relative: " ++ path.display)

def hunkError (path : Path) (hunk : UInt32) (state : String) : BackendError :=
  .invalid ("hunk " ++ toString hunk.toNat ++ " of " ++ path.display ++ " " ++ state)

def start (d : Diff) : Reaction Diff DiffEvent := ({ d with isOpen := true }, .ok [])

/-- Staging and unstaging find out by the change itself whether it applies. -/
def apply (d : Diff) : DiffCommand → Reaction Diff DiffEvent
  | .selectFile path =>
    if isRelative path then ({ d with selected := some path }, .ok [.fileSelected path])
    else (d, .error (notRelative path))
  | .stageHunk path hunk =>
    if !isRelative path then (d, .error (notRelative path))
    else
      let (staged, isNew) := insertHunk d.staged (path, hunk)
      ({ d with staged },
        if isNew then .ok [.hunkStaged path hunk]
        else .error (hunkError path hunk "already staged"))
  | .unstageHunk path hunk =>
    let (staged, wasThere) := removeHunk d.staged (path, hunk)
    ({ d with staged },
      if wasThere then .ok [.hunkUnstaged path hunk]
      else .error (hunkError path hunk "is not staged"))
  | .addComment path line body =>
    if !isRelative path then (d, .error (notRelative path))
    else if (Text.trim body).isEmpty then (d, .error (.invalid "empty comment"))
    else ({ d with comments := d.comments + 1 }, .ok [.commentAdded path line body])
  | .scroll line => (d, .ok [.scrollPositionChanged line])

def shutdown (d : Diff) : Diff × List ResourceId :=
  ({ d with isOpen := false }, if d.isOpen then [⟨"diff-session:" ++ d.pane.name⟩] else [])

end Diff

end Switchboard
