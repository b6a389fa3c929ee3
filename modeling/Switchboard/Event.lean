import Switchboard.Lifecycle
import Switchboard.Metadata

/-!
# Events

One closed family per kind of pane, one for the life of panes and one for the file system.
Events that only carry the latest value of something are lossy and name the value they carry;
an event that states a fact of its own is critical.
-/
namespace Switchboard

inductive TerminalEvent where
  | titleChanged (title : String)
  | cwdChanged (cwd : Path)
  | inputAccepted (bytes : Nat)
  | commandStarted (commandLine : String)
  | resized (cols rows : UInt16)
  | outputProgress (totalLines : Nat)
  | cleared
  | bell
  | processExited (exitCode : Int32)
  deriving DecidableEq

inductive WebEvent where
  | navigationStarted (url : String)
  | navigationCompleted (url : String)
  | titleChanged (title : String)
  | loadProgress (percent : UInt8)
  | historyChanged (canGoBack canGoForward : Bool)
  deriving DecidableEq

inductive DiffEvent where
  | fileSelected (path : Path)
  | hunkStaged (path : Path) (hunk : UInt32)
  | hunkUnstaged (path : Path) (hunk : UInt32)
  | commentAdded (path : Path) (line : UInt32) (body : String)
  | scrollPositionChanged (line : UInt32)
  deriving DecidableEq

inductive ViewerEvent where
  | fileOpened (path : Path)
  | fileClosed (path : Path)
  | cursorMoved (line column : UInt32)
  | scrollPositionChanged (line : UInt32)
  deriving DecidableEq

inductive LifecycleEvent where
  | stateChanged (source target : LifecycleState)
  | metadataChanged (metadata : Metadata)
  | failed (reason : String)
  deriving DecidableEq

/-- One batch of changed paths of a worktree, relative to its root, in order. A large burst is
cut into consecutive parts. -/
structure Changeset where
  worktree : WorktreeId
  paths : List Path
  timestamp : Nat
  batchSeq : Nat
  part : Nat
  parts : Nat
  deriving DecidableEq

structure StatusCounts where
  changed : UInt32
  staged : UInt32
  untracked : UInt32
  deriving DecidableEq

def StatusCounts.zero : StatusCounts := ⟨0, 0, 0⟩

inductive FilesystemEvent where
  | filesChanged (changes : Changeset)
  | gitStatusChanged (worktree : WorktreeId) (counts : StatusCounts)
  | branchChanged (worktree : WorktreeId) (branch : Option String)
  deriving DecidableEq

inductive Event where
  | terminal (event : TerminalEvent)
  | web (event : WebEvent)
  | diff (event : DiffEvent)
  | viewer (event : ViewerEvent)
  | lifecycle (event : LifecycleEvent)
  | filesystem (event : FilesystemEvent)
  deriving DecidableEq

/-- The values of which only the latest one matters. -/
inductive LossyValue where
  | terminalTitle
  | terminalCwd
  | terminalSize
  | terminalProgress
  | webTitle
  | webProgress
  | webHistory
  | diffScroll
  | viewerCursor
  | viewerScroll
  | metadata
  | gitStatus
  | branch
  deriving DecidableEq

def LossyValue.name : LossyValue → String
  | .terminalTitle => "terminal.title"
  | .terminalCwd => "terminal.cwd"
  | .terminalSize => "terminal.size"
  | .terminalProgress => "terminal.output_progress"
  | .webTitle => "web.title"
  | .webProgress => "web.load_progress"
  | .webHistory => "web.history"
  | .diffScroll => "diff.scroll"
  | .viewerCursor => "code_viewer.cursor"
  | .viewerScroll => "code_viewer.scroll"
  | .metadata => "lifecycle.metadata"
  | .gitStatus => "fs.git_status"
  | .branch => "fs.branch"

namespace Event

def lossy? : Event → Option LossyValue
  | .terminal (.titleChanged _) => some .terminalTitle
  | .terminal (.cwdChanged _) => some .terminalCwd
  | .terminal (.resized _ _) => some .terminalSize
  | .terminal (.outputProgress _) => some .terminalProgress
  | .terminal _ => none
  | .web (.titleChanged _) => some .webTitle
  | .web (.loadProgress _) => some .webProgress
  | .web (.historyChanged _ _) => some .webHistory
  | .web _ => none
  | .diff (.scrollPositionChanged _) => some .diffScroll
  | .diff _ => none
  | .viewer (.cursorMoved _ _) => some .viewerCursor
  | .viewer (.scrollPositionChanged _) => some .viewerScroll
  | .viewer _ => none
  | .lifecycle (.metadataChanged _) => some .metadata
  | .lifecycle _ => none
  | .filesystem (.gitStatusChanged _ _) => some .gitStatus
  | .filesystem (.branchChanged _ _) => some .branch
  | .filesystem (.filesChanged _) => none

def isCritical (e : Event) : Bool := e.lossy?.isNone

def name : Event → String
  | .terminal _ => "terminal"
  | .web _ => "web"
  | .diff _ => "diff"
  | .viewer _ => "code_viewer"
  | .lifecycle _ => "lifecycle"
  | .filesystem (.filesChanged _) => "files_changed"
  | .filesystem (.gitStatusChanged _ _) => "git_status_changed"
  | .filesystem (.branchChanged _ _) => "branch_changed"

def changeset? : Event → Option Changeset
  | .filesystem (.filesChanged cs) => some cs
  | _ => none

end Event

end Switchboard
