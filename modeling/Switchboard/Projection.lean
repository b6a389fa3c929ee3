import Switchboard.Envelope
import Switchboard.Table

/-!
# What panes see of their worktrees

A pane that is bound to a worktree sees what the filesystem source tells of it, narrowed to the
directory the pane works in. A changeset counts once: one that is not newer than the last one
seen is dropped. All changes are logged under increasing versions; the log is bounded, and a
reader that is too far behind has to look at everything again.
-/
namespace Switchboard

inductive ChangeKind where
  | binding
  | files
  | status
  | branch
  deriving DecidableEq

def ChangeKind.name : ChangeKind → String
  | .binding => "binding"
  | .files => "files"
  | .status => "status"
  | .branch => "branch"

structure ProjectionChange where
  version : Nat
  pane : PaneId
  kind : ChangeKind
  deriving DecidableEq

inductive Scope where
  | whole
  | subtree (path : Path)
  | unresolved
  deriving DecidableEq

def Scope.admits : Scope → Path → Bool
  | .whole, _ => true
  | .subtree path, rel => rel.startsWith path
  | .unresolved, _ => false

structure PaneView where
  pane : PaneId
  worktree : WorktreeId
  cwd : Option Path
  changed : PathSet
  lastBatchSeq : Nat
  status : Option StatusCounts
  branch : Option String
  updatedAt : Nat
  /-- The next visible part replaces the changed paths. -/
  fresh : Bool
  deriving DecidableEq

def PaneView.empty (pane : PaneId) (worktree : WorktreeId) : PaneView where
  pane
  worktree
  cwd := none
  changed := []
  lastBatchSeq := 0
  status := none
  branch := none
  updatedAt := 0
  fresh := false

structure ApplyResult where
  changed : Nat
  stale : Nat
  deriving DecidableEq

structure Projection where
  panes : Table PaneId PaneView
  roots : Table WorktreeId Path
  version : Nat
  changes : List ProjectionChange
  capacity : Nat
  trimmedThrough : Nat
  deriving DecidableEq

namespace Projection

def create (capacity : Nat) : Projection where
  panes := []
  roots := []
  version := 0
  changes := []
  capacity := max capacity 1
  trimmedThrough := 0

def view? (p : Projection) (pane : PaneId) : Option PaneView := Table.get? p.panes pane

def views (p : Projection) : List PaneView := p.panes.map (·.2)

def changesSince (p : Projection) (since : Nat) : Option (List ProjectionChange) :=
  if since < p.trimmedThrough then none else some (p.changes.filter (since < ·.version))

def record (p : Projection) (pane : PaneId) (kind : ChangeKind) : Projection :=
  let change : ProjectionChange := ⟨p.version + 1, pane, kind⟩
  match p.changes with
  | oldest :: rest =>
    if p.changes.length = p.capacity then
      { p with
        version := p.version + 1
        changes := rest ++ [change]
        trimmedThrough := oldest.version }
    else { p with version := p.version + 1, changes := p.changes ++ [change] }
  | [] => { p with version := p.version + 1, changes := [change] }

def setRoot (p : Projection) (worktree : WorktreeId) (root : Path) : Projection :=
  { p with roots := Table.set p.roots worktree root }

def forgetRoot (p : Projection) (worktree : WorktreeId) : Projection :=
  { p with roots := Table.erase p.roots worktree }

def withView (p : Projection) (view : PaneView) : Projection :=
  { p with panes := Table.set p.panes view.pane view }

/-- A pane that moves to another worktree starts from an empty view. -/
def rebound (p : Projection) (pane : PaneId) (worktree : WorktreeId) (cwd : Option Path) :
    PaneView :=
  match p.view? pane with
  | some view =>
    if view.worktree = worktree then { view with cwd }
    else { PaneView.empty pane worktree with cwd }
  | none => { PaneView.empty pane worktree with cwd }

def bind (p : Projection) (pane : PaneId) (worktree : WorktreeId) (cwd : Option Path) :
    Projection :=
  (p.withView (p.rebound pane worktree cwd)).record pane .binding

def unbind (p : Projection) (pane : PaneId) : Projection × Option PaneView :=
  match p.view? pane with
  | none => (p, none)
  | some view => ({ p with panes := Table.erase p.panes pane }.record pane .binding, some view)

def scope (p : Projection) (view : PaneView) : Scope :=
  match view.cwd with
  | none => .whole
  | some cwd =>
    if !cwd.isAbsolute then (if cwd.text.isEmpty then .whole else .subtree cwd)
    else
      match (Table.get? p.roots view.worktree).bind cwd.stripAbsolute? with
      | none => .unresolved
      | some rel => if rel.text.isEmpty then .whole else .subtree rel

inductive ViewChange where
  | stale
  | unchanged (view : PaneView)
  | changed (view : PaneView) (kind : ChangeKind)
  deriving DecidableEq

def seeChangeset (scope : Scope) (view : PaneView) (cs : Changeset) : ViewChange :=
  if cs.batchSeq ≤ view.lastBatchSeq then .stale
  else
    let fresh := view.fresh || cs.part ≤ 1
    let visible := PathSet.ofList (cs.paths.filter scope.admits)
    let view := { view with lastBatchSeq := cs.batchSeq, fresh }
    if visible.isEmpty then .unchanged view
    else
      .changed { view with
        fresh := false
        changed := if fresh then visible else view.changed.insertAll visible } .files

def see (scope : Scope) (view : PaneView) : FilesystemEvent → ViewChange
  | .filesChanged cs => seeChangeset scope view cs
  | .gitStatusChanged _ counts =>
    if view.status = some counts then .unchanged view
    else .changed { view with status := some counts } .status
  | .branchChanged _ branch =>
    if view.branch = branch then .unchanged view else .changed { view with branch } .branch

def applyTo (p : Projection) (view : PaneView) (event : FilesystemEvent) (now : Nat) :
    Projection × ApplyResult :=
  match see (p.scope view) view event with
  | .stale => (p, ⟨0, 1⟩)
  | .unchanged view => (p.withView view, ⟨0, 0⟩)
  | .changed view kind =>
    ((p.withView { view with updatedAt := now }).record view.pane kind, ⟨1, 0⟩)

def applyToAll (p : Projection) (event : FilesystemEvent) (now : Nat) :
    List PaneView → Projection × ApplyResult
  | [] => (p, ⟨0, 0⟩)
  | view :: rest =>
    let (p, r) := p.applyTo view event now
    let (p, rs) := applyToAll p event now rest
    (p, ⟨r.changed + rs.changed, r.stale + rs.stale⟩)

/-- Only what the filesystem source tells of a worktree counts. -/
def apply (p : Projection) (e : Envelope) : Projection × ApplyResult :=
  match e.source, e.worktree, e.event with
  | .system .filesystemWatcher, some worktree, .filesystem event =>
    p.applyToAll event e.timestamp (p.views.filter (·.worktree = worktree))
  | _, _, _ => (p, ⟨0, 0⟩)

end Projection

end Switchboard
