import Switchboard.Path
import Switchboard.Tree
import Switchboard.Table

/-!
# Registered roots

Roots may lie in each other. A path belongs to the deepest root above it, and a root to the
deepest root strictly above it. Only the registered roots themselves are kept; who is nested in
whom follows from them.
-/
namespace Switchboard

inductive ActivityTier where
  | activeInApp
  | sidebarOnly
  deriving DecidableEq

namespace ActivityTier

def all : List ActivityTier := [.activeInApp, .sidebarOnly]

def rank : ActivityTier → Nat
  | .activeInApp => 0
  | .sidebarOnly => 1

def name : ActivityTier → String
  | .activeInApp => "active_in_app"
  | .sidebarOnly => "sidebar_only"

end ActivityTier

structure Root where
  worktree : WorktreeId
  path : Path
  tier : ActivityTier
  key : List String
  deriving DecidableEq

structure RootTable where
  foldCase : Bool
  roots : Table WorktreeId Root
  deriving DecidableEq

namespace RootTable

def create (foldCase : Bool) : RootTable := ⟨foldCase, []⟩

def get? (t : RootTable) (worktree : WorktreeId) : Option Root := Table.get? t.roots worktree

def list (t : RootTable) : List Root := t.roots.map (·.2)

/-- Of several candidates the last one with the longest key. -/
def deepest (roots : List Root) : Option Root :=
  roots.foldl (fun best r =>
    match best with
    | none => some r
    | some b => if b.key.length ≤ r.key.length then some r else best) none

def above (t : RootTable) (key : List String) : List Root := t.list.filter (·.key.isPrefixOf key)

def parentOf (t : RootTable) (r : Root) : Option WorktreeId :=
  (deepest ((t.above r.key).filter (·.key.length < r.key.length))).map (·.worktree)

def nestedIn (t : RootTable) (worktree : WorktreeId) : List WorktreeId :=
  (t.list.filter fun r => t.parentOf r = some worktree).map (·.worktree)

def insert (t : RootTable) (worktree : WorktreeId) (path : Path) (tier : ActivityTier) :
    Except RootError RootTable :=
  if Table.contains t.roots worktree then .error (.duplicateWorktree worktree)
  else
    let key := path.key t.foldCase
    match t.list.find? (·.key = key) with
    | some existing => .error (.duplicatePath path existing.worktree)
    | none => .ok { t with roots := Table.set t.roots worktree ⟨worktree, path, tier, key⟩ }

def remove (t : RootTable) (worktree : WorktreeId) : Except RootError (RootTable × Root) :=
  match t.get? worktree with
  | none => .error (.notRegistered worktree)
  | some root => .ok ({ t with roots := Table.erase t.roots worktree }, root)

def setTier (t : RootTable) (worktree : WorktreeId) (tier : ActivityTier) :
    Except RootError RootTable :=
  match t.get? worktree with
  | none => .error (.notRegistered worktree)
  | some root => .ok { t with roots := Table.set t.roots worktree { root with tier } }

def ownerOf? (t : RootTable) (p : Path) : Option (Root × Path) :=
  (deepest (t.above (p.key t.foldCase))).map fun r => (r, p.dropKey r.key.length)

end RootTable

structure RootInfo where
  root : Root
  parent : Option WorktreeId
  nested : List WorktreeId
  deriving DecidableEq

namespace RootTable

def info (t : RootTable) (r : Root) : RootInfo := ⟨r, t.parentOf r, t.nestedIn r.worktree⟩

def info? (t : RootTable) (worktree : WorktreeId) : Option RootInfo := (t.get? worktree).map t.info

def infos (t : RootTable) : List RootInfo := t.list.map t.info

end RootTable

end Switchboard
