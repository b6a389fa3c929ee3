import Switchboard.Identity
import Switchboard.Path

/-!
# What a pane says about itself

A patch clears fields first and sets fields afterwards. A field that is both cleared and set is
a conflict, which whoever sends the patch is told of.
-/
namespace Switchboard

structure Metadata where
  title : Option String
  cwd : Option Path
  worktree : Option WorktreeId
  group : Option String
  deriving DecidableEq

inductive MetadataField where
  | title
  | cwd
  | worktree
  | group
  deriving DecidableEq

namespace MetadataField

def all : List MetadataField := [.title, .cwd, .worktree, .group]

def name : MetadataField → String
  | .title => "title"
  | .cwd => "cwd"
  | .worktree => "worktree_id"
  | .group => "group"

def label : MetadataField → String
  | .title => "Title"
  | .cwd => "Cwd"
  | .worktree => "WorktreeId"
  | .group => "Group"

end MetadataField

namespace Metadata

def empty : Metadata := ⟨none, none, none, none⟩

def sameCwd : Option Path → Option Path → Bool
  | none, none => true
  | some p, some q => p.same q
  | _, _ => false

/-- Equality, directories being compared by components. -/
def same (a b : Metadata) : Bool :=
  a.title == b.title && sameCwd a.cwd b.cwd && a.worktree == b.worktree && a.group == b.group

def clear (m : Metadata) : MetadataField → Metadata
  | .title => { m with title := none }
  | .cwd => { m with cwd := none }
  | .worktree => { m with worktree := none }
  | .group => { m with group := none }

end Metadata

structure MetadataPatch where
  title : Option String
  cwd : Option Path
  worktree : Option WorktreeId
  group : Option String
  clear : List MetadataField
  deriving DecidableEq

namespace MetadataPatch

def isEmpty (p : MetadataPatch) : Bool :=
  p.title.isNone && p.cwd.isNone && p.worktree.isNone && p.group.isNone && p.clear.isEmpty

def sets (p : MetadataPatch) : MetadataField → Bool
  | .title => p.title.isSome
  | .cwd => p.cwd.isSome
  | .worktree => p.worktree.isSome
  | .group => p.group.isSome

def conflict? (p : MetadataPatch) : Option MetadataField := p.clear.find? p.sets

def apply (p : MetadataPatch) (m : Metadata) : Metadata :=
  let cleared := p.clear.foldl Metadata.clear m
  { title := p.title.or cleared.title
    cwd := p.cwd.or cleared.cwd
    worktree := p.worktree.or cleared.worktree
    group := p.group.or cleared.group }

def changes (p : MetadataPatch) (m : Metadata) : Bool := !(p.apply m).same m

end MetadataPatch

end Switchboard
