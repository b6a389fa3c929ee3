import Switchboard.Identity
import Switchboard.Path

/-!
# Directory trees

A tree holds directories, files and symbolic links. A path is resolved component by component:
a link is followed before the components behind it, so a step up leads to the parent of the
place reached, not of the place written. Nothing but a directory may have something behind it,
not even a slash. A name beyond a certain length is refused by the directory it is looked for in.
-/
namespace Switchboard

inductive FileError where
  | notFound
  | notADirectory
  | tooManyLinks
  | nameTooLong
  | nulByte
  deriving DecidableEq

def FileError.message : FileError → String
  | .notFound => "No such file or directory (os error 2)"
  | .notADirectory => "Not a directory (os error 20)"
  | .tooManyLinks => "Too many levels of symbolic links (os error 40)"
  | .nameTooLong => "File name too long (os error 36)"
  | .nulByte => "file name contained an unexpected NUL byte"

inductive RootError where
  | canonicalize (path : Path) (cause : FileError)
  | notADirectory (path : Path)
  | duplicateWorktree (worktree : WorktreeId)
  | duplicatePath (path : Path) (existing : WorktreeId)
  | notRegistered (worktree : WorktreeId)
  deriving DecidableEq

def RootError.message : RootError → String
  | .canonicalize path cause => "failed to canonicalize " ++ path.display ++ ": " ++ cause.message
  | .notADirectory path => "root path " ++ path.display ++ " is not a directory"
  | .duplicateWorktree worktree => "worktree " ++ worktree.name ++ " is already registered"
  | .duplicatePath path existing =>
    "root " ++ path.display ++ " is already registered as worktree " ++ existing.name
  | .notRegistered worktree => "worktree " ++ worktree.name ++ " is not registered"

inductive Node where
  | dir
  | file
  | link (target : Path)
  deriving DecidableEq

abbrev Place := List RawText

structure Tree where
  entries : List (Place × Node)
  deriving DecidableEq

namespace Tree

open RawText (slash dot)

def empty : Tree := ⟨[]⟩

def node? (t : Tree) : Place → Option Node
  | [] => some .dir
  | place => (t.entries.find? (·.1 = place)).map (·.2)

def add (t : Tree) (place : Place) (node : Node) : Tree :=
  ⟨t.entries.filter (·.1 ≠ place) ++ [(place, node)]⟩

inductive Step where
  | stay
  | up
  | down (name : RawText)
  deriving DecidableEq

def step? (part : RawText) : Option Step :=
  if part = [] then none
  else if part = [dot] then some .stay
  else if part = [dot, dot] then some .up
  else some (.down part)

/-- The steps that a path asks for; a slash at its end asks to stay, which takes a directory. -/
def steps (p : Path) : List Step :=
  (Path.segments p.text).filterMap step? ++ if p.endsInSlash then [.stay] else []

def nameLimit : Nat := 255

def walk (t : Tree) (links : Nat) (place : Place) (todo : List Step) : Except FileError Place :=
  match todo with
  | [] => .ok place
  | .stay :: rest => walk t links place rest
  | .up :: rest => walk t links place.tail rest
  | .down name :: rest =>
    if nameLimit < name.length then .error .nameTooLong
    else
      match t.node? (name :: place) with
      | none => .error .notFound
      | some .dir => walk t links (name :: place) rest
      | some .file => if rest.isEmpty then .ok (name :: place) else .error .notADirectory
      | some (.link target) =>
        match links with
        | 0 => .error .tooManyLinks
        | links + 1 =>
          walk t links (if target.isAbsolute then [] else place) (steps target ++ rest)
termination_by (links, todo.length)

def linkLimit : Nat := 40

def pathOf (place : Place) : Path := ⟨slash :: [slash].intercalate place.reverse⟩

def resolve (t : Tree) (p : Path) : Except FileError Place :=
  if p.text.contains 0 then .error .nulByte
  else if p.isAbsolute then t.walk linkLimit [] (steps p)
  else empty.walk linkLimit [] (steps p) >>= fun _ => .error .notFound

def canonicalize (t : Tree) (p : Path) : Except FileError Path := (t.resolve p).map pathOf

def canonicalizeRoot (t : Tree) (p : Path) : Except RootError Path :=
  match t.resolve p with
  | .error e => .error (.canonicalize p e)
  | .ok place =>
    if t.node? place = some .dir then .ok (pathOf place) else .error (.notADirectory (pathOf place))

/-- Resolves the longest front of a path that exists; the components come last one first, and
`tail` holds the names behind them. -/
def ascend (t : Tree) (fallback : Path) (components : List Component) (tail : List RawText) :
    Path :=
  match t.canonicalize (Path.ofComponents components.reverse) with
  | .ok resolved => tail.foldl (fun p name => p.join ⟨name⟩) resolved
  | .error _ =>
    match components with
    | .name s :: rest => ascend t fallback rest (s :: tail)
    | _ => fallback
termination_by components.length

/-- Resolves a path that need not exist any more: what exists of its normal form is resolved,
and the rest is put behind it. -/
def canonicalizeChanged (t : Tree) (p : Path) : Path :=
  let normal := p.normalize
  t.ascend normal normal.components.reverse []

def makeDirs (t : Tree) (place : Place) : List Step → Tree × Place
  | [] => (t, place)
  | .stay :: rest => makeDirs t place rest
  | .up :: rest => makeDirs t place.tail rest
  | .down name :: rest =>
    match t.walk linkLimit place [.down name] with
    | .ok next => makeDirs t next rest
    | .error _ => makeDirs (t.add (name :: place) .dir) (name :: place) rest

def makeDir (t : Tree) (p : Path) : Tree := (t.makeDirs [] (steps p)).1

def place (t : Tree) (p : Path) (node : Node) : Tree :=
  match (steps p).reverse with
  | .down name :: above =>
    let (t, parent) := t.makeDirs [] above.reverse
    t.add (name :: parent) node
  | _ => t

end Tree

end Switchboard
