import Switchboard.Text.Casing
import Switchboard.Text.Utf8

/-!
# Paths

A path is any bytes and keeps its spelling, but what it names is its list of components: repeated
slashes and inner dots do not count, and a dot counts only at the start of a relative path. Paths
are compared, ordered and looked up by components. Normalizing takes the dots out without looking at
the disk: a step up removes the component before it, and is kept where there is none to remove. The
comparison key of a path holds its root and its names as they are shown, so names that are not UTF-8
can have one key.
-/
namespace Switchboard

inductive Component where
  | root
  | here
  | up
  | name (text : RawText)
  deriving DecidableEq

namespace Component

open RawText (slash dot)

def rank : Component → Nat
  | .root => 0
  | .here => 1
  | .up => 2
  | .name _ => 3

def cmp : Component → Component → Ordering
  | .name a, .name b => compare a b
  | a, b => compare a.rank b.rank

def text : Component → RawText
  | .root => [slash]
  | .here => [dot]
  | .up => [dot, dot]
  | .name s => s

def isRoot : Component → Bool
  | .root => true
  | _ => false

end Component

@[ext]
structure Path where
  text : RawText
  deriving DecidableEq

namespace Path

open RawText (slash dot)

def segments : RawText → List RawText
  | [] => [[]]
  | c :: cs =>
    if c = slash then [] :: segments cs
    else
      match segments cs with
      | [] => [[c]]
      | part :: parts => (c :: part) :: parts

def part? (part : RawText) : Option Component :=
  if part = [] ∨ part = [dot] then none
  else if part = [dot, dot] then some .up
  else some (.name part)

def parts (text : RawText) : List Component := (segments text).filterMap part?

def isAbsolute (p : Path) : Bool := p.text.head? == some slash

def components (p : Path) : List Component :=
  if p.isAbsolute then .root :: parts p.text
  else if (segments p.text).head? = some [dot] then .here :: parts p.text
  else parts p.text

def same (p q : Path) : Bool := p.components == q.components

theorem same_iff {p q : Path} : p.same q = true ↔ p.components = q.components := beq_iff_eq

theorem same_refl (p : Path) : p.same p = true := same_iff.mpr rfl

theorem same_symm {p q : Path} (h : p.same q = true) : q.same p = true :=
  same_iff.mpr (same_iff.mp h).symm

theorem same_trans {p q r : Path} (hpq : p.same q = true) (hqr : q.same r = true) :
    p.same r = true :=
  same_iff.mpr ((same_iff.mp hpq).trans (same_iff.mp hqr))

def cmp (p q : Path) : Ordering := List.compareLex Component.cmp p.components q.components

def display (p : Path) : String := p.text.lossy

def isText (p : Path) : Bool := p.text.text?.isSome

def endsInSlash (p : Path) : Bool := p.text.getLast? == some slash

def join (p q : Path) : Path :=
  if q.isAbsolute then q
  else if p.text.isEmpty || p.endsInSlash then ⟨p.text ++ q.text⟩
  else ⟨p.text ++ slash :: q.text⟩

def ofComponents (cs : List Component) : Path :=
  match cs with
  | .root :: rest => ⟨slash :: [slash].intercalate (rest.map Component.text)⟩
  | cs => ⟨[slash].intercalate (cs.map Component.text)⟩

def isBlankSegment (s : RawText) : Bool := (part? s).isNone

def dropSegments : Nat → List RawText → List RawText
  | 0, parts => parts
  | _, [] => []
  | count + 1, part :: parts =>
    if isBlankSegment part then dropSegments (count + 1) parts else dropSegments count parts

def trimEnd (parts : List RawText) : List RawText :=
  (parts.reverse.dropWhile isBlankSegment).reverse

/-- An absolute path seen from a path that begins it: slashes and dots at the ends are gone, the
spelling in between stays. -/
def stripAbsolute? (p base : Path) : Option Path :=
  if p.isAbsolute && base.components.isPrefixOf p.components then
    let inside := segments p.text.tail
    match base.components with
    | [] => some ⟨slash :: [slash].intercalate (trimEnd inside)⟩
    | _ :: names => some ⟨[slash].intercalate
        (trimEnd ((dropSegments names.length inside).dropWhile isBlankSegment))⟩
  else none

def startsWith (p q : Path) : Bool := q.components.isPrefixOf p.components

def canPop (out : List Component) : Bool :=
  match out.getLast? with
  | none => false
  | some c => !c.isRoot

def normalStep (out : List Component) : Component → List Component
  | .here => out
  | .up => if canPop out then out.dropLast else out ++ [.up]
  | c => out ++ [c]

def normalComponents (cs : List Component) : List Component := cs.foldl normalStep []

def normalize (p : Path) : Path := ofComponents (normalComponents p.components)

/-- The components that say where a path leads: its root and its names. -/
def isKeyComponent : Component → Bool
  | .root => true
  | .name _ => true
  | _ => false

def keyPart (foldCase : Bool) (c : Component) : String :=
  if foldCase then Text.lowercase c.text.lossy else c.text.lossy

def key (foldCase : Bool) (p : Path) : List String :=
  (p.components.filter isKeyComponent).map (keyPart foldCase)

def dropKey (count : Nat) (p : Path) : Path :=
  ofComponents ((p.components.filter isKeyComponent).drop count)

end Path

/-- Paths in order, no two with the same components. -/
abbrev PathSet := List Path

namespace PathSet

def insert (p : Path) : PathSet → PathSet
  | [] => [p]
  | q :: qs =>
    match p.cmp q with
    | .lt => p :: q :: qs
    | .eq => q :: qs
    | .gt => q :: insert p qs

/-- A path that is there already takes the new spelling. -/
def put (p : Path) : PathSet → PathSet
  | [] => [p]
  | q :: qs =>
    match p.cmp q with
    | .lt => p :: q :: qs
    | .eq => p :: qs
    | .gt => q :: put p qs

def ofList (ps : List Path) : PathSet := ps.foldl (fun set p => put p set) []

def insertAll (set : PathSet) (ps : List Path) : PathSet := ps.foldl (fun set p => insert p set) set

def contains (set : PathSet) (p : Path) : Bool := set.any p.same

def symmDiff (a b : PathSet) : PathSet :=
  insertAll (a.filter (!contains b ·)) (b.filter (!contains a ·))

end PathSet

end Switchboard
