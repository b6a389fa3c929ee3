import Switchboard.Command
import Switchboard.Event
import Switchboard.Json

/-!
# The written form of values

Every value has one written form. Reading is wider: members may come in any order, unknown
members are skipped, and an optional member may be left out or `null`. The members of a record
that tells its own kind are held until the kind is known.
-/
namespace Switchboard

open Json (Fields)

def constant? (reading : Json.Reading) (name : α → String) (all : List α) (v : Json) :
    Option α := do
  let s ← v.name? reading
  all.find? (name · == s)

def nestingLimit : Nat := 127

/-- How deep a content may be: it lies in an envelope, beside its tag. -/
def contentRoom : Nat := nestingLimit - 2

def uint8? (v : Json) : Option UInt8 := (v.below? UInt8.size).map UInt8.ofNat

def uint16? (v : Json) : Option UInt16 := (v.below? UInt16.size).map UInt16.ofNat

def uint32? (v : Json) : Option UInt32 := (v.below? UInt32.size).map UInt32.ofNat

def int32? (v : Json) : Option Int32 := do
  let i ← v.int?
  if Int32.minValue.toInt ≤ i ∧ i ≤ Int32.maxValue.toInt then some (Int32.ofInt i) else none

/-- A path that is not UTF-8 is not written. -/
def Path.toJson? (p : Path) : Option Json := p.text.text?.map .str

def Path.ofJson? (v : Json) : Option Path := v.text?.map fun s => ⟨RawText.ofString s⟩

def PaneId.toJson (id : PaneId) : Json := .str id.name

def PaneId.ofJson? (v : Json) : Option PaneId := v.text?.map PaneId.mk

def WorktreeId.toJson (id : WorktreeId) : Json := .str id.name

def WorktreeId.ofJson? (v : Json) : Option WorktreeId := v.text?.map WorktreeId.mk

def CommandId.toJson (id : CommandId) : Json := .str id.name

def CommandId.ofJson? (v : Json) : Option CommandId := v.text?.map CommandId.mk

def CorrelationId.toJson (id : CorrelationId) : Json := .str id.name

def CorrelationId.ofJson? (v : Json) : Option CorrelationId := v.text?.map CorrelationId.mk

namespace Source

def toJson : Source → Json
  | .pane id => .obj [("kind", .str "pane"), ("id", id.toJson)]
  | .system s => .obj [("kind", .str "system"), ("id", .str s.name)]

def ofJson? (v : Json) : Option Source := do
  let p ← v.pair? "kind" "id" contentRoom
  match p.tag with
  | "pane" => (PaneId.ofJson? p.content).map .pane
  | "system" => (constant? p.reading SystemSource.name SystemSource.all p.content).map .system
  | _ => none

end Source

def LifecycleState.ofJson? (reading : Json.Reading) : Json → Option LifecycleState :=
  constant? reading LifecycleState.name LifecycleState.all

namespace Metadata

def toJson? (m : Metadata) : Option Json := do
  some (.obj [("title", .ofOption .str m.title), ("cwd", ← Json.ofOption? Path.toJson? m.cwd),
    ("worktree_id", .ofOption WorktreeId.toJson m.worktree), ("group", .ofOption .str m.group)])

def ofJson? (v : Json) : Option Metadata := do
  let f ← v.fields? 4
  some {
    title := ← f.optional? 0 "title" Json.text?
    cwd := ← f.optional? 1 "cwd" Path.ofJson?
    worktree := ← f.optional? 2 "worktree_id" WorktreeId.ofJson?
    group := ← f.optional? 3 "group" Json.text? }

end Metadata

namespace MetadataPatch

def toJson? (p : MetadataPatch) : Option Json := do
  some (.obj [("title", .ofOption .str p.title), ("cwd", ← Json.ofOption? Path.toJson? p.cwd),
    ("worktree_id", .ofOption WorktreeId.toJson p.worktree), ("group", .ofOption .str p.group),
    ("clear", .ofList (fun f => .str f.name) p.clear)])

def ofJson? (reading : Json.Reading) (v : Json) : Option MetadataPatch := do
  let f ← v.fields? 5
  some {
    title := ← f.optional? 0 "title" Json.text?
    cwd := ← f.optional? 1 "cwd" Path.ofJson?
    worktree := ← f.optional? 2 "worktree_id" WorktreeId.ofJson?
    group := ← f.optional? 3 "group" Json.text?
    clear := ← f.defaulted? 4 "clear"
      (Json.list? (constant? reading MetadataField.name MetadataField.all)) [] }

end MetadataPatch

def variant (kind : String) (fields : List (String × Json)) : Json :=
  .obj (("type", .str kind) :: fields)

structure Kind (α : Type) where
  name : String
  count : Nat
  ofFields? : Fields → Option α

/-- The kind that a tag tells by its name, or in a held record by its place. -/
def Kind.ofTag? (kinds : List (Kind α)) : Json.Reading → Json → Option (Kind α)
  | _, .str name => kinds.find? (·.name = name)
  | .held, .int (.ofNat place) => kinds[place]?
  | _, _ => none

def ofKinds? (kinds : List (Kind α)) (reading : Json.Reading) (v : Json) : Option α := do
  let (tag, f) ← v.tagged?
  let kind ← Kind.ofTag? kinds reading tag
  if v.isHoldable contentRoom && f.fits kind.count then kind.ofFields? f else none

def inDomain (domain content : String) (v : Json) : Json :=
  .obj [("domain", .str domain), (content, v)]

def member (name : String) (encode : α → Json) : Option α → List (String × Json)
  | none => []
  | some a => [(name, encode a)]

end Switchboard
