/-!
# JSON values

A number written as plain digits is a whole number; any other spelling of a number is kept
as text, so that `7` and `7.0` stay apart. An object is the list of its members as written,
repeated names included: whoever reads a record decides what a repetition means.

What a record's reader does not ask for is skipped, and need not stand for anything. A content
that comes before the tag it belongs to cannot be skipped: it is held until the tag is known, so
all of it has to be readable, and it may say some things in another way.

Values are written in the compact form: no blanks, members in their order, and only quotes,
backslashes and control characters escaped. What stands for nothing is written as half of a
surrogate pair.
-/
namespace Switchboard

inductive Json where
  | null
  | bool (value : Bool)
  | int (value : Int)
  | decimal (text : String)
  | str (text : String)
  | arr (items : List Json)
  | obj (members : List (String × Json))
  /-- What is written well and stands for nothing: a text with half of a surrogate pair, an
  object with such a name, a number beyond 64 bits of floating point. -/
  | unreadable

namespace Json

mutual

def depth? : Json → Option Nat
  | .arr items => (depthOfItems? items).map (· + 1)
  | .obj members => (depthOfMembers? members).map (· + 1)
  | .unreadable => none
  | _ => some 0

def depthOfItems? : List Json → Option Nat
  | [] => some 0
  | v :: vs => do some (max (← depth? v) (← depthOfItems? vs))

def depthOfMembers? : List (String × Json) → Option Nat
  | [] => some 0
  | (_, v) :: ms => do some (max (← depth? v) (← depthOfMembers? ms))

end

/-- Whether a value can be held: all of it is readable, and containers lie no more than `room`
deep in one another. -/
def isHoldable (room : Nat) (v : Json) : Bool := v.depth?.any (· ≤ room)

def nat (n : Nat) : Json := .int n

def ofOption (encode : α → Json) : Option α → Json
  | none => .null
  | some a => encode a

def ofList (encode : α → Json) (items : List α) : Json := .arr (items.map encode)

def ofOption? (encode : α → Option Json) : Option α → Option Json
  | none => some .null
  | some a => encode a

def ofList? (encode : α → Option Json) (items : List α) : Option Json :=
  (items.mapM encode).map .arr

def strings (items : List String) : Json := ofList .str items

def int? : Json → Option Int
  | .int i => some i
  | _ => none

def below? (bound : Nat) : Json → Option Nat
  | .int (.ofNat n) => if n < bound then some n else none
  | _ => none

def nat64? : Json → Option Nat := below? UInt64.size

def nat32? : Json → Option Nat := below? UInt32.size

def text? : Json → Option String
  | .str s => some s
  | _ => none

def bool? : Json → Option Bool
  | .bool b => some b
  | _ => none

def list? (decode : Json → Option α) : Json → Option (List α)
  | .arr items => items.mapM decode
  | _ => none

def nullable? (decode : Json → Option α) : Json → Option (Option α)
  | .null => some none
  | v => (decode v).map some

/-- How a value comes to its reader: from where it stands, or held until its tag was known. -/
inductive Reading where
  | inPlace
  | held
  deriving DecidableEq

/-- The name of a constant: the bare name, or an object that pairs the name with `null`. A held
name may also be paired with an empty object. -/
def name? (reading : Reading) : Json → Option String
  | .str s => some s
  | .obj [(s, .null)] => some s
  | .obj [(s, .obj [])] => if reading = .held then some s else none
  | _ => none

inductive Fields where
  | named (members : List (String × Json))
  | listed (items : List Json)

namespace Fields

def member? (members : List (String × Json)) (name : String) : Option (Option Json) :=
  match members.filter (·.1 = name) with
  | [] => some none
  | [m] => some (some m.2)
  | _ => none

def required? (fields : Fields) (position : Nat) (name : String) (decode : Json → Option α) :
    Option α :=
  match fields with
  | .named members => do decode (← (← member? members name))
  | .listed items => do decode (← items[position]?)

def optional? (fields : Fields) (position : Nat) (name : String) (decode : Json → Option α) :
    Option (Option α) :=
  match fields with
  | .named members => do
    match ← member? members name with
    | none => some none
    | some v => nullable? decode v
  | .listed items => do nullable? decode (← items[position]?)

def defaulted? (fields : Fields) (position : Nat) (name : String) (decode : Json → Option α)
    (fallback : α) : Option α :=
  match fields with
  | .named members => do
    match ← member? members name with
    | none => some fallback
    | some v => decode v
  | .listed items =>
    match items[position]? with
    | none => some fallback
    | some v => decode v

def fits (count : Nat) : Fields → Bool
  | .named _ => true
  | .listed items => items.length ≤ count

end Fields

def fields? (count : Nat) : Json → Option Fields
  | .obj members => some (.named members)
  | .arr items => if items.length ≤ count then some (.listed items) else none
  | _ => none

def tagged? : Json → Option (Json × Fields)
  | .obj members => do
    let tag ← (← Fields.member? members "type")
    some (tag, .named (members.filter (·.1 ≠ "type")))
  | .arr (tag :: items) => some (tag, .listed items)
  | _ => none

structure TaggedContent where
  tag : String
  reading : Reading
  content : Json

def Fields.readingOf (tagName contentName : String) : Fields → Reading
  | .named members =>
    match members.find? fun (name, _) => name = tagName || name = contentName with
    | some (name, _) => if name = contentName then .held else .inPlace
    | none => .inPlace
  | .listed _ => .inPlace

def pair? (tagName contentName : String) (room : Nat) (v : Json) : Option TaggedContent := do
  let fields ← v.fields? 2
  let tag ← fields.required? 0 tagName (name? .inPlace)
  let content ← fields.required? 1 contentName some
  let reading := fields.readingOf tagName contentName
  if reading = .held && !content.isHoldable room then none else some ⟨tag, reading, content⟩

def hexDigits (n : Nat) : String :=
  String.ofList [Nat.digitChar (n / 16), Nat.digitChar (n % 16)]

def escapeChar (c : Char) : String :=
  if c = '"' then "\\\""
  else if c = '\\' then "\\\\"
  else if c.toNat < 0x20 then "\\u00" ++ hexDigits c.toNat
  else c.toString

def quote (s : String) : String :=
  "\"" ++ s.foldl (fun out c => out ++ escapeChar c) "" ++ "\""

mutual

def render : Json → String
  | .null => "null"
  | .bool true => "true"
  | .bool false => "false"
  | .int i => toString i
  | .decimal text => text
  | .str s => quote s
  | .arr items => "[" ++ String.intercalate "," (renderItems items) ++ "]"
  | .obj members => "\x7b" ++ String.intercalate "," (renderMembers members) ++ "\x7d"
  | .unreadable => "\"\\ud800\""

def renderItems : List Json → List String
  | [] => []
  | v :: vs => render v :: renderItems vs

def renderMembers : List (String × Json) → List String
  | [] => []
  | (name, v) :: ms => (quote name ++ ":" ++ render v) :: renderMembers ms

end

end Json

end Switchboard
