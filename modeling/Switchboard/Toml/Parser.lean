import Switchboard.Toml.Moment
import Switchboard.Toml.Text

/-!
# Reading TOML

Lines define members of the table that was opened last. Values may lie in each other only so
deep, and dotted keys may be only so long. A name is never defined twice.
-/
namespace Switchboard.Toml

/-- How deep values may lie in each other, and how long a dotted key may be. -/
def depthLimit : Nat := 79

def isBareKeyChar (c : Char) : Bool := c.isAlphanum || c = '-' || c = '_'

def simpleKey? (cs : List Char) : Option (String × List Char) :=
  match cs with
  | '"' :: _ => shortString? cs
  | '\'' :: _ => shortString? cs
  | cs =>
    let (name, rest) := cs.span isBareKeyChar
    if name.isEmpty then none else some (String.ofList name, rest)

def key? : Nat → List Char → Option (List String × List Char)
  | 0, _ => none
  | count + 1, cs => do
    let (name, rest) ← simpleKey? (skipBlank cs)
    match skipBlank rest with
    | '.' :: rest => do
      let (names, rest) ← key? count rest
      some (name :: names, rest)
    | rest => some ([name], rest)

def keyValue? (value? : List Char → Option (Toml × List Char)) (cs : List Char) :
    Option ((List String × String × Toml) × List Char) := do
  let (names, rest) ← key? depthLimit cs
  let (v, rest) ← value? (skipBlank (← char? '=' rest))
  some ((names.dropLast, ← names.getLast?, v), rest)

def skipFiller : Nat → List Char → List Char
  | 0, cs => cs
  | fuel + 1, cs =>
    match skipLines cs with
    | '#' :: rest => skipFiller fuel (rest.dropWhile isTextChar)
    | cs => cs

def items? (value? : List Char → Option (Toml × List Char)) :
    Nat → List Char → Option (List Toml × List Char)
  | 0, _ => none
  | fuel + 1, cs =>
    match skipFiller cs.length cs with
    | ']' :: rest => some ([], rest)
    | cs => do
      let (v, rest) ← value? cs
      match skipFiller rest.length rest with
      | ',' :: rest =>
        let (vs, rest) ← items? value? fuel rest
        some (v :: vs, rest)
      | ']' :: rest => some ([v], rest)
      | _ => none

def members? (value? : List Char → Option (Toml × List Char)) :
    Nat → Members → List Char → Option (Members × List Char)
  | 0, _, _ => none
  | fuel + 1, ms, cs => do
    let ((path, name, v), rest) ← keyValue? value? cs
    let ms ← insert? path name v ms
    match skipBlank rest with
    | ',' :: rest => members? value? fuel ms rest
    | '\x7d' :: rest => some (ms, rest)
    | _ => none

def inlineTable? (value? : List Char → Option (Toml × List Char)) (cs : List Char) :
    Option (Members × List Char) :=
  match skipBlank cs with
  | '\x7d' :: rest => some ([], rest)
  | cs => members? value? (cs.length + 1) [] cs

def number? (cs : List Char) : Option (Toml × List Char) :=
  (moment? cs).or ((float? cs).or (integer? cs))

def scalar? : List Char → Option (Toml × List Char)
  | '"' :: rest => (string? ('"' :: rest)).map fun (s, rest) => (.str s, rest)
  | '\'' :: rest => (string? ('\'' :: rest)).map fun (s, rest) => (.str s, rest)
  | 't' :: 'r' :: 'u' :: 'e' :: rest => some (.bool true, rest)
  | 'f' :: 'a' :: 'l' :: 's' :: 'e' :: rest => some (.bool false, rest)
  | cs => number? cs

def value? : Nat → List Char → Option (Toml × List Char)
  | 0, cs => scalar? cs
  | depth + 1, cs =>
    match cs with
    | '[' :: rest => do
      let (vs, rest) ← items? (value? depth) (rest.length + 1) rest
      some (.array vs, rest)
    | '\x7b' :: rest => do
      let (ms, rest) ← inlineTable? (value? depth) rest
      some (.table .inline ms, rest)
    | cs => scalar? cs

/-- A document while it is read: all tables, and the way to the open one. -/
structure Document where
  root : Members
  current : List String

namespace Document

def empty : Document := ⟨[], []⟩

def insert? (d : Document) (path : List String) (name : String) (v : Toml) : Option Document := do
  some { d with root := ← within? (Toml.insert? path name v) d.current d.root }

def open? (d : Document) (opening : Option Toml → Option Toml) (path : List String) :
    Option Document := do
  some ⟨← openHeader? opening path d.root, path⟩

end Document

def line? (d : Document) : List Char → Option (Document × List Char)
  | '#' :: rest => do some (d, ← lineEnd? (skipComment ('#' :: rest)))
  | '[' :: '[' :: rest => do
    let (path, rest) ← key? depthLimit rest
    some (← d.open? extend path, ← restOfLine? (← char? ']' (← char? ']' rest)))
  | '[' :: rest => do
    let (path, rest) ← key? depthLimit rest
    some (← d.open? define path, ← restOfLine? (← char? ']' rest))
  | cs =>
    match newline? cs with
    | some rest => some (d, rest)
    | none => do
      let ((path, name, v), rest) ← keyValue? (value? depthLimit) cs
      some (← d.insert? path name v, ← restOfLine? rest)

def lines? : Nat → Document → List Char → Option Document
  | 0, _, _ => none
  | fuel + 1, d, cs =>
    match skipBlank cs with
    | [] => some d
    | cs => do
      let (d, rest) ← line? d cs
      lines? fuel d rest

def parse? (text : String) : Option Members := do
  let cs := match text.toList with
    | '\uFEFF' :: rest => rest
    | cs => cs
  some (← lines? (cs.length + 1) .empty cs).root

end Switchboard.Toml
