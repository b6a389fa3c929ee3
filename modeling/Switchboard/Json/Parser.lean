import Switchboard.Json
import Switchboard.Text.Basic

/-!
# Reading JSON text

Each reader takes the characters still to be read and returns what it read with the rest.
Raw control characters are refused inside strings, and nothing but blanks may follow the value.
Half of a surrogate pair is no mistake in the text, but makes what it stands in unreadable; so
does a number that is too large for 64 bits of floating point.
-/
namespace Switchboard.Json.Parser

open Text (hexDigit? valueIn isInfinite lexeme)

def skipBlank (cs : List Char) : List Char :=
  cs.dropWhile fun c => c = ' ' || c = '\t' || c = '\n' || c = '\r'

def hexUnit? : List Char → Option (Nat × List Char)
  | a :: b :: c :: d :: rest => do
    let high := (← hexDigit? a) * 16 + (← hexDigit? b)
    let low := (← hexDigit? c) * 16 + (← hexDigit? d)
    some (high * 256 + low, rest)
  | _ => none

def isHighHalf (unit : Nat) : Bool := 0xD800 ≤ unit && unit < 0xDC00

def isLowHalf (unit : Nat) : Bool := 0xDC00 ≤ unit && unit < 0xE000

def lowHalf? : List Char → Option (Nat × List Char)
  | '\\' :: 'u' :: rest => do
    let (unit, rest) ← hexUnit? rest
    if isLowHalf unit then some (unit, rest) else none
  | _ => none

/-- What a `u` escape stands for: a character, written as one unit or as a pair of halves, or
nothing, if it is half of a pair. -/
def unicode? (cs : List Char) : Option (Option Char × List Char) := do
  let (unit, rest) ← hexUnit? cs
  if isHighHalf unit then
    match lowHalf? rest with
    | some (low, rest) =>
      some (some (Char.ofNat (0x10000 + (unit - 0xD800) * 0x400 + (low - 0xDC00))), rest)
    | none => some (none, rest)
  else if isLowHalf unit then some (none, rest)
  else some (some (Char.ofNat unit), rest)

def escape? : List Char → Option (Option Char × List Char)
  | '"' :: rest => some (some '"', rest)
  | '\\' :: rest => some (some '\\', rest)
  | '/' :: rest => some (some '/', rest)
  | 'b' :: rest => some (some '\x08', rest)
  | 'f' :: rest => some (some '\x0c', rest)
  | 'n' :: rest => some (some '\n', rest)
  | 'r' :: rest => some (some '\r', rest)
  | 't' :: rest => some (some '\t', rest)
  | 'u' :: rest => unicode? rest
  | _ => none

def stringTail? : Nat → Option (List Char) → List Char → Option (Option String × List Char)
  | 0, _, _ => none
  | fuel + 1, done, cs =>
    match cs with
    | [] => none
    | '"' :: rest => some (done.map fun cs => String.ofList cs.reverse, rest)
    | '\\' :: rest => do
      let (c, rest) ← escape? rest
      stringTail? fuel (do some ((← c) :: (← done))) rest
    | c :: rest =>
      if c.toNat < 0x20 then none else stringTail? fuel (done.map (c :: ·)) rest

def digits (cs : List Char) : List Char × List Char := cs.span Char.isDigit

def fraction? : List Char → Option (List Char × List Char)
  | '.' :: rest =>
    let (ds, rest) := digits rest
    if ds.isEmpty then none else some (ds, rest)
  | cs => some ([], cs)

def exponentSign : List Char → Bool × List Char
  | '+' :: rest => (false, rest)
  | '-' :: rest => (true, rest)
  | cs => (false, cs)

def exponent? : List Char → Option (Option Int × List Char)
  | c :: rest =>
    if c = 'e' || c = 'E' then
      let (negative, rest) := exponentSign rest
      let (ds, rest) := digits rest
      if ds.isEmpty then none
      else
        let n : Int := valueIn 10 ds
        some (some (if negative then -n else n), rest)
    else some (none, c :: rest)
  | [] => some (none, [])

def number? (cs : List Char) : Option (Json × List Char) := do
  let (negative, unsigned) := match cs with
    | '-' :: rest => (true, rest)
    | cs => (false, cs)
  let (ds, rest) ← match unsigned with
    | '0' :: rest => some (['0'], rest)
    | rest =>
      let (ds, rest) := digits rest
      if ds.isEmpty then none else some (ds, rest)
  let (fraction, rest) ← fraction? rest
  let (exponent, rest) ← exponent? rest
  let n : Int := valueIn 10 ds
  if isInfinite (ds ++ fraction) (exponent.getD 0 - fraction.length) then some (.unreadable, rest)
  else if fraction.isEmpty && exponent.isNone && !(negative && n == 0) then
    some (.int (if negative then -n else n), rest)
  else some (.decimal (lexeme cs rest), rest)

def word? (word : List Char) (cs : List Char) : Option (List Char) :=
  if word.isPrefixOf cs then some (cs.drop word.length) else none

mutual

def value? : Nat → List Char → Option (Json × List Char)
  | 0, _ => none
  | fuel + 1, cs =>
    match skipBlank cs with
    | [] => none
    | '"' :: rest => do
      let (s, rest) ← stringTail? fuel (some []) rest
      some (s.elim .unreadable .str, rest)
    | '[' :: rest =>
      match skipBlank rest with
      | ']' :: rest => some (.arr [], rest)
      | _ => do
        let (items, rest) ← items? fuel rest
        some (.arr items, rest)
    | '\x7b' :: rest =>
      match skipBlank rest with
      | '\x7d' :: rest => some (.obj [], rest)
      | _ => do
        let (members, rest) ← members? fuel rest
        some (members.elim .unreadable .obj, rest)
    | 'n' :: rest => do some (.null, ← word? ['u', 'l', 'l'] rest)
    | 't' :: rest => do some (.bool true, ← word? ['r', 'u', 'e'] rest)
    | 'f' :: rest => do some (.bool false, ← word? ['a', 'l', 's', 'e'] rest)
    | cs => number? cs

def items? : Nat → List Char → Option (List Json × List Char)
  | 0, _ => none
  | fuel + 1, cs => do
    let (v, rest) ← value? fuel cs
    match skipBlank rest with
    | ',' :: rest =>
      let (vs, rest) ← items? fuel rest
      some (v :: vs, rest)
    | ']' :: rest => some ([v], rest)
    | _ => none

def members? : Nat → List Char → Option (Option (List (String × Json)) × List Char)
  | 0, _ => none
  | fuel + 1, cs =>
    match skipBlank cs with
    | '"' :: rest => do
      let (name, rest) ← stringTail? fuel (some []) rest
      match skipBlank rest with
      | ':' :: rest =>
        let (v, rest) ← value? fuel rest
        match skipBlank rest with
        | ',' :: rest =>
          let (ms, rest) ← members? fuel rest
          some (do some ((← name, v) :: (← ms)), rest)
        | '\x7d' :: rest => some (name.map fun name => [(name, v)], rest)
        | _ => none
      | _ => none
    | _ => none

end

end Parser

/-- One JSON text. Every reader consumes a character between two steps of `fuel`. -/
def parse? (text : String) : Option Json := do
  let cs := text.toList
  let (v, rest) ← Parser.value? (2 * cs.length + 2) cs
  if (Parser.skipBlank rest).isEmpty then some v else none

end Switchboard.Json
