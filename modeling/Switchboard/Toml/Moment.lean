import Switchboard.Toml.Number

/-!
# Moments of TOML

A date, a time of day, or both, then possibly with an offset. Every part has to exist in the
calendar and on the clock; a minute may have a leap second.
-/
namespace Switchboard.Toml

open Text (valueIn lexeme)

def fixed? (count low high : Nat) (cs : List Char) : Option (Nat × List Char) :=
  let ds := cs.take count
  let n := valueIn 10 ds
  if ds.length = count && ds.all Char.isDigit && low ≤ n && n ≤ high then some (n, cs.drop count)
  else none

def char? (c : Char) : List Char → Option (List Char)
  | d :: rest => if d = c then some rest else none
  | [] => none

def isLeapYear (year : Nat) : Bool := year % 4 = 0 && (year % 100 ≠ 0 || year % 400 = 0)

def daysIn (year month : Nat) : Nat :=
  if month = 2 then (if isLeapYear year then 29 else 28)
  else if month = 4 || month = 6 || month = 9 || month = 11 then 30
  else 31

def date? (cs : List Char) : Option (List Char) := do
  let (year, rest) ← fixed? 4 0 9999 cs
  let (month, rest) ← fixed? 2 1 12 (← char? '-' rest)
  let (_, rest) ← fixed? 2 1 (daysIn year month) (← char? '-' rest)
  some rest

def secondFraction (cs : List Char) : List Char :=
  match cs with
  | '.' :: d :: rest => if d.isDigit then rest.dropWhile Char.isDigit else cs
  | cs => cs

def time? (cs : List Char) : Option (List Char) := do
  let (_, rest) ← fixed? 2 0 23 cs
  let (_, rest) ← fixed? 2 0 59 (← char? ':' rest)
  let (_, rest) ← fixed? 2 0 60 (← char? ':' rest)
  some (secondFraction rest)

def offset? : List Char → Option (List Char)
  | c :: rest =>
    if c = 'Z' || c = 'z' then some rest
    else if c = '+' || c = '-' then do
      let (_, rest) ← fixed? 2 0 23 rest
      let (_, rest) ← fixed? 2 0 59 (← char? ':' rest)
      some rest
    else none
  | [] => none

def timeOfDay? : List Char → Option (List Char)
  | c :: rest =>
    if c = 'T' || c = 't' || c = ' ' then do
      let rest ← time? rest
      some ((offset? rest).getD rest)
    else none
  | [] => none

def moment? (cs : List Char) : Option (Toml × List Char) := do
  let rest ← match date? cs with
    | some rest => some ((timeOfDay? rest).getD rest)
    | none => time? cs
  some (.moment (lexeme cs rest), rest)

end Switchboard.Toml
