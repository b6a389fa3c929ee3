import Switchboard.Text.Basic
import Switchboard.Toml.Value

/-!
# Numbers of TOML

Digits may be set apart by single underscores. A whole number has to fit 64 bits with a sign; a
number with a fraction or an exponent must not be too large for 64 bits of floating point.
-/
namespace Switchboard.Toml

open Text (hexDigit? valueIn isInfinite lexeme)

def moreDigits? (isDigit : Char → Bool) : List Char → Option (List Char × List Char)
  | [] => some ([], [])
  | '_' :: c :: rest =>
    if isDigit c then (moreDigits? isDigit rest).map fun (ds, rest) => (c :: ds, rest) else none
  | c :: rest =>
    if isDigit c then (moreDigits? isDigit rest).map fun (ds, rest) => (c :: ds, rest)
    else if c = '_' then none
    else some ([], c :: rest)

def digits? (isDigit : Char → Bool) : List Char → Option (List Char × List Char)
  | c :: rest =>
    if isDigit c then (moreDigits? isDigit rest).map fun (ds, rest) => (c :: ds, rest) else none
  | [] => none

def sign : List Char → Bool × List Char
  | '-' :: rest => (true, rest)
  | '+' :: rest => (false, rest)
  | cs => (false, cs)

def decimalDigits? : List Char → Option (List Char × List Char)
  | '0' :: rest => some (['0'], rest)
  | cs => digits? Char.isDigit cs

def whole? (n : Int) : Option Toml :=
  if -0x8000000000000000 ≤ n ∧ n < 0x8000000000000000 then some (.int n) else none

def based? (base : Nat) (isDigit : Char → Bool) (cs : List Char) : Option (Toml × List Char) := do
  let (ds, rest) ← digits? isDigit cs
  some (← whole? (valueIn base ds), rest)

def integer? : List Char → Option (Toml × List Char)
  | '0' :: 'x' :: rest => based? 16 (fun c => (hexDigit? c).isSome) rest
  | '0' :: 'o' :: rest => based? 8 (fun c => '0' ≤ c && c ≤ '7') rest
  | '0' :: 'b' :: rest => based? 2 (fun c => c = '0' || c = '1') rest
  | cs => do
    let (negative, cs) := sign cs
    let (ds, rest) ← decimalDigits? cs
    let n := valueIn 10 ds
    some (← whole? (if negative then -(n : Int) else n), rest)

def fraction? : List Char → Option (List Char × List Char)
  | '.' :: rest => digits? Char.isDigit rest
  | cs => some ([], cs)

def exponent? : List Char → Option (Int × List Char)
  | c :: rest =>
    if c = 'e' || c = 'E' then do
      let (negative, rest) := sign rest
      let (ds, rest) ← digits? Char.isDigit rest
      let n := valueIn 10 ds
      some (if negative then -(n : Int) else n, rest)
    else some (0, c :: rest)
  | [] => some (0, [])

def float? (cs : List Char) : Option (Toml × List Char) := do
  let (negative, unsigned) := sign cs
  match unsigned with
  | 'i' :: 'n' :: 'f' :: rest => some (.float (lexeme cs rest), rest)
  | 'n' :: 'a' :: 'n' :: rest => some (.float (lexeme cs rest), rest)
  | _ =>
    let (ds, behind) ← decimalDigits? unsigned
    let (fraction, rest) ← fraction? behind
    let (exponent, rest) ← exponent? rest
    if rest.length = behind.length then none
    else if !negative && isInfinite (ds ++ fraction) (exponent - fraction.length) then none
    else some (.float (lexeme cs rest), rest)

end Switchboard.Toml
