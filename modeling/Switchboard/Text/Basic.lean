/-!
# Blanks, lines and numerals

Blank are the characters of the white space property, so the no-break space and the line
separator count and the zero width space does not. A line ends at a line feed; one carriage
return right before it belongs to the end. A last line without a line feed keeps its carriage
return, and there is no empty last line. Digits have a value in a base, and some decimal numbers
lie beyond 64 bits of floating point.
-/
namespace Switchboard.Text

def isBlank (c : Char) : Bool :=
  (0x9 ≤ c.toNat && c.toNat ≤ 0xD) || c.toNat == 0x20 || c.toNat == 0x85 || c.toNat == 0xA0
    || c.toNat == 0x1680 || (0x2000 ≤ c.toNat && c.toNat ≤ 0x200A) || c.toNat == 0x2028
    || c.toNat == 0x2029 || c.toNat == 0x202F || c.toNat == 0x205F || c.toNat == 0x3000

def dropTrailing (p : Char → Bool) (cs : List Char) : List Char :=
  (cs.reverse.dropWhile p).reverse

def trimChars (cs : List Char) : List Char := dropTrailing isBlank (cs.dropWhile isBlank)

def trim (s : String) : String := String.ofList (trimChars s.toList)

def dropReturn (line : List Char) : List Char :=
  match line.reverse with
  | '\r' :: rest => rest.reverse
  | _ => line

def linesFrom (current : List Char) : List Char → List (List Char)
  | [] => if current.isEmpty then [] else [current.reverse]
  | '\n' :: rest => dropReturn current.reverse :: linesFrom [] rest
  | c :: rest => linesFrom (c :: current) rest

def lines (cs : List Char) : List (List Char) := linesFrom [] cs

def hexDigit? (c : Char) : Option Nat :=
  if '0' ≤ c ∧ c ≤ '9' then some (c.toNat - '0'.toNat)
  else if 'a' ≤ c ∧ c ≤ 'f' then some (c.toNat - 'a'.toNat + 10)
  else if 'A' ≤ c ∧ c ≤ 'F' then some (c.toNat - 'A'.toNat + 10)
  else none

def valueIn (base : Nat) (ds : List Char) : Nat :=
  ds.foldl (fun n d => n * base + (hexDigit? d).getD 0) 0

/-- The least number that rounds to no finite one: half a step above the largest. -/
def infinityBound : Nat := Nat.pow 2 1024 - Nat.pow 2 970

def isInfinite (ds : List Char) (exponent : Int) : Bool :=
  let ds := ds.dropWhile (· = '0')
  let places : Int := ds.length + exponent
  if ds.isEmpty || places < 300 then false
  else if 400 < places then true
  else
    match exponent with
    | .ofNat e => infinityBound ≤ valueIn 10 ds * Nat.pow 10 e
    | .negSucc e => infinityBound * Nat.pow 10 (e + 1) ≤ valueIn 10 ds

def lexeme (cs rest : List Char) : String := String.ofList (cs.take (cs.length - rest.length))

end Switchboard.Text
