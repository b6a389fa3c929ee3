import Switchboard.Text.Basic

/-!
# Blanks, comments and strings of TOML

Each reader takes the characters still to be read, and returns what it read with the rest.
Strings come in four forms: with escapes or as they stand, on one line or on several. A form on
several lines ends at three quotes, of which up to two more may come before the last ones.
-/
namespace Switchboard.Toml

def isBlank (c : Char) : Bool := c = ' ' || c = '\t'

def skipBlank (cs : List Char) : List Char := cs.dropWhile isBlank

def newline? : List Char → Option (List Char)
  | '\n' :: rest => some rest
  | '\r' :: '\n' :: rest => some rest
  | _ => none

def isTextChar (c : Char) : Bool := c = '\t' || (0x20 ≤ c.toNat && c.toNat ≠ 0x7F)

def skipComment : List Char → List Char
  | '#' :: rest => rest.dropWhile isTextChar
  | cs => cs

def lineEnd? : List Char → Option (List Char)
  | [] => some []
  | cs => newline? cs

def restOfLine? (cs : List Char) : Option (List Char) := lineEnd? (skipComment (skipBlank cs))

def skipLines : List Char → List Char
  | '\r' :: '\n' :: rest => skipLines rest
  | c :: rest => if isBlank c || c = '\n' then skipLines rest else c :: rest
  | [] => []

def hexNumber? : Nat → Nat → List Char → Option (Nat × List Char)
  | 0, n, cs => some (n, cs)
  | count + 1, n, c :: cs => do hexNumber? count (n * 16 + (← Text.hexDigit? c)) cs
  | _ + 1, _, [] => none

def codePoint? (digits : Nat) (cs : List Char) : Option (Char × List Char) := do
  let (n, rest) ← hexNumber? digits 0 cs
  if n.isValidChar then some (Char.ofNat n, rest) else none

def escape? : List Char → Option (Char × List Char)
  | 'b' :: rest => some ('\x08', rest)
  | 't' :: rest => some ('\t', rest)
  | 'n' :: rest => some ('\n', rest)
  | 'f' :: rest => some ('\x0c', rest)
  | 'r' :: rest => some ('\r', rest)
  | '"' :: rest => some ('"', rest)
  | '\\' :: rest => some ('\\', rest)
  | 'u' :: rest => codePoint? 4 rest
  | 'U' :: rest => codePoint? 8 rest
  | _ => none

def basicTail? : Nat → List Char → List Char → Option (String × List Char)
  | 0, _, _ => none
  | fuel + 1, done, cs =>
    match cs with
    | [] => none
    | '"' :: rest => some (String.ofList done.reverse, rest)
    | '\\' :: rest => do
      let (c, rest) ← escape? rest
      basicTail? fuel (c :: done) rest
    | c :: rest => if isTextChar c then basicTail? fuel (c :: done) rest else none

def literalTail? (cs : List Char) : Option (String × List Char) :=
  match cs.span fun c => c ≠ '\'' && isTextChar c with
  | (text, '\'' :: rest) => some (String.ofList text, rest)
  | _ => none

/-- What a run of quotes is in a string on several lines. -/
inductive QuoteRun where
  | content (count : Nat)
  | close (count : Nat)
  | tooMany
  deriving DecidableEq

def quoteRun (quote : Char) (cs : List Char) : QuoteRun :=
  let count := (cs.takeWhile (· = quote)).length
  if count < 3 then .content count else if count < 6 then .close (count - 3) else .tooMany

def longEscape? (cs : List Char) : Option (List Char × List Char) :=
  if (newline? (skipBlank cs)).isSome then some ([], skipLines cs)
  else (escape? cs).map fun (c, rest) => ([c], rest)

def longTail? (quote : Char) : Nat → List Char → List Char → Option (String × List Char)
  | 0, _, _ => none
  | fuel + 1, done, cs =>
    match cs with
    | [] => none
    | c :: rest =>
      if c = quote then
        match quoteRun quote cs with
        | .content count =>
          longTail? quote fuel (List.replicate count quote ++ done) (cs.drop count)
        | .close count =>
          some (String.ofList (done.reverse ++ List.replicate count quote), cs.drop (count + 3))
        | .tooMany => none
      else if c = '\\' && quote = '"' then do
        let (text, rest) ← longEscape? rest
        longTail? quote fuel (text ++ done) rest
      else
        match newline? cs with
        | some rest => longTail? quote fuel ('\n' :: done) rest
        | none => if isTextChar c then longTail? quote fuel (c :: done) rest else none

/-- The end of line right behind the opening quotes does not count. -/
def longString? (quote : Char) (cs : List Char) : Option (String × List Char) :=
  longTail? quote (cs.length + 1) [] ((newline? cs).getD cs)

def shortString? : List Char → Option (String × List Char)
  | '"' :: rest => basicTail? (rest.length + 1) [] rest
  | '\'' :: rest => literalTail? rest
  | _ => none

def string? : List Char → Option (String × List Char)
  | '"' :: '"' :: '"' :: rest => longString? '"' rest
  | '\'' :: '\'' :: '\'' :: rest => longString? '\'' rest
  | cs => shortString? cs

end Switchboard.Toml
