import Switchboard.Status
import Switchboard.Text.Basic

/-!
# Porcelain status lines

A line is told by its first character: `1` an ordinary entry, `2` a rename, `u` a conflict, `?`
an untracked path. The path of an entry stands behind a fixed number of fields and may hold
blanks itself. Only paths behind the given stem count, and they are taken without it.
-/
namespace Switchboard.Status.Porcelain

def behind : Nat → List Char → Option (List Char)
  | 0, cs => some cs
  | n + 1, cs =>
    match cs.dropWhile (· ≠ ' ') with
    | [] => none
    | _ :: rest => behind n rest

def code? (line : List Char) : Option (List Char) :=
  (behind 1 line).map (·.takeWhile (· ≠ ' '))

def untracked? : List Char → Option (List Char)
  | _ :: c :: rest => if c.toNat < 0x80 then some rest else none
  | _ => none

/-- The two-letter code and the path of an entry. -/
def entry? (line : List Char) : Option (List Char × List Char) :=
  match line with
  | '1' :: _ => do some (← code? line, ← behind 8 line)
  | '2' :: _ => do some (← code? line, (← behind 9 line).takeWhile (· ≠ '\t'))
  | 'u' :: _ => do some (← code? line, ← behind 10 line)
  | '?' :: _ => do some (['?'], ← untracked? line)
  | _ => none

/-- The counts with one more entry; a code of a single letter says nothing. -/
def count? (c : StatusCounts) : List Char → Option StatusCounts
  | '?' :: _ => some { c with untracked := c.untracked + 1 }
  | x :: y :: _ =>
    some { c with
      staged := if x = '.' then c.staged else c.staged + 1
      changed := if y = '.' then c.changed else c.changed + 1 }
  | _ => none

def stripStem? (stem cs : List Char) : Option (List Char) :=
  if stem.isPrefixOf cs then some (cs.drop stem.length) else none

def withoutSlashes (cs : List Char) : List Char := Text.dropTrailing (· == '/') cs

def headMark : List Char := "# branch.head ".toList

def detached : List Char := "(detached)".toList

def addEntry (stem : List Char) (report : StatusReport) (line : List Char) :
    Option StatusReport := do
  let (code, path) ← entry? line
  let rel ← stripStem? stem path
  if rel.isEmpty then none
  else
    let counts ← count? report.counts code
    some { report with
      counts
      dirty := report.dirty.insert ⟨String.ofList (withoutSlashes rel)⟩ }

def addLine (stem : List Char) (report : StatusReport) (line : List Char) : StatusReport :=
  match stripStem? headMark line with
  | some head =>
    { report with branch := if head = detached then none else some (String.ofList head) }
  | none => (addEntry stem report line).getD report

def parse (output stem : String) : StatusReport :=
  (Text.lines output.toList).foldl (addLine stem.toList) .clean

end Switchboard.Status.Porcelain
