import Switchboard.Json

/-!
# Writing TOML

A string is written in the plainest form that can hold it: in quotes, as it stands, or on
several lines, and with escapes only where no other form will do.
-/
namespace Switchboard.Toml

structure TextTraits where
  control : Bool
  backslash : Bool
  newline : Bool
  doubleRun : Nat
  singleRun : Nat
  deriving DecidableEq

def longestRun (c : Char) (current : Nat) : List Char → Nat
  | [] => current
  | d :: rest =>
    if d = c then longestRun c (current + 1) rest else max current (longestRun c 0 rest)

def isControl (c : Char) : Bool := (c.toNat < 0x20 && c ≠ '\t' && c ≠ '\n') || c.toNat = 0x7F

def TextTraits.of (cs : List Char) : TextTraits where
  control := cs.any isControl
  backslash := cs.contains '\\'
  newline := cs.contains '\n'
  doubleRun := longestRun '"' 0 cs
  singleRun := longestRun '\'' 0 cs

inductive TextForm where
  | basic
  | literal
  | longBasic
  | longLiteral
  deriving DecidableEq

def TextTraits.form (t : TextTraits) : TextForm :=
  if !t.control && !t.backslash && t.doubleRun = 0 && !t.newline then .basic
  else if !t.control && t.singleRun = 0 && !t.newline then .literal
  else if !t.control && !t.backslash && t.doubleRun ≤ 2 then .longBasic
  else if !t.control && t.singleRun ≤ 2 then .longLiteral
  else if t.newline then .longBasic
  else .basic

def upperHex (n : Nat) : Char := (Nat.digitChar n).toUpper

def escapeChar (long : Bool) (c : Char) : String :=
  if c = '\x08' then "\\b"
  else if c = '\t' then "\\t"
  else if c = '\n' then (if long then "\n" else "\\n")
  else if c = '\x0c' then "\\f"
  else if c = '\r' then "\\r"
  else if c = '\\' then "\\\\"
  else if isControl c then
    "\\u00" ++ String.ofList [upperHex (c.toNat / 16), upperHex (c.toNat % 16)]
  else c.toString

def escape (long : Bool) (quotes : Nat) : List Char → String
  | [] => ""
  | c :: rest =>
    if c = '"' then
      if long && quotes < 2 then "\"" ++ escape long (quotes + 1) rest
      else "\\\"" ++ escape long 0 rest
    else escapeChar long c ++ escape long 0 rest

def opening (t : TextTraits) : String := if t.newline then "\n" else ""

def renderString (s : String) : String :=
  let t := TextTraits.of s.toList
  match t.form with
  | .basic => "\"" ++ escape false 0 s.toList ++ "\""
  | .literal => "'" ++ s ++ "'"
  | .longBasic => "\"\"\"" ++ opening t ++ escape true 0 s.toList ++ "\"\"\""
  | .longLiteral => "'''" ++ opening t ++ s ++ "'''"

/-- One item stands on the line of its key, several on lines of their own. -/
def renderStrings : List String → String
  | [] => "[]"
  | [s] => "[" ++ renderString s ++ "]"
  | ss => "[\n" ++ String.join (ss.map fun s => "    " ++ renderString s ++ ",\n") ++ "]"

def renderLine (key value : String) : String := key ++ " = " ++ value ++ "\n"

end Switchboard.Toml
