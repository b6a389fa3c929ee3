/-!
# TOML values

A table remembers how it came about, for that decides what may still be added to it: a table
with a header of its own, one that a longer header implies, one made by dotted keys, or one
written in a line. Numbers with a fraction and moments of time are kept as they are written.
-/
namespace Switchboard

inductive TableKind where
  | defined
  | implied
  | dotted
  | inline
  deriving DecidableEq

inductive Toml where
  | str (text : String)
  | int (value : Int)
  | float (text : String)
  | bool (value : Bool)
  | moment (text : String)
  | array (items : List Toml)
  | table (kind : TableKind) (members : List (String × Toml))
  | tables (items : List (List (String × Toml)))

namespace Toml

abbrev Members := List (String × Toml)

def update? (name : String) (f : Option Toml → Option Toml) : Members → Option Members
  | [] => (f none).map fun v => [(name, v)]
  | (k, v) :: rest =>
    if k = name then (f (some v)).map fun v => (k, v) :: rest
    else (update? name f rest).map ((k, v) :: ·)

def updateLast? (f : Members → Option Members) : List Members → Option (List Members)
  | [] => none
  | [ms] => (f ms).map fun ms => [ms]
  | ms :: rest => (updateLast? f rest).map (ms :: ·)

/-- Adds a member below a dotted key. The tables on the way are made when they are missing; the
last of them has to be the work of dotted keys, and nothing is ever replaced. -/
def insert? : List String → String → Toml → Members → Option Members
  | [], name, v, ms =>
    update? name (fun
      | none => some v
      | some _ => none) ms
  | k :: path, name, v, ms =>
    update? k (fun
      | none => (insert? path name v []).map (.table .dotted)
      | some (.table .dotted sub) => (insert? path name v sub).map (.table .dotted)
      | some (.table .implied sub) =>
        if path.isEmpty then none else (insert? path name v sub).map (.table .implied)
      | some (.tables items) =>
        if path.isEmpty then none else (updateLast? (insert? path name v) items).map .tables
      | some _ => none) ms

def within? (f : Members → Option Members) : List String → Members → Option Members
  | [], ms => f ms
  | k :: path, ms =>
    update? k (fun
      | none => (within? f path []).map (.table .implied)
      | some (.table .inline _) => none
      | some (.table kind sub) => (within? f path sub).map (.table kind)
      | some (.tables items) => (updateLast? (within? f path) items).map .tables
      | some _ => none) ms

/-- A header defines a table once; what longer headers implied of it stays. -/
def define (before : Option Toml) : Option Toml :=
  match before with
  | none => some (.table .defined [])
  | some (.table .implied sub) => some (.table .defined sub)
  | some _ => none

def extend (before : Option Toml) : Option Toml :=
  match before with
  | none => some (.tables [[]])
  | some (.tables items) => some (.tables (items ++ [[]]))
  | some _ => none

def openHeader? (opening : Option Toml → Option Toml) (path : List String) (ms : Members) :
    Option Members :=
  match path.getLast? with
  | none => none
  | some name => within? (update? name opening) path.dropLast ms

end Toml

end Switchboard
