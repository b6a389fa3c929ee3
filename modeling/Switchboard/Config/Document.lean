import Switchboard.Toml.Parser
import Switchboard.Toml.Printer
import Switchboard.Tree
import Switchboard.Wire.Files

/-!
# Configuration files

A configuration file is a TOML document. Settings that it leaves out have their defaults, and
names that are no settings are skipped. A file that is not there is an empty one. A disk is a tree
of directories with the texts of the files in it; a relative path starts at its root.
-/
namespace Switchboard

namespace Toml

mutual

/-- The value without the marks of how it is written. A moment of time is a record of its own,
none of whose members is a setting. -/
def toJson : Toml → Json
  | .str s => .str s
  | .int n => .int n
  | .float text => .decimal text
  | .bool b => .bool b
  | .moment text => .obj [("moment", .str text)]
  | .array items => .arr (itemsJson items)
  | .table _ ms => .obj (membersJson ms)
  | .tables items => .arr (tablesJson items)

def itemsJson : List Toml → List Json
  | [] => []
  | v :: vs => toJson v :: itemsJson vs

def membersJson : List (String × Toml) → List (String × Json)
  | [] => []
  | (name, v) :: ms => (name, toJson v) :: membersJson ms

def tablesJson : List (List (String × Toml)) → List Json
  | [] => []
  | ms :: rest => .obj (membersJson ms) :: tablesJson rest

end

end Toml

namespace Config

/-- Settings listed by position: what stands behind the last one is not looked at. -/
def withoutSurplus : Toml → Toml
  | .array items => .array (items.take 6)
  | v => v

def ofMembers? (ms : Toml.Members) : Option Config :=
  let ms := ms.map fun (name, v) => (name, if name = "fs" then withoutSurplus v else v)
  ofJson? standard (.obj (Toml.membersJson ms))

def ofToml (text : String) : Except ConfigError Config :=
  match (Toml.parse? text).bind ofMembers? with
  | none => .error .parse
  | some c => c.validate

inductive Found where
  | nothing
  | unreadable
  | text (text : String)
  deriving DecidableEq

def load (path : Path) : Found → Except ConfigError Config
  | .nothing => .ok standard
  | .unreadable => .error (.read path)
  | .text text => ofToml text

def numberMax : Nat := 0x7fffffffffffffff

def numbers (c : Config) : List (String × Nat) :=
  [("bus_capacity", c.busCapacity), ("replay_capacity", c.replayCapacity),
    ("projection_change_capacity", c.changeCapacity), ("frame_ms", c.frame),
    ("shutdown_timeout_ms", c.shutdownTimeout)]

def fileNumbers (c : FilesConfig) : List (String × Nat) :=
  [("debounce_ms", c.debounce), ("max_latency_ms", c.maxLatency),
    ("max_batch_paths", c.maxBatchPaths), ("drift_sweep_secs", c.driftSweep)]

def numberLine (setting : String × Nat) : String := Toml.renderLine setting.1 (toString setting.2)

def foldCaseLine : Option Bool → String
  | none => ""
  | some b => Toml.renderLine "case_insensitive" (if b then "true" else "false")

def render (c : Config) : String :=
  String.join (c.numbers.map numberLine) ++ "\n[fs]\n"
    ++ String.join ((fileNumbers c.files).map numberLine) ++ foldCaseLine c.files.foldCase
    ++ Toml.renderLine "ignore_dirs" (Toml.renderStrings c.files.ignoreDirs)

def toToml (c : Config) : Except ConfigError String :=
  if (c.numbers ++ fileNumbers c.files).all (·.2 ≤ numberMax) then .ok c.render
  else .error .unwritable

end Config

structure Disk where
  tree : Tree
  texts : List (Place × String)
  deriving DecidableEq

namespace Disk

def empty : Disk := ⟨.empty, []⟩

def write (d : Disk) (p : Path) (text : String) : Disk :=
  let tree := d.tree.place p .file
  match tree.resolve p with
  | .ok place => ⟨tree, (place, text) :: d.texts⟩
  | .error _ => { d with tree }

def pathLimit : Nat := 4096

def find (d : Disk) (p : Path) : Config.Found :=
  if p.text.isEmpty then .nothing
  else if pathLimit ≤ p.text.length then .unreadable
  else
    match d.tree.resolve (Path.join ⟨"/"⟩ p) with
    | .error .notFound => .nothing
    | .error _ => .unreadable
    | .ok place =>
      match d.texts.find? (·.1 = place) with
      | some (_, text) => .text text
      | none => .unreadable

def loadConfig (d : Disk) (p : Path) : Except ConfigError Config := Config.load p (d.find p)

end Disk

end Switchboard
