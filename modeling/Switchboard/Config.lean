import Switchboard.FsSource

/-!
# Configuration

Every setting has a default. A configuration is valid when nothing that has to be there is zero
and no batch of changes has to be quiet for longer than it may last.
-/
namespace Switchboard

structure FilesConfig where
  debounce : Nat
  maxLatency : Nat
  maxBatchPaths : Nat
  driftSweep : Nat
  foldCase : Option Bool
  ignoreDirs : List String
  deriving DecidableEq

namespace FilesConfig

def standard : FilesConfig where
  debounce := BatchPolicy.standard.debounce
  maxLatency := BatchPolicy.standard.maxLatency
  maxBatchPaths := BatchPolicy.standard.maxPaths
  driftSweep := 300
  foldCase := none
  ignoreDirs := [".git"]

def policy (c : FilesConfig) : BatchPolicy := ⟨c.debounce, c.maxLatency, c.maxBatchPaths⟩

/-- Letters of either case are different unless it is said otherwise. -/
def source (c : FilesConfig) : FsConfig := ⟨c.policy, c.foldCase.getD false, c.ignoreDirs⟩

end FilesConfig

structure Config where
  busCapacity : Nat
  replayCapacity : Nat
  changeCapacity : Nat
  frame : Nat
  shutdownTimeout : Nat
  files : FilesConfig
  deriving DecidableEq

inductive ConfigFault where
  | zero (setting : String)
  | debounceTooLong (debounce maxLatency : Nat)
  deriving DecidableEq

inductive ConfigError where
  | read (path : Path)
  | parse
  | invalid (fault : ConfigFault)
  | unwritable
  deriving DecidableEq

namespace ConfigFault

def reason : ConfigFault → String
  | .zero setting => setting ++ " must be greater than 0"
  | .debounceTooLong debounce maxLatency =>
    "fs.debounce_ms (" ++ toString debounce ++ ") exceeds fs.max_latency_ms (" ++
      toString maxLatency ++ ")"

def message (f : ConfigFault) : String := "invalid config: " ++ f.reason

end ConfigFault

namespace Config

def standard : Config where
  busCapacity := 1024
  replayCapacity := 256
  changeCapacity := 4096
  frame := 16
  shutdownTimeout := 2000
  files := .standard

/-- The settings that have to be greater than zero, in the order they are looked at. -/
def positive (c : Config) : List (String × Nat) :=
  [("bus_capacity", c.busCapacity), ("replay_capacity", c.replayCapacity),
    ("projection_change_capacity", c.changeCapacity), ("frame_ms", c.frame),
    ("fs.max_batch_paths", c.files.maxBatchPaths), ("fs.drift_sweep_secs", c.files.driftSweep)]

def fault? (c : Config) : Option ConfigFault :=
  match c.positive.find? (·.2 = 0) with
  | some (setting, _) => some (.zero setting)
  | none =>
    if c.files.maxLatency < c.files.debounce then
      some (.debounceTooLong c.files.debounce c.files.maxLatency)
    else none

def validate (c : Config) : Except ConfigError Config :=
  match c.fault? with
  | none => .ok c
  | some fault => .error (.invalid fault)

end Config

end Switchboard
