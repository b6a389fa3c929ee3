/-!
# Who speaks, and in which order

Every event comes from a source: a pane, or a part of the system itself. A source numbers what
it emits from 1 within an epoch, so that number 0 always means "from the beginning". Sequence
numbers, epochs and times are natural numbers below `2 ^ 64`; a sum that would leave the range
stays at its upper end.
-/
namespace Switchboard

def wordMax : Nat := 0xffffffffffffffff

def satAdd (a b : Nat) : Nat := min (a + b) wordMax

def satSucc (n : Nat) : Nat := satAdd n 1

theorem satAdd_le (a b : Nat) : satAdd a b ≤ wordMax := Nat.min_le_right _ _

theorem satAdd_eq {a b : Nat} (h : a + b ≤ wordMax) : satAdd a b = a + b := Nat.min_eq_left h

structure PaneId where
  name : String
  deriving DecidableEq

structure WorktreeId where
  name : String
  deriving DecidableEq

structure CommandId where
  name : String
  deriving DecidableEq

structure CorrelationId where
  name : String
  deriving DecidableEq

structure ResourceId where
  name : String
  deriving DecidableEq

instance : Ord PaneId := ⟨fun a b => compare a.name b.name⟩

instance : Ord WorktreeId := ⟨fun a b => compare a.name b.name⟩

theorem PaneId.compare_def (a b : PaneId) : compare a b = compare a.name b.name := rfl

theorem WorktreeId.compare_def (a b : WorktreeId) : compare a b = compare a.name b.name := rfl

instance : Std.LawfulEqOrd PaneId where
  compare_self {a} := Std.compare_self (a := a.name)
  eq_of_compare {a b} h := by
    rcases a with ⟨a⟩
    rcases b with ⟨b⟩
    exact congrArg PaneId.mk (Std.compare_eq_iff_eq.mp h)

instance : Std.LawfulEqOrd WorktreeId where
  compare_self {a} := Std.compare_self (a := a.name)
  eq_of_compare {a b} h := by
    rcases a with ⟨a⟩
    rcases b with ⟨b⟩
    exact congrArg WorktreeId.mk (Std.compare_eq_iff_eq.mp h)

instance : Std.TransOrd PaneId where
  eq_swap {a b} := Std.OrientedOrd.eq_swap (a := a.name) (b := b.name)
  isLE_trans {a b c} := Std.TransOrd.isLE_trans (a := a.name) (b := b.name) (c := c.name)

instance : Std.TransOrd WorktreeId where
  eq_swap {a b} := Std.OrientedOrd.eq_swap (a := a.name) (b := b.name)
  isLE_trans {a b c} := Std.TransOrd.isLE_trans (a := a.name) (b := b.name) (c := c.name)

inductive SystemSource where
  | filesystemWatcher
  deriving DecidableEq

def SystemSource.name : SystemSource → String
  | .filesystemWatcher => "filesystem_watcher"

def SystemSource.all : List SystemSource := [.filesystemWatcher]

inductive Source where
  | pane (id : PaneId)
  | system (source : SystemSource)
  deriving DecidableEq

namespace Source

def filesystem : Source := .system .filesystemWatcher

def text : Source → String
  | .pane id => "pane:" ++ id.name
  | .system s => "system:" ++ s.name

def pane? : Source → Option PaneId
  | .pane id => some id
  | .system _ => none

def isFilesystem : Source → Bool
  | .system .filesystemWatcher => true
  | .pane _ => false

end Source

structure Stamp where
  epoch : Nat
  seq : Nat
  deriving DecidableEq

namespace Stamp

def before (a b : Stamp) : Bool :=
  a.epoch < b.epoch || (a.epoch == b.epoch && a.seq < b.seq)

theorem before_iff {a b : Stamp} :
    a.before b = true ↔ a.epoch < b.epoch ∨ a.epoch = b.epoch ∧ a.seq < b.seq := by
  simp [before]

theorem before_irrefl (a : Stamp) : a.before a = false := by
  simp [before]

theorem before_trans {a b c : Stamp} (hab : a.before b = true) (hbc : b.before c = true) :
    a.before c = true := by
  rw [before_iff] at *
  omega

end Stamp

structure Sequencer where
  epoch : Nat
  lastSeq : Nat
  deriving DecidableEq

namespace Sequencer

def start (epoch : Nat) : Sequencer := ⟨epoch, 0⟩

def stamp (s : Sequencer) : Stamp := ⟨s.epoch, s.lastSeq⟩

/-- The sequencer after one more number; its `stamp` is the number given out. -/
def advance (s : Sequencer) : Sequencer := { s with lastSeq := satSucc s.lastSeq }

def bump (s : Sequencer) : Sequencer := ⟨satSucc s.epoch, 0⟩

end Sequencer

structure Clock where
  now : Nat
  deriving DecidableEq

namespace Clock

def advance (c : Clock) (ms : Nat) : Clock := ⟨c.now + ms⟩

def set (c : Clock) (ms : Nat) : Clock := ⟨max c.now ms⟩

end Clock

end Switchboard
