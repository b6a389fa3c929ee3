import Switchboard.Envelope
import Switchboard.Table

/-!
# Visibility

What the user sees decides the order of delivery. The focused pane of the active application
comes first, then what is on screen, then the rest. What the system tells of a worktree is as
urgent as the most urgent pane bound to the worktree.
-/
namespace Switchboard

inductive Tier where
  | p0
  | p1
  | p2
  | p3
  deriving DecidableEq

namespace Tier

def rank : Tier → Nat
  | .p0 => 0
  | .p1 => 1
  | .p2 => 2
  | .p3 => 3

def name : Tier → String
  | .p0 => "p0"
  | .p1 => "p1"
  | .p2 => "p2"
  | .p3 => "p3"

def best (a b : Tier) : Tier := if b.rank < a.rank then b else a

end Tier

structure Focus where
  appActive : Bool
  focused : Option PaneId
  visible : List PaneId
  deriving DecidableEq

namespace Focus

def none : Focus := ⟨false, .none, []⟩

def on (pane : PaneId) : Focus := ⟨true, some pane, [pane]⟩

def tier (f : Focus) (pane : PaneId) : Tier :=
  match f.appActive, decide (f.focused = some pane), f.visible.contains pane with
  | true, true, _ => .p0
  | false, true, _ => .p1
  | _, false, true => .p1
  | true, false, false => .p2
  | false, false, false => .p3

end Focus

structure Resolver where
  focus : Focus
  worktrees : Table PaneId WorktreeId
  deriving DecidableEq

namespace Resolver

def empty : Resolver := ⟨Focus.none, []⟩

def setFocus (r : Resolver) (focus : Focus) : Resolver := { r with focus }

def bind (r : Resolver) (pane : PaneId) (worktree : WorktreeId) : Resolver :=
  { r with worktrees := r.worktrees.set pane worktree }

def forget (r : Resolver) (pane : PaneId) : Resolver :=
  { r with worktrees := r.worktrees.erase pane }

def paneTier (r : Resolver) (pane : PaneId) : Tier := r.focus.tier pane

def worktreeTier (r : Resolver) (worktree : WorktreeId) : Tier :=
  (r.worktrees.filter (·.2 = worktree)).foldl (fun t b => t.best (r.paneTier b.1)) .p3

def tier (r : Resolver) (e : Envelope) : Tier :=
  match e.source, e.worktree with
  | .pane pane, _ => r.paneTier pane
  | .system _, some worktree => r.worktreeTier worktree
  | .system _, none => .p3

end Resolver

end Switchboard
