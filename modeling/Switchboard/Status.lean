import Switchboard.Event

/-!
# Status reports

What a status command finds out about a root, reduced to counts, the branch and the set of
paths that are not clean. Of two reports in a row only the difference is told.
-/
namespace Switchboard

structure StatusReport where
  counts : StatusCounts
  branch : Option String
  dirty : PathSet
  deriving DecidableEq

def StatusReport.clean : StatusReport := ⟨.zero, none, []⟩

inductive ReconcileReason where
  | flush
  | wake
  | overflow
  | driftSweep
  | resync
  deriving DecidableEq

namespace ReconcileReason

def all : List ReconcileReason := [.flush, .wake, .overflow, .driftSweep, .resync]

def name : ReconcileReason → String
  | .flush => "flush"
  | .wake => "wake"
  | .overflow => "overflow"
  | .driftSweep => "drift_sweep"
  | .resync => "resync"

/-- A pull also tells the paths that the watcher may have missed. -/
def isPull (r : ReconcileReason) : Bool := r ≠ .flush

def precedence : ReconcileReason → Nat
  | .flush => 0
  | .wake => 1
  | .overflow => 1
  | .driftSweep => 1
  | .resync => 2

def queue (waiting : Option ReconcileReason) (reason : ReconcileReason) : ReconcileReason :=
  match waiting with
  | some w => if reason.precedence ≤ w.precedence then w else reason
  | none => reason

end ReconcileReason

structure StatusDelta where
  changed : PathSet
  counts : Option StatusCounts
  branch : Option (Option String)
  deriving DecidableEq

namespace StatusDelta

def isEmpty (d : StatusDelta) : Bool := d.changed.isEmpty && d.counts.isNone && d.branch.isNone

/-- Without a report before it the counts are always told, and the branch if there is one. -/
def between (previous : Option StatusReport) (next : StatusReport) : StatusDelta :=
  match previous with
  | none =>
    { changed := next.dirty
      counts := some next.counts
      branch := next.branch.map some }
  | some previous =>
    { changed := PathSet.symmDiff previous.dirty next.dirty
      counts := if previous.counts = next.counts then none else some next.counts
      branch := if previous.branch = next.branch then none else some next.branch }

end StatusDelta

end Switchboard
