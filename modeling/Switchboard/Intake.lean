import Switchboard.Envelope
import Switchboard.Reducer

/-!
# Taking in envelopes

A consumer of the bus lets every envelope pass once, by its cursor. When the bus has overtaken
it, it goes back to the histories of the sources: what is still there is taken in late, and what
is gone is recorded as a gap.
-/
namespace Switchboard

def backfill (histories : List ReplayBuffer) (cursor : Cursor) : List Recovery :=
  histories.map fun h => h.recover (cursor.last? h.source)

inductive Control where
  | setFocus (focus : Focus)
  | bind (pane : PaneId) (worktree : WorktreeId)
  | forget (pane : PaneId)
  deriving DecidableEq

structure Intake where
  reducer : Reducer
  cursor : Cursor
  deriving DecidableEq

namespace Intake

def create (frame now : Nat) : Intake := ⟨.create frame now, .start⟩

def accept (i : Intake) (e : Envelope) : Intake :=
  let (cursor, isNew) := i.cursor.advance e
  if isNew then ⟨i.reducer.push e, cursor⟩ else i

def recordLoss (i : Intake) : Option DeliveryGap → Intake
  | none => i
  | some gap => { i with reducer := i.reducer.recordGap gap }

def acceptRecovery (i : Intake) (r : Recovery) : Intake :=
  r.events.foldl accept (i.recordLoss r.lost)

def recover (i : Intake) (histories : List ReplayBuffer) : Intake :=
  (backfill histories i.cursor).foldl acceptRecovery i

/-- A pane that is forgotten may come back with any stamp. -/
def control (i : Intake) : Control → Intake
  | .setFocus focus => { i with reducer := i.reducer.setFocus focus }
  | .bind pane worktree => { i with reducer := i.reducer.bind pane worktree }
  | .forget pane =>
    { reducer := i.reducer.forget pane, cursor := i.cursor.forget (.pane pane) }

end Intake

end Switchboard
