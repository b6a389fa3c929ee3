import Switchboard.Pane.Stream
import Switchboard.Proofs.Pane.Lifecycle

/-!
# Subscriptions

A follower hands on what its pane tells while the pane goes on telling. Here the two are let run
side by side: every envelope enters the ring by itself and the follower makes its moves in between.
When it has been overtaken it looks into the history only while no operation is under way, and
further operations may pass before it looks up the number of its mark. What the follower does in
one go at a pane at rest is a special case of this.
-/
namespace Switchboard

namespace Ring

variable {α : Type} {c next next' : Nat} {log : List α}

theorem lt_sent_of_receive {r : Ring α} {a : α} (h : r.receive next = (.message a, next')) :
    next < r.sent ∧ next' = next + 1 := by
  simp only [receive] at h
  split at h
  · cases h
  next hlt =>
    split at h
    · cases h
    · split at h
      · cases h
      · cases h
        exact ⟨Nat.lt_of_not_le hlt, rfl⟩

theorem message_of_receive {a : α} (h : (window c log).receive next = (.message a, next')) :
    log[next]? = some a ∧ next' = next + 1 := by
  by_cases hend : log.length ≤ next
  · rw [receive_window_empty hend] at h
    cases h
  by_cases hlag : next < log.length - c
  · rw [receive_window_lagged hlag] at h
    cases h
  have hget : log[next]? = some log[next] := List.getElem?_eq_getElem (by omega)
  rw [receive_window_message hget (by omega)] at h
  cases h
  exact ⟨hget, rfl⟩

theorem length_le_of_receive (h : (window c log).receive next = (.empty, next')) :
    log.length ≤ next := by
  by_contra hend
  by_cases hlag : next < log.length - c
  · rw [receive_window_lagged hlag] at h
    cases h
  · rw [receive_window_message (List.getElem?_eq_getElem (by omega)) (by omega)] at h
    cases h

theorem receive_of_oldest_le {r : Ring α} (h : r.oldest ≤ next) :
    ∀ missed, (r.receive next).1 ≠ .lagged missed := by
  intro missed hm
  simp only [receive] at hm
  split at hm
  · cases hm
  · rw [if_neg (by omega)] at hm
    split at hm <;> cases hm

end Ring

/-- What a follower that was overtaken has still to do. -/
inductive Errand where
  | refill
  | mark (epoch : Nat)
  deriving DecidableEq

structure Subscription where
  pane : Pane
  /-- What the operation under way has told and not yet put on the ring. -/
  unsent : List Envelope
  live : Ring Envelope
  follower : Follower
  errand : Option Errand
  taken : List StreamItem

def Follower.overtaken (f : Follower) (live : Ring Envelope) : Bool :=
  f.running && f.inHand.isEmpty && !f.ending && decide (f.next < live.oldest)

namespace LivePane

def perform (l : LivePane) (op : Pane.Operation) : LivePane := l.afterwards (l.pane.perform op)

def performAll (l : LivePane) (ops : List Pane.Operation) : LivePane := ops.foldl perform l

theorem performAll_window {l : LivePane} {c : Nat} {log : List Envelope}
    (h : l.live = .window c log) (ops : List Pane.Operation) :
    (l.performAll ops).pane = l.pane.performAll ops ∧
      (l.performAll ops).live = .window c (log ++ l.pane.told ops) := by
  induction ops generalizing l log with
  | nil => exact ⟨rfl, by rw [Pane.told, List.append_nil]; exact h⟩
  | cons op rest ih =>
    have hstep : (l.perform op).live = .window c (log ++ (l.pane.perform op).told) := by
      show (l.pane.perform op).told.foldl Ring.send l.live = _
      rw [h, Ring.foldl_send_window]
    obtain ⟨hpane, hlive⟩ := ih hstep
    refine ⟨hpane, ?_⟩
    rw [show l.performAll (op :: rest) = (l.perform op).performAll rest from rfl, hlive,
      List.append_assoc]
    rfl

theorem live_create (pane : Pane) :
    (create pane).live = .window (Ring.sizeFor pane.replay.capacity) [] := Ring.create_eq_window _

end LivePane

namespace Subscription

def open_ (l : LivePane) (from_ : Option Nat) : Subscription :=
  ⟨l.pane, [], l.live, .open_ l.pane l.live from_, none, []⟩

def stream (s : Subscription) : List StreamItem := s.taken ++ s.follower.queue ++ s.follower.inHand

def perform (s : Subscription) (op : Pane.Operation) : Subscription :=
  { s with
    pane := (s.pane.perform op).pane
    unsent := (s.pane.perform op).told
    live := s.unsent.foldl Ring.send s.live }

def send (s : Subscription) : Subscription :=
  match s.unsent with
  | [] => s
  | e :: rest => { s with unsent := rest, live := s.live.send e }

def look (s : Subscription) : Subscription :=
  match s.pane.replay.replayFrom s.follower.epoch s.follower.lastSeq with
  | .events es => { s with follower := s.follower.take es, errand := none }
  | .gap _ _ _ epoch => { s with errand := some (.mark epoch) }

def mark (s : Subscription) (epoch : Nat) : Subscription :=
  { s with
    follower :=
      { s.follower with
        inHand := [.resync epoch s.pane.lastSeq]
        lastSeq := s.pane.lastSeq }
    errand := none }

def lag (s : Subscription) : Subscription :=
  { s with follower := { s.follower with next := s.live.oldest }, errand := some .refill }

/-- The follower's next move, if there is one. It waits for the end of the operation under way
before it looks at the pane. -/
def move? (s : Subscription) : Option Subscription :=
  match s.errand with
  | some errand =>
    if s.unsent.isEmpty then
      match errand with
      | .refill => some s.look
      | .mark epoch => some (s.mark epoch)
    else none
  | none =>
    if s.follower.overtaken s.live then some s.lag
    else (s.follower.step? s.pane s.live).map fun f => { s with follower := f }

def read (s : Subscription) (count : Nat) : Subscription :=
  { s with
    follower := (s.follower.takeQueued count).1
    taken := s.taken ++ (s.follower.takeQueued count).2 }

inductive Step where
  | perform (op : Pane.Operation)
  | send
  | move
  | read (count : Nat)

def Step.operation? : Step → Option Pane.Operation
  | .perform op => some op
  | _ => none

def step (s : Subscription) : Step → Subscription
  | .perform op => s.perform op
  | .send => s.send
  | .move => s.move?.getD s
  | .read count => s.read count

def run (s : Subscription) (steps : List Step) : Subscription := steps.foldl step s

def operations (steps : List Step) : List Pane.Operation := steps.filterMap Step.operation?

section

variable {s s' : Subscription} {f : Follower}

theorem step?_cases {pane : Pane} {live : Ring Envelope} {f f' : Follower}
    (h : f.step? pane live = some f') (hn : f.overtaken live = false) : f.running = true ∧
    ((∃ item rest, f.inHand = item :: rest ∧
        f' = { f with inHand := rest, queue := f.queue ++ [item] }) ∨
      f.inHand = [] ∧ f.ending = true ∧ f' = { f with running := false } ∨
      f.inHand = [] ∧ f.ending = false ∧ ∃ e next, live.receive f.next = (.message e, next) ∧
        f' = { f with next }.take [e]) := by
  simp only [Follower.step?] at h
  split at h
  · cases h
  next hr =>
    have hrun : f.running = true := by simpa using hr
    refine ⟨hrun, ?_⟩
    split at h
    next item rest hhand =>
      split at h
      · cases h
        exact .inl ⟨item, rest, hhand, rfl⟩
      · cases h
    next hhand =>
      split at h
      next hend =>
        cases h
        exact .inr (.inl ⟨hhand, hend, rfl⟩)
      next hend =>
        have hend' : f.ending = false := Bool.eq_false_iff.mpr hend
        split at h
        · cases h
        next e next hm =>
          cases h
          exact .inr (.inr ⟨hhand, hend', e, next, hm, rfl⟩)
        next missed next hm =>
          have hold : live.oldest ≤ f.next := by
            simpa [Follower.overtaken, hrun, hhand, hend'] using hn
          exact absurd (congrArg Prod.fst hm) (Ring.receive_of_oldest_le hold missed)

theorem step?_eq_none {pane : Pane} {live : Ring Envelope} (h : f.step? pane live = none)
    (hn : f.overtaken live = false) (hq : f.queue = []) (hr : f.running = true) :
    f.inHand = [] ∧ f.ending = false ∧ ∃ next, live.receive f.next = (.empty, next) := by
  simp only [Follower.step?, hr] at h
  cases hhand : f.inHand with
  | cons item rest =>
    simp [hhand, hq, Follower.queueLimit] at h
  | nil =>
    cases hend : f.ending with
    | true => simp [hhand, hend] at h
    | false =>
      have hold : live.oldest ≤ f.next := by
        simpa [Follower.overtaken, hr, hhand, hend] using hn
      rcases hm : live.receive f.next with ⟨got, next⟩
      cases got with
      | empty => exact ⟨rfl, rfl, next, rfl⟩
      | message e => simp [hhand, hend, hm] at h
      | lagged missed => exact absurd (congrArg Prod.fst hm) (Ring.receive_of_oldest_le hold missed)

theorem overtaken_iff : f.overtaken s.live = true ↔
    f.running = true ∧ f.inHand = [] ∧ f.ending = false ∧ f.next < s.live.oldest := by
  simp [Follower.overtaken, and_assoc]

theorem move?_cases (h : s.move? = some s') :
    (s.errand = some .refill ∧ s.unsent = [] ∧ s' = s.look) ∨
    (∃ epoch, s.errand = some (.mark epoch) ∧ s.unsent = [] ∧ s' = s.mark epoch) ∨
    (s.errand = none ∧ s.follower.overtaken s.live = true ∧ s' = s.lag) ∨
    (s.errand = none ∧ s.follower.overtaken s.live = false ∧
      ∃ f, s.follower.step? s.pane s.live = some f ∧ s' = { s with follower := f }) := by
  simp only [move?] at h
  cases he : s.errand with
  | some errand =>
    rw [he] at h
    simp only at h
    split at h
    next hu =>
      have hu' : s.unsent = [] := List.isEmpty_iff.mp hu
      cases errand with
      | refill =>
        cases h
        exact .inl ⟨rfl, hu', rfl⟩
      | mark epoch =>
        cases h
        exact .inr (.inl ⟨epoch, rfl, hu', rfl⟩)
    · cases h
  | none =>
    rw [he] at h
    simp only at h
    split at h
    next ho =>
      cases h
      exact .inr (.inr (.inl ⟨rfl, ho, rfl⟩))
    next ho =>
      obtain ⟨f, hf, rfl⟩ := Option.map_eq_some_iff.mp h
      exact .inr (.inr (.inr ⟨rfl, Bool.eq_false_iff.mpr ho, f, hf, rfl⟩))

theorem pane_move? (h : s.move? = some s') : s'.pane = s.pane ∧ s'.unsent = s.unsent ∧
    s'.live = s.live ∧ s'.taken = s.taken := by
  rcases move?_cases h with ⟨-, -, rfl⟩ | ⟨epoch, -, -, rfl⟩ | ⟨-, -, rfl⟩ | ⟨-, -, f, -, rfl⟩
  · simp only [look]
    split <;> exact ⟨rfl, rfl, rfl, rfl⟩
  all_goals exact ⟨rfl, rfl, rfl, rfl⟩

theorem pane_step (s : Subscription) (st : Step) :
    (s.step st).pane = s.pane.performAll st.operation?.toList := by
  cases st with
  | perform op => rfl
  | send =>
    simp only [step, send]
    split <;> rfl
  | move =>
    cases hm : s.move? with
    | none =>
      simp only [step, hm]
      rfl
    | some next =>
      simp only [step, hm]
      exact (pane_move? hm).1
  | read count => rfl

theorem operations_cons (st : Step) (steps : List Step) :
    operations (st :: steps) = st.operation?.toList ++ operations steps := by
  cases h : st.operation? <;> simp [operations, h]

theorem pane_run (s : Subscription) (steps : List Step) :
    (s.run steps).pane = s.pane.performAll (operations steps) := by
  induction steps generalizing s with
  | nil => rfl
  | cons st steps ih =>
    rw [show s.run (st :: steps) = (s.step st).run steps from rfl, ih, pane_step, operations_cons]
    exact List.foldl_append.symm

/-- What a follower does in one go at a pane at rest, it does in moves. -/
theorem moves_of_step? (hu : s.unsent = []) (he : s.errand = none)
    (h : s.follower.step? s.pane s.live = some f) :
    ∃ n, s.run (List.replicate n .move) = { s with follower := f } := by
  by_cases ho : s.follower.overtaken s.live = true
  · obtain ⟨hr, hhand, hend, hlt⟩ := overtaken_iff.mp ho
    have hsent : ¬ s.live.sent ≤ s.follower.next := by
      simp only [Ring.oldest] at hlt
      omega
    have hstep : f = { s.follower with next := s.live.oldest }.refill s.pane := by
      simp only [Follower.step?, hr, hhand, hend, Ring.receive, hsent, hlt] at h
      simpa [hr, hhand, hend] using h.symm
    have hlag : s.move? = some s.lag := by
      simp only [move?, he]
      rw [if_pos ho]
    have hlook : s.lag.move? = some s.lag.look := by
      simp [move?, lag, hu]
    cases hres : s.pane.replay.replayFrom s.follower.epoch s.follower.lastSeq with
    | events es =>
      refine ⟨2, ?_⟩
      have hlooked : s.lag.look = { s with follower := f } := by
        simp only [look, lag, hres, hstep, Follower.refill, he]
      simp [run, step, hlag, hlook, hlooked]
    | gap reason requested oldest epoch =>
      refine ⟨3, ?_⟩
      have hmark : s.lag.look.move? = some (s.lag.look.mark epoch) := by
        simp [move?, look, lag, hres, hu]
      have hmarked : s.lag.look.mark epoch = { s with follower := f } := by
        simp only [mark, look, lag, hres, hstep, Follower.refill, he]
      simp [run, step, hlag, hlook, hmark, hmarked]
  · refine ⟨1, ?_⟩
    simp [run, step, move?, he, ho, h]

end

end Subscription

end Switchboard
