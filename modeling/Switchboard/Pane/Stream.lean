import Switchboard.Pane
import Switchboard.Ring

/-!
# Following a pane

A follower reads a pane's live ring and hands the events on, in order, through a queue of
bounded length. It takes one thing at a time in hand and waits with it while the queue is full.
When the ring overtakes it, it goes back to the pane's history; what is gone from there too is
announced by a mark that tells where the stream goes on. The event that ends the pane ends the
stream.
-/
namespace Switchboard

inductive StreamItem where
  | event (e : Envelope)
  /-- Events up to this number may be missing. -/
  | resync (epoch lastSeq : Nat)
  deriving DecidableEq

def Envelope.isFinal (e : Envelope) : Bool :=
  match e.event with
  | .lifecycle (.stateChanged _ .terminated) => true
  | _ => false

def uptoFinal : List Envelope → List Envelope
  | [] => []
  | e :: rest => if e.isFinal then [e] else e :: uptoFinal rest

theorem uptoFinal_isPrefix (es : List Envelope) : uptoFinal es <+: es := by
  induction es with
  | nil => exact List.prefix_rfl
  | cons e rest ih =>
    simp only [uptoFinal]
    split
    · exact ⟨rest, rfl⟩
    · exact (List.prefix_cons_inj e).mpr ih

structure Follower where
  epoch : Nat
  lastSeq : Nat
  next : Nat
  /-- What is to go through the queue before anything else is looked at. -/
  inHand : List StreamItem
  ending : Bool
  queue : List StreamItem
  running : Bool
  deriving DecidableEq

namespace Follower

def queueLimit : Nat := 64

def backlog (pane : Pane) : Option Nat → List StreamItem
  | none => []
  | some from_ =>
    match pane.replay.replay from_ with
    | .events es => es.map .event
    | .gap .. => [.resync pane.epoch pane.lastSeq]

/-- A pane that has ended is not followed: its backlog is the whole stream. -/
def open_ (pane : Pane) (live : Ring Envelope) (from_ : Option Nat) : Follower :=
  let ended := pane.state.isTerminal
  { epoch := pane.epoch
    lastSeq := pane.lastSeq
    next := live.sent
    inHand := if ended then [] else backlog pane from_
    ending := ended
    queue := if ended then backlog pane from_ else []
    running := !ended }

def take (f : Follower) (es : List Envelope) : Follower :=
  let es := uptoFinal (es.filter (f.lastSeq < ·.seq))
  { f with
    inHand := es.map .event
    lastSeq := (es.getLast?.map Envelope.seq).getD f.lastSeq
    ending := es.any Envelope.isFinal }

def refill (f : Follower) (pane : Pane) : Follower :=
  match pane.replay.replayFrom f.epoch f.lastSeq with
  | .events es => f.take es
  | .gap _ _ _ epoch =>
    { f with inHand := [.resync epoch pane.lastSeq], lastSeq := pane.lastSeq }

def step? (f : Follower) (pane : Pane) (live : Ring Envelope) : Option Follower :=
  if !f.running then none
  else
    match f.inHand with
    | item :: rest =>
      if f.queue.length < queueLimit then
        some { f with inHand := rest, queue := f.queue ++ [item] }
      else none
    | [] =>
      if f.ending then some { f with running := false }
      else
        match live.receive f.next with
        | (.empty, _) => none
        | (.message e, next) => some ({ f with next }.take [e])
        | (.lagged _, next) => some ({ f with next }.refill pane)

theorem length_queue_step? {f f' : Follower} {pane : Pane} {live : Ring Envelope}
    (h : f.step? pane live = some f') (hq : f.queue.length ≤ queueLimit) :
    f'.queue.length ≤ queueLimit := by
  simp only [step?] at h
  split at h
  · cases h
  · split at h
    · split at h
      · next hlt =>
        cases h
        simp only [List.length_append, List.length_cons, List.length_nil]
        omega
      · cases h
    · split at h
      · cases h
        exact hq
      · split at h
        · cases h
        · cases h
          exact hq
        · cases h
          simp only [refill]
          split <;> exact hq

def settleFor (pane : Pane) (live : Ring Envelope) : Nat → Follower → Follower
  | 0, f => f
  | fuel + 1, f =>
    match f.step? pane live with
    | none => f
    | some f => settleFor pane live fuel f

/-- Enough moves for all that is in hand, in the ring and in the history. -/
def movesLeft (f : Follower) (pane : Pane) (live : Ring Envelope) : Nat :=
  f.inHand.length + 2 * (live.sent - f.next) + pane.replay.entries.length + 3

def settle (f : Follower) (pane : Pane) (live : Ring Envelope) : Follower :=
  settleFor pane live (f.movesLeft pane live) f

/-- What is queued stays readable; what is in hand is lost. -/
def abort (f : Follower) : Follower := { f with inHand := [], running := false }

def takeQueued (f : Follower) (count : Nat) : Follower × List StreamItem :=
  ({ f with queue := f.queue.drop count }, f.queue.take count)

def ended (f : Follower) : Bool := !f.running && f.queue.isEmpty

structure Read where
  items : List StreamItem
  ended : Bool
  deriving DecidableEq

def readFor (pane : Pane) (live : Ring Envelope) : Nat → Follower → Nat → Follower × Read
  | 0, f, _ => (f, ⟨[], false⟩)
  | fuel + 1, f, count =>
    let f := f.settle pane live
    if count = 0 then (f, ⟨[], false⟩)
    else if f.queue.isEmpty then (f, ⟨[], f.ended⟩)
    else
      let (f, items) := f.takeQueued count
      let (f, more) := readFor pane live fuel f (count - items.length)
      (f, ⟨items ++ more.items, more.ended⟩)

def read (f : Follower) (pane : Pane) (live : Ring Envelope) (count : Option Nat) :
    Follower × Read :=
  let all := f.queue.length + f.movesLeft pane live
  readFor pane live (all + 1) f (count.getD all)

def readQueued (f : Follower) (count : Option Nat) : Follower × Read :=
  let count := count.getD queueLimit
  let (f, items) := f.takeQueued count
  (f, ⟨items, items.length < count && f.ended⟩)

end Follower

structure LivePane where
  pane : Pane
  live : Ring Envelope
  followers : List Follower

namespace LivePane

def create (pane : Pane) : LivePane := ⟨pane, Ring.create pane.replay.capacity, []⟩

def afterwards (l : LivePane) (o : Outcome α) : LivePane :=
  { l with pane := o.pane, live := o.told.foldl Ring.send l.live }

def subscribe (l : LivePane) (from_ : Option Nat) : LivePane :=
  { l with followers := l.followers ++ [Follower.open_ l.pane l.live from_] }

def settle (l : LivePane) : LivePane :=
  { l with followers := l.followers.map (·.settle l.pane l.live) }

def isFollowed (l : LivePane) : Bool := l.followers.any (·.running)

def finish (l : LivePane) (timeout : Nat) : LivePane :=
  let l := if timeout = 0 then l else l.settle
  { l with followers := l.followers.map fun f => if f.running then f.abort else f }

theorem isFollowed_finish (l : LivePane) (timeout : Nat) :
    (l.finish timeout).isFollowed = false := by
  simp only [isFollowed, finish, List.any_map, List.any_eq_false]
  intro f _
  by_cases h : f.running <;> simp [Follower.abort, h]

def shutdown (l : LivePane) (now timeout : Nat) : LivePane × List Envelope × List ResourceId :=
  let o := l.pane.shutdown now
  let after := l.afterwards o
  (if l.pane.released then after else after.finish timeout, o.told, o.result)

def read (l : LivePane) (index : Nat) (count : Option Nat) : LivePane × Follower.Read :=
  match l.followers[index]? with
  | none => (l, ⟨[], false⟩)
  | some f =>
    let (f, r) := f.read l.pane l.live count
    ({ l with followers := l.followers.set index f }, r)

def readQueued (l : LivePane) (index : Nat) (count : Option Nat) : LivePane × Follower.Read :=
  match l.followers[index]? with
  | none => (l, ⟨[], false⟩)
  | some f =>
    let (f, r) := f.readQueued count
    ({ l with followers := l.followers.set index f }, r)

end LivePane

end Switchboard
