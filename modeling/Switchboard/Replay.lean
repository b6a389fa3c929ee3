import Switchboard.Envelope

/-!
# Replay

Each source has a bounded buffer of its newest envelopes. An envelope of a newer epoch drops
all that came before it, since numbers of different epochs cannot be compared. What has left
the buffer at the front of its epoch is remembered by its last number, so that a request either
gets everything it asks for or is told that there is a gap.
-/
namespace Switchboard

/-- Envelopes of the source up to `lastSeq` in the epoch could not be delivered. -/
structure DeliveryGap where
  source : Source
  epoch : Nat
  lastSeq : Nat
  deriving DecidableEq

inductive ReplayError where
  | nonMonotonic (source : Source) (epoch lastSeq got : Nat)
  | sourceMismatch (expected got : Source)
  | staleEpoch (source : Source) (current got : Nat)
  deriving DecidableEq

def ReplayError.message : ReplayError → String
  | .nonMonotonic source epoch lastSeq got =>
    "non-monotonic seq for " ++ source.text ++ " in epoch " ++ toString epoch ++ ": last " ++
      toString lastSeq ++ ", got " ++ toString got
  | .sourceMismatch expected got =>
    "envelope from " ++ got.text ++ " appended to buffer for " ++ expected.text
  | .staleEpoch source current got =>
    "stale epoch for " ++ source.text ++ ": current " ++ toString current ++ ", got " ++
      toString got

inductive GapReason where
  | evicted
  | epochReset
  deriving DecidableEq

inductive ReplayResult where
  | events (envelopes : List Envelope)
  | gap (reason : GapReason) (requested : Nat) (oldest : Option Nat) (epoch : Nat)
  deriving DecidableEq

def ReplayResult.isGap : ReplayResult → Bool
  | .events _ => false
  | .gap .. => true

/-- What a consumer that lost its place gets back: all that is retained after its cursor, and
the gap before that if something is gone. -/
structure Recovery where
  events : List Envelope
  lost : Option DeliveryGap
  deriving DecidableEq

def Recovery.nothing : Recovery := ⟨[], none⟩

structure ReplayBuffer where
  source : Source
  capacity : Nat
  entries : List Envelope
  epoch : Nat
  lastSeq : Nat
  evictedThrough : Nat
  totalEvicted : Nat
  deriving DecidableEq

namespace ReplayBuffer

def create (source : Source) (capacity : Nat) : ReplayBuffer where
  source
  capacity := max capacity 1
  entries := []
  epoch := 0
  lastSeq := 0
  evictedThrough := 0
  totalEvicted := 0

def oldestSeq (b : ReplayBuffer) : Option Nat := b.entries.head?.map Envelope.seq

def reset (b : ReplayBuffer) (epoch : Nat) : ReplayBuffer :=
  { b with entries := [], epoch, lastSeq := 0, evictedThrough := 0 }

def store (b : ReplayBuffer) (e : Envelope) : ReplayBuffer × Option Envelope :=
  match b.entries with
  | old :: rest =>
    if b.entries.length = b.capacity then
      ({ b with
          entries := rest ++ [e]
          lastSeq := e.seq
          evictedThrough := old.seq
          totalEvicted := b.totalEvicted + 1 }, some old)
    else ({ b with entries := b.entries ++ [e], lastSeq := e.seq }, none)
  | [] => ({ b with entries := [e], lastSeq := e.seq }, none)

/-- The buffer afterwards, and the entry that left it or the reason why the envelope is refused. -/
def append (b : ReplayBuffer) (e : Envelope) :
    ReplayBuffer × Except ReplayError (Option Envelope) :=
  if e.source ≠ b.source then (b, .error (.sourceMismatch b.source e.source))
  else if e.epoch < b.epoch then (b, .error (.staleEpoch b.source b.epoch e.epoch))
  else if b.epoch < e.epoch then ((b.reset e.epoch).store e).map id .ok
  else if e.seq ≤ b.lastSeq then (b, .error (.nonMonotonic b.source e.epoch b.lastSeq e.seq))
  else (b.store e).map id .ok

def push (b : ReplayBuffer) (e : Envelope) : ReplayBuffer := (b.append e).1

def after (b : ReplayBuffer) (seq : Nat) : List Envelope := b.entries.filter (seq < ·.seq)

theorem mem_after {b : ReplayBuffer} {seq : Nat} {e : Envelope} :
    e ∈ b.after seq ↔ e ∈ b.entries ∧ seq < e.seq := by
  simp [after]

theorem length_store_le {b : ReplayBuffer} (e : Envelope) (hc : 0 < b.capacity)
    (hl : b.entries.length ≤ b.capacity) :
    (b.store e).1.entries.length ≤ (b.store e).1.capacity := by
  rcases b with ⟨source, capacity, entries, epoch, lastSeq, through, total⟩
  cases entries with
  | nil => exact hc
  | cons old rest =>
    simp only [store, List.length_cons] at *
    split
    · simpa using hl
    · simp only [List.length_append, List.length_cons, List.length_nil]
      omega

def replay (b : ReplayBuffer) (from_ : Nat) : ReplayResult :=
  if from_ < b.evictedThrough then .gap .evicted from_ b.oldestSeq b.epoch
  else .events (b.after from_)

/-- A request for another epoch than the current one always meets a gap. -/
def replayFrom (b : ReplayBuffer) (epoch from_ : Nat) : ReplayResult :=
  if epoch ≠ b.epoch then .gap .epochReset from_ b.oldestSeq b.epoch else b.replay from_

def recoverAfter (b : ReplayBuffer) (seq : Nat) : Recovery where
  events := b.after seq
  lost := if seq < b.evictedThrough then some ⟨b.source, b.epoch, b.evictedThrough⟩ else none

def recover (b : ReplayBuffer) (cursor : Option Stamp) : Recovery :=
  match cursor with
  | none => b.recoverAfter 0
  | some stamp =>
    if stamp.epoch = b.epoch then b.recoverAfter stamp.seq
    else if b.epoch < stamp.epoch then .nothing
    else b.recoverAfter 0

end ReplayBuffer

end Switchboard
