import Switchboard.Proofs.FsSource.Numbering
import Switchboard.Proofs.FsSource.Overflow
import Switchboard.Proofs.FsSource.Probes
import Switchboard.Proofs.FsSource.Unregister

/-!
# When a root is flushed

A root is flushed when it was quiet for a while, or when the first of its waiting notices is old
enough, however many come in behind it. Both follow from the times of the notices that wait, as long
as no clock goes back.
-/
namespace Switchboard

open Mirror (Step perform)

theorem satAdd_mono {a b : Nat} (h : a ≤ b) (c : Nat) : satAdd a c ≤ satAdd b c := by
  simp only [satAdd]
  omega

namespace Mirror

def Step.time? : Step → Option Nat
  | .ingest _ now | .flushRoot _ now | .flushDue now | .answer _ now => some now
  | _ => none

end Mirror

/-- Notices that came in at these times are to be flushed: it was quiet for long enough since the
last of them, or the first of them is old enough. -/
def BatchPolicy.IsDue (policy : BatchPolicy) (times : List Nat) (now : Nat) : Prop :=
  ∃ first last, times.head? = some first ∧ times.getLast? = some last ∧
    (satAdd last policy.debounce ≤ now ∨ satAdd first policy.maxLatency ≤ now)

namespace Batcher

variable {b : Batcher} {d now : Nat}

theorem mem_deadlines (hs : Table.Sorted b.pending) :
    d ∈ b.deadlines ↔ ∃ u, b.deadline? u = some d := by
  simp only [deadlines, deadline?, List.mem_map, Option.map_eq_some_iff]
  constructor
  · rintro ⟨⟨u, batch⟩, hm, rfl⟩
    exact ⟨u, batch, hs.get?_of_mem hm, rfl⟩
  · rintro ⟨u, batch, hb, rfl⟩
    exact ⟨(u, batch), Table.mem_of_get? hb, rfl⟩

theorem nextDeadline_eq_some_iff (hs : Table.Sorted b.pending) : b.nextDeadline = some d ↔
    (∃ u, b.deadline? u = some d) ∧ ∀ u d', b.deadline? u = some d' → d ≤ d' := by
  rw [nextDeadline, List.min?_eq_some_iff, mem_deadlines hs]
  refine and_congr_right fun _ => ⟨fun h u d' hu => h d' ((mem_deadlines hs).mpr ⟨u, hu⟩), ?_⟩
  intro h d' hd
  obtain ⟨u, hu⟩ := (mem_deadlines hs).mp hd
  exact h u d' hu

theorem nextDeadline_eq_none_iff (hs : Table.Sorted b.pending) :
    b.nextDeadline = none ↔ ∀ u, b.hasPending u = false := by
  rw [nextDeadline, List.min?_eq_none_iff, List.eq_nil_iff_forall_not_mem]
  simp only [mem_deadlines hs, not_exists]
  constructor
  · intro h u
    rw [hasPending]
    cases hb : b.pending? u with
    | none => rfl
    | some batch => exact absurd (by rw [deadline?, hb]; rfl) (h (batch.deadline b.policy) u)
  · intro h d u hd
    obtain ⟨batch, hb, -⟩ := Option.map_eq_some_iff.mp hd
    have hu := h u
    rw [hasPending, hb] at hu
    cases hu

theorem mem_due_iff_deadline? (hs : Table.Sorted b.pending) {w : WorktreeId} :
    w ∈ b.due now ↔ ∃ d, b.deadline? w = some d ∧ d ≤ now := by
  rw [mem_due b now hs]
  simp only [deadline?, Option.map_eq_some_iff]
  constructor
  · rintro ⟨batch, hb, hd⟩
    exact ⟨_, ⟨batch, hb, rfl⟩, hd⟩
  · rintro ⟨_, ⟨batch, hb, rfl⟩, hd⟩
    exact ⟨batch, hb, hd⟩

end Batcher

namespace FsSource

theorem Felt.probing {w : WorktreeId} {a b : Option RootState} {reasons : List ReconcileReason}
    {requests : List ProbeRequest} (h : Felt w a reasons requests b) (ha : a.isSome = true)
    (hr : reasons ≠ []) : (b.map (·.probing)).getD false = true := by
  cases h with
  | still => exact absurd rfl hr
  | unknown => cases ha
  | waits reason hp => exact hp
  | starts => rfl

def Route.concerns (w : WorktreeId) : Route → Bool
  | .unowned => false
  | .statusOnly u => u = w
  | .changed u _ => u = w

def letsGo (s : FsSource) (w : WorktreeId) : Step → Bool
  | .flushRoot u _ => u = w
  | .flushDue now => w ∈ s.dueRoots now
  | .unregister u => u = w
  | _ => false

def noticeTimes (s : FsSource) (w : WorktreeId) (times : List Nat) : Step → List Nat
  | .ingest raws now => times ++ ((raws.map s.route).filter (·.concerns w)).map fun _ => now
  | x => if s.letsGo w x then [] else times

def noticeTimesAfter (s : FsSource) (w : WorktreeId) (times : List Nat) : List Step → List Nat
  | [] => times
  | x :: rest => (perform s x).1.noticeTimesAfter w (s.noticeTimes w times x) rest

section Steps

variable {s : FsSource} {w : WorktreeId}

theorem mem_dueRoots (h : s.Sound) {now : Nat} :
    w ∈ s.dueRoots now ↔ ∃ d, s.batcher.deadline? w = some d ∧ d ≤ now := by
  rw [dueRoots, scheduled, List.mem_mergeSort, Batcher.mem_due_iff_deadline? h.sorted]

theorem batcher_beginProbes (hc : s.Consistent) (reason : ReconcileReason) (ws : List WorktreeId) :
    (s.beginProbes reason ws).1.batcher = s.batcher := by
  induction ws generalizing s with
  | nil => rfl
  | cons w rest ih =>
    rw [beginProbes_cons]
    exact (ih ((keeps_beginProbe hc w reason).consistent hc)).trans (batcher_beginProbe hc w reason)

theorem pending?_flushRoots (h : s.Sound) (now : Nat) (ws : List WorktreeId) (u : WorktreeId) :
    (s.flushRoots now ws).1.batcher.pending? u =
      if u ∈ ws then none else s.batcher.pending? u := by
  induction ws generalizing s with
  | nil => rfl
  | cons w rest ih =>
    have hsound : (s.flushRoot w now).1.Sound := h.perform (.flushRoot w now)
    rw [(s.flushRoots_cons now w rest).1, ih hsound, pending?_flushRoot h.consistent (h.owned w)]
    by_cases hw : w = u
    · simp [hw]
    · simp [hw, Ne.symm hw]

theorem pending?_answer (hc : s.Consistent) (o : ProbeOutcome) (now : Nat) (u : WorktreeId) :
    (s.applyStatus o now).1.batcher.pending? u = s.batcher.pending? u := by
  cases ha : s.awaiting? o with
  | none => rw [applyStatus_of_dropped ha]
  | some state =>
    obtain ⟨batcher, sequencer, hp, -, he⟩ := heard_fst s o state now
    have hheard : (s.heard o state now).1.batcher.pending? u = s.batcher.pending? u := by
      rw [he, Batcher.pending?, Batcher.pending?, ← hp]
    rw [applyStatus_of_awaited ha]
    cases state.queued with
    | none => exact hheard
    | some reason =>
      simp only [resumed]
      rw [batcher_beginProbe ((keeps_heard ha now).consistent hc), hheard]

theorem not_pending_of_unregistered (h : s.Sound) (hg : s.generation? w = none) :
    s.batcher.pending? w = none := by
  by_contra hp
  have hroot := h.owned w (Option.isSome_iff_ne_none.mpr hp)
  rw [← h.consistent, ← isSome_generation?, hg] at hroot
  cases hroot

theorem pending?_perform (h : s.Sound) {x : Step} (hx : ∀ raws now, x ≠ .ingest raws now) :
    (perform s x).1.batcher.pending? w =
      if s.letsGo w x then none else s.batcher.pending? w := by
  cases x with
  | ingest raws now => exact absurd rfl (hx raws now)
  | register u path tier =>
    simp only [perform, letsGo]
    cases hr : s.register u path tier with
    | error e => rfl
    | ok out =>
      obtain ⟨table, hi, hb⟩ := register_cases hr
      have hbatcher := batcher_beginProbe (consistent_entered h.consistent hi) u .wake
      rw [hb] at hbatcher
      exact congrArg (Batcher.pending? · w) hbatcher
  | unregister u =>
    by_cases huw : u = w
    · subst huw
      rw [not_pending_of_unregistered (h.perform _) (h.generation?_perform_unregister u)]
      simp [letsGo]
    simp only [perform, letsGo, huw, decide_false]
    cases hu : s.unregister u with
    | error e => rfl
    | ok out =>
      obtain ⟨table, root, -, -, he⟩ := unregister_cases hu
      rw [he, Batcher.pending?_drop, if_neg huw]
      rfl
  | setTier u tier =>
    simp only [perform, letsGo]
    cases ht : s.setTier u tier with
    | error e => rfl
    | ok out =>
      obtain ⟨table, -, rfl⟩ := setTier_cases ht
      rfl
  | setFocused u => rfl
  | flushRoot u now =>
    simp only [perform, letsGo, pending?_flushRoot h.consistent (h.owned u), decide_eq_true_eq]
  | flushDue now =>
    simp only [perform, letsGo, flushDue, pending?_flushRoots h, decide_eq_true_eq]
  | request u reason =>
    exact congrArg (Batcher.pending? · w) (batcher_beginProbe h.consistent u reason)
  | requestAll reason =>
    exact congrArg (Batcher.pending? · w) (batcher_beginProbes h.consistent reason _)
  | answer o now => exact pending?_answer h.consistent o now w

end Steps

/-- The notices that wait for the root came in at these times, none of them later than now. -/
structure Dated (s : FsSource) (w : WorktreeId) (times : List Nat) (now : Nat) : Prop where
  first : (s.batcher.pending? w).map (·.first) = times.head?
  last : (s.batcher.pending? w).map (·.last) = times.getLast?
  past : ∀ t ∈ times, t ≤ now

def Waits (s : FsSource) : Route → Prop
  | .unowned => False
  | .statusOnly w => s.batcher.statusPending w = true
  | .changed w rel => PathSet.contains (s.batcher.waiting w) rel = true

/-- Of the notices that wait for the root the first came in no later than this. -/
def WaitsSince (s : FsSource) (w : WorktreeId) (t : Nat) : Prop :=
  ∃ batch, s.batcher.pending? w = some batch ∧ batch.first ≤ t

section Notices

variable {s : FsSource} {w : WorktreeId} {times : List Nat} {t now : Nat} {r : Route}

theorem dated_nil (h : s.batcher.pending? w = none) : s.Dated w [] now :=
  ⟨by simp [h], by simp [h], by simp⟩

theorem Dated.later (h : s.Dated w times t) (ht : t ≤ now) : s.Dated w times now :=
  ⟨h.first, h.last, fun u hu => Nat.le_trans (h.past u hu) ht⟩

theorem Dated.of_pending (h : s.Dated w times now) {s' : FsSource}
    (hp : s'.batcher.pending? w = s.batcher.pending? w) : s'.Dated w times now :=
  ⟨hp ▸ h.first, hp ▸ h.last, h.past⟩

theorem pending?_note (s : FsSource) (now : Nat) (r : Route) (w : WorktreeId) :
    ∃ paths statusDirty, (s.note now r).batcher.pending? w =
      if r.concerns w then some { s.batcher.noticed w now with paths, statusDirty }
      else s.batcher.pending? w := by
  cases r with
  | unowned => exact ⟨[], false, rfl⟩
  | statusOnly u =>
    refine ⟨(s.batcher.noticed w now).paths, true, ?_⟩
    simp only [note, Batcher.pending?_noteStatus, Route.concerns, decide_eq_true_eq]
    by_cases hu : u = w <;> simp [hu]
  | changed u rel =>
    refine ⟨(s.batcher.waiting w).insert rel, (s.batcher.noticed w now).statusDirty, ?_⟩
    simp only [note, Batcher.pending?_notePath, Route.concerns, decide_eq_true_eq]
    by_cases hu : u = w <;> simp [hu]

theorem Dated.note (h : s.Dated w times now) (r : Route) :
    (s.note now r).Dated w (if r.concerns w then times ++ [now] else times) now := by
  obtain ⟨paths, dirty, hp⟩ := s.pending?_note now r w
  by_cases hr : r.concerns w = true
  · rw [if_pos hr] at hp ⊢
    have hfirst := h.first
    have hlast := h.last
    refine ⟨?_, ?_, fun t ht => ?_⟩
    · rw [hp, List.head?_append, ← hfirst, Batcher.noticed]
      cases s.batcher.pending? w <;> rfl
    · rw [hp, List.getLast?_concat, Batcher.noticed]
      cases hb : s.batcher.pending? w with
      | none => simp [PendingBatch.opened]
      | some batch =>
        rw [hb] at hlast
        have hle := h.past _ (List.mem_of_getLast? hlast.symm)
        simpa using Nat.max_eq_right hle
    · rcases List.mem_append.mp ht with ht | ht
      · exact h.past t ht
      · exact Nat.le_of_eq (List.mem_singleton.mp ht)
  · rw [if_neg hr] at hp ⊢
    exact h.of_pending hp

theorem Dated.notes (h : s.Dated w times now) (routes : List Route) :
    (routes.foldl (FsSource.note · now) s).Dated w
      (times ++ (routes.filter (·.concerns w)).map fun _ => now) now := by
  induction routes generalizing s times with
  | nil => simpa using h
  | cons r rest ih =>
    have := ih (h.note r)
    by_cases hr : r.concerns w = true
    · rw [if_pos hr, List.append_assoc] at this
      rwa [List.filter_cons_of_pos hr, List.map_cons]
    · rw [if_neg hr] at this
      rwa [List.filter_cons_of_neg hr]

theorem Dated.perform (h : s.Dated w times t) (hs : s.Sound) (x : Step) (ht : t ≤ now)
    (hx : ∀ u, x.time? = some u → t ≤ u ∧ u ≤ now) :
    (Mirror.perform s x).1.Dated w (s.noticeTimes w times x) now := by
  by_cases hi : ∃ raws u, x = .ingest raws u
  · obtain ⟨raws, u, rfl⟩ := hi
    obtain ⟨htu, hu⟩ := hx u rfl
    exact ((h.later htu).notes _).later hu
  · have hi' : ∀ raws u, x ≠ .ingest raws u := fun raws u he => hi ⟨raws, u, he⟩
    have hp := pending?_perform (w := w) hs hi'
    have htimes : s.noticeTimes w times x = if s.letsGo w x then [] else times := by
      cases x with
      | ingest raws u => exact absurd rfl (hi' raws u)
      | _ => rfl
    rw [htimes]
    by_cases hl : s.letsGo w x = true
    · rw [if_pos hl] at hp ⊢
      exact dated_nil hp
    · rw [if_neg hl] at hp ⊢
      exact (h.of_pending hp).later ht

theorem Dated.after (h : s.Dated w times t) (hs : s.Sound) {steps : List Step}
    (hclock : (t :: steps.filterMap Step.time?).Pairwise (· ≤ ·)) :
    (s.after steps).Dated w (s.noticeTimesAfter w times steps)
      ((steps.filterMap Step.time?).getLast?.getD t) := by
  induction steps generalizing s times t with
  | nil => exact h
  | cons x rest ih =>
    cases hx : x.time? with
    | none =>
      rw [List.filterMap_cons_none hx] at hclock ⊢
      exact ih (h.perform hs x (Nat.le_refl t) (by simp [hx])) (hs.perform x) hclock
    | some u =>
      rw [List.filterMap_cons_some hx] at hclock ⊢
      obtain ⟨hle, hrest⟩ := List.pairwise_cons.mp hclock
      have htu := hle u List.mem_cons_self
      rw [List.getLast?_cons, Option.getD_some]
      exact ih (h.perform hs x htu (by simpa [hx] using htu)) (hs.perform x) hrest

theorem dated_after (hs : s.Sound) (hn : s.batcher.pending? w = none) {steps : List Step}
    (hclock : (steps.filterMap Step.time?).Pairwise (· ≤ ·)) :
    (s.after steps).Dated w (s.noticeTimesAfter w [] steps)
      ((steps.filterMap Step.time?).getLast?.getD 0) :=
  (dated_nil hn).after hs (List.pairwise_cons.mpr ⟨fun t _ => Nat.zero_le t, hclock⟩)

theorem Dated.deadline? (h : s.Dated w times now) : s.batcher.deadline? w =
    times.head?.bind fun first => times.getLast?.map fun last =>
      min (satAdd last s.batcher.policy.debounce) (satAdd first s.batcher.policy.maxLatency) := by
  rw [← h.first, ← h.last, Batcher.deadline?]
  cases s.batcher.pending? w <;> rfl

theorem Dated.mem_dueRoots_iff (h : s.Dated w times t) (hs : s.Sound) :
    w ∈ s.dueRoots now ↔ s.batcher.policy.IsDue times now := by
  simp only [mem_dueRoots hs, h.deadline?, Option.bind_eq_some_iff, Option.map_eq_some_iff,
    BatchPolicy.IsDue]
  constructor
  · rintro ⟨_, ⟨first, hf, last, hl, rfl⟩, hle⟩
    exact ⟨first, last, hf, hl, by omega⟩
  · rintro ⟨first, last, hf, hl, hle⟩
    exact ⟨_, ⟨first, hf, last, hl, rfl⟩, by omega⟩

theorem Dated.waitsSince (h : s.Dated w times now) (hne : times ≠ []) : s.WaitsSince w now := by
  have hfirst := h.first
  rw [List.head?_eq_some_head hne] at hfirst
  obtain ⟨batch, hb, hf⟩ := Option.map_eq_some_iff.mp hfirst
  exact ⟨batch, hb, hf ▸ h.past _ (List.head_mem hne)⟩

end Notices

section Waiting

variable {s s' : FsSource} {w : WorktreeId} {t : Nat} {r : Route}

theorem waitsSince_note (h : s.WaitsSince w t) (now : Nat) (new : Route) :
    (s.note now new).WaitsSince w t := by
  obtain ⟨batch, hb, hle⟩ := h
  obtain ⟨paths, dirty, hp⟩ := s.pending?_note now new w
  by_cases hw : new.concerns w = true
  · rw [if_pos hw] at hp
    refine ⟨_, hp, ?_⟩
    simpa only [Batcher.noticed, hb, Option.getD_some] using hle
  · rw [if_neg hw] at hp
    exact ⟨batch, hp.trans hb, hle⟩

theorem waits_note (h : s.Waits r) (now : Nat) (new : Route) : (s.note now new).Waits r := by
  cases r with
  | unowned => exact h
  | statusOnly w =>
    cases new with
    | unowned => exact h
    | statusOnly u => simp_all [Waits, note, Batcher.statusPending_noteStatus]
    | changed u rel => simpa [Waits, note, Batcher.statusPending_notePath] using h
  | changed w rel =>
    cases new with
    | unowned => exact h
    | statusOnly u => simpa [Waits, note, Batcher.waiting_noteStatus] using h
    | changed u rel' =>
      simp only [Waits, note, Batcher.waiting_notePath] at h ⊢
      split
      · exact PathSet.contains_insert.mpr (.inr h)
      · exact h

theorem waits_note_self (hr : r.concerns w = true) (s : FsSource) (now : Nat) :
    (s.note now r).Waits r := by
  cases r with
  | unowned => cases hr
  | statusOnly u => simp [Waits, note, Batcher.statusPending_noteStatus]
  | changed u rel => simp [Waits, note, Batcher.waiting_notePath, PathSet.contains_insert_self]

theorem waits_congr (hr : r.concerns w = true)
    (hp : s'.batcher.pending? w = s.batcher.pending? w) : s'.Waits r ↔ s.Waits r := by
  cases r with
  | unowned => exact Iff.rfl
  | statusOnly u =>
    obtain rfl := of_decide_eq_true hr
    simp only [Waits, Batcher.statusPending, hp]
  | changed u rel =>
    obtain rfl := of_decide_eq_true hr
    simp only [Waits, Batcher.waiting, hp]

theorem notes_keep (h : s.WaitsSince w t ∧ s.Waits r) (now : Nat) (routes : List Route) :
    (routes.foldl (note · now) s).WaitsSince w t ∧ (routes.foldl (note · now) s).Waits r := by
  induction routes generalizing s with
  | nil => exact h
  | cons new rest ih => exact ih ⟨waitsSince_note h.1 now new, waits_note h.2 now new⟩

theorem perform_keeps (h : s.WaitsSince w t ∧ s.Waits r) (hs : s.Sound)
    (hr : r.concerns w = true) {x : Step} (hx : s.letsGo w x = false) :
    (perform s x).1.WaitsSince w t ∧ (perform s x).1.Waits r := by
  by_cases hi : ∃ raws now, x = .ingest raws now
  · obtain ⟨raws, now, rfl⟩ := hi
    exact notes_keep h now _
  · have hp := pending?_perform (w := w) hs fun raws now he => hi ⟨raws, now, he⟩
    rw [if_neg (by simp [hx])] at hp
    exact ⟨by simpa only [WaitsSince, hp] using h.1, (waits_congr hr hp).mpr h.2⟩

theorem after_keeps (h : s.WaitsSince w t ∧ s.Waits r) (hs : s.Sound) (hr : r.concerns w = true)
    {steps : List Step} (hx : ¬ s.Somewhere steps fun s x => s.letsGo w x = true) :
    (s.after steps).WaitsSince w t ∧ (s.after steps).Waits r := by
  induction steps generalizing s with
  | nil => exact h
  | cons x rest ih =>
    rw [somewhere_cons, not_or, Bool.not_eq_true] at hx
    exact ih (perform_keeps h hs hr hx.1) (hs.perform x) hx.2

theorem ingest_waits {times : List Nat} (h : s.Dated w times t) {raws : List Path}
    (hm : r ∈ raws.map s.route) (hr : r.concerns w = true) :
    (s.ingest raws t).1.WaitsSince w t ∧ (s.ingest raws t).1.Waits r := by
  obtain ⟨front, behind, hsplit⟩ := List.append_of_mem hm
  have hall : (s.ingest raws t).1 =
      behind.foldl (note · t) ((front.foldl (note · t) s).note t r) := by
    show (raws.map s.route).foldl (note · t) s = _
    rw [hsplit, List.foldl_append, List.foldl_cons]
  have hdated := (h.notes front).note r
  rw [if_pos hr] at hdated
  rw [hall]
  exact notes_keep ⟨hdated.waitsSince (by simp), waits_note_self hr _ t⟩ t behind

theorem waits_after_ingest (hs : s.Sound) (hn : s.batcher.pending? w = none)
    {front mid : List Step} {raws : List Path}
    (hclock : ((front ++ .ingest raws t :: mid).filterMap Step.time?).Pairwise (· ≤ ·))
    (hm : r ∈ raws.map (s.after front).route) (hr : r.concerns w = true)
    (hkept : ¬ (s.after (front ++ [.ingest raws t])).Somewhere mid
      fun s x => s.letsGo w x = true) :
    (s.after (front ++ .ingest raws t :: mid)).WaitsSince w t ∧
      (s.after (front ++ .ingest raws t :: mid)).Waits r := by
  have hfront : (s.after front).Sound := hs.after front
  rw [List.filterMap_append, List.filterMap_cons_some
    (show Step.time? (.ingest raws t) = some t from rfl), List.pairwise_append] at hclock
  obtain ⟨hclock, -, hbefore⟩ := hclock
  have hbound : (front.filterMap Step.time?).getLast?.getD 0 ≤ t := by
    cases hg : (front.filterMap Step.time?).getLast? with
    | none => exact Nat.zero_le t
    | some u => exact hbefore u (List.mem_of_getLast? hg) t List.mem_cons_self
  have hwaits := ingest_waits ((dated_after hs hn hclock).later hbound) hm hr
  rw [after_append] at hkept
  rw [after_append, after_cons]
  exact after_keeps hwaits (hfront.perform (.ingest raws t)) hr hkept

theorem due_of_waitsSince (hs : s.Sound) (h : s.WaitsSince w t) {now : Nat}
    (hle : satAdd t s.batcher.policy.maxLatency ≤ now) : w ∈ s.dueRoots now := by
  obtain ⟨batch, hb, hfirst⟩ := h
  refine (mem_dueRoots hs).mpr ⟨_, by rw [Batcher.deadline?, hb]; rfl, ?_⟩
  calc batch.deadline s.batcher.policy
    _ ≤ satAdd batch.first s.batcher.policy.maxLatency := Nat.min_le_right _ _
    _ ≤ satAdd t s.batcher.policy.maxLatency := satAdd_mono hfirst _
    _ ≤ now := hle

theorem hasPending_of_due (hs : s.Sound) {now : Nat} (hw : w ∈ s.dueRoots now) :
    s.batcher.hasPending w = true := by
  obtain ⟨d, hd, -⟩ := (mem_dueRoots hs).mp hw
  obtain ⟨batch, hb, -⟩ := Option.map_eq_some_iff.mp hd
  exact (Batcher.hasPending_iff _ _).mpr ⟨batch, hb⟩

theorem lt_of_deadline?_flushDue (hs : s.Sound) {now d : Nat}
    (hd : (s.flushDue now).1.batcher.deadline? w = some d) : now < d := by
  have hpolicy : (s.flushDue now).1.batcher.policy = s.batcher.policy :=
    (s.speaks_flushRoots now hs (s.dueRoots now)).policy
  rw [Batcher.deadline?, flushDue, pending?_flushRoots hs] at hd
  split at hd
  next => cases hd
  next hw =>
    rw [← flushDue, hpolicy] at hd
    by_contra hle
    exact hw ((mem_dueRoots hs).mpr ⟨d, hd, by omega⟩)

theorem probing_flushDue (hs : s.Sound) {now : Nat} (hw : w ∈ s.dueRoots now) :
    (s.flushDue now).1.probing w = true := by
  have hpending : ∀ u ∈ s.dueRoots now, s.batcher.hasPending u = true :=
    fun u hu => hasPending_of_due hs hu
  have hstate : (s.state? w).isSome = true := by
    rw [hs.consistent]
    exact hs.owned w (hpending w hw)
  have hfelt := felt_flushRoots hs.consistent hs.owned now
    (nodup_scheduled (s.batcher.nodup_due now hs.sorted)) hpending w
  have hreasons : reasonsFor w ((s.dueRoots now).map (·, .flush)) ≠ [] := by
    have hmem : ReconcileReason.flush ∈ reasonsFor w ((s.dueRoots now).map (·, .flush)) := by
      simpa [reasonsFor] using hw
    exact List.ne_nil_of_mem hmem
  exact hfelt.probing hstate hreasons

end Waiting

/-- While no clock goes back, a root is flushed in time, whatever comes in for it and for others.
Its deadline follows from the first and the last of the notices that wait for it. A flush of what is
due takes all of them if the deadline has come, and none of them otherwise, and leaves no root
behind that is due; and the next deadline is always the least one. So a notice that came in at some
time, for a root that was neither unregistered nor flushed since, is taken by the flush at the
latest time for it or behind that: the path is told, and the root is looked at. -/
theorem flushed_in_time (config : FsConfig) (epoch : Nat) (steps : List Step)
    (hclock : (steps.filterMap Step.time?).Pairwise (· ≤ ·)) (w : WorktreeId) :
    let s := (create config epoch).after steps
    let times := (create config epoch).noticeTimesAfter w [] steps
    (s.batcher.deadline? w = times.head?.bind fun first => times.getLast?.map fun last =>
        min (satAdd last config.batch.debounce) (satAdd first config.batch.maxLatency)) ∧
      (∀ d, s.nextDeadline = some d ↔ (∃ u, s.batcher.deadline? u = some d) ∧
        ∀ u d', s.batcher.deadline? u = some d' → d ≤ d') ∧
      (s.nextDeadline = none ↔ ∀ u, s.batcher.hasPending u = false) ∧
      ∀ now,
        (config.batch.IsDue times now →
          s.batcher.hasPending w = true ∧ (s.flushDue now).1.batcher.hasPending w = false) ∧
        (¬ config.batch.IsDue times now →
          (s.flushDue now).1.batcher.pending? w = s.batcher.pending? w ∧
            changedPaths w (s.flushDue now).2.envelopes = []) ∧
        (∀ d, (s.flushDue now).1.nextDeadline = some d → now < d) ∧
        ∀ front raws t mid r, steps = front ++ .ingest raws t :: mid →
          r ∈ raws.map ((create config epoch).after front).route → r.concerns w = true →
          (¬ ((create config epoch).after (front ++ [.ingest raws t])).Somewhere mid
            fun s x => s.letsGo w x = true) →
          satAdd t config.batch.maxLatency ≤ now →
          s.Waits r ∧ (s.flushDue now).1.batcher.hasPending w = false ∧
            (∀ rel, r = .changed w rel →
              PathSet.contains (changedPaths w (s.flushDue now).2.envelopes) rel = true) ∧
            (s.flushDue now).1.probing w = true := by
  intro s times
  have hstart := sound_create config epoch
  have hs : s.Sound := hstart.after steps
  have hdebounce : s.batcher.policy.debounce = config.batch.debounce := by
    rw [(speaks_told hstart steps).policy]
    rfl
  have hlatency : s.batcher.policy.maxLatency = config.batch.maxLatency := by
    rw [(speaks_told hstart steps).policy]
    rfl
  have hdated : s.Dated w times _ := dated_after hstart rfl hclock
  have hdue : ∀ now, w ∈ s.dueRoots now ↔ config.batch.IsDue times now := by
    intro now
    rw [hdated.mem_dueRoots_iff hs]
    simp only [BatchPolicy.IsDue, hdebounce, hlatency]
  have hpending := pending?_flushRoots hs
  refine ⟨by rw [hdated.deadline?, hdebounce, hlatency], fun d =>
    Batcher.nextDeadline_eq_some_iff hs.sorted, ?_, fun now => ⟨fun h => ?_, fun h => ?_, ?_, ?_⟩⟩
  · exact Batcher.nextDeadline_eq_none_iff hs.sorted
  · have hw := (hdue now).mpr h
    exact ⟨hasPending_of_due hs hw, by rw [Batcher.hasPending, flushDue, hpending, if_pos hw]; rfl⟩
  · have hw := mt (hdue now).mp h
    exact ⟨by rw [flushDue, hpending, if_neg hw],
      by rw [flushDue, changedPaths_flushRoots hs, if_neg hw]⟩
  · intro d hd
    have hafter : (s.flushDue now).1.Sound := hs.perform (.flushDue now)
    obtain ⟨⟨u, hu⟩, -⟩ := (Batcher.nextDeadline_eq_some_iff hafter.sorted).mp hd
    exact lt_of_deadline?_flushDue hs hu
  · intro front raws t mid r hsteps hm hr hkept hle
    obtain ⟨hsince, hr'⟩ : s.WaitsSince w t ∧ s.Waits r := by
      simp only [s, hsteps]
      exact waits_after_ingest hstart rfl (hsteps ▸ hclock) hm hr hkept
    have hw : w ∈ s.dueRoots now := due_of_waitsSince hs hsince (by rw [hlatency]; exact hle)
    refine ⟨hr', by rw [Batcher.hasPending, flushDue, hpending, if_pos hw]; rfl, ?_,
      probing_flushDue hs hw⟩
    rintro rel rfl
    rw [flushDue, changedPaths_flushRoots hs, if_pos hw]
    exact hr'

def busyRoot : List Step :=
  [.register ⟨"W1"⟩ ⟨"/a"⟩ .activeInApp, .register ⟨"W2"⟩ ⟨"/b"⟩ .activeInApp,
    .ingest [⟨"/a/x.txt"⟩] 100, .flushDue 500, .ingest [⟨"/a/y.txt"⟩, ⟨"/b/z.txt"⟩] 550,
    .ingest [⟨"/a/x.txt"⟩] 1000, .flushDue 1050, .ingest [⟨"/a/y.txt"⟩] 1400,
    .ingest [⟨"/a/y.txt"⟩] 1800]

theorem flushed_in_time_busy :
    let s := (create ⟨.standard, false, []⟩ 0).after busyRoot
    (busyRoot.filterMap Step.time?).Pairwise (· ≤ ·) ∧
      (create ⟨.standard, false, []⟩ 0).noticeTimesAfter ⟨"W1"⟩ [] busyRoot =
        [100, 550, 1000, 1400, 1800] ∧
      s.batcher.deadline? ⟨"W1"⟩ = some 2100 ∧ ⟨"W1"⟩ ∉ s.dueRoots 2099 ∧
      (s.flushDue 2100).1.batcher.hasPending ⟨"W1"⟩ = false ∧
      PathSet.contains (changedPaths ⟨"W1"⟩ (s.flushDue 2100).2.envelopes) ⟨"x.txt"⟩ = true := by
  intro s
  have hclock : (busyRoot.filterMap Step.time?).Pairwise (· ≤ ·) := by decide +kernel
  have htimes : (create ⟨.standard, false, []⟩ 0).noticeTimesAfter ⟨"W1"⟩ [] busyRoot =
      [100, 550, 1000, 1400, 1800] := by decide +kernel
  obtain ⟨hdeadline, -, -, hnow⟩ :=
    flushed_in_time ⟨.standard, false, []⟩ 0 busyRoot hclock ⟨"W1"⟩
  obtain ⟨-, -, -, htaken⟩ := hnow 2100
  have hkept : ¬ ((create ⟨.standard, false, []⟩ 0).after (busyRoot.take 3)).Somewhere
      (busyRoot.drop 3) fun s x => s.letsGo ⟨"W1"⟩ x = true := by
    simp only [busyRoot, List.drop_succ_cons, List.drop_zero, somewhere_cons, somewhere_nil]
    decide +kernel
  obtain ⟨-, hgone, htold, -⟩ := htaken (busyRoot.take 2) [⟨"/a/x.txt"⟩] 100 (busyRoot.drop 3)
    (.changed ⟨"W1"⟩ ⟨"x.txt"⟩) rfl (by decide +kernel) (by decide +kernel) hkept
    (by decide +kernel)
  exact ⟨hclock, htimes, by rw [hdeadline, htimes]; rfl, by decide +kernel, hgone, htold _ rfl⟩

end FsSource

end Switchboard
