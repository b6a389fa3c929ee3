import Mathlib.Algebra.GroupWithZero.Nat
import Switchboard.Proofs.Reducer.Batch

/-!
# Courses of a reducer

A reducer is asked one thing after the other, and now and then it hands out a batch. A course writes
down which batches there were and what entered since the last one. At every point of a course the
next batch is what is owed of that, and the counts add up.
-/
namespace Switchboard

theorem filterMap_concat_none {α β : Type} {f : α → Option β} {x : α} (h : f x = none)
    (l : List α) : (l ++ [x]).filterMap f = l.filterMap f := by
  rw [List.filterMap_append, List.filterMap_cons_none h, List.filterMap_nil, List.append_nil]

def Entry.control? : Entry → Option Control
  | .control c => some c
  | _ => none

inductive Request where
  | enter (x : Entry)
  | poll (now : Nat)
  deriving DecidableEq

def Request.entry? : Request → Option Entry
  | .enter x => some x
  | .poll _ => none

def Resolver.heed (v : Resolver) : Control → Resolver
  | .setFocus focus => v.setFocus focus
  | .bind pane worktree => v.bind pane worktree
  | .forget pane => v.forget pane

def latest (lost : List DeliveryGap) : List DeliveryGap :=
  standing (fun g later => decide (later.source = g.source)) lost

namespace Reducer

/-- The pending envelopes and the gaps are what is left of all that entered, and every envelope
that was replaced is counted. -/
structure Collects (r : Reducer) (entries : List Entry) : Prop where
  tidy : r.Tidy
  pending : ∃ ps : List Pending, ps.map (·.envelope) = entries.filterMap Entry.envelope? ∧
    (r.critical ++ r.lossy.map (·.2)).Perm
      (standing (fun p later => p.envelope.replacedBy later.envelope) ps) ∧
    ps.Pairwise (·.arrival < ·.arrival) ∧ ∀ p ∈ ps, p.arrival < r.nextArrival
  coalesced : r.coalesced + r.pendingCount = (entries.filterMap Entry.envelope?).length
  gaps : r.gaps = latest (entries.filterMap Entry.loss?)

theorem push_of_critical (r : Reducer) {e : Envelope} (h : e.policy = .critical) :
    (r.push e).critical = r.critical ++ [⟨r.nextArrival, e⟩] ∧ (r.push e).lossy = r.lossy ∧
      (r.push e).coalesced = r.coalesced := by
  simp only [push, h, and_self]

theorem push_of_lossy (r : Reducer) {e : Envelope} {key : String} (h : e.policy = .lossy key) :
    (r.push e).critical = r.critical ∧ (r.push e).lossy = r.lossy.set key ⟨r.nextArrival, e⟩ ∧
      (r.push e).coalesced = if r.lossy.contains key then r.coalesced + 1 else r.coalesced := by
  simp only [push, h, and_self]

theorem nextArrival_push (r : Reducer) (e : Envelope) :
    (r.push e).nextArrival = r.nextArrival + 1 := by
  simp only [push]
  cases e.policy <;> rfl

theorem stats_push (r : Reducer) (e : Envelope) :
    (r.push e).stats = { r.stats with pushed := r.stats.pushed + 1 } := by
  simp only [push]
  cases e.policy <;> rfl

theorem perm_push {r : Reducer} (ht : r.Tidy) (e : Envelope) :
    ((r.push e).critical ++ (r.push e).lossy.map (·.2)).Perm
      ((r.critical ++ r.lossy.map (·.2)).filter (!·.envelope.replacedBy e)
        ++ [⟨r.nextArrival, e⟩]) := by
  have hcritical : r.critical.filter (!·.envelope.replacedBy e) = r.critical := by
    refine List.filter_eq_self.mpr fun p hp => ?_
    rw [Envelope.replacedBy_of_critical (ht.critical p hp)]
    rfl
  rw [List.filter_append, hcritical]
  cases h : e.policy with
  | critical =>
    obtain ⟨hc, hl, -⟩ := r.push_of_critical h
    have hlossy : (r.lossy.map (·.2)).filter (!·.envelope.replacedBy e) = r.lossy.map (·.2) := by
      refine List.filter_eq_self.mpr fun p hp => ?_
      obtain ⟨entry, hentry, rfl⟩ := List.mem_map.mp hp
      rw [Bool.not_eq_true', Bool.eq_false_iff, ne_eq,
        Envelope.replacedBy_of_lossy (ht.filed entry hentry), h]
      exact fun hne => nomatch hne
    rw [hc, hl, hlossy, List.append_assoc, List.append_assoc]
    exact List.perm_append_comm.append_left _
  | lossy key =>
    obtain ⟨hc, hl, -⟩ := r.push_of_lossy h
    have hlossy : (r.lossy.map (·.2)).filter (!·.envelope.replacedBy e) =
        (Table.erase r.lossy key).map (·.2) := by
      rw [Table.erase, List.filter_map]
      refine congrArg (List.map _) (List.filter_congr fun entry hentry => ?_)
      rw [Function.comp_apply, Bool.eq_iff_iff, Bool.not_eq_true', Bool.eq_false_iff, ne_eq,
        Envelope.replacedBy_of_lossy (ht.filed entry hentry), h, DeliveryPolicy.lossy.injEq,
        decide_eq_true_iff]
      exact not_congr eq_comm
    rw [hc, hl, hlossy, List.append_assoc]
    refine List.Perm.append_left _ ?_
    exact ((ht.sorted.perm_set key _).map _).trans (List.perm_append_singleton _ _).symm

theorem coalesced_push {r : Reducer} (ht : r.Tidy) (e : Envelope) :
    (r.push e).coalesced + (r.push e).pendingCount = r.coalesced + r.pendingCount + 1 := by
  cases h : e.policy with
  | critical =>
    obtain ⟨hc, hl, hn⟩ := r.push_of_critical h
    rw [pendingCount, pendingCount, hc, hl, hn, List.length_append, List.length_singleton]
    omega
  | lossy key =>
    obtain ⟨hc, hl, hn⟩ := r.push_of_lossy h
    rw [pendingCount, pendingCount, hc, hl, hn, ht.sorted.length_set]
    split <;> omega

namespace Collects

variable {r : Reducer} {entries : List Entry}

theorem nothing {r : Reducer} (ht : r.Tidy) (hc : r.pendingCount = 0) (hn : r.coalesced = 0)
    (hg : r.gaps = []) : r.Collects [] where
  tidy := ht
  pending := by
    obtain ⟨hcritical, hlossy⟩ := Nat.add_eq_zero_iff.mp hc
    refine ⟨[], rfl, ?_, .nil, fun p hp => nomatch hp⟩
    rw [List.length_eq_zero_iff.mp hcritical, List.length_eq_zero_iff.mp hlossy]
    exact .nil
  coalesced := by
    rw [hn, hc]
    rfl
  gaps := hg

theorem push (h : r.Collects entries) (e : Envelope) :
    (r.push e).Collects (entries ++ [.envelope e]) := by
  have hes : (entries ++ [Entry.envelope e]).filterMap Entry.envelope? =
      entries.filterMap Entry.envelope? ++ [e] := List.filterMap_append
  have hgs : (entries ++ [Entry.envelope e]).filterMap Entry.loss? =
      entries.filterMap Entry.loss? := filterMap_concat_none rfl _
  obtain ⟨ps, hmap, hperm, horder, hfresh⟩ := h.pending
  refine ⟨tidy_push h.tidy e, ⟨ps ++ [⟨r.nextArrival, e⟩], ?_, ?_, ?_, ?_⟩, ?_, ?_⟩
  · rw [List.map_append, hmap, hes]
    rfl
  · rw [standing_concat]
    exact (perm_push h.tidy e).trans ((hperm.filter _).append_right _)
  · refine List.pairwise_append.mpr ⟨horder, List.pairwise_singleton _ _, ?_⟩
    intro p hp q hq
    rw [List.mem_singleton.mp hq]
    exact hfresh p hp
  · intro p hp
    rw [nextArrival_push]
    rcases List.mem_append.mp hp with hp | hp
    · exact Nat.lt_succ_of_lt (hfresh p hp)
    · rw [List.mem_singleton.mp hp]
      exact Nat.lt_succ_self _
  · rw [coalesced_push h.tidy, h.coalesced, hes, List.length_append]
    rfl
  · rw [gaps_push, hgs]
    exact h.gaps

theorem recordGap (h : r.Collects entries) (gap : DeliveryGap) :
    (r.recordGap gap).Collects (entries ++ [.loss gap]) := by
  have hes : (entries ++ [Entry.loss gap]).filterMap Entry.envelope? =
      entries.filterMap Entry.envelope? := filterMap_concat_none rfl _
  have hgs : (entries ++ [Entry.loss gap]).filterMap Entry.loss? =
      entries.filterMap Entry.loss? ++ [gap] := List.filterMap_append
  refine ⟨⟨h.tidy.critical, h.tidy.filed, h.tidy.sorted⟩, ?_, ?_, ?_⟩
  · rw [hes]
    exact h.pending
  · rw [hes]
    exact h.coalesced
  · rw [hgs, latest, standing_concat, ← latest, ← h.gaps, Reducer.recordGap]
    refine congrArg (· ++ [gap]) (List.filter_congr fun g _ => ?_)
    rw [Bool.eq_iff_iff, Bool.not_eq_true', decide_eq_true_iff, decide_eq_false_iff_not]
    exact not_congr eq_comm

theorem control (h : r.Collects entries) (c : Control) :
    (r.control c).Collects (entries ++ [.control c]) := by
  have hes : (entries ++ [Entry.control c]).filterMap Entry.envelope? =
      entries.filterMap Entry.envelope? := filterMap_concat_none rfl _
  have hgs : (entries ++ [Entry.control c]).filterMap Entry.loss? =
      entries.filterMap Entry.loss? := filterMap_concat_none rfl _
  have hsame : ∀ q : Reducer, q.critical = r.critical → q.lossy = r.lossy →
      q.nextArrival = r.nextArrival → q.coalesced = r.coalesced → q.gaps = r.gaps →
      q.Collects (entries ++ [.control c]) := by
    intro q hc hl hn hk hg
    refine ⟨⟨hc ▸ h.tidy.critical, hl ▸ h.tidy.filed, hl ▸ h.tidy.sorted⟩, ?_, ?_, ?_⟩
    · rw [hes, hc, hl, hn]
      exact h.pending
    · rw [hes, hk, pendingCount, hc, hl]
      exact h.coalesced
    · rw [hgs, hg]
      exact h.gaps
  cases c <;> exact hsame _ rfl rfl rfl rfl rfl

theorem perm_pending (h : r.Collects entries) : ∃ ps : List Pending,
    (r.critical ++ r.lossy.map (·.2)).Perm ps ∧ ps.Pairwise (·.arrival < ·.arrival) ∧
      ps.map (·.envelope) = owed (entries.filterMap Entry.envelope?) := by
  obtain ⟨ps, hmap, hperm, horder, -⟩ := h.pending
  refine ⟨_, hperm, horder.sublist (standing_sublist ps), ?_⟩
  rw [map_standing Envelope.replacedBy Pending.envelope, hmap]
  rfl

theorem pendingCount_eq (h : r.Collects entries) :
    r.pendingCount = (owed (entries.filterMap Entry.envelope?)).length := by
  obtain ⟨ps, hperm, -, howed⟩ := h.perm_pending
  rw [← howed, List.length_map, ← hperm.length_eq, List.length_append, List.length_map]
  rfl

theorem coalesced_eq (h : r.Collects entries) :
    let pushed := entries.filterMap Entry.envelope?
    r.coalesced = (keys pushed).length - (keys pushed).dedup.length := by
  have hcount := h.pendingCount_eq
  have hall := h.coalesced
  have hkeys := length_owed (entries.filterMap Entry.envelope?)
  omega

theorem hasPending_iff (h : r.Collects entries) : r.hasPending = true ↔
    entries.filterMap Entry.envelope? ≠ [] ∨ entries.filterMap Entry.loss? ≠ [] := by
  rw [hasPending, Bool.or_eq_true, decide_eq_true_iff, h.pendingCount_eq, h.gaps,
    List.length_pos_iff, Bool.not_eq_true', List.isEmpty_eq_false_iff]
  exact or_congr (not_congr standing_eq_nil_iff) (not_congr standing_eq_nil_iff)

theorem batch_eq (h : r.Collects entries) {lossy : Table String Pending}
    (hl : lossy.Perm r.lossy) (now : Nat) :
    let pushed := entries.filterMap Entry.envelope?
    { r with lossy }.batch now =
      ⟨now, r.resolver.arrange (owed pushed),
        (keys pushed).length - (keys pushed).dedup.length,
        latest (entries.filterMap Entry.loss?)⟩ := by
  intro pushed
  obtain ⟨ps, hperm, horder, howed⟩ := h.perm_pending
  have hsort := mergeSort_sooner r.resolver (((hl.map _).append_left r.critical).trans hperm)
    horder
  rw [batch, ranked, hsort, h.coalesced_eq, h.gaps, ← howed]
  exact congrArg (Batch.mk now · _ _) (map_byTier _ _)

end Collects

end Reducer

/-- A reducer on its way. -/
structure Course where
  reducer : Reducer
  batches : List Batch
  since : List Entry
  deriving DecidableEq

namespace Course

def start (frame now : Nat) : Course := ⟨.create frame now, [], []⟩

def flush (c : Course) (now : Nat) : Course :=
  let (reducer, batch) := c.reducer.flush now
  ⟨reducer, c.batches ++ [batch], []⟩

def ask (c : Course) : Request → Course
  | .enter (.flush now) => c.flush now
  | .enter x => { c with reducer := c.reducer.enter x, since := c.since ++ [x] }
  | .poll now =>
    match c.reducer.poll now with
    | (reducer, some batch) => ⟨reducer, c.batches ++ [batch], []⟩
    | (reducer, none) => { c with reducer }

def run (c : Course) (requests : List Request) : Course := requests.foldl ask c

theorem ask_poll (c : Course) (now : Nat) :
    c.ask (.poll now) = if c.reducer.isDue now = true then c.flush now else c := by
  by_cases hd : c.reducer.isDue now = true
  · rw [if_pos hd]
    simp only [ask, Reducer.poll, hd, if_true, flush]
  · rw [if_neg hd]
    simp only [ask, Reducer.poll, hd, if_false, Bool.false_eq_true]

def lastAt (c : Course) (start : Nat) : Nat := (c.batches.getLast?.map Batch.flushedAt).getD start

structure Sound (frame start : Nat) (c : Course) (entered : List Entry) : Prop where
  collects : c.reducer.Collects c.since
  sight : c.reducer.resolver = (entered.filterMap Entry.control?).foldl Resolver.heed .empty
  frame : c.reducer.frame = max frame 1
  last : c.reducer.lastFlush = c.lastAt start
  pushed : c.reducer.stats.pushed = (entered.filterMap Entry.envelope?).length
  delivered : c.reducer.stats.delivered = (notified c.batches).length
  coalesced : c.reducer.stats.coalesced = (c.batches.map (·.coalesced)).sum
  conserved : c.reducer.stats.pushed = c.reducer.stats.delivered +
    (c.reducer.stats.coalesced + c.reducer.coalesced) + c.reducer.pendingCount

namespace Sound

variable {frame begin : Nat} {c : Course} {entered : List Entry}

theorem start (frame begin : Nat) : Sound frame begin (.start frame begin) [] where
  collects := .nothing (Reducer.tidy_create _ _) rfl rfl rfl
  sight := rfl
  frame := rfl
  last := rfl
  pushed := rfl
  delivered := rfl
  coalesced := rfl
  conserved := rfl

theorem push (h : c.Sound frame begin entered) (e : Envelope) :
    (c.ask (.enter (.envelope e))).Sound frame begin (entered ++ [.envelope e]) := by
  have hstats := c.reducer.stats_push e
  have hcount := Reducer.coalesced_push h.collects.tidy e
  have hframe : (c.reducer.push e).frame = c.reducer.frame ∧
      (c.reducer.push e).lastFlush = c.reducer.lastFlush ∧
      (c.reducer.push e).resolver = c.reducer.resolver := by
    simp only [Reducer.push]
    cases e.policy <;> exact ⟨rfl, rfl, rfl⟩
  refine ⟨h.collects.push e, ?_, hframe.1.trans h.frame, hframe.2.1.trans h.last, ?_, ?_, ?_, ?_⟩
  · rw [filterMap_concat_none rfl]
    exact hframe.2.2.trans h.sight
  all_goals
    simp only [ask, Reducer.enter, hstats]
  · rw [List.filterMap_append, List.length_append, h.pushed]
    rfl
  · exact h.delivered
  · exact h.coalesced
  · have := h.conserved
    omega

theorem recordGap (h : c.Sound frame begin entered) (gap : DeliveryGap) :
    (c.ask (.enter (.loss gap))).Sound frame begin (entered ++ [.loss gap]) where
  collects := h.collects.recordGap gap
  sight := by
    rw [filterMap_concat_none rfl]
    exact h.sight
  frame := h.frame
  last := h.last
  pushed := by
    rw [filterMap_concat_none rfl]
    exact h.pushed
  delivered := h.delivered
  coalesced := h.coalesced
  conserved := h.conserved

theorem control (h : c.Sound frame begin entered) (x : Control) :
    (c.ask (.enter (.control x))).Sound frame begin (entered ++ [.control x]) := by
  have hpushed : (entered ++ [Entry.control x]).filterMap Entry.envelope? =
      entered.filterMap Entry.envelope? := filterMap_concat_none rfl _
  have hsight : (c.reducer.control x).resolver =
      ((entered ++ [Entry.control x]).filterMap Entry.control?).foldl Resolver.heed .empty := by
    rw [List.filterMap_append, List.foldl_append, ← h.sight]
    cases x <;> rfl
  have hcollects := h.collects.control x
  cases x <;> exact ⟨hcollects, hsight, h.frame, h.last, hpushed ▸ h.pushed, h.delivered,
    h.coalesced, h.conserved⟩

theorem flush (h : c.Sound frame begin entered) (now : Nat) :
    (c.flush now).Sound frame begin entered := by
  have hall : (c.reducer.batch now).notifications.length = c.reducer.pendingCount := by
    rw [← List.length_map (f := Notification.envelope), (c.reducer.perm_batch now).length_eq,
      Reducer.pending_eq, List.length_append, List.length_map, List.length_map]
    rfl
  refine ⟨.nothing (c.reducer.tidy_flush now) rfl rfl rfl, h.sight, h.frame, ?_, h.pushed, ?_, ?_,
    ?_⟩
  · rw [lastAt, Course.flush, List.getLast?_concat]
    rfl
  · rw [Course.flush, notified_append, List.length_append, ← h.delivered]
    simp only [notified, List.flatMap_cons, List.flatMap_nil, List.append_nil, List.length_map]
    rfl
  · rw [Course.flush, List.map_append, List.sum_append, ← h.coalesced]
    rfl
  · show c.reducer.stats.pushed =
      c.reducer.stats.delivered + (c.reducer.batch now).notifications.length +
        (c.reducer.stats.coalesced + c.reducer.coalesced + 0) + 0
    have := h.conserved
    omega

theorem ignore (h : c.Sound frame begin entered) (now : Nat) :
    c.Sound frame begin (entered ++ [.flush now]) := by
  refine ⟨h.collects, ?_, h.frame, h.last, ?_, h.delivered, h.coalesced, h.conserved⟩
  · rw [filterMap_concat_none rfl]
    exact h.sight
  · rw [filterMap_concat_none rfl]
    exact h.pushed

theorem ask (h : c.Sound frame begin entered) (x : Request) :
    (c.ask x).Sound frame begin (entered ++ x.entry?.toList) := by
  cases x with
  | enter x =>
    cases x with
    | envelope e => exact h.push e
    | loss gap => exact h.recordGap gap
    | control x => exact h.control x
    | flush now => exact (h.flush now).ignore now
  | poll now =>
    rw [ask_poll]
    rw [Request.entry?, Option.toList_none, List.append_nil]
    split
    · exact h.flush now
    · exact h

theorem run (frame begin : Nat) (requests : List Request) :
    ((Course.start frame begin).run requests).Sound frame begin
      (requests.filterMap Request.entry?) := by
  induction requests using List.reverseRecOn with
  | nil => exact .start frame begin
  | append_singleton requests x ih =>
    have hx : [x].filterMap Request.entry? = x.entry?.toList := by
      cases h : x.entry? <;> simp [h]
    rw [Course.run, List.foldl_append, List.filterMap_append, hx]
    exact ih.ask x

end Sound

/-- At every point of a course the next batch holds what is owed of all that was pushed since the
last one, tier after tier and then as it was pushed, whatever order the table of pending lossy
envelopes is gone through. It counts what was replaced, it has the last gap of each source, and
it leaves nothing behind. A poll makes the same batch, if there is anything to hand out and the
frame is over. Whatever was pushed was handed out, was replaced or is pending. -/
theorem batch_owed (frame begin : Nat) (requests : List Request) :
    let c := (start frame begin).run requests
    let entered := requests.filterMap Request.entry?
    let pushed := c.since.filterMap Entry.envelope?
    let lost := c.since.filterMap Entry.loss?
    let sight := (entered.filterMap Entry.control?).foldl Resolver.heed .empty
    (∀ now lossy, lossy.Perm c.reducer.lossy →
      ({ c.reducer with lossy }.flush now).2 =
        { flushedAt := now
          notifications := sight.arrange (owed pushed)
          coalesced := (keys pushed).length - (keys pushed).dedup.length
          gaps := latest lost }) ∧
      (∀ now, (c.reducer.flush now).1.hasPending = false) ∧
      (∀ now, c.reducer.poll now =
        if (pushed ≠ [] ∨ lost ≠ []) ∧ satAdd (c.lastAt begin) (max frame 1) ≤ now then
          ((c.reducer.flush now).1, some (c.reducer.flush now).2)
        else (c.reducer, none)) ∧
      c.reducer.stats.pushed = (entered.filterMap Entry.envelope?).length ∧
      c.reducer.stats.delivered = (notified c.batches).length ∧
      c.reducer.stats.coalesced = (c.batches.map (·.coalesced)).sum ∧
      c.reducer.stats.pushed = c.reducer.stats.delivered +
        (c.reducer.stats.coalesced + c.reducer.coalesced) + c.reducer.pendingCount := by
  intro c entered pushed lost sight
  have h : c.Sound frame begin entered := Sound.run frame begin requests
  refine ⟨?_, fun _ => rfl, ?_, h.pushed, h.delivered, h.coalesced, h.conserved⟩
  · intro now lossy hl
    rw [show sight = c.reducer.resolver from h.sight.symm]
    exact h.collects.batch_eq hl now
  · intro now
    have hdue : c.reducer.isDue now = true ↔
        (pushed ≠ [] ∨ lost ≠ []) ∧ satAdd (c.lastAt begin) (max frame 1) ≤ now := by
      rw [Reducer.isDue, Bool.and_eq_true, decide_eq_true_iff, h.collects.hasPending_iff,
        Reducer.nextFlushAt, h.last, h.frame]
    rw [Reducer.poll]
    exact if_congr hdue rfl rfl

theorem batch_owed_reversed :
    let said (pane : String) (seq : Nat) (event : TerminalEvent) : Envelope :=
      ⟨.pane ⟨pane⟩, none, ⟨0, seq⟩, none, none, 0, .terminal event⟩
    let gap : DeliveryGap := ⟨.pane ⟨"a"⟩, 0, 7⟩
    let requests : List Request := [.poll 16, .enter (.envelope (said "a" 8 (.titleChanged "one"))),
      .enter (.envelope (said "b" 1 (.titleChanged "left"))),
      .enter (.envelope (said "a" 9 (.titleChanged "two"))), .enter (.loss gap), .poll 15,
      .enter (.envelope (said "b" 2 .bell)), .enter (.control (.setFocus (.on ⟨"b"⟩)))]
    let c := (start 16 0).run requests
    let lossy := c.reducer.lossy.reverse
    lossy.Perm c.reducer.lossy ∧ lossy ≠ c.reducer.lossy ∧
      ({ c.reducer with lossy }.flush 16).2 =
        ⟨16, [⟨.p0, said "b" 1 (.titleChanged "left")⟩, ⟨.p0, said "b" 2 .bell⟩,
          ⟨.p2, said "a" 9 (.titleChanged "two")⟩], 1, [gap]⟩ := by
  intro said gap requests c lossy
  have hperm : lossy.Perm c.reducer.lossy := List.reverse_perm _
  refine ⟨hperm, by decide +kernel, ?_⟩
  rw [(batch_owed 16 0 requests).1 16 lossy hperm]
  decide +kernel

end Course

end Switchboard
