import Switchboard.Proofs.FsSource.Deadlines
import Switchboard.Proofs.Projection.Noticed

/-!
# The order of work

Roots that are to be flushed or looked at take their turns in one order: the focused root first,
then those with a live pane, then the others, and by id. The order is total, so it does not matter
in which order the roots were collected. And the turns do not disturb each other: what is told of a
root in its turn, and whether it is looked at, is what it would be if it had the only turn.
-/
namespace Switchboard

open Mirror (Step perform)

namespace Batcher

section Cutting

variable {b b' : Batcher} {w : WorktreeId}

theorem numbered_congr (h : b'.lastBatchSeq w = b.lastBatchSeq w) (now parts done : Nat)
    (pieces : List (List Path)) :
    (b'.numbered w now parts done pieces).2 = (b.numbered w now parts done pieces).2 := by
  induction pieces generalizing b b' done with
  | nil => rfl
  | cons paths rest ih =>
    have hnext : (b'.nextBatchSeq w).1.lastBatchSeq w = (b.nextBatchSeq w).1.lastBatchSeq w := by
      rw [lastBatchSeq_nextBatchSeq, lastBatchSeq_nextBatchSeq, h]
    have hseq : (b'.nextBatchSeq w).2 = (b.nextBatchSeq w).2 := congrArg (· + 1) h
    simp only [numbered, hseq, ih hnext]

theorem changesets_congr (hp : b'.policy = b.policy) (h : b'.lastBatchSeq w = b.lastBatchSeq w)
    (paths : PathSet) (now : Nat) :
    (b'.changesets w paths now).2 = (b.changesets w paths now).2 := by
  simp only [changesets, hp]
  exact numbered_congr h now _ _ _

end Cutting

end Batcher

def Envelope.unnumbered (e : Envelope) : Envelope := { e with stamp := ⟨0, 0⟩ }

namespace FsSource

def tierOf (s : FsSource) (w : WorktreeId) : ActivityTier :=
  ((s.table.get? w).map (·.tier)).getD .sidebarOnly

/-- The first root has its turn before the second one. -/
inductive Precedes (s : FsSource) (a b : WorktreeId) : Prop where
  | focus (ha : s.focused = some a) (hb : s.focused ≠ some b)
  | tier (hb : s.focused ≠ some b) (hta : s.tierOf a = .activeInApp)
    (htb : s.tierOf b = .sidebarOnly)
  | id (hb : s.focused ≠ some b) (ht : s.tierOf a = s.tierOf b) (hlt : compare a b = .lt)

section Order

variable {s : FsSource} {a b c : WorktreeId}

theorem urgency_eq (s : FsSource) (w : WorktreeId) :
    s.urgency w = (if s.focused = some w then 0 else 1, (s.tierOf w).rank, w.name) := by
  simp only [urgency, tierOf]
  cases s.table.get? w <;> rfl

theorem isLE_name_iff : (compare a.name b.name).isLE = true ↔ a = b ∨ compare a b = .lt := by
  rw [← WorktreeId.compare_def]
  cases h : compare a b with
  | lt => simp
  | eq => simp [Std.compare_eq_iff_eq.mp h]
  | gt =>
    have hne : a ≠ b := by
      rintro rfl
      rw [Std.compare_self] at h
      cases h
    simp [hne]

theorem not_precedes_of_focused (hb : s.focused = some b) : ¬ s.Precedes a b := by
  intro h
  cases h with
  | focus ha hb' => exact hb' hb
  | tier hb' hta htb => exact hb' hb
  | id hb' ht hlt => exact hb' hb

theorem precedes_of_focused (ha : s.focused = some a) (hne : a ≠ b) : s.Precedes a b :=
  .focus ha fun hb => hne (Option.some.inj (ha.symm.trans hb))

theorem precedes_iff (ha : s.focused ≠ some a) (hb : s.focused ≠ some b) :
    s.Precedes a b ↔ (s.tierOf a).rank < (s.tierOf b).rank ∨
      s.tierOf a = s.tierOf b ∧ compare a b = .lt := by
  have hrank : (s.tierOf a).rank < (s.tierOf b).rank ↔
      s.tierOf a = .activeInApp ∧ s.tierOf b = .sidebarOnly := by
    cases s.tierOf a <;> cases s.tierOf b <;> decide
  constructor
  · intro h
    cases h with
    | focus ha' hb' => exact absurd ha' ha
    | tier hb' hta htb => exact .inl (hrank.mpr ⟨hta, htb⟩)
    | id hb' ht hlt => exact .inr ⟨ht, hlt⟩
  · rintro (h | ⟨ht, hlt⟩)
    · exact .tier hb (hrank.mp h).1 (hrank.mp h).2
    · exact .id hb ht hlt

theorem sooner_iff : s.sooner a b = true ↔ a = b ∨ s.Precedes a b := by
  simp only [sooner, urgency_eq]
  by_cases hb : s.focused = some b
  · by_cases ha : s.focused = some a
    · obtain rfl : a = b := Option.some.inj (ha.symm.trans hb)
      simp
    · have hne : a ≠ b := fun he => ha (he ▸ hb)
      simp [hb, hne, hne.symm, not_precedes_of_focused hb]
  · by_cases ha : s.focused = some a
    · have hne : a ≠ b := fun he => hb (he ▸ ha)
      simp [ha, hne, precedes_of_focused ha hne]
    · have hrank : (s.tierOf a).rank = (s.tierOf b).rank ↔ s.tierOf a = s.tierOf b := by
        cases s.tierOf a <;> cases s.tierOf b <;> decide
      rw [precedes_iff ha hb]
      simp only [if_neg ha, if_neg hb, Nat.lt_irrefl, decide_false, Bool.false_or, beq_self_eq_true,
        Bool.true_and, Bool.or_eq_true, decide_eq_true_eq, Bool.and_eq_true, beq_iff_eq,
        isLE_name_iff, hrank]
      constructor
      · rintro (h | ⟨ht, rfl | hlt⟩)
        · exact .inr (.inl h)
        · exact .inl rfl
        · exact .inr (.inr ⟨ht, hlt⟩)
      · rintro (rfl | h | ⟨ht, hlt⟩)
        · exact .inr ⟨rfl, .inl rfl⟩
        · exact .inl h
        · exact .inr ⟨ht, .inr hlt⟩

theorem not_precedes_self (s : FsSource) (a : WorktreeId) : ¬ s.Precedes a a := by
  intro h
  cases h with
  | focus ha hb => exact hb ha
  | tier hb hta htb => rw [hta] at htb; cases htb
  | id hb ht hlt => rw [Std.compare_self] at hlt; cases hlt

theorem precedes_or_precedes (s : FsSource) (hne : a ≠ b) : s.Precedes a b ∨ s.Precedes b a := by
  by_cases ha : s.focused = some a
  · exact .inl (precedes_of_focused ha hne)
  by_cases hb : s.focused = some b
  · exact .inr (precedes_of_focused hb hne.symm)
  rw [precedes_iff ha hb, precedes_iff hb ha]
  rcases Nat.lt_trichotomy (s.tierOf a).rank (s.tierOf b).rank with h | h | h
  · exact .inl (.inl h)
  · have ht : s.tierOf a = s.tierOf b := by
      revert h
      cases s.tierOf a <;> cases s.tierOf b <;> decide
    cases hc : compare a b with
    | lt => exact .inl (.inr ⟨ht, rfl⟩)
    | eq => exact absurd (Std.compare_eq_iff_eq.mp hc) hne
    | gt => exact .inr (.inr ⟨ht.symm, Std.OrientedCmp.lt_of_gt hc⟩)
  · exact .inr (.inl h)

theorem Precedes.trans (h : s.Precedes a b) (h' : s.Precedes b c) : s.Precedes a c := by
  have hc : s.focused ≠ some c := fun hc => not_precedes_of_focused hc h'
  have hb : s.focused ≠ some b := fun hb => not_precedes_of_focused hb h
  by_cases ha : s.focused = some a
  · exact .focus ha hc
  rw [precedes_iff ha hb] at h
  rw [precedes_iff hb hc] at h'
  rw [precedes_iff ha hc]
  rcases h with h | ⟨ht, hlt⟩ <;> rcases h' with h' | ⟨ht', hlt'⟩
  · exact .inl (Nat.lt_trans h h')
  · exact .inl (ht' ▸ h)
  · exact .inl (ht ▸ h')
  · exact .inr ⟨ht.trans ht', Std.TransCmp.lt_trans hlt hlt'⟩

theorem Precedes.asymm (h : s.Precedes a b) : ¬ s.Precedes b a :=
  fun h' => s.not_precedes_self a (h.trans h')

end Order

section Scheduled

variable (s : FsSource) {ws ws' : List WorktreeId}

theorem pairwise_scheduled (ws : List WorktreeId) :
    (s.scheduled ws).Pairwise fun a b => a = b ∨ s.Precedes a b := by
  have hsorted : (s.scheduled ws).Pairwise fun a b => s.sooner a b = true := by
    refine List.pairwise_mergeSort ?_ ?_ ws
    · intro a b c hab hbc
      rw [sooner_iff] at hab hbc ⊢
      rcases hab with rfl | hab
      · exact hbc
      · rcases hbc with rfl | hbc
        · exact .inr hab
        · exact .inr (hab.trans hbc)
    · intro a b
      rw [Bool.or_eq_true, sooner_iff, sooner_iff]
      by_cases he : a = b
      · exact .inl (.inl he)
      · exact (s.precedes_or_precedes he).imp .inr .inr
  exact hsorted.imp sooner_iff.mp

theorem precedes_scheduled (hn : ws.Nodup) : (s.scheduled ws).Pairwise s.Precedes := by
  have hboth := (s.pairwise_scheduled ws).and (nodup_scheduled (s := s) hn)
  exact hboth.imp fun h => h.1.resolve_left h.2

theorem scheduled_eq_of_perm (h : ws.Perm ws') : s.scheduled ws = s.scheduled ws' := by
  refine List.Perm.eq_of_pairwise ?_ (s.pairwise_scheduled ws) (s.pairwise_scheduled ws') ?_
  · rintro a b - - (he | hab) (he' | hba)
    · exact he
    · exact he
    · exact he'.symm
    · exact absurd hba hab.asymm
  · exact (List.mergeSort_perm ws _).trans (h.trans (List.mergeSort_perm ws' _).symm)

theorem scheduled_eq (h : ws.Perm ws') (hs : ws'.Pairwise fun a b => s.sooner a b = true) :
    s.scheduled ws = ws' := by
  rw [s.scheduled_eq_of_perm h]
  exact List.mergeSort_of_pairwise hs

instance : IsStrictTotalOrder WorktreeId s.Precedes where
  irrefl := s.not_precedes_self
  trans _ _ _ := Precedes.trans
  trichotomous a b hab hba := by
    by_contra hne
    exact (s.precedes_or_precedes hne).elim hab hba

end Scheduled

theorem filterMap_cons_toList {α β : Type} (f : α → Option β) (a : α) (rest : List α) :
    (a :: rest).filterMap f = (f a).toList ++ rest.filterMap f := by
  cases h : f a <;> simp [h]

def relisted (s : FsSource) (pending : Table WorktreeId PendingBatch) : FsSource :=
  { s with batcher := { s.batcher with pending } }

theorem dueRoots_relisted {s : FsSource} {listed : Table WorktreeId PendingBatch}
    (h : listed.Perm s.batcher.pending) (now : Nat) :
    (s.relisted listed).dueRoots now = s.dueRoots now := by
  have hdue : ((s.relisted listed).batcher.due now).Perm (s.batcher.due now) :=
    (h.filter _).map _
  exact s.scheduled_eq_of_perm hdue

theorem reconcileAll_of_perm {s : FsSource} {listed : List WorktreeId}
    (h : listed.Perm (s.table.list.map (·.worktree))) (reason : ReconcileReason) :
    s.reconcileAll reason = s.beginProbes reason (s.scheduled listed) := by
  rw [s.scheduled_eq_of_perm h]
  rfl

section Turns

variable {s s' : FsSource} {w u : WorktreeId}

/-- What the flush of a root tells, without the numbers of the envelopes. -/
def turn (s : FsSource) (w : WorktreeId) (now : Nat) : List Envelope :=
  (s.batcher.changesets w (s.batcher.waiting w) now).2.map fun changes =>
    { source := .filesystem, worktree := some w, stamp := ⟨0, 0⟩, command := none,
      correlation := none, timestamp := now, event := .filesystem (.filesChanged changes) }

theorem unnumbered_emitAll (s : FsSource) (w : WorktreeId) (now : Nat)
    (events : List FilesystemEvent) :
    (s.emitAll w now events).2.map Envelope.unnumbered = events.map fun event =>
      { source := .filesystem, worktree := some w, stamp := ⟨0, 0⟩, command := none,
        correlation := none, timestamp := now, event := .filesystem event } := by
  induction events generalizing s with
  | nil => rfl
  | cons event rest ih =>
    rw [emitAll_cons, List.map_cons, List.map_cons, ih]
    rfl

theorem unnumbered_flushRoot (h : s.Sound) (w : WorktreeId) (now : Nat) :
    (s.flushRoot w now).2.envelopes.map Envelope.unnumbered = s.turn w now := by
  cases hb : s.batcher.pending? w with
  | none =>
    have hnone : (s.batcher.changesets w [] now).2 = [] := by
      simp [Batcher.changesets, Batcher.numbered, chunksOf]
    rw [flushRoot_of_not_pending hb, turn, s.batcher.waiting_of_not_pending w hb, hnone]
    rfl
  | some batch =>
    obtain ⟨root, ht⟩ := root_of_pending? (h.owned w) hb
    have hcut : ((s.batcher.drop w).changesets w batch.paths now).2 =
        (s.batcher.changesets w batch.paths now).2 :=
      Batcher.changesets_congr (show (s.batcher.drop w).policy = s.batcher.policy from rfl) rfl
        batch.paths now
    rw [flushRoot_of_pending hb ht, turn, s.batcher.waiting_of_pending? w hb,
      unnumbered_emitAll, List.map_map, hcut]
    rfl

theorem probes_flushRoot (h : s.Sound) (hp : s.batcher.hasPending w = true) (now : Nat) :
    (s.flushRoot w now).2.probes = (s.beginProbe w .flush).2.toList := by
  obtain ⟨batch, hb⟩ := (Batcher.hasPending_iff _ _).mp hp
  obtain ⟨root, ht⟩ := root_of_pending? (h.owned w) hb
  rw [flushRoot_of_pending hb ht]
  obtain ⟨sequencer, he⟩ := emitAll_fst
    { s with batcher := ((s.batcher.drop w).changesets w batch.paths now).1 } w now
    (((s.batcher.drop w).changesets w batch.paths now).2.map .filesChanged)
  simp only [he, beginProbe, state?]
  split <;> (try split) <;> rfl

structure Alike (w : WorktreeId) (s s' : FsSource) : Prop where
  table : s'.table = s.table
  policy : s'.batcher.policy = s.batcher.policy
  pending : s'.batcher.pending? w = s.batcher.pending? w
  last : s'.batcher.lastBatchSeq w = s.batcher.lastBatchSeq w
  state : s'.state? w = s.state? w

namespace Alike

variable {s'' : FsSource}

theorem refl (w : WorktreeId) (s : FsSource) : Alike w s s := ⟨rfl, rfl, rfl, rfl, rfl⟩

theorem trans (h : Alike w s s') (h' : Alike w s' s'') : Alike w s s'' where
  table := h'.table.trans h.table
  policy := h'.policy.trans h.policy
  pending := h'.pending.trans h.pending
  last := h'.last.trans h.last
  state := h'.state.trans h.state

theorem turn (h : Alike w s s') (now : Nat) : s'.turn w now = s.turn w now := by
  have hwaits : s'.batcher.waiting w = s.batcher.waiting w := by
    rw [Batcher.waiting, h.pending, Batcher.waiting]
  rw [FsSource.turn, FsSource.turn, hwaits, Batcher.changesets_congr h.policy h.last]

theorem beginProbe (h : Alike w s s') (reason : ReconcileReason) :
    (s'.beginProbe w reason).2 = (s.beginProbe w reason).2 := by
  simp only [FsSource.beginProbe, h.table, h.state]
  split <;> (try split) <;> rfl

end Alike

theorem alike_beginProbe (hc : s.Consistent) (hne : u ≠ w) (reason : ReconcileReason) :
    Alike w s (s.beginProbe u reason).1 where
  table := (keeps_beginProbe hc u reason).table
  policy := (keeps_beginProbe hc u reason).policy
  pending := by rw [batcher_beginProbe hc]
  last := by rw [batcher_beginProbe hc]
  state := by rw [state?_beginProbe hc, if_neg hne]

theorem alike_flushRoot (h : s.Sound) (hne : u ≠ w) (now : Nat) :
    Alike w s (s.flushRoot u now).1 where
  table := (keeps_flushRoot h.consistent (h.owned u) now).table
  policy := (keeps_flushRoot h.consistent (h.owned u) now).policy
  pending := by rw [pending?_flushRoot h.consistent (h.owned u), if_neg hne]
  last := by
    have hspeaks := s.speaks_flushRoot u now h
    have hnone : batchSeqs w (s.flushRoot u now).2.envelopes = [] := by
      simp only [batchSeqs, changesets, List.map_eq_nil_iff, List.filter_eq_nil_iff,
        List.mem_filterMap, decide_eq_true_eq]
      rintro c ⟨e, he, hc⟩ hw
      obtain ⟨event, hevent, hroot⟩ := hspeaks.placed e he
      rw [worktree_flushRoot h u now e he, Option.some.injEq] at hroot
      rw [hevent] at hc
      cases event with
      | filesChanged c' => cases hc; exact hne (hroot.trans hw)
      | _ => cases hc
    rw [hspeaks.last, hnone, List.length_nil, Nat.add_zero]
  state := by
    have hfelt := felt_flushRoot h.consistent (h.owned u) now w
    have hnone : reasonsFor w (if s.batcher.hasPending u then [(u, ReconcileReason.flush)]
        else []) = [] := by
      split <;> simp [reasonsFor, hne]
    rw [hnone] at hfelt
    exact hfelt.of_nil.2

end Turns

section Rounds

variable {s : FsSource} {ws : List WorktreeId}

theorem flushRoots_eq (s : FsSource) (now : Nat) (ws : List WorktreeId) :
    s.flushRoots now ws = (s.after (ws.map (.flushRoot · now)),
      ⟨s.told (ws.map (.flushRoot · now)), s.probes (ws.map (.flushRoot · now))⟩) := by
  induction ws generalizing s with
  | nil => rfl
  | cons w rest ih =>
    simp only [flushRoots, ih, List.map_cons]
    rfl

theorem alike_flushRoots (h : s.Sound) {w : WorktreeId} (hw : w ∉ ws) (now : Nat) :
    Alike w s (s.flushRoots now ws).1 := by
  induction ws generalizing s with
  | nil => exact .refl w s
  | cons u rest ih =>
    obtain ⟨hne, hrest⟩ := List.ne_and_not_mem_of_not_mem_cons hw
    rw [(s.flushRoots_cons now u rest).1]
    exact (alike_flushRoot h hne.symm now).trans (ih (h.perform (.flushRoot u now)) hrest)

theorem turn_between (h : s.Sound) (now : Nat) {before : List WorktreeId} {w : WorktreeId}
    (hw : w ∉ before) (behind : List WorktreeId) : ∃ earlier parts later,
      (s.flushRoots now (before ++ w :: behind)).2.envelopes = earlier ++ parts ++ later ∧
      parts.map Envelope.unnumbered = s.turn w now ∧
      (∀ e ∈ earlier, ∃ u ∈ before, e.worktree = some u) ∧
      ∀ e ∈ later, ∃ u ∈ behind, e.worktree = some u := by
  have hsound := h.after (before.map (.flushRoot · now))
  have halike := alike_flushRoots h hw now
  have hearlier := worktree_flushRoots h now before
  rw [flushRoots_eq] at halike hearlier
  generalize hmid : s.after (before.map (.flushRoot · now)) = mid at hsound halike
  refine ⟨s.told (before.map (.flushRoot · now)), (mid.flushRoot w now).2.envelopes,
    ((mid.flushRoot w now).1.flushRoots now behind).2.envelopes, ?_, ?_, hearlier,
    worktree_flushRoots (hsound.perform (.flushRoot w now)) now behind⟩
  · simp only [flushRoots_eq, List.map_append, told_append, List.map_cons, hmid, List.append_assoc]
    rfl
  · rw [unnumbered_flushRoot hsound, halike.turn]

theorem probes_flushRoots {t : FsSource} (h : t.Sound) (hn : ws.Nodup)
    (hp : ∀ w ∈ ws, t.batcher.hasPending w = true) (ha : ∀ w ∈ ws, Alike w s t) (now : Nat) :
    (t.flushRoots now ws).2.probes = ws.filterMap fun w => (s.beginProbe w .flush).2 := by
  -- the source changes from turn to turn, but is alike for the roots that are still to come
  induction ws generalizing t with
  | nil => rfl
  | cons w rest ih =>
    obtain ⟨hw, hrest⟩ := List.nodup_cons.mp hn
    obtain ⟨hfirst, hothers⟩ := List.forall_mem_cons.mp ha
    obtain ⟨hpfirst, hpothers⟩ := List.forall_mem_cons.mp hp
    have hsame : ∀ u ∈ rest, Alike u t (t.flushRoot w now).1 := fun u hu =>
      alike_flushRoot h (ne_of_mem_of_not_mem hu hw).symm now
    have hnext : ∀ u ∈ rest, (t.flushRoot w now).1.batcher.hasPending u = true := by
      intro u hu
      rw [Batcher.hasPending, (hsame u hu).pending]
      exact hpothers u hu
    have hreq : (t.flushRoots now (w :: rest)).2.probes = (t.flushRoot w now).2.probes ++
        ((t.flushRoot w now).1.flushRoots now rest).2.probes := rfl
    have hsound : (t.flushRoot w now).1.Sound := h.perform (.flushRoot w now)
    rw [hreq, probes_flushRoot h hpfirst, hfirst.beginProbe, filterMap_cons_toList,
      ih hsound hrest hnext fun u hu => (hothers u hu).trans (hsame u hu)]

theorem probes_beginProbes {t : FsSource} (hc : t.Consistent) (hn : ws.Nodup)
    (ha : ∀ w ∈ ws, Alike w s t) (reason : ReconcileReason) :
    (t.beginProbes reason ws).2 = ws.filterMap fun w => (s.beginProbe w reason).2 := by
  induction ws generalizing t with
  | nil => rfl
  | cons w rest ih =>
    obtain ⟨hw, hrest⟩ := List.nodup_cons.mp hn
    obtain ⟨hfirst, hothers⟩ := List.forall_mem_cons.mp ha
    have hsame : ∀ u ∈ rest, Alike u t (t.beginProbe w reason).1 := fun u hu =>
      alike_beginProbe hc (ne_of_mem_of_not_mem hu hw).symm reason
    have hreq : (t.beginProbes reason (w :: rest)).2 = (t.beginProbe w reason).2.toList ++
        ((t.beginProbe w reason).1.beginProbes reason rest).2 := rfl
    rw [hreq, hfirst.beginProbe, filterMap_cons_toList,
      ih ((keeps_beginProbe hc w reason).consistent hc) hrest
        fun u hu => (hothers u hu).trans (hsame u hu)]

theorem worktrees_filterMap_beginProbe (hc : s.Consistent) (reason : ReconcileReason)
    (hr : ∀ w ∈ ws, (s.table.get? w).isSome = true) :
    (ws.filterMap fun w => (s.beginProbe w reason).2).map (·.worktree) =
      ws.filter fun w => !s.probing w := by
  induction ws with
  | nil => rfl
  | cons w rest ih =>
    obtain ⟨hfirst, hrest⟩ := List.forall_mem_cons.mp hr
    rw [← hc w] at hfirst
    obtain ⟨state, hs⟩ := Option.isSome_iff_exists.mp hfirst
    obtain ⟨root, -, hb⟩ := beginProbe_of_state hc hs reason
    have hprobing : s.probing w = state.probing := by rw [probing, hs]; rfl
    cases hp : state.probing with
    | true => simp [hb, hp, hprobing, ih hrest]
    | false => simp [hb, hp, hprobing, ih hrest]

theorem mem_filterMap_beginProbe (hc : s.Consistent) {reason : ReconcileReason} {r : ProbeRequest}
    (hr : r ∈ ws.filterMap fun w => (s.beginProbe w reason).2) : ∃ root,
      s.table.get? r.worktree = some root ∧ r.path = root.path ∧
      s.generation? r.worktree = some r.generation ∧ r.reason = reason := by
  obtain ⟨w, -, hw⟩ := List.mem_filterMap.mp hr
  cases hs : s.state? w with
  | none => rw [beginProbe_of_no_state hs] at hw; cases hw
  | some state =>
    obtain ⟨root, ht, hb⟩ := beginProbe_of_state hc hs reason
    rw [hb] at hw
    split at hw
    · cases hw
    · cases hw
      exact ⟨root, ht, rfl, by rw [generation?, hs]; rfl, rfl⟩

end Rounds

/-- At any time the turns are in a strict total order, in which the focused root comes first, then
roots with a live pane before the others, and then the id counts. The roots that are due are those
whose deadline has come, each once and in that order, however the pending batches are listed. They
are flushed one after the other: what is told of a root stands together, and it is what is waiting
now for that root, cut into the parts it would be cut into if no other root were due. Then those are
looked at that are not looked at already. A request for all does the same for all registered roots,
however they are listed. -/
theorem flushed_and_probed_in_order (config : FsConfig) (epoch : Nat) (steps : List Step)
    (now : Nat) (reason : ReconcileReason) :
    let s := (create config epoch).after steps
    let due := s.dueRoots now
    let flushes := due.map (Step.flushRoot · now)
    let ids := s.table.list.map (·.worktree)
    let all := s.scheduled ids
    IsStrictTotalOrder WorktreeId s.Precedes ∧
    ((∀ w, w ∈ due ↔ ∃ d, s.batcher.deadline? w = some d ∧ d ≤ now) ∧
      due.Nodup ∧ due.Pairwise s.Precedes ∧
      ∀ listed, listed.Perm s.batcher.pending → (s.relisted listed).dueRoots now = due) ∧
    (s.flushDue now = (s.after flushes, ⟨s.told flushes, s.probes flushes⟩) ∧
      (∀ before w behind, due = before ++ w :: behind → ∃ earlier parts later,
        (s.flushDue now).2.envelopes = earlier ++ parts ++ later ∧
        parts.map Envelope.unnumbered = s.turn w now ∧
        (∀ e ∈ earlier, ∃ u ∈ before, e.worktree = some u) ∧
        ∀ e ∈ later, ∃ u ∈ behind, e.worktree = some u) ∧
      (s.flushDue now).2.probes.map (·.worktree) = due.filter fun w => !s.probing w) ∧
    ((∀ w, w ∈ all ↔ (s.table.get? w).isSome = true) ∧ all.Nodup ∧ all.Pairwise s.Precedes ∧
      (∀ listed, listed.Perm ids →
        s.reconcileAll reason = s.beginProbes reason (s.scheduled listed)) ∧
      (s.reconcileAll reason).2.map (·.worktree) = (all.filter fun w => !s.probing w) ∧
      ∀ r ∈ (s.reconcileAll reason).2, ∃ root, s.table.get? r.worktree = some root ∧
        r.path = root.path ∧ s.generation? r.worktree = some r.generation ∧ r.reason = reason) := by
  intro s due flushes ids all
  have h : s.Sound := (sound_create config epoch).after steps
  have hdue : (s.batcher.due now).Nodup := s.batcher.nodup_due now h.sorted
  have hnodup : due.Nodup := nodup_scheduled hdue
  have hids : ids.Nodup := h.table.nodup_worktrees
  have hall : all.Nodup := nodup_scheduled hids
  have hpending : ∀ w ∈ due, s.batcher.hasPending w = true := fun w hw => hasPending_of_due h hw
  have hregistered : ∀ w, w ∈ all ↔ (s.table.get? w).isSome = true := fun w =>
    List.mem_mergeSort.trans h.table.mem_worktrees
  have hasked := probes_beginProbes h.consistent hall (fun w _ => .refl w s) reason
  have hflushed := probes_flushRoots h hnodup hpending (fun w _ => .refl w s) now
  refine ⟨inferInstance, ⟨fun w => mem_dueRoots h, hnodup, s.precedes_scheduled hdue,
    fun listed hl => dueRoots_relisted hl now⟩, ⟨s.flushRoots_eq now due, ?_, ?_⟩,
    hregistered, hall, s.precedes_scheduled hids, fun listed hl => reconcileAll_of_perm hl reason,
    ?_, ?_⟩
  · intro before w behind hsplit
    have hw : w ∉ before := by
      rw [hsplit] at hnodup
      exact fun hw => (List.nodup_append.mp hnodup).2.2 w hw w List.mem_cons_self rfl
    have hturn := turn_between h now hw behind
    rwa [← hsplit] at hturn
  · rw [flushDue, hflushed]
    exact worktrees_filterMap_beginProbe h.consistent .flush fun w hw => h.owned w (hpending w hw)
  · rw [reconcileAll, hasked]
    exact worktrees_filterMap_beginProbe h.consistent reason fun w hw => (hregistered w).mp hw
  · rw [reconcileAll, hasked]
    exact fun r hr => mem_filterMap_beginProbe h.consistent hr

def mixedRoots : List Step :=
  [.register ⟨"A"⟩ ⟨"/a"⟩ .sidebarOnly, .register ⟨"B"⟩ ⟨"/b"⟩ .activeInApp,
    .register ⟨"C"⟩ ⟨"/c"⟩ .sidebarOnly, .answer ⟨⟨"A"⟩, 1, .wake, none⟩ 0,
    .answer ⟨⟨"C"⟩, 3, .wake, none⟩ 0, .setFocused (some ⟨"C"⟩),
    .ingest [⟨"/a/x"⟩, ⟨"/b/x"⟩, ⟨"/b/y"⟩, ⟨"/c/x"⟩] 0]

theorem flushed_and_probed_in_order_mixed :
    let s := (create ⟨⟨500, 2000, 1⟩, false, []⟩ 0).after mixedRoots
    s.dueRoots 500 = [⟨"C"⟩, ⟨"B"⟩, ⟨"A"⟩] ∧
      (s.relisted s.batcher.pending.reverse).dueRoots 500 = s.dueRoots 500 ∧
      (s.flushDue 500).2.envelopes.map (·.worktree) =
        [some ⟨"C"⟩, some ⟨"B"⟩, some ⟨"B"⟩, some ⟨"A"⟩] ∧
      (∃ earlier parts later, (s.flushDue 500).2.envelopes = earlier ++ parts ++ later ∧
        parts.map Envelope.unnumbered = s.turn ⟨"B"⟩ 500 ∧
        (∀ e ∈ earlier, e.worktree = some ⟨"C"⟩) ∧ ∀ e ∈ later, e.worktree = some ⟨"A"⟩) ∧
      (s.flushDue 500).2.probes.map (·.worktree) = [⟨"C"⟩, ⟨"A"⟩] ∧
      (s.reconcileAll .driftSweep).2.map (·.worktree) = [⟨"C"⟩, ⟨"A"⟩] := by
  intro s
  have hdue : s.dueRoots 500 = [⟨"C"⟩, ⟨"B"⟩, ⟨"A"⟩] :=
    s.scheduled_eq (by decide +kernel) (by decide +kernel)
  have hall : s.scheduled (s.table.list.map (·.worktree)) = [⟨"C"⟩, ⟨"B"⟩, ⟨"A"⟩] :=
    s.scheduled_eq (by decide +kernel) (by decide +kernel)
  obtain ⟨-, ⟨-, -, -, hlisted⟩, ⟨-, hturns, hprobes⟩, -, -, -, -, hasked, -⟩ :=
    flushed_and_probed_in_order ⟨⟨500, 2000, 1⟩, false, []⟩ 0 mixedRoots 500 .driftSweep
  obtain ⟨earlier, parts, later, htold, hparts, hearlier, hlater⟩ :=
    hturns [⟨"C"⟩] ⟨"B"⟩ [⟨"A"⟩] hdue
  refine ⟨hdue, hlisted _ (List.reverse_perm _), ?_,
    ⟨earlier, parts, later, htold, hparts, ?_, ?_⟩, ?_, ?_⟩
  · rw [flushDue, hdue]
    decide +kernel
  · simpa using hearlier
  · simpa using hlater
  · rw [hprobes, hdue]
    decide +kernel
  · rw [hasked, hall]
    decide +kernel

end FsSource

end Switchboard
