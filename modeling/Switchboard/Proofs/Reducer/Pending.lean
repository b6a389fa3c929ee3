import Mathlib.Data.List.Nodup
import Switchboard.Proofs.Intake
import Switchboard.Proofs.Table

/-!
# What becomes of what enters a reducer

A critical envelope that enters a reducer is pending until the next batch, and then it is in that
batch: nothing is added and nothing goes. A lossy one may be replaced by a later one, so it is
handed out no more often than it entered. Of the gaps of a source only the last one is kept.
-/
namespace Switchboard

def notified (batches : List Batch) : List Envelope :=
  batches.flatMap fun b => b.notifications.map (·.envelope)

def announced (batches : List Batch) : List DeliveryGap := batches.flatMap (·.gaps)

def timesNotified (batches : List Batch) (source : Source) (stamp : Stamp) : Nat :=
  (notified batches).countP fun e => e.source = source ∧ e.stamp = stamp

theorem notified_append (xs ys : List Batch) : notified (xs ++ ys) = notified xs ++ notified ys :=
  List.flatMap_append

theorem announced_append (xs ys : List Batch) :
    announced (xs ++ ys) = announced xs ++ announced ys := List.flatMap_append

namespace Reducer

def pending (r : Reducer) : List Envelope :=
  (r.critical ++ r.lossy.map (·.2)).map (·.envelope)

structure Tidy (r : Reducer) : Prop where
  critical : ∀ p ∈ r.critical, p.envelope.policy = .critical
  filed : ∀ entry ∈ r.lossy, entry.2.envelope.policy = .lossy entry.1
  sorted : Table.Sorted r.lossy

theorem tidy_create (frame now : Nat) : Tidy (create frame now) :=
  ⟨(fun _ hp => nomatch hp), (fun _ he => nomatch he), Table.sorted_nil⟩

theorem perm_batch (r : Reducer) (now : Nat) :
    ((r.batch now).notifications.map (·.envelope)).Perm r.pending := by
  have hmap : (r.batch now).notifications.map (·.envelope) =
      r.ranked.map fun x => x.2.envelope := by
    simp only [batch, List.map_map]
    rfl
  have hpending : r.pending =
      ((r.critical ++ r.lossy.map (·.2)).map fun p =>
        (r.resolver.tier p.envelope, p)).map fun x => x.2.envelope := by
    rw [List.map_map]
    rfl
  rw [hmap, hpending]
  exact (List.mergeSort_perm _ _).map _

theorem count_flush (r : Reducer) (now : Nat) (e : Envelope) :
    (notified [(r.flush now).2]).count e = r.pending.count e := by
  have h : notified [(r.flush now).2] = (r.batch now).notifications.map (·.envelope) :=
    List.flatMap_singleton _ _
  rw [h]
  exact (r.perm_batch now).count_eq e

theorem pending_flush (r : Reducer) (now : Nat) : (r.flush now).1.pending = [] := rfl

theorem nothing_of_not_hasPending {r : Reducer} (h : r.hasPending = false) :
    r.pending = [] ∧ r.gaps = [] := by
  obtain ⟨hcount, hgaps⟩ := Bool.or_eq_false_iff.mp h
  have hnone : ¬ 0 < r.critical.length + r.lossy.length := of_decide_eq_false hcount
  have hcritical : r.critical = [] := List.length_eq_zero_iff.mp (by omega)
  have hlossy : r.lossy = [] := List.length_eq_zero_iff.mp (by omega)
  refine ⟨?_, List.isEmpty_iff.mp (by simpa using hgaps)⟩
  rw [pending, hcritical, hlossy]
  rfl

theorem gaps_flush (r : Reducer) (now : Nat) :
    (r.flush now).1.gaps = [] ∧ announced [(r.flush now).2] = r.gaps :=
  ⟨rfl, List.flatMap_singleton _ _⟩

theorem tidy_flush (r : Reducer) (now : Nat) : Tidy (r.flush now).1 :=
  ⟨(fun _ hp => nomatch hp), (fun _ he => nomatch he), Table.sorted_nil⟩

theorem pending_push_critical {r : Reducer} {e : Envelope} (h : e.policy = .critical) :
    ((r.push e).pending).Perm (e :: r.pending) := by
  simp only [push, h, pending, List.map_append, List.map_cons, List.map_nil, List.append_assoc]
  exact List.perm_middle

theorem count_set_le {κ : Type} [Ord κ] (t : Table κ Pending) (k : κ) (p : Pending)
    (e : Envelope) :
    ((Table.set t k p).map fun x => x.2.envelope).count e ≤
      (t.map fun x => x.2.envelope).count e + [p.envelope].count e := by
  induction t with
  | nil => simp [Table.set]
  | cons entry rest ih =>
    rcases entry with ⟨k₀, p₀⟩
    simp only [Table.set]
    cases compare k k₀ with
    | lt =>
      simp only [List.map_cons, List.count_cons, List.count_nil]
      omega
    | eq =>
      simp only [List.map_cons, List.count_cons, List.count_nil]
      omega
    | gt =>
      simp only [List.map_cons, List.count_cons, List.count_nil] at ih ⊢
      omega

theorem pending_push_lossy {r : Reducer} {e : Envelope} {key : String}
    (h : e.policy = .lossy key) :
    (r.push e).pending = r.critical.map (·.envelope) ++
      (Table.set r.lossy key ⟨r.nextArrival, e⟩).map fun x => x.2.envelope := by
  simp only [push, h, pending, List.map_append, List.map_map]
  rfl

theorem pending_eq (r : Reducer) :
    r.pending = r.critical.map (·.envelope) ++ r.lossy.map fun x => x.2.envelope := by
  simp only [pending, List.map_append, List.map_map]
  rfl

theorem count_push_le (r : Reducer) (e x : Envelope) :
    (r.push e).pending.count x ≤ r.pending.count x + [e].count x := by
  cases h : e.policy with
  | critical =>
    refine Nat.le_of_eq ?_
    rw [(pending_push_critical h).count_eq, List.count_cons, List.count_singleton]
  | lossy key =>
    have hle : ((Table.set r.lossy key ⟨r.nextArrival, e⟩).map fun y => y.2.envelope).count x ≤
        (r.lossy.map fun y => y.2.envelope).count x + [e].count x :=
      count_set_le r.lossy key ⟨r.nextArrival, e⟩ x
    rw [pending_push_lossy h, r.pending_eq, List.count_append, List.count_append]
    omega

theorem tidy_push {r : Reducer} (ht : Tidy r) (e : Envelope) : Tidy (r.push e) := by
  cases h : e.policy with
  | critical =>
    have hc : (r.push e).critical = r.critical ++ [⟨r.nextArrival, e⟩] := by simp only [push, h]
    have hl : (r.push e).lossy = r.lossy := by simp only [push, h]
    refine ⟨?_, hl ▸ ht.filed, hl ▸ ht.sorted⟩
    intro p hp
    rw [hc] at hp
    rcases List.mem_append.mp hp with hp | hp
    · exact ht.critical p hp
    · rw [List.mem_singleton.mp hp]
      exact h
  | lossy key =>
    have hc : (r.push e).critical = r.critical := by simp only [push, h]
    have hl : (r.push e).lossy = Table.set r.lossy key ⟨r.nextArrival, e⟩ := by
      simp only [push, h]
    refine ⟨hc ▸ ht.critical, ?_, hl ▸ ht.sorted.set _ _⟩
    intro entry he
    rw [hl] at he
    rcases Table.mem_set he with rfl | he
    · exact h
    · exact ht.filed entry he

theorem Tidy.count_lossy {r : Reducer} (ht : Tidy r) {x : Envelope} (hx : x.policy = .critical) :
    (r.lossy.map fun y => y.2.envelope).count x = 0 := by
  rw [List.count_eq_zero]
  intro hm
  obtain ⟨entry, he, rfl⟩ := List.mem_map.mp hm
  have hp := ht.filed entry he
  rw [hx] at hp
  cases hp

theorem count_push_of_critical {r : Reducer} (ht : Tidy r) {x : Envelope}
    (hx : x.policy = .critical) (e : Envelope) :
    (r.push e).pending.count x = r.pending.count x + [e].count x := by
  have hafter := (tidy_push ht e).count_lossy hx
  have hbefore := ht.count_lossy hx
  cases h : e.policy with
  | critical =>
    rw [(pending_push_critical h).count_eq, List.count_cons, List.count_singleton]
  | lossy key =>
    have hne : e ≠ x := by
      rintro rfl
      rw [h] at hx
      cases hx
    have hc : (r.push e).critical = r.critical := by simp only [push, h]
    rw [(r.push e).pending_eq, r.pending_eq, List.count_append, List.count_append, hafter,
      hbefore, hc, List.count_singleton]
    simp [hne]

theorem Tidy.count_le_one {r : Reducer} (ht : Tidy r) {x : Envelope}
    (hx : x.policy ≠ .critical) : r.pending.count x ≤ 1 := by
  have hcritical : (r.critical.map (·.envelope)).count x = 0 := by
    rw [List.count_eq_zero]
    intro hm
    obtain ⟨p, hp, rfl⟩ := List.mem_map.mp hm
    exact hx (ht.critical p hp)
  have hpolicies : (r.lossy.map fun y => y.2.envelope).map Envelope.policy =
      (Table.keys r.lossy).map DeliveryPolicy.lossy := by
    rw [Table.keys, List.map_map, List.map_map]
    exact List.map_congr_left ht.filed
  have hnodup : (r.lossy.map fun y => y.2.envelope).Nodup := by
    refine List.Nodup.of_map Envelope.policy ?_
    rw [hpolicies]
    refine ht.sorted.nodup_keys.map ?_
    intro a b hab
    cases hab
    rfl
  rw [r.pending_eq, List.count_append, hcritical]
  have := List.nodup_iff_count_le_one.mp hnodup x
  omega

theorem pending_control (r : Reducer) (c : Control) : (r.control c).pending = r.pending := by
  cases c <;> rfl

theorem gaps_push (r : Reducer) (e : Envelope) : (r.push e).gaps = r.gaps := by
  simp only [push]
  cases e.policy <;> rfl

def Gathers (entries : List Entry) : Prop := ∀ now, .flush now ∉ entries

theorem tidy_after {r : Reducer} (ht : Tidy r) (entries : List Entry) :
    Tidy (r.after entries) := by
  induction entries generalizing r with
  | nil => exact ht
  | cons x rest ih =>
    refine ih (r := r.enter x) ?_
    cases x with
    | envelope e => exact tidy_push ht e
    | loss gap => exact ⟨ht.critical, ht.filed, ht.sorted⟩
    | control c => cases c <;> exact ⟨ht.critical, ht.filed, ht.sorted⟩
    | flush now => exact r.tidy_flush now

theorem count_after_le {entries : List Entry} (h : Gathers entries) (r : Reducer) (x : Envelope) :
    (r.after entries).pending.count x ≤
      r.pending.count x + (entries.filterMap Entry.envelope?).count x := by
  induction entries generalizing r with
  | nil => exact Nat.le_refl _
  | cons y rest ih =>
    have hrest := ih (fun now hm => h now (List.mem_cons_of_mem _ hm)) (r.enter y)
    have hcons : r.after (y :: rest) = (r.enter y).after rest := rfl
    rw [hcons]
    cases y with
    | envelope e =>
      have hpush := r.count_push_le e x
      have hf : (Entry.envelope e :: rest).filterMap Entry.envelope? =
          [e] ++ rest.filterMap Entry.envelope? := rfl
      rw [hf, List.count_append]
      have he : (r.enter (.envelope e)).pending = (r.push e).pending := rfl
      rw [he] at hrest
      omega
    | loss gap => exact hrest
    | control c =>
      have hc : (r.enter (.control c)).pending = r.pending := r.pending_control c
      rw [hc] at hrest
      exact hrest
    | flush now => exact absurd List.mem_cons_self (h now)

theorem count_after_of_critical {entries : List Entry} (h : Gathers entries) {r : Reducer}
    (ht : Tidy r) {x : Envelope} (hx : x.policy = .critical) :
    (r.after entries).pending.count x =
      r.pending.count x + (entries.filterMap Entry.envelope?).count x := by
  induction entries generalizing r with
  | nil => rfl
  | cons y rest ih =>
    have hrest := fun {q : Reducer} (hq : Tidy q) =>
      ih (r := q) (fun now hm => h now (List.mem_cons_of_mem _ hm)) hq
    have hcons : r.after (y :: rest) = (r.enter y).after rest := rfl
    rw [hcons]
    cases y with
    | envelope e =>
      have hf : (Entry.envelope e :: rest).filterMap Entry.envelope? =
          [e] ++ rest.filterMap Entry.envelope? := rfl
      have he : r.enter (.envelope e) = r.push e := rfl
      rw [he, hrest (tidy_push ht e), count_push_of_critical ht hx, hf, List.count_append]
      omega
    | loss gap =>
      have hg : r.enter (.loss gap) = r.recordGap gap := rfl
      rw [hg, hrest (q := r.recordGap gap) ⟨ht.critical, ht.filed, ht.sorted⟩]
      rfl
    | control c =>
      have hc : Tidy (r.enter (.control c)) := by
        cases c <;> exact ⟨ht.critical, ht.filed, ht.sorted⟩
      have hp : (r.enter (.control c)).pending = r.pending := r.pending_control c
      rw [hrest hc, hp]
      rfl
    | flush now => exact absurd List.mem_cons_self (h now)

theorem mem_gaps_after {entries : List Entry} (h : Gathers entries)
    (hd : ((entries.filterMap Entry.loss?).map DeliveryGap.source).Nodup) (r : Reducer)
    (g : DeliveryGap) :
    g ∈ (r.after entries).gaps ↔ g ∈ entries.filterMap Entry.loss? ∨
      g ∈ r.gaps ∧ ∀ l ∈ entries.filterMap Entry.loss?, l.source ≠ g.source := by
  induction entries generalizing r with
  | nil => simp [after]
  | cons y rest ih =>
    have hgath : Gathers rest := fun now hm => h now (List.mem_cons_of_mem _ hm)
    have hcons : r.after (y :: rest) = (r.enter y).after rest := rfl
    rw [hcons]
    cases y with
    | envelope e =>
      have hg : (r.enter (.envelope e)).gaps = r.gaps := r.gaps_push e
      rw [ih hgath hd, hg]
      rfl
    | loss gap =>
      have hf : (Entry.loss gap :: rest).filterMap Entry.loss? =
          gap :: rest.filterMap Entry.loss? := rfl
      rw [hf, List.map_cons, List.nodup_cons] at hd
      have hg : ∀ x, x ∈ (r.enter (.loss gap)).gaps ↔
          x ∈ r.gaps ∧ x.source ≠ gap.source ∨ x = gap := by
        intro x
        simp [enter, recordGap]
      rw [ih hgath hd.2, hf, hg, List.mem_cons, List.forall_mem_cons]
      constructor
      · rintro (hr | ⟨⟨hm, hs⟩ | rfl, hall⟩)
        · exact .inl (.inr hr)
        · exact .inr ⟨hm, Ne.symm hs, hall⟩
        · exact .inl (.inl rfl)
      · rintro ((rfl | hr) | ⟨hm, hs, hall⟩)
        · refine .inr ⟨.inr rfl, ?_⟩
          intro l hl he
          exact hd.1 (List.mem_map.mpr ⟨l, hl, he⟩)
        · exact .inl hr
        · exact .inr ⟨.inl ⟨hm, Ne.symm hs⟩, hall⟩
    | control c =>
      have hg : (r.enter (.control c)).gaps = r.gaps := by cases c <;> rfl
      rw [ih hgath hd, hg]
      rfl
    | flush now => exact absurd List.mem_cons_self (h now)

end Reducer

end Switchboard
