import Mathlib.Data.List.Dedup
import Switchboard.Proofs.Reducer.Pending

/-!
# What a batch owes

Of what is pushed in one frame a lossy envelope is left out if a later one has its key, and all
the rest is owed. A batch lists what is owed tier after tier and, within a tier, as it was pushed.
The reducer finds this order by sorting, and since no two arrivals are the same it does not matter
in which order the pending envelopes are handed to the sort.
-/
namespace Switchboard

section Standing

variable {α β : Type}

def standing (replaced : α → α → Bool) : List α → List α
  | [] => []
  | a :: rest =>
    if rest.any (replaced a) then standing replaced rest else a :: standing replaced rest

variable {replaced : α → α → Bool}

theorem standing_sublist (l : List α) : (standing replaced l).Sublist l := by
  induction l with
  | nil => exact .slnil
  | cons a rest ih =>
    rw [standing]
    split
    · exact ih.cons a
    · exact ih.cons_cons a

theorem standing_eq_nil_iff {l : List α} : standing replaced l = [] ↔ l = [] := by
  induction l with
  | nil => exact Iff.rfl
  | cons a rest ih =>
    rw [standing]
    split
    next hany =>
      have hne : rest ≠ [] := by
        rintro rfl
        cases hany
      exact iff_of_false (fun h => hne (ih.mp h)) (List.cons_ne_nil a rest)
    next => exact iff_of_false (List.cons_ne_nil a _) (List.cons_ne_nil a rest)

theorem standing_concat (l : List α) (x : α) :
    standing replaced (l ++ [x]) = (standing replaced l).filter (!replaced · x) ++ [x] := by
  induction l with
  | nil => simp [standing]
  | cons a rest ih =>
    simp only [List.cons_append, standing, List.any_append, List.any_cons, List.any_nil,
      Bool.or_false, ih]
    cases ha : rest.any (replaced a) with
    | true => simp
    | false => cases hx : replaced a x <;> simp [hx]

theorem map_standing (replaced : β → β → Bool) (f : α → β) (l : List α) :
    (standing (fun a x => replaced (f a) (f x)) l).map f = standing replaced (l.map f) := by
  induction l with
  | nil => rfl
  | cons a rest ih =>
    have hany : (rest.map f).any (replaced (f a)) = rest.any fun x => replaced (f a) (f x) :=
      List.any_map
    rw [List.map_cons, standing, standing, hany]
    split
    · exact ih
    · rw [List.map_cons, ih]

theorem mem_standing_iff {a : α} {before behind : List α} (h : a ∉ behind) :
    a ∈ standing replaced (before ++ a :: behind) ↔ ∀ x ∈ behind, ¬ replaced a x = true := by
  induction before with
  | nil =>
    have hnot : a ∉ standing replaced behind := fun hm => h ((standing_sublist behind).subset hm)
    rw [List.nil_append, standing]
    split
    next hany =>
      obtain ⟨x, hx, hr⟩ := List.any_eq_true.mp hany
      exact iff_of_false hnot fun hall => hall x hx hr
    next hany =>
      refine iff_of_true List.mem_cons_self fun x hx hr => hany ?_
      exact List.any_eq_true.mpr ⟨x, hx, hr⟩
  | cons b before ih =>
    rw [List.cons_append, standing]
    split
    · exact ih
    next hany =>
      rw [List.mem_cons, ih]
      refine ⟨?_, .inr⟩
      rintro (rfl | hall)
      · intro x hx hr
        refine hany (List.any_eq_true.mpr ⟨x, ?_, hr⟩)
        exact List.mem_append_right _ (List.mem_cons_of_mem _ hx)
      · exact hall

end Standing

namespace Envelope

def key? (e : Envelope) : Option String :=
  match e.policy with
  | .critical => none
  | .lossy key => some key

/-- The later envelope takes the place of this one. -/
def replacedBy (e later : Envelope) : Bool :=
  decide (e.policy ≠ .critical ∧ later.policy = e.policy)

theorem replacedBy_of_critical {e : Envelope} (h : e.policy = .critical) (later : Envelope) :
    e.replacedBy later = false := by
  simp [replacedBy, h]

theorem replacedBy_of_lossy {e later : Envelope} {key : String} (h : e.policy = .lossy key) :
    e.replacedBy later = true ↔ later.policy = .lossy key := by
  simp [replacedBy, h]

end Envelope

/-- Every critical envelope, and the last of each key. -/
def owed (pushed : List Envelope) : List Envelope := standing Envelope.replacedBy pushed

def keys (pushed : List Envelope) : List String := pushed.filterMap Envelope.key?

theorem length_owed (pushed : List Envelope) :
    (owed pushed).length + (keys pushed).length = pushed.length + (keys pushed).dedup.length := by
  induction pushed with
  | nil => rfl
  | cons e rest ih =>
    rw [owed] at ih
    cases h : e.policy with
    | critical =>
      have hany : ¬ rest.any e.replacedBy = true := by
        simp [Envelope.replacedBy_of_critical h]
      have hkeys : keys (e :: rest) = keys rest := by simp [keys, Envelope.key?, h]
      rw [owed, standing, if_neg hany, hkeys, List.length_cons, List.length_cons]
      omega
    | lossy key =>
      have hkeys : keys (e :: rest) = key :: keys rest := by simp [keys, Envelope.key?, h]
      have hmem : rest.any e.replacedBy = true ↔ key ∈ keys rest := by
        simp only [List.any_eq_true, Envelope.replacedBy_of_lossy h, keys, List.mem_filterMap]
        refine exists_congr fun x => and_congr_right fun _ => ?_
        cases hx : x.policy <;> simp [Envelope.key?, hx]
      rw [owed, standing, hkeys, List.length_cons, List.length_cons]
      by_cases hk : key ∈ keys rest
      · rw [if_pos (hmem.mpr hk), List.dedup_cons_of_mem hk]
        omega
      · rw [if_neg fun hany => hk (hmem.mp hany), List.dedup_cons_of_notMem hk, List.length_cons,
          List.length_cons]
        omega

def Tier.all : List Tier := [.p0, .p1, .p2, .p3]

def Resolver.arrange (v : Resolver) (es : List Envelope) : List Notification :=
  Tier.all.flatMap fun t => (es.filter (v.tier · = t)).map fun e => ⟨t, e⟩

theorem Resolver.mem_arrange {v : Resolver} {es : List Envelope} {e : Envelope} :
    e ∈ (v.arrange es).map (·.envelope) ↔ e ∈ es := by
  simp only [arrange, List.map_flatMap, List.map_map, Function.comp_def, List.map_id',
    List.mem_flatMap, List.mem_filter, decide_eq_true_iff]
  constructor
  · rintro ⟨t, -, he, -⟩
    exact he
  · intro he
    refine ⟨v.tier e, ?_, he, rfl⟩
    cases v.tier e <;> decide

theorem Resolver.filter_arrange (v : Resolver) (es : List Envelope) {p : Envelope → Bool}
    (h : ∀ a b, p a = true → p b = true → v.tier a = v.tier b) :
    ((v.arrange es).map (·.envelope)).filter p = es.filter p := by
  have hsplit : ((v.arrange es).map (·.envelope)).filter p =
      Tier.all.flatMap fun t => (es.filter (v.tier · = t)).filter p := by
    rw [arrange, List.map_flatMap, List.filter_flatMap]
    simp only [List.map_map, Function.comp_def, List.map_id']
  rw [hsplit]
  cases hes : es.filter p with
  | nil =>
    rw [List.flatMap_eq_nil_iff]
    intro t _
    exact List.sublist_nil.mp (hes ▸ List.filter_sublist.filter p)
  | cons a rest =>
    have ha : p a = true := (List.mem_filter.mp (hes ▸ List.mem_cons_self)).2
    rw [← hes]
    -- all that counts is in the tier of one of them
    have htier : ∀ t, (es.filter (v.tier · = t)).filter p =
        if v.tier a = t then es.filter p else [] := by
      intro t
      rw [List.filter_filter]
      by_cases ht : v.tier a = t
      · rw [if_pos ht]
        refine List.filter_congr fun b _ => ?_
        rw [Bool.and_eq_left_iff_imp]
        exact fun hb => decide_eq_true ((h b a hb ha).trans ht)
      · rw [if_neg ht, List.filter_eq_nil_iff]
        intro b _ hb
        rw [Bool.and_eq_true, decide_eq_true_iff] at hb
        exact ht ((h a b ha hb.1).trans hb.2)
    simp only [htier]
    cases v.tier a <;> simp [Tier.all]

namespace Reducer

theorem sooner_iff {a b : Tier × Pending} : sooner a b = true ↔
    a.1.rank < b.1.rank ∨ a.1.rank = b.1.rank ∧ a.2.arrival ≤ b.2.arrival := by
  simp [sooner]

def byTier (v : Resolver) (ps : List Pending) : List (Tier × Pending) :=
  Tier.all.flatMap fun t => (ps.filter (v.tier ·.envelope = t)).map (t, ·)

theorem perm_byTier (v : Resolver) (ps : List Pending) :
    (byTier v ps).Perm (ps.map fun p => (v.tier p.envelope, p)) := by
  induction ps with
  | nil => exact .nil
  | cons p rest ih =>
    refine List.Perm.trans ?_ (ih.cons _)
    -- the new entry stands in front of its own tier
    cases ht : v.tier p.envelope <;>
      simp only [byTier, Tier.all, List.flatMap_cons, List.flatMap_nil, List.filter_cons, ht,
        decide_true, reduceCtorEq, decide_false, if_true, Bool.false_eq_true, if_false,
        List.map_cons, List.append_nil, List.cons_append, List.Perm.refl]
    · exact List.perm_middle
    · rw [← List.append_assoc, ← List.append_assoc]
      exact List.perm_middle
    · rw [← List.append_assoc, ← List.append_assoc, ← List.append_assoc, ← List.append_assoc]
      exact List.perm_middle

theorem pairwise_byTier (v : Resolver) {ps : List Pending}
    (h : ps.Pairwise (·.arrival < ·.arrival)) :
    (byTier v ps).Pairwise fun a b => sooner a b = true := by
  refine List.pairwise_flatMap.mpr ⟨?_, ?_⟩
  · intro t _
    refine List.pairwise_map.mpr ((h.sublist List.filter_sublist).imp ?_)
    intro p q hpq
    exact sooner_iff.mpr (.inr ⟨rfl, Nat.le_of_lt hpq⟩)
  · have hranks : Tier.all.Pairwise (·.rank < ·.rank) := by decide
    refine hranks.imp ?_
    intro s t hst x hx y hy
    obtain ⟨p, -, rfl⟩ := List.mem_map.mp hx
    obtain ⟨q, -, rfl⟩ := List.mem_map.mp hy
    exact sooner_iff.mpr (.inl hst)

theorem mergeSort_sooner (v : Resolver) {l ps : List Pending} (hl : l.Perm ps)
    (h : ps.Pairwise (·.arrival < ·.arrival)) :
    (l.map fun p => (v.tier p.envelope, p)).mergeSort sooner = byTier v ps := by
  have hperm : ((l.map fun p => (v.tier p.envelope, p)).mergeSort sooner).Perm (byTier v ps) :=
    ((List.mergeSort_perm _ _).trans (hl.map _)).trans (perm_byTier v ps).symm
  refine List.Perm.eq_of_pairwise ?_ (List.pairwise_mergeSort ?_ ?_ _) (pairwise_byTier v h) hperm
  · -- the same arrival means the same entry
    intro a b ha hb hab hba
    obtain ⟨p, hp, rfl⟩ := List.mem_map.mp ((perm_byTier v ps).subset (hperm.subset ha))
    obtain ⟨q, hq, rfl⟩ := List.mem_map.mp ((perm_byTier v ps).subset hb)
    simp only [sooner_iff] at hab hba
    have hsame : p.arrival = q.arrival := by omega
    rw [List.inj_on_of_nodup_map (f := Pending.arrival) ?_ hp hq hsame]
    exact List.pairwise_map.mpr (h.imp Nat.ne_of_lt)
  · intro a b c hab hbc
    rw [sooner_iff] at hab hbc ⊢
    omega
  · intro a b
    rw [Bool.or_eq_true, sooner_iff, sooner_iff]
    omega

theorem map_byTier (v : Resolver) (ps : List Pending) :
    (byTier v ps).map (fun x => (⟨x.1, x.2.envelope⟩ : Notification)) =
      v.arrange (ps.map (·.envelope)) := by
  simp only [byTier, Resolver.arrange, List.map_flatMap, List.map_map, List.filter_map,
    Function.comp_def]

end Reducer

end Switchboard
