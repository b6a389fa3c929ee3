import Mathlib.Data.List.Nodup
import Switchboard.Table

/-!
# Sorted tables

A table that is only built by setting and erasing keeps its keys in strictly growing order. Then a
key stands in it once, and an entry is in the list exactly if looking up its key finds it.
-/
namespace Switchboard.Table

variable {κ α : Type}

theorem mem_of_get? [DecidableEq κ] {t : Table κ α} {k : κ} {a : α} (h : get? t k = some a) :
    (k, a) ∈ t := by
  induction t with
  | nil => cases h
  | cons entry rest ih =>
    rcases entry with ⟨k₀, a₀⟩
    rw [get?_cons] at h
    by_cases hk : k₀ = k
    · rw [if_pos hk, Option.some.injEq] at h
      rw [hk, h]
      exact List.mem_cons_self
    · rw [if_neg hk] at h
      exact List.mem_cons_of_mem _ (ih h)

theorem mem_keys [DecidableEq κ] {t : Table κ α} {k : κ} :
    k ∈ keys t ↔ (get? t k).isSome = true := by
  induction t with
  | nil => simp [keys]
  | cons entry rest ih =>
    rcases entry with ⟨k₀, a₀⟩
    rw [keys, List.map_cons, List.mem_cons, get?_cons]
    by_cases hk : k₀ = k
    · simp [hk]
    · rw [if_neg hk, ← ih, keys]
      exact or_iff_right (Ne.symm hk)

theorem get?_map [DecidableEq κ] {β : Type} (f : α → β) (t : Table κ α) (k : κ) :
    get? (t.map fun e => (e.1, f e.2)) k = (get? t k).map f := by
  induction t with
  | nil => rfl
  | cons entry rest ih =>
    rcases entry with ⟨k₀, a₀⟩
    rw [List.map_cons, get?_cons, get?_cons]
    by_cases hk : k₀ = k
    · rw [if_pos hk, if_pos hk, Option.map_some]
    · rw [if_neg hk, if_neg hk, ih]

theorem map_erase [DecidableEq κ] {β : Type} (f : α → β) (t : Table κ α) (k : κ) :
    (erase t k).map (fun e => (e.1, f e.2)) = erase (t.map fun e => (e.1, f e.2)) k := by
  rw [erase, erase, List.filter_map]
  rfl

theorem ne_of_get?_eq_none [DecidableEq κ] {t : Table κ α} {k : κ} (h : get? t k = none) :
    ∀ x ∈ t, x.1 ≠ k := by
  rintro x hx rfl
  have hkey := mem_keys.mp (List.mem_map.mpr ⟨x, hx, rfl⟩)
  rw [h] at hkey
  cases hkey

section Sorted

theorem erase_eq_self [DecidableEq κ] {t : Table κ α} {k : κ} (h : ∀ x ∈ t, x.1 ≠ k) :
    Table.erase t k = t := List.filter_eq_self.mpr fun x hx => decide_eq_true (h x hx)

variable [Ord κ]

def Sorted (t : Table κ α) : Prop := t.Pairwise fun a b => compare a.1 b.1 = .lt

theorem sorted_nil : Sorted ([] : Table κ α) := .nil

theorem mem_set {t : Table κ α} {k : κ} {a : α} {x : κ × α} (h : x ∈ set t k a) :
    x = (k, a) ∨ x ∈ t := by
  induction t with
  | nil => exact .inl (List.mem_singleton.mp h)
  | cons entry rest ih =>
    rcases entry with ⟨k₀, a₀⟩
    simp only [set] at h
    cases hc : compare k k₀ with
    | lt =>
      rw [hc] at h
      exact List.mem_cons.mp h
    | eq =>
      rw [hc] at h
      rcases List.mem_cons.mp h with h | h
      · exact .inl h
      · exact .inr (List.mem_cons_of_mem _ h)
    | gt =>
      rw [hc] at h
      rcases List.mem_cons.mp h with h | h
      · exact .inr (h ▸ List.mem_cons_self)
      · exact (ih h).imp_right (List.mem_cons_of_mem _)

theorem set_eq_insert [DecidableEq κ] [Std.LawfulEqOrd κ] {t : Table κ α} {k : κ}
    (h : get? t k = none) (a : α) :
    ∃ front behind, t = front ++ behind ∧ set t k a = front ++ (k, a) :: behind := by
  induction t with
  | nil => exact ⟨[], [], rfl, rfl⟩
  | cons entry rest ih =>
    rcases entry with ⟨k₀, a₀⟩
    rw [get?_cons] at h
    by_cases hk : k₀ = k
    · rw [if_pos hk] at h
      cases h
    rw [if_neg hk] at h
    simp only [set]
    cases hc : compare k k₀ with
    | lt => exact ⟨[], (k₀, a₀) :: rest, rfl, rfl⟩
    | eq => exact absurd (Std.compare_eq_iff_eq.mp hc).symm hk
    | gt =>
      obtain ⟨front, behind, ht, hset⟩ := ih h
      refine ⟨(k₀, a₀) :: front, behind, ?_, ?_⟩
      · rw [ht, List.cons_append]
      · rw [hset, List.cons_append]

theorem map_set {β : Type} (f : α → β) (t : Table κ α) (k : κ) (a : α) :
    (set t k a).map (fun e => (e.1, f e.2)) = set (t.map fun e => (e.1, f e.2)) k (f a) := by
  induction t with
  | nil => rfl
  | cons entry rest ih =>
    rcases entry with ⟨k₀, a₀⟩
    simp only [set, List.map_cons]
    cases compare k k₀ with
    | lt => rfl
    | eq => rfl
    | gt => exact congrArg _ ih

theorem erase_set [DecidableEq κ] [Std.LawfulEqOrd κ] {t : Table κ α} {k : κ}
    (h : get? t k = none) (a : α) : Table.erase (set t k a) k = t := by
  obtain ⟨front, behind, ht, hset⟩ := set_eq_insert h a
  have hkeep := ne_of_get?_eq_none h
  rw [ht] at hkeep
  rw [hset, ht, Table.erase, List.filter_append, List.filter_cons_of_neg (by simp),
    ← List.filter_append]
  exact erase_eq_self hkeep

theorem Sorted.erase [DecidableEq κ] {t : Table κ α} (h : Sorted t) (k : κ) : Sorted (erase t k) :=
  List.Pairwise.sublist List.filter_sublist h

theorem Sorted.map {β : Type} {t : Table κ α} (h : Sorted t) (f : α → β) :
    Sorted (t.map fun e => (e.1, f e.2)) := List.pairwise_map.mpr h

variable [Std.LawfulEqOrd κ]

theorem Sorted.nodup_keys {t : Table κ α} (h : Sorted t) : (keys t).Nodup := by
  refine List.pairwise_map.mpr (List.Pairwise.imp ?_ h)
  rintro a b hab he
  rw [he, Std.compare_self] at hab
  cases hab

theorem Sorted.get?_of_mem [DecidableEq κ] {t : Table κ α} (h : Sorted t) {k : κ} {a : α}
    (hm : (k, a) ∈ t) : get? t k = some a := by
  induction t with
  | nil => cases hm
  | cons entry rest ih =>
    rcases entry with ⟨k₀, a₀⟩
    obtain ⟨hfirst, hrest⟩ := List.pairwise_cons.mp h
    rw [get?_cons]
    rcases List.mem_cons.mp hm with he | hm
    · obtain ⟨rfl, rfl⟩ := Prod.mk.inj he
      rw [if_pos rfl]
    · have hne : k₀ ≠ k := by
        rintro rfl
        have := hfirst _ hm
        rw [Std.compare_self] at this
        cases this
      rw [if_neg hne]
      exact ih hrest hm

theorem Sorted.erase_split [DecidableEq κ] {t : Table κ α} (h : Sorted t) {k : κ} {a : α}
    (hg : get? t k = some a) :
    ∃ front behind, t = front ++ (k, a) :: behind ∧ Table.erase t k = front ++ behind := by
  obtain ⟨front, behind, ht⟩ := List.append_of_mem (mem_of_get? hg)
  have hn := h.nodup_keys
  rw [ht, keys, List.map_append, List.map_cons, List.nodup_middle, List.nodup_cons,
    ← List.map_append] at hn
  have hkeep : ∀ x ∈ front ++ behind, x.1 ≠ k :=
    fun x hx he => hn.1 (List.mem_map.mpr ⟨x, hx, he⟩)
  refine ⟨front, behind, ht, ?_⟩
  rw [Table.erase, ht, List.filter_append, List.filter_cons_of_neg (by simp),
    ← List.filter_append, List.filter_eq_self]
  exact fun x hx => decide_eq_true (hkeep x hx)

theorem Sorted.eq_of_mem_iff [Std.TransOrd κ] {t t' : Table κ α} (h : Sorted t) (h' : Sorted t')
    (hm : ∀ x, x ∈ t ↔ x ∈ t') : t = t' := by
  refine List.Perm.eq_of_pairwise ?_ h h' ?_
  · intro x y _ _ hxy hyx
    rw [Std.OrientedCmp.gt_iff_lt.mpr hxy] at hyx
    cases hyx
  · exact (List.perm_ext_iff_of_nodup h.nodup_keys.of_map h'.nodup_keys.of_map).mpr hm

theorem Sorted.ext [DecidableEq κ] [Std.TransOrd κ] {t t' : Table κ α} (h : Sorted t)
    (h' : Sorted t') (hg : ∀ k, get? t k = get? t' k) : t = t' :=
  h.eq_of_mem_iff h' fun x =>
    ⟨fun hx => mem_of_get? ((hg x.1).symm.trans (h.get?_of_mem hx)),
      fun hx => mem_of_get? ((hg x.1).trans (h'.get?_of_mem hx))⟩

theorem Sorted.set [Std.TransOrd κ] {t : Table κ α} (h : Sorted t) (k : κ) (a : α) :
    Sorted (set t k a) := by
  induction t with
  | nil => exact List.pairwise_singleton _ _
  | cons entry rest ih =>
    rcases entry with ⟨k₀, a₀⟩
    obtain ⟨hfirst, hrest⟩ := List.pairwise_cons.mp h
    simp only [Table.set]
    cases hc : compare k k₀ with
    | lt =>
      refine List.pairwise_cons.mpr ⟨?_, h⟩
      intro x hx
      rcases List.mem_cons.mp hx with rfl | hx
      · exact hc
      · exact Std.TransCmp.lt_trans hc (hfirst x hx)
    | eq =>
      have hk : k = k₀ := Std.compare_eq_iff_eq.mp hc
      exact List.pairwise_cons.mpr ⟨fun x hx => hk ▸ hfirst x hx, hrest⟩
    | gt =>
      refine List.pairwise_cons.mpr ⟨?_, ih hrest⟩
      intro x hx
      rcases mem_set hx with rfl | hx
      · exact Std.OrientedCmp.lt_of_gt hc
      · exact hfirst x hx

theorem ne_of_lt {k k' : κ} (h : compare k k' = .lt) : k' ≠ k := by
  rintro rfl
  rw [Std.compare_self] at h
  cases h

theorem Sorted.perm_set [DecidableEq κ] [Std.TransOrd κ] {t : Table κ α} (h : Sorted t) (k : κ)
    (a : α) : (Table.set t k a).Perm ((k, a) :: Table.erase t k) := by
  induction t with
  | nil => exact .refl _
  | cons entry rest ih =>
    rcases entry with ⟨k₀, a₀⟩
    obtain ⟨hfirst, hrest⟩ := List.pairwise_cons.mp h
    simp only [Table.set]
    cases hc : compare k k₀ with
    | lt =>
      rw [erase_eq_self]
      intro x hx
      rcases List.mem_cons.mp hx with rfl | hx
      · exact ne_of_lt hc
      · exact ne_of_lt (Std.TransCmp.lt_trans hc (hfirst x hx))
    | eq =>
      have hk : k = k₀ := Std.compare_eq_iff_eq.mp hc
      subst hk
      have hout : Table.erase ((k, a₀) :: rest) k = Table.erase rest k := by simp [Table.erase]
      rw [hout, erase_eq_self fun x hx => ne_of_lt (hfirst x hx)]
    | gt =>
      have hk : k₀ ≠ k := Ne.symm (ne_of_lt (Std.OrientedCmp.lt_of_gt hc))
      have hin : Table.erase ((k₀, a₀) :: rest) k = (k₀, a₀) :: Table.erase rest k := by
        simp [Table.erase, hk]
      rw [hin]
      exact ((ih hrest).cons _).trans (.swap _ _ _)

theorem Sorted.length_set [DecidableEq κ] [Std.TransOrd κ] {t : Table κ α} (h : Sorted t) (k : κ)
    (a : α) : (Table.set t k a).length = if t.contains k then t.length else t.length + 1 := by
  rw [(h.perm_set k a).length_eq, List.length_cons, contains]
  cases hg : get? t k with
  | none =>
    rw [erase_eq_self]
    · rfl
    rintro x hx rfl
    rw [h.get?_of_mem hx] at hg
    cases hg
  | some b =>
    obtain ⟨front, behind, ht, hout⟩ := h.erase_split hg
    rw [hout, ht]
    simp only [List.length_append, List.length_cons, Option.isSome_some, if_true]
    omega

end Sorted

end Switchboard.Table
