import Mathlib.Data.List.Induction
import Mathlib.Data.List.Nodup
import Switchboard.Path

/-!
# Sets of paths

Paths are in order by their components. A set of paths stays in strict order, so it is determined by
what it holds, and what it holds follows from what was put in.
-/
namespace Switchboard

theorem Component.cmp_eq_compareLex :
    Component.cmp = compareLex (compareOn Component.rank) (compareOn Component.text) := by
  funext a b
  cases a <;> cases b <;> rfl

instance : Std.TransCmp Component.cmp := by
  rw [Component.cmp_eq_compareLex]
  infer_instance

instance : Std.LawfulEqCmp Component.cmp where
  eq_of_compare {a b} h := by
    cases a <;> cases b <;> simp_all [Component.cmp, Component.rank]

namespace Path

instance : Std.TransCmp Path.cmp where
  eq_swap {p q} := by
    simp only [Path.cmp]
    exact Std.OrientedCmp.eq_swap
  isLE_trans {p q r} := by
    simp only [Path.cmp]
    exact Std.TransCmp.isLE_trans

theorem cmp_eq_iff {p q : Path} : p.cmp q = .eq ↔ p.same q = true := by
  rw [same_iff, cmp]
  exact Std.LawfulEqCmp.compare_eq_iff_eq

end Path

namespace PathSet

variable {set : PathSet} {p q : Path}

def Sorted (set : PathSet) : Prop := set.Pairwise fun p q => p.cmp q = .lt

theorem Sorted.sublist {some : PathSet} (h : Sorted set) (hs : some.Sublist set) : Sorted some :=
  List.Pairwise.sublist hs h

theorem contains_iff : contains set p = true ↔ ∃ q ∈ set, p.same q = true := List.any_eq_true

theorem contains_of_mem (h : p ∈ set) : contains set p = true :=
  contains_iff.mpr ⟨p, h, p.same_refl⟩

theorem contains_congr (h : p.same q = true) : contains set p = contains set q := by
  have hs : p.same = q.same := by
    funext r
    simp only [Path.same, Path.same_iff.mp h]
  simp only [contains, hs]

theorem contains_append (a b : List Path) :
    contains (a ++ b) p = (contains a p || contains b p) := List.any_append

theorem mem_insert {x : Path} (h : x ∈ insert p set) : x = p ∨ x ∈ set := by
  induction set with
  | nil => simpa [insert] using h
  | cons q qs ih =>
    simp only [insert] at h
    split at h
    · simpa using h
    · exact .inr h
    · rcases List.mem_cons.mp h with rfl | h
      · simp
      · rcases ih h with rfl | h <;> simp_all

theorem mem_insert_of_mem {x : Path} (h : x ∈ set) : x ∈ insert p set := by
  induction set with
  | nil => cases h
  | cons q qs ih =>
    simp only [insert]
    split
    · exact List.mem_cons_of_mem _ h
    · exact h
    · rcases List.mem_cons.mp h with rfl | h
      · exact List.mem_cons_self
      · exact List.mem_cons_of_mem _ (ih h)

theorem contains_insert_self : contains (insert p set) p = true := by
  induction set with
  | nil => exact contains_of_mem List.mem_cons_self
  | cons q qs ih =>
    simp only [insert]
    split
    · exact contains_of_mem List.mem_cons_self
    · next h => exact contains_iff.mpr ⟨q, List.mem_cons_self, Path.cmp_eq_iff.mp h⟩
    · obtain ⟨r, hr, hs⟩ := contains_iff.mp ih
      exact contains_iff.mpr ⟨r, List.mem_cons_of_mem _ hr, hs⟩

theorem contains_insert {x : Path} :
    contains (insert p set) x = true ↔ x.same p = true ∨ contains set x = true := by
  constructor
  · intro h
    obtain ⟨r, hr, hs⟩ := contains_iff.mp h
    rcases mem_insert hr with rfl | hr
    · exact .inl hs
    · exact .inr (contains_iff.mpr ⟨r, hr, hs⟩)
  · rintro (h | h)
    · rw [contains_congr h]
      exact contains_insert_self
    · obtain ⟨r, hr, hs⟩ := contains_iff.mp h
      exact contains_iff.mpr ⟨r, mem_insert_of_mem hr, hs⟩

theorem Sorted.insert (h : Sorted set) (p : Path) : Sorted (insert p set) := by
  induction set with
  | nil => exact List.pairwise_singleton _ _
  | cons q qs ih =>
    obtain ⟨hfirst, hrest⟩ := List.pairwise_cons.mp h
    simp only [PathSet.insert]
    split
    · next hc =>
      refine List.pairwise_cons.mpr ⟨?_, h⟩
      intro r hr
      rcases List.mem_cons.mp hr with rfl | hr
      · exact hc
      · exact Std.TransCmp.lt_trans hc (hfirst r hr)
    · exact h
    · next hc =>
      refine List.pairwise_cons.mpr ⟨?_, ih hrest⟩
      intro r hr
      rcases mem_insert hr with rfl | hr
      · exact Std.OrientedCmp.gt_iff_lt.mp hc
      · exact hfirst r hr

theorem Sorted.mem_insert_iff (h : Sorted set) {x : Path} :
    x ∈ PathSet.insert p set ↔ x ∈ set ∨ x = p ∧ contains set p = false := by
  induction set with
  | nil => simp [PathSet.insert, contains]
  | cons q qs ih =>
    obtain ⟨hfirst, hrest⟩ := List.pairwise_cons.mp h
    have hcons : contains (q :: qs) p = (p.same q || contains qs p) := rfl
    simp only [PathSet.insert]
    split
    · next hc =>
      have hnew : contains (q :: qs) p = false := by
        rw [Bool.eq_false_iff, ne_eq, contains_iff]
        rintro ⟨r, hr, hs⟩
        have hlt : p.cmp r = .lt := by
          rcases List.mem_cons.mp hr with rfl | hr
          · exact hc
          · exact Std.TransCmp.lt_trans hc (hfirst r hr)
        rw [Path.cmp_eq_iff.mpr hs] at hlt
        cases hlt
      simp [hnew, or_comm]
    · next hc => simp [hcons, Path.cmp_eq_iff.mp hc]
    · next hc =>
      have hne : p.same q = false := by
        rw [Bool.eq_false_iff, ne_eq, ← Path.cmp_eq_iff, hc]
        exact fun h => by cases h
      rw [List.mem_cons, List.mem_cons, ih hrest, hcons, hne, Bool.false_or, or_assoc]

theorem Sorted.nodup_components (h : Sorted set) : (set.map Path.components).Nodup := by
  refine List.pairwise_map.mpr (List.Pairwise.imp ?_ h)
  intro p q hpq he
  rw [Path.cmp_eq_iff.mpr (Path.same_iff.mpr he)] at hpq
  cases hpq

theorem Sorted.eq_of_same (h : Sorted set) (hp : p ∈ set) (hq : q ∈ set) (hs : p.same q = true) :
    p = q := List.inj_on_of_nodup_map h.nodup_components hp hq (Path.same_iff.mp hs)

theorem Sorted.eq_of_mem_iff {set' : PathSet} (h : Sorted set) (h' : Sorted set')
    (hm : ∀ p, p ∈ set ↔ p ∈ set') : set = set' := by
  refine List.Perm.eq_of_pairwise ?_ h h' ?_
  · intro p q _ _ hpq hqp
    rw [Std.OrientedCmp.gt_iff_lt.mpr hpq] at hqp
    cases hqp
  · exact (List.perm_ext_iff_of_nodup (List.Nodup.of_map _ h.nodup_components)
      (List.Nodup.of_map _ h'.nodup_components)).mpr hm

variable {ps : List Path}

theorem insertAll_append (set : PathSet) (ps qs : List Path) :
    insertAll set (ps ++ qs) = insertAll (insertAll set ps) qs := List.foldl_append

theorem Sorted.insertAll (h : Sorted set) : Sorted (insertAll set ps) := by
  induction ps generalizing set with
  | nil => exact h
  | cons p ps ih => exact ih (h.insert p)

theorem contains_insertAll {x : Path} :
    contains (insertAll set ps) x = true ↔
      contains set x = true ∨ ∃ p ∈ ps, x.same p = true := by
  induction ps generalizing set with
  | nil => simp [insertAll]
  | cons p ps ih =>
    have hcons : insertAll set (p :: ps) = insertAll (insert p set) ps := rfl
    rw [hcons, ih, contains_insert, List.exists_mem_cons_iff, or_assoc, or_left_comm]

theorem mem_insertAll {x : Path} (h : x ∈ insertAll set ps) : x ∈ set ∨ x ∈ ps := by
  induction ps generalizing set with
  | nil => exact .inl h
  | cons p ps ih =>
    rcases ih h with h | h
    · rcases mem_insert h with rfl | h <;> simp_all
    · exact .inr (List.mem_cons_of_mem _ h)

theorem mem_insertAll_iff
    (hs : ∀ p q, p ∈ set ∨ p ∈ ps → q ∈ set ∨ q ∈ ps → p.same q = true → p = q) {x : Path} :
    x ∈ insertAll set ps ↔ x ∈ set ∨ x ∈ ps := by
  refine ⟨mem_insertAll, fun h => ?_⟩
  have hc : contains (insertAll set ps) x = true :=
    contains_insertAll.mpr (h.imp contains_of_mem fun hx => ⟨x, hx, x.same_refl⟩)
  obtain ⟨y, hy, hxy⟩ := contains_iff.mp hc
  rwa [hs x y h (mem_insertAll hy) hxy]

theorem mem_insertAll_nil_iff {x : Path} :
    x ∈ insertAll [] ps ↔ ps.find? x.same = some x := by
  induction ps using List.reverseRecOn generalizing x with
  | nil => simp [insertAll]
  | append_singleton ps p ih =>
    have hnew : contains (insertAll [] ps) p = false ↔ ps.find? p.same = none := by
      rw [List.find?_eq_none, Bool.eq_false_iff, ne_eq, contains_insertAll]
      simp [contains]
    have hsnoc : insertAll [] (ps ++ [p]) = insert p (insertAll [] ps) := by
      rw [insertAll_append]
      rfl
    have hsorted : Sorted (insertAll [] ps) := Sorted.insertAll .nil
    rw [hsnoc, hsorted.mem_insert_iff, ih, hnew, List.find?_append]
    cases hf : ps.find? x.same with
    | some q =>
      rw [Option.some_or, or_iff_left]
      rintro ⟨rfl, hnone⟩
      rw [hf] at hnone
      cases hnone
    | none =>
      rw [Option.none_or, or_iff_right (by simp)]
      by_cases hx : x.same p = true
      · rw [List.find?_cons_of_pos hx, Option.some.injEq]
        constructor
        · exact fun h => h.1.symm
        · rintro rfl
          exact ⟨rfl, hf⟩
      · rw [List.find?_cons_of_neg hx, List.find?_nil]
        refine iff_of_false ?_ (by simp)
        rintro ⟨rfl, -⟩
        exact hx x.same_refl

theorem contains_filter {f : Path → Bool} (hf : ∀ p q, p.same q = true → f p = f q) {x : Path} :
    contains (set.filter f) x = true ↔ contains set x = true ∧ f x = true := by
  simp only [contains_iff, List.mem_filter]
  constructor
  · rintro ⟨q, ⟨hq, hfq⟩, hs⟩
    exact ⟨⟨q, hq, hs⟩, (hf x q hs).trans hfq⟩
  · rintro ⟨⟨q, hq, hs⟩, hfx⟩
    exact ⟨q, ⟨hq, (hf x q hs).symm.trans hfx⟩, hs⟩

theorem contains_symmDiff {a b : PathSet} {x : Path} :
    contains (symmDiff a b) x = true ↔ contains a x ≠ contains b x := by
  have hnot : ∀ set : PathSet, ∀ p q : Path, p.same q = true →
      (!contains set p) = !contains set q := by
    intro set p q h
    rw [contains_congr h]
  have hrest : (∃ p ∈ b.filter (!contains a ·), x.same p = true) ↔
      contains b x = true ∧ (!contains a x) = true := by
    rw [← contains_filter (hnot a), contains_iff]
  rw [symmDiff, contains_insertAll, contains_filter (hnot b), hrest]
  cases contains a x <;> cases contains b x <;> simp

protected theorem Sorted.symmDiff {a b : PathSet} (h : Sorted a) : Sorted (symmDiff a b) :=
  (h.sublist List.filter_sublist).insertAll

theorem mem_symmDiff {a b : PathSet} (ha : Sorted a) (hb : Sorted b) {x : Path} :
    x ∈ symmDiff a b ↔ (x ∈ a ∧ contains b x = false) ∨ (x ∈ b ∧ contains a x = false) := by
  have hleft : ∀ p, p ∈ a.filter (!contains b ·) ↔ p ∈ a ∧ contains b p = false := by simp
  have hright : ∀ p, p ∈ b.filter (!contains a ·) ↔ p ∈ b ∧ contains a p = false := by simp
  rw [symmDiff, mem_insertAll_iff, hleft, hright]
  intro p q hp hq hs
  rw [hleft, hright] at hp hq
  rcases hp with ⟨hp, hpn⟩ | ⟨hp, hpn⟩ <;> rcases hq with ⟨hq, hqn⟩ | ⟨hq, hqn⟩
  · exact ha.eq_of_same hp hq hs
  · rw [← contains_congr hs, contains_of_mem hp] at hqn
    cases hqn
  · rw [← contains_congr hs, contains_of_mem hp] at hqn
    cases hqn
  · exact hb.eq_of_same hp hq hs

theorem symmDiff_eq_nil {a b : PathSet} (h : ∀ p, contains a p = true ↔ contains b p = true) :
    symmDiff a b = [] := by
  have ha : a.filter (!contains b ·) = [] := by
    simpa using fun p hp => (h p).mp (contains_of_mem hp)
  have hb : b.filter (!contains a ·) = [] := by
    simpa using fun p hp => (h p).mpr (contains_of_mem hp)
  rw [symmDiff, ha, hb]
  rfl

theorem mem_put {x : Path} (h : x ∈ put p set) : x = p ∨ x ∈ set := by
  induction set with
  | nil => simpa [put] using h
  | cons q qs ih =>
    simp only [put] at h
    split at h
    · simpa using h
    · exact (List.mem_cons.mp h).imp_right (List.mem_cons_of_mem _)
    · rcases List.mem_cons.mp h with rfl | h
      · simp
      · exact (ih h).imp_right (List.mem_cons_of_mem _)

theorem mem_put_self : p ∈ put p set := by
  induction set with
  | nil => exact List.mem_cons_self
  | cons q qs ih =>
    simp only [put]
    split
    · exact List.mem_cons_self
    · exact List.mem_cons_self
    · exact List.mem_cons_of_mem _ ih

theorem mem_put_of_mem {x : Path} (h : x ∈ set) : x ∈ put p set ∨ x.same p = true := by
  induction set with
  | nil => cases h
  | cons q qs ih =>
    simp only [put]
    split
    · exact .inl (List.mem_cons_of_mem _ h)
    · next hc =>
      rcases List.mem_cons.mp h with rfl | h
      · exact .inr (Path.same_symm (Path.cmp_eq_iff.mp hc))
      · exact .inl (List.mem_cons_of_mem _ h)
    · rcases List.mem_cons.mp h with rfl | h
      · exact .inl List.mem_cons_self
      · exact (ih h).imp_left (List.mem_cons_of_mem _)

protected theorem Sorted.put (h : Sorted set) (p : Path) : Sorted (put p set) := by
  induction set with
  | nil => exact List.pairwise_singleton _ _
  | cons q qs ih =>
    obtain ⟨hfirst, hrest⟩ := List.pairwise_cons.mp h
    simp only [PathSet.put]
    split
    · next hc =>
      refine List.pairwise_cons.mpr ⟨?_, h⟩
      intro r hr
      rcases List.mem_cons.mp hr with rfl | hr
      · exact hc
      · exact Std.TransCmp.lt_trans hc (hfirst r hr)
    · next hc =>
      exact List.pairwise_cons.mpr
        ⟨fun r hr => (Std.TransCmp.congr_left hc).trans (hfirst r hr), hrest⟩
    · next hc =>
      refine List.pairwise_cons.mpr ⟨?_, ih hrest⟩
      intro r hr
      rcases mem_put hr with rfl | hr
      · exact Std.OrientedCmp.gt_iff_lt.mp hc
      · exact hfirst r hr

theorem ofList_concat (ps : List Path) (p : Path) : ofList (ps ++ [p]) = put p (ofList ps) := by
  simp [ofList]

theorem sorted_ofList (ps : List Path) : Sorted (ofList ps) := by
  induction ps using List.reverseRecOn with
  | nil => exact .nil
  | append_singleton ps p ih =>
    rw [ofList_concat]
    exact ih.put p

theorem mem_of_mem_ofList {x : Path} (h : x ∈ ofList ps) : x ∈ ps := by
  induction ps using List.reverseRecOn with
  | nil => exact h
  | append_singleton ps p ih =>
    rw [ofList_concat] at h
    rw [List.mem_append, List.mem_singleton, or_comm]
    exact (mem_put h).imp_right ih

theorem ofList_ne_nil {x : Path} (h : x ∈ ps) : ofList ps ≠ [] := by
  induction ps using List.reverseRecOn with
  | nil => cases h
  | append_singleton ps p _ =>
    rw [ofList_concat]
    exact List.ne_nil_of_mem mem_put_self

theorem mem_ofList_iff (hs : ∀ p ∈ ps, ∀ q ∈ ps, p.same q = true → p = q) {x : Path} :
    x ∈ ofList ps ↔ x ∈ ps := by
  induction ps using List.reverseRecOn with
  | nil => simp [ofList]
  | append_singleton ps p ih =>
    have hih := ih fun q hq r hr =>
      hs q (List.mem_append_left _ hq) r (List.mem_append_left _ hr)
    rw [ofList_concat, List.mem_append, List.mem_singleton, or_comm]
    refine ⟨fun h => (mem_put h).imp_right hih.mp, ?_⟩
    rintro (rfl | h)
    · exact mem_put_self
    · rcases mem_put_of_mem (p := p) (hih.mpr h) with hx | hx
      · exact hx
      · rw [hs x (List.mem_append_left _ h) p (by simp) hx]
        exact mem_put_self

theorem insert_of_last (h : ∀ q ∈ set, q.cmp p = .lt) : insert p set = set ++ [p] := by
  induction set with
  | nil => rfl
  | cons q qs ih =>
    obtain ⟨hq, hqs⟩ := List.forall_mem_cons.mp h
    simp only [insert, Std.OrientedCmp.gt_iff_lt.mpr hq, ih hqs, List.cons_append]

theorem put_of_last (h : ∀ q ∈ set, q.cmp p = .lt) : put p set = set ++ [p] := by
  induction set with
  | nil => rfl
  | cons q qs ih =>
    obtain ⟨hq, hqs⟩ := List.forall_mem_cons.mp h
    simp only [put, Std.OrientedCmp.gt_iff_lt.mpr hq, ih hqs, List.cons_append]

theorem Sorted.foldl_eq_append {f : Path → PathSet → PathSet}
    (hf : ∀ (set : PathSet) (p : Path), (∀ q ∈ set, q.cmp p = .lt) → f p set = set ++ [p])
    (h : Sorted (set ++ ps)) : ps.foldl (fun set p => f p set) set = set ++ ps := by
  induction ps generalizing set with
  | nil => exact (List.append_nil set).symm
  | cons p rest ih =>
    have hlast : ∀ q ∈ set, q.cmp p = .lt :=
      fun q hq => (List.pairwise_append.mp h).2.2 q hq p List.mem_cons_self
    have hcons : set ++ p :: rest = (set ++ [p]) ++ rest := by simp
    rw [hcons] at h ⊢
    rw [List.foldl_cons, hf set p hlast, ih h]

theorem Sorted.insertAll_eq_append (h : Sorted (set ++ ps)) :
    PathSet.insertAll set ps = set ++ ps :=
  h.foldl_eq_append fun _ _ => insert_of_last

theorem Sorted.ofList_eq (h : Sorted ps) : ofList ps = ps :=
  @Sorted.foldl_eq_append [] ps put (fun _ _ => put_of_last) h

end PathSet

end Switchboard
