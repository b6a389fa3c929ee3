import Switchboard.Proofs.Path.Absolute
import Switchboard.Proofs.Projection.Views

/-!
# Scopes of panes

A pane whose directory lies in its root sees what lies below that directory. The projection compares
the directory with the root as they are spelled: what is left of the directory behind the root, part
by part, is what a path of the root has to begin with.
-/
namespace Switchboard

namespace Path

open RawText (slash)

theorem isBlankSegment_iff {part : RawText} : isBlankSegment part = true ↔ part? part = none :=
  Option.isNone_iff_eq_none

theorem filterMap_dropWhile_blank (ps : List RawText) :
    (ps.dropWhile isBlankSegment).filterMap part? = ps.filterMap part? := by
  induction ps with
  | nil => rfl
  | cons part rest ih =>
    by_cases h : isBlankSegment part = true
    · rw [List.dropWhile_cons_of_pos h, ih, List.filterMap_cons_none (isBlankSegment_iff.mp h)]
    · rw [List.dropWhile_cons_of_neg h]

theorem filterMap_trimEnd (ps : List RawText) :
    (trimEnd ps).filterMap part? = ps.filterMap part? := by
  rw [trimEnd, List.filterMap_reverse, filterMap_dropWhile_blank, List.filterMap_reverse,
    List.reverse_reverse]

theorem filterMap_dropSegments (count : Nat) (ps : List RawText) :
    (dropSegments count ps).filterMap part? = (ps.filterMap part?).drop count := by
  fun_induction dropSegments count ps with
  | case1 ps => rfl
  | case2 count hne => exact List.drop_nil.symm
  | case3 count part rest hblank ih =>
    rw [ih, List.filterMap_cons_none (isBlankSegment_iff.mp hblank)]
  | case4 count part rest hblank ih =>
    obtain ⟨c, hc⟩ := Option.ne_none_iff_exists'.mp fun h => hblank (isBlankSegment_iff.mpr h)
    rw [ih, List.filterMap_cons_some hc, List.drop_succ_cons]

theorem dropSegments_suffix (count : Nat) (ps : List RawText) :
    dropSegments count ps <:+ ps := by
  fun_induction dropSegments count ps with
  | case1 ps => exact List.suffix_refl ps
  | case2 count hne => exact List.suffix_refl []
  | case3 count part rest hblank ih => exact ih.trans (List.suffix_cons part rest)
  | case4 count part rest hblank ih => exact ih.trans (List.suffix_cons part rest)

theorem trimEnd_begins (ps : List RawText) : trimEnd ps <+: ps := by
  have h := List.dropWhile_suffix isBlankSegment (l := ps.reverse)
  rw [← List.reverse_prefix, List.reverse_reverse] at h
  exact h

theorem head?_trimEnd_dropWhile {ps : List RawText} {part : RawText}
    (h : (trimEnd (ps.dropWhile isBlankSegment)).head? = some part) :
    isBlankSegment part = false := by
  obtain ⟨tail, htail⟩ := trimEnd_begins (ps.dropWhile isBlankSegment)
  have hfirst := List.head?_dropWhile_not isBlankSegment ps
  rw [← htail, List.head?_append, h] at hfirst
  simpa using hfirst

theorem components_intercalate {ps : List RawText} (hslash : ∀ part ∈ ps, slash ∉ part)
    (hfirst : ∀ part, ps.head? = some part → isBlankSegment part = false) :
    (Path.mk ([slash].intercalate ps)).components = ps.filterMap part? := by
  cases ps with
  | nil => rfl
  | cons first rest =>
    have hsegments : segments ([slash].intercalate (first :: rest)) = first :: rest := by
      rw [segments_eq_splitOn, List.splitOn_intercalate]
      · exact hslash
      · simp
    have hshown : isBlankSegment first = false := hfirst first rfl
    have hrel : (Path.mk ([slash].intercalate (first :: rest))).isAbsolute = false := by
      rw [Bool.eq_false_iff, ne_eq, isAbsolute_iff]
      rintro ⟨cs, hcs⟩
      dsimp only at hcs
      rw [hcs, segments, if_pos rfl] at hsegments
      rw [← (List.cons.inj hsegments).1] at hshown
      cases hshown
    rw [components_of_not_isAbsolute hrel, parts, hsegments, if_neg]
    rw [List.head?_cons, Option.some.injEq]
    rintro rfl
    cases hshown

theorem stripAbsolute?_of_not_begins {p base : Path} (h : ¬ base.components <+: p.components) :
    p.stripAbsolute? base = none := by
  rw [stripAbsolute?, if_neg]
  simp [List.isPrefixOf_iff_prefix, h]

theorem stripAbsolute?_of_begins {p base : Path} (hp : p.isAbsolute = true)
    (hb : base.isAbsolute = true) (h : base.components <+: p.components) :
    ∃ rest, p.stripAbsolute? base = some rest ∧
      rest.components = p.components.drop base.components.length ∧
      (rest.text.isEmpty = true ↔ rest.components = []) := by
  obtain ⟨cs, hcs⟩ := isAbsolute_iff.mp hp
  have hbase := components_of_isAbsolute hb
  have hcomponents : p.components = .root :: (segments cs).filterMap part? := by
    rw [components_of_isAbsolute hp, hcs]
    rfl
  have hstrip : p.stripAbsolute? base = some ⟨[slash].intercalate (trimEnd
      ((dropSegments (parts base.text).length (segments cs)).dropWhile isBlankSegment))⟩ := by
    rw [stripAbsolute?, if_pos (by simp [hp, List.isPrefixOf_iff_prefix, h]), hbase, hcs]
    rfl
  generalize hps : trimEnd ((dropSegments (parts base.text).length (segments cs)).dropWhile
    isBlankSegment) = ps at hstrip
  have hslash : ∀ part ∈ ps, slash ∉ part := by
    intro part hm
    rw [← hps] at hm
    exact not_mem_of_mem_segments ((dropSegments_suffix _ _).subset
      ((List.dropWhile_suffix _).subset ((trimEnd_begins _).subset hm)))
  -- nothing blank is left in front, so the rest reads back as a relative path
  have hfirst : ∀ part, ps.head? = some part → isBlankSegment part = false :=
    fun part h => head?_trimEnd_dropWhile (hps ▸ h)
  have hread := components_intercalate hslash hfirst
  have hleft : ps.filterMap part? = p.components.drop base.components.length := by
    rw [← hps, filterMap_trimEnd, filterMap_dropWhile_blank, filterMap_dropSegments, hcomponents,
      hbase, List.length_cons, List.drop_succ_cons]
  refine ⟨_, hstrip, hread.trans hleft, fun hempty => ?_, fun hnone => ?_⟩
  · rw [List.isEmpty_iff] at hempty
    dsimp only at hempty
    rw [components, isAbsolute, hempty]
    rfl
  · cases ps with
    | nil => rfl
    | cons first rest =>
      have hshown := hfirst first rfl
      rw [hread, List.filterMap_eq_nil_iff] at hnone
      rw [isBlankSegment_iff.mpr (hnone first List.mem_cons_self)] at hshown
      cases hshown

end Path

theorem Projection.admits_scope_iff {p : Projection} {view : PaneView} {root cwd rel : Path}
    (hroot : Table.get? p.roots view.worktree = some root) (hcwd : view.cwd = some cwd)
    (hr : root.isAbsolute = true) (hc : cwd.isAbsolute = true) :
    (p.scope view).admits rel = true ↔
      root.components <+: cwd.components ∧
        cwd.components <+: root.components ++ rel.components := by
  simp only [Projection.scope, hcwd, hc, hroot, Bool.not_true, Bool.false_eq_true, if_false,
    Option.bind_some]
  by_cases hpre : root.components <+: cwd.components
  · obtain ⟨rest, hstrip, hrest, hempty⟩ := Path.stripAbsolute?_of_begins hc hr hpre
    have hadmits : (if rest.text.isEmpty then Scope.whole else .subtree rest).admits rel = true ↔
        rest.components <+: rel.components := by
      by_cases hnone : rest.text.isEmpty = true
      · rw [if_pos hnone, hempty.mp hnone]
        exact iff_of_true rfl (List.nil_prefix)
      · rw [if_neg hnone, Scope.admits, Path.startsWith, List.isPrefixOf_iff_prefix]
    have hsplit : cwd.components = root.components ++ rest.components := by
      rw [hrest]
      exact (List.prefix_iff_eq_append.mp hpre).symm
    simp only [hstrip, hadmits]
    rw [hsplit, List.prefix_append_right_inj, and_iff_right (List.prefix_append _ _)]
  · simp only [Path.stripAbsolute?_of_not_begins hpre, Scope.admits, Bool.false_eq_true, hpre,
      false_and]

end Switchboard
