import Switchboard.Proofs.Path.Absolute
import Switchboard.Proofs.Roots.Ownership

/-!
# The deepest root above a path

Whatever calls made a table of roots, no two of its roots have one comparison key, so of the roots
whose keys begin the key of a path one is deeper than all the others. Keys count components, so what
is left of the path behind that root is cut where the root ends, and keeps its spelling also where
the case of letters does not count.
-/
namespace Switchboard

namespace Path

section

variable {names : List RawText} {p q : Path}

theorem canonical_of_no_up (ha : p.isAbsolute = true) (hup : .up ∉ p.components) : p.Canonical := by
  have hc := components_of_isAbsolute ha
  refine ⟨(parts p.text).map Component.text, ?_⟩
  rw [hc] at hup ⊢
  have hnames : ∀ c ∈ parts p.text, (Component.name ∘ Component.text) c = id c := by
    intro c hm
    have hpart := isPart_of_mem_parts hm
    cases c with
    | root => exact absurd rfl hpart.ne_root
    | here => exact absurd rfl hpart.ne_here
    | up => exact absurd (List.mem_cons_of_mem _ hm) hup
    | name s => rfl
  rw [List.map_map, List.map_congr_left hnames, List.map_id]

theorem Canonical.dropKey (h : p.Canonical) (count : Nat) :
    p.dropKey (count + 1) = along (p.place.drop count) := by
  rw [Path.dropKey, h.components, List.filter_cons_of_pos (by rfl), filter_names,
    List.drop_succ_cons, along, List.map_drop]

theorem key_along (h : ∀ s ∈ names, IsPart (.name s)) (foldCase : Bool) :
    (along names).key foldCase = folded foldCase names := by
  rw [key, components_along h, filter_names, map_keyPart_name]

theorem Canonical.behind (hp : p.Canonical) (hq : q.Canonical) {foldCase : Bool}
    (h : q.key foldCase <+: p.key foldCase) :
    q.key foldCase ++ (p.dropKey (q.key foldCase).length).key foldCase = p.key foldCase ∧
      (p.dropKey (q.key foldCase).length).components = p.components.drop q.components.length ∧
      (q.join (p.dropKey (q.key foldCase).length)).components =
        q.components ++ p.components.drop q.components.length := by
  have hparts : ∀ s ∈ p.place.drop q.place.length, IsPart (.name s) :=
    fun s hs => isPart_of_mem_place hp.isAbsolute (List.drop_subset _ _ hs)
  have hlen : (q.key foldCase).length = q.place.length + 1 := by
    rw [hq.key]
    simp
  have hdrop : p.components.drop q.components.length =
      (p.place.drop q.place.length).map .name := by
    rw [hp.components, hq.components]
    simp [List.map_drop]
  have hcomponents := components_along hparts
  rw [hlen, hp.dropKey, components_join_along hq.isAbsolute hparts, hcomponents, hdrop,
    key_along hparts]
  refine ⟨?_, rfl, rfl⟩
  rw [hp.key, hq.key, List.cons_prefix_cons] at h
  have hnames := List.prefix_iff_eq_append.mp h.2
  rw [length_folded] at hnames
  rw [hp.key, hq.key, List.cons_append, ← hnames]
  simp only [folded, List.map_drop]

end

end Path

namespace RootTable

inductive Call where
  | insert (worktree : WorktreeId) (path : Path) (tier : ActivityTier)
  | remove (worktree : WorktreeId)
  | setTier (worktree : WorktreeId) (tier : ActivityTier)

def perform (t : RootTable) : Call → RootTable
  | .insert w path tier => (t.insert w path tier).toOption.getD t
  | .remove w => ((t.remove w).toOption.map (·.1)).getD t
  | .setTier w tier => (t.setTier w tier).toOption.getD t

def performAll (t : RootTable) (calls : List Call) : RootTable := calls.foldl perform t

variable {t : RootTable}

theorem perform_cases (t : RootTable) (call : Call) :
    t.perform call = t ∨
      (∃ w path tier, call = .insert w path tier ∧ t.insert w path tier = .ok (t.perform call)) ∨
      (∃ w r, call = .remove w ∧ t.remove w = .ok (t.perform call, r)) ∨
      ∃ w tier, call = .setTier w tier ∧ t.setTier w tier = .ok (t.perform call) := by
  cases call with
  | insert w path tier =>
    cases h : t.insert w path tier with
    | error e => exact .inl (by simp only [perform, h, Except.toOption, Option.getD_none])
    | ok t' => exact .inr (.inl ⟨w, path, tier, rfl, by
        simp only [perform, h, Except.toOption, Option.getD_some]⟩)
  | remove w =>
    cases h : t.remove w with
    | error e =>
      exact .inl (by simp only [perform, h, Except.toOption, Option.map_none, Option.getD_none])
    | ok out => exact .inr (.inr (.inl ⟨w, out.2, rfl, by
        simp only [perform, h, Except.toOption, Option.map_some, Option.getD_some]⟩))
  | setTier w tier =>
    cases h : t.setTier w tier with
    | error e => exact .inl (by simp only [perform, h, Except.toOption, Option.getD_none])
    | ok t' => exact .inr (.inr (.inr ⟨w, tier, rfl, by
        simp only [perform, h, Except.toOption, Option.getD_some]⟩))

theorem foldCase_perform (t : RootTable) (call : Call) :
    (t.perform call).foldCase = t.foldCase := by
  rcases t.perform_cases call with h | ⟨w, path, tier, -, h⟩ | ⟨w, r, -, h⟩ | ⟨w, tier, -, h⟩
  · rw [h]
  · rw [(insert_eq_ok h).2.2]
  · rw [(remove_eq_ok h).2]
  · obtain ⟨r, -, ht⟩ := setTier_eq_ok h
    rw [ht]

theorem foldCase_performAll (t : RootTable) (calls : List Call) :
    (t.performAll calls).foldCase = t.foldCase := by
  induction calls generalizing t with
  | nil => rfl
  | cons call rest ih => exact (ih _).trans (t.foldCase_perform call)

theorem Sound.perform (h : t.Sound) (call : Call) : (t.perform call).Sound := by
  rcases t.perform_cases call with hc | ⟨w, path, tier, -, hc⟩ | ⟨w, r, -, hc⟩ | ⟨w, tier, -, hc⟩
  · rw [hc]
    exact h
  · exact h.insert hc
  · exact h.remove hc
  · exact h.setTier hc

theorem Sound.performAll (h : t.Sound) (calls : List Call) : (t.performAll calls).Sound := by
  induction calls generalizing t with
  | nil => exact h
  | cons call rest ih => exact ih (h.perform call)

theorem mem_list_set {w : WorktreeId} {r x : Root}
    (hx : x ∈ ({ t with roots := Table.set t.roots w r } : RootTable).list) :
    x = r ∨ x ∈ t.list := by
  obtain ⟨entry, he, rfl⟩ := List.mem_map.mp hx
  rcases Table.mem_set he with rfl | he
  · exact .inl rfl
  · exact .inr (List.mem_map.mpr ⟨entry, he, rfl⟩)

theorem path_perform {call : Call} {r : Root} (hr : r ∈ (t.perform call).list) :
    (∃ q ∈ t.list, q.path = r.path) ∨ ∃ w tier, call = .insert w r.path tier := by
  rcases t.perform_cases call with hc | ⟨w, path, tier, rfl, hc⟩ | ⟨w, out, -, hc⟩ |
    ⟨w, tier, -, hc⟩
  · rw [hc] at hr
    exact .inl ⟨r, hr, rfl⟩
  · rw [(insert_eq_ok hc).2.2] at hr
    rcases mem_list_set hr with rfl | hr
    · exact .inr ⟨w, tier, rfl⟩
    · exact .inl ⟨r, hr, rfl⟩
  · exact .inl ⟨r, mem_of_mem_remove hc hr, rfl⟩
  · obtain ⟨q, hq, ht⟩ := setTier_eq_ok hc
    rw [ht] at hr
    rcases mem_list_set hr with rfl | hr
    · exact .inl ⟨q, Sound.mem_of_get? hq, rfl⟩
    · exact .inl ⟨r, hr, rfl⟩

theorem path_performAll {P : Path → Prop} {calls : List Call} (ht : ∀ r ∈ t.list, P r.path)
    (hc : ∀ w path tier, .insert w path tier ∈ calls → P path) :
    ∀ r ∈ (t.performAll calls).list, P r.path := by
  induction calls generalizing t with
  | nil => exact ht
  | cons call rest ih =>
    refine ih (fun r hr => ?_) fun w path tier hm => hc w path tier (List.mem_cons_of_mem _ hm)
    rcases path_perform hr with ⟨q, hq, hp⟩ | ⟨w, tier, rfl⟩
    · exact hp ▸ ht q hq
    · exact hc w r.path tier List.mem_cons_self

theorem ownerOf?_eq_none_iff {p : Path} :
    t.ownerOf? p = none ↔ ∀ r ∈ t.list, ¬ r.key <+: p.key t.foldCase := by
  rw [ownerOf?, Option.map_eq_none_iff, deepest_eq_none, List.eq_nil_iff_forall_not_mem]
  simp only [mem_above, not_and]

theorem Sound.lt_of_owner (h : t.Sound) {p rel : Path} {r : Root}
    (ho : t.ownerOf? p = some (r, rel)) :
    ∀ r' ∈ t.list, r'.key <+: p.key t.foldCase → r' ≠ r → r'.key.length < r.key.length := by
  obtain ⟨⟨hin, hpre, hmax⟩, -⟩ := h.ownerOf?_eq_some_iff.mp ho
  intro r' hr' hpre' hne
  refine Nat.lt_of_le_of_ne (hmax r' hr' hpre') fun hlen => hne ?_
  have hkey := (List.prefix_of_prefix_length_le hpre' hpre (Nat.le_of_eq hlen)).eq_of_length hlen
  exact h.distinct r' hr' r hin hkey

/-- Who owns a path without dots, in a table that calls with such paths made of the empty one. No
one does exactly if no key of a root begins the key of the path. Otherwise it is the one root with
the longest of these keys, and no two roots have one key. The key of the owner and the key of what
is left make up the key of the path, and what is left is spelled as in the path. The owner's path
joined with it is the path exactly if the path begins with the owner's as both are spelled, which
is so where case counts and both are UTF-8. -/
theorem owner_is_deepest (foldCase : Bool) (calls : List Call) (p : Path)
    (hroots : ∀ w path tier, .insert w path tier ∈ calls → path.Canonical)
    (ha : p.isAbsolute = true) (hdots : .up ∉ p.components) :
    let t := (create foldCase).performAll calls
    (t.ownerOf? p = none ↔ ∀ r ∈ t.list, ¬ r.path.key foldCase <+: p.key foldCase) ∧
    t.list.Pairwise (fun r r' => r.path.key foldCase ≠ r'.path.key foldCase) ∧
    ∀ r rel, t.ownerOf? p = some (r, rel) →
      t.get? r.worktree = some r ∧ r.path.key foldCase <+: p.key foldCase ∧
      (∀ r' ∈ t.list, r'.path.key foldCase <+: p.key foldCase → r' ≠ r →
        (r'.path.key foldCase).length < (r.path.key foldCase).length) ∧
      r.path.key foldCase ++ rel.key foldCase = p.key foldCase ∧
      rel.components = p.components.drop r.path.components.length ∧
      ((r.path.join rel).same p = true ↔ r.path.components <+: p.components) ∧
      (foldCase = false → r.path.isText → p.isText → (r.path.join rel).same p = true) := by
  intro t
  have hs : t.Sound := (sound_create foldCase).performAll calls
  have hcase : t.foldCase = foldCase := foldCase_performAll _ calls
  have hp := Path.canonical_of_no_up ha hdots
  have hcanonical : ∀ r ∈ t.list, r.path.Canonical :=
    path_performAll (fun r hr => nomatch hr) hroots
  have hkey : ∀ r ∈ t.list, r.path.key foldCase = r.key :=
    fun r hr => (hcase ▸ hs.keyed r hr).symm
  refine ⟨?_, ?_, ?_⟩
  · rw [ownerOf?_eq_none_iff, hcase]
    exact forall₂_congr fun r hr => by rw [hkey r hr]
  · have hnodup : t.list.Nodup := hs.nodup_worktrees.of_map
    refine hnodup.imp_of_mem fun {r r'} hr hr' hne he => hne ?_
    rw [hkey r hr, hkey r' hr'] at he
    exact hs.distinct r hr r' hr' he
  · intro r rel ho
    obtain ⟨⟨hin, hpre, -⟩, rfl⟩ := hs.ownerOf?_eq_some_iff.mp ho
    have hdeep := hs.lt_of_owner ho
    rw [hcase] at hpre hdeep
    rw [← hkey r hin] at hpre hdeep ⊢
    obtain ⟨hbehind, hspelled, hjoined⟩ := hp.behind (hcanonical r hin) hpre
    have hback : (r.path.join (p.dropKey (r.path.key foldCase).length)).same p = true ↔
        r.path.components <+: p.components := by
      rw [Path.same_iff, hjoined, List.prefix_iff_eq_append]
    refine ⟨hs.get?_of_mem hin, hpre, fun r' hr' hpre' hne => ?_, hbehind, hspelled, hback, ?_⟩
    · rw [hkey r' hr'] at hpre' ⊢
      exact hdeep r' hr' hpre' hne
    · rintro rfl hrt hpt
      have hr := hcanonical r hin
      refine hback.mpr ((hr.components_prefix_iff hp (fun s hs => ?_) fun s hs => ?_).mpr hpre)
      · exact Path.isSome_text?_of_mem_place hr.isAbsolute hrt hs
      · exact Path.isSome_text?_of_mem_place ha hpt hs

theorem owner_is_deepest_nested :
    let calls : List Call :=
      [.insert ⟨"W2"⟩ ⟨"/Repo/Sub"⟩ .sidebarOnly, .insert ⟨"W1"⟩ ⟨"/Repo"⟩ .activeInApp,
        .insert ⟨"W3"⟩ ⟨"/repo/SUB"⟩ .activeInApp, .insert ⟨"W4"⟩ ⟨"/repo/sub/Src"⟩ .activeInApp,
        .remove ⟨"W4"⟩]
    let t := (create true).performAll calls
    let p : Path := ⟨"/rePO//suB/./Src/Main.lean"⟩
    let root : Root := ⟨⟨"W2"⟩, ⟨"/Repo/Sub"⟩, .sidebarOnly, ["/", "repo", "sub"]⟩
    let rel : Path := ⟨"Src/Main.lean"⟩
    (∀ w path tier, .insert w path tier ∈ calls → path.Canonical) ∧ p.isAbsolute = true ∧
      .up ∉ p.components ∧ t.ownerOf? p = some (root, rel) ∧
      root.path.key true ++ rel.key true = p.key true ∧ t.ownerOf? ⟨"/rep"⟩ = none := by
  intro calls t p root rel
  have hroots : ∀ w path tier, .insert w path tier ∈ calls → path.Canonical := by
    intro w path tier hm
    simp only [calls, List.mem_cons, Call.insert.injEq, reduceCtorEq, List.not_mem_nil, or_false,
      or_self] at hm
    rcases hm with ⟨-, rfl, -⟩ | ⟨-, rfl, -⟩ | ⟨-, rfl, -⟩ | ⟨-, rfl, -⟩
    · exact ⟨["Repo", "Sub"], by decide⟩
    · exact ⟨["Repo"], by decide⟩
    · exact ⟨["repo", "SUB"], by decide⟩
    · exact ⟨["repo", "sub", "Src"], by decide⟩
  have ha : p.isAbsolute = true := by decide
  have hdots : .up ∉ p.components := by decide
  have howner : t.ownerOf? p = some (root, rel) := by decide +kernel
  have hkey := ((owner_is_deepest true calls p hroots ha hdots).2.2 root rel howner).2.2.2.1
  exact ⟨hroots, ha, hdots, howner, hkey, by decide +kernel⟩

/-- Two names that are not UTF-8 are shown alike, so a root owns what is not in it. -/
theorem not_always_joined_back :
    let root : Root := ⟨⟨"W1"⟩, ⟨RawText.slash :: [0xFF]⟩, .activeInApp, ["/", "\uFFFD"]⟩
    let p : Path := ⟨RawText.slash :: 0xFE :: "/a"⟩
    let t := (create false).performAll [.insert root.worktree root.path root.tier]
    root.path.Canonical ∧ p.isAbsolute = true ∧ .up ∉ p.components ∧
      t.ownerOf? p = some (root, ⟨"a"⟩) ∧ (root.path.join ⟨"a"⟩).same p = false :=
  ⟨⟨[[0xFF]], by decide⟩, by decide, by decide, by decide +kernel, by decide⟩

end RootTable

end Switchboard
