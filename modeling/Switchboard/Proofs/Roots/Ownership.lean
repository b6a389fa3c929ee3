import Mathlib.Data.List.Infix
import Switchboard.Proofs.Table
import Switchboard.Roots

/-!
# Who owns a path

Registered roots have different keys, so of the roots above a path one is the deepest, and that root
owns the path. A root with no root nested in it owns everything below it.
-/
namespace Switchboard.RootTable

section Deepest

variable {rs : List Root} {r : Root}

def deeper : Option Root → Root → Option Root
  | none, r => some r
  | some b, r => if b.key.length ≤ r.key.length then some r else some b

theorem deepest_eq_foldl (rs : List Root) : deepest rs = rs.foldl deeper none := by
  rw [deepest]
  congr 1
  funext best r
  cases best <;> rfl

theorem foldl_deeper_some (rs : List Root) (b : Root) : ∃ r, rs.foldl deeper (some b) = some r ∧
    (r = b ∨ r ∈ rs) ∧ b.key.length ≤ r.key.length ∧ ∀ q ∈ rs, q.key.length ≤ r.key.length := by
  induction rs generalizing b with
  | nil => exact ⟨b, rfl, .inl rfl, Nat.le_refl _, by simp⟩
  | cons q rs ih =>
    simp only [List.foldl_cons, deeper]
    split
    · next hq =>
      obtain ⟨r, hr, hmem, hqr, hrest⟩ := ih q
      refine ⟨r, hr, .inr ?_, Nat.le_trans hq hqr, ?_⟩
      · rcases hmem with rfl | hmem <;> simp_all
      · simpa using ⟨hqr, hrest⟩
    · next hq =>
      obtain ⟨r, hr, hmem, hbr, hrest⟩ := ih b
      refine ⟨r, hr, hmem.imp_right (List.mem_cons_of_mem _), hbr, ?_⟩
      rw [List.forall_mem_cons]
      exact ⟨by omega, hrest⟩

theorem deepest_spec (h : deepest rs = some r) :
    r ∈ rs ∧ ∀ q ∈ rs, q.key.length ≤ r.key.length := by
  cases rs with
  | nil => cases h
  | cons q rs =>
    obtain ⟨r', hr', hmem, hq, hrest⟩ := foldl_deeper_some rs q
    rw [deepest_eq_foldl, List.foldl_cons, deeper, hr', Option.some.injEq] at h
    subst h
    exact ⟨List.mem_cons.mpr hmem, List.forall_mem_cons.mpr ⟨hq, hrest⟩⟩

theorem deepest_eq_none : deepest rs = none ↔ rs = [] := by
  cases rs with
  | nil => simp [deepest]
  | cons q rs =>
    obtain ⟨r, hr, -⟩ := foldl_deeper_some rs q
    simp [deepest_eq_foldl, deeper, hr]

end Deepest

structure Sound (t : RootTable) : Prop where
  sorted : Table.Sorted t.roots
  named : ∀ entry ∈ t.roots, entry.2.worktree = entry.1
  keyed : ∀ r ∈ t.list, r.key = r.path.key t.foldCase
  distinct : ∀ r ∈ t.list, ∀ r' ∈ t.list, r.key = r'.key → r = r'

theorem sound_create (foldCase : Bool) : Sound (create foldCase) where
  sorted := Table.sorted_nil
  named entry h := by cases h
  keyed r h := by cases h
  distinct r h := by cases h

namespace Sound

variable {t t' : RootTable} {w : WorktreeId} {r : Root}

theorem worktree_of_get? (h : t.Sound) (hr : t.get? w = some r) : r.worktree = w :=
  h.named _ (Table.mem_of_get? hr)

theorem mem_of_get? (hr : t.get? w = some r) : r ∈ t.list :=
  List.mem_map.mpr ⟨_, Table.mem_of_get? hr, rfl⟩

theorem get?_of_mem (h : t.Sound) (hr : r ∈ t.list) : t.get? r.worktree = some r := by
  obtain ⟨entry, he, rfl⟩ := List.mem_map.mp hr
  rw [h.named entry he]
  exact h.sorted.get?_of_mem he

theorem nodup_worktrees (h : t.Sound) : (t.list.map (·.worktree)).Nodup := by
  have hkeys : t.list.map (·.worktree) = Table.keys t.roots := by
    rw [list, List.map_map]
    exact List.map_congr_left h.named
  rw [hkeys]
  exact h.sorted.nodup_keys

theorem mem_worktrees (h : t.Sound) :
    w ∈ t.list.map (·.worktree) ↔ (t.get? w).isSome = true := by
  rw [List.mem_map, Option.isSome_iff_exists]
  constructor
  · rintro ⟨r, hr, rfl⟩
    exact ⟨r, h.get?_of_mem hr⟩
  · rintro ⟨r, hr⟩
    exact ⟨r, mem_of_get? hr, h.worktree_of_get? hr⟩

theorem set (h : t.Sound) (hk : r.key = r.path.key t.foldCase)
    (hd : ∀ r' ∈ t.list, r'.key = r.key → r'.worktree = r.worktree) :
    Sound { t with roots := Table.set t.roots r.worktree r } := by
  have hmem : ∀ x ∈ ({ t with roots := Table.set t.roots r.worktree r } : RootTable).list,
      x = r ∨ (x ∈ t.list ∧ x.worktree ≠ r.worktree) := by
    intro x hx
    obtain ⟨entry, he, rfl⟩ := List.mem_map.mp hx
    have hget := (h.sorted.set r.worktree r).get?_of_mem he
    rw [Table.get?_set] at hget
    by_cases hw : r.worktree = entry.1
    · rw [if_pos hw, Option.some.injEq] at hget
      exact .inl hget.symm
    · rw [if_neg hw] at hget
      have hin := mem_of_get? (t := t) hget
      refine .inr ⟨hin, ?_⟩
      rw [h.worktree_of_get? hget]
      exact Ne.symm hw
  refine ⟨h.sorted.set _ _, ?_, ?_, ?_⟩
  · intro entry he
    rcases Table.mem_set he with rfl | he
    · rfl
    · exact h.named entry he
  · intro x hx
    rcases hmem x hx with rfl | ⟨hx, -⟩
    · exact hk
    · exact h.keyed x hx
  · intro x hx y hy hxy
    rcases hmem x hx with hx | ⟨hx, hxw⟩ <;> rcases hmem y hy with hy | ⟨hy, hyw⟩
    · rw [hx, hy]
    · exact absurd (hd y hy (hx ▸ hxy.symm)) hyw
    · exact absurd (hd x hx (hy ▸ hxy)) hxw
    · exact h.distinct x hx y hy hxy

end Sound

section Changes

variable {t t' : RootTable} {w : WorktreeId} {r : Root} {path : Path} {tier : ActivityTier}

theorem insert_eq_ok (h : t.insert w path tier = .ok t') :
    t.get? w = none ∧ (∀ r ∈ t.list, r.key ≠ path.key t.foldCase) ∧
      t' = { t with roots := Table.set t.roots w ⟨w, path, tier, path.key t.foldCase⟩ } := by
  simp only [insert] at h
  split at h
  · cases h
  · next hw =>
    split at h
    · cases h
    · next hf =>
      cases h
      refine ⟨by simpa [Table.contains, get?] using hw, ?_, rfl⟩
      intro r hr
      simpa using List.find?_eq_none.mp hf r hr

theorem remove_eq_ok (h : t.remove w = .ok (t', r)) :
    t.get? w = some r ∧ t' = { t with roots := Table.erase t.roots w } := by
  simp only [remove] at h
  split at h
  · cases h
  · next hr =>
    cases h
    exact ⟨hr, rfl⟩

theorem setTier_eq_ok (h : t.setTier w tier = .ok t') :
    ∃ r, t.get? w = some r ∧ t' = { t with roots := Table.set t.roots w { r with tier } } := by
  simp only [setTier] at h
  split at h
  · cases h
  · next r hr =>
    cases h
    exact ⟨r, hr, rfl⟩

theorem mem_of_mem_remove {removed : Root} (h : t.remove w = .ok (t', removed))
    (hr : r ∈ t'.list) : r ∈ t.list := by
  obtain ⟨-, rfl⟩ := remove_eq_ok h
  obtain ⟨entry, he, rfl⟩ := List.mem_map.mp hr
  exact List.mem_map.mpr ⟨entry, (List.mem_filter.mp he).1, rfl⟩

theorem Sound.insert (hs : t.Sound) (h : t.insert w path tier = .ok t') : t'.Sound := by
  obtain ⟨-, hkey, rfl⟩ := insert_eq_ok h
  exact hs.set (r := ⟨w, path, tier, path.key t.foldCase⟩) rfl
    fun r' hr' he => absurd he (hkey r' hr')

theorem Sound.remove (hs : t.Sound) (h : t.remove w = .ok (t', r)) : t'.Sound := by
  have hsub : ∀ x ∈ t'.list, x ∈ t.list := fun x hx => mem_of_mem_remove h hx
  obtain ⟨-, rfl⟩ := remove_eq_ok h
  exact ⟨hs.sorted.erase w, fun entry he => hs.named entry (List.mem_filter.mp he).1,
    fun x hx => hs.keyed x (hsub x hx),
    fun x hx y hy => hs.distinct x (hsub x hx) y (hsub y hy)⟩

theorem Sound.setTier (hs : t.Sound) (h : t.setTier w tier = .ok t') : t'.Sound := by
  obtain ⟨r, hr, rfl⟩ := setTier_eq_ok h
  have hin := Sound.mem_of_get? hr
  have hw := hs.worktree_of_get? hr
  subst hw
  refine hs.set (r := { r with tier }) (hs.keyed r hin) ?_
  intro r' hr' he
  rw [hs.distinct r' hr' r hin he]

end Changes

variable {t : RootTable} {w : WorktreeId} {r : Root} {p rel : Path}

theorem mem_above {key : List String} : r ∈ t.above key ↔ r ∈ t.list ∧ r.key <+: key := by
  simp [above]

theorem Sound.deepest_eq_some_iff (h : t.Sound) {key : List String} {rs : List Root}
    (hrs : ∀ q ∈ rs, q ∈ t.list ∧ q.key <+: key) :
    deepest rs = some r ↔ r ∈ rs ∧ ∀ q ∈ rs, q.key.length ≤ r.key.length := by
  refine ⟨deepest_spec, fun ⟨hmem, hmax⟩ => ?_⟩
  obtain ⟨hin, hpre⟩ := hrs r hmem
  cases hd : deepest rs with
  | none =>
    rw [deepest_eq_none.mp hd] at hmem
    cases hmem
  | some q =>
    obtain ⟨hq, hqmax⟩ := deepest_spec hd
    obtain ⟨hqin, hqpre⟩ := hrs q hq
    have hlen := Nat.le_antisymm (hmax q hq) (hqmax r hmem)
    -- Two beginnings of one key that are equally long are one key, and then one root.
    have hkey : q.key = r.key :=
      (List.prefix_of_prefix_length_le hqpre hpre (Nat.le_of_eq hlen)).eq_of_length hlen
    rw [h.distinct q hqin r hin hkey]

/-- The owner is the deepest of the roots above the path. -/
theorem Sound.ownerOf?_eq_some_iff (h : t.Sound) :
    t.ownerOf? p = some (r, rel) ↔
      (r ∈ t.list ∧ r.key <+: p.key t.foldCase ∧
        ∀ r' ∈ t.list, r'.key <+: p.key t.foldCase → r'.key.length ≤ r.key.length) ∧
      rel = p.dropKey r.key.length := by
  have hdeepest (q : Root) : deepest (t.above (p.key t.foldCase)) = some q ↔ _ :=
    h.deepest_eq_some_iff fun q hq => mem_above.mp hq
  simp only [ownerOf?, Option.map_eq_some_iff, Prod.mk.injEq, hdeepest, mem_above, and_imp]
  constructor
  · rintro ⟨r', ⟨⟨hin, hpre⟩, hmax⟩, rfl, rfl⟩
    exact ⟨⟨hin, hpre, hmax⟩, rfl⟩
  · rintro ⟨⟨hin, hpre, hmax⟩, rfl⟩
    exact ⟨r, ⟨⟨hin, hpre⟩, hmax⟩, rfl, rfl⟩

theorem Sound.eq_of_nestedIn_eq_nil (h : t.Sound) (hr : t.get? w = some r)
    (hn : t.nestedIn w = []) : ∀ r' ∈ t.list, r.key <+: r'.key → r' = r := by
  intro r' hr' hpre
  induction hl : r'.key.length using Nat.strongRecOn generalizing r' with
  | ind n ih =>
    rcases Nat.eq_or_lt_of_le hpre.length_le with hlen | hlen
    · exact (h.distinct r (Sound.mem_of_get? hr) r' hr' (hpre.eq_of_length hlen)).symm
    have hmem : r ∈ (t.above r'.key).filter (·.key.length < r'.key.length) := by
      simpa [hlen] using mem_above.mpr ⟨Sound.mem_of_get? hr, hpre⟩
    cases hd : deepest ((t.above r'.key).filter (·.key.length < r'.key.length)) with
    | none =>
      rw [deepest_eq_none.mp hd] at hmem
      cases hmem
    | some q =>
      obtain ⟨hq, hmax⟩ := deepest_spec hd
      obtain ⟨habove, hshort⟩ := List.mem_filter.mp hq
      obtain ⟨hqin, hqpre⟩ := mem_above.mp habove
      have hrq : r.key <+: q.key := List.prefix_of_prefix_length_le hpre hqpre (hmax r hmem)
      -- The root right above `r'` lies below `r` too, and nearer to it.
      have hq := ih q.key.length (hl ▸ of_decide_eq_true hshort) q hqin hrq rfl
      subst hq
      have hparent : t.parentOf r' = some w := by
        rw [parentOf, hd, Option.map_some, h.worktree_of_get? hr]
      have : r'.worktree ∈ t.nestedIn w :=
        List.mem_map.mpr ⟨r', List.mem_filter.mpr ⟨hr', by simpa using hparent⟩, rfl⟩
      rw [hn] at this
      cases this

theorem Sound.ownerOf?_of_nestedIn_eq_nil (h : t.Sound) (hr : t.get? w = some r)
    (hn : t.nestedIn w = []) (hp : r.key <+: p.key t.foldCase) :
    t.ownerOf? p = some (r, p.dropKey r.key.length) := by
  refine h.ownerOf?_eq_some_iff.mpr ⟨⟨Sound.mem_of_get? hr, hp, ?_⟩, rfl⟩
  intro r' hr' hpre
  rcases Nat.le_total r'.key.length r.key.length with hle | hle
  · exact hle
  · have hrr' := List.prefix_of_prefix_length_le hp hpre hle
    rw [h.eq_of_nestedIn_eq_nil hr hn r' hr' hrr']

end Switchboard.RootTable
