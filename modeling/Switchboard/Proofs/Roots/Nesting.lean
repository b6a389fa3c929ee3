import Switchboard.Proofs.Roots.Deepest

/-!
# Nesting

A registry may keep with each root the root it lies in and the roots that lie in it, and put all of
this together anew whenever a root comes or goes. Then it keeps what the registered roots say at any
time: a forest that does not depend on how they came there.
-/
namespace Switchboard

/-- Registered roots, each with its place among the others as it was last put together. -/
structure Forest where
  foldCase : Bool
  places : Table WorktreeId RootInfo
  deriving DecidableEq

namespace Forest

def create (foldCase : Bool) : Forest := ⟨foldCase, []⟩

def list (f : Forest) : List RootInfo := f.places.map (·.2)

def get? (f : Forest) (w : WorktreeId) : Option RootInfo := Table.get? f.places w

def ancestor? (f : Forest) (key : List String) : Option WorktreeId :=
  (RootTable.deepest ((f.list.map (·.root)).filter fun r =>
    r.key.length < key.length && r.key.isPrefixOf key)).map (·.worktree)

def modify (f : Forest) (w : WorktreeId) (change : RootInfo → RootInfo) : Forest :=
  { f with places := f.places.map fun e => if e.1 = w then (e.1, change e.2) else e }

def cleared (f : Forest) : Forest :=
  { f with places := f.places.map fun e => (e.1, { e.2 with parent := none, nested := [] }) }

def link (f : Forest) (child : WorktreeId) (parent : Option WorktreeId) : Forest :=
  let f := match parent with
    | some p => f.modify p fun i => { i with nested := insertOrdered child i.nested }
    | none => f
  f.modify child fun i => { i with parent }

/-- Finds all parents, forgets all places, and enters the parents one by one. -/
def rebuild (f : Forest) : Forest :=
  let parents := f.list.map fun i => (i.root.worktree, f.ancestor? i.root.key)
  parents.foldl (fun f e => f.link e.1 e.2) f.cleared

def insert (f : Forest) (w : WorktreeId) (path : Path) (tier : ActivityTier) :
    Forest × Except RootError RootInfo :=
  if Table.contains f.places w then (f, .error (.duplicateWorktree w))
  else
    let key := path.key f.foldCase
    match f.list.find? (·.root.key = key) with
    | some existing => (f, .error (.duplicatePath path existing.root.worktree))
    | none =>
      let f := { f with places := Table.set f.places w ⟨⟨w, path, tier, key⟩, none, []⟩ }.rebuild
      match f.get? w with
      | some i => (f, .ok i)
      | none => (f, .error (.notRegistered w))

def remove (f : Forest) (w : WorktreeId) : Forest × Except RootError RootInfo :=
  match f.get? w with
  | none => (f, .error (.notRegistered w))
  | some i => ({ f with places := Table.erase f.places w }.rebuild, .ok i)

def setTier (f : Forest) (w : WorktreeId) (tier : ActivityTier) : Forest × Except RootError Unit :=
  match f.get? w with
  | none => (f, .error (.notRegistered w))
  | some i =>
    ({ f with places := Table.set f.places w { i with root := { i.root with tier } } }, .ok ())

def call (f : Forest) : RootTable.Call → Forest × Except RootError Unit
  | .insert w path tier => (f.insert w path tier).map id (·.map fun _ => ())
  | .remove w => (f.remove w).map id (·.map fun _ => ())
  | .setTier w tier => f.setTier w tier

def performAll (f : Forest) (calls : List RootTable.Call) : Forest :=
  calls.foldl (fun f c => (f.call c).1) f

def parent? (f : Forest) (w : WorktreeId) : Option WorktreeId := (f.get? w).bind (·.parent)

def table (f : Forest) : RootTable := ⟨f.foldCase, f.places.map fun e => (e.1, e.2.root)⟩

end Forest

def RootInfo.Above (q i : RootInfo) : Prop := q.root.key <+: i.root.key ∧ q.root.key ≠ i.root.key

theorem RootInfo.above_iff {q i : RootInfo} :
    q.Above i ↔ q.root.key <+: i.root.key ∧ q.root.key.length < i.root.key.length := by
  refine and_congr_right fun hpre => ⟨fun hne => ?_, fun hlt he => ?_⟩
  · exact Nat.lt_of_le_of_ne hpre.length_le fun hlen => hne (hpre.eq_of_length hlen)
  · rw [he] at hlt
    exact Nat.lt_irrefl _ hlt

def RootInfo.entry (i : RootInfo) : WorktreeId × List Component × ActivityTier :=
  (i.root.worktree, i.root.path.components, i.root.tier)

/-- All that is stored of a root, with the path as paths are compared. -/
def RootInfo.face (i : RootInfo) : WorktreeId × List Component × ActivityTier × List String ×
    Option WorktreeId × List WorktreeId :=
  (i.root.worktree, i.root.path.components, i.root.tier, i.root.key, i.parent, i.nested)

namespace RootTable

def sites (t : RootTable) : Table WorktreeId (List String) := t.roots.map fun e => (e.1, e.2.key)

def parentAt (t : RootTable) (key : List String) : Option WorktreeId :=
  (deepest ((t.above key).filter (·.key.length < key.length))).map (·.worktree)

variable {t t' : RootTable} {w : WorktreeId} {key : List String} {r : Root}

theorem Sound.mem_sites (h : t.Sound) :
    (w, key) ∈ t.sites ↔ ∃ r ∈ t.list, r.worktree = w ∧ r.key = key := by
  simp only [sites, list, List.mem_map, Prod.mk.injEq]
  constructor
  · rintro ⟨e, he, rfl, rfl⟩
    exact ⟨e.2, ⟨e, he, rfl⟩, h.named e he, rfl⟩
  · rintro ⟨_, ⟨e, he, rfl⟩, hw, rfl⟩
    exact ⟨e, he, (h.named e he).symm.trans hw, rfl⟩

theorem Sound.sorted_sites (h : t.Sound) : Table.Sorted t.sites := h.sorted.map Root.key

theorem mem_strictly_above : r ∈ (t.above key).filter (·.key.length < key.length) ↔
    r ∈ t.list ∧ r.key <+: key ∧ r.key.length < key.length := by
  rw [List.mem_filter, mem_above, decide_eq_true_eq, and_assoc]

theorem Sound.parentAt_eq_some_iff (h : t.Sound) : t.parentAt key = some w ↔
    ∃ k, (w, k) ∈ t.sites ∧ k <+: key ∧ k.length < key.length ∧
      ∀ x ∈ t.sites, x.2 <+: key → x.2.length < key.length → x.2.length ≤ k.length := by
  have hdeepest (q : Root) :
      deepest ((t.above key).filter (·.key.length < key.length)) = some q ↔ _ :=
    h.deepest_eq_some_iff fun q hq =>
      ⟨(mem_strictly_above.mp hq).1, (mem_strictly_above.mp hq).2.1⟩
  simp only [parentAt, Option.map_eq_some_iff, hdeepest, mem_strictly_above]
  constructor
  · rintro ⟨q, ⟨⟨hin, hpre, hlt⟩, hmax⟩, rfl⟩
    refine ⟨q.key, h.mem_sites.mpr ⟨q, hin, rfl, rfl⟩, hpre, hlt, ?_⟩
    rintro ⟨u, k⟩ hx hk hklt
    obtain ⟨q', hq', -, rfl⟩ := h.mem_sites.mp hx
    exact hmax q' ⟨hq', hk, hklt⟩
  · rintro ⟨k, hk, hpre, hlt, hmax⟩
    obtain ⟨q, hin, rfl, rfl⟩ := h.mem_sites.mp hk
    exact ⟨q, ⟨⟨hin, hpre, hlt⟩, fun q' ⟨hq', hpre', hlt'⟩ =>
      hmax _ (h.mem_sites.mpr ⟨q', hq', rfl, rfl⟩) hpre' hlt'⟩, rfl⟩

theorem Sound.parentAt_eq_none_iff (h : t.Sound) : t.parentAt key = none ↔
    ∀ x ∈ t.sites, ¬ (x.2 <+: key ∧ x.2.length < key.length) := by
  rw [parentAt, Option.map_eq_none_iff, deepest_eq_none, List.eq_nil_iff_forall_not_mem]
  simp only [mem_strictly_above, not_and]
  constructor
  · rintro hnone ⟨u, k⟩ hx
    obtain ⟨q, hq, -, rfl⟩ := h.mem_sites.mp hx
    exact hnone q hq
  · exact fun hnone q hq => hnone _ (h.mem_sites.mpr ⟨q, hq, rfl, rfl⟩)

theorem Sound.nestedIn_eq (h : t.Sound) (w : WorktreeId) :
    t.nestedIn w = (t.sites.filter fun x => t.parentAt x.2 = some w).map (·.1) := by
  simp only [nestedIn, list, sites, List.filter_map, List.map_map]
  exact List.map_congr_left fun e he => h.named e (List.mem_filter.mp he).1

theorem Sound.info_congr (h : t.Sound) (h' : t'.Sound) (hs : t.sites = t'.sites) (r : Root) :
    t.info r = t'.info r := by
  have hparent : ∀ key, t.parentAt key = t'.parentAt key := by
    intro key
    refine Option.ext fun w => ?_
    rw [h.parentAt_eq_some_iff, h'.parentAt_eq_some_iff, hs]
  have hnested : t.nestedIn r.worktree = t'.nestedIn r.worktree := by
    rw [h.nestedIn_eq, h'.nestedIn_eq, hs]
    simp only [hparent]
  show RootInfo.mk r (t.parentAt r.key) _ = RootInfo.mk r (t'.parentAt r.key) _
  rw [hparent, hnested]

def forest (t : RootTable) : Forest := ⟨t.foldCase, t.roots.map fun e => (e.1, t.info e.2)⟩

theorem list_forest (t : RootTable) : t.forest.list = t.infos := by
  simp only [Forest.list, forest, infos, list, List.map_map]
  rfl

theorem get?_forest (t : RootTable) (w : WorktreeId) : t.forest.get? w = t.info? w :=
  Table.get?_map t.info t.roots w

theorem map_places_forest (t : RootTable) :
    t.forest.places.map (fun e => (e.1, e.2.root)) = t.roots := by
  rw [forest, List.map_map]
  exact List.map_id _

end RootTable

open RootTable (Call)

namespace Forest

variable {f : Forest}

theorem ancestor?_eq (f : Forest) (key : List String) :
    f.ancestor? key = f.table.parentAt key := by
  have hlist : f.list.map (·.root) = f.table.list := by
    rw [list, table, RootTable.list, List.map_map, List.map_map]
    rfl
  rw [ancestor?, RootTable.parentAt, RootTable.above, List.filter_filter, hlist]

def linked (child : WorktreeId) (parent : Option WorktreeId) (e : WorktreeId × RootInfo) :
    WorktreeId × RootInfo :=
  (e.1, ⟨e.2.root, if e.1 = child then parent else e.2.parent,
    if parent = some e.1 then insertOrdered child e.2.nested else e.2.nested⟩)

theorem places_link (f : Forest) (child : WorktreeId) (parent : Option WorktreeId) :
    (f.link child parent).places = f.places.map (linked child parent) := by
  cases parent with
  | none =>
    refine List.map_congr_left fun e _ => ?_
    by_cases hc : e.1 = child <;> simp [linked, hc]
  | some p =>
    simp only [link, modify, List.map_map]
    refine List.map_congr_left fun ⟨k, i⟩ _ => ?_
    rcases eq_or_ne k p with rfl | hp
    · rcases eq_or_ne k child with rfl | hc
      · simp [linked]
      · simp [linked, hc]
    · rcases eq_or_ne k child with rfl | hc
      · simp [linked, hp, hp.symm]
      · simp [linked, hp, hp.symm, hc]

theorem foldCase_link (f : Forest) (child : WorktreeId) (parent : Option WorktreeId) :
    (f.link child parent).foldCase = f.foldCase := by
  cases parent <;> rfl

theorem foldl_link (f : Forest) (parents : Table WorktreeId (Option WorktreeId)) :
    parents.foldl (fun f e => f.link e.1 e.2) f =
      ⟨f.foldCase, f.places.map fun e => parents.foldl (fun e x => linked x.1 x.2 e) e⟩ := by
  induction parents generalizing f with
  | nil =>
    rw [List.foldl_nil]
    exact congrArg (Forest.mk f.foldCase) (List.map_id _).symm
  | cons x rest ih =>
    rw [List.foldl_cons, ih, foldCase_link, places_link, List.map_map]
    rfl

theorem insertOrdered_of_last {a : WorktreeId} {items : List WorktreeId}
    (h : ∀ b ∈ items, compare b a = .lt) : insertOrdered a items = items ++ [a] := by
  induction items with
  | nil => rfl
  | cons b rest ih =>
    have hgt : compare a b = .gt := Std.OrientedCmp.gt_of_lt (h b List.mem_cons_self)
    simp only [insertOrdered, hgt]
    rw [ih fun x hx => h x (List.mem_cons_of_mem _ hx), List.cons_append]

theorem foldl_linked {parents : Table WorktreeId (Option WorktreeId)} (hp : Table.Sorted parents)
    (k : WorktreeId) (i : RootInfo) (hi : ∀ a ∈ i.nested, ∀ x ∈ parents, compare a x.1 = .lt) :
    parents.foldl (fun e x => linked x.1 x.2 e) (k, i) =
      (k, ⟨i.root, (Table.get? parents k).getD i.parent,
        i.nested ++ (parents.filter fun x => x.2 = some k).map (·.1)⟩) := by
  induction parents generalizing i with
  | nil => simp
  | cons x rest ih =>
    obtain ⟨hfirst, hrest⟩ := List.pairwise_cons.mp hp
    have hlast : insertOrdered x.1 i.nested = i.nested ++ [x.1] :=
      insertOrdered_of_last fun a ha => hi a ha x List.mem_cons_self
    have hparent : (Table.get? (x :: rest) k).getD i.parent =
        (Table.get? rest k).getD (if k = x.1 then x.2 else i.parent) := by
      rw [Table.get?_cons]
      by_cases hk : k = x.1
      · have hnone : Table.get? rest k = none := by
          cases hg : Table.get? rest k with
          | none => rfl
          | some p =>
            have hlt := hfirst _ (Table.mem_of_get? hg)
            rw [hk, Std.compare_self] at hlt
            cases hlt
        rw [if_pos hk.symm, if_pos hk, hnone, Option.getD_some, Option.getD_none]
      · rw [if_neg (Ne.symm hk), if_neg hk]
    rw [List.foldl_cons, linked, ih hrest, hparent]
    · by_cases hx : x.2 = some k
      · simp [hx, hlast]
      · simp [hx]
    · intro a ha y hy
      simp only at ha
      split at ha
      · rw [hlast, List.mem_append, List.mem_singleton] at ha
        rcases ha with ha | rfl
        · exact hi a ha y (List.mem_cons_of_mem _ hy)
        · exact hfirst y hy
      · exact hi a ha y (List.mem_cons_of_mem _ hy)

theorem rebuild_eq (h : f.table.Sound) : f.rebuild = f.table.forest := by
  have hroots : f.table.roots = f.places.map fun e => (e.1, e.2.root) := rfl
  have hnamed : ∀ e ∈ f.places, e.2.root.worktree = e.1 := by
    intro e he
    exact h.named (e.1, e.2.root) (hroots ▸ List.mem_map.mpr ⟨e, he, rfl⟩)
  have hsites : f.table.sites = f.places.map fun e => (e.1, e.2.root.key) := by
    rw [RootTable.sites, hroots, List.map_map]
    rfl
  have hparents : f.list.map (fun i => (i.root.worktree, f.ancestor? i.root.key)) =
      f.table.sites.map fun e => (e.1, f.table.parentAt e.2) := by
    rw [hsites, list, List.map_map, List.map_map]
    exact List.map_congr_left fun e he => by
      simp only [Function.comp_apply, hnamed e he, ancestor?_eq]
  have hsorted := h.sorted_sites.map f.table.parentAt
  have hplaces : (f.cleared.places.map fun e =>
      (f.table.sites.map fun e => (e.1, f.table.parentAt e.2)).foldl
        (fun e x => linked x.1 x.2 e) e) = f.table.forest.places := by
    rw [cleared, RootTable.forest, hroots, List.map_map, List.map_map]
    refine List.map_congr_left fun e he => ?_
    have hin : (e.1, e.2.root.key) ∈ f.table.sites := by
      rw [hsites]
      exact List.mem_map.mpr ⟨e, he, rfl⟩
    have hparent := Table.get?_map f.table.parentAt f.table.sites e.1
    have hnested := h.nestedIn_eq e.1
    rw [h.sorted_sites.get?_of_mem hin] at hparent
    simp only [Function.comp_apply]
    rw [foldl_linked hsorted _ _ (by simp), hparent]
    simp only [List.nil_append, List.filter_map, List.map_map, Option.map_some, Option.getD_some,
      RootTable.info, hnamed e he, hnested]
    rfl
  rw [rebuild, hparents, foldl_link, hplaces]
  rfl

end Forest

namespace RootTable

variable {t t' : RootTable} {w : WorktreeId}

def answer (t : RootTable) : Call → Except RootError Unit
  | .insert w path tier => (t.insert w path tier).map fun _ => ()
  | .remove w => (t.remove w).map fun _ => ()
  | .setTier w tier => (t.setTier w tier).map fun _ => ()

theorem insert_forest (h : t.Sound) (w : WorktreeId) (path : Path) (tier : ActivityTier) :
    t.forest.insert w path tier =
      match t.insert w path tier with
      | .ok t' => (t'.forest, .ok (t'.info ⟨w, path, tier, path.key t.foldCase⟩))
      | .error e => (t.forest, .error e) := by
  have hcontains : Table.contains t.forest.places w = Table.contains t.roots w := by
    have hget := t.get?_forest w
    rw [Forest.get?] at hget
    rw [Table.contains, hget, info?, Option.isSome_map, Table.contains, RootTable.get?]
  have hfind : t.forest.list.find? (·.root.key = path.key t.foldCase) =
      (t.list.find? (·.key = path.key t.foldCase)).map t.info := by
    rw [list_forest, infos, List.find?_map]
    rfl
  rw [Forest.insert, hcontains]
  cases hi : t.insert w path tier with
  | error e =>
    simp only [insert] at hi
    split at hi
    next hc =>
      cases hi
      rw [if_pos hc]
    next hc =>
      rw [if_neg hc]
      split at hi
      next existing hf =>
        cases hi
        simp only [show t.forest.foldCase = t.foldCase from rfl, hfind, hf, Option.map_some]
        rfl
      next => cases hi
  | ok t' =>
    have hs := h.insert hi
    obtain ⟨hnew, hkey, ht⟩ := insert_eq_ok hi
    have hc : ¬ Table.contains t.roots w = true := by
      rw [Table.contains, show Table.get? t.roots w = none from hnew]
      decide
    have hf : t.list.find? (·.key = path.key t.foldCase) = none := by
      rw [List.find?_eq_none]
      exact fun r hr => by simpa using hkey r hr
    have hafter : (Forest.mk t.foldCase (Table.set t.forest.places w
        ⟨⟨w, path, tier, path.key t.foldCase⟩, none, []⟩)).table = t' := by
      rw [ht, Forest.table, Table.map_set RootInfo.root, map_places_forest]
    have hrebuild := Forest.rebuild_eq (hafter ▸ hs)
    rw [hafter] at hrebuild
    have hget : t'.get? w = some ⟨w, path, tier, path.key t.foldCase⟩ := by
      rw [ht]
      exact Table.get?_set_self _ _ _
    rw [if_neg hc]
    simp only [show t.forest.foldCase = t.foldCase from rfl, hfind, hf, Option.map_none, hrebuild,
      get?_forest, info?, hget, Option.map_some]

theorem remove_forest (h : t.Sound) (w : WorktreeId) :
    t.forest.remove w =
      match t.remove w with
      | .ok (t', r) => (t'.forest, .ok (t.info r))
      | .error e => (t.forest, .error e) := by
  have hget := t.get?_forest w
  rw [info?] at hget
  simp only [Forest.remove, hget]
  cases hr : t.remove w with
  | error e =>
    simp only [remove] at hr
    split at hr
    next hg =>
      cases hr
      rw [hg]
      rfl
    next => cases hr
  | ok out =>
    obtain ⟨t', r⟩ := out
    have hs := h.remove hr
    obtain ⟨hg, ht⟩ := remove_eq_ok hr
    have hafter : (Forest.mk t.foldCase (Table.erase t.forest.places w)).table = t' := by
      rw [ht, Forest.table, Table.map_erase RootInfo.root, map_places_forest]
    have hrebuild := Forest.rebuild_eq (hafter ▸ hs)
    rw [hafter] at hrebuild
    simp only [hg, Option.map_some, show t.forest.foldCase = t.foldCase from rfl, hrebuild]

theorem Sound.map_setTier (h : t.Sound) {β : Type} {f : Root → β}
    (hf : ∀ r tier, f { r with tier } = f r) {tier : ActivityTier}
    (ht : t.setTier w tier = .ok t') :
    t'.roots.map (fun e => (e.1, f e.2)) = t.roots.map fun e => (e.1, f e.2) := by
  obtain ⟨r, hr, rfl⟩ := setTier_eq_ok ht
  have hget := Table.get?_map f t.roots w
  rw [show Table.get? t.roots w = some r from hr, Option.map_some] at hget
  rw [Table.map_set f, hf]
  refine ((h.sorted.map f).set w (f r)).ext (h.sorted.map f) fun k => ?_
  rw [Table.get?_set]
  by_cases hk : w = k
  · rw [if_pos hk, ← hk, hget]
  · rw [if_neg hk]

theorem sites_setTier (h : t.Sound) {tier : ActivityTier} (ht : t.setTier w tier = .ok t') :
    t.sites = t'.sites :=
  (h.map_setTier (f := Root.key) (fun _ _ => rfl) ht).symm

theorem setTier_forest (h : t.Sound) (w : WorktreeId) (tier : ActivityTier) :
    t.forest.setTier w tier =
      match t.setTier w tier with
      | .ok t' => (t'.forest, .ok ())
      | .error e => (t.forest, .error e) := by
  have hget := t.get?_forest w
  rw [info?] at hget
  simp only [Forest.setTier, hget]
  cases ht : t.setTier w tier with
  | error e =>
    simp only [setTier] at ht
    split at ht
    next hg =>
      cases ht
      rw [hg]
      rfl
    next => cases ht
  | ok t' =>
    have hinfo := h.info_congr (h.setTier ht) (sites_setTier h ht)
    obtain ⟨r, hr, rfl⟩ := setTier_eq_ok ht
    simp only [hr, Option.map_some, forest, ← hinfo, Table.map_set t.info]
    rfl

/-- The stored form does what the table does, and answers the same. -/
theorem call_forest (h : t.Sound) (c : Call) :
    t.forest.call c = ((t.perform c).forest, t.answer c) := by
  cases c with
  | insert w path tier =>
    rw [Forest.call, insert_forest h, perform, answer]
    cases t.insert w path tier <;> rfl
  | remove w =>
    rw [Forest.call, remove_forest h, perform, answer]
    cases t.remove w <;> rfl
  | setTier w tier =>
    rw [Forest.call, setTier_forest h, perform, answer]
    cases t.setTier w tier <;> rfl

theorem performAll_forest (h : t.Sound) (calls : List Call) :
    t.forest.performAll calls = (t.performAll calls).forest := by
  induction calls generalizing t with
  | nil => rfl
  | cons c rest ih =>
    rw [Forest.performAll, List.foldl_cons, call_forest h]
    exact ih (h.perform c)

theorem perform_of_refused {c : Call} {e : RootError} (h : t.answer c = .error e) :
    t.perform c = t := by
  rcases t.perform_cases c with hc | ⟨w, path, tier, rfl, hc⟩ | ⟨w, r, rfl, hc⟩ | ⟨w, tier, rfl, hc⟩
  · exact hc
  all_goals
    rw [answer, hc] at h
    cases h

theorem remove_of_insert {path : Path} {tier : ActivityTier} (h : t.insert w path tier = .ok t') :
    t'.remove w = .ok (t, ⟨w, path, tier, path.key t.foldCase⟩) := by
  obtain ⟨hnew, -, rfl⟩ := insert_eq_ok h
  simp only [remove, get?, Table.get?_set_self, Table.erase_set hnew]

theorem mem_infos {i : RootInfo} : i ∈ t.infos ↔ ∃ r ∈ t.list, t.info r = i := List.mem_map

theorem Sound.parent_eq_some_iff (h : t.Sound) {i : RootInfo} (hi : i ∈ t.infos) :
    i.parent = some w ↔ ∃ q ∈ t.infos, q.root.worktree = w ∧ q.Above i ∧
      ∀ q' ∈ t.infos, q'.Above i → q' ≠ q → q'.root.key.length < q.root.key.length := by
  obtain ⟨r, hr, rfl⟩ := mem_infos.mp hi
  rw [show (t.info r).parent = t.parentAt r.key from rfl, h.parentAt_eq_some_iff]
  constructor
  · rintro ⟨k, hk, hpre, hlt, hmax⟩
    obtain ⟨q, hq, rfl, rfl⟩ := h.mem_sites.mp hk
    refine ⟨t.info q, mem_infos.mpr ⟨q, hq, rfl⟩, rfl, RootInfo.above_iff.mpr ⟨hpre, hlt⟩, ?_⟩
    intro q' hq' habove hne
    obtain ⟨x, hx, rfl⟩ := mem_infos.mp hq'
    obtain ⟨hxpre, hxlt⟩ := RootInfo.above_iff.mp habove
    have hle := hmax _ (h.mem_sites.mpr ⟨x, hx, rfl, rfl⟩) hxpre hxlt
    refine Nat.lt_of_le_of_ne hle fun hlen => hne ?_
    have hkey := (List.prefix_of_prefix_length_le hxpre hpre hle).eq_of_length hlen
    rw [h.distinct x hx q hq hkey]
  · rintro ⟨q, hq, rfl, habove, hmax⟩
    obtain ⟨q, hin, rfl⟩ := mem_infos.mp hq
    obtain ⟨hpre, hlt⟩ := RootInfo.above_iff.mp habove
    refine ⟨q.key, h.mem_sites.mpr ⟨q, hin, rfl, rfl⟩, hpre, hlt, ?_⟩
    rintro ⟨u, k⟩ hx hxpre hxlt
    obtain ⟨x, hxin, -, rfl⟩ := h.mem_sites.mp hx
    by_cases hsame : t.info x = t.info q
    · exact Nat.le_of_eq (congrArg (·.root.key.length) hsame)
    · exact Nat.le_of_lt (hmax _ (mem_infos.mpr ⟨x, hxin, rfl⟩)
        (RootInfo.above_iff.mpr ⟨hxpre, hxlt⟩) hsame)

theorem Sound.parent_eq_none_iff (h : t.Sound) {i : RootInfo} (hi : i ∈ t.infos) :
    i.parent = none ↔ ∀ q ∈ t.infos, ¬ q.Above i := by
  obtain ⟨r, hr, rfl⟩ := mem_infos.mp hi
  rw [show (t.info r).parent = t.parentAt r.key from rfl, h.parentAt_eq_none_iff]
  constructor
  · intro hnone q hq habove
    obtain ⟨x, hx, rfl⟩ := mem_infos.mp hq
    exact hnone _ (h.mem_sites.mpr ⟨x, hx, rfl, rfl⟩) (RootInfo.above_iff.mp habove)
  · rintro hnone ⟨u, k⟩ hx habove
    obtain ⟨x, hxin, -, rfl⟩ := h.mem_sites.mp hx
    exact hnone _ (mem_infos.mpr ⟨x, hxin, rfl⟩) (RootInfo.above_iff.mpr habove)

theorem mem_nested_iff {i : RootInfo} (hi : i ∈ t.infos) : w ∈ i.nested ↔
    ∃ q ∈ t.infos, q.root.worktree = w ∧ q.parent = some i.root.worktree := by
  obtain ⟨r, hr, rfl⟩ := mem_infos.mp hi
  rw [show (t.info r).nested = t.nestedIn r.worktree from rfl]
  simp only [nestedIn, List.mem_map, List.mem_filter, decide_eq_true_eq, infos,
    exists_exists_and_eq_and]
  refine exists_congr fun q => ?_
  exact ⟨fun ⟨⟨hq, hp⟩, hw⟩ => ⟨hq, hw, hp⟩, fun ⟨hq, hw, hp⟩ => ⟨⟨hq, hp⟩, hw⟩⟩

theorem Sound.climb_ends (h : t.Sound) (w : WorktreeId) :
    ∃ n, (fun o => o.bind t.forest.parent?)^[n] (some w) = none := by
  have hparent : ∀ u, t.forest.parent? u = (t.get? u).bind fun r => t.parentAt r.key := by
    intro u
    rw [Forest.parent?, get?_forest, info?]
    cases t.get? u <;> rfl
  cases hg : t.get? w with
  | none => exact ⟨1, by simp [hparent, hg]⟩
  | some r =>
    induction hn : r.key.length using Nat.strongRecOn generalizing w r with
    | ind n ih =>
      cases hp : t.parentAt r.key with
      | none => exact ⟨1, by simp [hparent, hg, hp]⟩
      | some u =>
        obtain ⟨k, hk, -, hlt, -⟩ := h.parentAt_eq_some_iff.mp hp
        obtain ⟨q, hq, rfl, rfl⟩ := h.mem_sites.mp hk
        obtain ⟨m, hm⟩ := ih q.key.length (hn ▸ hlt) _ q (h.get?_of_mem hq) rfl
        refine ⟨m + 1, ?_⟩
        rw [Function.iterate_succ_apply, Option.bind_some, hparent, hg, Option.bind_some, hp]
        exact hm

section Entries

variable {α : Type} {f : Path → α}

def sheet (f : Path → α) (t : RootTable) : Table WorktreeId (α × ActivityTier × List String) :=
  t.roots.map fun e => (e.1, f e.2.path, e.2.tier, e.2.key)

theorem Sound.mem_sheet (h : t.Sound) {x : WorktreeId × α × ActivityTier × List String} :
    x ∈ t.sheet f ↔ ∃ r ∈ t.list, (r.worktree, f r.path, r.tier, r.key) = x := by
  simp only [sheet, list, List.mem_map, exists_exists_and_eq_and]
  refine exists_congr fun e => and_congr_right fun he => ?_
  rw [h.named e he]

theorem Sound.sheet_eq (h : t.Sound) (h' : t'.Sound) (hcase : t.foldCase = t'.foldCase)
    (hlook : ∀ p q : Path, f p = f q → p.components = q.components)
    (hm : ∀ x, x ∈ t.list.map (fun r => (r.worktree, f r.path, r.tier)) ↔
      x ∈ t'.list.map (fun r => (r.worktree, f r.path, r.tier))) :
    t.sheet f = t'.sheet f := by
  have hkey : ∀ r ∈ t.list, ∀ r' ∈ t'.list, f r.path = f r'.path → r.key = r'.key := by
    intro r hr r' hr' he
    rw [h.keyed r hr, h'.keyed r' hr', hcase, Path.key, Path.key, hlook _ _ he]
  refine (h.sorted.map fun r => (f r.path, r.tier, r.key)).eq_of_mem_iff
    (h'.sorted.map fun r => (f r.path, r.tier, r.key)) fun x => ?_
  refine h.mem_sheet.trans (Iff.trans ?_ h'.mem_sheet.symm)
  constructor
  · rintro ⟨r, hr, rfl⟩
    obtain ⟨r', hr', he⟩ := List.mem_map.mp ((hm _).mp (List.mem_map.mpr ⟨r, hr, rfl⟩))
    obtain ⟨hw, hp, ht⟩ := (by simpa using he : r'.worktree = r.worktree ∧
      f r'.path = f r.path ∧ r'.tier = r.tier)
    exact ⟨r', hr', by rw [hw, hp, ht, hkey r hr r' hr' hp.symm]⟩
  · rintro ⟨r, hr, rfl⟩
    obtain ⟨r', hr', he⟩ := List.mem_map.mp ((hm _).mpr (List.mem_map.mpr ⟨r, hr, rfl⟩))
    obtain ⟨hw, hp, ht⟩ := (by simpa using he : r'.worktree = r.worktree ∧
      f r'.path = f r.path ∧ r'.tier = r.tier)
    exact ⟨r', hr', by rw [hw, hp, ht, hkey r' hr' r hr hp]⟩

end Entries

theorem Sound.eq_of_entries (h : t.Sound) (h' : t'.Sound) (hcase : t.foldCase = t'.foldCase)
    (hm : ∀ x, x ∈ t.list.map (fun r => (r.worktree, r.path, r.tier)) ↔
      x ∈ t'.list.map (fun r => (r.worktree, r.path, r.tier))) : t = t' := by
  have hsheet := h.sheet_eq (f := id) h' hcase (fun p q => congrArg Path.components) hm
  have hback : ∀ {t : RootTable}, t.Sound →
      (t.sheet id).map (fun e => (e.1, Root.mk e.1 e.2.1 e.2.2.1 e.2.2.2)) = t.roots := by
    intro t h
    rw [sheet, List.map_map]
    refine (List.map_congr_left ?_).trans (List.map_id _)
    rintro ⟨k, r⟩ he
    obtain rfl : r.worktree = k := h.named _ he
    rfl
  have hroots : t.roots = t'.roots := by rw [← hback h, ← hback h', hsheet]
  cases t
  cases t'
  cases hcase
  cases hroots
  rfl

theorem Sound.faces_eq (h : t.Sound) (h' : t'.Sound) (hcase : t.foldCase = t'.foldCase)
    (hm : ∀ x, x ∈ t.infos.map RootInfo.entry ↔ x ∈ t'.infos.map RootInfo.entry) :
    t.infos.map RootInfo.face = t'.infos.map RootInfo.face := by
  simp only [infos, List.map_map] at hm ⊢
  have hsheet := h.sheet_eq (f := Path.components) h' hcase (fun _ _ he => he) hm
  have hsites : t.sites = t'.sites := by
    have hmap := congrArg (List.map fun e => (e.1, e.2.2.2)) hsheet
    simp only [sheet, List.map_map] at hmap
    exact hmap
  have hface : ∀ {u : RootTable}, u.Sound → u.list.map (RootInfo.face ∘ t.info) =
      (u.sheet Path.components).map fun e =>
        (e.1, e.2.1, e.2.2.1, e.2.2.2, t.parentAt e.2.2.2, t.nestedIn e.1) := by
    intro u hu
    rw [sheet, list, List.map_map, List.map_map]
    refine List.map_congr_left fun e he => ?_
    simp only [Function.comp_apply, ← hu.named e he]
    rfl
  have hinfo : t'.info = t.info := funext fun r => (h.info_congr h' hsites r).symm
  rw [hinfo, hface h, hface h', hsheet]

/-- Whatever calls made a table. Putting the nesting together anew with every change stores what
follows from the roots, and answers every call the same. The parent of a root is the one root with
the longest key that is a strict beginning of its own, and none if there is none; the nested roots
of a root are those whose parent it is; and the way up ends. Calls that end with the same ids, paths
and tiers, whatever they were, end with the same places. A root that is inserted and removed leaves
what was there before, and so does a call that is refused. -/
theorem nesting_is_a_forest (foldCase : Bool) (calls : List Call) :
    let t := (create foldCase).performAll calls
    let f := (Forest.create foldCase).performAll calls
    (f = t.forest ∧ ∀ c, f.call c = ((t.perform c).forest, t.answer c)) ∧
    (∀ i ∈ f.list, i.root.key = i.root.path.key foldCase ∧
      (∀ w, i.parent = some w ↔ ∃ q ∈ f.list, q.root.worktree = w ∧ q.Above i ∧
        ∀ q' ∈ f.list, q'.Above i → q' ≠ q → q'.root.key.length < q.root.key.length) ∧
      (i.parent = none ↔ ∀ q ∈ f.list, ¬ q.Above i) ∧
      (∀ w, w ∈ i.nested ↔ ∃ q ∈ f.list, q.root.worktree = w ∧
        q.parent = some i.root.worktree) ∧
      ∃ n, (fun o => o.bind f.parent?)^[n] (some i.root.worktree) = none) ∧
    (∀ more, let g := (Forest.create foldCase).performAll more
      ((∀ x, x ∈ f.list.map RootInfo.entry ↔ x ∈ g.list.map RootInfo.entry) →
        f.list.map RootInfo.face = g.list.map RootInfo.face) ∧
      ((∀ x, x ∈ f.list.map (fun i => (i.root.worktree, i.root.path, i.root.tier)) ↔
        x ∈ g.list.map (fun i => (i.root.worktree, i.root.path, i.root.tier))) → f = g)) ∧
    (∀ w path tier, (f.call (.insert w path tier)).2 = .ok () →
      (f.call (.insert w path tier)).1.call (.remove w) = (f, .ok ())) ∧
    ∀ c e, (f.call c).2 = .error e → (f.call c).1 = f := by
  intro t f
  have hstored : ∀ cs, (Forest.create foldCase).performAll cs =
      ((create foldCase).performAll cs).forest := performAll_forest (sound_create foldCase)
  have hs : t.Sound := (sound_create foldCase).performAll calls
  have hf : f = t.forest := hstored calls
  have hcase : t.foldCase = foldCase := foldCase_performAll _ calls
  have hcall := call_forest hs
  rw [hf, list_forest]
  refine ⟨⟨rfl, hcall⟩, ?_, ?_, ?_, ?_⟩
  · intro i hi
    obtain ⟨r, hr, rfl⟩ := mem_infos.mp hi
    exact ⟨hcase ▸ hs.keyed r hr, fun w => hs.parent_eq_some_iff hi, hs.parent_eq_none_iff hi,
      fun w => mem_nested_iff hi, hs.climb_ends _⟩
  · intro more
    have hs' : ((create foldCase).performAll more).Sound := (sound_create foldCase).performAll more
    have hcase' := hcase.trans (foldCase_performAll (create foldCase) more).symm
    simp only [hstored more, list_forest]
    refine ⟨hs.faces_eq hs' hcase', fun hm => congrArg forest (hs.eq_of_entries hs' hcase' ?_)⟩
    simp only [infos, List.map_map] at hm
    exact hm
  · intro w path tier hok
    rw [hcall] at hok ⊢
    simp only [answer] at hok
    cases hi : t.insert w path tier with
    | error e =>
      rw [hi] at hok
      cases hok
    | ok t' =>
      have hback := remove_of_insert hi
      rw [call_forest (hs.perform _)]
      simp only [perform, answer, hi, hback, Except.toOption, Option.getD_some, Option.map_some]
      rfl
  · intro c e he
    rw [hcall] at he ⊢
    rw [perform_of_refused he]

theorem nesting_is_a_forest_middle :
    let calls : List Call :=
      [.insert ⟨"W3"⟩ ⟨"/a/b/c"⟩ .sidebarOnly, .insert ⟨"W1"⟩ ⟨"/A"⟩ .sidebarOnly,
        .setTier ⟨"W1"⟩ .activeInApp, .insert ⟨"W2"⟩ ⟨"/a/b"⟩ .sidebarOnly]
    let more : List Call :=
      [.insert ⟨"W1"⟩ ⟨"/A"⟩ .activeInApp, .insert ⟨"W4"⟩ ⟨"/a/b/c/d"⟩ .activeInApp,
        .insert ⟨"W2"⟩ ⟨"/a/b/"⟩ .sidebarOnly, .remove ⟨"W4"⟩,
        .insert ⟨"W3"⟩ ⟨"/a/b/c"⟩ .sidebarOnly]
    let f := (Forest.create true).performAll calls
    let g := (Forest.create true).performAll more
    f.list.map (fun i => (i.root.worktree.name, i.parent.map (·.name), i.nested.map (·.name))) =
        [("W1", none, ["W2"]), ("W2", some "W1", ["W3"]), ("W3", some "W2", [])] ∧
      f.list.map RootInfo.face = g.list.map RootInfo.face ∧
      (f.call (.insert ⟨"W4"⟩ ⟨"/a/b/x"⟩ .sidebarOnly)).1.call (.remove ⟨"W4"⟩) = (f, .ok ()) ∧
      (f.call (.insert ⟨"W5"⟩ ⟨"/A/B"⟩ .sidebarOnly)).1 = f := by
  intro calls more f g
  obtain ⟨-, -, hmore, hback, hrefused⟩ := nesting_is_a_forest true calls
  have hentries : f.list.map RootInfo.entry = g.list.map RootInfo.entry := by decide +kernel
  refine ⟨by decide +kernel, (hmore more).1 fun x => ?_, hback _ _ _ (by decide +kernel),
    hrefused _ (.duplicatePath ⟨"/A/B"⟩ ⟨"W2"⟩) (by decide +kernel)⟩
  rw [show f.list.map RootInfo.entry = _ from hentries]

end RootTable

end Switchboard
