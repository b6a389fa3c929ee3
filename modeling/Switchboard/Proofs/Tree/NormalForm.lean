import Mathlib.Data.List.DropRight
import Switchboard.Proofs.Tree.Walk

/-!
# Steps up of relative paths

A path asks for a number of steps up that no name before them takes back, and for names behind
them. Its normal form keeps the names. Of the steps up it keeps one if their number is odd, for a
step up that was kept is taken back by the next one. So the normal form leads where the path does
only from the top, behind at most one such step, or where the steps that are left lead to the top.
-/
namespace Switchboard.Path

def placeFrom (p : Path) (base : List RawText) : List RawText := p.components.foldl placeStep base

/-- The steps up that nothing takes back and the names behind them, after one more component. -/
def settle (asked : Nat × List RawText) : Component → Nat × List RawText
  | .name s => (asked.1, asked.2 ++ [s])
  | .up => if asked.2 = [] then (asked.1 + 1, []) else (asked.1, asked.2.dropLast)
  | _ => asked

def settled (p : Path) : Nat × List RawText := p.components.foldl settle (0, [])

def climbs (p : Path) : Nat := p.settled.1

def origin (p : Path) (base : List RawText) : List RawText := if p.isAbsolute then [] else base

def top (p : Path) : List Component := if p.isAbsolute then [.root] else []

/-- What normalizing leaves of what is asked for. -/
def remainder (asked : Nat × List RawText) : List Component :=
  List.replicate (asked.1 % 2) .up ++ asked.2.map .name

variable {cs front : List Component} {c : Component} {asked : Nat × List RawText}
  {base : List RawText} {p : Path}

theorem rdrop_succ (base : List RawText) (k : Nat) :
    base.rdrop (k + 1) = (base.rdrop k).dropLast := by
  rw [List.rdrop, List.rdrop, List.dropLast_eq_take, List.take_take, List.length_take]
  congr 1
  omega

theorem settle_up_concat (k : Nat) (names : List RawText) (s : RawText) :
    settle (k, names ++ [s]) .up = (k, names) := by
  simp [settle]

theorem placeStep_settle (hc : c ≠ .root) :
    placeStep (base.rdrop asked.1 ++ asked.2) c =
      base.rdrop (settle asked c).1 ++ (settle asked c).2 := by
  obtain ⟨k, names⟩ := asked
  cases c with
  | root => exact absurd rfl hc
  | here => rfl
  | name s => exact List.append_assoc _ _ _
  | up =>
    rcases List.eq_nil_or_concat' names with rfl | ⟨names, s, rfl⟩
    · simp [placeStep, settle, rdrop_succ]
    · rw [settle_up_concat, placeStep, ← List.append_assoc, List.dropLast_concat]

theorem normalStep_settle (hfront : front = [] ∨ front = [.root]) (hc : c ≠ .root) :
    normalStep (front ++ remainder asked) c = front ++ remainder (settle asked c) := by
  obtain ⟨k, names⟩ := asked
  cases c with
  | root => exact absurd rfl hc
  | here => rfl
  | name s => simp [normalStep, settle, remainder]
  | up =>
    rcases List.eq_nil_or_concat' names with rfl | ⟨names, s, rfl⟩
    · -- A step up that was kept is taken back as a name is.
      rcases Nat.mod_two_eq_zero_or_one k with hk | hk
      · have hk' : (k + 1) % 2 = 1 := by omega
        rcases hfront with rfl | rfl <;>
          simp [normalStep, canPop, settle, remainder, hk, hk', Component.isRoot]
      · have hk' : (k + 1) % 2 = 0 := by omega
        rcases hfront with rfl | rfl <;>
          simp [normalStep, canPop, settle, remainder, hk, hk', Component.isRoot]
    · have hpop : ∀ out : List Component, normalStep (out ++ [.name s]) .up = out := by
        intro out
        simp [normalStep, canPop, Component.isRoot]
      rw [settle_up_concat, remainder, List.map_append, List.map_singleton, ← List.append_assoc,
        ← List.append_assoc, hpop]
      exact List.append_assoc _ _ _

theorem foldl_placeStep_settle (h : .root ∉ cs) :
    cs.foldl placeStep (base.rdrop asked.1 ++ asked.2) =
      base.rdrop (cs.foldl settle asked).1 ++ (cs.foldl settle asked).2 := by
  induction cs generalizing asked with
  | nil => rfl
  | cons c cs ih =>
    obtain ⟨hc, hcs⟩ := List.ne_and_not_mem_of_not_mem_cons h
    rw [List.foldl_cons, placeStep_settle hc.symm]
    exact ih hcs

theorem foldl_placeStep_eq (h : .root ∉ cs) (base : List RawText) :
    cs.foldl placeStep base =
      base.rdrop (cs.foldl settle (0, [])).1 ++ (cs.foldl settle (0, [])).2 := by
  rw [← foldl_placeStep_settle h, List.rdrop_zero, List.append_nil]

theorem foldl_normalStep_settle (hfront : front = [] ∨ front = [.root]) (h : .root ∉ cs) :
    cs.foldl normalStep (front ++ remainder asked) =
      front ++ remainder (cs.foldl settle asked) := by
  induction cs generalizing asked with
  | nil => rfl
  | cons c cs ih =>
    obtain ⟨hc, hcs⟩ := List.ne_and_not_mem_of_not_mem_cons h
    rw [List.foldl_cons, normalStep_settle hfront hc.symm]
    exact ih hcs

theorem foldl_settle_remainder :
    (remainder asked).foldl settle (0, []) = (asked.1 % 2, asked.2) := by
  have hup : (List.replicate (asked.1 % 2) Component.up).foldl settle (0, []) =
      (asked.1 % 2, []) := by
    rcases Nat.mod_two_eq_zero_or_one asked.1 with h | h <;> rw [h] <;> rfl
  have hnames : ∀ (names : List RawText) (start : Nat × List RawText),
      (names.map Component.name).foldl settle start = (start.1, start.2 ++ names) := by
    intro names
    induction names with
    | nil => simp
    | cons s names ih =>
      intro start
      rw [List.map_cons, List.foldl_cons, ih]
      simp [settle]
  rw [remainder, List.foldl_append, hup, hnames, List.nil_append]

theorem top_cases (p : Path) : p.top = [] ∨ p.top = [.root] := by
  rw [top]
  split
  · exact .inr rfl
  · exact .inl rfl

theorem components_cases (p : Path) :
    (p.isAbsolute = true ∧ p.components = .root :: parts p.text) ∨
      (p.isAbsolute = false ∧ (p.components = parts p.text ∨
        p.components = .here :: parts p.text)) := by
  cases h : p.isAbsolute with
  | true => exact .inl ⟨rfl, components_of_isAbsolute h⟩
  | false =>
    refine .inr ⟨rfl, ?_⟩
    rw [components_of_not_isAbsolute h]
    split
    · exact .inr rfl
    · exact .inl rfl

theorem settled_eq (p : Path) : p.settled = (parts p.text).foldl settle (0, []) := by
  rw [settled]
  obtain ⟨-, h⟩ | ⟨-, h | h⟩ := p.components_cases <;> rw [h] <;> rfl

theorem placeFrom_eq (p : Path) (base : List RawText) :
    p.placeFrom base = (p.origin base).rdrop p.climbs ++ p.settled.2 := by
  have hparts : p.placeFrom base = (parts p.text).foldl placeStep (p.origin base) := by
    rw [placeFrom, origin]
    obtain ⟨habs, h⟩ | ⟨habs, h | h⟩ := p.components_cases
    all_goals
      rw [h, habs]
      rfl
  rw [hparts, foldl_placeStep_eq (root_not_mem_parts _), ← settled_eq, climbs]

theorem normalComponents_eq (p : Path) :
    normalComponents p.components = p.top ++ remainder p.settled := by
  have hparts : normalComponents p.components =
      (parts p.text).foldl normalStep (p.top ++ remainder (0, [])) := by
    rw [normalComponents, top]
    obtain ⟨habs, h⟩ | ⟨habs, h | h⟩ := p.components_cases
    all_goals
      rw [h, habs]
      rfl
  rw [hparts, foldl_normalStep_settle p.top_cases (root_not_mem_parts _), ← settled_eq]

theorem isPart_of_mem_settled {s : RawText} (h : s ∈ p.settled.2) : IsPart (.name s) := by
  have hplace : (parts p.text).foldl placeStep [] = p.settled.2 := by
    rw [foldl_placeStep_eq (root_not_mem_parts _), ← settled_eq, List.rdrop_nil, List.nil_append]
  rw [← hplace] at h
  exact isPart_of_mem_parts ((mem_foldl_placeStep h).resolve_left List.not_mem_nil)

theorem isPart_of_mem_remainder (h : c ∈ remainder p.settled) : IsPart c := by
  rcases List.mem_append.mp h with h | h
  · rw [List.eq_of_mem_replicate h]
    exact isPart_up
  · obtain ⟨s, hs, rfl⟩ := List.mem_map.mp h
    exact isPart_of_mem_settled hs

theorem components_normalize (p : Path) :
    p.normalize.components = p.top ++ remainder p.settled := by
  have hparts : ∀ c ∈ remainder p.settled, IsPart c := fun c hc => isPart_of_mem_remainder hc
  rw [normalize, normalComponents_eq]
  rcases p.top_cases with h | h
  · rw [h, List.nil_append, components_ofComponents hparts]
  · rw [h, List.singleton_append, components_ofComponents_root hparts]

theorem isAbsolute_normalize (p : Path) : p.normalize.isAbsolute = p.isAbsolute := by
  have hparts : .root ∉ remainder p.settled := fun h => (isPart_of_mem_remainder h).ne_root rfl
  rw [Bool.eq_iff_iff, isAbsolute_iff_components, components_normalize, List.mem_append,
    or_iff_left hparts, top]
  split <;> simp_all

theorem settled_normalize (p : Path) : p.normalize.settled = (p.climbs % 2, p.settled.2) := by
  rw [settled, components_normalize, List.foldl_append, climbs, ← foldl_settle_remainder]
  rcases p.top_cases with h | h
  all_goals
    rw [h]
    rfl

theorem placeFrom_normalize (p : Path) (base : List RawText) :
    p.normalize.placeFrom base = (p.origin base).rdrop (p.climbs % 2) ++ p.settled.2 := by
  rw [placeFrom_eq, climbs, settled_normalize, origin, isAbsolute_normalize, ← origin]

theorem here_not_mem_normalize (p : Path) : .here ∉ p.normalize.components := by
  rw [components_normalize, List.mem_append, not_or]
  refine ⟨?_, fun h => (isPart_of_mem_remainder h).ne_here rfl⟩
  rcases p.top_cases with h | h <;> simp [h]

theorem normalize_normalize (p : Path) : p.normalize.normalize = p.normalize := by
  have htop : p.normalize.top = p.top := by rw [top, isAbsolute_normalize, top]
  have hrest : remainder p.normalize.settled = remainder p.settled := by
    rw [settled_normalize, remainder, Nat.mod_mod, remainder, climbs]
  rw [normalize, normalComponents_eq, htop, hrest, ← normalComponents_eq, ← normalize]

theorem rdrop_mod_two_iff (base : List RawText) (k : Nat) :
    base.rdrop (k % 2) = base.rdrop k ↔ k ≤ 1 ∨ base.length ≤ k % 2 := by
  rw [List.rdrop, List.rdrop, List.take_eq_take_iff]
  omega

theorem placeFrom_normalize_iff (p : Path) (base : List RawText) :
    p.normalize.placeFrom base = p.placeFrom base ↔
      p.isAbsolute = true ∨ p.climbs ≤ 1 ∨ base.length ≤ p.climbs % 2 := by
  rw [placeFrom_normalize, placeFrom_eq, List.append_cancel_right_eq, rdrop_mod_two_iff, origin]
  cases p.isAbsolute <;> simp

end Switchboard.Path

namespace Switchboard.Tree

open Switchboard.Path (IsPart remainder)

variable {t : Tree} {n : Nat} {place goal : Place} {todo : List Step} {names : List RawText}
  {p : Path} {base : List RawText}

inductive Rests (t : Tree) : Place → Prop where
  | dir {place : Place} : t.Stands place → Rests t place
  | file {name : RawText} {place : Place} :
    name.length ≤ nameLimit → t.node? (name :: place) = some .file → t.Stands place →
      Rests t (name :: place)

theorem Leads.rests (h : t.Leads n place todo goal) (hplace : t.Stands place) : t.Rests goal := by
  induction h with
  | done place => exact .dir hplace
  | stay _ ih => exact ih hplace
  | up _ ih => exact ih hplace.tail
  | dir hshort hdir _ ih => exact ih (.dir hshort hdir hplace)
  | file hshort hfile => exact .file hshort hfile hplace
  | link _ _ _ ih => exact ih hplace.origin

theorem Rests.leads (h : t.Rests (names.reverse ++ place)) (hplace : t.Stands place) :
    t.Leads 0 place (names.map .down) (names.reverse ++ place) := by
  generalize hgoal : names.reverse ++ place = goal at h ⊢
  cases h with
  | dir h =>
    subst hgoal
    exact h.leads
  | file hshort hfile h =>
    rcases List.eq_nil_or_concat' names with rfl | ⟨front, s, rfl⟩
    · subst hgoal
      exact absurd hfile hplace.not_file
    · rw [List.reverse_append, List.reverse_singleton, List.singleton_append, List.cons_append,
        List.cons.injEq] at hgoal
      obtain ⟨rfl, rfl⟩ := hgoal
      rw [List.map_append]
      exact (Stands.leads h).append (.file hshort hfile) h.not_file

theorem Leads.ups (k : Nat) (h : t.Leads n (place.drop k) todo goal) :
    t.Leads n place (List.replicate k .up ++ todo) goal := by
  induction k generalizing place with
  | zero => exact h
  | succ k ih =>
    rw [← List.drop_tail] at h
    exact .up (ih h)

theorem Stands.drop (h : t.Stands place) (k : Nat) : t.Stands (place.drop k) := by
  rw [← List.take_append_drop k place] at h
  exact h.of_append

theorem leads_steps_normalize : t.Leads n place (steps p.normalize) goal ↔
    t.Leads n place ((remainder p.settled).map stepOf) goal := by
  have hparts : ∀ c ∈ remainder p.settled, IsPart c := fun c hc => Path.isPart_of_mem_remainder hc
  rw [Path.normalize, Path.normalComponents_eq]
  rcases p.top_cases with h | h
  · rw [h, List.nil_append, steps_ofComponents hparts]
  · rw [h, List.singleton_append, leads_steps_root_iff hparts]

theorem map_stepOf_remainder (p : Path) : (remainder p.settled).map stepOf =
    List.replicate (p.climbs % 2) .up ++ p.settled.2.map .down := by
  simp [remainder, stepOf, Path.climbs, Function.comp_def]

theorem Leads.eq_placeFrom (ht : t.Linkless)
    (h : t.Leads n (p.origin base).reverse (steps p) goal) : goal = (p.placeFrom base).reverse := by
  have hfold := foldl_onward_steps p base.reverse
  rw [List.reverse_reverse, ← Path.placeFrom] at hfold
  rw [h.eq_onward ht, ← hfold, Path.origin]
  split <;> rfl

theorem Leads.normalize (h : t.Leads n (p.origin base).reverse (steps p) goal) (ht : t.Linkless)
    (hbase : t.Stands base.reverse) (hsame : p.normalize.placeFrom base = p.placeFrom base) :
    t.Leads 0 (p.origin base).reverse (steps p.normalize) goal := by
  have hstands : t.Stands (p.origin base).reverse := by
    rw [Path.origin]
    split
    · exact .root
    · exact hbase
  have hgoal := h.eq_placeFrom ht
  rw [← hsame, Path.placeFrom_normalize, List.reverse_append, List.rdrop_eq_reverse_drop_reverse,
    List.reverse_reverse] at hgoal
  have hrests := h.rests hstands
  rw [hgoal] at hrests ⊢
  rw [leads_steps_normalize, map_stepOf_remainder]
  exact .ups _ (hrests.leads (hstands.drop _))

theorem Linkless.of_entries (h : ∀ e ∈ t.entries, ∀ target, e.2 ≠ .link target) : t.Linkless := by
  intro place target hnode
  cases place with
  | nil => cases hnode
  | cons name place =>
    obtain ⟨e, he, hlink⟩ := Option.map_eq_some_iff.mp hnode
    exact h e (List.mem_of_find?_eq_some he) target hlink

/-- The normal form of a path is a path to the same place exactly if the path is absolute, if it
asks for at most one step up that nothing takes back, or if those that are left lead to the top. A
walk through a tree without links tells the same. -/
theorem normal_form_leads_alike_iff (p : Path) (base : List RawText) :
    (p.normalize.placeFrom base = p.placeFrom base ↔
      p.isAbsolute = true ∨ p.climbs ≤ 1 ∨ base.length ≤ p.climbs % 2) ∧
    .here ∉ p.normalize.components ∧ p.normalize.normalize = p.normalize ∧
    ∀ (t : Tree) (links : Nat) (goal : Place), t.Linkless → t.Stands base.reverse →
      t.walk links (p.origin base).reverse (steps p) = .ok goal →
        goal = (p.placeFrom base).reverse ∧
          (t.walk links (p.origin base).reverse (steps p.normalize) = .ok goal ↔
            p.normalize.placeFrom base = p.placeFrom base) := by
  refine ⟨p.placeFrom_normalize_iff base, p.here_not_mem_normalize, p.normalize_normalize, ?_⟩
  intro t links goal ht hbase hwalk
  obtain ⟨n, -, hleads⟩ := walk_eq_ok_iff.mp hwalk
  have hgoal := hleads.eq_placeFrom ht
  have horigin : p.normalize.origin base = p.origin base := by
    rw [Path.origin, Path.isAbsolute_normalize, Path.origin]
  refine ⟨hgoal, fun hnormal => ?_, fun hsame => ?_⟩
  · obtain ⟨m, -, hleads'⟩ := walk_eq_ok_iff.mp hnormal
    rw [← horigin] at hleads'
    exact List.reverse_injective ((hleads'.eq_placeFrom ht).symm.trans hgoal)
  · exact (hleads.normalize ht hbase hsame).walk (Nat.zero_le _)

theorem normal_form_leads_alike_one_up :
    (Tree.mk [(["a"], .dir), (["b", "a"], .dir)]).walk linkLimit ["a"] (steps ⟨".."⟩) = .ok [] := by
  have hsteps : steps ⟨"b/../.."⟩ = [.down "b", .up, .up] := by decide +kernel
  have hnormal : Path.normalize ⟨"b/../.."⟩ = ⟨".."⟩ := by decide +kernel
  have hsame := (normal_form_leads_alike_iff ⟨"b/../.."⟩ ["a"]).1.mpr (by decide +kernel)
  have hwalk := (normal_form_leads_alike_iff ⟨"b/../.."⟩ ["a"]).2.2.2
    ⟨[(["a"], .dir), (["b", "a"], .dir)]⟩ linkLimit []
  rw [hnormal] at hsame hwalk
  refine (hwalk (.of_entries ?_) ?_ ?_).2.mpr hsame
  · simp
  · exact .dir (by decide) rfl .root
  · refine Leads.walk (n := 0) ?_ (Nat.zero_le _)
    rw [hsteps]
    exact .dir (by decide) rfl (.up (.up (.done _)))

/-- The second step up takes back the first, which was kept. -/
theorem not_always_leads_alike :
    ¬ ∀ (p : Path) (base : List RawText), p.normalize.placeFrom base = p.placeFrom base := by
  intro h
  exact absurd (h ⟨"../../a.txt"⟩ ["a", "b"]) (by decide +kernel)

end Switchboard.Tree
