import Mathlib.Data.List.Basic
import Switchboard.Proofs.Path.Absolute
import Switchboard.Tree

/-!
# Ways through a tree

A walk along the steps of a path leads to a place if it finds what is asked for on the way, and it
follows a certain number of links then. Ways can be cut and put together where they stand on a
directory. Where there are no links a way leads where its steps say.
-/
namespace Switchboard.Tree

open RawText (slash dot)

/-- The steps lead from the place to the goal, through so many links. -/
inductive Leads (t : Tree) : Nat → Place → List Step → Place → Prop where
  | done (place : Place) : Leads t 0 place [] place
  | stay {n : Nat} {place goal : Place} {rest : List Step} :
    Leads t n place rest goal → Leads t n place (.stay :: rest) goal
  | up {n : Nat} {place goal : Place} {rest : List Step} :
    Leads t n place.tail rest goal → Leads t n place (.up :: rest) goal
  | dir {n : Nat} {name : RawText} {place goal : Place} {rest : List Step} :
    name.length ≤ nameLimit → t.node? (name :: place) = some .dir →
      Leads t n (name :: place) rest goal → Leads t n place (.down name :: rest) goal
  | file {name : RawText} {place : Place} :
    name.length ≤ nameLimit → t.node? (name :: place) = some .file →
      Leads t 0 place [.down name] (name :: place)
  | link {n : Nat} {name : RawText} {target : Path} {place goal : Place} {rest : List Step} :
    name.length ≤ nameLimit → t.node? (name :: place) = some (.link target) →
      Leads t n (if target.isAbsolute then [] else place) (steps target ++ rest) goal →
        Leads t (n + 1) place (.down name :: rest) goal

def onward (place : Place) : Step → Place
  | .stay => place
  | .up => place.tail
  | .down name => name :: place

variable {t : Tree} {n links : Nat} {place goal : Place} {todo : List Step}

theorem leads_of_walk (h : t.walk links place todo = .ok goal) :
    ∃ n ≤ links, t.Leads n place todo goal := by
  fun_induction walk t links place todo with
  | case1 links place =>
    cases h
    exact ⟨0, Nat.zero_le _, .done _⟩
  | case2 links place rest ih =>
    obtain ⟨n, hn, hl⟩ := ih h
    exact ⟨n, hn, .stay hl⟩
  | case3 links place rest ih =>
    obtain ⟨n, hn, hl⟩ := ih h
    exact ⟨n, hn, .up hl⟩
  | case6 links place name rest hshort hdir ih =>
    obtain ⟨n, hn, hl⟩ := ih h
    exact ⟨n, hn, .dir (Nat.not_lt.mp hshort) hdir hl⟩
  | case7 links place name rest hshort hfile hend =>
    cases h
    rw [List.isEmpty_iff.mp hend]
    exact ⟨0, Nat.zero_le _, .file (Nat.not_lt.mp hshort) hfile⟩
  | case10 place name rest hshort target hlink links ih =>
    obtain ⟨n, hn, hl⟩ := ih h
    exact ⟨n + 1, Nat.succ_le_succ hn, .link (Nat.not_lt.mp hshort) hlink hl⟩
  | _ => cases h

theorem Leads.walk (h : t.Leads n place todo goal) (hn : n ≤ links) :
    t.walk links place todo = .ok goal := by
  induction h generalizing links with
  | done place => rw [Tree.walk]
  | stay _ ih => rw [Tree.walk, ih hn]
  | up _ ih => rw [Tree.walk, ih hn]
  | dir hshort hdir _ ih =>
    rw [Tree.walk, if_neg (Nat.not_lt.mpr hshort), hdir]
    exact ih hn
  | file hshort hfile =>
    rw [Tree.walk, if_neg (Nat.not_lt.mpr hshort), hfile]
    rfl
  | link hshort hlink _ ih =>
    cases links with
    | zero => cases hn
    | succ links =>
      rw [Tree.walk, if_neg (Nat.not_lt.mpr hshort), hlink]
      exact ih (Nat.le_of_succ_le_succ hn)

theorem walk_eq_ok_iff :
    t.walk links place todo = .ok goal ↔ ∃ n ≤ links, t.Leads n place todo goal :=
  ⟨leads_of_walk, fun ⟨_, hn, h⟩ => h.walk hn⟩

theorem Leads.unique {m : Nat} {other : Place} (h : t.Leads n place todo goal)
    (h' : t.Leads m place todo other) : goal = other := by
  have hwalk := h.walk (Nat.le_max_left n m)
  rw [h'.walk (Nat.le_max_right n m)] at hwalk
  exact (Except.ok.inj hwalk).symm

theorem leads_stay_iff : t.Leads n place (.stay :: todo) goal ↔ t.Leads n place todo goal := by
  refine ⟨fun h => ?_, .stay⟩
  cases h with
  | stay h => exact h

theorem leads_up_iff : t.Leads n place (.up :: todo) goal ↔ t.Leads n place.tail todo goal := by
  refine ⟨fun h => ?_, .up⟩
  cases h with
  | up h => exact h

inductive Stands (t : Tree) : Place → Prop where
  | root : Stands t []
  | dir {name : RawText} {place : Place} :
    name.length ≤ nameLimit → t.node? (name :: place) = some .dir → Stands t place →
      Stands t (name :: place)

theorem Stands.node? (h : t.Stands place) : t.node? place = some .dir := by
  cases h with
  | root => rfl
  | dir _ hdir _ => exact hdir

theorem Stands.not_file (h : t.Stands place) : t.node? place ≠ some .file := by
  rw [h.node?]
  exact fun hfile => by cases hfile

theorem Stands.tail (h : t.Stands place) : t.Stands place.tail := by
  cases h with
  | root => exact .root
  | dir _ _ h => exact h

theorem Stands.of_append {names : List RawText} (h : t.Stands (names ++ place)) :
    t.Stands place := by
  induction names with
  | nil => exact h
  | cons name names ih => exact ih h.tail

theorem Stands.origin {target : Path} (h : t.Stands place) :
    t.Stands (if target.isAbsolute then [] else place) := by
  split
  · exact .root
  · exact h

theorem Leads.stands (h : t.Leads n place todo goal) (hplace : t.Stands place)
    (hgoal : t.node? goal = some .dir) : t.Stands goal := by
  induction h with
  | done place => exact hplace
  | stay _ ih => exact ih hplace hgoal
  | up _ ih => exact ih hplace.tail hgoal
  | dir hshort hdir _ ih => exact ih (.dir hshort hdir hplace) hgoal
  | file _ hfile =>
    rw [hfile] at hgoal
    cases hgoal
  | link _ _ _ ih => exact ih hplace.origin hgoal

theorem Stands.leads {names : List RawText} (h : t.Stands (names.reverse ++ place)) :
    t.Leads 0 place (names.map .down) (names.reverse ++ place) := by
  induction names generalizing place with
  | nil => exact .done place
  | cons name names ih =>
    rw [List.reverse_cons, List.append_assoc, List.singleton_append] at h ⊢
    cases h.of_append with
    | dir hshort hdir _ => exact .dir hshort hdir (ih h)

theorem Leads.split {a b : List Step} (h : t.Leads n place (a ++ b) goal) :
    ∃ m k between, n = m + k ∧ t.Leads m place a between ∧ t.Leads k between b goal ∧
      (t.Stands place → b ≠ [] → t.Stands between) := by
  generalize htodo : a ++ b = todo at h
  induction h generalizing a with
  | done place =>
    obtain ⟨rfl, rfl⟩ := List.append_eq_nil_iff.mp htodo
    exact ⟨0, 0, place, rfl, .done place, .done place, fun hplace _ => hplace⟩
  | stay h ih =>
    rcases List.append_eq_cons_iff.mp htodo with ⟨rfl, rfl⟩ | ⟨a, rfl, hrest⟩
    · exact ⟨0, _, _, (Nat.zero_add _).symm, .done _, .stay h, fun hplace _ => hplace⟩
    · obtain ⟨m, k, between, hn, ha, hb, hs⟩ := ih hrest.symm
      exact ⟨m, k, between, hn, .stay ha, hb, hs⟩
  | up h ih =>
    rcases List.append_eq_cons_iff.mp htodo with ⟨rfl, rfl⟩ | ⟨a, rfl, hrest⟩
    · exact ⟨0, _, _, (Nat.zero_add _).symm, .done _, .up h, fun hplace _ => hplace⟩
    · obtain ⟨m, k, between, hn, ha, hb, hs⟩ := ih hrest.symm
      exact ⟨m, k, between, hn, .up ha, hb, fun hplace => hs hplace.tail⟩
  | dir hshort hdir h ih =>
    rcases List.append_eq_cons_iff.mp htodo with ⟨rfl, rfl⟩ | ⟨a, rfl, hrest⟩
    · exact ⟨0, _, _, (Nat.zero_add _).symm, .done _, .dir hshort hdir h, fun hplace _ => hplace⟩
    · obtain ⟨m, k, between, hn, ha, hb, hs⟩ := ih hrest.symm
      exact ⟨m, k, between, hn, .dir hshort hdir ha, hb,
        fun hplace => hs (.dir hshort hdir hplace)⟩
  | file hshort hfile =>
    rcases List.append_eq_cons_iff.mp htodo with ⟨rfl, rfl⟩ | ⟨a, rfl, hrest⟩
    · exact ⟨0, _, _, (Nat.zero_add _).symm, .done _, .file hshort hfile, fun hplace _ => hplace⟩
    · obtain ⟨rfl, rfl⟩ := List.append_eq_nil_iff.mp hrest.symm
      exact ⟨0, 0, _, rfl, .file hshort hfile, .done _, fun _ hb => absurd rfl hb⟩
  | link hshort hlink h ih =>
    rcases List.append_eq_cons_iff.mp htodo with ⟨rfl, rfl⟩ | ⟨a, rfl, rfl⟩
    · exact ⟨0, _, _, (Nat.zero_add _).symm, .done _, .link hshort hlink h,
        fun hplace _ => hplace⟩
    · obtain ⟨m, k, between, rfl, ha, hb, hs⟩ := ih (List.append_assoc _ _ _)
      exact ⟨m + 1, k, between, Nat.add_right_comm m k 1, .link hshort hlink ha, hb,
        fun hplace => hs hplace.origin⟩

theorem Leads.append {m : Nat} {between : Place} {a b : List Step}
    (ha : t.Leads m place a between) (hb : t.Leads n between b goal)
    (hgo : t.node? between ≠ some .file) : t.Leads (m + n) place (a ++ b) goal := by
  induction ha with
  | done place => rwa [Nat.zero_add]
  | stay _ ih => exact .stay (ih hb hgo)
  | up _ ih => exact .up (ih hb hgo)
  | dir hshort hdir _ ih => exact .dir hshort hdir (ih hb hgo)
  | file hshort hfile => exact absurd hfile hgo
  | link hshort hlink _ ih =>
    have hnext := ih hb hgo
    rw [List.append_assoc] at hnext
    rw [Nat.add_right_comm]
    exact .link hshort hlink hnext

open Switchboard.Path (IsPart isPart_of_part? not_mem_of_mem_segments part?)

theorem isPart_of_step? {part : RawText} {name : RawText} (hs : slash ∉ part)
    (h : step? part = some (.down name)) : IsPart (.name name) := by
  refine isPart_of_part? hs ?_
  simp only [step?] at h
  split at h
  · cases h
  split at h
  · cases h
  split at h
  · cases h
  next hnil hdot hup =>
    cases h
    rw [part?, if_neg (not_or.mpr ⟨hnil, hdot⟩), if_neg hup]

theorem isPart_of_mem_steps {p : Path} {name : RawText} (h : .down name ∈ steps p) :
    IsPart (.name name) := by
  rcases List.mem_append.mp h with h | h
  · obtain ⟨part, hpart, hstep⟩ := List.mem_filterMap.mp h
    exact isPart_of_step? (not_mem_of_mem_segments hpart) hstep
  · split at h <;> simp at h

theorem Leads.isPart (h : t.Leads n place todo goal) (hplace : ∀ s ∈ place, IsPart (.name s))
    (htodo : ∀ s, .down s ∈ todo → IsPart (.name s)) : ∀ s ∈ goal, IsPart (.name s) := by
  induction h with
  | done place => exact hplace
  | stay _ ih => exact ih hplace fun s hs => htodo s (List.mem_cons_of_mem _ hs)
  | up _ ih =>
    exact ih (fun s hs => hplace s (List.mem_of_mem_tail hs)) fun s hs =>
      htodo s (List.mem_cons_of_mem _ hs)
  | dir _ _ _ ih =>
    refine ih ?_ fun s hs => htodo s (List.mem_cons_of_mem _ hs)
    exact List.forall_mem_cons.mpr ⟨htodo _ List.mem_cons_self, hplace⟩
  | file => exact List.forall_mem_cons.mpr ⟨htodo _ List.mem_cons_self, hplace⟩
  | link _ _ _ ih =>
    refine ih ?_ fun s hs => ?_
    · split
      · exact fun s hs => absurd hs List.not_mem_nil
      · exact hplace
    · rcases List.mem_append.mp hs with hs | hs
      · exact isPart_of_mem_steps hs
      · exact htodo s (List.mem_cons_of_mem _ hs)

section Components

open Switchboard.Path (parts placeStep ofComponents segments)

def component? : Step → Option Component
  | .stay => none
  | .up => some .up
  | .down name => some (.name name)

def stepOf : Component → Step
  | .up => .up
  | .name s => .down s
  | _ => .stay

theorem part?_eq (part : RawText) : part? part = (step? part).bind component? := by
  by_cases hnil : part = []
  · subst hnil
    rfl
  by_cases hdot : part = [dot]
  · subst hdot
    rfl
  rw [part?, step?, if_neg (not_or.mpr ⟨hnil, hdot⟩), if_neg hnil, if_neg hdot]
  split <;> rfl

theorem step?_of_isPart {c : Component} (h : IsPart c) : step? c.text = some (stepOf c) := by
  have hpart := h.2
  rw [part?_eq] at hpart
  obtain ⟨step, hstep, hc⟩ := Option.bind_eq_some_iff.mp hpart
  rw [hstep]
  cases step <;> cases hc <;> rfl

theorem parts_eq (p : Path) : parts p.text = (steps p).filterMap component? := by
  have hend : (if p.endsInSlash then [Step.stay] else []).filterMap component? = [] := by
    split <;> rfl
  rw [steps, List.filterMap_append, hend, List.append_nil, List.filterMap_filterMap, parts]
  exact List.filterMap_congr fun part _ => part?_eq part

theorem foldl_onward (todo : List Step) (place : Place) :
    todo.foldl onward place =
      ((todo.filterMap component?).foldl placeStep place.reverse).reverse := by
  induction todo generalizing place with
  | nil => simp
  | cons step todo ih =>
    rw [List.foldl_cons, ih]
    cases step with
    | stay => rfl
    | up => simp [component?, onward, placeStep, List.dropLast_reverse]
    | down name => simp [component?, onward, placeStep]

theorem foldl_onward_steps (p : Path) (place : Place) :
    (steps p).foldl onward (if p.isAbsolute then [] else place) =
      (p.components.foldl placeStep place.reverse).reverse := by
  rw [foldl_onward, ← parts_eq]
  cases h : p.isAbsolute with
  | true =>
    rw [Path.components_of_isAbsolute h]
    rfl
  | false =>
    rw [Path.components_of_not_isAbsolute h, if_neg Bool.false_ne_true]
    split <;> rfl

theorem getLast?_segments {p : Path} (h : p.endsInSlash = true) :
    (segments p.text).getLast? = some [] := by
  simp only [Path.endsInSlash, beq_iff_eq] at h
  obtain ⟨front, hfront⟩ := List.getLast?_eq_some_iff.mp h
  rw [hfront, Path.segments_append]
  simp [segments]

theorem segments_ofComponents_root {cs : List Component} (h : ∀ c ∈ cs, IsPart c) (hne : cs ≠ []) :
    segments (ofComponents (.root :: cs)).text = [] :: cs.map (·.text) := by
  rw [Path.text_ofComponents_root, segments, if_pos rfl, Path.segments_texts h hne]

theorem segments_ofComponents {cs : List Component} (h : ∀ c ∈ cs, IsPart c) (hne : cs ≠ []) :
    segments (ofComponents cs).text = cs.map (·.text) := by
  rw [Path.text_ofComponents h, Path.segments_texts h hne]

section Segments

variable {p : Path} (front : List RawText) {cs : List Component} (h : ∀ c ∈ cs, IsPart c)
  (hne : cs ≠ []) (hseg : segments p.text = front ++ cs.map (·.text))
include h hne hseg

theorem endsInSlash_of_segments : p.endsInSlash = false := by
  rw [Bool.eq_false_iff]
  intro hs
  have hlast := getLast?_segments hs
  obtain ⟨others, c, rfl⟩ := (List.eq_nil_or_concat' cs).resolve_left hne
  rw [hseg, List.map_append, ← List.append_assoc, List.map_singleton, List.getLast?_concat,
    Option.some.injEq] at hlast
  exact (h c (by simp)).text_ne_nil hlast

theorem steps_of_segments (hfront : front.filterMap step? = []) : steps p = cs.map stepOf := by
  rw [steps, hseg, endsInSlash_of_segments front h hne hseg, if_neg Bool.false_ne_true,
    List.append_nil, List.filterMap_append, hfront, List.nil_append, List.filterMap_map]
  exact List.filterMap_eq_map_iff_forall_eq_some.mpr fun c hc => step?_of_isPart (h c hc)

end Segments

theorem endsInSlash_ofComponents_root {cs : List Component} (h : ∀ c ∈ cs, IsPart c)
    (hne : cs ≠ []) : (ofComponents (.root :: cs)).endsInSlash = false :=
  endsInSlash_of_segments [[]] h hne (segments_ofComponents_root h hne)

theorem steps_ofComponents_root {cs : List Component} (h : ∀ c ∈ cs, IsPart c) (hne : cs ≠ []) :
    steps (ofComponents (.root :: cs)) = cs.map stepOf :=
  steps_of_segments [[]] h hne (segments_ofComponents_root h hne) rfl

theorem steps_ofComponents {cs : List Component} (h : ∀ c ∈ cs, IsPart c) :
    steps (ofComponents cs) = cs.map stepOf := by
  by_cases hne : cs = []
  · subst hne
    decide
  · exact steps_of_segments [] h hne (segments_ofComponents h hne) rfl

theorem leads_steps_root_iff {cs : List Component} (h : ∀ c ∈ cs, IsPart c) :
    t.Leads n place (steps (ofComponents (.root :: cs))) goal ↔
      t.Leads n place (cs.map stepOf) goal := by
  by_cases hne : cs = []
  · subst hne
    have htop : steps (ofComponents [.root]) = [.stay] := by decide
    rw [htop]
    exact leads_stay_iff
  · rw [steps_ofComponents_root h hne]

end Components

def Linkless (t : Tree) : Prop := ∀ place target, t.node? place ≠ some (.link target)

theorem Leads.eq_onward (h : t.Leads n place todo goal) (ht : t.Linkless) :
    goal = todo.foldl onward place := by
  induction h with
  | done place => rfl
  | stay _ ih => exact ih
  | up _ ih => exact ih
  | dir _ _ _ ih => exact ih
  | file => rfl
  | link _ hlink _ _ => exact absurd hlink (ht _ _)

end Switchboard.Tree
