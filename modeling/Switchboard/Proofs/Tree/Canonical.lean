import Mathlib.Data.List.Induction
import Switchboard.Proofs.Tree.Walk

/-!
# Detours

A changed path is brought into its normal form before it is looked for, so a step up takes back the
name before it even where that name is a link, and a walk along the path would go up from the place
behind the link. What is found of the normal form is resolved, and the rest is put behind it. The
path found is that of the walk exactly if the normal form leads to the same place.
-/
namespace Switchboard.Tree

open Switchboard.Path (IsPart ofComponents parts)
open RawText (slash dot)

variable {t : Tree} {names : List RawText} {goal : Place}

/-- The names lead from the top to the goal, through no more links than a walk may follow. -/
def Finds (t : Tree) (names : List RawText) (goal : Place) : Prop :=
  ∃ n ≤ linkLimit, t.Leads n [] (names.map .down) goal

theorem Finds.isPart (h : t.Finds names goal) (hnames : ∀ s ∈ names, IsPart (.name s)) :
    ∀ s ∈ goal, IsPart (.name s) := by
  obtain ⟨n, -, hl⟩ := h
  refine hl.isPart (List.forall_mem_nil _) fun s hs => hnames s ?_
  obtain ⟨s', hs', he⟩ := List.mem_map.mp hs
  rwa [← Step.down.inj he]

theorem Finds.unique {other : Place} (h : t.Finds names goal) (h' : t.Finds names other) :
    goal = other := by
  obtain ⟨n, -, hl⟩ := h
  obtain ⟨m, -, hl'⟩ := h'
  exact hl.unique hl'

theorem Finds.front {more : List RawText} (h : t.Finds (names ++ more) goal) :
    ∃ between, t.Finds names between := by
  obtain ⟨n, hn, hl⟩ := h
  rw [List.map_append] at hl
  obtain ⟨m, k, between, rfl, hfront, -⟩ := hl.split
  exact ⟨between, m, by omega, hfront⟩

theorem Finds.down {s : RawText} (h : t.Finds names goal) (hs : t.Stands (s :: goal)) :
    t.Finds (names ++ [s]) (s :: goal) := by
  obtain ⟨n, hn, hl⟩ := h
  have hgoal : t.Stands goal := hs.tail
  have hnext : t.Leads 0 goal ([s].map .down) ([s].reverse ++ goal) := Stands.leads hs
  refine ⟨n, hn, ?_⟩
  rw [List.map_append]
  exact hl.append hnext hgoal.not_file

theorem isPart_names {place : Place} (h : ∀ s ∈ place, IsPart (.name s)) :
    ∀ c ∈ place.reverse.map Component.name, IsPart c :=
  List.forall_mem_map.mpr fun s hs => h s (List.mem_reverse.mp hs)

theorem pathOf_eq (place : Place) :
    pathOf place = ofComponents (.root :: place.reverse.map .name) := by
  have hnames : (place.reverse.map Component.name).map Component.text = place.reverse := by
    simp [Component.text, Function.comp_def]
  rw [pathOf, ofComponents, hnames]

theorem pathOf_inj {place other : Place} (h : ∀ s ∈ place, IsPart (.name s))
    (h' : ∀ s ∈ other, IsPart (.name s)) : pathOf place = pathOf other ↔ place = other := by
  refine ⟨fun he => ?_, fun he => he ▸ rfl⟩
  rw [pathOf_eq, pathOf_eq] at he
  have hcs := congrArg Path.components he
  rw [Path.components_ofComponents_root (isPart_names h),
    Path.components_ofComponents_root (isPart_names h'), List.cons.injEq] at hcs
  exact List.reverse_injective (List.map_injective_iff.mpr (fun _ _ => Component.name.inj) hcs.2)

theorem intercalate_concat {texts : List RawText} (h : texts ≠ []) (last : RawText) :
    [slash].intercalate (texts ++ [last]) = [slash].intercalate texts ++ slash :: last := by
  induction texts with
  | nil => exact absurd rfl h
  | cons first texts ih =>
    cases texts with
    | nil => simp
    | cons next texts =>
      have hrest := ih (List.cons_ne_nil next texts)
      simp only [List.cons_append, List.intercalate_cons_cons, List.append_assoc] at hrest ⊢
      rw [hrest]

theorem join_pathOf {place : Place} {s : RawText} (h : ∀ s ∈ place, IsPart (.name s))
    (hs : IsPart (.name s)) : (pathOf place).join ⟨s⟩ = pathOf (s :: place) := by
  have hrel : (⟨s⟩ : Path).isAbsolute = false := by
    rw [Bool.eq_false_iff, ne_eq, Path.isAbsolute_iff]
    rintro ⟨rest, hr⟩
    exact hs.1 (by rw [show (Component.name s).text = slash :: rest from hr]; simp)
  rw [Path.join, if_neg (by simp [hrel])]
  cases place with
  | nil =>
    have hend : (pathOf []).endsInSlash = true := by decide
    rw [if_pos (by simp [hend])]
    simp [pathOf]
  | cons name place =>
    have hend : (pathOf (name :: place)).endsInSlash = false := by
      rw [pathOf_eq]
      exact endsInSlash_ofComponents_root (isPart_names h) (by simp)
    have htext : (pathOf (name :: place)).text.isEmpty = false := by simp [pathOf]
    rw [hend, htext, if_neg (by decide)]
    simp only [pathOf]
    rw [List.reverse_cons (a := s), intercalate_concat (by simp)]
    rfl

theorem foldl_join_pathOf {place : Place} {tail : List RawText} (h : ∀ s ∈ place, IsPart (.name s))
    (htail : ∀ s ∈ tail, IsPart (.name s)) :
    tail.foldl (fun p name => p.join ⟨name⟩) (pathOf place) = pathOf (tail.reverse ++ place) := by
  induction tail generalizing place with
  | nil => rfl
  | cons s tail ih =>
    obtain ⟨hs, htail⟩ := List.forall_mem_cons.mp htail
    rw [List.foldl_cons, join_pathOf h hs, ih (List.forall_mem_cons.mpr ⟨hs, h⟩) htail]
    simp

def Clear (cs : RawText) : Prop := 0 ∉ cs

theorem clear_parts {cs : RawText} (h : Clear cs) {c : Component} (hc : c ∈ parts cs) :
    Clear c.text := by
  obtain ⟨part, hpart, hpc⟩ := List.mem_filterMap.mp hc
  rw [Path.text_of_part? hpc]
  exact fun hz => h (Path.mem_of_mem_segments hpart hz)

theorem clear_intercalate {texts : List RawText} (h : ∀ cs ∈ texts, Clear cs) :
    Clear ([slash].intercalate texts) := by
  induction texts with
  | nil => simp [Clear]
  | cons cs texts ih =>
    obtain ⟨hcs, hrest⟩ := List.forall_mem_cons.mp h
    cases texts with
    | nil => simpa using hcs
    | cons cs' texts =>
      rw [List.intercalate_cons_cons]
      have hih := ih hrest
      have hslash : (0 : UInt8) ≠ slash := by decide
      simp_all [Clear]

def Proper (s : RawText) : Prop := IsPart (.name s) ∧ Clear s

theorem proper_of_mem_place {p : Path} (h : p.isAbsolute = true) (hp : Clear p.text)
    {s : RawText} (hs : s ∈ p.place) : Proper s := by
  have hpart := Path.name_mem_of_mem_place h hs
  exact ⟨Path.isPart_of_mem_parts hpart, clear_parts hp hpart⟩

theorem resolve_eq_ok_iff {p : Path} : t.resolve p = .ok goal ↔
    Clear p.text ∧ p.isAbsolute = true ∧ ∃ n ≤ linkLimit, t.Leads n [] (steps p) goal := by
  rw [resolve]
  split
  · next hzero => simp_all [Clear]
  · next hzero =>
    have hclear : Clear p.text := by simpa [Clear] using hzero
    rw [and_iff_right hclear]
    split
    · next habs => rw [and_iff_right habs, walk_eq_ok_iff]
    · next habs =>
      refine iff_of_false ?_ fun h => habs h.1
      cases empty.walk linkLimit [] (steps p) <;> exact fun h => by cases h

theorem canonicalizeRoot_eq_ok_iff {p r : Path} : t.canonicalizeRoot p = .ok r ↔
    ∃ goal, t.resolve p = .ok goal ∧ t.node? goal = some .dir ∧ r = pathOf goal := by
  rw [canonicalizeRoot]
  cases t.resolve p with
  | error e => simp
  | ok goal =>
    by_cases hdir : t.node? goal = some .dir
    · simp [hdir, eq_comm]
    · simp only [if_neg hdir, reduceCtorEq, Except.ok.injEq, false_iff, not_exists, not_and]
      rintro _ rfl hdir'
      exact absurd hdir' hdir

/-- The longest front of the names that is found leads to the goal, and the others are behind it. -/
structure Reaches (t : Tree) (names front back : List RawText) (goal : Place) : Prop where
  split : names = front ++ back
  finds : t.Finds front goal
  longest : ∀ s ∈ back.head?, ∀ other, ¬ t.Finds (front ++ [s]) other

theorem Reaches.all (h : t.Finds names goal) : t.Reaches names names [] goal where
  split := (List.append_nil names).symm
  finds := h
  longest := fun _ h => by cases h

theorem Reaches.snoc {front back : List RawText} {s : RawText} (h : t.Reaches names front back goal)
    (hs : ∀ other, ¬ t.Finds (names ++ [s]) other) :
    t.Reaches (names ++ [s]) front (back ++ [s]) goal where
  split := by rw [h.split, List.append_assoc]
  finds := h.finds
  longest := by
    intro next hnext
    cases back with
    | nil =>
      obtain rfl : s = next := by simpa using hnext
      rw [← List.append_nil front, ← h.split]
      exact hs
    | cons next' back => exact h.longest next hnext

section Fronts

variable {lead : List Component} (hlead : lead = [] ∨ lead = [.up])
include hlead

theorem isPart_front (h : ∀ s ∈ names, IsPart (.name s)) :
    ∀ c ∈ lead ++ names.map .name, IsPart c := by
  refine List.forall_mem_append.mpr ⟨?_, List.forall_mem_map.mpr h⟩
  rcases hlead with rfl | rfl
  · exact List.forall_mem_nil _
  · exact List.forall_mem_singleton.mpr Path.isPart_up

theorem clear_front (h : ∀ s ∈ names, Proper s) :
    Clear (ofComponents (.root :: (lead ++ names.map .name))).text := by
  have hup : Clear Component.up.text := by
    show 0 ∉ [dot, dot]
    decide
  have hcomponents : ∀ c ∈ lead ++ names.map .name, Clear c.text := by
    refine List.forall_mem_append.mpr ⟨?_, List.forall_mem_map.mpr fun s hs => (h s hs).2⟩
    rcases hlead with rfl | rfl
    · exact List.forall_mem_nil _
    · exact List.forall_mem_singleton.mpr hup
  have htexts := clear_intercalate (List.forall_mem_map.mpr hcomponents)
  rw [Path.text_ofComponents_root]
  exact fun hz => (List.mem_cons.mp hz).elim (by decide) htexts

theorem leads_steps_iff (h : ∀ s ∈ names, IsPart (.name s)) (n : Nat) :
    t.Leads n [] (steps (ofComponents (.root :: (lead ++ names.map .name)))) goal ↔
      t.Leads n [] (names.map .down) goal := by
  have hnames : (names.map Component.name).map stepOf = names.map .down := by simp [stepOf]
  rw [leads_steps_root_iff (isPart_front hlead h), List.map_append, hnames]
  rcases hlead with rfl | rfl
  · rfl
  · exact leads_up_iff

theorem resolve_front (h : ∀ s ∈ names, Proper s) :
    t.resolve (ofComponents (.root :: (lead ++ names.map .name))) = .ok goal ↔
      t.Finds names goal := by
  have habs : (ofComponents (.root :: (lead ++ names.map .name))).isAbsolute = true :=
    Path.isAbsolute_iff.mpr ⟨_, Path.text_ofComponents_root _⟩
  rw [resolve_eq_ok_iff, and_iff_right (clear_front hlead h), and_iff_right habs, Finds]
  simp only [leads_steps_iff hlead fun s hs => (h s hs).1]

theorem ascend_of_finds (h : ∀ s ∈ names, Proper s) (fallback : Path) {tail : List RawText}
    (htail : ∀ s ∈ tail, Proper s) (hgoal : t.Finds names goal) :
    t.ascend fallback (.root :: (lead ++ names.map .name)).reverse tail =
      pathOf (tail.reverse ++ goal) := by
  have hplace := hgoal.isPart fun s hs => (h s hs).1
  rw [ascend.eq_def, canonicalize, List.reverse_reverse, (resolve_front hlead h).mpr hgoal]
  exact foldl_join_pathOf hplace fun s hs => (htail s hs).1

theorem ascend_of_not_finds {s : RawText} (h : ∀ s' ∈ names ++ [s], Proper s') (fallback : Path)
    {tail : List RawText} (hgoal : ∀ goal, ¬ t.Finds (names ++ [s]) goal) :
    t.ascend fallback (.root :: (lead ++ (names ++ [s]).map .name)).reverse tail =
      t.ascend fallback (.root :: (lead ++ names.map .name)).reverse (s :: tail) := by
  have hlast : (Component.root :: (lead ++ (names ++ [s]).map .name)).reverse =
      .name s :: (.root :: (lead ++ names.map .name)).reverse := by simp
  rw [ascend.eq_def, canonicalize, List.reverse_reverse]
  cases hres : t.resolve (ofComponents (.root :: (lead ++ (names ++ [s]).map .name))) with
  | ok goal => exact absurd ((resolve_front hlead h).mp hres) (hgoal goal)
  | error e => rw [hlast, Except.map]

/-- What is found of the names is resolved, and the others are put behind it. -/
theorem ascend_eq (h : ∀ s ∈ names, Proper s) (fallback : Path) {tail : List RawText}
    (htail : ∀ s ∈ tail, Proper s) :
    ∃ front back goal, t.Reaches names front back goal ∧
      t.ascend fallback (.root :: (lead ++ names.map .name)).reverse tail =
        pathOf ((back ++ tail).reverse ++ goal) := by
  induction names using List.reverseRecOn generalizing tail with
  | nil =>
    have htop : t.Finds [] [] := ⟨0, Nat.zero_le _, .done []⟩
    exact ⟨[], [], [], .all htop, ascend_of_finds hlead h fallback htail htop⟩
  | append_singleton names s ih =>
    by_cases hfound : ∃ goal, t.Finds (names ++ [s]) goal
    · obtain ⟨goal, hgoal⟩ := hfound
      exact ⟨_, [], goal, .all hgoal, ascend_of_finds hlead h fallback htail hgoal⟩
    · rw [not_exists] at hfound
      obtain ⟨hnames, hs⟩ := List.forall_mem_append.mp h
      obtain ⟨front, back, goal, hreach, heq⟩ :=
        ih hnames (List.forall_mem_cons.mpr ⟨List.forall_mem_singleton.mp hs, htail⟩)
      refine ⟨front, back ++ [s], goal, hreach.snoc hfound, ?_⟩
      rw [ascend_of_not_finds hlead h fallback hfound, heq, List.append_assoc,
        List.singleton_append]

end Fronts

section Changed

variable {p r : Path}

theorem normalize_eq (habs : p.isAbsolute = true) :
    ∃ lead : List Component, (lead = [] ∨ lead = [.up]) ∧
      p.normalize = ofComponents (.root :: (lead ++ p.place.map .name)) := by
  rw [Path.normalize]
  rcases Path.normalizes_components habs with h | h
  · exact ⟨[], .inl rfl, by rw [h]; rfl⟩
  · exact ⟨[.up], .inr rfl, by rw [h]; rfl⟩

variable (habs : p.isAbsolute = true) (hclear : Clear p.text)
include habs hclear

theorem canonicalizeChanged_eq :
    ∃ front back goal, t.Reaches p.place front back goal ∧
      t.canonicalizeChanged p = pathOf (back.reverse ++ goal) := by
  have hplace : ∀ s ∈ p.place, Proper s := fun s hs => proper_of_mem_place habs hclear hs
  obtain ⟨lead, hlead, hnormal⟩ := normalize_eq habs
  have hparts := isPart_front hlead fun s hs => (hplace s hs).1
  obtain ⟨front, back, goal, hreach, heq⟩ :=
    ascend_eq hlead hplace p.normalize (List.forall_mem_nil Proper)
  refine ⟨front, back, goal, hreach, ?_⟩
  rw [List.append_nil] at heq
  rw [canonicalizeChanged, ← heq, ← Path.components_ofComponents_root hparts, ← hnormal]

theorem canonicalizeRoot_normalize_iff : t.canonicalizeRoot p.normalize = .ok r ↔
    ∃ goal, t.Finds p.place goal ∧ t.node? goal = some .dir ∧ r = pathOf goal := by
  obtain ⟨lead, hlead, hnormal⟩ := normalize_eq habs
  rw [canonicalizeRoot_eq_ok_iff, hnormal]
  simp only [resolve_front hlead fun s hs => proper_of_mem_place habs hclear hs]

theorem canonicalizeChanged_of_finds (h : t.Finds p.place goal) :
    t.canonicalizeChanged p = pathOf goal := by
  obtain ⟨front, back, other, hreach, heq⟩ := canonicalizeChanged_eq (t := t) habs hclear
  cases back with
  | nil =>
    have hfront := hreach.split
    rw [List.append_nil] at hfront
    rw [heq, h.unique (hfront ▸ hreach.finds)]
    rfl
  | cons s rest =>
    -- The name behind the longest front is found on the way to the whole.
    rw [hreach.split, ← List.singleton_append, ← List.append_assoc] at h
    obtain ⟨between, hbetween⟩ := h.front
    exact absurd hbetween (hreach.longest s rfl between)

theorem finds_of_canonicalizeChanged (hgoal : t.Stands goal) (hnames : ∀ s ∈ goal, IsPart (.name s))
    (h : t.canonicalizeChanged p = pathOf goal) : t.Finds p.place goal := by
  obtain ⟨front, back, other, hreach, heq⟩ := canonicalizeChanged_eq (t := t) habs hclear
  have hplace : ∀ s ∈ p.place, IsPart (.name s) := fun s hs => Path.isPart_of_mem_place habs hs
  rw [hreach.split] at hplace
  obtain ⟨hfront, hback⟩ := List.forall_mem_append.mp hplace
  have hother : ∀ s ∈ back.reverse ++ other, IsPart (.name s) :=
    List.forall_mem_append.mpr
      ⟨fun s hs => hback s (List.mem_reverse.mp hs), hreach.finds.isPart hfront⟩
  obtain rfl : back.reverse ++ other = goal := (pathOf_inj hother hnames).mp (heq.symm.trans h)
  cases back with
  | nil =>
    rw [hreach.split, List.append_nil]
    exact hreach.finds
  | cons s rest =>
    -- The name behind the longest front stands where the front leads, so it is found.
    rw [List.reverse_cons, List.append_assoc, List.singleton_append] at hgoal
    exact absurd (hreach.finds.down hgoal.of_append) (hreach.longest s rfl _)

end Changed

/-- Whether every step up along the path leads back to the place where the name it takes back was
looked for; the trail holds these places, the last one first. -/
def retraces (t : Tree) (place : Place) (trail : List Place) : List Step → Bool
  | [] => true
  | .stay :: rest => retraces t place trail rest
  | .up :: rest =>
    match trail with
    | [] => retraces t place.tail [] rest
    | origin :: trail => place.tail == origin && retraces t origin trail rest
  | .down name :: rest =>
    match t.walk linkLimit place [.down name] with
    | .ok next => retraces t next (place :: trail) rest
    | .error _ => false

inductive Traced (t : Tree) : Nat → Place → List Place → List RawText → Prop where
  | top : Traced t 0 [] [] []
  | down {n m : Nat} {name : RawText} {place next : Place} {trail : List Place}
    {names : List RawText} :
    Traced t n place trail names → t.Leads m place [.down name] next → t.Stands next →
      Traced t (n + m) next (place :: trail) (name :: names)

variable {n m : Nat} {place : Place} {trail : List Place} {todo : List Step}

theorem Traced.stands (h : t.Traced n place trail names) : t.Stands place := by
  cases h with
  | top => exact .root
  | down _ _ h => exact h

theorem Traced.leads (h : t.Traced n place trail names) :
    t.Leads n [] (names.reverse.map .down) place := by
  induction h with
  | top => exact .done []
  | down h hnext _ ih =>
    rw [List.reverse_cons, List.map_append]
    exact ih.append hnext h.stands.not_file

theorem Leads.down_cases {name : RawText} (h : t.Leads n place (.down name :: todo) goal)
    (hplace : t.Stands place) (hgoal : t.Stands goal) :
    ∃ m k next, n = m + k ∧ t.Leads m place [.down name] next ∧ t.Leads k next todo goal ∧
      t.Stands next := by
  obtain ⟨m, k, next, hn, hnext, hrest, hstands⟩ := split (a := [.down name]) h
  refine ⟨m, k, next, hn, hnext, hrest, ?_⟩
  by_cases htodo : todo = []
  · subst htodo
    cases hrest
    exact hgoal
  · exact hstands hplace htodo

theorem Traced.onward (h : t.Traced n place trail names) (hr : t.retraces place trail todo = true)
    (hl : t.Leads m place todo goal) (hgoal : t.Stands goal) (hlimit : n + m ≤ linkLimit) :
    ∃ n' ≤ linkLimit, ∃ trail', t.Traced n' goal trail' (todo.foldl onward names) := by
  induction todo generalizing n m place trail names with
  | nil =>
    cases hl
    exact ⟨n, by omega, trail, h⟩
  | cons step todo ih =>
    cases step with
    | stay =>
      cases hl with
      | stay hl => exact ih h hr hl hlimit
    | up =>
      cases hl with
      | up hl =>
        cases h with
        | top => exact ih .top hr hl hlimit
        | down h hnext _ =>
          rw [retraces, Bool.and_eq_true, beq_iff_eq] at hr
          rw [hr.1] at hl
          exact ih h hr.2 hl (by omega)
    | down name =>
      obtain ⟨m, k, next, rfl, hnext, hrest, hstands⟩ := hl.down_cases h.stands hgoal
      rw [retraces, hnext.walk (by omega)] at hr
      exact ih (h.down hnext hstands) hr hrest (by omega)

theorem retraces_of_not_mem_up (h : .up ∉ todo) (hl : t.Leads n place todo goal)
    (hplace : t.Stands place) (hgoal : t.Stands goal) (hlimit : n ≤ linkLimit) :
    t.retraces place trail todo = true := by
  induction todo generalizing n place trail with
  | nil => rfl
  | cons step todo ih =>
    have hrest : .up ∉ todo := fun hup => h (List.mem_cons_of_mem _ hup)
    cases step with
    | stay =>
      cases hl with
      | stay hl => exact ih hrest hl hplace hlimit
    | up => exact absurd List.mem_cons_self h
    | down name =>
      obtain ⟨m, k, next, rfl, hnext, hl, hstands⟩ := hl.down_cases hplace hgoal
      rw [retraces, hnext.walk (by omega)]
      exact ih hrest hl hstands (by omega)

theorem tails_tail_cons (name : RawText) (place : Place) :
    (name :: place).tails.tail = place :: place.tails.tail := by
  cases place <;> rfl

theorem retraces_of_linkless (ht : t.Linkless) (hl : t.Leads n place todo goal)
    (hplace : t.Stands place) (hgoal : t.Stands goal) (hlimit : n ≤ linkLimit) :
    t.retraces place place.tails.tail todo = true := by
  induction todo generalizing n place with
  | nil => rfl
  | cons step todo ih =>
    cases step with
    | stay =>
      cases hl with
      | stay hl => exact ih hl hplace hlimit
    | up =>
      cases hl with
      | up hl =>
        have hup := ih hl hplace.tail hlimit
        cases place with
        | nil => exact hup
        | cons name place =>
          rw [tails_tail_cons, retraces, List.tail_cons, BEq.rfl, Bool.true_and]
          exact hup
    | down name =>
      obtain ⟨m, k, next, rfl, hnext, hl, hstands⟩ := hl.down_cases hplace hgoal
      obtain rfl : next = name :: place := hnext.eq_onward ht
      rw [retraces, hnext.walk (by omega), ← tails_tail_cons]
      exact ih hl hstands (by omega)

section Alike

variable {p r : Path}

theorem canonicalizeRoot_cases (h : t.canonicalizeRoot p = .ok r) :
    p.isAbsolute = true ∧ Clear p.text ∧ ∃ n ≤ linkLimit, ∃ goal,
      t.Leads n [] (steps p) goal ∧ t.Stands goal ∧ (∀ s ∈ goal, IsPart (.name s)) ∧
        r = pathOf goal := by
  obtain ⟨goal, hres, hdir, rfl⟩ := canonicalizeRoot_eq_ok_iff.mp h
  obtain ⟨hclear, habs, n, hn, hl⟩ := resolve_eq_ok_iff.mp hres
  refine ⟨habs, hclear, n, hn, goal, hl, hl.stands .root hdir, ?_, rfl⟩
  exact hl.isPart (List.forall_mem_nil _) fun s hs => isPart_of_mem_steps hs

theorem canonicalizeChanged_of_retraces (h : t.canonicalizeRoot p = .ok r)
    (hr : t.retraces [] [] (steps p) = true) : t.canonicalizeChanged p = r := by
  obtain ⟨habs, hclear, m, hm, goal, hl, hstands, -, rfl⟩ := canonicalizeRoot_cases h
  obtain ⟨n, hn, trail, htraced⟩ := Traced.top.onward hr hl hstands (by omega)
  refine canonicalizeChanged_of_finds habs hclear ⟨n, hn, ?_⟩
  have hplace := foldl_onward_steps p []
  rw [habs, if_pos rfl] at hplace
  have hleads := htraced.leads
  rwa [hplace, List.reverse_reverse] at hleads

theorem canonicalizeChanged_of_not_mem_up (h : t.canonicalizeRoot p = .ok r)
    (hup : .up ∉ steps p) : t.canonicalizeChanged p = r := by
  obtain ⟨-, -, n, hn, goal, hl, hstands, -, -⟩ := canonicalizeRoot_cases h
  exact canonicalizeChanged_of_retraces h (retraces_of_not_mem_up hup hl .root hstands hn)

theorem canonicalizeChanged_of_linkless (h : t.canonicalizeRoot p = .ok r) (ht : t.Linkless) :
    t.canonicalizeChanged p = r := by
  obtain ⟨-, -, n, hn, goal, hl, hstands, -, -⟩ := canonicalizeRoot_cases h
  exact canonicalizeChanged_of_retraces h (retraces_of_linkless ht hl .root hstands hn)

/-- A root is found again as a changed path exactly if its normal form is a path to it, and it is
whenever each step up takes back the name before it. -/
theorem root_is_found_again (h : t.canonicalizeRoot p = .ok r) :
    (t.canonicalizeChanged p = r ↔ t.canonicalizeRoot p.normalize = .ok r) ∧
      (t.retraces [] [] (steps p) = true → t.canonicalizeChanged p = r) := by
  refine ⟨?_, canonicalizeChanged_of_retraces h⟩
  obtain ⟨habs, hclear, -, -, goal, -, hstands, hnames, rfl⟩ := canonicalizeRoot_cases h
  rw [canonicalizeRoot_normalize_iff habs hclear]
  constructor
  · intro hchanged
    have hfinds := finds_of_canonicalizeChanged habs hclear hstands hnames hchanged
    exact ⟨goal, hfinds, hstands.node?, rfl⟩
  · rintro ⟨other, hfinds, -, heq⟩
    rw [heq]
    exact canonicalizeChanged_of_finds habs hclear hfinds

def linked (target : Path) : Tree :=
  ⟨[(["r"], .dir), (["a", "r"], .dir), (["b", "a", "r"], .dir), (["l", "r"], .link target)]⟩

theorem root_is_found_again_behind_link :
    (linked ⟨"a"⟩).canonicalizeRoot ⟨"/r/l/b/.."⟩ = .ok ⟨"/r/a"⟩ ∧
      (linked ⟨"a"⟩).canonicalizeChanged ⟨"/r/l/b/.."⟩ = ⟨"/r/a"⟩ := by
  have hsteps : steps ⟨"/r/l/b/.."⟩ = [.down "r", .down "l", .down "b", .up] := by decide +kernel
  have htarget : steps ⟨"a"⟩ = [.down "a"] := by decide +kernel
  have hr : (linked ⟨"a"⟩).Leads 0 [] [.down "r"] ["r"] := .dir (by decide) rfl (.done _)
  have hl : (linked ⟨"a"⟩).Leads 1 ["r"] [.down "l"] ["a", "r"] := by
    refine .link (by decide) rfl ?_
    rw [htarget]
    exact .dir (by decide) rfl (.done _)
  have hb : (linked ⟨"a"⟩).Leads 0 ["a", "r"] [.down "b"] ["b", "a", "r"] :=
    .dir (by decide) rfl (.done _)
  have hroot : (linked ⟨"a"⟩).canonicalizeRoot ⟨"/r/l/b/.."⟩ = .ok ⟨"/r/a"⟩ := by
    refine canonicalizeRoot_eq_ok_iff.mpr ⟨["a", "r"], resolve_eq_ok_iff.mpr ?_, rfl, rfl⟩
    refine ⟨by unfold Clear; decide, by decide +kernel, 1, by decide, ?_⟩
    rw [hsteps]
    have hback := hb.append (.up (.done _)) (by decide)
    exact hr.append (hl.append hback (by decide)) (by decide)
  have hretraces : (linked ⟨"a"⟩).retraces [] [] (steps ⟨"/r/l/b/.."⟩) = true := by
    have hwalk_r : (linked ⟨"a"⟩).walk linkLimit [] [.down "r"] = .ok ["r"] := hr.walk (by decide)
    have hwalk_l : (linked ⟨"a"⟩).walk linkLimit ["r"] [.down "l"] = .ok ["a", "r"] :=
      hl.walk (by decide)
    have hwalk_b : (linked ⟨"a"⟩).walk linkLimit ["a", "r"] [.down "b"] = .ok ["b", "a", "r"] :=
      hb.walk (by decide)
    simp only [hsteps, retraces, hwalk_r, hwalk_l, hwalk_b]
    decide
  exact ⟨hroot, (root_is_found_again hroot).2 hretraces⟩

/-- The step up takes back the link, and not the name of the directory behind it. -/
theorem not_always_found_again : ¬ ∀ (t : Tree) (p r : Path), p.isAbsolute = true →
    t.canonicalizeRoot p = .ok r → t.canonicalizeChanged p = r := by
  intro h
  have habs : Path.isAbsolute ⟨"/r/l/.."⟩ = true := by decide +kernel
  have hclear : Clear (Path.mk "/r/l/..").text := by unfold Clear; decide
  have hsteps : steps ⟨"/r/l/.."⟩ = [.down "r", .down "l", .up] := by decide +kernel
  have htarget : steps ⟨"/r/a/b"⟩ = [.down "r", .down "a", .down "b"] := by decide +kernel
  have hroot : (linked ⟨"/r/a/b"⟩).canonicalizeRoot ⟨"/r/l/.."⟩ = .ok ⟨"/r/a"⟩ := by
    refine canonicalizeRoot_eq_ok_iff.mpr ⟨["a", "r"], resolve_eq_ok_iff.mpr ?_, rfl, rfl⟩
    refine ⟨hclear, habs, 1, by decide, ?_⟩
    rw [hsteps]
    refine .dir (by decide) rfl (.link (by decide) rfl ?_)
    rw [htarget]
    exact .dir (by decide) rfl (.dir (by decide) rfl (.dir (by decide) rfl (.up (.done _))))
  have hchanged : (linked ⟨"/r/a/b"⟩).canonicalizeChanged ⟨"/r/l/.."⟩ = pathOf ["r"] := by
    refine canonicalizeChanged_of_finds habs hclear ⟨0, Nat.zero_le _, ?_⟩
    have hplace : Path.place ⟨"/r/l/.."⟩ = ["r"] := by decide +kernel
    rw [hplace]
    exact .dir (by decide) rfl (.done _)
  have hsame := h _ _ _ habs hroot
  rw [hchanged] at hsame
  exact absurd hsame (by decide)

end Alike

end Switchboard.Tree
