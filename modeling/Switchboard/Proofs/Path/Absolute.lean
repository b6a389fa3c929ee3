import Switchboard.Proofs.Path.Components

/-!
# Where absolute paths lead

An absolute path leads from the top along names: a dot stays, a step up goes back to the name
before, and at the top it stays at the top. Normalizing a path keeps where it leads, and its
comparison key says nothing else.
-/
namespace Switchboard.Path

def placeStep (names : List RawText) : Component → List RawText
  | .root => []
  | .here => names
  | .up => names.dropLast
  | .name s => names ++ [s]

def place (p : Path) : List RawText := p.components.foldl placeStep []

def Canonical (p : Path) : Prop := ∃ names : List RawText, p.components = .root :: names.map .name

def along (names : List RawText) : Path := ofComponents (names.map .name)

def folded (foldCase : Bool) (names : List RawText) : List String :=
  names.map fun s => keyPart foldCase (.name s)

@[simp] theorem length_folded (foldCase : Bool) (names : List RawText) :
    (folded foldCase names).length = names.length := List.length_map _

theorem map_keyPart_name (foldCase : Bool) (names : List RawText) :
    (names.map Component.name).map (keyPart foldCase) = folded foldCase names := List.map_map

theorem foldl_placeStep_names (start names : List RawText) :
    (names.map Component.name).foldl placeStep start = start ++ names := by
  induction names generalizing start with
  | nil => simp
  | cons s names ih => simp [placeStep, ih]

theorem place_of_components {p : Path} {names : List RawText}
    (h : p.components = .root :: names.map .name) : p.place = names := by
  rw [place, h, List.foldl_cons, foldl_placeStep_names]
  rfl

theorem Canonical.components {p : Path} (h : p.Canonical) :
    p.components = .root :: p.place.map .name := by
  obtain ⟨names, hn⟩ := h
  rw [hn, place_of_components hn]

theorem Canonical.isAbsolute {p : Path} (h : p.Canonical) : p.isAbsolute = true := by
  rw [isAbsolute_iff_components, h.components]
  exact List.mem_cons_self

theorem filter_names (names : List RawText) :
    (names.map Component.name).filter isKeyComponent = names.map .name := by
  rw [List.filter_eq_self]
  intro c hc
  obtain ⟨s, -, rfl⟩ := List.mem_map.mp hc
  rfl

theorem Canonical.key {p : Path} (h : p.Canonical) (foldCase : Bool) :
    p.key foldCase = keyPart foldCase .root :: folded foldCase p.place := by
  rw [Path.key, h.components, List.filter_cons_of_pos (by rfl), filter_names, List.map_cons,
    map_keyPart_name]

theorem key_prefix_of_components {p q : Path} (h : p.components <+: q.components)
    (foldCase : Bool) : p.key foldCase <+: q.key foldCase :=
  (h.filter _).map _

theorem prefix_of_folded {names more : List RawText} (hn : ∀ s ∈ names, s.text?.isSome)
    (hm : ∀ s ∈ more, s.text?.isSome) (h : folded false names <+: folded false more) :
    names <+: more := by
  induction names generalizing more with
  | nil => exact List.nil_prefix
  | cons s names ih =>
    cases more with
    | nil => exact absurd (List.prefix_nil.mp h) (by simp [folded])
    | cons t more =>
      obtain ⟨hhead, htail⟩ := List.cons_prefix_cons.mp h
      rw [List.forall_mem_cons] at hn hm
      exact List.cons_prefix_cons.mpr ⟨RawText.lossy_inj hn.1 hm.1 hhead, ih hn.2 hm.2 htail⟩

theorem Canonical.components_prefix_iff {p q : Path} (hp : p.Canonical) (hq : q.Canonical)
    (hpt : ∀ s ∈ p.place, s.text?.isSome) (hqt : ∀ s ∈ q.place, s.text?.isSome) :
    p.components <+: q.components ↔ p.key false <+: q.key false := by
  refine ⟨fun h => key_prefix_of_components h false, fun h => ?_⟩
  rw [hp.key, hq.key, List.cons_prefix_cons] at h
  rw [hp.components, hq.components, List.cons_prefix_cons]
  exact ⟨rfl, (prefix_of_folded hpt hqt h.2).map _⟩

theorem mem_foldl_placeStep {cs : List Component} {names : List RawText} {s : RawText}
    (h : s ∈ cs.foldl placeStep names) : s ∈ names ∨ .name s ∈ cs := by
  induction cs generalizing names with
  | nil => exact .inl h
  | cons c cs ih =>
    rcases ih h with h | h
    · cases c with
      | root => cases h
      | here => exact .inl h
      | up => exact .inl (List.dropLast_subset _ h)
      | name s' =>
        rcases List.mem_append.mp h with h | h
        · exact .inl h
        · rw [List.mem_singleton.mp h]
          exact .inr List.mem_cons_self
    · exact .inr (List.mem_cons_of_mem _ h)

theorem name_mem_of_mem_place {p : Path} (h : p.isAbsolute = true) {s : RawText}
    (hs : s ∈ p.place) : .name s ∈ parts p.text := by
  rw [place, components_of_isAbsolute h] at hs
  simpa using (mem_foldl_placeStep hs).resolve_left List.not_mem_nil

theorem isSome_text?_of_mem_place {p : Path} (h : p.isAbsolute = true) (hp : p.isText)
    {s : RawText} (hs : s ∈ p.place) : s.text?.isSome := by
  refine isSome_text?_of_name_mem hp ?_
  rw [components_of_isAbsolute h]
  exact List.mem_cons_of_mem _ (name_mem_of_mem_place h hs)

theorem isPart_of_mem_place {p : Path} (h : p.isAbsolute = true) {s : RawText} (hs : s ∈ p.place) :
    IsPart (.name s) :=
  isPart_of_mem_parts (name_mem_of_mem_place h hs)

/-- What the components of a path are while it is normalized: the names on the way, behind at most
one step up that the top could not take back. -/
def Normalizes (out : List Component) (names : List RawText) : Prop :=
  out = .root :: names.map .name ∨ out = .root :: .up :: names.map .name

theorem normalizes_step {out : List Component} {names : List RawText} (h : Normalizes out names)
    {c : Component} (hc : IsPart c) : Normalizes (normalStep out c) (placeStep names c) := by
  cases c with
  | root => exact absurd rfl hc.ne_root
  | here => exact absurd rfl hc.ne_here
  | name s =>
    refine h.imp ?_ ?_
    · rintro rfl
      simp [normalStep, placeStep]
    · rintro rfl
      simp [normalStep, placeStep]
  | up =>
    -- A name is taken back; without one, the top lets one step up stand and the next takes it back.
    rcases List.eq_nil_or_concat names with rfl | ⟨names, s, rfl⟩
    · rcases h with rfl | rfl
      · exact .inr rfl
      · exact .inl rfl
    · have hpop : ∀ front : List Component,
          normalStep (front ++ [.name s]) .up = front := by
        intro front
        simp [normalStep, canPop, Component.isRoot]
      refine h.imp ?_ ?_
      · rintro rfl
        simpa [placeStep] using hpop (.root :: names.map .name)
      · rintro rfl
        simpa [placeStep] using hpop (.root :: .up :: names.map .name)

theorem normalizes_foldl {cs : List Component} (h : ∀ c ∈ cs, IsPart c) {out : List Component}
    {names : List RawText} (ho : Normalizes out names) :
    Normalizes (cs.foldl normalStep out) (cs.foldl placeStep names) := by
  induction cs generalizing out names with
  | nil => exact ho
  | cons c cs ih =>
    exact ih (fun c' hc' => h c' (List.mem_cons_of_mem _ hc'))
      (normalizes_step ho (h c List.mem_cons_self))

theorem normalizes_components {p : Path} (h : p.isAbsolute = true) :
    Normalizes (normalComponents p.components) p.place := by
  rw [normalComponents, place, components_of_isAbsolute h]
  exact normalizes_foldl (fun c hc => isPart_of_mem_parts hc) (.inl rfl)

theorem filter_components_normalize {p : Path} (h : p.isAbsolute = true) :
    p.normalize.components.filter isKeyComponent = .root :: p.place.map .name := by
  have hnames : ∀ c ∈ p.place.map Component.name, IsPart c := by
    intro c hc
    obtain ⟨s, hs, rfl⟩ := List.mem_map.mp hc
    exact isPart_of_mem_place h hs
  rw [normalize]
  rcases normalizes_components h with hn | hn
  · rw [hn, components_ofComponents_root hnames, List.filter_cons_of_pos (by rfl), filter_names]
  · rw [hn, components_ofComponents_root, List.filter_cons_of_pos (by rfl),
      List.filter_cons_of_neg (by decide), filter_names]
    intro c hc
    rcases List.mem_cons.mp hc with rfl | hc
    · exact isPart_up
    · exact hnames c hc

theorem key_normalize {p : Path} (h : p.isAbsolute = true) (foldCase : Bool) :
    p.normalize.key foldCase = keyPart foldCase .root :: folded foldCase p.place := by
  rw [key, filter_components_normalize h, List.map_cons, map_keyPart_name]

theorem dropKey_normalize {p : Path} (h : p.isAbsolute = true) (count : Nat) :
    p.normalize.dropKey (count + 1) = along (p.place.drop count) := by
  rw [dropKey, filter_components_normalize h, List.drop_succ_cons, along, List.map_drop]

section Along

variable {names : List RawText}

theorem components_along (h : ∀ s ∈ names, IsPart (.name s)) :
    (along names).components = names.map .name := by
  refine components_ofComponents ?_
  intro c hc
  obtain ⟨s, hs, rfl⟩ := List.mem_map.mp hc
  exact h s hs

theorem isEmpty_text_along (h : ∀ s ∈ names, IsPart (.name s)) :
    (along names).text.isEmpty = true ↔ names = [] := by
  constructor
  · intro he
    have ht : along names = ⟨[]⟩ := congrArg Path.mk (List.isEmpty_iff.mp he)
    have hc := components_along h
    rw [ht] at hc
    exact List.map_eq_nil_iff.mp hc.symm
  · rintro rfl
    rfl

theorem any_components_along (h : ∀ s ∈ names, IsPart (.name s)) (dirs : List String) :
    ((along names).components.any fun c => dirs.contains c.text.lossy) = true ↔
      ∃ s ∈ names, s.lossy ∈ dirs := by
  rw [components_along h]
  simp [Component.text]

theorem isAbsolute_along (h : ∀ s ∈ names, IsPart (.name s)) :
    (along names).isAbsolute = false := by
  rw [Bool.eq_false_iff, ne_eq, isAbsolute_iff_components, components_along h]
  simp

theorem components_join_along {p : Path} (hp : p.isAbsolute = true)
    (h : ∀ s ∈ names, IsPart (.name s)) :
    (p.join (along names)).components = p.components ++ (along names).components := by
  have hrel := isAbsolute_along h
  have habs : (p.join (along names)).isAbsolute = true := (isAbsolute_join p _ hrel).trans hp
  have hparts : parts (along names).text = (along names).components := by
    have hread := components_of_not_isAbsolute hrel
    split at hread
    · rw [components_along h] at hread
      cases names <;> cases hread
    · exact hread.symm
  rw [components_of_isAbsolute habs, parts_join _ _ hrel, components_of_isAbsolute hp, hparts]
  rfl

end Along

end Switchboard.Path
