import Switchboard.Path

/-!
# Spelling and components

The components of a path are the parts between its slashes that are no blanks, so putting components
together with slashes and reading them again gives them back. From this it follows what the
comparison key of a joined path is.
-/
namespace Switchboard.Path

open RawText (slash dot)

theorem segments_eq_splitOn (cs : RawText) : segments cs = cs.splitOn slash := by
  induction cs with
  | nil => rfl
  | cons c cs ih =>
    rw [List.splitOn_cons_eq_if_modifyHead, ← ih, segments]
    by_cases h : c = slash
    · simp [h]
    · rw [if_neg h, if_neg (by simpa using h)]
      cases hs : segments cs with
      | nil => exact absurd (ih.symm.trans hs) (List.splitOn_ne_nil _ _)
      | cons part parts => rfl

theorem segments_append (front rest : RawText) :
    segments (front ++ slash :: rest) = segments front ++ segments rest := by
  simp only [segments_eq_splitOn, List.splitOn_eq_splitOnP]
  exact List.splitOnP_append_cons front rest (by simp)

theorem not_mem_of_mem_segments {cs part : RawText} (h : part ∈ segments cs) : slash ∉ part := by
  induction cs generalizing part with
  | nil => simp_all [segments]
  | cons c cs ih =>
    simp only [segments] at h
    by_cases hc : c = slash
    · rw [if_pos hc] at h
      rcases List.mem_cons.mp h with rfl | h
      · simp
      · exact ih h
    · rw [if_neg hc] at h
      cases hs : segments cs with
      | nil => simp_all [Ne.symm hc]
      | cons first rest =>
        rw [hs] at h ih
        rcases List.mem_cons.mp h with rfl | h
        · simp [Ne.symm hc, ih List.mem_cons_self]
        · exact ih (List.mem_cons_of_mem _ h)

theorem mem_of_mem_segments {cs part : RawText} {c : UInt8} (h : part ∈ segments cs)
    (hc : c ∈ part) : c ∈ cs := by
  induction cs generalizing part with
  | nil => simp_all [segments]
  | cons d cs ih =>
    simp only [segments] at h
    split at h
    · rcases List.mem_cons.mp h with rfl | h
      · cases hc
      · exact List.mem_cons_of_mem _ (ih h hc)
    · split at h
      · rw [List.mem_singleton.mp h, List.mem_singleton] at hc
        simp [hc]
      · next first rest hs =>
        rw [hs] at ih
        rcases List.mem_cons.mp h with rfl | h
        · rcases List.mem_cons.mp hc with rfl | hc
          · exact List.mem_cons_self
          · exact List.mem_cons_of_mem _ (ih List.mem_cons_self hc)
        · exact List.mem_cons_of_mem _ (ih (List.mem_cons_of_mem _ h) hc)

theorem text_of_part? {part : RawText} {c : Component} (h : part? part = some c) :
    c.text = part := by
  simp only [part?] at h
  split at h
  · cases h
  · split at h
    next hup =>
      cases h
      exact hup.symm
    next =>
      cases h
      rfl

def IsPart (c : Component) : Prop := slash ∉ c.text ∧ part? c.text = some c

theorem isPart_of_part? {part : RawText} {c : Component} (hs : slash ∉ part)
    (h : part? part = some c) : IsPart c := by
  rw [IsPart, text_of_part? h]
  exact ⟨hs, h⟩

theorem isPart_up : IsPart .up := by
  constructor
  · decide
  · rfl

theorem IsPart.ne_root {c : Component} (h : IsPart c) : c ≠ .root := by
  rintro rfl
  exact h.1 (by decide)

theorem IsPart.ne_here {c : Component} (h : IsPart c) : c ≠ .here := by
  rintro rfl
  cases h.2

theorem IsPart.text_ne_nil {c : Component} (h : IsPart c) : c.text ≠ [] := by
  intro ht
  have := h.2
  rw [ht] at this
  cases this

theorem isPart_of_mem_parts {cs : RawText} {c : Component} (h : c ∈ parts cs) : IsPart c := by
  obtain ⟨part, hp, hc⟩ := List.mem_filterMap.mp h
  exact isPart_of_part? (not_mem_of_mem_segments hp) hc

theorem root_not_mem_parts (cs : RawText) : .root ∉ parts cs :=
  fun h => (isPart_of_mem_parts h).ne_root rfl

theorem parts_append (front rest : RawText) :
    parts (front ++ slash :: rest) = parts front ++ parts rest := by
  simp only [parts, segments_append, List.filterMap_append]

theorem filterMap_part?_texts {cs : List Component} (h : ∀ c ∈ cs, IsPart c) :
    (cs.map (·.text)).filterMap part? = cs := by
  rw [List.filterMap_map]
  induction cs with
  | nil => rfl
  | cons c cs ih =>
    rw [List.filterMap_cons_some (by exact (h c List.mem_cons_self).2),
      ih fun c' hc' => h c' (List.mem_cons_of_mem _ hc')]

theorem segments_texts {cs : List Component} (h : ∀ c ∈ cs, IsPart c) (hne : cs ≠ []) :
    segments ([slash].intercalate (cs.map (·.text))) = cs.map (·.text) := by
  rw [segments_eq_splitOn, List.splitOn_intercalate]
  · intro part hp
    obtain ⟨c, hc, rfl⟩ := List.mem_map.mp hp
    exact (h c hc).1
  · simpa using hne

theorem parts_texts {cs : List Component} (h : ∀ c ∈ cs, IsPart c) :
    parts ([slash].intercalate (cs.map (·.text))) = cs := by
  by_cases hne : cs = []
  · subst hne
    rfl
  · rw [parts, segments_texts h hne, filterMap_part?_texts h]

theorem isAbsolute_iff {p : Path} : p.isAbsolute = true ↔ ∃ rest, p.text = slash :: rest := by
  rw [isAbsolute, beq_iff_eq, List.head?_eq_some_iff]

theorem components_of_isAbsolute {p : Path} (h : p.isAbsolute = true) :
    p.components = .root :: parts p.text := by
  rw [components, if_pos h]

theorem components_of_not_isAbsolute {p : Path} (h : p.isAbsolute = false) :
    p.components = if (segments p.text).head? = some [dot] then .here :: parts p.text
      else parts p.text := by
  rw [components, if_neg (by simp [h])]

theorem isAbsolute_iff_components {p : Path} :
    p.isAbsolute = true ↔ .root ∈ p.components := by
  constructor
  · intro h
    rw [components_of_isAbsolute h]
    exact List.mem_cons_self
  · intro h
    have hparts := root_not_mem_parts p.text
    cases ha : p.isAbsolute with
    | true => rfl
    | false =>
      rw [components_of_not_isAbsolute ha] at h
      split at h <;> simp_all

theorem filter_components (p : Path) :
    p.components.filter isKeyComponent =
      (if p.isAbsolute then [.root] else []) ++ (parts p.text).filter isKeyComponent := by
  cases h : p.isAbsolute with
  | true =>
    rw [components_of_isAbsolute h]
    rfl
  | false =>
    rw [components_of_not_isAbsolute h]
    split <;> rfl

theorem text_ofComponents_root (cs : List Component) :
    (ofComponents (.root :: cs)).text = slash :: [slash].intercalate (cs.map (·.text)) := rfl

theorem text_ofComponents {cs : List Component} (h : ∀ c ∈ cs, IsPart c) :
    (ofComponents cs).text = [slash].intercalate (cs.map (·.text)) := by
  rw [ofComponents]
  rintro rest rfl
  exact (h _ List.mem_cons_self).ne_root rfl

theorem components_ofComponents_root {cs : List Component} (h : ∀ c ∈ cs, IsPart c) :
    (ofComponents (.root :: cs)).components = .root :: cs := by
  have hparts : parts (slash :: [slash].intercalate (cs.map (·.text))) = cs := by
    rw [← List.nil_append (slash :: _), parts_append, parts_texts h]
    rfl
  rw [components_of_isAbsolute (isAbsolute_iff.mpr ⟨_, text_ofComponents_root cs⟩),
    text_ofComponents_root, hparts]

theorem components_ofComponents {cs : List Component} (h : ∀ c ∈ cs, IsPart c) :
    (ofComponents cs).components = cs := by
  cases cs with
  | nil => rfl
  | cons c cs =>
    have hc := h c List.mem_cons_self
    have hseg := segments_texts h (by simp)
    have hrel : (ofComponents (c :: cs)).isAbsolute = false := by
      rw [Bool.eq_false_iff, ne_eq, isAbsolute_iff]
      rintro ⟨rest, hr⟩
      rw [text_ofComponents h] at hr
      rw [hr, segments, if_pos rfl] at hseg
      exact hc.text_ne_nil (List.cons.inj hseg).1.symm
    rw [components_of_not_isAbsolute hrel, text_ofComponents h, hseg, if_neg, parts_texts h]
    rw [List.map_cons, List.head?_cons, Option.some.injEq]
    intro hdot
    have hpart := hc.2
    rw [hdot] at hpart
    cases hpart

theorem parts_join (p q : Path) (hq : q.isAbsolute = false) :
    parts (p.join q).text = parts p.text ++ parts q.text := by
  rw [join, if_neg (by simp [hq])]
  by_cases hp : p.text.isEmpty = true
  · rw [if_pos (by simp [hp])]
    have : p.text = [] := by simpa using hp
    simp [this, parts, segments, part?]
  · by_cases hs : p.endsInSlash = true
    · rw [if_pos (by simp [hs])]
      obtain ⟨front, hf⟩ : ∃ front, p.text = front ++ [slash] := by
        simp only [endsInSlash, beq_iff_eq] at hs
        exact List.getLast?_eq_some_iff.mp hs
      have hblank : parts [] = [] := rfl
      simp only [hf, List.append_assoc, List.singleton_append, parts_append, hblank,
        List.append_nil]
    · rw [if_neg (by simp [hp, hs])]
      exact parts_append _ _

theorem isAbsolute_join (p q : Path) (hq : q.isAbsolute = false) :
    (p.join q).isAbsolute = p.isAbsolute := by
  rw [join, if_neg (by simp [hq])]
  cases ht : p.text with
  | nil =>
    have hp : p.isAbsolute = false := by simp [isAbsolute, ht]
    simpa [hp] using hq
  | cons c cs =>
    have hfirst : ∀ rest : RawText, (Path.mk (p.text ++ rest)).isAbsolute = p.isAbsolute := by
      intro rest
      simp [isAbsolute, ht]
    rw [← ht]
    split
    · exact hfirst _
    · exact hfirst _

theorem slash_mem_encode_iff (c : Char) : slash ∈ String.utf8EncodeChar c ↔ c = '/' := by
  constructor
  · intro h
    have h47 : 0x2F ∈ (String.utf8EncodeChar c).map UInt8.toNat :=
      List.mem_map_of_mem (f := UInt8.toNat) h
    rcases Text.encode_cases c with ⟨a, he, -, hc⟩ | ⟨a, b, he, hbounds⟩ |
      ⟨a, b, d, he, hbounds⟩ | ⟨a, b, d, e, he, hbounds⟩
    · rw [he, List.mem_singleton] at h47
      rw [← Char.ofNat_toNat c, ← hc, ← h47]
    all_goals
      rw [he] at h47
      simp only [List.mem_cons, List.not_mem_nil, or_false] at h47
      omega
  · rintro rfl
    decide

theorem segments_front {front : RawText} (hf : slash ∉ front) {rest part : RawText}
    {parts : List RawText} (h : segments rest = part :: parts) :
    segments (front ++ rest) = (front ++ part) :: parts := by
  induction front with
  | nil => exact h
  | cons c front ih =>
    rw [List.mem_cons, not_or] at hf
    rw [List.cons_append, segments, if_neg (Ne.symm hf.1), ih hf.2]
    rfl

theorem segments_ofString (cs : List Char) :
    segments (cs.flatMap String.utf8EncodeChar) =
      (cs.splitOn '/').map (·.flatMap String.utf8EncodeChar) := by
  induction cs with
  | nil => rfl
  | cons c cs ih =>
    rw [List.flatMap_cons, List.splitOn_cons_eq_if_modifyHead]
    by_cases hc : c = '/'
    · have hbytes : String.utf8EncodeChar c = [slash] := by rw [hc]; decide
      rw [hbytes, List.singleton_append, segments, if_pos rfl, ih, if_pos (by simpa using hc)]
      rfl
    · rw [if_neg (by simpa using hc)]
      cases hs : cs.splitOn '/' with
      | nil => exact absurd hs (List.splitOn_ne_nil _ _)
      | cons part parts =>
        rw [hs, List.map_cons] at ih
        rw [segments_front (mt (slash_mem_encode_iff c).mp hc) ih]
        rfl

/-- A slash is no part of another character, so the names in a path that is UTF-8 are UTF-8. -/
theorem isSome_text?_of_name_mem {p : Path} (h : p.isText) {s : RawText}
    (hs : .name s ∈ p.components) : s.text?.isSome := by
  obtain ⟨text, ht⟩ := Option.isSome_iff_exists.mp h
  have hparts : .name s ∈ parts p.text := by
    cases ha : p.isAbsolute with
    | true => simpa [components_of_isAbsolute ha] using hs
    | false =>
      rw [components_of_not_isAbsolute ha] at hs
      split at hs
      · simpa using hs
      · exact hs
  obtain ⟨part, hpart, hname⟩ := List.mem_filterMap.mp hparts
  rw [RawText.text?_eq_some.mp ht, RawText.ofString, segments_ofString] at hpart
  obtain ⟨cs, -, rfl⟩ := List.mem_map.mp hpart
  have htext : s = RawText.ofString (String.ofList cs) := by
    rw [RawText.ofString, String.toList_ofList]
    exact text_of_part? hname
  rw [htext, RawText.text?_ofString]
  rfl

theorem key_join (foldCase : Bool) (p q : Path) (hq : q.isAbsolute = false) :
    (p.join q).key foldCase = p.key foldCase ++ q.key foldCase := by
  simp only [key, filter_components, isAbsolute_join p q hq, parts_join p q hq, hq,
    List.filter_append, List.map_append, List.append_assoc]
  simp

end Switchboard.Path
