/-!
# Text in bytes

The system holds a text as bytes, which need not be UTF-8. Read as UTF-8, bytes that break off or
are none are replaced: each longest piece that could have begun a character, or else the single
byte, becomes one replacement character. Only bytes that are UTF-8 are a text that can be written.
-/
namespace Switchboard.Text

/-- The length of the sequence that a first byte announces, and the range of its second byte. -/
def leadByte (b : Nat) : Option (Nat × Nat × Nat) :=
  if 0xC2 ≤ b && b ≤ 0xDF then some (2, 0x80, 0xBF)
  else if b == 0xE0 then some (3, 0xA0, 0xBF)
  else if b == 0xED then some (3, 0x80, 0x9F)
  else if 0xE1 ≤ b && b ≤ 0xEF then some (3, 0x80, 0xBF)
  else if b == 0xF0 then some (4, 0x90, 0xBF)
  else if b == 0xF4 then some (4, 0x80, 0x8F)
  else if 0xF1 ≤ b && b ≤ 0xF3 then some (4, 0x80, 0xBF)
  else none

def isTailByte (b : Nat) : Bool := 0x80 ≤ b && b ≤ 0xBF

def matching (count low high : Nat) : List Nat → Nat
  | [] => 0
  | b :: rest =>
    if low ≤ b && b ≤ high then
      1 + ((rest.take (count - 2)).takeWhile isTailByte).length
    else 0

def codePoint : List Nat → Nat
  | [a, b] => (a % 32) * 64 + b % 64
  | [a, b, c] => (a % 16) * 4096 + (b % 64) * 64 + c % 64
  | [a, b, c, d] => (a % 8) * 262144 + (b % 64) * 4096 + (c % 64) * 64 + d % 64
  | _ => 0xFFFD

def decodeFirst (a : Nat) (rest : List Nat) : Char × Nat :=
  if a < 0x80 then (Char.ofNat a, 1)
  else
    match leadByte a with
    | none => ('\uFFFD', 1)
    | some (count, low, high) =>
      let tail := matching count low high rest
      if tail + 1 = count then (Char.ofNat (codePoint (a :: rest.take tail)), count)
      else ('\uFFFD', tail + 1)

def decodeFrom : Nat → List Nat → List Char
  | 0, _ => []
  | _, [] => []
  | fuel + 1, a :: rest =>
    let (c, count) := decodeFirst a rest
    c :: decodeFrom fuel (rest.drop (count - 1))

theorem encode_cases (c : Char) :
    (∃ a, (String.utf8EncodeChar c).map UInt8.toNat = [a] ∧ a < 0x80 ∧ a = c.toNat) ∨
    (∃ a b, (String.utf8EncodeChar c).map UInt8.toNat = [a, b] ∧ 0xC2 ≤ a ∧ a ≤ 0xDF ∧
      0x80 ≤ b ∧ b ≤ 0xBF ∧ codePoint [a, b] = c.toNat) ∨
    (∃ a b d, (String.utf8EncodeChar c).map UInt8.toNat = [a, b, d] ∧ 0xE0 ≤ a ∧ a ≤ 0xEF ∧
      0x80 ≤ b ∧ b ≤ 0xBF ∧ (a = 0xE0 → 0xA0 ≤ b) ∧ (a = 0xED → b ≤ 0x9F) ∧
      0x80 ≤ d ∧ d ≤ 0xBF ∧ codePoint [a, b, d] = c.toNat) ∨
    ∃ a b d e, (String.utf8EncodeChar c).map UInt8.toNat = [a, b, d, e] ∧ 0xF0 ≤ a ∧ a ≤ 0xF4 ∧
      0x80 ≤ b ∧ b ≤ 0xBF ∧ (a = 0xF0 → 0x90 ≤ b) ∧ (a = 0xF4 → b ≤ 0x8F) ∧
      0x80 ≤ d ∧ d ≤ 0xBF ∧ 0x80 ≤ e ∧ e ≤ 0xBF ∧ codePoint [a, b, d, e] = c.toNat := by
  have hvalid : c.toNat < 0xD800 ∨ 0xDFFF < c.toNat ∧ c.toNat < 0x110000 := c.valid
  have hnat : c.val.toNat = c.toNat := rfl
  simp only [String.utf8EncodeChar, hnat]
  by_cases h1 : c.toNat ≤ 127
  · left
    rw [if_pos h1]
    refine ⟨_, rfl, ?_, ?_⟩ <;> simp only [UInt8.toNat_ofNat'] <;> omega
  rw [if_neg h1]
  right
  by_cases h2 : c.toNat ≤ 2047
  · left
    rw [if_pos h2]
    refine ⟨_, _, rfl, ?_⟩
    simp only [UInt8.toNat_ofNat', codePoint]
    omega
  rw [if_neg h2]
  right
  by_cases h3 : c.toNat ≤ 65535
  · left
    rw [if_pos h3]
    refine ⟨_, _, _, rfl, ?_⟩
    simp only [UInt8.toNat_ofNat', codePoint]
    omega
  · right
    rw [if_neg h3]
    refine ⟨_, _, _, _, rfl, ?_⟩
    simp only [UInt8.toNat_ofNat', codePoint]
    omega

theorem leadByte_of_three {a b : Nat} (ha : 0xE0 ≤ a) (ha' : a ≤ 0xEF) (hb : 0x80 ≤ b)
    (hb' : b ≤ 0xBF) (hE0 : a = 0xE0 → 0xA0 ≤ b) (hED : a = 0xED → b ≤ 0x9F) :
    ∃ low high, leadByte a = some (3, low, high) ∧ low ≤ b ∧ b ≤ high := by
  by_cases h0 : a = 0xE0
  · exact ⟨0xA0, 0xBF, by simp [leadByte, h0], hE0 h0, hb'⟩
  by_cases hD : a = 0xED
  · exact ⟨0x80, 0x9F, by simp [leadByte, hD], hb, hED hD⟩
  · have hrange : ¬ (0xC2 ≤ a ∧ a ≤ 0xDF) ∧ 0xE1 ≤ a := by omega
    exact ⟨0x80, 0xBF, by simp [leadByte, h0, hD, hrange, ha'], hb, hb'⟩

theorem leadByte_of_four {a b : Nat} (ha : 0xF0 ≤ a) (ha' : a ≤ 0xF4) (hb : 0x80 ≤ b)
    (hb' : b ≤ 0xBF) (hF0 : a = 0xF0 → 0x90 ≤ b) (hF4 : a = 0xF4 → b ≤ 0x8F) :
    ∃ low high, leadByte a = some (4, low, high) ∧ low ≤ b ∧ b ≤ high := by
  by_cases h0 : a = 0xF0
  · exact ⟨0x90, 0xBF, by simp [leadByte, h0], hF0 h0, hb'⟩
  by_cases h4 : a = 0xF4
  · exact ⟨0x80, 0x8F, by simp [leadByte, h4], hb, hF4 h4⟩
  · have hrange : ¬ a ≤ 0xDF ∧ ¬ a ≤ 0xEF ∧ a ≠ 0xE0 ∧ a ≠ 0xED ∧ 0xF1 ≤ a ∧ a ≤ 0xF3 := by
      omega
    exact ⟨0x80, 0xBF, by simp [leadByte, h0, h4, hrange], hb, hb'⟩

theorem decodeFirst_encode (c : Char) (rest : List Nat) :
    ∃ a bytes, (String.utf8EncodeChar c).map UInt8.toNat = a :: bytes ∧
      decodeFirst a (bytes ++ rest) = (c, bytes.length + 1) := by
  rcases encode_cases c with ⟨a, h, ha, hc⟩ | ⟨a, b, h, ha, ha', hb, hb', hc⟩ |
    ⟨a, b, d, h, ha, ha', hb, hb', hE0, hED, hd, hd', hc⟩ |
    ⟨a, b, d, e, h, ha, ha', hb, hb', hF0, hF4, hd, hd', he, he', hc⟩
  · refine ⟨a, [], h, ?_⟩
    rw [decodeFirst, if_pos ha, hc, Char.ofNat_toNat]
    rfl
  · refine ⟨a, [b], h, ?_⟩
    have hlow : ¬ a < 0x80 := by omega
    have hlead : leadByte a = some (2, 0x80, 0xBF) := by simp [leadByte, ha, ha']
    simp [decodeFirst, hlow, hlead, matching, hb, hb', hc]
  · refine ⟨a, [b, d], h, ?_⟩
    have hlow : ¬ a < 0x80 := by omega
    obtain ⟨low, high, hlead, hbl, hbh⟩ := leadByte_of_three ha ha' hb hb' hE0 hED
    simp [decodeFirst, hlow, hlead, matching, isTailByte, hbl, hbh, hd, hd', hc]
  · refine ⟨a, [b, d, e], h, ?_⟩
    have hlow : ¬ a < 0x80 := by omega
    obtain ⟨low, high, hlead, hbl, hbh⟩ := leadByte_of_four ha ha' hb hb' hF0 hF4
    simp [decodeFirst, hlow, hlead, matching, isTailByte, hbl, hbh, hd, hd', he, he', hc]

theorem decodeFrom_encode (cs : List Char) (fuel : Nat)
    (h : (cs.flatMap String.utf8EncodeChar).length ≤ fuel) :
    decodeFrom fuel ((cs.flatMap String.utf8EncodeChar).map UInt8.toNat) = cs := by
  induction cs generalizing fuel with
  | nil => cases fuel <;> rfl
  | cons c cs ih =>
    obtain ⟨a, bytes, henc, hfirst⟩ :=
      decodeFirst_encode c ((cs.flatMap String.utf8EncodeChar).map UInt8.toNat)
    have hlen := congrArg List.length henc
    rw [List.length_map, List.length_cons] at hlen
    rw [List.flatMap_cons, List.length_append] at h
    cases fuel with
    | zero => omega
    | succ fuel =>
      rw [List.flatMap_cons, List.map_append, henc, List.cons_append, decodeFrom, hfirst]
      simp only [Nat.add_sub_cancel, List.drop_left]
      rw [ih fuel (by omega)]

end Switchboard.Text

namespace Switchboard

/-- A text as the system holds it. -/
abbrev RawText := List UInt8

namespace RawText

@[match_pattern] def slash : UInt8 := 0x2F

def dot : UInt8 := 0x2E

def ofString (s : String) : RawText := s.toList.flatMap String.utf8EncodeChar

instance : Coe String RawText := ⟨ofString⟩

def text? (t : RawText) : Option String := String.fromUTF8? t.toByteArray

def lossy (t : RawText) : String :=
  String.ofList (Text.decodeFrom t.length (t.map UInt8.toNat))

theorem toByteArray_ofString (s : String) : (ofString s).toByteArray = s.toByteArray :=
  String.utf8Encode_toList

theorem text?_eq_some {t : RawText} {s : String} : t.text? = some s ↔ t = ofString s := by
  constructor
  · intro h
    simp only [text?, String.fromUTF8?] at h
    split at h
    next hvalid =>
      cases h
      exact List.toByteArray_inj.mp
        (toByteArray_ofString (String.fromUTF8 t.toByteArray hvalid)).symm
    next => cases h
  · rintro rfl
    have hvalid : (ofString s).toByteArray.IsValidUTF8 := toByteArray_ofString s ▸ s.isValidUTF8
    rw [text?, String.fromUTF8?, dif_pos hvalid, Option.some.injEq]
    exact String.toByteArray_inj.mp (toByteArray_ofString s)

@[simp] theorem text?_ofString (s : String) : (ofString s).text? = some s := text?_eq_some.mpr rfl

@[simp] theorem lossy_ofString (s : String) : (ofString s).lossy = s := by
  rw [lossy, ofString, Text.decodeFrom_encode _ _ (Nat.le_refl _), String.ofList_toList]

theorem lossy_of_text? {t : RawText} {s : String} (h : t.text? = some s) : t.lossy = s := by
  rw [text?_eq_some.mp h, lossy_ofString]

theorem lossy_inj {t u : RawText} (ht : t.text?.isSome) (hu : u.text?.isSome)
    (h : t.lossy = u.lossy) : t = u := by
  obtain ⟨s, hs⟩ := Option.isSome_iff_exists.mp ht
  obtain ⟨s', hs'⟩ := Option.isSome_iff_exists.mp hu
  rw [lossy_of_text? hs, lossy_of_text? hs'] at h
  rw [text?_eq_some.mp hs, text?_eq_some.mp hs', h]

end RawText

end Switchboard
