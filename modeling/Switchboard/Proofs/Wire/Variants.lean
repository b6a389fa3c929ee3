import Switchboard.Proofs.Wire.Records
import Switchboard.Wire.Basic

/-!
# Reading what was written

For the parts that records are made of: decoding what was written gives the value again, whatever
the order of the members. A kind is found by its name, and its fields are read from what stands
beside the name.
-/
namespace Switchboard

open Json (Fields Reading Reads)

section Parts

variable {α : Type}

theorem reads_uint8 (n : UInt8) : (Json.nat n.toNat).Reads uint8? n := by
  have h := (Reads.below n.toNat_lt).map UInt8.ofNat
  rwa [UInt8.ofNat_toNat] at h

theorem reads_uint16 (n : UInt16) : (Json.nat n.toNat).Reads uint16? n := by
  have h := (Reads.below n.toNat_lt).map UInt16.ofNat
  rwa [UInt16.ofNat_toNat] at h

theorem reads_uint32 (n : UInt32) : (Json.nat n.toNat).Reads uint32? n := by
  have h := (Reads.below n.toNat_lt).map UInt32.ofNat
  rwa [UInt32.ofNat_toNat] at h

theorem reads_int32 (n : Int32) : (Json.int n.toInt).Reads int32? n := by
  rintro _ ⟨⟩
  have hrange : Int32.minValue.toInt ≤ n.toInt ∧ n.toInt ≤ Int32.maxValue.toInt :=
    ⟨n.minValue_le_toInt, n.toInt_le⟩
  simp only [int32?, Json.int?, Option.bind_eq_bind, Option.bind_some, if_pos hrange,
    Int32.ofInt_toInt]

theorem reads_path (s : String) : (Json.str s).Reads Path.ofJson? ⟨s⟩ :=
  (Reads.text s).map fun s => Path.mk (RawText.ofString s)

theorem reads_paneId (id : PaneId) : id.toJson.Reads PaneId.ofJson? id :=
  (Reads.text id.name).map PaneId.mk

theorem reads_worktreeId (id : WorktreeId) : id.toJson.Reads WorktreeId.ofJson? id :=
  (Reads.text id.name).map WorktreeId.mk

theorem reads_commandId (id : CommandId) : id.toJson.Reads CommandId.ofJson? id :=
  (Reads.text id.name).map CommandId.mk

theorem reads_correlationId (id : CorrelationId) : id.toJson.Reads CorrelationId.ofJson? id :=
  (Reads.text id.name).map CorrelationId.mk

theorem reads_constant {name : α → String} {all : List α} {a : α}
    (h : all.find? (name · == name a) = some a) (reading : Reading) :
    (Json.str (name a)).Reads (constant? reading name all) a := by
  rintro _ ⟨⟩
  simpa only [constant?, Json.name?, Option.bind_eq_bind, Option.bind_some] using h

theorem reads_state (reading : Reading) (s : LifecycleState) :
    (Json.str s.name).Reads (LifecycleState.ofJson? reading) s :=
  reads_constant (by cases s <;> rfl) reading

end Parts

section Paths

variable {α : Type} {p : Path} {v : Json}

theorem Path.bind_toJson?_eq_some {next : Json → Option α} {a : α} :
    p.toJson?.bind next = some a ↔ ∃ s : String, p = ⟨s⟩ ∧ next (.str s) = some a := by
  simp only [toJson?, Option.bind_eq_some_iff, Option.map_eq_some_iff, RawText.text?_eq_some]
  constructor
  · rintro ⟨_, ⟨s, hs, rfl⟩, ha⟩
    exact ⟨s, congrArg Path.mk hs, ha⟩
  · rintro ⟨s, rfl, ha⟩
    exact ⟨_, ⟨s, rfl, rfl⟩, ha⟩

theorem Path.toJson?_eq_some : p.toJson? = some v ↔ ∃ s : String, p = ⟨s⟩ ∧ .str s = v := by
  simp only [toJson?, Option.map_eq_some_iff, RawText.text?_eq_some, Path.ext_iff]

theorem Path.isSome_toJson? (p : Path) : p.toJson?.isSome = p.isText := Option.isSome_map

theorem Path.reads {v : Json} (h : p.toJson? = some v) : v.Reads Path.ofJson? p := by
  obtain ⟨s, rfl, rfl⟩ := toJson?_eq_some.mp h
  exact reads_path s

theorem Path.depth?_of_toJson? {v : Json} (h : p.toJson? = some v) : v.depth? = some 0 := by
  obtain ⟨s, rfl, rfl⟩ := toJson?_eq_some.mp h
  rfl

theorem Path.isText_of_ofJson? (h : Path.ofJson? v = some p) : p.isText = true := by
  obtain ⟨s, -, rfl⟩ := Option.map_eq_some_iff.mp h
  rw [isText, RawText.text?_ofString]
  rfl

end Paths

/-- The value can be held, and it is read as this whether it was held or not. -/
structure Json.Carries {α : Type} (decode : Reading → Json → Option α) (v : Json) (a : α) :
    Prop where
  holdable : v.isHoldable contentRoom = true
  reads : ∀ reading, v.Reads (decode reading) a

section Kinds

variable {α β γ δ : Type} {kinds : List (Kind α)} {kind : Kind α} {name : String}
  {fields : List (String × Json)} {a : α}

theorem carries_variant (hkind : kinds.find? (·.name = name) = some kind)
    (hnames : ("type" :: fields.map Prod.fst).Nodup)
    (hroom : (variant name fields).isHoldable contentRoom = true)
    (hread : ∀ f : Fields, f.Holds fields → kind.ofFields? f = some a) :
    (variant name fields).Carries (ofKinds? kinds) a := by
  refine ⟨hroom, fun reading w hw => ?_⟩
  obtain ⟨tag, f, htag, hstr, hf⟩ := Json.tagged?_of_reordered hnames hw
  cases hstr
  have hof : Kind.ofTag? kinds reading (.str name) = some kind := by
    cases reading <;> exact hkind
  have hfits : f.fits kind.count = true := by
    obtain ⟨-, ns, ns', rfl, -, -⟩ := hf
    rfl
  have hroom' := (hw.isHoldable_eq contentRoom).trans hroom
  simp only [ofKinds?, htag, Option.bind_eq_bind, Option.bind_some, hof, hroom', hfits,
    Bool.and_self, if_true, hread f hf]

theorem carries_bare {count : Nat}
    (hkind : kinds.find? (·.name = name) = some ⟨name, count, fun _ => some a⟩) :
    (variant name []).Carries (ofKinds? kinds) a :=
  carries_variant hkind (by simp) rfl fun _ _ => rfl

variable {n n' n'' : String} {v v' v'' : Json} {d : Json → Option β} {d' : Json → Option γ}
  {d'' : Json → Option δ} {b : β} {c : γ} {e : δ} {count : Nat}

theorem carries_one {make : β → α}
    (hkind : kinds.find? (·.name = name) = some ⟨name, count, fun f => do
      some (make (← f.required? 0 n d))⟩)
    (hnames : ["type", n].Nodup)
    (hroom : (variant name [(n, v)]).isHoldable contentRoom = true) (hb : v.Reads d b) :
    (variant name [(n, v)]).Carries (ofKinds? kinds) (make b) := by
  refine carries_variant hkind hnames hroom fun f hf => ?_
  have hn : f.required? 0 n d = some b := hf.required? (by simp) hb 0
  simp only [hn, Option.bind_eq_bind, Option.bind_some]

theorem carries_two {make : β → γ → α}
    (hkind : kinds.find? (·.name = name) = some ⟨name, count, fun f => do
      some (make (← f.required? 0 n d) (← f.required? 1 n' d'))⟩)
    (hnames : ["type", n, n'].Nodup)
    (hroom : (variant name [(n, v), (n', v')]).isHoldable contentRoom = true) (hb : v.Reads d b)
    (hc : v'.Reads d' c) :
    (variant name [(n, v), (n', v')]).Carries (ofKinds? kinds) (make b c) := by
  refine carries_variant hkind hnames hroom fun f hf => ?_
  have hn : f.required? 0 n d = some b := hf.required? (by simp) hb 0
  have hn' : f.required? 1 n' d' = some c := hf.required? (by simp) hc 1
  simp only [hn, hn', Option.bind_eq_bind, Option.bind_some]

theorem carries_three {make : β → γ → δ → α}
    (hkind : kinds.find? (·.name = name) = some ⟨name, count, fun f => do
      some (make (← f.required? 0 n d) (← f.required? 1 n' d') (← f.required? 2 n'' d''))⟩)
    (hnames : ["type", n, n', n''].Nodup)
    (hroom : (variant name [(n, v), (n', v'), (n'', v'')]).isHoldable contentRoom = true)
    (hb : v.Reads d b) (hc : v'.Reads d' c) (he : v''.Reads d'' e) :
    (variant name [(n, v), (n', v'), (n'', v'')]).Carries (ofKinds? kinds) (make b c e) := by
  refine carries_variant hkind hnames hroom fun f hf => ?_
  have hn : f.required? 0 n d = some b := hf.required? (by simp) hb 0
  have hn' : f.required? 1 n' d' = some c := hf.required? (by simp) hc 1
  have hn'' : f.required? 2 n'' d'' = some e := hf.required? (by simp) he 2
  simp only [hn, hn', hn'', Option.bind_eq_bind, Option.bind_some]

theorem Kind.mem_of_ofTag? {reading : Reading} {tag : Json}
    (h : Kind.ofTag? kinds reading tag = some kind) : kind ∈ kinds := by
  simp only [Kind.ofTag?] at h
  split at h
  · exact List.mem_of_find?_eq_some h
  · exact List.mem_of_getElem? h
  · cases h

theorem forall_of_bind {x : Option β} {next : β → Option α} {P : α → Prop} :
    (∀ a, x.bind next = some a → P a) ↔ ∀ b, x = some b → ∀ a, next b = some a → P a := by
  simp only [Option.bind_eq_some_iff, forall_exists_index, and_imp]
  exact ⟨fun h b hb a ha => h a b hb ha, fun h a b hb ha => h b hb a ha⟩

theorem isSome_bind_some {x : Option β} {make : β → α} :
    (x.bind fun b => some (make b)).isSome = x.isSome := by
  cases x <;> rfl

theorem of_ofKinds? {reading : Reading} {w : Json} {P : α → Prop}
    (h : ofKinds? kinds reading w = some a)
    (hP : ∀ kind ∈ kinds, ∀ f a, kind.ofFields? f = some a → P a) : P a := by
  simp only [ofKinds?, Option.bind_eq_bind, Option.bind_eq_some_iff] at h
  obtain ⟨⟨tag, f⟩, -, kind, hkind, hread⟩ := h
  split at hread
  · exact hP kind (Kind.mem_of_ofTag? hkind) f a hread
  · cases hread

end Kinds

section Members

variable {α : Type} {f : Fields} {ms : List (String × Json)} {name : String} {encode : α → Json}
  {decode : Json → Option α}

theorem defaulted?_member (hf : f.Holds ms) (o : Option α)
    (hin : ∀ a, o = some a → (name, encode a) ∈ ms) (hout : o = none → name ∉ ms.map Prod.fst)
    (h : ∀ a, (encode a).Reads decode a) (hnull : decode .null = none) (position : Nat) :
    f.defaulted? position name (Json.nullable? decode) none = some o := by
  cases o with
  | none => exact hf.defaulted?_of_absent (hout rfl) position none
  | some a =>
    exact hf.defaulted? (hin a rfl) ((h a).nullable hnull) position none

end Members

end Switchboard
