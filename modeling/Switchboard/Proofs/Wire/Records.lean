import Mathlib.Data.List.Forall2
import Switchboard.Json

/-!
# Records in any order

Writers may put the members of an object in another order. What is read from an object in which
every name stands once does not depend on that, and neither does how deep it is.
-/
namespace Switchboard.Json

mutual

/-- The same value, the members of its objects in any order. -/
inductive Reordered : Json → Json → Prop
  | null : Reordered .null .null
  | bool (b : Bool) : Reordered (.bool b) (.bool b)
  | int (i : Int) : Reordered (.int i) (.int i)
  | decimal (text : String) : Reordered (.decimal text) (.decimal text)
  | str (text : String) : Reordered (.str text) (.str text)
  | unreadable : Reordered .unreadable .unreadable
  | arr {vs ws : List Json} : ReorderedItems vs ws → Reordered (.arr vs) (.arr ws)
  | obj {ms ns ns' : List (String × Json)} :
    ReorderedMembers ms ns → ns.Perm ns' → Reordered (.obj ms) (.obj ns')

inductive ReorderedItems : List Json → List Json → Prop
  | nil : ReorderedItems [] []
  | cons {v w : Json} {vs ws : List Json} :
    Reordered v w → ReorderedItems vs ws → ReorderedItems (v :: vs) (w :: ws)

inductive ReorderedMembers : List (String × Json) → List (String × Json) → Prop
  | nil : ReorderedMembers [] []
  | cons {v w : Json} {ms ns : List (String × Json)} (name : String) :
    Reordered v w → ReorderedMembers ms ns → ReorderedMembers ((name, v) :: ms) ((name, w) :: ns)

end

mutual

theorem Reordered.refl : ∀ v : Json, Reordered v v
  | .null => .null
  | .bool b => .bool b
  | .int i => .int i
  | .decimal text => .decimal text
  | .str text => .str text
  | .unreadable => .unreadable
  | .arr vs => .arr (ReorderedItems.refl vs)
  | .obj ms => .obj (ReorderedMembers.refl ms) (List.Perm.refl ms)

theorem ReorderedItems.refl : ∀ vs : List Json, ReorderedItems vs vs
  | [] => .nil
  | v :: vs => .cons (Reordered.refl v) (ReorderedItems.refl vs)

theorem ReorderedMembers.refl : ∀ ms : List (String × Json), ReorderedMembers ms ms
  | [] => .nil
  | (name, v) :: ms => .cons name (Reordered.refl v) (ReorderedMembers.refl ms)

end

theorem depthOfMembers?_perm {ms ns : List (String × Json)} (h : ms.Perm ns) :
    depthOfMembers? ms = depthOfMembers? ns := by
  induction h with
  | nil => rfl
  | cons m _ ih => simp only [depthOfMembers?, ih]
  | swap m n ms =>
    simp only [depthOfMembers?]
    cases m.2.depth? <;> cases n.2.depth? <;> cases depthOfMembers? ms <;>
      simp [Nat.max_left_comm]
  | trans _ _ ih ih' => exact ih.trans ih'

mutual

theorem Reordered.depth?_eq {v w : Json} : Reordered v w → v.depth? = w.depth?
  | .null | .bool _ | .int _ | .decimal _ | .str _ | .unreadable => rfl
  | .arr h => by rw [depth?, depth?, h.depth?_eq]
  | .obj h hp => by rw [depth?, depth?, h.depth?_eq, depthOfMembers?_perm hp]

theorem ReorderedItems.depth?_eq {vs ws : List Json} :
    ReorderedItems vs ws → depthOfItems? vs = depthOfItems? ws
  | .nil => rfl
  | .cons h hs => by rw [depthOfItems?, depthOfItems?, h.depth?_eq, hs.depth?_eq]

theorem ReorderedMembers.depth?_eq {ms ns : List (String × Json)} :
    ReorderedMembers ms ns → depthOfMembers? ms = depthOfMembers? ns
  | .nil => rfl
  | .cons _ h hs => by rw [depthOfMembers?, depthOfMembers?, h.depth?_eq, hs.depth?_eq]

end

theorem Reordered.isHoldable_eq {v w : Json} (h : Reordered v w) (room : Nat) :
    w.isHoldable room = v.isHoldable room := by
  rw [isHoldable, isHoldable, h.depth?_eq]

section Parts

variable {α : Type} {encode : α → Json} {encode? : α → Option Json} {v : Json}

theorem depth?_ofOption (h : ∀ a, (encode a).depth? = some 0) (o : Option α) :
    (ofOption encode o).depth? = some 0 := by
  cases o with
  | none => rfl
  | some a => exact h a

theorem depth?_ofOption? (h : ∀ a v, encode? a = some v → v.depth? = some 0) {o : Option α}
    (hv : ofOption? encode? o = some v) : v.depth? = some 0 := by
  cases o with
  | none =>
    cases hv
    rfl
  | some a => exact h a v hv

theorem depth?_arr {items : List Json} (h : ∀ v ∈ items, v.depth? = some 0) :
    (Json.arr items).depth? = some 1 := by
  have hitems : depthOfItems? items = some 0 := by
    induction items with
    | nil => rfl
    | cons v items ih =>
      obtain ⟨hv, hrest⟩ := List.forall_mem_cons.mp h
      simp [depthOfItems?, hv, ih hrest]
  rw [depth?, hitems, Option.map_some]

theorem ofList?_eq_some {items : List α} : ofList? encode? items = some v ↔
    ∃ vs, v = .arr vs ∧ List.Forall₂ (fun a v => encode? a = some v) items vs := by
  have hitems : ∀ vs, items.mapM encode? = some vs ↔
      List.Forall₂ (fun a v => encode? a = some v) items vs := by
    induction items with
    | nil => simp [eq_comm]
    | cons a items ih =>
      intro vs
      simp only [List.mapM_cons, Option.bind_eq_bind, Option.bind_eq_some_iff, ih,
        List.forall₂_cons_left_iff, Option.pure_def, Option.some.injEq]
      exact ⟨fun ⟨v, hv, vs, hvs, he⟩ => ⟨v, vs, hv, hvs, he.symm⟩,
        fun ⟨v, vs, hv, hvs, he⟩ => ⟨v, hv, vs, hvs, he.symm⟩⟩
  simp only [ofList?, Option.map_eq_some_iff, hitems]
  exact ⟨fun ⟨vs, h, he⟩ => ⟨vs, he.symm, h⟩, fun ⟨vs, he, h⟩ => ⟨vs, h, he.symm⟩⟩

theorem depth?_ofList? (h : ∀ a v, encode? a = some v → v.depth? = some 0) {items : List α}
    (hv : ofList? encode? items = some v) : v.depth? = some 1 := by
  obtain ⟨vs, rfl, hvs⟩ := ofList?_eq_some.mp hv
  clear hv
  refine depth?_arr ?_
  induction hvs with
  | nil => exact List.forall_mem_nil _
  | cons hv _ ih => exact List.forall_mem_cons.mpr ⟨h _ _ hv, ih⟩

theorem isSome_ofOption? {o : Option α} :
    (ofOption? encode? o).isSome = true ↔ ∀ a ∈ o, (encode? a).isSome = true := by
  cases o <;> simp [ofOption?]

theorem isSome_ofList? {items : List α} :
    (ofList? encode? items).isSome = true ↔ ∀ a ∈ items, (encode? a).isSome = true := by
  rw [ofList?, Option.isSome_map]
  induction items with
  | nil => simp
  | cons a items ih =>
    rw [List.mapM_cons, List.forall_mem_cons, ← ih]
    cases encode? a <;> cases items.mapM encode? <;> simp

end Parts

namespace ReorderedMembers

variable {ms ns : List (String × Json)} {name : String} {v : Json}

theorem names (h : ReorderedMembers ms ns) : ns.map Prod.fst = ms.map Prod.fst := by
  induction ms generalizing ns with
  | nil => cases h; rfl
  | cons m ms ih =>
    cases h with
    | cons name hv hs => rw [List.map_cons, List.map_cons, ih hs]

theorem exists_of_mem (h : ReorderedMembers ms ns) (hm : (name, v) ∈ ms) :
    ∃ w, v.Reordered w ∧ (name, w) ∈ ns := by
  induction ms generalizing ns with
  | nil => cases hm
  | cons m ms ih =>
    cases h with
    | cons first hv hs =>
      rcases List.mem_cons.mp hm with heq | hm
      · cases heq
        exact ⟨_, hv, List.mem_cons_self⟩
      · obtain ⟨w, hw, hin⟩ := ih hs hm
        exact ⟨w, hw, List.mem_cons_of_mem _ hin⟩

theorem filter (h : ReorderedMembers ms ns) (keep : String → Bool) :
    ReorderedMembers (ms.filter (keep ·.1)) (ns.filter (keep ·.1)) := by
  induction ms generalizing ns with
  | nil => cases h; exact .nil
  | cons m ms ih =>
    cases h with
    | cons name hv hs =>
      simp only [List.filter_cons]
      split
      · exact .cons name hv (ih hs)
      · exact ih hs

end ReorderedMembers

theorem filter_eq_singleton {ms : List (String × Json)} {name : String} {v : Json}
    (hn : (ms.map Prod.fst).Nodup) (hm : (name, v) ∈ ms) :
    ms.filter (·.1 = name) = [(name, v)] := by
  induction ms with
  | nil => cases hm
  | cons m ms ih =>
    rw [List.map_cons, List.nodup_cons] at hn
    rcases List.mem_cons.mp hm with rfl | hm
    · rw [List.filter_cons_of_pos (by simp), List.filter_eq_nil_iff.mpr]
      intro m hm heq
      exact hn.1 (List.mem_map.mpr ⟨m, hm, of_decide_eq_true heq⟩)
    · have hne : m.1 ≠ name := fun heq => hn.1 (List.mem_map.mpr ⟨_, hm, heq.symm⟩)
      rw [List.filter_cons_of_neg (by simpa using hne), ih hn.2 hm]

/-- Decoding the value gives this, in whatever order its members come. -/
def Reads {α : Type} (decode : Json → Option α) (v : Json) (a : α) : Prop :=
  ∀ w, v.Reordered w → decode w = some a

namespace Fields

def Holds (f : Fields) (ms : List (String × Json)) : Prop :=
  (ms.map Prod.fst).Nodup ∧ ∃ ns ns', f = .named ns' ∧ ReorderedMembers ms ns ∧ ns.Perm ns'

namespace Holds

variable {α : Type} {f : Fields} {ms : List (String × Json)} {name : String} {v : Json}
  {decode : Json → Option α} {a : α}

theorem member? (h : f.Holds ms) (hm : (name, v) ∈ ms) :
    ∃ ns w, f = .named ns ∧ v.Reordered w ∧ Fields.member? ns name = some (some w) := by
  obtain ⟨hn, ns, ns', rfl, hs, hp⟩ := h
  obtain ⟨w, hw, hin⟩ := hs.exists_of_mem hm
  refine ⟨ns', w, rfl, hw, ?_⟩
  have hn' : (ns'.map Prod.fst).Nodup := ((hp.map Prod.fst).nodup_iff.mp (hs.names ▸ hn))
  rw [Fields.member?, filter_eq_singleton hn' (hp.subset hin)]

theorem member?_of_absent (h : f.Holds ms) (hm : name ∉ ms.map Prod.fst) :
    ∃ ns, f = .named ns ∧ Fields.member? ns name = some none := by
  obtain ⟨-, ns, ns', rfl, hs, hp⟩ := h
  refine ⟨ns', rfl, ?_⟩
  have hnone : ns'.filter (·.1 = name) = [] := by
    rw [List.filter_eq_nil_iff]
    intro m hin heq
    refine hm ?_
    rw [← hs.names, (hp.map Prod.fst).mem_iff]
    exact List.mem_map.mpr ⟨m, hin, of_decide_eq_true heq⟩
  rw [Fields.member?, hnone]

theorem required? (h : f.Holds ms) (hm : (name, v) ∈ ms) (hr : v.Reads decode a)
    (position : Nat) : f.required? position name decode = some a := by
  obtain ⟨ns, w, rfl, hw, hin⟩ := h.member? hm
  simp only [Fields.required?, hin, Option.bind_eq_bind, Option.bind_some]
  exact hr w hw

theorem optional? (h : f.Holds ms) (hm : (name, v) ∈ ms) {o : Option α}
    (hr : v.Reads (nullable? decode) o) (position : Nat) :
    f.optional? position name decode = some o := by
  obtain ⟨ns, w, rfl, hw, hin⟩ := h.member? hm
  simp only [Fields.optional?, hin, Option.bind_eq_bind, Option.bind_some]
  exact hr w hw

theorem defaulted? (h : f.Holds ms) (hm : (name, v) ∈ ms) (hr : v.Reads decode a)
    (position : Nat) (fallback : α) : f.defaulted? position name decode fallback = some a := by
  obtain ⟨ns, w, rfl, hw, hin⟩ := h.member? hm
  simp only [Fields.defaulted?, hin, Option.bind_eq_bind, Option.bind_some]
  exact hr w hw

theorem defaulted?_of_absent (h : f.Holds ms) (hm : name ∉ ms.map Prod.fst) (position : Nat)
    (fallback : α) : f.defaulted? position name decode fallback = some fallback := by
  obtain ⟨ns, rfl, hnone⟩ := h.member?_of_absent hm
  simp only [Fields.defaulted?, hnone, Option.bind_eq_bind, Option.bind_some]

end Holds

end Fields

section Shapes

variable {ms : List (String × Json)} {v w : Json}

theorem fields?_of_reordered (hn : (ms.map Prod.fst).Nodup) (h : (Json.obj ms).Reordered w)
    (count : Nat) : ∃ f, w.fields? count = some f ∧ f.Holds ms := by
  cases h with
  | obj hs hp => exact ⟨_, rfl, hn, _, _, rfl, hs, hp⟩

theorem tagged?_of_reordered (hn : ("type" :: ms.map Prod.fst).Nodup)
    (h : (Json.obj (("type", v) :: ms)).Reordered w) :
    ∃ v' f, w.tagged? = some (v', f) ∧ v.Reordered v' ∧ f.Holds ms := by
  cases h with
  | obj hs hp =>
    have hall : Fields.Holds _ (("type", v) :: ms) := ⟨hn, _, _, rfl, hs, hp⟩
    obtain ⟨_, v', heq, hv, hin⟩ := hall.member? List.mem_cons_self
    cases heq
    have hrest : (("type", v) :: ms).filter (·.1 ≠ "type") = ms := by
      rw [List.filter_cons_of_neg (by simp), List.filter_eq_self]
      intro m hm
      have hne : m.1 ≠ "type" := fun heq =>
        (List.nodup_cons.mp hn).1 (List.mem_map.mpr ⟨m, hm, heq⟩)
      simpa using hne
    have hkept := hs.filter (· ≠ "type")
    rw [hrest] at hkept
    exact ⟨v', _, by simp only [tagged?, hin, Option.bind_eq_bind, Option.bind_some], hv,
      (List.nodup_cons.mp hn).2, _, _, rfl, hkept, hp.filter _⟩

theorem pair?_of_reordered {tagName contentName tag : String} {room : Nat}
    (hne : tagName ≠ contentName) (hroom : v.isHoldable room = true)
    (h : (Json.obj [(tagName, .str tag), (contentName, v)]).Reordered w) :
    ∃ reading v', w.pair? tagName contentName room = some ⟨tag, reading, v'⟩ ∧ v.Reordered v' := by
  obtain ⟨f, hf, hholds⟩ := fields?_of_reordered (by simpa using hne) h 2
  have htag : f.required? 0 tagName (name? .inPlace) = some tag :=
    hholds.required? List.mem_cons_self (by rintro _ ⟨⟩; rfl) 0
  obtain ⟨ns, v', rfl, hv, hin⟩ := hholds.member? (List.mem_cons_of_mem _ List.mem_cons_self)
  have hcontent : (Fields.named ns).required? 1 contentName some = some v' := by
    simp only [Fields.required?, hin, Option.bind_eq_bind, Option.bind_some]
  have hroom' : v'.isHoldable room = true := (hv.isHoldable_eq room).trans hroom
  refine ⟨(Fields.named ns).readingOf tagName contentName, v', ?_, hv⟩
  simp [pair?, hf, htag, hcontent, hroom']

end Shapes

namespace Reads

variable {α β : Type} {decode : Json → Option α} {v : Json} {a : α}

theorem map (h : v.Reads decode a) (f : α → β) : v.Reads (fun w => (decode w).map f) (f a) :=
  fun w hw => congrArg (Option.map f) (h w hw)

theorem text (s : String) : (Json.str s).Reads text? s := by
  rintro _ ⟨⟩
  rfl

theorem bool (b : Bool) : (Json.bool b).Reads bool? b := by
  rintro _ ⟨⟩
  rfl

theorem below {n bound : Nat} (h : n < bound) : (Json.nat n).Reads (below? bound) n := by
  rintro _ ⟨⟩
  exact if_pos h

theorem arr {vs : List Json} {items : List α}
    (h : List.Forall₂ (fun a v => Json.Reads decode v a) items vs) :
    (Json.arr vs).Reads (list? decode) items := by
  have hitems : ∀ ws, ReorderedItems vs ws → ws.mapM decode = some items := by
    induction h with
    | nil =>
      rintro _ ⟨⟩
      rfl
    | cons hv _ ih =>
      intro ws hs
      cases hs with
      | cons hw hs => simp [List.mapM_cons, hv _ hw, ih _ hs]
  intro w hw
  cases hw with
  | arr hs => exact hitems _ hs

theorem list {encode : α → Json} (h : ∀ a, (encode a).Reads decode a) (items : List α) :
    (ofList encode items).Reads (list? decode) items :=
  .arr (List.forall₂_map_right_iff.mpr (List.forall₂_same.mpr fun a _ => h a))

theorem nullable (h : v.Reads decode a) (hnull : decode .null = none) :
    v.Reads (nullable? decode) (some a) := by
  intro w hw
  have ha := h w hw
  cases w with
  | null => rw [hnull] at ha; cases ha
  | _ => simp only [nullable?, ha, Option.map_some]

theorem option {encode : α → Json} (h : ∀ a, (encode a).Reads decode a)
    (hnull : decode .null = none) (o : Option α) :
    (ofOption encode o).Reads (nullable? decode) o := by
  cases o with
  | none =>
    rintro _ ⟨⟩
    rfl
  | some a => exact (h a).nullable hnull

theorem option? {encode : α → Option Json} (h : ∀ a v, encode a = some v → v.Reads decode a)
    (hnull : decode .null = none) {o : Option α} (hv : ofOption? encode o = some v) :
    v.Reads (nullable? decode) o := by
  cases o with
  | none =>
    cases hv
    rintro _ ⟨⟩
    rfl
  | some a => exact (h a v hv).nullable hnull

theorem list? {encode : α → Option Json} (h : ∀ a v, encode a = some v → v.Reads decode a)
    {items : List α} (hv : ofList? encode items = some v) : v.Reads (list? decode) items := by
  obtain ⟨vs, rfl, hvs⟩ := ofList?_eq_some.mp hv
  exact .arr (hvs.imp h)

theorem pair {next : TaggedContent → Option α} {tagName contentName tag : String} {room : Nat}
    (hne : tagName ≠ contentName) (hroom : v.isHoldable room = true)
    (h : ∀ reading, v.Reads (fun w => next ⟨tag, reading, w⟩) a) :
    (Json.obj [(tagName, .str tag), (contentName, v)]).Reads
      (fun w => (w.pair? tagName contentName room).bind next) a := by
  intro w hw
  obtain ⟨reading, v', hp, hv⟩ := pair?_of_reordered hne hroom hw
  simp only [hp, Option.bind_some]
  exact h reading v' hv

end Reads

theorem lt_of_below? {bound n : Nat} {v : Json} (h : v.below? bound = some n) : n < bound := by
  simp only [below?] at h
  split at h
  · split at h
    · cases h
      assumption
    · cases h
  · cases h

theorem Fields.of_required? {α : Type} {f : Fields} {position : Nat} {name : String}
    {decode : Json → Option α} {a : α} (h : f.required? position name decode = some a) :
    ∃ v, decode v = some a := by
  cases f <;> simp only [required?, Option.bind_eq_bind, Option.bind_eq_some_iff] at h
  · obtain ⟨-, -, v, -, h⟩ := h
    exact ⟨v, h⟩
  · obtain ⟨v, -, h⟩ := h
    exact ⟨v, h⟩

theorem Fields.lt_of_required? {f : Fields} {position bound n : Nat} {name : String}
    (h : f.required? position name (below? bound) = some n) : n < bound :=
  (of_required? h).elim fun _ => lt_of_below?

theorem Fields.of_optional? {α : Type} {f : Fields} {position : Nat} {name : String}
    {decode : Json → Option α} {a : α} (h : f.optional? position name decode = some (some a)) :
    ∃ v, decode v = some a := by
  have hnullable : ∀ v, nullable? decode v = some (some a) → decode v = some a := by
    intro v hv
    cases v <;> simp_all [nullable?]
  cases f with
  | named members =>
    simp only [optional?, Option.bind_eq_bind, Option.bind_eq_some_iff] at h
    obtain ⟨member, -, h⟩ := h
    cases member with
    | none => cases h
    | some v => exact ⟨v, hnullable v h⟩
  | listed items =>
    simp only [optional?, Option.bind_eq_bind, Option.bind_eq_some_iff] at h
    obtain ⟨v, -, h⟩ := h
    exact ⟨v, hnullable v h⟩

theorem of_list? {α : Type} {decode : Json → Option α} {v : Json} {items : List α}
    (h : list? decode v = some items) : ∀ a ∈ items, ∃ w, decode w = some a := by
  cases v with
  | arr vs =>
    simp only [list?] at h
    induction vs generalizing items with
    | nil =>
      cases h
      exact List.forall_mem_nil _
    | cons v vs ih =>
      simp only [List.mapM_cons, Option.bind_eq_bind, Option.bind_eq_some_iff, Option.pure_def,
        Option.some.injEq] at h
      obtain ⟨a, ha, rest, hrest, rfl⟩ := h
      exact List.forall_mem_cons.mpr ⟨⟨v, ha⟩, ih hrest⟩
  | _ => cases h

end Switchboard.Json
