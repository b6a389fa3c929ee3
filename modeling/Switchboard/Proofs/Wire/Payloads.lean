import Switchboard.Proofs.Wire.Variants
import Switchboard.Wire.Command
import Switchboard.Wire.Event

/-!
# Payloads are read as they were written

Events and commands, each with what it carries, come back from their written form, in whatever order
the members come, and whether the payload is found behind the name of its family or before it. They
have a written form exactly if all their paths are UTF-8. Numbers are kept in words of a fixed
length: only what fits into them comes back, and what is read does fit.
-/
namespace Switchboard

open Json (Fields Reading Reads Carries)

theorem StatusCounts.reads (c : StatusCounts) : c.toJson.Reads StatusCounts.ofJson? c := by
  intro w hw
  obtain ⟨f, hf, h⟩ := Json.fields?_of_reordered (by simp) hw 3
  have h0 : f.required? 0 "changed" uint32? = some c.changed :=
    h.required? (by simp) (reads_uint32 _) 0
  have h1 : f.required? 1 "staged" uint32? = some c.staged :=
    h.required? (by simp) (reads_uint32 _) 1
  have h2 : f.required? 2 "untracked" uint32? = some c.untracked :=
    h.required? (by simp) (reads_uint32 _) 2
  simp only [StatusCounts.ofJson?, hf, h0, h1, h2, Option.bind_eq_bind, Option.bind_some]

namespace Metadata

variable {m : Metadata} {v : Json}

theorem isSome_toJson? : m.toJson?.isSome = true ↔ ∀ p ∈ m.cwd, p.isText = true := by
  simp [toJson?, isSome_bind_some, Json.isSome_ofOption?, Path.isSome_toJson?]

theorem reads (hv : m.toJson? = some v) : v.Reads Metadata.ofJson? m := by
  obtain ⟨cwd, hcwd, ⟨⟩⟩ := Option.bind_eq_some_iff.mp hv
  intro w hw
  obtain ⟨f, hf, h⟩ := Json.fields?_of_reordered (by simp) hw 4
  have h0 : f.optional? 0 "title" Json.text? = some m.title :=
    h.optional? (by simp) (.option Reads.text rfl _) 0
  have h1 : f.optional? 1 "cwd" Path.ofJson? = some m.cwd :=
    h.optional? (by simp) (.option? (fun _ _ => Path.reads) rfl hcwd) 1
  have h2 : f.optional? 2 "worktree_id" WorktreeId.ofJson? = some m.worktree :=
    h.optional? (by simp) (.option reads_worktreeId rfl _) 2
  have h3 : f.optional? 3 "group" Json.text? = some m.group :=
    h.optional? (by simp) (.option Reads.text rfl _) 3
  simp only [Metadata.ofJson?, hf, h0, h1, h2, h3, Option.bind_eq_bind, Option.bind_some]

theorem depth?_of_toJson? (hv : m.toJson? = some v) : v.depth? = some 1 := by
  obtain ⟨cwd, hcwd, ⟨⟩⟩ := Option.bind_eq_some_iff.mp hv
  have htext : ∀ s, (Json.str s).depth? = some 0 := fun _ => rfl
  have hworktree : ∀ id : WorktreeId, id.toJson.depth? = some 0 := fun _ => rfl
  have hpath : cwd.depth? = some 0 := Json.depth?_ofOption? (fun _ _ => Path.depth?_of_toJson?) hcwd
  simp [Json.depth?, Json.depthOfMembers?, Json.depth?_ofOption htext, hpath,
    Json.depth?_ofOption hworktree]

theorem isText_of_ofJson? (h : ofJson? v = some m) : ∀ p ∈ m.cwd, p.isText = true := by
  simp only [ofJson?, Option.bind_eq_bind, Option.bind_eq_some_iff] at h
  obtain ⟨f, -, title, -, cwd, h1, worktree, -, group, -, ⟨⟩⟩ := h
  rintro p ⟨⟩
  exact (Fields.of_optional? h1).elim fun _ => Path.isText_of_ofJson?

end Metadata

namespace MetadataPatch

variable {p : MetadataPatch} {v : Json}

theorem isSome_toJson? : p.toJson?.isSome = true ↔ ∀ q ∈ p.cwd, q.isText = true := by
  simp [toJson?, isSome_bind_some, Json.isSome_ofOption?, Path.isSome_toJson?]

theorem carries (hv : p.toJson? = some v) : v.Carries ofJson? p := by
  obtain ⟨cwd, hcwd, ⟨⟩⟩ := Option.bind_eq_some_iff.mp hv
  refine ⟨?_, fun reading w hw => ?_⟩
  · have htext : ∀ s, (Json.str s).depth? = some 0 := fun _ => rfl
    have hworktree : ∀ id : WorktreeId, id.toJson.depth? = some 0 := fun _ => rfl
    have hpath : cwd.depth? = some 0 :=
      Json.depth?_ofOption? (fun _ _ => Path.depth?_of_toJson?) hcwd
    have hclear : (Json.ofList (fun f => .str f.name) p.clear).depth? = some 1 :=
      Json.depth?_arr (List.forall_mem_map.mpr fun _ _ => rfl)
    simp [Json.isHoldable, Json.depth?, Json.depthOfMembers?, Json.depth?_ofOption htext, hpath,
      Json.depth?_ofOption hworktree, hclear, contentRoom, nestingLimit]
  · obtain ⟨f, hf, h⟩ := Json.fields?_of_reordered (by simp) hw 5
    have hfield : ∀ x : MetadataField, (Json.str x.name).Reads
        (constant? reading MetadataField.name MetadataField.all) x :=
      fun x => reads_constant (by cases x <;> rfl) reading
    have h0 : f.optional? 0 "title" Json.text? = some p.title :=
      h.optional? (by simp) (.option Reads.text rfl _) 0
    have h1 : f.optional? 1 "cwd" Path.ofJson? = some p.cwd :=
      h.optional? (by simp) (.option? (fun _ _ => Path.reads) rfl hcwd) 1
    have h2 : f.optional? 2 "worktree_id" WorktreeId.ofJson? = some p.worktree :=
      h.optional? (by simp) (.option reads_worktreeId rfl _) 2
    have h3 : f.optional? 3 "group" Json.text? = some p.group :=
      h.optional? (by simp) (.option Reads.text rfl _) 3
    have h4 : f.defaulted? 4 "clear"
        (Json.list? (constant? reading MetadataField.name MetadataField.all)) [] = some p.clear :=
      h.defaulted? (by simp) (.list hfield _) 4 []
    simp only [MetadataPatch.ofJson?, hf, h0, h1, h2, h3, h4, Option.bind_eq_bind, Option.bind_some]

theorem isText_of_ofJson? {reading : Reading} (h : ofJson? reading v = some p) :
    ∀ q ∈ p.cwd, q.isText = true := by
  simp only [ofJson?, Option.bind_eq_bind, Option.bind_eq_some_iff] at h
  obtain ⟨f, -, title, -, cwd, h1, worktree, -, group, -, clear, -, ⟨⟩⟩ := h
  rintro q ⟨⟩
  exact (Fields.of_optional? h1).elim fun _ => Path.isText_of_ofJson?

end MetadataPatch

theorem Source.reads (s : Source) : s.toJson.Reads Source.ofJson? s := by
  cases s with
  | pane id => exact .pair (by decide) rfl fun _ => (reads_paneId id).map Source.pane
  | system s =>
    exact .pair (by decide) rfl fun reading =>
      (reads_constant (by cases s; rfl) reading).map Source.system

theorem Path.isText_of_required? {f : Fields} {position : Nat} {name : String} {p : Path}
    (h : f.required? position name Path.ofJson? = some p) : p.isText = true :=
  (Fields.of_required? h).elim fun _ => isText_of_ofJson?

namespace TerminalEvent

def paths : TerminalEvent → List Path
  | .cwdChanged cwd => [cwd]
  | _ => []

def Fits : TerminalEvent → Prop
  | .inputAccepted bytes => bytes < UInt64.size
  | .outputProgress lines => lines < UInt64.size
  | _ => True

variable {e : TerminalEvent} {v : Json}

theorem isSome_toJson? : e.toJson?.isSome = true ↔ ∀ p ∈ e.paths, p.isText = true := by
  cases e <;> simp [toJson?, paths, isSome_bind_some, Path.isSome_toJson?]

theorem carries (hv : e.toJson? = some v) (he : e.Fits) : v.Carries ofJson? e := by
  cases e with
  | cwdChanged cwd =>
    obtain ⟨s, rfl, ⟨⟩⟩ := Path.bind_toJson?_eq_some.mp hv
    exact carries_one rfl (by decide) rfl (reads_path s)
  | titleChanged title =>
    cases hv
    exact carries_one rfl (by decide) rfl (.text title)
  | inputAccepted bytes =>
    cases hv
    exact carries_one rfl (by decide) rfl (.below he)
  | commandStarted line =>
    cases hv
    exact carries_one rfl (by decide) rfl (.text line)
  | resized cols rows =>
    cases hv
    exact carries_two rfl (by decide) rfl (reads_uint16 cols) (reads_uint16 rows)
  | outputProgress lines =>
    cases hv
    exact carries_one rfl (by decide) rfl (.below he)
  | cleared =>
    cases hv
    exact carries_bare rfl
  | bell =>
    cases hv
    exact carries_bare rfl
  | processExited code =>
    cases hv
    exact carries_one rfl (by decide) rfl (reads_int32 code)

theorem of_ofJson? {reading : Reading} (h : ofJson? reading v = some e) :
    e.Fits ∧ ∀ p ∈ e.paths, p.isText = true := by
  refine of_ofKinds? (P := fun e => e.Fits ∧ ∀ p ∈ e.paths, p.isText = true) h ?_
  simp only [kinds, List.forall_mem_cons, List.not_mem_nil, Option.bind_eq_bind, forall_of_bind,
    Option.some.injEq, forall_eq', Fits, paths, implies_true, false_imp_iff, true_and, and_true]
  exact ⟨fun _ _ h => Path.isText_of_required? h, fun _ _ h => Fields.lt_of_required? h,
    fun _ _ h => Fields.lt_of_required? h⟩

end TerminalEvent

theorem WebEvent.carries (e : WebEvent) : e.toJson.Carries WebEvent.ofJson? e := by
  cases e with
  | navigationStarted url => exact carries_one rfl (by decide) rfl (.text url)
  | navigationCompleted url => exact carries_one rfl (by decide) rfl (.text url)
  | titleChanged title => exact carries_one rfl (by decide) rfl (.text title)
  | loadProgress percent => exact carries_one rfl (by decide) rfl (reads_uint8 percent)
  | historyChanged back forward =>
    exact carries_two rfl (by decide) rfl (.bool back) (.bool forward)

namespace DiffEvent

def paths : DiffEvent → List Path
  | .fileSelected path | .hunkStaged path _ | .hunkUnstaged path _
  | .commentAdded path _ _ => [path]
  | .scrollPositionChanged _ => []

variable {e : DiffEvent} {v : Json}

theorem isSome_toJson? : e.toJson?.isSome = true ↔ ∀ p ∈ e.paths, p.isText = true := by
  cases e <;> simp [toJson?, paths, isSome_bind_some, Path.isSome_toJson?]

theorem carries (hv : e.toJson? = some v) : v.Carries ofJson? e := by
  cases e with
  | fileSelected path =>
    obtain ⟨s, rfl, ⟨⟩⟩ := Path.bind_toJson?_eq_some.mp hv
    exact carries_one rfl (by decide) rfl (reads_path s)
  | hunkStaged path hunk =>
    obtain ⟨s, rfl, ⟨⟩⟩ := Path.bind_toJson?_eq_some.mp hv
    exact carries_two rfl (by decide) rfl (reads_path s) (reads_uint32 hunk)
  | hunkUnstaged path hunk =>
    obtain ⟨s, rfl, ⟨⟩⟩ := Path.bind_toJson?_eq_some.mp hv
    exact carries_two rfl (by decide) rfl (reads_path s) (reads_uint32 hunk)
  | commentAdded path line body =>
    obtain ⟨s, rfl, ⟨⟩⟩ := Path.bind_toJson?_eq_some.mp hv
    exact carries_three rfl (by decide) rfl (reads_path s) (reads_uint32 line) (.text body)
  | scrollPositionChanged line =>
    cases hv
    exact carries_one rfl (by decide) rfl (reads_uint32 line)

theorem isText_of_ofJson? {reading : Reading} (h : ofJson? reading v = some e) :
    ∀ p ∈ e.paths, p.isText = true := by
  refine of_ofKinds? (P := fun e => ∀ p ∈ e.paths, p.isText = true) h ?_
  simp only [kinds, List.forall_mem_cons, List.not_mem_nil, Option.bind_eq_bind, forall_of_bind,
    Option.some.injEq, forall_eq', paths, implies_true, false_imp_iff, and_true]
  exact ⟨fun _ _ h => Path.isText_of_required? h, fun _ _ h _ _ => Path.isText_of_required? h,
    fun _ _ h _ _ => Path.isText_of_required? h, fun _ _ h _ _ _ _ => Path.isText_of_required? h⟩

end DiffEvent

namespace ViewerEvent

def paths : ViewerEvent → List Path
  | .fileOpened path | .fileClosed path => [path]
  | _ => []

variable {e : ViewerEvent} {v : Json}

theorem isSome_toJson? : e.toJson?.isSome = true ↔ ∀ p ∈ e.paths, p.isText = true := by
  cases e <;> simp [toJson?, paths, isSome_bind_some, Path.isSome_toJson?]

theorem carries (hv : e.toJson? = some v) : v.Carries ofJson? e := by
  cases e with
  | fileOpened path =>
    obtain ⟨s, rfl, ⟨⟩⟩ := Path.bind_toJson?_eq_some.mp hv
    exact carries_one rfl (by decide) rfl (reads_path s)
  | fileClosed path =>
    obtain ⟨s, rfl, ⟨⟩⟩ := Path.bind_toJson?_eq_some.mp hv
    exact carries_one rfl (by decide) rfl (reads_path s)
  | cursorMoved line column =>
    cases hv
    exact carries_two rfl (by decide) rfl (reads_uint32 line) (reads_uint32 column)
  | scrollPositionChanged line =>
    cases hv
    exact carries_one rfl (by decide) rfl (reads_uint32 line)

theorem isText_of_ofJson? {reading : Reading} (h : ofJson? reading v = some e) :
    ∀ p ∈ e.paths, p.isText = true := by
  refine of_ofKinds? (P := fun e => ∀ p ∈ e.paths, p.isText = true) h ?_
  simp only [kinds, List.forall_mem_cons, List.not_mem_nil, Option.bind_eq_bind, forall_of_bind,
    Option.some.injEq, forall_eq', paths, implies_true, false_imp_iff, and_true]
  exact ⟨fun _ _ h => Path.isText_of_required? h, fun _ _ h => Path.isText_of_required? h⟩

end ViewerEvent

namespace LifecycleEvent

def paths : LifecycleEvent → List Path
  | .metadataChanged m => m.cwd.toList
  | _ => []

variable {e : LifecycleEvent} {v : Json}

theorem isSome_toJson? : e.toJson?.isSome = true ↔ ∀ p ∈ e.paths, p.isText = true := by
  cases e with
  | metadataChanged m => simpa [toJson?, paths, isSome_bind_some] using m.isSome_toJson?
  | _ => simp [toJson?, paths]

theorem carries (hv : e.toJson? = some v) : v.Carries ofJson? e := by
  cases e with
  | stateChanged source target =>
    cases hv
    exact carries_two rfl (by decide) rfl (reads_state .held source) (reads_state .held target)
  | metadataChanged m =>
    obtain ⟨u, hu, ⟨⟩⟩ := Option.bind_eq_some_iff.mp hv
    refine carries_one rfl (by decide) ?_ (Metadata.reads hu)
    simp [variant, Json.isHoldable, Json.depth?, Json.depthOfMembers?,
      Metadata.depth?_of_toJson? hu, contentRoom, nestingLimit]
  | failed reason =>
    cases hv
    exact carries_one rfl (by decide) rfl (.text reason)

theorem isText_of_ofJson? {reading : Reading} (h : ofJson? reading v = some e) :
    ∀ p ∈ e.paths, p.isText = true := by
  refine of_ofKinds? (P := fun e => ∀ p ∈ e.paths, p.isText = true) h ?_
  simp only [kinds, List.forall_mem_cons, List.not_mem_nil, Option.bind_eq_bind, forall_of_bind,
    Option.some.injEq, forall_eq', paths, implies_true, false_imp_iff, and_true, true_and,
    Option.mem_toList]
  exact fun _ _ h => (Fields.of_required? h).elim fun _ => Metadata.isText_of_ofJson?

end LifecycleEvent

namespace Changeset

structure Fits (cs : Changeset) : Prop where
  timestamp : cs.timestamp < UInt64.size
  batchSeq : cs.batchSeq < UInt64.size
  part : cs.part < UInt32.size
  parts : cs.parts < UInt32.size

variable {cs : Changeset}

theorem isSome_members? : cs.members?.isSome = true ↔ ∀ p ∈ cs.paths, p.isText = true := by
  simp [members?, isSome_bind_some, Json.isSome_ofList?, Path.isSome_toJson?]

theorem carries {ms : List (String × Json)} (hms : cs.members? = some ms) (hcs : cs.Fits) :
    (variant "files_changed" ms).Carries FilesystemEvent.ofJson? (.filesChanged cs) := by
  obtain ⟨paths, hpaths, ⟨⟩⟩ := Option.bind_eq_some_iff.mp hms
  refine carries_variant rfl (by simp) ?_ fun f h => ?_
  · have hdepth := Json.depth?_ofList? (fun _ _ => Path.depth?_of_toJson?) hpaths
    have hworktree : cs.worktree.toJson.depth? = some 0 := rfl
    simp [variant, Json.isHoldable, Json.depth?, Json.depthOfMembers?, hdepth, hworktree, Json.nat,
      contentRoom, nestingLimit]
  have h0 : f.required? 0 "worktree_id" WorktreeId.ofJson? = some cs.worktree :=
    h.required? (by simp) (reads_worktreeId _) 0
  have h1 : f.required? 1 "paths" (Json.list? Path.ofJson?) = some cs.paths :=
    h.required? (by simp) (.list? (fun _ _ => Path.reads) hpaths) 1
  have h2 : f.required? 2 "timestamp_ms" Json.nat64? = some cs.timestamp :=
    h.required? (by simp) (.below hcs.timestamp) 2
  have h3 : f.required? 3 "batch_seq" Json.nat64? = some cs.batchSeq :=
    h.required? (by simp) (.below hcs.batchSeq) 3
  have h4 : f.required? 4 "part" Json.nat32? = some cs.part :=
    h.required? (by simp) (.below hcs.part) 4
  have h5 : f.required? 5 "parts" Json.nat32? = some cs.parts :=
    h.required? (by simp) (.below hcs.parts) 5
  simp only [ofFields?, h0, h1, h2, h3, h4, h5, Option.bind_eq_bind, Option.bind_some,
    Option.map_some]

theorem of_ofFields? {f : Fields} (h : ofFields? f = some cs) :
    cs.Fits ∧ ∀ p ∈ cs.paths, p.isText = true := by
  simp only [ofFields?, Option.bind_eq_bind, Option.bind_eq_some_iff] at h
  obtain ⟨worktree, -, paths, h1, timestamp, h2, batchSeq, h3, part, h4, parts, h5, ⟨⟩⟩ := h
  refine ⟨⟨Fields.lt_of_required? h2, Fields.lt_of_required? h3, Fields.lt_of_required? h4,
    Fields.lt_of_required? h5⟩, fun p hp => ?_⟩
  obtain ⟨v, hv⟩ := Fields.of_required? h1
  exact (Json.of_list? hv p hp).elim fun _ => Path.isText_of_ofJson?

end Changeset

namespace FilesystemEvent

def paths : FilesystemEvent → List Path
  | .filesChanged changes => changes.paths
  | _ => []

def Fits : FilesystemEvent → Prop
  | .filesChanged changes => changes.Fits
  | _ => True

variable {e : FilesystemEvent} {v : Json}

theorem isSome_toJson? : e.toJson?.isSome = true ↔ ∀ p ∈ e.paths, p.isText = true := by
  cases e with
  | filesChanged cs => simpa [toJson?, paths, isSome_bind_some] using cs.isSome_members?
  | _ => simp [toJson?, paths]

theorem carries (hv : e.toJson? = some v) (he : e.Fits) : v.Carries ofJson? e := by
  cases e with
  | filesChanged cs =>
    obtain ⟨ms, hms, ⟨⟩⟩ := Option.bind_eq_some_iff.mp hv
    exact Changeset.carries hms he
  | gitStatusChanged worktree counts =>
    cases hv
    exact carries_two rfl (by decide) rfl (reads_worktreeId worktree) counts.reads
  | branchChanged worktree branch =>
    cases hv
    refine carries_variant rfl (by simp) (by cases branch <;> rfl) fun f hf => ?_
    have h0 : f.required? 0 "worktree_id" WorktreeId.ofJson? = some worktree :=
      hf.required? (by simp) (reads_worktreeId worktree) 0
    have h1 : f.optional? 1 "branch" Json.text? = some branch :=
      hf.optional? (by simp) (.option Reads.text rfl branch) 1
    simp only [h0, h1, Option.bind_eq_bind, Option.bind_some]

theorem of_ofJson? {reading : Reading} (h : ofJson? reading v = some e) :
    e.Fits ∧ ∀ p ∈ e.paths, p.isText = true := by
  refine of_ofKinds? (P := fun e => e.Fits ∧ ∀ p ∈ e.paths, p.isText = true) h ?_
  simp only [kinds, List.forall_mem_cons, List.not_mem_nil, Option.bind_eq_bind,
    Option.map_eq_bind, forall_of_bind, Function.comp_apply, Option.some.injEq, forall_eq', Fits,
    paths, implies_true, false_imp_iff, and_true]
  exact fun _ _ h => Changeset.of_ofFields? h

end FilesystemEvent

namespace Event

def paths : Event → List Path
  | .terminal e => e.paths
  | .web _ => []
  | .diff e => e.paths
  | .viewer e => e.paths
  | .lifecycle e => e.paths
  | .filesystem e => e.paths

def Fits : Event → Prop
  | .terminal e => e.Fits
  | .filesystem e => e.Fits
  | _ => True

variable {e : Event} {v : Json}

theorem isSome_toJson? : e.toJson?.isSome = true ↔ ∀ p ∈ e.paths, p.isText = true := by
  cases e with
  | web e => exact iff_of_true rfl (List.forall_mem_nil _)
  | terminal e => simpa [toJson?, paths] using e.isSome_toJson?
  | diff e => simpa [toJson?, paths] using e.isSome_toJson?
  | viewer e => simpa [toJson?, paths] using e.isSome_toJson?
  | lifecycle e => simpa [toJson?, paths] using e.isSome_toJson?
  | filesystem e => simpa [toJson?, paths] using e.isSome_toJson?

theorem reads (hv : e.toJson? = some v) (he : e.Fits) : v.Reads ofJson? e := by
  cases e with
  | terminal e =>
    obtain ⟨u, hu, rfl⟩ := Option.map_eq_some_iff.mp hv
    obtain ⟨hroom, hread⟩ := TerminalEvent.carries hu he
    exact .pair (by decide) hroom fun reading => (hread reading).map terminal
  | web e =>
    cases hv
    obtain ⟨hroom, hread⟩ := e.carries
    exact .pair (by decide) hroom fun reading => (hread reading).map web
  | diff e =>
    obtain ⟨u, hu, rfl⟩ := Option.map_eq_some_iff.mp hv
    obtain ⟨hroom, hread⟩ := DiffEvent.carries hu
    exact .pair (by decide) hroom fun reading => (hread reading).map diff
  | viewer e =>
    obtain ⟨u, hu, rfl⟩ := Option.map_eq_some_iff.mp hv
    obtain ⟨hroom, hread⟩ := ViewerEvent.carries hu
    exact .pair (by decide) hroom fun reading => (hread reading).map viewer
  | lifecycle e =>
    obtain ⟨u, hu, rfl⟩ := Option.map_eq_some_iff.mp hv
    obtain ⟨hroom, hread⟩ := LifecycleEvent.carries hu
    exact .pair (by decide) hroom fun reading => (hread reading).map lifecycle
  | filesystem e =>
    obtain ⟨u, hu, rfl⟩ := Option.map_eq_some_iff.mp hv
    obtain ⟨hroom, hread⟩ := FilesystemEvent.carries hu he
    exact .pair (by decide) hroom fun reading => (hread reading).map filesystem

theorem of_ofJson? (h : ofJson? v = some e) : e.Fits ∧ ∀ p ∈ e.paths, p.isText = true := by
  simp only [ofJson?, Option.bind_eq_bind, Option.bind_eq_some_iff] at h
  obtain ⟨p, -, h⟩ := h
  split at h
  case h_7 => cases h
  all_goals obtain ⟨e, he, rfl⟩ := Option.map_eq_some_iff.mp h
  case h_1 => exact TerminalEvent.of_ofJson? he
  case h_2 => exact ⟨trivial, List.forall_mem_nil _⟩
  case h_3 => exact ⟨trivial, DiffEvent.isText_of_ofJson? he⟩
  case h_4 => exact ⟨trivial, ViewerEvent.isText_of_ofJson? he⟩
  case h_5 => exact ⟨trivial, LifecycleEvent.isText_of_ofJson? he⟩
  case h_6 => exact FilesystemEvent.of_ofJson? he

end Event

theorem TerminalCommand.carries (c : TerminalCommand) :
    c.toJson.Carries TerminalCommand.ofJson? c := by
  cases c with
  | sendInput text => exact carries_one rfl (by decide) rfl (.text text)
  | resize cols rows =>
    exact carries_two rfl (by decide) rfl (reads_uint16 cols) (reads_uint16 rows)
  | clear => exact carries_bare rfl
  | kill => exact carries_bare rfl

theorem WebCommand.carries (c : WebCommand) : c.toJson.Carries WebCommand.ofJson? c := by
  cases c with
  | navigate url => exact carries_one rfl (by decide) rfl (.text url)
  | reload => exact carries_bare rfl
  | goBack => exact carries_bare rfl
  | goForward => exact carries_bare rfl

namespace DiffCommand

def paths : DiffCommand → List Path
  | .selectFile path | .stageHunk path _ | .unstageHunk path _ | .addComment path _ _ => [path]
  | .scroll _ => []

variable {c : DiffCommand} {v : Json}

theorem isSome_toJson? : c.toJson?.isSome = true ↔ ∀ p ∈ c.paths, p.isText = true := by
  cases c <;> simp [toJson?, paths, isSome_bind_some, Path.isSome_toJson?]

theorem carries (hv : c.toJson? = some v) : v.Carries ofJson? c := by
  cases c with
  | selectFile path =>
    obtain ⟨s, rfl, ⟨⟩⟩ := Path.bind_toJson?_eq_some.mp hv
    exact carries_one rfl (by decide) rfl (reads_path s)
  | stageHunk path hunk =>
    obtain ⟨s, rfl, ⟨⟩⟩ := Path.bind_toJson?_eq_some.mp hv
    exact carries_two rfl (by decide) rfl (reads_path s) (reads_uint32 hunk)
  | unstageHunk path hunk =>
    obtain ⟨s, rfl, ⟨⟩⟩ := Path.bind_toJson?_eq_some.mp hv
    exact carries_two rfl (by decide) rfl (reads_path s) (reads_uint32 hunk)
  | addComment path line body =>
    obtain ⟨s, rfl, ⟨⟩⟩ := Path.bind_toJson?_eq_some.mp hv
    exact carries_three rfl (by decide) rfl (reads_path s) (reads_uint32 line) (.text body)
  | scroll line =>
    cases hv
    exact carries_one rfl (by decide) rfl (reads_uint32 line)

theorem isText_of_ofJson? {reading : Reading} (h : ofJson? reading v = some c) :
    ∀ p ∈ c.paths, p.isText = true := by
  refine of_ofKinds? (P := fun c => ∀ p ∈ c.paths, p.isText = true) h ?_
  simp only [kinds, List.forall_mem_cons, List.not_mem_nil, Option.bind_eq_bind, forall_of_bind,
    Option.some.injEq, forall_eq', paths, implies_true, false_imp_iff, and_true]
  exact ⟨fun _ _ h => Path.isText_of_required? h, fun _ _ h _ _ => Path.isText_of_required? h,
    fun _ _ h _ _ => Path.isText_of_required? h, fun _ _ h _ _ _ _ => Path.isText_of_required? h⟩

end DiffCommand

namespace ViewerCommand

def paths : ViewerCommand → List Path
  | .openFile path => [path]
  | _ => []

variable {c : ViewerCommand} {v : Json}

theorem isSome_toJson? : c.toJson?.isSome = true ↔ ∀ p ∈ c.paths, p.isText = true := by
  cases c <;> simp [toJson?, paths, isSome_bind_some, Path.isSome_toJson?]

theorem carries (hv : c.toJson? = some v) : v.Carries ofJson? c := by
  cases c with
  | openFile path =>
    obtain ⟨s, rfl, ⟨⟩⟩ := Path.bind_toJson?_eq_some.mp hv
    exact carries_one rfl (by decide) rfl (reads_path s)
  | goToLine line column =>
    cases hv
    exact carries_two rfl (by decide) rfl (reads_uint32 line) (reads_uint32 column)
  | closeFile =>
    cases hv
    exact carries_bare rfl
  | scroll line =>
    cases hv
    exact carries_one rfl (by decide) rfl (reads_uint32 line)

theorem isText_of_ofJson? {reading : Reading} (h : ofJson? reading v = some c) :
    ∀ p ∈ c.paths, p.isText = true := by
  refine of_ofKinds? (P := fun c => ∀ p ∈ c.paths, p.isText = true) h ?_
  simp only [kinds, List.forall_mem_cons, List.not_mem_nil, Option.bind_eq_bind, forall_of_bind,
    Option.some.injEq, forall_eq', paths, implies_true, false_imp_iff, and_true]
  exact fun _ _ h => Path.isText_of_required? h

end ViewerCommand

namespace Command

def paths : Command → List Path
  | .diff c => c.paths
  | .viewer c => c.paths
  | .updateMetadata p => p.cwd.toList
  | _ => []

variable {c : Command} {v : Json}

theorem isSome_toJson? : c.toJson?.isSome = true ↔ ∀ p ∈ c.paths, p.isText = true := by
  cases c with
  | terminal c => exact iff_of_true rfl (List.forall_mem_nil _)
  | web c => exact iff_of_true rfl (List.forall_mem_nil _)
  | diff c => simpa [toJson?, paths] using c.isSome_toJson?
  | viewer c => simpa [toJson?, paths] using c.isSome_toJson?
  | updateMetadata p => simpa [toJson?, paths] using p.isSome_toJson?

theorem reads (hv : c.toJson? = some v) : v.Reads ofJson? c := by
  cases c with
  | terminal c =>
    cases hv
    obtain ⟨hroom, hread⟩ := c.carries
    exact .pair (by decide) hroom fun reading => (hread reading).map terminal
  | web c =>
    cases hv
    obtain ⟨hroom, hread⟩ := c.carries
    exact .pair (by decide) hroom fun reading => (hread reading).map web
  | diff c =>
    obtain ⟨u, hu, rfl⟩ := Option.map_eq_some_iff.mp hv
    obtain ⟨hroom, hread⟩ := DiffCommand.carries hu
    exact .pair (by decide) hroom fun reading => (hread reading).map diff
  | viewer c =>
    obtain ⟨u, hu, rfl⟩ := Option.map_eq_some_iff.mp hv
    obtain ⟨hroom, hread⟩ := ViewerCommand.carries hu
    exact .pair (by decide) hroom fun reading => (hread reading).map viewer
  | updateMetadata p =>
    obtain ⟨u, hu, rfl⟩ := Option.map_eq_some_iff.mp hv
    obtain ⟨hroom, hread⟩ := MetadataPatch.carries hu
    exact .pair (by decide) hroom fun reading => (hread reading).map updateMetadata

theorem isText_of_ofJson? (h : ofJson? v = some c) : ∀ p ∈ c.paths, p.isText = true := by
  simp only [ofJson?, Option.bind_eq_bind, Option.bind_eq_some_iff] at h
  obtain ⟨p, -, h⟩ := h
  split at h
  case h_6 => cases h
  all_goals obtain ⟨c, hc, rfl⟩ := Option.map_eq_some_iff.mp h
  case h_1 => exact List.forall_mem_nil _
  case h_2 => exact List.forall_mem_nil _
  case h_3 => exact DiffCommand.isText_of_ofJson? hc
  case h_4 => exact ViewerCommand.isText_of_ofJson? hc
  case h_5 => simpa [paths] using MetadataPatch.isText_of_ofJson? hc

end Command

end Switchboard
