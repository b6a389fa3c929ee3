import Mathlib.Data.List.Chain
import Switchboard.Proofs.Pane.Commands

/-!
# What the events of a review and of a viewer say

Whoever only hears the events of a diff review or of a code viewer knows its state. A hunk is
staged and unstaged in turns, however its path is spelled, and it is staged now if the last of these
events staged it. A viewer opens and closes files in turns, closes the one that it opened last, and
moves in no other.
-/
namespace Switchboard

inductive Switch (α : Type) where
  | on (a : α)
  | off (a : α)
  deriving DecidableEq

namespace Switch

variable {α : Type} {a : α} {switches : List (Switch α)}

def isOn : Switch α → Bool
  | .on _ => true
  | .off _ => false

def subject : Switch α → α
  | .on a => a
  | .off a => a

/-- Taking up and putting down take turns, and taking up comes first. -/
structure TakeTurns (switches : List (Switch α)) : Prop where
  first : ∀ s ∈ switches.head?, s.isOn = true
  next : switches.IsChain fun s t => s.isOn ≠ t.isOn

theorem takeTurns_nil : TakeTurns ([] : List (Switch α)) := ⟨nofun, .nil⟩

namespace TakeTurns

theorem append_on (h : TakeTurns switches) (hlast : ∀ b, switches.getLast? ≠ some (.on b)) :
    TakeTurns (switches ++ [.on a]) where
  first := by
    cases switches with
    | nil => simp [isOn]
    | cons s rest => exact h.first
  next := by
    refine h.next.append (.singleton _) ?_
    rintro (b | b) hb _ ⟨⟩
    · exact absurd hb (hlast b)
    · exact Bool.false_ne_true

theorem append_off {b : α} (h : TakeTurns switches) (hlast : switches.getLast? = some (.on b)) :
    TakeTurns (switches ++ [.off a]) where
  first := by
    cases switches with
    | nil => cases hlast
    | cons s rest => exact h.first
  next := by
    refine h.next.append (.singleton _) ?_
    intro s hs _ ht
    cases Option.some.inj (hs.symm.trans hlast)
    cases ht
    exact Bool.false_ne_true.symm

end TakeTurns

end Switch

def Reaction.told {σ ε : Type} (r : Reaction σ ε) : List ε :=
  match r.2 with
  | .ok events => events
  | .error _ => []

def DiffEvent.staging? : DiffEvent → Option (Switch (Path × UInt32))
  | .hunkStaged path hunk => some (.on (path, hunk))
  | .hunkUnstaged path hunk => some (.off (path, hunk))
  | _ => none

namespace Diff

open Switch

variable {d : Diff} {a b c hunk : Path × UInt32} {events more : List DiffEvent}

theorem sameHunk_iff : sameHunk a b = true ↔ a.1.components = b.1.components ∧ a.2 = b.2 := by
  rw [sameHunk, Bool.and_eq_true, Path.same_iff, beq_iff_eq]

theorem sameHunk_refl (a : Path × UInt32) : sameHunk a a = true := sameHunk_iff.mpr ⟨rfl, rfl⟩

theorem sameHunk_symm (h : sameHunk a b = true) : sameHunk b a = true := by
  rw [sameHunk_iff] at h ⊢
  exact ⟨h.1.symm, h.2.symm⟩

theorem sameHunk_congr (h : sameHunk a b = true) (c : Path × UInt32) :
    sameHunk a c = sameHunk b c := by
  rw [sameHunk_iff] at h
  rw [Bool.eq_iff_iff, sameHunk_iff, sameHunk_iff, h.1, h.2]

/-- How a hunk was staged and unstaged, under any spelling of its path. -/
def stagings (hunk : Path × UInt32) (events : List DiffEvent) : List (Switch (Path × UInt32)) :=
  (events.filterMap DiffEvent.staging?).filter (sameHunk hunk ·.subject)

theorem stagings_append (hunk : Path × UInt32) (events more : List DiffEvent) :
    stagings hunk (events ++ more) = stagings hunk events ++ stagings hunk more := by
  rw [stagings, List.filterMap_append, List.filter_append]
  rfl

theorem stagings_of_plain (h : ∀ e ∈ events, e.staging? = none) : stagings hunk events = [] := by
  rw [stagings, List.filterMap_eq_nil_iff.mpr h]
  rfl

theorem stagings_same {e : DiffEvent} {s : Switch (Path × UInt32)} (he : e.staging? = some s)
    (h : sameHunk hunk s.subject = true) : stagings hunk [e] = [s] := by
  simp [stagings, he, h]

theorem stagings_other {e : DiffEvent} {s : Switch (Path × UInt32)} (he : e.staging? = some s)
    (h : sameHunk hunk s.subject = false) : stagings hunk [e] = [] := by
  simp [stagings, he, h]

theorem stagings_congr (h : sameHunk a b = true) (events : List DiffEvent) :
    stagings a events = stagings b events :=
  List.filter_congr fun _ _ => sameHunk_congr h _

theorem sameHunk_of_last (h : (stagings a events).getLast? = some (.on b)) :
    sameHunk a b = true := (List.mem_filter.mp (List.mem_of_getLast? h)).2

structure Told (d : Diff) (events : List DiffEvent) : Prop where
  nodup : d.staged.Nodup
  turns : ∀ hunk, TakeTurns (stagings hunk events)
  staged : ∀ hunk, hunk ∈ d.staged ↔ (stagings hunk events).getLast? = some (.on hunk)

theorem apply_cases (d : Diff) (command : DiffCommand) :
    ((d.apply command).1.staged = d.staged ∧
      ∀ e ∈ (d.apply command).told, e.staging? = none) ∨
    (∃ hunk, d.staged.any (sameHunk hunk) = false ∧
      (d.apply command).1.staged = hunk :: d.staged ∧
      (d.apply command).told = [.hunkStaged hunk.1 hunk.2]) ∨
    ∃ hunk, d.staged.any (sameHunk hunk) = true ∧
      (d.apply command).1.staged = d.staged.filter (!sameHunk hunk ·) ∧
      (d.apply command).told = [.hunkUnstaged hunk.1 hunk.2] := by
  cases command with
  | selectFile path =>
    left
    simp only [apply]
    split <;> simp [Reaction.told, DiffEvent.staging?]
  | stageHunk path hunk =>
    simp only [apply]
    split
    · left
      simp [Reaction.told]
    · cases hnew : d.staged.any (sameHunk (path, hunk)) with
      | true =>
        left
        simp [insertHunk, hnew, Reaction.told]
      | false =>
        right; left
        exact ⟨(path, hunk), hnew, by simp [insertHunk, hnew, Reaction.told]⟩
  | unstageHunk path hunk =>
    cases hthere : d.staged.any (sameHunk (path, hunk)) with
    | true =>
      right; right
      exact ⟨(path, hunk), hthere, rfl, by simp [apply, removeHunk, hthere, Reaction.told]⟩
    | false =>
      left
      refine ⟨removeHunk_of_absent hthere, ?_⟩
      simp [apply, removeHunk, hthere, Reaction.told]
  | addComment path line body =>
    left
    simp only [apply]
    split
    · simp [Reaction.told]
    · split <;> simp [Reaction.told, DiffEvent.staging?]
  | scroll line =>
    left
    simp [apply, Reaction.told, DiffEvent.staging?]

namespace Told

theorem any_iff (h : d.Told events) (hunk : Path × UInt32) :
    d.staged.any (sameHunk hunk) = true ↔
      ∃ other, (stagings hunk events).getLast? = some (.on other) := by
  rw [List.any_eq_true]
  constructor
  · rintro ⟨other, hmem, hsame⟩
    refine ⟨other, ?_⟩
    rw [stagings_congr hsame]
    exact (h.staged other).mp hmem
  · rintro ⟨other, hlast⟩
    have hsame := sameHunk_of_last hlast
    refine ⟨other, (h.staged other).mpr ?_, hsame⟩
    rwa [← stagings_congr hsame]

theorem pairwise (h : d.Told events) :
    d.staged.Pairwise fun a b => sameHunk a b = false := by
  refine h.nodup.imp_of_mem fun {a b} ha hb hne => Bool.eq_false_iff.mpr fun hsame => hne ?_
  have hlast := (h.staged a).mp ha
  rw [stagings_congr hsame, (h.staged b).mp hb] at hlast
  exact (Switch.on.inj (Option.some.inj hlast)).symm

theorem plain {d' : Diff} (h : d.Told events) (hd : d'.staged = d.staged)
    (hmore : ∀ e ∈ more, e.staging? = none) : d'.Told (events ++ more) := by
  have hsame : ∀ hunk, stagings hunk (events ++ more) = stagings hunk events := by
    intro hunk
    rw [stagings_append, stagings_of_plain hmore, List.append_nil]
  refine ⟨hd ▸ h.nodup, fun hunk => ?_, fun hunk => ?_⟩
  · rw [hsame]
    exact h.turns hunk
  · rw [hsame, hd]
    exact h.staged hunk

theorem stage {d' : Diff} (h : d.Told events) (hnew : d.staged.any (sameHunk hunk) = false)
    (hd : d'.staged = hunk :: d.staged) : d'.Told (events ++ [.hunkStaged hunk.1 hunk.2]) := by
  have hout : ∀ other, sameHunk other hunk = true → other ∉ d.staged := by
    intro other hsame hmem
    exact List.any_eq_false.mp hnew other hmem (sameHunk_symm hsame)
  have hturn : (DiffEvent.hunkStaged hunk.1 hunk.2).staging? = some (.on hunk) := rfl
  refine ⟨?_, fun other => ?_, fun other => ?_⟩
  · rw [hd]
    exact List.nodup_cons.mpr ⟨hout hunk (sameHunk_refl hunk), h.nodup⟩
  · rw [stagings_append]
    -- The new event is one of another spelling of the hunk, too, and of no other hunk.
    cases hsame : sameHunk other hunk with
    | true =>
      rw [stagings_same hturn hsame]
      refine (h.turns other).append_on fun b hb => ?_
      have hany := (h.any_iff other).mpr ⟨b, hb⟩
      rw [funext (sameHunk_congr hsame), hnew] at hany
      cases hany
    | false =>
      rw [stagings_other hturn hsame, List.append_nil]
      exact h.turns other
  · rw [stagings_append, hd, List.mem_cons]
    cases hsame : sameHunk other hunk with
    | true =>
      rw [stagings_same hturn hsame, List.getLast?_concat]
      simp [hout other hsame, eq_comm]
    | false =>
      have hne : other ≠ hunk := by
        rintro rfl
        rw [sameHunk_refl] at hsame
        cases hsame
      rw [stagings_other hturn hsame, List.append_nil, or_iff_right hne]
      exact h.staged other

theorem unstage {d' : Diff} (h : d.Told events) (hthere : d.staged.any (sameHunk hunk) = true)
    (hd : d'.staged = d.staged.filter (!sameHunk hunk ·)) :
    d'.Told (events ++ [.hunkUnstaged hunk.1 hunk.2]) := by
  have hturn : (DiffEvent.hunkUnstaged hunk.1 hunk.2).staging? = some (.off hunk) := rfl
  refine ⟨?_, fun other => ?_, fun other => ?_⟩
  · rw [hd]
    exact h.nodup.filter _
  · rw [stagings_append]
    cases hsame : sameHunk other hunk with
    | true =>
      rw [stagings_same hturn hsame]
      obtain ⟨b, hb⟩ := (h.any_iff hunk).mp hthere
      rw [← stagings_congr hsame] at hb
      exact (h.turns other).append_off hb
    | false =>
      rw [stagings_other hturn hsame, List.append_nil]
      exact h.turns other
  · rw [stagings_append, hd, List.mem_filter]
    cases hsame : sameHunk other hunk with
    | true =>
      -- Every spelling goes, and none is named last as one that was staged.
      rw [stagings_same hturn hsame, List.getLast?_concat, sameHunk_symm hsame]
      simp
    | false =>
      have hother : sameHunk hunk other = false :=
        Bool.eq_false_iff.mpr fun hs => Bool.eq_false_iff.mp hsame (sameHunk_symm hs)
      rw [stagings_other hturn hsame, List.append_nil, hother]
      simpa using h.staged other

theorem apply (h : d.Told events) (command : DiffCommand) :
    (d.apply command).1.Told (events ++ (d.apply command).told) := by
  rcases d.apply_cases command with ⟨hd, hplain⟩ | ⟨hunk, hnew, hd, he⟩ | ⟨hunk, hthere, hd, he⟩
  · exact h.plain hd hplain
  · rw [he]
    exact h.stage hnew hd
  · rw [he]
    exact h.unstage hthere hd

end Told

end Diff

def ViewerEvent.opening? : ViewerEvent → Option (Switch Path)
  | .fileOpened path => some (.on path)
  | .fileClosed path => some (.off path)
  | _ => none

def ViewerEvent.isMove : ViewerEvent → Bool
  | .cursorMoved _ _ => true
  | .scrollPositionChanged _ => true
  | _ => false

namespace Viewer

open Switch

variable {v : Viewer} {file : Option Path} {path : Path} {events : List ViewerEvent}

/-- The files that were opened and closed. -/
def openings (events : List ViewerEvent) : List (Switch Path) :=
  events.filterMap ViewerEvent.opening?

inductive Told : List ViewerEvent → Option Path → Prop where
  | nothing : Told [] none
  | opened {events : List ViewerEvent} (path : Path) (h : Told events none) :
      Told (events ++ [.fileOpened path]) (some path)
  | closed {events : List ViewerEvent} {path : Path} (h : Told events (some path)) :
      Told (events ++ [.fileClosed path]) none
  | moved {events : List ViewerEvent} {path : Path} (e : ViewerEvent) (he : e.isMove = true)
      (h : Told events (some path)) : Told (events ++ [e]) (some path)

theorem openings_append (events more : List ViewerEvent) :
    openings (events ++ more) = openings events ++ openings more := List.filterMap_append

theorem openings_fileOpened (path : Path) : openings [.fileOpened path] = [.on path] := rfl

theorem openings_fileClosed (path : Path) : openings [.fileClosed path] = [.off path] := rfl

theorem openings_of_isMove {e : ViewerEvent} (he : e.isMove = true) : openings [e] = [] := by
  cases e with
  | fileOpened path => cases he
  | fileClosed path => cases he
  | cursorMoved line column => rfl
  | scrollPositionChanged line => rfl

namespace Told

theorem apply (h : Told events v.file) (command : ViewerCommand) :
    Told (events ++ (v.apply command).told) (v.apply command).1.file := by
  have hrefused : Told (events ++ []) v.file := by
    rw [List.append_nil]
    exact h
  have hmove : ∀ {path : Path}, v.file = some path → ∀ e : ViewerEvent, e.isMove = true →
      Told (events ++ [e]) v.file := by
    intro path hf e he
    rw [hf] at h ⊢
    exact h.moved e he
  cases command with
  | openFile path =>
    simp only [Viewer.apply]
    split
    · exact hrefused
    · cases hf : v.file with
      | none =>
        rw [hf] at h
        exact h.opened path
      | some previous =>
        -- Two events are told at once: the file that was open is closed first.
        rw [hf] at h
        have hnext := h.closed.opened path
        rw [List.append_assoc] at hnext
        exact hnext
  | goToLine line column =>
    simp only [Viewer.apply]
    split
    · exact hrefused
    next path hf =>
      split
      · exact hrefused
      · exact hmove hf (.cursorMoved line column) rfl
  | closeFile =>
    simp only [Viewer.apply]
    split
    · exact hrefused
    next path hf =>
      rw [hf] at h
      exact h.closed
  | scroll line =>
    simp only [Viewer.apply]
    split
    · exact hrefused
    next path hf => exact hmove hf (.scrollPositionChanged line) rfl

theorem file_iff (h : Told events file) (path : Path) :
    file = some path ↔ (openings events).getLast? = some (.on path) := by
  induction h with
  | nothing => simp [openings]
  | opened other h ih => simp [openings_append, openings_fileOpened]
  | closed h ih => simp [openings_append, openings_fileClosed]
  | moved e he h ih =>
    rw [openings_append, openings_of_isMove he, List.append_nil]
    exact ih

theorem turns (h : Told events file) : TakeTurns (openings events) := by
  induction h with
  | nothing => exact takeTurns_nil
  | opened path h ih =>
    rw [openings_append, openings_fileOpened]
    exact ih.append_on fun other hlast => nomatch (h.file_iff other).mpr hlast
  | closed h ih =>
    rw [openings_append, openings_fileClosed]
    exact ih.append_off ((h.file_iff _).mp rfl)
  | moved e he h ih =>
    rw [openings_append, openings_of_isMove he, List.append_nil]
    exact ih

theorem before (h : Told events file) {front : List ViewerEvent} {e : ViewerEvent}
    (hp : front ++ [e] <+: events) :
    (∀ path, e = .fileClosed path → (openings front).getLast? = some (.on path)) ∧
      (e.isMove = true → ∃ path, (openings front).getLast? = some (.on path)) := by
  induction h with
  | nothing => simp at hp
  | opened other h ih =>
    rcases List.prefix_concat_iff.mp hp with hlast | hp
    · obtain ⟨rfl, rfl⟩ := List.append_singleton_inj.mp hlast
      exact ⟨nofun, nofun⟩
    · exact ih hp
  | closed h ih =>
    rcases List.prefix_concat_iff.mp hp with hlast | hp
    · obtain ⟨rfl, rfl⟩ := List.append_singleton_inj.mp hlast
      refine ⟨?_, nofun⟩
      rintro _ ⟨⟩
      exact (h.file_iff _).mp rfl
    · exact ih hp
  | @moved events path move he h ih =>
    rcases List.prefix_concat_iff.mp hp with hlast | hp
    · obtain ⟨rfl, rfl⟩ := List.append_singleton_inj.mp hlast
      refine ⟨?_, fun _ => ⟨path, (h.file_iff path).mp rfl⟩⟩
      rintro other rfl
      cases he
    · exact ih hp

end Told

end Viewer

namespace Backend

def applyAll (b : Backend) : List Command → Backend × List Event
  | [] => (b, [])
  | command :: rest =>
    let later := (b.apply command).1.applyAll rest
    (later.1, (b.apply command).told ++ later.2)

theorem told_reply {σ ε : Type} (wrap : σ → Backend) (event : ε → Event) (r : Reaction σ ε) :
    (reply wrap event r).told = r.told.map event := by
  rcases r with ⟨_, _ | events⟩ <;> rfl

section

variable {σ γ ε : Type} {wrap : σ → Backend} {event : ε → Event} {react : σ → γ → Reaction σ ε}

def IsKind (wrap : σ → Backend) (event : ε → Event) (react : σ → γ → Reaction σ ε) : Prop :=
  ∀ s command, (∃ c, (wrap s).apply command = reply wrap event (react s c)) ∨
    ∃ e, (wrap s).apply command = (wrap s, .error e)

theorem IsKind.applyAll (hkind : IsKind wrap event react) (Inv : σ → List ε → Prop)
    (hstep : ∀ s events c, Inv s events → Inv (react s c).1 (events ++ (react s c).told))
    {s : σ} {events : List ε} (h : Inv s events) (commands : List Command) :
    ∃ s' more, (wrap s).applyAll commands = (wrap s', more.map event) ∧
      Inv s' (events ++ more) := by
  induction commands generalizing s events with
  | nil =>
    refine ⟨s, [], rfl, ?_⟩
    rwa [List.append_nil]
  | cons command rest ih =>
    rcases hkind s command with ⟨c, hc⟩ | ⟨e, hc⟩
    · obtain ⟨s', more, hrun, hinv⟩ := ih (hstep s events c h)
      refine ⟨s', (react s c).told ++ more, ?_, ?_⟩
      · have hnext : ((wrap s).apply command).1.applyAll rest = (wrap s', more.map event) := by
          rw [hc]
          exact hrun
        rw [Backend.applyAll, hnext, hc, told_reply, List.map_append]
      · rwa [← List.append_assoc]
    · obtain ⟨s', more, hrun, hinv⟩ := ih h
      refine ⟨s', more, ?_, hinv⟩
      rw [Backend.applyAll, hc, hrun]
      rfl

theorem isKind_diff : IsKind .diff .diff Diff.apply := by
  intro d command
  cases command with
  | diff c => exact .inl ⟨c, rfl⟩
  | _ => exact .inr ⟨_, rfl⟩

theorem isKind_viewer : IsKind .viewer .viewer Viewer.apply := by
  intro v command
  cases command with
  | viewer c => exact .inl ⟨c, rfl⟩
  | _ => exact .inr ⟨_, rfl⟩

end

/-- What a new review and a new viewer tell while they are given any commands. In a review the
events of each hunk stage and unstage it in turns, under whatever spellings of its path; the hunks
that are staged are those whose last event staged them, each under the spelling it has there. In a
viewer files are opened and closed in turns, each is closed under the name that was opened last,
nothing moves but in a file that is open, and the file that is open is the last one opened and not
closed since. -/
theorem events_tell_the_state (pane : PaneId) (isOpen : Bool) (commands : List Command) :
    (∃ (d : Diff) (events : List DiffEvent),
      (Backend.diff { Diff.create pane with isOpen }).applyAll commands =
        (.diff d, events.map .diff) ∧
      d.staged.Pairwise (fun a b => Diff.sameHunk a b = false) ∧
      ∀ hunk, let stagings := Diff.stagings hunk events
        Switch.TakeTurns stagings ∧
        (hunk ∈ d.staged ↔ stagings.getLast? = some (.on hunk)) ∧
        (d.staged.any (Diff.sameHunk hunk) = true ↔
          ∃ other, stagings.getLast? = some (.on other))) ∧
    ∃ (v : Viewer) (events : List ViewerEvent),
      (Backend.viewer { Viewer.create pane with isOpen }).applyAll commands =
        (.viewer v, events.map .viewer) ∧
      Switch.TakeTurns (Viewer.openings events) ∧
      (∀ front path, front ++ [.fileClosed path] <+: events →
        (Viewer.openings front).getLast? = some (.on path)) ∧
      (∀ front e, front ++ [e] <+: events → e.isMove = true →
        ∃ path, (Viewer.openings front).getLast? = some (.on path)) ∧
      ∀ path, v.file = some path ↔
        (Viewer.openings events).getLast? = some (.on path) := by
  constructor
  · have hnew : Diff.Told { Diff.create pane with isOpen } [] :=
      ⟨.nil, fun _ => Switch.takeTurns_nil, fun _ => ⟨nofun, nofun⟩⟩
    obtain ⟨d, events, hrun, htold⟩ :=
      isKind_diff.applyAll Diff.Told (fun _ _ c h => h.apply c) hnew commands
    exact ⟨d, events, hrun, htold.pairwise, fun hunk =>
      ⟨htold.turns hunk, htold.staged hunk, htold.any_iff hunk⟩⟩
  · have hnew : Viewer.Told [] { Viewer.create pane with isOpen }.file := .nothing
    obtain ⟨v, events, hrun, htold⟩ := isKind_viewer.applyAll
      (fun v events => Viewer.Told events v.file) (fun _ _ c h => h.apply c) hnew commands
    exact ⟨v, events, hrun, htold.turns, fun front path hp => (htold.before hp).1 path rfl,
      fun front e hp => (htold.before hp).2, htold.file_iff⟩

example :
    (Backend.diff (.create ⟨"d"⟩)).applyAll [.diff (.stageHunk ⟨"a/b"⟩ 1), .web .reload,
      .diff (.stageHunk ⟨"a//b"⟩ 1), .diff (.unstageHunk ⟨"a/./b"⟩ 1)] =
    (.diff (.create ⟨"d"⟩),
      [.diff (.hunkStaged ⟨"a/b"⟩ 1), .diff (.hunkUnstaged ⟨"a/./b"⟩ 1)]) := by
  rfl

end Backend

end Switchboard
