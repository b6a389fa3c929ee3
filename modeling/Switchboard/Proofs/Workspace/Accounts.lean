import Mathlib.Logic.Function.Basic
import Switchboard.Proofs.Roots.Ownership
import Switchboard.Registry

/-!
# The books of a workspace

Several parts of a workspace keep account of the same things: which run is registered under an id,
which worktree a pane is bound to, how active the roots are and which of them goes first. The books
are these accounts and nothing else, with the entries that the operations make in them. They agree
as long as every entry is made in all of them.
-/
namespace Switchboard

namespace RootTable

def retier (t : RootTable) (w : WorktreeId) (tier : ActivityTier) : RootTable :=
  match t.setTier w tier with
  | .ok t => t
  | .error _ => t

variable {t : RootTable}

theorem get?_retier (t : RootTable) (w : WorktreeId) (tier : ActivityTier) (u : WorktreeId) :
    (t.retier w tier).get? u = (t.get? u).map fun r => if w = u then { r with tier } else r := by
  simp only [retier, setTier]
  cases hr : t.get? w with
  | none =>
    by_cases hu : w = u
    · rw [← hu, hr]
      rfl
    · simp only [if_neg hu, Option.map_id']
  | some r =>
    simp only [get?, Table.get?_set]
    by_cases hu : w = u
    · rw [if_pos hu, ← hu]
      show _ = (t.get? w).map _
      rw [hr, Option.map_some, if_pos rfl]
    · simp only [if_neg hu, Option.map_id']

theorem Sound.retier (h : t.Sound) (w : WorktreeId) (tier : ActivityTier) :
    (t.retier w tier).Sound := by
  simp only [RootTable.retier]
  cases ht : t.setTier w tier with
  | ok t' => exact h.setTier ht
  | error e => exact h

end RootTable

structure Books where
  entries : Table PaneId RunId
  runs : List Pane
  bindings : Table PaneId WorktreeId
  /-- The bindings that the notifier will know of when it has looked at all it was told. -/
  known : Table PaneId WorktreeId
  seen : PaneId → Option WorktreeId
  roots : RootTable
  focus : Option PaneId
  first : Option WorktreeId

namespace Books

variable {b : Books}

def find? (b : Books) (pane : PaneId) : Option RunId := Table.get? b.entries pane

def run? (b : Books) (run : RunId) : Option Pane := b.runs[run.index]?

def bound? (b : Books) (pane : PaneId) : Option WorktreeId := Table.get? b.bindings pane

def enter (b : Books) (p : Pane) : Books :=
  { b with entries := Table.set b.entries p.id ⟨b.runs.length⟩, runs := b.runs ++ [p] }

def advance (b : Books) (run : RunId) (p : Pane) : Books :=
  { b with runs := b.runs.set run.index p }

def leave (b : Books) (pane : PaneId) (run : RunId) (p : Pane) : Books :=
  { b with entries := Table.erase b.entries pane, runs := b.runs.set run.index p }

def tierFor (b : Books) (w : WorktreeId) : ActivityTier :=
  if b.bindings.any (·.2 = w) then .activeInApp else .sidebarOnly

def refresh (b : Books) (w : WorktreeId) : Books :=
  { b with roots := b.roots.retier w (b.tierFor w) }

def noteBinding (b : Books) (pane : PaneId) (w : WorktreeId) : Books :=
  { b with
    bindings := Table.set b.bindings pane w
    known := Table.set b.known pane w
    seen := Function.update b.seen pane (some w) }

def noteRelease (b : Books) (pane : PaneId) : Books :=
  { b with
    bindings := Table.erase b.bindings pane
    known := Table.erase b.known pane
    seen := Function.update b.seen pane none }

def bind (b : Books) (pane : PaneId) (w : WorktreeId) : Books :=
  let noted := b.noteBinding pane w
  let noted := match b.bound? pane with
    | some old => if old = w then noted else noted.refresh old
    | none => noted
  noted.refresh w

def unbind (b : Books) (pane : PaneId) : Books :=
  match b.bound? pane with
  | some w => (b.noteRelease pane).refresh w
  | none => b.noteRelease pane

def follow (b : Books) (pane : PaneId) : Option (Option WorktreeId) → Books
  | none => b
  | some none => b.unbind pane
  | some (some w) => b.bind pane w

def joined (b : Books) : Option WorktreeId := b.focus.bind b.bound?

def sync (b : Books) : Books := { b with first := b.joined }

def enrol (b : Books) (roots : RootTable) : Books := { b with roots }

def expel (b : Books) (w : WorktreeId) (roots : RootTable) : Books :=
  { b with roots, first := if b.first = some w then none else b.first }

theorem find?_enter (b : Books) (p : Pane) (pane : PaneId) :
    (b.enter p).find? pane = if p.id = pane then some ⟨b.runs.length⟩ else b.find? pane :=
  Table.get?_set _ _ _ _

theorem find?_leave (b : Books) (pane : PaneId) (run : RunId) (p : Pane) (other : PaneId) :
    (b.leave pane run p).find? other = if pane = other then none else b.find? other :=
  Table.get?_erase _ _ _

theorem run?_enter (b : Books) (p : Pane) (run : RunId) :
    (b.enter p).run? run = if run.index = b.runs.length then some p else b.run? run := by
  simp only [run?, enter]
  by_cases hr : run.index = b.runs.length
  · rw [if_pos hr, hr]
    exact List.getElem?_concat_length
  · rw [if_neg hr]
    rcases Nat.lt_or_gt_of_ne hr with hlt | hgt
    · exact List.getElem?_append_left hlt
    · rw [List.getElem?_eq_none (by simp; omega), List.getElem?_eq_none (by omega)]

theorem run?_set {runs : List Pane} {run other : RunId} {p : Pane}
    (h : runs[run.index]? = some p) (p' : Pane) :
    (runs.set run.index p')[other.index]? =
      if run = other then some p' else runs[other.index]? := by
  by_cases hr : run = other
  · subst hr
    rw [if_pos rfl, List.getElem?_set_self (List.getElem?_eq_some_iff.mp h).1]
  · have hne : run.index ≠ other.index := fun e => hr (by cases run; cases other; cases e; rfl)
    rw [if_neg hr, List.getElem?_set_ne hne]

def Serves (state : LifecycleState) (pane : PaneId) (p : Pane) : Prop :=
  p.id = pane ∧ p.released = false ∧ p.state = state

/-- Every registered run is ready, but for a young one, which was just created; a run that is not
registered has come to its end. -/
structure Staffed (young : Option RunId) (b : Books) : Prop where
  here : ∀ pane run, b.find? pane = some run →
    ∃ p, b.run? run = some p ∧ Serves (if young = some run then .created else .ready) pane p
  gone : ∀ run p, b.run? run = some p → (∀ pane, b.find? pane ≠ some run) →
    p.state = .terminated

namespace Staffed

variable {young : Option RunId} {pane : PaneId} {run : RunId} {p p' : Pane}

theorem pane_eq (h : Staffed young b) {other : PaneId} (hf : b.find? pane = some run)
    (ho : b.find? other = some run) : pane = other := by
  obtain ⟨p, hp, hs⟩ := h.here pane run hf
  obtain ⟨q, hq, hs'⟩ := h.here other run ho
  rw [hp, Option.some.injEq] at hq
  exact hs.1.symm.trans (hq ▸ hs'.1)

theorem enter (h : Staffed none b) (hf : b.find? p.id = none) (hr : p.released = false)
    (hs : p.state = .created) : Staffed (some ⟨b.runs.length⟩) (b.enter p) := by
  have hold : ∀ {run q}, b.run? run = some q → run.index ≠ b.runs.length :=
    fun hq => Nat.ne_of_lt (List.getElem?_eq_some_iff.mp hq).1
  refine ⟨?_, ?_⟩
  · intro pane run hfound
    rw [find?_enter] at hfound
    by_cases hp : p.id = pane
    · rw [if_pos hp, Option.some.injEq] at hfound
      subst hfound
      exact ⟨p, by rw [run?_enter, if_pos rfl], hp, hr, by rw [if_pos rfl, hs]⟩
    · rw [if_neg hp] at hfound
      obtain ⟨q, hq, hserves⟩ := h.here pane run hfound
      have hne : some (RunId.mk b.runs.length) ≠ some run := by
        rintro ⟨⟩
        exact hold hq rfl
      rw [if_neg hne]
      exact ⟨q, by rw [run?_enter, if_neg (hold hq), hq], hserves⟩
  · intro run q hq hgone
    rw [run?_enter] at hq
    by_cases hnew : run.index = b.runs.length
    · have hrun : run = ⟨b.runs.length⟩ := by
        cases run
        exact congrArg RunId.mk hnew
      exact absurd (by rw [find?_enter, if_pos rfl, hrun]) (hgone p.id)
    · rw [if_neg hnew] at hq
      refine h.gone run q hq fun pane hfound => ?_
      have hne : p.id ≠ pane := by
        rintro rfl
        rw [hf] at hfound
        cases hfound
      exact hgone pane (by rw [find?_enter, if_neg hne, hfound])

theorem advance (h : Staffed young b) (hy : ∀ r, young = some r → r = run)
    (hf : b.find? pane = some run) (hs : Serves .ready pane p') :
    Staffed none (b.advance run p') := by
  obtain ⟨p, hp, -⟩ := h.here pane run hf
  refine ⟨?_, ?_⟩
  · intro other run' hfound
    obtain ⟨q, hq, hserves⟩ := h.here other run' hfound
    simp only [reduceCtorEq, if_false]
    by_cases hr : run = run'
    · subst hr
      rw [h.pane_eq hf hfound] at hs
      exact ⟨p', (run?_set hp p').trans (if_pos rfl), hs⟩
    · rw [if_neg fun he => hr (hy run' he).symm] at hserves
      exact ⟨q, ((run?_set hp p').trans (if_neg hr)).trans hq, hserves⟩
  · intro run' q hq hgone
    have hne : run ≠ run' := by
      rintro rfl
      exact hgone pane hf
    exact h.gone run' q (((run?_set hp p').trans (if_neg hne)).symm.trans hq) hgone

theorem leave (h : Staffed none b) (hf : b.find? pane = some run) (ht : p'.state = .terminated) :
    Staffed none (b.leave pane run p') := by
  obtain ⟨p, hp, -⟩ := h.here pane run hf
  refine ⟨?_, ?_⟩
  · intro other run' hfound
    rw [find?_leave] at hfound
    by_cases ho : pane = other
    · rw [if_pos ho] at hfound
      cases hfound
    · rw [if_neg ho] at hfound
      obtain ⟨q, hq, hserves⟩ := h.here other run' hfound
      have hne : run ≠ run' := by
        rintro rfl
        exact ho (h.pane_eq hf hfound)
      exact ⟨q, ((run?_set hp p').trans (if_neg hne)).trans hq, hserves⟩
  · intro run' q hq hgone
    by_cases hr : run = run'
    · have hset := (run?_set hp p').trans (if_pos hr)
      have hq' : some p' = some q := hset.symm.trans hq
      cases hq'
      exact ht
    · have hrun := ((run?_set hp p').trans (if_neg hr)).symm.trans hq
      refine h.gone run' q hrun fun other hfound => ?_
      have hne : pane ≠ other := by
        rintro rfl
        rw [hf, Option.some.injEq] at hfound
        exact hr hfound
      exact hgone other (by rw [find?_leave, if_neg hne, hfound])

end Staffed

structure Agrees (b : Books) : Prop where
  sorted : Table.Sorted b.bindings
  known : b.known = b.bindings
  seen : ∀ pane, b.seen pane = b.bound? pane
  registered : ∀ pane, (b.bound? pane).isSome → (b.find? pane).isSome

theorem bound?_noteBinding (b : Books) (pane : PaneId) (w : WorktreeId) (other : PaneId) :
    (b.noteBinding pane w).bound? other = if pane = other then some w else b.bound? other :=
  Table.get?_set _ _ _ _

theorem bound?_noteRelease (b : Books) (pane other : PaneId) :
    (b.noteRelease pane).bound? other = if pane = other then none else b.bound? other :=
  Table.get?_erase _ _ _

theorem update_seen (seen : PaneId → Option WorktreeId) (pane : PaneId) (w : Option WorktreeId)
    (other : PaneId) :
    Function.update seen pane w other = if pane = other then w else seen other := by
  rw [Function.update_apply]
  simp only [eq_comm]

namespace Agrees

variable {pane : PaneId}

theorem noteBinding (h : Agrees b) (hf : (b.find? pane).isSome) (w : WorktreeId) :
    Agrees (b.noteBinding pane w) where
  sorted := h.sorted.set _ _
  known := congrArg (Table.set · pane w) h.known
  seen other := by
    rw [bound?_noteBinding, ← h.seen]
    exact update_seen _ _ _ _
  registered other hb := by
    rw [bound?_noteBinding] at hb
    by_cases ho : pane = other
    · exact ho ▸ hf
    · rw [if_neg ho] at hb
      exact h.registered other hb

theorem noteRelease (h : Agrees b) {entries : Table PaneId RunId}
    (hkeep : ∀ other, pane ≠ other → (b.find? other).isSome → (Table.get? entries other).isSome)
    (runs : List Pane) : Agrees (Books.noteRelease { b with entries, runs } pane) where
  sorted := h.sorted.erase _
  known := congrArg (Table.erase · pane) h.known
  seen other := by
    have hother : (Books.noteRelease { b with entries, runs } pane).bound? other =
        if pane = other then none else b.bound? other := Table.get?_erase _ _ _
    rw [hother, ← h.seen]
    exact update_seen _ _ _ _
  registered other hb := by
    have hother : (Books.noteRelease { b with entries, runs } pane).bound? other =
        if pane = other then none else b.bound? other := Table.get?_erase _ _ _
    rw [hother] at hb
    by_cases ho : pane = other
    · rw [if_pos ho] at hb
      cases hb
    · rw [if_neg ho] at hb
      exact hkeep other ho (h.registered other hb)

end Agrees

structure Retiered (b b' : Books) : Prop where
  only : ∃ roots, b' = { b with roots }
  sound : b.roots.Sound → b'.roots.Sound
  kept : ∀ w, (b'.roots.get? w).isSome = (b.roots.get? w).isSome

namespace Retiered

variable {b' b'' : Books} {young : Option RunId}

theorem refl (b : Books) : Retiered b b := ⟨⟨b.roots, rfl⟩, id, fun _ => rfl⟩

theorem trans (h : Retiered b b') (h' : Retiered b' b'') : Retiered b b'' := by
  refine ⟨?_, fun hs => h'.sound (h.sound hs), fun w => (h'.kept w).trans (h.kept w)⟩
  obtain ⟨roots, rfl⟩ := h.only
  obtain ⟨roots', rfl⟩ := h'.only
  exact ⟨roots', rfl⟩

theorem refresh (b : Books) (w : WorktreeId) : Retiered b (b.refresh w) :=
  ⟨⟨_, rfl⟩, fun h => h.retier w _,
    fun u => by rw [Books.refresh, RootTable.get?_retier, Option.isSome_map]⟩

theorem bind (b : Books) (pane : PaneId) (w : WorktreeId) :
    Retiered (b.noteBinding pane w) (b.bind pane w) := by
  simp only [Books.bind]
  refine .trans ?_ (.refresh _ w)
  cases b.bound? pane with
  | none => exact .refl _
  | some old =>
    by_cases ho : old = w
    · simp only [if_pos ho]
      exact .refl _
    · simp only [if_neg ho]
      exact .refresh _ old

theorem unbind (b : Books) (pane : PaneId) : Retiered (b.noteRelease pane) (b.unbind pane) := by
  simp only [Books.unbind]
  cases b.bound? pane with
  | none => exact .refl _
  | some w => exact .refresh _ w

theorem staffed (h : Retiered b b') (hs : Staffed young b) : Staffed young b' := by
  obtain ⟨roots, rfl⟩ := h.only
  exact ⟨hs.here, hs.gone⟩

theorem agrees (h : Retiered b b') (ha : Agrees b) : Agrees b' := by
  obtain ⟨roots, rfl⟩ := h.only
  exact ⟨ha.sorted, ha.known, ha.seen, ha.registered⟩

theorem bound? (h : Retiered b b') : b'.bound? = b.bound? := by
  obtain ⟨roots, rfl⟩ := h.only
  rfl

theorem find? (h : Retiered b b') : b'.find? = b.find? := by
  obtain ⟨roots, rfl⟩ := h.only
  rfl

theorem run? (h : Retiered b b') : b'.run? = b.run? := by
  obtain ⟨roots, rfl⟩ := h.only
  rfl

theorem focus (h : Retiered b b') : b'.focus = b.focus := by
  obtain ⟨roots, rfl⟩ := h.only
  rfl

theorem first (h : Retiered b b') : b'.first = b.first := by
  obtain ⟨roots, rfl⟩ := h.only
  rfl

end Retiered

theorem find?_follow (b : Books) (pane : PaneId) (move : Option (Option WorktreeId)) :
    (b.follow pane move).find? = b.find? := by
  rcases move with _ | _ | w
  · rfl
  · exact (Retiered.unbind b pane).find?
  · exact (Retiered.bind b pane w).find?

theorem run?_follow (b : Books) (pane : PaneId) (move : Option (Option WorktreeId)) :
    (b.follow pane move).run? = b.run? := by
  rcases move with _ | _ | w
  · rfl
  · exact (Retiered.unbind b pane).run?
  · exact (Retiered.bind b pane w).run?

/-- A root is active exactly if a pane is bound to it, but for roots of which this is open. -/
def Tiered (unsure : List WorktreeId) (b : Books) : Prop :=
  ∀ w r, b.roots.get? w = some r → w ∉ unsure →
    (r.tier = .activeInApp ↔ ∃ pane, b.bound? pane = some w)

theorem tierFor_eq_active (h : Table.Sorted b.bindings) (w : WorktreeId) :
    b.tierFor w = .activeInApp ↔ ∃ pane, b.bound? pane = some w := by
  have hany : b.bindings.any (·.2 = w) = true ↔ ∃ pane, b.bound? pane = some w := by
    simp only [List.any_eq_true, decide_eq_true_eq]
    constructor
    · rintro ⟨⟨pane, _⟩, he, rfl⟩
      exact ⟨pane, h.get?_of_mem he⟩
    · rintro ⟨pane, hp⟩
      exact ⟨(pane, w), Table.mem_of_get? hp, rfl⟩
  rw [← hany, tierFor]
  by_cases hb : b.bindings.any (·.2 = w) = true
  · rw [if_pos hb]
    exact iff_of_true rfl hb
  · rw [if_neg hb]
    exact iff_of_false (fun h => nomatch h) hb

namespace Tiered

variable {unsure : List WorktreeId} {w : WorktreeId} {pane : PaneId}

theorem mono (h : Tiered unsure b) {more : List WorktreeId} (hm : ∀ u ∈ unsure, u ∈ more) :
    Tiered more b := fun w r hr hw => h w r hr fun hu => hw (hm w hu)

theorem refresh (h : Tiered (w :: unsure) b) (hs : Table.Sorted b.bindings) :
    Tiered unsure (b.refresh w) := by
  intro u r hr hu
  have hget : (b.refresh w).roots.get? u =
      (b.roots.get? u).map fun r => if w = u then { r with tier := b.tierFor w } else r :=
    RootTable.get?_retier _ _ _ _
  rw [hget, Option.map_eq_some_iff] at hr
  obtain ⟨old, hold, rfl⟩ := hr
  by_cases hw : w = u
  · rw [if_pos hw, ← hw]
    exact tierFor_eq_active hs w
  · rw [if_neg hw]
    refine h u old hold ?_
    rw [List.mem_cons]
    rintro (he | he)
    · exact hw he.symm
    · exact hu he

theorem noteBinding (h : Tiered [] b) (pane : PaneId) (w : WorktreeId) :
    Tiered ((b.bound? pane).toList ++ [w]) (b.noteBinding pane w) := by
  intro u r hr hu
  rw [List.mem_append, List.mem_singleton, Option.mem_toList] at hu
  refine (h u r hr List.not_mem_nil).trans ?_
  simp only [bound?_noteBinding]
  constructor
  · rintro ⟨other, ho⟩
    refine ⟨other, ?_⟩
    rw [if_neg, ho]
    rintro rfl
    exact hu (.inl ho)
  · rintro ⟨other, ho⟩
    by_cases hp : pane = other
    · rw [if_pos hp, Option.some.injEq] at ho
      exact absurd (.inr ho.symm) hu
    · rw [if_neg hp] at ho
      exact ⟨other, ho⟩

theorem noteRelease (h : Tiered [] b) (pane : PaneId) :
    Tiered (b.bound? pane).toList (b.noteRelease pane) := by
  intro u r hr hu
  rw [Option.mem_toList] at hu
  refine (h u r hr List.not_mem_nil).trans ?_
  simp only [bound?_noteRelease]
  constructor
  · rintro ⟨other, ho⟩
    refine ⟨other, ?_⟩
    rw [if_neg, ho]
    rintro rfl
    exact hu ho
  · rintro ⟨other, ho⟩
    by_cases hp : pane = other
    · rw [if_pos hp] at ho
      cases ho
    · rw [if_neg hp] at ho
      exact ⟨other, ho⟩

theorem bind (h : Tiered [] b) (hs : Table.Sorted b.bindings) (pane : PaneId) (w : WorktreeId) :
    Tiered [] (b.bind pane w) := by
  have hnoted := h.noteBinding pane w
  have hsorted : Table.Sorted (b.noteBinding pane w).bindings := hs.set _ _
  simp only [Books.bind]
  cases hb : b.bound? pane with
  | none =>
    rw [hb] at hnoted
    exact hnoted.refresh hsorted
  | some old =>
    rw [hb] at hnoted
    by_cases ho : old = w
    · simp only [if_pos ho]
      refine (hnoted.mono ?_).refresh hsorted
      simp [ho]
    · simp only [if_neg ho]
      exact (hnoted.refresh hsorted).refresh hsorted

theorem unbind (h : Tiered [] b) (hs : Table.Sorted b.bindings) (pane : PaneId) :
    Tiered [] (b.unbind pane) := by
  have hnoted := h.noteRelease pane
  have hsorted : Table.Sorted (b.noteRelease pane).bindings := hs.erase _
  simp only [Books.unbind]
  cases hb : b.bound? pane with
  | none =>
    rw [hb] at hnoted
    exact hnoted
  | some w =>
    rw [hb] at hnoted
    exact hnoted.refresh hsorted

end Tiered

structure Sound (young : Option RunId) (b : Books) : Prop where
  staffed : Staffed young b
  agrees : Agrees b
  roots : b.roots.Sound
  tiered : Tiered [] b

namespace Sound

variable {young : Option RunId} {pane : PaneId} {run : RunId} {p : Pane} {w : WorktreeId}

theorem look (h : Sound young b) (focus : Option PaneId) (first : Option WorktreeId) :
    Sound young { b with focus, first } :=
  ⟨⟨h.staffed.here, h.staffed.gone⟩,
    ⟨h.agrees.sorted, h.agrees.known, h.agrees.seen, h.agrees.registered⟩, h.roots, h.tiered⟩

theorem enter (h : Sound none b) (hf : b.find? p.id = none) (hr : p.released = false)
    (hs : p.state = .created) : Sound (some ⟨b.runs.length⟩) (b.enter p) where
  staffed := h.staffed.enter hf hr hs
  agrees := by
    refine ⟨h.agrees.sorted, h.agrees.known, h.agrees.seen, fun pane hb => ?_⟩
    rw [find?_enter]
    by_cases hp : p.id = pane
    · rw [if_pos hp]
      rfl
    · rw [if_neg hp]
      exact h.agrees.registered pane hb
  roots := h.roots
  tiered := h.tiered

theorem advance (h : Sound young b) (hy : ∀ r, young = some r → r = run)
    (hf : b.find? pane = some run) (hs : Serves .ready pane p) : Sound none (b.advance run p) where
  staffed := h.staffed.advance hy hf hs
  agrees := ⟨h.agrees.sorted, h.agrees.known, h.agrees.seen, h.agrees.registered⟩
  roots := h.roots
  tiered := h.tiered

theorem bind (h : Sound young b) (hf : (b.find? pane).isSome) (w : WorktreeId) :
    Sound young (b.bind pane w) where
  staffed := (Retiered.bind b pane w).staffed ⟨h.staffed.here, h.staffed.gone⟩
  agrees := (Retiered.bind b pane w).agrees (h.agrees.noteBinding hf w)
  roots := (Retiered.bind b pane w).sound h.roots
  tiered := h.tiered.bind h.agrees.sorted pane w

theorem unbind (h : Sound young b) (pane : PaneId) : Sound young (b.unbind pane) where
  staffed := (Retiered.unbind b pane).staffed ⟨h.staffed.here, h.staffed.gone⟩
  agrees := (Retiered.unbind b pane).agrees (h.agrees.noteRelease (fun _ _ hf => hf) b.runs)
  roots := (Retiered.unbind b pane).sound h.roots
  tiered := h.tiered.unbind h.agrees.sorted pane

theorem follow (h : Sound young b) (hf : (b.find? pane).isSome)
    (move : Option (Option WorktreeId)) : Sound young (b.follow pane move) := by
  rcases move with _ | _ | w
  · exact h
  · exact h.unbind pane
  · exact h.bind hf w

theorem leave (h : Sound none b) (hf : b.find? pane = some run) (ht : p.state = .terminated) :
    Sound none ((b.leave pane run p).unbind pane) := by
  have hleft := h.staffed.leave hf ht
  have hkeep : ∀ other, pane ≠ other → (b.find? other).isSome →
      (Table.get? (Table.erase b.entries pane) other).isSome := by
    intro other ho hfound
    rw [Table.get?_erase, if_neg ho]
    exact hfound
  have htiered : Tiered [] (b.leave pane run p) := h.tiered
  exact
    { staffed := (Retiered.unbind _ pane).staffed ⟨hleft.here, hleft.gone⟩
      agrees := (Retiered.unbind _ pane).agrees (h.agrees.noteRelease hkeep _)
      roots := (Retiered.unbind (b.leave pane run p) pane).sound h.roots
      tiered := htiered.unbind h.agrees.sorted pane }

theorem enrol (h : Sound none b) {path : Path} {roots : RootTable}
    (hi : b.roots.insert w path (b.tierFor w) = .ok roots) : Sound none (b.enrol roots) where
  staffed := ⟨h.staffed.here, h.staffed.gone⟩
  agrees := ⟨h.agrees.sorted, h.agrees.known, h.agrees.seen, h.agrees.registered⟩
  roots := h.roots.insert hi
  tiered := by
    obtain ⟨-, -, rfl⟩ := RootTable.insert_eq_ok hi
    intro u r hr _
    have hr' : Table.get? (Table.set b.roots.roots w _) u = some r := hr
    rw [Table.get?_set] at hr'
    by_cases hu : w = u
    · rw [if_pos hu, Option.some.injEq] at hr'
      rw [← hr', ← hu]
      exact tierFor_eq_active h.agrees.sorted w
    · rw [if_neg hu] at hr'
      exact h.tiered u r hr' List.not_mem_nil

theorem expel (h : Sound none b) {roots : RootTable} {r : Root}
    (hr : b.roots.remove w = .ok (roots, r)) : Sound none (b.expel w roots) where
  staffed := ⟨h.staffed.here, h.staffed.gone⟩
  agrees := ⟨h.agrees.sorted, h.agrees.known, h.agrees.seen, h.agrees.registered⟩
  roots := h.roots.remove hr
  tiered := by
    obtain ⟨-, rfl⟩ := RootTable.remove_eq_ok hr
    intro u r' hr' _
    have hget : Table.get? (Table.erase b.roots.roots w) u = some r' := hr'
    rw [Table.get?_erase] at hget
    by_cases hu : w = u
    · rw [if_pos hu] at hget
      cases hget
    · rw [if_neg hu] at hget
      exact h.tiered u r' hget List.not_mem_nil

end Sound

end Books

end Switchboard
