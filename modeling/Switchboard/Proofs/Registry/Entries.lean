import Switchboard.Proofs.Pane.Emission
import Switchboard.Proofs.Table
import Switchboard.Registry

/-!
# Who is registered

The registered panes stand in the order of their ids, each with a run of its own. So a step of one
pane changes one place in the list of those who tell, a pane that enters takes a place between two
others, and one that leaves gives its place up.
-/
namespace Switchboard

namespace Registry

variable {r r' : Registry} {run : RunId} {l l' : LivePane} {pane : PaneId}

def tellers (r : Registry) (entries : Table PaneId RunId) : List Speaker :=
  entries.filterMap fun entry => (r.run? entry.2).map (·.pane.speaker)

def speakers (r : Registry) : List Speaker := r.tellers r.panes

/-- Every id has a run of its own pane behind it. -/
structure Wired (r : Registry) : Prop where
  sorted : Table.Sorted r.panes
  found : ∀ entry ∈ r.panes, ∃ l, r.run? entry.2 = some l ∧ l.pane.id = entry.1

theorem wired_create (timeout : Nat) : (create timeout).Wired :=
  ⟨Table.sorted_nil, fun _ h => nomatch h⟩

theorem histories_eq (r : Registry) : r.histories = r.speakers.map Speaker.replay := by
  rw [histories, speakers, tellers, List.map_filterMap]
  congr 1
  funext ⟨_, run⟩
  show (r.run? run).map (·.pane.replay) = _
  rw [Option.map_map]
  rfl

theorem tellers_append (r : Registry) (xs ys : Table PaneId RunId) :
    r.tellers (xs ++ ys) = r.tellers xs ++ r.tellers ys := List.filterMap_append

theorem tellers_cons (h : r.run? run = some l) (pane : PaneId) (rest : Table PaneId RunId) :
    r.tellers ((pane, run) :: rest) = l.pane.speaker :: r.tellers rest := by
  rw [tellers, List.filterMap_cons_some (by rw [h]; rfl)]
  rfl

theorem tellers_congr {entries : Table PaneId RunId}
    (h : ∀ entry ∈ entries, (r'.run? entry.2).map (·.pane.speaker) =
      (r.run? entry.2).map (·.pane.speaker)) : r'.tellers entries = r.tellers entries :=
  List.filterMap_congr h

namespace Wired

variable (hw : r.Wired)

include hw

theorem run?_of_find? (hf : r.find? pane = some run) :
    ∃ l, r.run? run = some l ∧ l.pane.id = pane :=
  hw.found (pane, run) (Table.mem_of_get? hf)

theorem source_of_mem {sp : Speaker} (hs : sp ∈ r.speakers) :
    ∃ entry ∈ r.panes, sp.source = .pane entry.1 := by
  obtain ⟨entry, he, hm⟩ := List.mem_filterMap.mp hs
  obtain ⟨l, hl, hid⟩ := hw.found entry he
  rw [hl, Option.map_some, Option.some.injEq] at hm
  refine ⟨entry, he, ?_⟩
  rw [← hm, ← hid]
  rfl

theorem update (hl : r.run? run = some l) (hid : l'.pane.id = l.pane.id) :
    (r.update run l').Wired := by
  refine ⟨hw.sorted, ?_⟩
  intro entry he
  obtain ⟨x, hx, hxid⟩ := hw.found entry he
  by_cases hr : run = entry.2
  · subst hr
    rw [hl, Option.some.injEq] at hx
    exact ⟨l', run?_update hl, hid.trans (hx ▸ hxid)⟩
  · exact ⟨x, (r.run?_update_of_ne l' hr).trans hx, hxid⟩

theorem erase (pane : PaneId) : Wired { r with panes := Table.erase r.panes pane } :=
  ⟨hw.sorted.erase pane, fun entry he => hw.found entry (List.mem_filter.mp he).1⟩

theorem split (hf : r.find? pane = some run) (hl : r.run? run = some l) :
    ∃ front behind, r.speakers = front ++ l.pane.speaker :: behind ∧
      (∀ l', (r.update run l').speakers = front ++ l'.pane.speaker :: behind) ∧
      ∀ l', (Registry.update { r with panes := Table.erase r.panes pane } run l').speakers =
        front ++ behind := by
  obtain ⟨front, behind, ht, he⟩ := hw.sorted.erase_split hf
  -- no other id has this run behind it
  have hother : ∀ entry ∈ front ++ behind, run ≠ entry.2 := by
    rintro entry hm rfl
    obtain ⟨x, hx, hid⟩ := hw.found entry (by
      rw [ht]
      simp only [List.mem_append, List.mem_cons] at hm ⊢
      tauto)
    obtain ⟨y, hy, hid'⟩ := hw.run?_of_find? hf
    rw [hx, Option.some.injEq] at hy
    have hkeys := hw.sorted.nodup_keys
    rw [ht, Table.keys, List.map_append, List.map_cons, List.nodup_middle, List.nodup_cons,
      ← List.map_append] at hkeys
    refine hkeys.1 (List.mem_map.mpr ⟨entry, hm, ?_⟩)
    rw [← hid, ← hid', hy]
  have hsame : ∀ (q : Registry) (l' : LivePane), q.runs = r.runs → ∀ entries : Table PaneId RunId,
      (∀ entry ∈ entries, entry ∈ front ++ behind) →
        (q.update run l').tellers entries = r.tellers entries := by
    intro q l' hq entries hm
    refine tellers_congr fun entry hentry => ?_
    rw [q.run?_update_of_ne l' (hother entry (hm entry hentry)), run?, run?, hq]
  refine ⟨r.tellers front, r.tellers behind, ?_, ?_, ?_⟩
  · rw [speakers, ht, tellers_append, tellers_cons hl]
  · intro l'
    have hp : (r.update run l').panes = front ++ (pane, run) :: behind := ht
    rw [speakers, hp, tellers_append, tellers_cons (run?_update hl),
      hsame r l' rfl front (fun _ => List.mem_append_left _),
      hsame r l' rfl behind (fun _ => List.mem_append_right _)]
  · intro l'
    have hp : (Registry.update { r with panes := Table.erase r.panes pane } run l').panes =
        front ++ behind := he
    rw [speakers, hp, hsame { r with panes := Table.erase r.panes pane } l' rfl _ fun _ => id,
      tellers_append]

end Wired

theorem speakers_update_of_eq (hl : r.run? run = some l)
    (hs : l'.pane.speaker = l.pane.speaker) : (r.update run l').speakers = r.speakers := by
  refine tellers_congr fun entry _ => ?_
  by_cases hr : run = entry.2
  · subst hr
    rw [run?_update hl, hl, Option.map_some, Option.map_some, hs]
  · rw [r.run?_update_of_ne l' hr]

theorem run?_settle (r : Registry) (run : RunId) :
    r.settle.run? run = (r.run? run).map LivePane.settle := List.getElem?_map

theorem speakers_settle (r : Registry) : r.settle.speakers = r.speakers := by
  refine tellers_congr fun entry _ => ?_
  rw [run?_settle]
  cases r.run? entry.2 <;> rfl

theorem Wired.settle (hw : r.Wired) : r.settle.Wired := by
  refine ⟨hw.sorted, ?_⟩
  intro entry he
  obtain ⟨l, hl, hid⟩ := hw.found entry he
  exact ⟨l.settle, by rw [run?_settle, hl]; rfl, hid⟩

theorem register_eq_ok (h : r.register l = .ok r') :
    r.find? l.pane.id = none ∧ r' = { r with
      runs := r.runs ++ [l]
      panes := Table.set r.panes l.pane.id ⟨r.runs.length⟩
      lastEpochs := Table.set r.lastEpochs l.pane.id
        (max ((Table.get? r.lastEpochs l.pane.id).getD l.pane.epoch) l.pane.epoch) } := by
  have hcontains : Registry.contains { r with runs := r.runs ++ [l] } l.pane.id =
      (r.find? l.pane.id).isSome := rfl
  simp only [register, enter, hcontains] at h
  cases hf : r.find? l.pane.id with
  | some run =>
    rw [hf, if_pos Option.isSome_some] at h
    cases h
  | none =>
    rw [hf, if_neg (by decide)] at h
    cases h
    exact ⟨rfl, rfl⟩

theorem Wired.register (hw : r.Wired) (h : r.register l = .ok r') :
    r'.Wired ∧ (∀ sp ∈ r.speakers, sp.source ≠ .pane l.pane.id) ∧
      ∃ front behind, r.speakers = front ++ behind ∧
        r'.speakers = front ++ l.pane.speaker :: behind := by
  obtain ⟨hfree, hr⟩ := register_eq_ok h
  have hpanes : r'.panes = Table.set r.panes l.pane.id ⟨r.runs.length⟩ := by rw [hr]
  have hnew : r'.run? ⟨r.runs.length⟩ = some l := by
    rw [hr]
    exact List.getElem?_concat_length
  have hold : ∀ entry ∈ r.panes, r'.run? entry.2 = r.run? entry.2 := by
    intro entry he
    obtain ⟨x, hx, -⟩ := hw.found entry he
    rw [hr]
    exact List.getElem?_append_left (List.getElem?_eq_some_iff.mp hx).1
  refine ⟨⟨hpanes ▸ hw.sorted.set _ _, ?_⟩, ?_, ?_⟩
  · intro entry he
    rw [hpanes] at he
    rcases Table.mem_set he with rfl | he
    · exact ⟨l, hnew, rfl⟩
    · rw [hold entry he]
      exact hw.found entry he
  · intro sp hsp he
    obtain ⟨entry, hentry, hs⟩ := hw.source_of_mem hsp
    have hkey : entry.1 = l.pane.id := Source.pane.inj (hs.symm.trans he)
    have hget : r.find? entry.1 = some entry.2 := hw.sorted.get?_of_mem hentry
    rw [hkey, hfree] at hget
    cases hget
  · obtain ⟨front, behind, ht, hset⟩ := Table.set_eq_insert hfree (RunId.mk r.runs.length)
    have hsame : ∀ entries : Table PaneId RunId, (∀ entry ∈ entries, entry ∈ r.panes) →
        r'.tellers entries = r.tellers entries := by
      intro entries hm
      exact tellers_congr fun entry he => by rw [hold entry (hm entry he)]
    refine ⟨r.tellers front, r.tellers behind, ?_, ?_⟩
    · rw [speakers, ht, tellers_append]
    · rw [speakers, hpanes, hset, tellers_append, tellers_cons hnew,
        hsame front (fun entry he => ht ▸ List.mem_append_left _ he),
        hsame behind (fun entry he => ht ▸ List.mem_append_right _ he)]

theorem unregister_eq_ok (h : r.unregister pane = .ok (r', run)) :
    r.find? pane = some run ∧ r' = { r with panes := Table.erase r.panes pane } := by
  simp only [unregister] at h
  split at h
  · cases h
  · next hf =>
    cases h
    exact ⟨hf, rfl⟩

end Registry

end Switchboard
