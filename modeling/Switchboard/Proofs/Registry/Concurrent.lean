import Switchboard.Proofs.Pane.Started
import Switchboard.Proofs.Registry.Entries
import Switchboard.Proofs.Workspace.Steps

/-!
# Callers at the same time

The registry is locked for a look-up, an entry or a removal, and a pane for a command, a look at its
state or a shutdown. A call takes several such steps, and other callers may take theirs in between.
A command finds its pane by the id twice: to be handled, and to be closed where it ended the pane.
What is closed is what was put under the id last, which need not be what was found.
-/
namespace Switchboard

inductive Call where
  | dispatch (command : CommandEnvelope)
  | close (pane : PaneId)
  | register (l : LivePane)
  | reregister (run : RunId)

inductive Answer where
  | dispatched (result : Except CommandError CommandAck)
  | closed (result : Except RegistryError (List ResourceId))
  | entered (result : Except RegistryError Unit)

structure Handled where
  run : RunId
  result : Except CommandError CommandAck

/-- Where a call stands between two of its steps. -/
inductive Caller where
  | asks (call : Call)
  | routed (command : CommandEnvelope) (run : RunId)
  /-- The run has answered; it is not known yet whether it ended. -/
  | answered (command : CommandEnvelope) (handled : Handled)
  | leaving (pane : PaneId) (handled : Handled)
  | holding (pane : PaneId) (behalf : Option Handled) (run : RunId)
  | done (answer : Answer)

inductive Deed where
  | found (pane : PaneId) (run : RunId)
  | took (pane : PaneId) (routed : Option RunId) (run : RunId)
  | shut (routed : Option RunId) (run : RunId)
  | entered (pane : PaneId) (run : RunId)
  | returned (pane : PaneId) (run : RunId)
  deriving DecidableEq

structure Turn where
  registry : Registry
  caller : Caller
  told : List Envelope
  deed : Option Deed

def Turn.deeds (t : Turn) (i : Nat) : List (Nat × Deed) := t.deed.toList.map (i, ·)

def Answer.of (result : Except RegistryError (List ResourceId)) : Option Handled → Answer
  | none => .closed result
  | some handled => .dispatched handled.result

namespace Registry

def takeOut (r : Registry) (pane : PaneId) (behalf : Option Handled) : Turn :=
  match r.unregister pane with
  | .error e => ⟨r, .done (.of (.error e) behalf), [], none⟩
  | .ok (r, run) =>
    ⟨r, .holding pane behalf run, [], some (.took pane (behalf.map Handled.run) run)⟩

def putIn (r : Registry) (deed : Deed) : Except RegistryError Registry → Turn
  | .error e => ⟨r, .done (.entered (.error e)), [], none⟩
  | .ok r => ⟨r, .done (.entered (.ok ())), [], some deed⟩

def begin_ (r : Registry) : Call → Option Turn
  | .dispatch command =>
    match r.registered? command.target with
    | none => some ⟨r, .done (.dispatched (.error (.unknownPane command.target))), [], none⟩
    | some (run, _) => some ⟨r, .routed command run, [], some (.found command.target run)⟩
  | .close pane => some (r.takeOut pane none)
  | .register l => some (r.putIn (.entered l.pane.id ⟨r.runs.length⟩) (r.register l))
  | .reregister run =>
    (r.run? run).map fun l => r.putIn (.returned l.pane.id run) (r.enter run l)

def turn? (r : Registry) (now : Nat) : Caller → Option Turn
  | .asks call => r.begin_ call
  | .routed command run => (r.run? run).map fun l =>
    let o := l.pane.handle command now
    ⟨r.update run (l.afterwards o), .answered command ⟨run, o.result⟩, o.told, none⟩
  | .answered command handled => (r.run? handled.run).map fun l =>
    if (l.pane.silent handled.result).ends then ⟨r, .leaving command.target handled, [], none⟩
    else ⟨r, .done (.dispatched handled.result), [], none⟩
  | .leaving pane handled => some (r.takeOut pane (some handled))
  | .holding _ behalf run =>
    let ended := r.shutdown run now
    some ⟨ended.registry, .done (.of (.ok ended.result) behalf), ended.told,
      some (.shut (behalf.map Handled.run) run)⟩
  | .done _ => none

end Registry

/-- A registry and those who call it. -/
structure Desk where
  registry : Registry
  callers : List Caller
  told : List Envelope

namespace Desk

def of (r : Registry) (calls : List Call) : Desk := ⟨r, calls.map .asks, []⟩

def step (d : Desk) (i now : Nat) : Desk × List (Nat × Deed) :=
  match (d.callers[i]?).bind (d.registry.turn? now) with
  | none => (d, [])
  | some t =>
    (⟨t.registry, d.callers.set i t.caller, d.told ++ t.told⟩, t.deeds i)

abbrev Schedule := List (Nat × Nat)

def run (d : Desk) : Schedule → Desk × List (Nat × Deed)
  | [] => (d, [])
  | (i, now) :: rest =>
    let (d, deeds) := d.step i now
    let (d, later) := d.run rest
    (d, deeds ++ later)

end Desk

namespace Deed

def put? (pane : PaneId) : Deed → Option RunId
  | .entered p run => if p = pane then some run else none
  | .returned p run => if p = pane then some run else none
  | _ => none

def closed? : Deed → Option (RunId × RunId)
  | .took _ (some routed) run => some (routed, run)
  | .shut (some routed) run => some (routed, run)
  | _ => none

end Deed

/-- The run that was put under an id last. -/
def lastPut (pane : PaneId) (deeds : List (Nat × Deed)) : Option RunId :=
  (deeds.filterMap fun deed => deed.2.put? pane).getLast?

theorem lastPut_append (pane : PaneId) (xs ys : List (Nat × Deed)) :
    lastPut pane (xs ++ ys) = (lastPut pane ys).or (lastPut pane xs) := by
  rw [lastPut, List.filterMap_append, List.getLast?_append]
  rfl

theorem lastPut_deeds (pane : PaneId) (t : Turn) (i : Nat) :
    lastPut pane (t.deeds i) = t.deed.bind (Deed.put? pane) := by
  rw [lastPut, Turn.deeds]
  cases t.deed with
  | none => rfl
  | some deed =>
    rw [Option.toList_some, List.map_singleton, List.filterMap_cons, Option.bind_some]
    cases deed.put? pane <;> rfl

namespace Registry

variable {r r' : Registry} {pane : PaneId} {run : RunId} {l : LivePane} {now : Nat}
  {caller : Caller} {t : Turn}

def latest? (r : Registry) (past : List (Nat × Deed)) (pane : PaneId) : Option RunId :=
  (lastPut pane past).or (r.find? pane)

theorem latest?_append (r : Registry) (past deeds : List (Nat × Deed)) (pane : PaneId) :
    r.latest? (past ++ deeds) pane = (lastPut pane deeds).or (r.latest? past pane) := by
  rw [latest?, lastPut_append, Option.or_assoc]
  rfl

theorem enter_eq_ok (h : r.enter run l = .ok r') : r'.runs = r.runs ∧
    ∀ pane, r'.find? pane = (if l.pane.id = pane then some run else none).or (r.find? pane) := by
  simp only [enter] at h
  split at h
  · cases h
  · cases h
    refine ⟨rfl, fun pane => (Table.get?_set r.panes l.pane.id pane run).trans ?_⟩
    by_cases hp : l.pane.id = pane
    · rw [if_pos hp, if_pos hp]
      rfl
    · rw [if_neg hp, if_neg hp]
      rfl

theorem lookup?_eq (r : Registry) (pane : PaneId) :
    r.lookup? pane = (r.registered? pane).map Prod.snd := by
  simp only [lookup?, registered?]
  cases r.find? pane with
  | none => rfl
  | some run => cases h : r.run? run <;> simp [h]

theorem shutdown_keeps (r : Registry) (run : RunId) (now : Nat) :
    (r.shutdown run now).registry.panes = r.panes ∧
      (r.shutdown run now).registry.runs.length = r.runs.length := by
  simp only [shutdown]
  split
  · exact ⟨rfl, rfl⟩
  · exact ⟨rfl, List.length_set⟩

structure Keeps (r : Registry) (t : Turn) : Prop where
  behind : ∀ pane run, t.registry.find? pane = some run →
    (t.deed.bind (Deed.put? pane)).or (r.find? pane) = some run
  length : r.runs.length ≤ t.registry.runs.length
  found : ∀ pane run, t.deed = some (.found pane run) → run.index < r.runs.length
  entered : ∀ pane run, t.deed = some (.entered pane run) → run.index = r.runs.length

theorem keeps_quiet (hp : t.registry.panes = r.panes)
    (hr : t.registry.runs.length = r.runs.length)
    (hput : ∀ pane, t.deed.bind (Deed.put? pane) = none)
    (hf : ∀ pane run, t.deed = some (.found pane run) → run.index < r.runs.length) : r.Keeps t where
  behind pane run h := by
    rw [hput, Option.none_or, ← h, find?, find?, hp]
  length := hr.ge
  found := hf
  entered pane run h := by
    have hnone := hput pane
    rw [h, Option.bind_some, Deed.put?, if_pos rfl] at hnone
    cases hnone

theorem keeps_takeOut (r : Registry) (pane : PaneId) (behalf : Option Handled) :
    r.Keeps (r.takeOut pane behalf) := by
  simp only [takeOut]
  cases hu : r.unregister pane with
  | error e => exact keeps_quiet rfl rfl (fun _ => rfl) fun _ _ h => nomatch h
  | ok taken =>
    obtain ⟨r', run⟩ := taken
    obtain ⟨-, rfl⟩ := unregister_eq_ok hu
    refine ⟨?_, Nat.le_refl _, fun _ _ h => (nomatch h), fun _ _ h => nomatch h⟩
    intro other run' hf
    have hother : (if pane = other then none else r.find? other) = some run' :=
      (Table.get?_erase r.panes pane other).symm.trans hf
    split at hother
    · cases hother
    · exact hother

theorem keeps_putIn {deed : Deed} {entry : Except RegistryError Registry}
    (h : ∀ r', entry = .ok r' → r.runs.length ≤ r'.runs.length ∧
      ∀ pane, r'.find? pane = (deed.put? pane).or (r.find? pane))
    (hf : ∀ pane run, deed ≠ .found pane run)
    (he : ∀ pane run, deed = .entered pane run → run.index = r.runs.length) :
    r.Keeps (r.putIn deed entry) := by
  cases entry with
  | error e => exact keeps_quiet rfl rfl (fun _ => rfl) fun _ _ h => nomatch h
  | ok r' =>
    obtain ⟨hlength, hfind⟩ := h r' rfl
    exact ⟨fun pane run hrun => (hfind pane).symm.trans hrun, hlength,
      fun pane run hd => absurd (Option.some.inj hd) (hf pane run),
      fun pane run hd => he pane run (Option.some.inj hd)⟩

theorem keeps_begin {call : Call} (h : r.begin_ call = some t) : r.Keeps t := by
  cases call with
  | dispatch command =>
    simp only [begin_] at h
    split at h
    · cases h
      exact keeps_quiet rfl rfl (fun _ => rfl) fun _ _ h => nomatch h
    · next run l hr =>
      cases h
      have hl := (Workspace.registered?_eq_some hr).2
      refine keeps_quiet rfl rfl (fun _ => rfl) ?_
      rintro _ _ ⟨⟩
      exact (List.getElem?_eq_some_iff.mp hl).1
  | close pane =>
    cases h
    exact r.keeps_takeOut pane none
  | register l =>
    cases h
    refine keeps_putIn ?_ (fun _ _ h => nomatch h) ?_
    · intro r' hr
      obtain ⟨hruns, hfind⟩ := enter_eq_ok (r := { r with runs := r.runs ++ [l] }) hr
      refine ⟨?_, hfind⟩
      rw [hruns, List.length_append]
      exact Nat.le_add_right _ _
    · rintro _ _ ⟨⟩
      rfl
  | reregister run =>
    obtain ⟨l, -, rfl⟩ := Option.map_eq_some_iff.mp h
    refine keeps_putIn ?_ (fun _ _ h => nomatch h) fun _ _ h => nomatch h
    intro r' hr
    obtain ⟨hruns, hfind⟩ := enter_eq_ok hr
    exact ⟨by rw [hruns], hfind⟩

theorem keeps_turn (h : r.turn? now caller = some t) : r.Keeps t := by
  cases caller with
  | asks call => exact keeps_begin h
  | routed command run =>
    obtain ⟨l, -, rfl⟩ := Option.map_eq_some_iff.mp h
    exact keeps_quiet rfl List.length_set (fun _ => rfl) fun _ _ h => nomatch h
  | answered command handled =>
    obtain ⟨l, -, rfl⟩ := Option.map_eq_some_iff.mp h
    split <;> exact keeps_quiet rfl rfl (fun _ => rfl) fun _ _ h => nomatch h
  | leaving pane handled =>
    cases h
    exact r.keeps_takeOut pane (some handled)
  | holding pane behalf run =>
    cases h
    obtain ⟨hpanes, hlength⟩ := r.shutdown_keeps run now
    exact keeps_quiet hpanes hlength (fun _ => rfl) fun _ _ h => nomatch h
  | done answer => cases h

end Registry

def Caller.recall? : Caller → Option Deed
  | .asks _ => none
  | .routed command run => some (.found command.target run)
  | .answered command handled => some (.found command.target handled.run)
  | .leaving pane handled => some (.found pane handled.run)
  | .holding pane behalf run => some (.took pane (behalf.map Handled.run) run)
  | .done _ => none

/-- What a deed of a caller rests on: what is behind the id by then, and what the caller did before.
Nobody has found a pane that is new. -/
def Deed.Grounded (r : Registry) (past : List (Nat × Deed)) (i : Nat) : Deed → Prop
  | .found pane run => r.latest? past pane = some run
  | .took pane routed run =>
    r.latest? past pane = some run ∧ ∀ own ∈ routed, (i, .found pane own) ∈ past
  | .shut routed run => ∃ pane, (i, .took pane routed run) ∈ past
  | .entered _ run => ∀ j pane own, (j, .found pane own) ∈ past → own ≠ run
  | .returned _ _ => True

structure Turn.Follows (start : Registry) (past : List (Nat × Deed)) (i : Nat) (t : Turn) :
    Prop where
  grounded : ∀ deed ∈ t.deed, deed.Grounded start past i
  recalled : ∀ deed ∈ t.caller.recall?, (i, deed) ∈ past ++ t.deeds i

namespace Registry

variable {start r : Registry} {past : List (Nat × Deed)} {i now : Nat} {caller : Caller} {t : Turn}

theorem follows_quiet (hd : t.deed = none)
    (hr : ∀ deed ∈ t.caller.recall?, (i, deed) ∈ past) : t.Follows start past i where
  grounded deed h := by
    rw [hd] at h
    cases h
  recalled deed h := List.mem_append_left _ (hr deed h)

theorem follows_takeOut
    (hb : ∀ pane run, r.find? pane = some run → start.latest? past pane = some run)
    (pane : PaneId) (behalf : Option Handled)
    (hown : ∀ handled ∈ behalf, (i, .found pane handled.run) ∈ past) :
    (r.takeOut pane behalf).Follows start past i := by
  simp only [takeOut]
  split
  · exact follows_quiet rfl fun deed hdeed => nomatch hdeed
  · next r' run hu =>
    refine ⟨?_, ?_⟩
    · rintro deed ⟨⟩
      refine ⟨hb pane run (unregister_eq_ok hu).1, fun own ho => ?_⟩
      obtain ⟨handled, hh, rfl⟩ := Option.map_eq_some_iff.mp ho
      exact hown handled hh
    · rintro deed ⟨⟩
      exact List.mem_append_right _ List.mem_cons_self

theorem follows_putIn {deed : Deed} (hd : deed.Grounded start past i) (r : Registry)
    (entry : Except RegistryError Registry) : (r.putIn deed entry).Follows start past i := by
  cases entry with
  | error e => exact follows_quiet rfl fun deed hdeed => nomatch hdeed
  | ok r' =>
    refine ⟨?_, fun deed hdeed => nomatch hdeed⟩
    rintro deed ⟨⟩
    exact hd

theorem follows_turn
    (hb : ∀ pane run, r.find? pane = some run → start.latest? past pane = some run)
    (hn : ∀ j pane own, (j, .found pane own) ∈ past → own.index < r.runs.length)
    (hc : ∀ deed ∈ caller.recall?, (i, deed) ∈ past) (h : r.turn? now caller = some t) :
    t.Follows start past i := by
  cases caller with
  | asks call =>
    cases call with
    | dispatch command =>
      simp only [turn?, begin_] at h
      split at h
      · cases h
        exact follows_quiet rfl fun deed hdeed => nomatch hdeed
      · next run l hr =>
        cases h
        have hf : r.find? command.target = some run := (Workspace.registered?_eq_some hr).1
        refine ⟨?_, ?_⟩
        · rintro deed ⟨⟩
          exact hb _ _ hf
        · rintro deed ⟨⟩
          exact List.mem_append_right _ List.mem_cons_self
    | close pane =>
      cases h
      exact follows_takeOut hb pane none fun handled hh => nomatch hh
    | register l =>
      cases h
      refine follows_putIn ?_ r _
      rintro j pane own hmem rfl
      exact absurd (hn j pane _ hmem) (Nat.lt_irrefl _)
    | reregister run =>
      obtain ⟨l, -, rfl⟩ := Option.map_eq_some_iff.mp h
      have hd : (Deed.returned l.pane.id run).Grounded start past i := trivial
      exact follows_putIn hd r _
  | routed command run =>
    obtain ⟨l, -, rfl⟩ := Option.map_eq_some_iff.mp h
    exact follows_quiet rfl hc
  | answered command handled =>
    obtain ⟨l, -, rfl⟩ := Option.map_eq_some_iff.mp h
    split
    · exact follows_quiet rfl hc
    · exact follows_quiet rfl fun deed hdeed => nomatch hdeed
  | leaving pane handled =>
    cases h
    refine follows_takeOut hb pane (some handled) ?_
    rintro _ ⟨⟩
    exact hc _ rfl
  | holding pane behalf run =>
    cases h
    refine ⟨?_, fun deed hdeed => nomatch hdeed⟩
    rintro deed ⟨⟩
    exact ⟨pane, hc _ rfl⟩
  | done answer => cases h

end Registry

namespace Desk

structure Sound (start : Registry) (d : Desk) (past : List (Nat × Deed)) : Prop where
  behind : ∀ pane run, d.registry.find? pane = some run → start.latest? past pane = some run
  numbered : ∀ j pane own, (j, .found pane own) ∈ past → own.index < d.registry.runs.length
  recalled : ∀ (i : Nat) (caller : Caller), d.callers[i]? = some caller →
    ∀ deed ∈ caller.recall?, (i, deed) ∈ past

variable {start : Registry} {d : Desk} {past : List (Nat × Deed)}

theorem sound_of (r : Registry) (calls : List Call) : Sound r (of r calls) [] where
  behind _ _ h := h
  numbered _ _ _ h := nomatch h
  recalled i caller hi deed hdeed := by
    obtain ⟨call, -, rfl⟩ := List.mem_map.mp (List.mem_of_getElem? hi)
    cases hdeed

theorem step_cases (d : Desk) (i now : Nat) :
    d.step i now = (d, []) ∨ ∃ caller t, d.callers[i]? = some caller ∧
      d.registry.turn? now caller = some t ∧
        d.step i now = (⟨t.registry, d.callers.set i t.caller, d.told ++ t.told⟩, t.deeds i) := by
  simp only [step]
  cases ht : (d.callers[i]?).bind (d.registry.turn? now) with
  | none => exact .inl rfl
  | some t =>
    obtain ⟨caller, hi, hturn⟩ := Option.bind_eq_some_iff.mp ht
    exact .inr ⟨caller, t, hi, hturn, rfl⟩

theorem Sound.step (h : Sound start d past) (i now : Nat) :
    Sound start (d.step i now).1 (past ++ (d.step i now).2) ∧
      ((d.step i now).2 = [] ∨
        ∃ deed, (d.step i now).2 = [(i, deed)] ∧ deed.Grounded start past i) := by
  rcases d.step_cases i now with hs | ⟨caller, t, hi, hturn, hs⟩
  · rw [hs, List.append_nil]
    exact ⟨h, .inl rfl⟩
  rw [hs]
  have hfollows := Registry.follows_turn h.behind h.numbered (h.recalled i caller hi) hturn
  have hkeeps := Registry.keeps_turn hturn
  refine ⟨⟨?_, ?_, ?_⟩, ?_⟩
  · intro pane run hf
    have hkept := hkeeps.behind pane run hf
    rw [Registry.latest?_append, lastPut_deeds]
    cases hd : t.deed.bind (Deed.put? pane) with
    | none =>
      rw [hd] at hkept
      exact h.behind pane run hkept
    | some run' =>
      rw [hd] at hkept
      exact hkept
  · intro j pane own hmem
    rcases List.mem_append.mp hmem with hpast | hnew
    · exact Nat.lt_of_lt_of_le (h.numbered j pane own hpast) hkeeps.length
    · obtain ⟨deed, hd, he⟩ := List.mem_map.mp hnew
      cases he
      exact Nat.lt_of_lt_of_le (hkeeps.found pane own (Option.mem_toList.mp hd)) hkeeps.length
  · intro j other hj deed hdeed
    by_cases hij : i = j
    · subst hij
      rw [List.getElem?_set_self (List.getElem?_eq_some_iff.mp hi).1] at hj
      cases hj
      exact hfollows.recalled deed hdeed
    · rw [List.getElem?_set_ne hij] at hj
      exact List.mem_append_left _ (h.recalled j other hj deed hdeed)
  · rw [Turn.deeds]
    cases hd : t.deed with
    | none => exact .inl rfl
    | some deed => exact .inr ⟨deed, rfl, hfollows.grounded deed hd⟩

theorem Sound.grounded (h : Sound start d past) {schedule : Schedule}
    {front back : List (Nat × Deed)} {i : Nat} {deed : Deed}
    (hd : (d.run schedule).2 = front ++ (i, deed) :: back) :
    deed.Grounded start (past ++ front) i := by
  induction schedule generalizing d past front with
  | nil => cases front <;> cases hd
  | cons turn rest ih =>
    obtain ⟨j, now⟩ := turn
    obtain ⟨hnext, hdeeds⟩ := h.step j now
    simp only [run] at hd
    rcases hdeeds with hnone | ⟨first, hone, hfirst⟩
    · rw [hnone, List.append_nil] at hnext
      rw [hnone] at hd
      exact ih hnext hd
    · rw [hone] at hnext hd
      cases front with
      | nil =>
        cases hd
        rwa [List.append_nil]
      | cons entry front =>
        obtain ⟨rfl, hrest⟩ := List.cons.inj hd
        rw [List.append_cons]
        exact ih hnext hrest

section

variable {r : Registry} {calls : List Call} {schedule : Schedule} {front back : List (Nat × Deed)}
  {i : Nat} {pane : PaneId} {own run : RunId}

theorem took_last_put
    (hd : ((of r calls).run schedule).2 = front ++ (i, .took pane (some own) run) :: back) :
    ∃ before window, front = before ++ (i, .found pane own) :: window ∧
      run = (lastPut pane window).getD own := by
  obtain ⟨htook, hmem⟩ := (sound_of r calls).grounded hd
  obtain ⟨before, window, rfl⟩ := List.append_of_mem (hmem own rfl)
  rw [List.append_assoc, List.cons_append] at hd
  have hfound : r.latest? before pane = some own := (sound_of r calls).grounded hd
  have hlast : (lastPut pane window).or (r.latest? before pane) = some run := by
    rw [List.nil_append, Registry.latest?_append] at htook
    exact htook
  refine ⟨before, window, rfl, ?_⟩
  rw [hfound] at hlast
  cases hw : lastPut pane window with
  | none =>
    rw [hw] at hlast
    exact (Option.some.inj hlast).symm
  | some other =>
    rw [hw] at hlast
    exact (Option.some.inj hlast).symm

theorem shut_of_took
    (hd : ((of r calls).run schedule).2 = front ++ (i, .shut (some own) run) :: back) :
    ∃ pane before rest, front = before ++ (i, .took pane (some own) run) :: rest := by
  obtain ⟨pane, hmem⟩ := (sound_of r calls).grounded hd
  exact ⟨pane, List.append_of_mem hmem⟩

theorem ne_of_entered {window : List (Nat × Deed)}
    (hd : ((of r calls).run schedule).2 = front ++ (i, .found pane own) :: (window ++ back))
    {j : Nat} {other : RunId} {p : PaneId} (hm : (j, .entered p other) ∈ window) : own ≠ other := by
  obtain ⟨earlier, later, rfl⟩ := List.append_of_mem hm
  rw [List.append_assoc, List.cons_append, ← List.cons_append, ← List.append_assoc] at hd
  exact (sound_of r calls).grounded hd i pane own (by simp)

end

/-- What a dispatch takes out or shuts down is the run that was put under the id last since it
looked the pane up, and the run that it was routed to if none was. One that entered as a new pane
meanwhile is another run. -/
theorem closes_last_put (r : Registry) (calls : List Call) (schedule : Schedule)
    {front back : List (Nat × Deed)} {i : Nat} {deed : Deed} {own run : RunId}
    (hd : ((of r calls).run schedule).2 = front ++ (i, deed) :: back)
    (hc : deed.closed? = some (own, run)) :
    ∃ pane before window rest,
      front ++ [(i, deed)] =
        before ++ (i, .found pane own) :: (window ++ (i, .took pane (some own) run) :: rest) ∧
      run = (lastPut pane window).getD own ∧
      ∀ j other, (j, .entered pane other) ∈ window → other ≠ own := by
  -- what is shut down was taken out before, so both come down to the place where it was taken out
  have htook : ∃ pane prior rest,
      front ++ [(i, deed)] = prior ++ (i, .took pane (some own) run) :: rest := by
    cases deed with
    | took pane routed run' =>
      cases routed <;> cases hc
      exact ⟨pane, front, [], rfl⟩
    | shut routed run' =>
      cases routed <;> cases hc
      obtain ⟨pane, prior, rest, rfl⟩ := shut_of_took hd
      exact ⟨pane, prior, rest ++ [(i, .shut (some own) run)], by simp⟩
    | _ => cases hc
  obtain ⟨pane, prior, rest, hprior⟩ := htook
  rw [List.append_cons, hprior, List.append_assoc, List.cons_append] at hd
  obtain ⟨before, window, rfl, hrun⟩ := took_last_put hd
  rw [List.append_assoc, List.cons_append] at hd hprior
  exact ⟨pane, before, window, rest, hprior, hrun, fun j other hm => (ne_of_entered hd hm).symm⟩

def kill : CommandEnvelope := ⟨⟨"c1"⟩, none, ⟨"p1"⟩, .terminal .kill, 0⟩

def terminal (epoch : Nat) : LivePane :=
  .create ((Pane.create ⟨"p1"⟩ (.create ⟨"p1"⟩ .terminal) .empty (.ofKind .terminal) epoch 4).start
    0).pane

def reopening : List Call :=
  [.register (terminal 0), .dispatch kill, .close ⟨"p1"⟩, .register (terminal 1)]

def reopened : Schedule :=
  [(0, 0), (1, 1), (1, 2), (1, 3), (2, 4), (2, 5), (3, 6), (1, 7), (1, 8)]

theorem closes_last_put_reopened :
    let deeds := ((of (.create 1000) reopening).run reopened).2
    (1, .shut (some ⟨0⟩) ⟨1⟩) ∈ deeds ∧ ∃ pane before window rest,
      deeds = before ++ (1, .found pane ⟨0⟩) :: (window ++ (1, .took pane (some ⟨0⟩) ⟨1⟩) :: rest) ∧
      (⟨1⟩ : RunId) = (lastPut pane window).getD ⟨0⟩ := by
  intro deeds
  have hdeeds : deeds = deeds.dropLast ++ (1, .shut (some ⟨0⟩) ⟨1⟩) :: [] := by decide +kernel
  obtain ⟨pane, before, window, rest, hall, hrun, -⟩ :=
    closes_last_put (.create 1000) reopening reopened hdeeds rfl
  exact ⟨by decide +kernel, pane, before, window, rest, hdeeds.trans hall, hrun⟩

/-- What a dispatch takes out or shuts down is the run that it was routed to. -/
def Own (deeds : List (Nat × Deed)) : Prop :=
  ∀ entry ∈ deeds, ∀ own run, entry.2.closed? = some (own, run) → run = own

theorem not_always_own : ¬ ∀ (r : Registry) (calls : List Call) (schedule : Schedule),
    Own ((of r calls).run schedule).2 := by
  intro h
  have hown := h (.create 1000) reopening reopened (1, .took ⟨"p1"⟩ (some ⟨0⟩) ⟨1⟩)
    (by decide +kernel) ⟨0⟩ ⟨1⟩ rfl
  cases hown

section

variable {r : Registry} {now : Nat}

theorem run_cons (d : Desk) (i now : Nat) (rest : Schedule) :
    (d.run ((i, now) :: rest)).1 = ((d.step i now).1.run rest).1 := rfl

theorem step_alone {caller : Caller} {told : List Envelope} {t : Turn}
    (h : r.turn? now caller = some t) :
    (step ⟨r, [caller], told⟩ 0 now).1 = ⟨t.registry, [t.caller], told ++ t.told⟩ := by
  have hturn : (([caller] : List Caller)[0]?).bind (r.turn? now) = some t := h
  simp only [step, hturn, List.set_cons_zero]

theorem run_done (answer : Answer) (told : List Envelope) (n : Nat) :
    (run ⟨r, [.done answer], told⟩ (List.replicate n (0, now))).1 = ⟨r, [.done answer], told⟩ := by
  induction n with
  | zero => rfl
  | succ n ih => exact ih

theorem run_takeOut {caller : Caller} {behalf : Option Handled} {pane : PaneId}
    (h : r.turn? now caller = some (r.takeOut pane behalf)) (told : List Envelope) :
    (run ⟨r, [caller], told⟩ (List.replicate 2 (0, now))).1 =
      ⟨(r.close pane now).registry, [.done (.of (r.close pane now).result behalf)],
        told ++ (r.close pane now).told⟩ := by
  rw [List.replicate_succ, run_cons, step_alone h]
  simp only [Registry.takeOut, Registry.close]
  cases hu : r.unregister pane with
  | error e => exact run_done _ _ 1
  | ok taken =>
    rw [List.replicate_succ, run_cons, step_alone rfl, List.append_nil]
    rfl

theorem run_close (r : Registry) (pane : PaneId) (now : Nat) :
    ((of r [.close pane]).run (List.replicate 2 (0, now))).1 =
      ⟨(r.close pane now).registry, [.done (.closed (r.close pane now).result)],
        (r.close pane now).told⟩ := by
  have hturn : r.turn? now (.asks (.close pane)) = some (r.takeOut pane none) := rfl
  exact run_takeOut hturn []

theorem run_dispatch (r : Registry) (command : CommandEnvelope) (now : Nat) :
    ((of r [.dispatch command]).run (List.replicate 5 (0, now))).1 =
      ⟨(r.dispatch command now).registry,
        [.done (.dispatched (r.dispatch command now).result)], (r.dispatch command now).told⟩ := by
  cases hr : r.registered? command.target with
  | none =>
    have hturn : r.turn? now (.asks (.dispatch command)) =
        some ⟨r, .done (.dispatched (.error (.unknownPane command.target))), [], none⟩ := by
      simp only [Registry.turn?, Registry.begin_, hr]
    have hstays (result) : r.leaves command.target result = false := by
      rw [Registry.leaves, Registry.lookup?_eq, hr]
      rfl
    simp only [Registry.dispatch, Registry.handle, hr, hstays, Bool.false_eq_true, if_false]
    rw [List.replicate_succ, run_cons]
    exact (congrArg (fun d => (run d _).1) (step_alone hturn)).trans (run_done _ _ 4)
  | some found =>
    obtain ⟨run, l⟩ := found
    obtain ⟨hf, hl⟩ := Workspace.registered?_eq_some hr
    let o := l.pane.handle command now
    let q := r.update run (l.afterwards o)
    have hq : q.run? run = some (l.afterwards o) := Registry.run?_update hl
    have hhandle : r.handle command now = ⟨q, o.told, o.result⟩ := by
      simp only [Registry.handle, hr]
      rfl
    have hleaves : q.leaves command.target o.result = o.ends := by
      have hfind : q.find? command.target = some run := hf
      rw [Registry.leaves, Registry.lookup?, hfind, Option.bind_some, hq]
      rfl
    have hfound : r.turn? now (.asks (.dispatch command)) =
        some ⟨r, .routed command run, [], some (.found command.target run)⟩ := by
      simp only [Registry.turn?, Registry.begin_, hr]
    have hanswered : r.turn? now (.routed command run) =
        some ⟨q, .answered command ⟨run, o.result⟩, o.told, none⟩ := by
      simp only [Registry.turn?, hl, Option.map_some]
      rfl
    have hends : q.turn? now (.answered command ⟨run, o.result⟩) =
        some (if o.ends then ⟨q, .leaving command.target ⟨run, o.result⟩, [], none⟩
          else ⟨q, .done (.dispatched o.result), [], none⟩) := by
      simp only [Registry.turn?, hq, Option.map_some]
      rfl
    simp only [Registry.dispatch, hhandle, hleaves]
    rw [List.replicate_succ, run_cons, of, List.map_singleton, step_alone hfound,
      List.replicate_succ, run_cons, step_alone hanswered,
      List.replicate_succ, run_cons, step_alone hends]
    cases he : o.ends with
    | true => exact (run_takeOut rfl _).trans (by simp [Answer.of])
    | false => exact (run_done _ _ 2).trans (by simp)

end

end Desk

end Switchboard
