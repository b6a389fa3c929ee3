import Switchboard.Pane

/-!
# What a pane tells of its states

The states of a pane can be read off what it tells: every change of state is told with the state
before it, no change leads back, a failure is told right before the end, and behind the end there is
nothing. What a backend tells in between is another matter: a scripted one may tell anything, while
the events of all the others are about their own kind of pane.
-/
namespace Switchboard

theorem LifecycleState.rank_lt_terminated {s : LifecycleState} (h : s.isTerminal = false) :
    s.rank < LifecycleState.terminated.rank := by
  cases s with
  | terminated => cases h
  | _ => decide

theorem Lifecycle.advance_eq_ok {l : Lifecycle} {target : LifecycleState}
    {out : Lifecycle × Transition} (h : l.advance target = .ok out) :
    l.state.rank < target.rank ∧ out = ({ l with state := target }, ⟨l.state, target⟩) := by
  simp only [advance] at h
  split at h
  next => cases h
  next hr =>
    cases h
    exact ⟨Nat.lt_of_not_le hr, rfl⟩

namespace Event

def transition? : Event → Option Transition
  | .lifecycle (.stateChanged source target) => some ⟨source, target⟩
  | _ => none

def failure? : Event → Option String
  | .lifecycle (.failed reason) => some reason
  | _ => none

def IsPlain (e : Event) : Prop := e.transition? = none ∧ e.failure? = none

end Event

/-- The events can be told on the way from one state to another, with others of a kind between
them. -/
inductive Tale (Own : Event → Prop) : LifecycleState → List Event → LifecycleState → Prop where
  | nil (s : LifecycleState) : Tale Own s [] s
  | own {s u : LifecycleState} {e : Event} {rest : List Event} (hs : s.isTerminal = false)
      (he : Own e) (h : Tale Own s rest u) : Tale Own s (e :: rest) u
  | change {t : Transition} {u : LifecycleState} {rest : List Event}
      (ht : t.source.rank < t.target.rank) (h : Tale Own t.target rest u) :
      Tale Own t.source (Pane.transitionEvent t :: rest) u
  | failed {s u : LifecycleState} {rest : List Event} (reason : String)
      (h : Tale Own s (Pane.transitionEvent ⟨s, .terminated⟩ :: rest) u) :
      Tale Own s (.lifecycle (.failed reason) :: Pane.transitionEvent ⟨s, .terminated⟩ :: rest) u

namespace Tale

variable {Own : Event → Prop} {s t u : LifecycleState} {events more : List Event}

theorem append (h : Tale Own s events t) (h' : Tale Own t more u) :
    Tale Own s (events ++ more) u := by
  induction h with
  | nil s => exact h'
  | own hs he _ ih => exact .own hs he (ih h')
  | change ht _ ih => exact .change ht (ih h')
  | failed reason _ ih => exact .failed reason (ih h')

theorem owns (hs : s.isTerminal = false) (he : ∀ e ∈ events, Own e) : Tale Own s events s := by
  induction events with
  | nil => exact .nil s
  | cons e rest ih =>
    exact .own hs (he e List.mem_cons_self) (ih fun x hx => he x (List.mem_cons_of_mem _ hx))

theorem ending (hs : s.isTerminal = false) :
    Tale Own s [Pane.transitionEvent ⟨s, .terminated⟩] .terminated :=
  .change (t := ⟨s, .terminated⟩) (LifecycleState.rank_lt_terminated hs) (.nil _)

theorem eq_nil (h : Tale Own s events u) (hs : s.isTerminal = true) : events = [] := by
  induction h with
  | nil s => rfl
  | own hopen _ _ =>
    rw [hopen] at hs
    cases hs
  | @change t u rest ht _ _ =>
    have hend : t.source = .terminated := eq_of_beq hs
    rw [hend] at ht
    cases hu : t.target <;> rw [hu] at ht <;> exact absurd ht (by decide)
  | failed reason _ ih => cases ih hs

theorem eq_of_nil (h : Tale Own s [] u) : s = u := by
  generalize hnone : ([] : List Event) = events at h
  cases h with
  | nil s => rfl
  | _ => cases hnone

theorem last_eq (h : Tale Own s events u) (hs : s.isTerminal = false) (hu : u.isTerminal = true) :
    ∃ t : Transition, t.target = .terminated ∧
      events.getLast? = some (Pane.transitionEvent t) := by
  have hbehind : ∀ {e last : Event} {rest : List Event}, rest.getLast? = some last →
      (e :: rest).getLast? = some last := by
    intro e last rest hlast
    rw [List.getLast?_cons, hlast, Option.getD_some]
  induction h with
  | nil s =>
    rw [hs] at hu
    cases hu
  | own _ _ _ ih => exact (ih hs hu).imp fun t h => ⟨h.1, hbehind h.2⟩
  | @change t u rest _ hrest ih =>
    cases ht : t.target.isTerminal with
    | true =>
      rw [hrest.eq_nil ht]
      exact ⟨t, eq_of_beq ht, rfl⟩
    | false => exact (ih ht hu).imp fun t h => ⟨h.1, hbehind h.2⟩
  | failed _ _ ih => exact (ih hs hu).imp fun t h => ⟨h.1, hbehind h.2⟩

theorem sources (h : Tale Event.IsPlain s events u) :
    (events.filterMap Event.transition?).map (·.source) =
      (s :: (events.filterMap Event.transition?).map (·.target)).dropLast := by
  induction h with
  | nil s => rfl
  | own _ he _ ih =>
    rw [List.filterMap_cons_none he.1]
    exact ih
  | @change t u rest _ _ ih => exact congrArg (t.source :: ·) ih
  | failed reason _ ih => exact ih

theorem rises (h : Tale Event.IsPlain s events u) :
    (s :: (events.filterMap Event.transition?).map (·.target)).Pairwise (·.rank < ·.rank) := by
  induction h with
  | nil s => exact List.pairwise_singleton _ _
  | own _ he _ ih =>
    rw [List.filterMap_cons_none he.1]
    exact ih
  | @change t u rest ht _ ih =>
    refine List.pairwise_cons.mpr ⟨?_, ih⟩
    intro x hx
    rcases List.mem_cons.mp hx with rfl | hx
    · exact ht
    · exact Nat.lt_trans ht ((List.pairwise_cons.mp ih).1 x hx)
  | failed reason _ ih => exact ih

theorem last (h : Tale Event.IsPlain s events u) :
    u = ((events.filterMap Event.transition?).map (·.target)).getLast?.getD s := by
  induction h with
  | nil s => rfl
  | own _ he _ ih =>
    rw [List.filterMap_cons_none he.1]
    exact ih
  | @change t u rest _ _ ih =>
    have hcons : (Pane.transitionEvent t :: rest).filterMap Event.transition? =
        t :: rest.filterMap Event.transition? := rfl
    rw [hcons, List.map_cons, List.getLast?_cons, Option.getD_some]
    exact ih
  | failed reason _ ih => exact ih

theorem failed_next (h : Tale Event.IsPlain s events u) {i : Nat} {e : Event} {reason : String}
    (hi : events[i]? = some e) (he : e.failure? = some reason) :
    ∃ s, events[i + 1]? = some (Pane.transitionEvent ⟨s, .terminated⟩) := by
  induction h generalizing i with
  | nil s => cases hi
  | own _ hp _ ih =>
    cases i with
    | zero =>
      cases hi
      rw [hp.2] at he
      cases he
    | succ i => exact ih hi
  | change _ _ ih =>
    cases i with
    | zero =>
      cases hi
      cases he
    | succ i => exact ih hi
  | @failed s u rest _ _ ih =>
    cases i with
    | zero => exact ⟨s, rfl⟩
    | succ i => exact ih hi

theorem ends (h : Tale Event.IsPlain s events u) {i : Nat} {e : Event} {t : Transition}
    (hi : events[i]? = some e) (he : e.transition? = some t) (ht : t.target = .terminated) :
    events.length = i + 1 := by
  induction h generalizing i with
  | nil s => cases hi
  | own _ hp _ ih =>
    cases i with
    | zero =>
      cases hi
      rw [hp.1] at he
      cases he
    | succ i => exact congrArg (· + 1) (ih hi)
  | @change t' u rest _ hrest ih =>
    cases i with
    | zero =>
      cases hi
      cases he
      rw [hrest.eq_nil (by rw [ht]; rfl)]
      rfl
    | succ i => exact congrArg (· + 1) (ih hi)
  | failed _ _ ih =>
    cases i with
    | zero =>
      cases hi
      cases he
    | succ i => exact congrArg (· + 1) (ih hi)

end Tale

namespace Backend

structure Proper (Fit : Backend → Prop) (Own : Event → Prop) (r : Reply) : Prop where
  fit : Fit r.1
  own : ∀ events, r.2 = .ok events → ∀ e ∈ events, Own e

structure Manners (Fit : Backend → Prop) (Own : Event → Prop) : Prop where
  start : ∀ b metadata, Fit b → Proper Fit Own (b.start metadata)
  apply : ∀ b command, Fit b → Proper Fit Own (b.apply command)
  shutdown : ∀ b, Fit b → Fit b.shutdown.1
  metadata : ∀ m, Own (.lifecycle (.metadataChanged m))

theorem manners_any : Manners (fun _ => True) fun _ => True where
  start _ _ _ := ⟨trivial, fun _ _ _ _ => trivial⟩
  apply _ _ _ := ⟨trivial, fun _ _ _ _ => trivial⟩
  shutdown _ _ := trivial
  metadata _ := trivial

def BuiltIn : Backend → Prop
  | .scripted _ => False
  | _ => True

theorem proper_reply {σ ε : Type} {wrap : σ → Backend} (hw : ∀ s, (wrap s).BuiltIn)
    {event : ε → Event} (he : ∀ x, (event x).IsPlain) (r : Reaction σ ε) :
    Proper BuiltIn Event.IsPlain (reply wrap event r) := by
  rcases r with ⟨state, _ | own⟩
  · exact ⟨hw state, fun events h => nomatch h⟩
  · refine ⟨hw state, ?_⟩
    intro events h e hmem
    cases h
    obtain ⟨x, -, rfl⟩ := List.mem_map.mp hmem
    exact he x

theorem manners_builtIn : Manners BuiltIn Event.IsPlain where
  start b metadata hb := by
    cases b with
    | scripted s => cases hb
    | _ =>
      rw [start]
      exact proper_reply (by exact fun _ => trivial) (by exact fun _ => ⟨rfl, rfl⟩) _
  apply b command hb := by
    have hwrong : Proper BuiltIn Event.IsPlain (b, .error (.wrongDomain b.kind command)) :=
      ⟨hb, fun events h => nomatch h⟩
    cases b with
    | scripted s => cases hb
    | _ =>
      cases command <;> first
        | exact hwrong
        | exact proper_reply (by exact fun _ => trivial) (by exact fun _ => ⟨rfl, rfl⟩) _
  shutdown b hb := by
    cases b with
    | scripted s => cases hb
    | _ => trivial
  metadata _ := ⟨rfl, rfl⟩

end Backend

namespace Pane

theorem backend_tell (p : Pane) (cause : Cause) (events : List Event) :
    (p.tell cause events).1.backend = p.backend := by
  induction events generalizing p with
  | nil => rfl
  | cons event rest ih => exact ih _

theorem lifecycle_tell (p : Pane) (cause : Cause) (events : List Event) :
    (p.tell cause events).1.lifecycle = p.lifecycle := by
  induction events generalizing p with
  | nil => rfl
  | cons event rest ih => exact ih _

theorem events_tell (p : Pane) (cause : Cause) (events : List Event) :
    (p.tell cause events).2.map Envelope.event = events := by
  induction events generalizing p with
  | nil => rfl
  | cons event rest ih => exact congrArg (event :: ·) (ih _)

theorem open_of_not_refused {p : Pane} {command : CommandEnvelope}
    (h : p.refusal? command = none) : p.state.isTerminal = false := by
  cases hs : p.state with
  | terminated =>
    have hclosed : (!p.state.acceptsCommands) = true := by rw [hs]; rfl
    simp only [refusal?] at h
    split at h
    · cases h
    · split at h
      · cases h
      · cases h
  | _ => rfl

section

variable {α : Type} {p : Pane} {before : LifecycleState}
  {Fit : Backend → Prop} {Own : Event → Prop}

structure Narrates (Fit : Backend → Prop) (Own : Event → Prop) (before : LifecycleState)
    (o : Outcome α) : Prop where
  tale : Tale Own before (o.told.map Envelope.event) o.pane.state
  fit : Fit o.pane.backend

theorem Narrates.withResult {β : Type} {o : Outcome α} (h : Narrates Fit Own before o)
    (result : β) : Narrates Fit Own before { o with result } := ⟨h.tale, h.fit⟩

theorem narrates_silent (hb : Fit p.backend) (result : α) :
    Narrates Fit Own p.state (p.silent result) := ⟨.nil _, hb⟩

theorem narrates_telling (hb : Fit p.backend) {events : List Event}
    (h : Tale Own before events p.state) (cause : Cause) (result : α) :
    Narrates Fit Own before (p.telling cause events result) where
  tale := by
    have hstate : (p.telling cause events result).pane.state = p.state :=
      congrArg Lifecycle.state (p.lifecycle_tell cause events)
    have hevents : (p.telling cause events result).told.map Envelope.event = events :=
      p.events_tell cause events
    rw [hstate, hevents]
    exact h
  fit := (p.backend_tell cause events).symm ▸ hb

theorem narrates_fail (hb : Fit p.backend) (cause : Cause) (reason : String) (result : α) :
    Narrates Fit Own p.state (p.fail cause reason result) := by
  by_cases hp : p.state.isTerminal = true
  · have hf : p.lifecycle.fail reason = (p.lifecycle, none) := if_pos hp
    simp only [fail, hf]
    exact narrates_silent hb result
  · have hf : p.lifecycle.fail reason =
        (⟨.terminated, some reason⟩, some ⟨p.lifecycle.state, .terminated⟩) := if_neg hp
    simp only [fail, hf]
    refine narrates_telling (p := { p with lifecycle := ⟨.terminated, some reason⟩ }) hb ?_ _ _
    exact (Tale.ending (Bool.eq_false_iff.mpr hp)).failed reason

theorem narrates_start (hm : Backend.Manners Fit Own) (hb : Fit p.backend) (now : Nat) :
    Narrates Fit Own p.state (p.start now) := by
  have hanswer := hm.start _ p.metadata hb
  simp only [start]
  generalize p.backend.start p.metadata = answer at hanswer
  rcases answer with ⟨backend, e | events⟩
  · exact narrates_fail (p := { p with backend }) hanswer.fit _ _ _
  · cases hr : p.lifecycle.markReady with
    | error e => exact narrates_silent (p := { p with backend }) hanswer.fit _
    | ok out =>
      obtain ⟨hrank, rfl⟩ := Lifecycle.advance_eq_ok hr
      refine narrates_telling hanswer.fit ?_ _ _
      exact .change (t := ⟨p.state, .ready⟩) hrank (.owns rfl (hanswer.own events rfl))

structure Steps (Own : Event → Prop) (p : Pane) (step : Pane × List Event) : Prop where
  tale : Tale Own p.state step.2 step.1.state
  backend : step.1.backend = p.backend

theorem steps_terminate (p : Pane) : Steps Own p p.terminate := by
  by_cases hp : p.state.isTerminal = true
  · have ht : p.lifecycle.terminate = (p.lifecycle, none) := if_pos hp
    simp only [terminate, ht]
    exact ⟨.nil _, rfl⟩
  · have ht : p.lifecycle.terminate =
        ({ p.lifecycle with state := .terminated }, some ⟨p.lifecycle.state, .terminated⟩) :=
      if_neg hp
    simp only [terminate, ht]
    exact ⟨.ending (Bool.eq_false_iff.mpr hp), rfl⟩

theorem steps_endIfStopped (p : Pane) : Steps Own p p.endIfStopped := by
  rw [endIfStopped]
  split
  · exact ⟨.nil _, rfl⟩
  · exact p.steps_terminate

theorem steps_beginDrain (p : Pane) : Steps Own p p.beginDrain := by
  cases hs : p.state with
  | ready =>
    cases hd : p.lifecycle.beginDrain with
    | error e =>
      simp only [beginDrain, hs, hd]
      exact ⟨.nil _, rfl⟩
    | ok out =>
      obtain ⟨hrank, rfl⟩ := Lifecycle.advance_eq_ok hd
      simp only [beginDrain, hs, hd]
      exact ⟨.change (t := ⟨p.state, .draining⟩) hrank (.nil _), rfl⟩
  | _ =>
    simp only [beginDrain, hs]
    exact ⟨.nil _, rfl⟩

theorem narrates_applyBackend (hm : Backend.Manners Fit Own) (hb : Fit p.backend)
    (hp : p.state.isTerminal = false) (command : CommandEnvelope) (now : Nat) :
    Narrates Fit Own p.state (p.applyBackend command now) := by
  have hanswer := hm.apply _ command.command hb
  simp only [applyBackend]
  generalize p.backend.apply command.command = answer at hanswer
  rcases answer with ⟨backend, e | events⟩
  · cases e with
    | invalid reason => exact narrates_silent (p := { p with backend }) hanswer.fit _
    | fatal reason => exact narrates_fail (p := { p with backend }) hanswer.fit _ _ _
  · have hevents : Tale Own p.state events p.state := .owns hp (hanswer.own events rfl)
    have hend : Steps Own { p with backend } _ := steps_endIfStopped { p with backend }
    refine Narrates.withResult ?_ _
    refine narrates_telling ?_ (hevents.append hend.tale) _ _
    rw [hend.backend]
    exact hanswer.fit

theorem narrates_updateMetadata (hm : Backend.Manners Fit Own) (hb : Fit p.backend)
    (hp : p.state.isTerminal = false) {cause : Cause} {patch : MetadataPatch} {o : Outcome Unit}
    (hu : p.updateMetadata cause patch = .ok o) : Narrates Fit Own p.state o := by
  simp only [updateMetadata] at hu
  split at hu
  · cases hu
  · split at hu
    · cases hu
    · split at hu
      · cases hu
        refine narrates_telling (p := { p with metadata := patch.apply p.metadata }) hb ?_ _ _
        exact .own hp (hm.metadata _) (.nil _)
      · cases hu
        exact narrates_silent (p := { p with metadata := patch.apply p.metadata }) hb ()

theorem narrates_handle (hm : Backend.Manners Fit Own) (hb : Fit p.backend)
    (command : CommandEnvelope) (now : Nat) :
    Narrates Fit Own p.state (p.handle command now) := by
  simp only [handle]
  cases hr : p.refusal? command with
  | some e => exact narrates_silent hb _
  | none =>
    have hp := open_of_not_refused hr
    cases command.command with
    | updateMetadata patch =>
      simp only
      cases hu : p.updateMetadata (Cause.of command now) patch with
      | error e => exact narrates_silent hb _
      | ok o => exact (narrates_updateMetadata hm hb hp hu).withResult _
    | _ => exact narrates_applyBackend hm hb hp command now

theorem narrates_shutdown (hm : Backend.Manners Fit Own) (hb : Fit p.backend) (now : Nat) :
    Narrates Fit Own p.state (p.shutdown now) := by
  simp only [shutdown]
  by_cases hr : p.released = true
  · rw [if_pos hr]
    exact narrates_silent hb _
  · rw [if_neg hr]
    have hdrain : Steps Own { p with released := true } _ := steps_beginDrain _
    generalize beginDrain { p with released := true } = q at hdrain
    have hend : Steps Own { q.1 with backend := q.1.backend.shutdown.1 } _ := steps_terminate _
    refine narrates_telling ?_ (hdrain.tale.append hend.tale) _ _
    rw [hend.backend]
    exact hm.shutdown _ (hdrain.backend ▸ hb)

end

end Pane

end Switchboard
