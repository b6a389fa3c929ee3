import Switchboard.Proofs.Pane.Started

/-!
# What a pane holds

A backend holds something from its start until it is shut down. The first shutdown of a pane names
all of that, and no later one names anything. But a start reaches the backend before the pane looks
whether it has ended, so a pane that is started once more after its shutdown holds something again
that nobody lets go of.
-/
namespace Switchboard

def Terminal.held (t : Terminal) : List ResourceId :=
  (if t.alive then [⟨"pty:" ++ t.pane.name⟩] else []) ++
    (if t.started then [⟨"scrollback:" ++ t.pane.name⟩] else [])

def Web.held (w : Web) : List ResourceId :=
  if w.isOpen then [⟨"webview:" ++ w.pane.name⟩] else []

def Diff.held (d : Diff) : List ResourceId :=
  if d.isOpen then [⟨"diff-session:" ++ d.pane.name⟩] else []

/-- A file that is open is held whether or not the viewer itself is open. -/
def Viewer.held (v : Viewer) : List ResourceId :=
  (if v.isOpen then [⟨"viewer:" ++ v.pane.name⟩] else []) ++
    (v.file.map fun f => ⟨"file:" ++ f.display⟩).toList

def Scripted.held (s : Scripted) : List ResourceId := if s.released then [] else s.resources

theorem Terminal.started_apply (t : Terminal) (command : TerminalCommand) :
    (t.apply command).1.started = t.started := by
  cases command with
  | sendInput text =>
    simp only [apply, sendInput]
    split
    · rfl
    · split <;> rfl
  | resize cols rows =>
    simp only [apply]
    split <;> rfl
  | clear => rfl
  | kill =>
    simp only [apply]
    split <;> rfl

theorem Web.isOpen_apply (w : Web) (command : WebCommand) :
    (w.apply command).1.isOpen = w.isOpen := by
  cases command <;> simp only [apply] <;> split <;> rfl

theorem Diff.isOpen_apply (d : Diff) (command : DiffCommand) :
    (d.apply command).1.isOpen = d.isOpen := by
  cases command with
  | selectFile path =>
    simp only [apply]
    split <;> rfl
  | stageHunk path hunk =>
    simp only [apply]
    split <;> rfl
  | unstageHunk path hunk => rfl
  | addComment path line body =>
    simp only [apply]
    split
    · rfl
    · split <;> rfl
  | scroll line => rfl

theorem Viewer.isOpen_apply (v : Viewer) (command : ViewerCommand) :
    (v.apply command).1.isOpen = v.isOpen := by
  cases command with
  | goToLine line column =>
    simp only [apply]
    split
    · rfl
    · split <;> rfl
  | _ =>
    simp only [apply]
    split <;> rfl

theorem ResourceId.ne_of_head {front back : String} (name text : String)
    (h : front.toList.head? ≠ back.toList.head?) (hf : front.toList ≠ [])
    (hb : back.toList ≠ []) : (⟨front ++ name⟩ : ResourceId) ≠ ⟨back ++ text⟩ := by
  intro he
  have hhead := congrArg (fun r : ResourceId => r.name.toList.head?) he
  simp only [String.toList_append, List.head?_append_of_ne_nil _ hf,
    List.head?_append_of_ne_nil _ hb] at hhead
  exact h hhead

namespace Backend

variable {b : Backend}

def held : Backend → List ResourceId
  | .terminal t => t.held
  | .web w => w.held
  | .diff d => d.held
  | .viewer v => v.held
  | .scripted s => s.held

/-- A backend that was started and not shut down since. -/
def isUp : Backend → Bool
  | .terminal t => t.started
  | .web w => w.isOpen
  | .diff d => d.isOpen
  | .viewer v => v.isOpen
  | .scripted s => !s.released

theorem held_create (id : PaneId) (kind : PaneKind) : (create id kind).held = [] := by
  cases kind <;> rfl

theorem isUp_start (hb : b.BuiltIn) (metadata : Metadata) : (b.start metadata).1.isUp = true := by
  cases b with
  | terminal t =>
    simp only [start, reply, isUp, Terminal.start]
    split
    next h => exact h
    next => rfl
  | scripted s => cases hb
  | _ => rfl

theorem isUp_apply (hb : b.BuiltIn) (command : Command) : (b.apply command).1.isUp = b.isUp := by
  cases b with
  | terminal t =>
    cases command with
    | terminal c => exact t.started_apply c
    | _ => rfl
  | web w =>
    cases command with
    | web c => exact w.isOpen_apply c
    | _ => rfl
  | diff d =>
    cases command with
    | diff c => exact d.isOpen_apply c
    | _ => rfl
  | viewer v =>
    cases command with
    | viewer c => exact v.isOpen_apply c
    | _ => rfl
  | scripted s => cases hb

theorem held_ne_nil (hb : b.BuiltIn) (h : b.isUp = true) : b.held ≠ [] := by
  cases b with
  | scripted s => cases hb
  | _ =>
    simp only [isUp] at h
    simp [held, Terminal.held, Web.held, Diff.held, Viewer.held, h]

theorem nodup_held (hb : b.BuiltIn) : b.held.Nodup := by
  cases b with
  | terminal t =>
    have hne : (⟨"pty:" ++ t.pane.name⟩ : ResourceId) ≠ ⟨"scrollback:" ++ t.pane.name⟩ :=
      ResourceId.ne_of_head _ _ (by decide) (by decide) (by decide)
    simp only [held, Terminal.held]
    cases t.alive <;> cases t.started <;> simp [hne]
  | web w =>
    simp only [held, Web.held]
    cases w.isOpen <;> simp
  | diff d =>
    simp only [held, Diff.held]
    cases d.isOpen <;> simp
  | viewer v =>
    simp only [held, Viewer.held]
    cases hf : v.file with
    | none => cases v.isOpen <;> simp
    | some f =>
      have hne : (⟨"viewer:" ++ v.pane.name⟩ : ResourceId) ≠ ⟨"file:" ++ f.display⟩ :=
        ResourceId.ne_of_head _ _ (by decide) (by decide) (by decide)
      cases v.isOpen <;> simp [hne]
  | scripted s => cases hb

theorem shutdown_spec (h : b.isUp = false → b.held = []) :
    b.shutdown.2 = b.held ∧ b.shutdown.1.isUp = false ∧ b.shutdown.1.held = [] := by
  cases b with
  | viewer v =>
    simp only [shutdown, Viewer.shutdown, held, isUp, Viewer.held] at h ⊢
    cases ho : v.isOpen with
    | true => simp
    | false =>
      rw [ho] at h
      simpa [ho] using h
  | _ => exact ⟨rfl, rfl, rfl⟩

end Backend

namespace Pane

variable {p : Pane}

theorem ready_of_not_refused {command : CommandEnvelope} (h : p.refusal? command = none) :
    p.state = .ready := by
  simp only [refusal?] at h
  split at h
  · cases h
  · split at h
    · cases h
    · split at h
      · cases h
      next hs => simpa [LifecycleState.acceptsCommands] using hs

theorem refusal?_of_not_ready (h : p.state ≠ .ready) (command : CommandEnvelope) :
    ∃ e, p.refusal? command = some e := by
  cases hr : p.refusal? command with
  | none => exact absurd (ready_of_not_refused hr) h
  | some e => exact ⟨e, rfl⟩

theorem backend_telling {α : Type} (p : Pane) (cause : Cause) (events : List Event) (result : α) :
    (p.telling cause events result).pane.backend = p.backend := p.backend_tell cause events

theorem backend_fail {α : Type} (p : Pane) (cause : Cause) (reason : String) (result : α) :
    (p.fail cause reason result).pane.backend = p.backend := by
  simp only [fail]
  split
  · rfl
  · rw [backend_telling]

/-- The backend is started before the pane looks whether it may be. -/
theorem backend_start (p : Pane) (now : Nat) :
    (p.start now).pane.backend = (p.backend.start p.metadata).1 := by
  simp only [start]
  split
  next backend e h => rw [backend_fail, h]
  next backend events h =>
    rw [h]
    split
    · rfl
    · rw [backend_telling]

theorem backend_applyBackend (p : Pane) (command : CommandEnvelope) (now : Nat) :
    (p.applyBackend command now).pane.backend = (p.backend.apply command.command).1 := by
  simp only [applyBackend]
  split
  next backend events h =>
    have hend : Steps (fun _ => True) { p with backend } _ := steps_endIfStopped { p with backend }
    rw [acknowledge, backend_telling, hend.backend, h]
  next backend reason h => rw [silent, h]
  next backend reason h => rw [backend_fail, h]

theorem backend_updateMetadata {cause : Cause} {patch : MetadataPatch} {o : Outcome Unit}
    (h : p.updateMetadata cause patch = .ok o) : o.pane.backend = p.backend := by
  simp only [updateMetadata] at h
  split at h
  · cases h
  · split at h
    · cases h
    · split at h
      · cases h
        rw [backend_telling]
      · cases h
        rfl

theorem backend_handle (p : Pane) (command : CommandEnvelope) (now : Nat) :
    (p.handle command now).pane.backend = p.backend ∨
      p.state = .ready ∧
        (p.handle command now).pane.backend = (p.backend.apply command.command).1 := by
  cases hr : p.refusal? command with
  | some e =>
    simp only [handle, hr]
    exact .inl rfl
  | none =>
    have happly := p.backend_applyBackend command now
    simp only [handle, hr]
    split
    next patch _ =>
      cases hu : p.updateMetadata (Cause.of command now) patch with
      | error e => exact .inl rfl
      | ok o => exact .inl (backend_updateMetadata hu)
    next => exact .inr ⟨ready_of_not_refused hr, happly⟩

theorem released_start (p : Pane) (now : Nat) : (p.start now).pane.released = p.released := by
  simp only [start]
  split
  next backend e _ => exact (lasts_fail { p with backend } _ _ _).released
  next backend events _ =>
    split
    · rfl
    · rw [telling, released_tell]

theorem shutdown_of_released (hr : p.released = true) (now : Nat) :
    p.shutdown now = p.silent [] := if_pos hr

theorem shutdown_of_not_released (hr : p.released = false) (now : Nat) :
    (p.shutdown now).pane.backend = p.backend.shutdown.1 ∧
      (p.shutdown now).result = p.backend.shutdown.2 ∧
      (p.shutdown now).pane.released = true := by
  have hdrain : Steps (fun _ => True) { p with released := true } _ := steps_beginDrain _
  have hmark : (beginDrain { p with released := true }).1.released = true := by
    simp only [beginDrain]
    split
    · split <;> rfl
    · rfl
  simp only [shutdown, hr, Bool.false_eq_true, if_false]
  generalize beginDrain { p with released := true } = q at hdrain hmark
  have hend : Steps (fun _ => True) { q.1 with backend := q.1.backend.shutdown.1 } _ :=
    steps_terminate _
  have hlast := (lasts_terminate { q.1 with backend := q.1.backend.shutdown.1 }).1
  refine ⟨?_, ?_, ?_⟩
  · rw [backend_telling, hend.backend, hdrain.backend]
  · show q.1.backend.shutdown.2 = _
    rw [hdrain.backend]
  · exact (released_tell _ _ _).trans (hlast.released.trans hmark)

structure Keeps (p : Pane) : Prop where
  builtIn : p.backend.BuiltIn
  ready : p.state = .ready → p.backend.isUp = true
  settled : p.backend.isUp = false → p.backend.held = []

theorem keeps_create (id : PaneId) (kind : PaneKind) (metadata : Metadata)
    (capabilities : Capabilities) (epoch capacity : Nat) :
    (create id (.create id kind) metadata capabilities epoch capacity).Keeps where
  builtIn := Backend.builtIn_create id kind
  ready h := nomatch h
  settled _ := Backend.held_create id kind

namespace Keeps

theorem of_isUp (hb : p.backend.BuiltIn) (h : p.backend.isUp = true) : p.Keeps where
  builtIn := hb
  ready _ := h
  settled hd := nomatch h.symm.trans hd

theorem start (h : p.Keeps) (now : Nat) : (p.start now).pane.Keeps := by
  have hb := (narrates_start Backend.manners_builtIn h.builtIn now).fit
  refine .of_isUp hb ?_
  rw [backend_start]
  exact Backend.isUp_start h.builtIn p.metadata

theorem handle (h : p.Keeps) (command : CommandEnvelope) (now : Nat) :
    (p.handle command now).pane.Keeps := by
  have hb := (narrates_handle Backend.manners_builtIn h.builtIn command now).fit
  rcases p.backend_handle command now with hsame | ⟨hready, happly⟩
  · refine ⟨hb, fun hs => ?_, hsame ▸ h.settled⟩
    rcases (p.lasts_handle command now).state with hst | hst
    · rw [hsame]
      exact h.ready (hst ▸ hs)
    · rw [hst] at hs
      cases hs
  · refine .of_isUp hb ?_
    rw [happly, Backend.isUp_apply h.builtIn]
    exact h.ready hready

theorem shutdown (h : p.Keeps) (now : Nat) : (p.shutdown now).pane.Keeps := by
  cases hr : p.released with
  | true =>
    rw [shutdown_of_released hr]
    exact h
  | false =>
    have hb := (narrates_shutdown Backend.manners_builtIn h.builtIn now).fit
    obtain ⟨hbackend, -, -⟩ := shutdown_of_not_released hr now
    obtain ⟨-, -, hnone⟩ := Backend.shutdown_spec h.settled
    refine ⟨hb, fun hs => ?_, fun _ => hbackend ▸ hnone⟩
    rw [state_shutdown hr] at hs
    cases hs

theorem perform (h : p.Keeps) : ∀ op, (p.perform op).pane.Keeps
  | .start now => h.start now
  | .handle command now => h.handle command now
  | .shutdown now => h.shutdown now

theorem performAll (h : p.Keeps) (ops : List Operation) : (p.performAll ops).Keeps := by
  induction ops generalizing p with
  | nil => exact h
  | cons op rest ih => exact ih (h.perform op)

theorem held_eq_nil_iff (h : p.Keeps) : p.backend.held = [] ↔ p.backend.isUp = false := by
  refine ⟨fun hn => ?_, h.settled⟩
  cases hu : p.backend.isUp with
  | false => rfl
  | true => exact absurd hn (Backend.held_ne_nil h.builtIn hu)

end Keeps

def Operation.isStart : Operation → Bool
  | .start _ => true
  | _ => false

def Operation.isShutdown : Operation → Bool
  | .shutdown _ => true
  | _ => false

theorem released_performAll (hr : p.released = false) {ops : List Operation}
    (h : ∀ op ∈ ops, op.isShutdown = false) : (p.performAll ops).released = false := by
  induction ops generalizing p with
  | nil => exact hr
  | cons op rest ih =>
    refine ih ?_ fun x hx => h x (List.mem_cons_of_mem _ hx)
    cases op with
    | start now => exact (p.released_start now).trans hr
    | handle command now => exact (p.lasts_handle command now).released.trans hr
    | shutdown now => cases h _ List.mem_cons_self

structure Over (p : Pane) : Prop where
  released : p.released = true
  state : p.state = .terminated

theorem over_shutdown (hr : p.released = false) (now : Nat) : (p.shutdown now).pane.Over :=
  ⟨(shutdown_of_not_released hr now).2.2, state_shutdown hr now⟩

namespace Over

theorem handle (h : p.Over) (command : CommandEnvelope) (now : Nat) :
    (p.handle command now).pane = p := by
  have hclosed : p.state ≠ .ready := by
    rw [h.state]
    decide
  obtain ⟨e, he⟩ := refusal?_of_not_ready hclosed command
  simp only [Pane.handle, he]
  rfl

theorem start (h : p.Over) (now : Nat) :
    (p.start now).pane = { p with backend := (p.backend.start p.metadata).1 } := by
  have hterminal : p.lifecycle.state.isTerminal = true := congrArg LifecycleState.isTerminal h.state
  simp only [Pane.start]
  split
  next backend e hb =>
    have hfail : p.lifecycle.fail e.message = (p.lifecycle, none) := if_pos hterminal
    simp only [fail, hfail, hb]
    rfl
  next backend events hb =>
    have hlate : ∃ e, p.lifecycle.markReady = .error e := by
      refine ⟨_, if_pos ?_⟩
      rw [show p.lifecycle.state = .terminated from h.state]
      decide
    obtain ⟨e, he⟩ := hlate
    simp only [he, hb]
    rfl

theorem perform (h : p.Over) (op : Operation) : (p.perform op).pane.Over := by
  cases op with
  | start now =>
    show (p.start now).pane.Over
    rw [h.start]
    exact ⟨h.released, h.state⟩
  | handle command now =>
    show (p.handle command now).pane.Over
    rw [h.handle]
    exact h
  | shutdown now =>
    show (p.shutdown now).pane.Over
    rw [shutdown_of_released h.released]
    exact h

theorem isUp_perform (h : p.Over) (hb : p.backend.BuiltIn) (op : Operation) :
    (p.perform op).pane.backend.isUp = (p.backend.isUp || op.isStart) := by
  cases op with
  | start now =>
    show (p.start now).pane.backend.isUp = _
    rw [backend_start, Backend.isUp_start hb]
    exact (Bool.or_true _).symm
  | handle command now =>
    show (p.handle command now).pane.backend.isUp = _
    rw [h.handle]
    exact (Bool.or_false _).symm
  | shutdown now =>
    show (p.shutdown now).pane.backend.isUp = _
    rw [shutdown_of_released h.released]
    exact (Bool.or_false _).symm

theorem performAll (h : p.Over) (ops : List Operation) : (p.performAll ops).Over := by
  induction ops generalizing p with
  | nil => exact h
  | cons op rest ih => exact ih (h.perform op)

theorem isUp_performAll (h : p.Over) (hk : p.Keeps) (ops : List Operation) :
    (p.performAll ops).backend.isUp = (p.backend.isUp || ops.any Operation.isStart) := by
  induction ops generalizing p with
  | nil => exact (Bool.or_false _).symm
  | cons op rest ih =>
    have hrest := ih (h.perform op) (hk.perform op)
    rw [h.isUp_perform hk.builtIn, Bool.or_assoc] at hrest
    exact hrest

end Over

/-- What a pane lets go of that is started, given commands and shut down in any order. The first
shutdown answers all that the backend holds then, each thing once, and every later one answers
nothing. From then on the backend holds nothing exactly as long as the pane is not started again; of
what it holds by a later start no shutdown of the pane lets go. -/
theorem held_after_shutdown (id : PaneId) (kind : PaneKind) (metadata : Metadata)
    (capabilities : Capabilities) (epoch capacity : Nat) (before after : List Operation) (now : Nat)
    (hfirst : ∀ op ∈ before, op.isShutdown = false) :
    let p := (create id (.create id kind) metadata capabilities epoch capacity).performAll before
    let q := (p.shutdown now).pane.performAll after
    (p.shutdown now).result = p.backend.held ∧ p.backend.held.Nodup ∧
      (∀ later, (q.shutdown later).result = [] ∧ (q.shutdown later).pane.backend = q.backend) ∧
      q.backend.shutdown.2 = q.backend.held ∧
      (q.backend.held = [] ↔ ∀ op ∈ after, op.isStart = false) := by
  intro p q
  have hp : p.Keeps := (keeps_create id kind metadata capabilities epoch capacity).performAll before
  have hr : p.released = false := released_performAll rfl hfirst
  obtain ⟨hbackend, hresult, -⟩ := shutdown_of_not_released hr now
  obtain ⟨hall, hdown, -⟩ := Backend.shutdown_spec hp.settled
  have hover := over_shutdown hr now
  have hq : q.Keeps := (hp.shutdown now).performAll after
  refine ⟨hresult.trans hall, Backend.nodup_held hp.builtIn, fun later => ?_,
    (Backend.shutdown_spec hq.settled).1, ?_⟩
  · rw [shutdown_of_released (hover.performAll after).released]
    exact ⟨rfl, rfl⟩
  · have hup := hover.isUp_performAll (hp.shutdown now) after
    rw [hbackend, hdown, Bool.false_or] at hup
    rw [hq.held_eq_nil_iff, hup, List.any_eq_false]
    simp only [Bool.not_eq_true]

theorem held_after_shutdown_reopened :
    let id : PaneId := ⟨"v"⟩
    let openFile : CommandEnvelope := ⟨⟨"c"⟩, none, id, .viewer (.openFile ⟨"a.rs"⟩), 0⟩
    let before : List Operation := [.start 0, .handle openFile 1]
    let p := (create id (.create id .codeViewer) ⟨none, none, none, none⟩ (.ofKind .codeViewer) 0 3)
      |>.performAll before
    let q := (p.shutdown 2).pane.performAll [.shutdown 3, .start 4, .handle openFile 5, .shutdown 6]
    (∀ op ∈ before, op.isShutdown = false) ∧
      (p.shutdown 2).result = [⟨"viewer:v"⟩, ⟨"file:a.rs"⟩] ∧
      (p.shutdown 2).pane.backend.held = [] ∧ (q.shutdown 7).result = [] ∧
      q.backend.held = [⟨"viewer:v"⟩] := by
  intro id openFile before p q
  have hbefore : ∀ op ∈ before, op.isShutdown = false := by decide
  have hspec := held_after_shutdown id .codeViewer ⟨none, none, none, none⟩ (.ofKind .codeViewer)
    0 3 before
  have hnone := (hspec [] 2 hbefore).2.2.2.2.mpr fun _ h => nomatch h
  have hlater := (hspec [.shutdown 3, .start 4, .handle openFile 5, .shutdown 6] 2 hbefore).2.2.1 7
  exact ⟨hbefore, by decide +kernel, hnone, hlater.1, by decide +kernel⟩

/-- A terminal that is shut down and then started has its process and its lines for good. -/
theorem not_always_let_go :
    ¬ ∀ (id : PaneId) (kind : PaneKind) (before after : List Operation) (now : Nat),
      (∀ op ∈ before, op.isShutdown = false) →
        ((((create id (.create id kind) ⟨none, none, none, none⟩ (.ofKind kind) 0 3).performAll
          before |>.shutdown now).pane.performAll after).backend.shutdown.2 = []) := by
  intro h
  have hnone := h ⟨"t"⟩ .terminal [.start 0] [.start 2] 1 (by decide)
  revert hnone
  decide +kernel

end Pane

end Switchboard
