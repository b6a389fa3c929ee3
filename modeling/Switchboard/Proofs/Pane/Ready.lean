import Switchboard.Proofs.Pane.Resources

/-!
# Ready panes

As long as a pane is ready, its backend is started and runs, and what the pane lets through to it is
meant for its kind: the capabilities of a kind are the commands of its family. So no command fails a
pane with the capabilities of its kind, and none is turned down as that of another kind.
-/
namespace Switchboard

def CommandKind.family? : CommandKind → Option PaneKind
  | .terminalInput | .terminalResize | .terminalClear | .terminalKill => some .terminal
  | .webNavigate | .webReload | .webHistory => some .webView
  | .diffSelect | .diffStage | .diffComment | .diffScroll => some .diff
  | .viewerOpen | .viewerNavigate | .viewerClose => some .codeViewer
  | .updateMetadata => none

theorem Capabilities.contains_ofKind_iff (kind : PaneKind) (command : CommandKind) :
    (ofKind kind).contains command = true ↔
      command.family? = none ∨ command.family? = some kind := by
  cases kind <;> cases command <;> decide

theorem Command.family?_kind (command : Command) :
    command.kind.family? = match command with
      | .terminal _ => some .terminal
      | .web _ => some .webView
      | .diff _ => some .diff
      | .viewer _ => some .codeViewer
      | .updateMetadata _ => none := by
  rcases command with c | c | c | c | patch
  · cases c <;> rfl
  · cases c <;> rfl
  · cases c <;> rfl
  · cases c <;> rfl
  · rfl

namespace BackendError

/-- The reason is that of a backend that was given a command of another kind. -/
def IsForeign (reason : String) : Prop :=
  ∃ kind command, reason = (wrongDomain kind command).message

def kindMark (kind : PaneKind) : String := kind.name ++ " backend"

theorem kindMark_prefix {reason : String} (h : IsForeign reason) :
    ∃ kind, (kindMark kind).toList <+: reason.toList := by
  obtain ⟨kind, command, rfl⟩ := h
  refine ⟨kind, (" cannot apply " ++ command.kind.name).toList, ?_⟩
  have hmark : " backend cannot apply " = " backend" ++ " cannot apply " := by decide
  rw [wrongDomain, message, hmark, kindMark]
  simp only [String.toList_append, List.append_assoc]

theorem not_isForeign {front reason : String} (hfront : front.toList <+: reason.toList)
    (h : ∀ kind ∈ PaneKind.all, ¬ front.toList <+: (kindMark kind).toList ∧
      ¬ (kindMark kind).toList <+: front.toList) : ¬ IsForeign reason := by
  intro hforeign
  obtain ⟨kind, hkind⟩ := kindMark_prefix hforeign
  have hmem : kind ∈ PaneKind.all := by cases kind <;> decide
  rcases List.prefix_or_prefix_of_prefix hfront hkind with hp | hp
  · exact (h kind hmem).1 hp
  · exact (h kind hmem).2 hp

def IsObjection (e : BackendError) : Prop := ∃ reason, e = .invalid reason ∧ ¬ IsForeign reason

theorem isObjection_append (front rest : String)
    (h : ∀ kind ∈ PaneKind.all, ¬ front.toList <+: (kindMark kind).toList ∧
      ¬ (kindMark kind).toList <+: front.toList) : IsObjection (.invalid (front ++ rest)) := by
  refine ⟨_, rfl, not_isForeign ?_ h⟩
  rw [String.toList_append]
  exact List.prefix_append _ _

theorem isObjection_text (text : String)
    (h : ∀ kind ∈ PaneKind.all, ¬ text.toList <+: (kindMark kind).toList ∧
      ¬ (kindMark kind).toList <+: text.toList) : IsObjection (.invalid text) :=
  ⟨_, rfl, not_isForeign List.prefix_rfl h⟩

end BackendError

/-- The error does not end a pane, and is not that of a backend that was given a command of another
kind. -/
def CommandError.IsHarmless : CommandError → Prop
  | .backend _ _ => False
  | .validation reason => (BackendError.invalid reason).IsObjection
  | _ => True

def Reaction.Objects {σ ε : Type} (r : Reaction σ ε) : Prop :=
  ∀ e, r.2 = .error e → e.IsObjection

namespace Reaction

variable {σ ε : Type}

theorem objects_ok (after : σ) (events : List ε) : Objects (after, .ok events) :=
  fun _ h => nomatch h

theorem objects_error (after : σ) {e : BackendError} (h : e.IsObjection) :
    Objects (ε := ε) (after, .error e) := by
  rintro _ ⟨⟩
  exact h

end Reaction

open BackendError Reaction

theorem Terminal.objects_apply {t : Terminal} (ht : t.alive = true) (command : TerminalCommand) :
    Objects (t.apply command) := by
  cases command with
  | sendInput text =>
    simp only [apply, sendInput, ht, Bool.not_true, Bool.false_eq_true, if_false]
    split
    · exact objects_error t (isObjection_text _ (by decide))
    · exact objects_ok _ _
  | resize cols rows =>
    simp only [apply]
    split
    · simp only [String.append_assoc]
      exact objects_error t (isObjection_append _ _ (by decide))
    · exact objects_ok _ _
  | clear => exact objects_ok _ _
  | kill =>
    simp only [apply, ht, if_true]
    exact objects_ok _ _

theorem Web.objects_apply (w : Web) (command : WebCommand) : Objects (w.apply command) := by
  cases command with
  | navigate url =>
    simp only [apply]
    split
    · exact objects_ok _ _
    · exact objects_error w (isObjection_append _ _ (by decide))
  | reload =>
    simp only [apply]
    split
    · exact objects_ok _ _
    · exact objects_error w (isObjection_text _ (by decide))
  | goBack =>
    simp only [apply]
    split
    · exact objects_ok _ _
    · exact objects_error w (isObjection_text _ (by decide))
  | goForward =>
    simp only [apply]
    split
    · exact objects_ok _ _
    · exact objects_error w (isObjection_text _ (by decide))

namespace Diff

theorem isObjection_notRelative (path : Path) : (notRelative path).IsObjection :=
  isObjection_append _ _ (by decide)

theorem isObjection_hunkError (path : Path) (hunk : UInt32) (state : String) :
    (hunkError path hunk state).IsObjection := by
  simp only [hunkError, String.append_assoc]
  exact isObjection_append _ _ (by decide)

theorem objects_apply (d : Diff) (command : DiffCommand) : Objects (d.apply command) := by
  cases command with
  | selectFile path =>
    simp only [apply]
    split
    · exact objects_ok _ _
    · exact objects_error d (isObjection_notRelative path)
  | stageHunk path hunk =>
    simp only [apply]
    split
    · exact objects_error d (isObjection_notRelative path)
    · split
      · exact objects_ok _ _
      · exact objects_error _ (isObjection_hunkError path hunk _)
  | unstageHunk path hunk =>
    simp only [apply]
    split
    · exact objects_ok _ _
    · exact objects_error _ (isObjection_hunkError path hunk _)
  | addComment path line body =>
    simp only [apply]
    split
    · exact objects_error d (isObjection_notRelative path)
    · split
      · exact objects_error d (isObjection_text _ (by decide))
      · exact objects_ok _ _
  | scroll line => exact objects_ok _ _

end Diff

namespace Viewer

theorem isObjection_noFile : noFile.IsObjection := isObjection_text _ (by decide)

theorem objects_apply (v : Viewer) (command : ViewerCommand) : Objects (v.apply command) := by
  cases command with
  | openFile path =>
    simp only [apply]
    split
    · exact objects_error v (isObjection_text _ (by decide))
    · exact objects_ok _ _
  | goToLine line column =>
    simp only [apply]
    split
    · exact objects_error v isObjection_noFile
    · split
      · exact objects_error v (isObjection_text _ (by decide))
      · exact objects_ok _ _
  | closeFile =>
    simp only [apply]
    split
    · exact objects_error v isObjection_noFile
    · exact objects_ok _ _
  | scroll line =>
    simp only [apply]
    split
    · exact objects_error v isObjection_noFile
    · exact objects_ok _ _

end Viewer

namespace Backend

variable {b : Backend}

theorem kind_start (b : Backend) (metadata : Metadata) : (b.start metadata).1.kind = b.kind := by
  cases b <;> rfl

theorem kind_apply (b : Backend) (command : Command) : (b.apply command).1.kind = b.kind := by
  cases b <;> cases command <;> rfl

theorem kind_shutdown (b : Backend) : b.shutdown.1.kind = b.kind := by
  cases b with
  | viewer v =>
    simp only [shutdown, Viewer.shutdown]
    split <;> rfl
  | _ => rfl

theorem objects_reply {σ ε : Type} {r : Reaction σ ε} (h : Objects r) (wrap : σ → Backend)
    (event : ε → Event) : Objects (reply wrap event r) := by
  rcases r with ⟨after, e | events⟩
  · exact objects_error _ (h e rfl)
  · exact objects_ok _ _

/-- A backend that runs, given a command of its own kind, has nothing but objections. -/
theorem objects_apply (hb : b.BuiltIn) (ha : b.isAlive = true) (hu : b.isUp = true)
    {command : Command} (hc : command.kind.family? = some b.kind) : Objects (b.apply command) := by
  rw [Command.family?_kind] at hc
  cases b with
  | terminal t =>
    have halive : t.alive = true := by
      have hup : t.started = true := hu
      simpa [isAlive, Terminal.isAlive, hup] using ha
    cases command with
    | terminal c => exact objects_reply (t.objects_apply halive c) _ _
    | _ => cases hc
  | web w =>
    cases command with
    | web c => exact objects_reply (w.objects_apply c) _ _
    | _ => cases hc
  | diff d =>
    cases command with
    | diff c => exact objects_reply (d.objects_apply c) _ _
    | _ => cases hc
  | viewer v =>
    cases command with
    | viewer c => exact objects_reply (v.objects_apply c) _ _
    | _ => cases hc
  | scripted s => cases hb

theorem isAlive_start (hb : b.BuiltIn) {metadata : Metadata} {events : List Event}
    (h : (b.start metadata).2 = .ok events) : (b.start metadata).1.isAlive = true := by
  cases b with
  | terminal t =>
    simp only [start, reply, Terminal.start] at h ⊢
    split at h
    · cases h
    next hs =>
      rw [if_neg hs]
      rfl
  | scripted s => cases hb
  | _ => rfl

end Backend

namespace Pane

variable {α : Type} {p : Pane}

theorem allowed_of_not_refused {command : CommandEnvelope} (h : p.refusal? command = none) :
    p.capabilities.contains command.command.kind = true := by
  simp only [refusal?] at h
  split at h
  · cases h
  · split at h
    · cases h
    next ha => simpa using ha

theorem harmless_refusal {command : CommandEnvelope} {e : CommandError}
    (h : p.refusal? command = some e) : e.IsHarmless := by
  simp only [refusal?] at h
  split at h
  · cases h
    simp only [String.append_assoc]
    exact isObjection_append _ _ (by decide)
  · split at h
    · cases h
      trivial
    · split at h
      · cases h
        trivial
      · cases h

theorem harmless_updateMetadata {cause : Cause} {patch : MetadataPatch} {e : CommandError}
    (h : p.updateMetadata cause patch = .error e) : e.IsHarmless := by
  simp only [updateMetadata] at h
  split at h
  · cases h
    exact isObjection_text _ (by decide)
  · split at h
    · cases h
      simp only [String.append_assoc]
      exact isObjection_append _ _ (by decide)
    · split at h <;> cases h

theorem handle_cases (p : Pane) (command : CommandEnvelope) (now : Nat) :
    (∃ e : CommandError, e.IsHarmless ∧ p.handle command now = p.silent (.error e)) ∨
    (∃ patch o, p.updateMetadata (Cause.of command now) patch = .ok o ∧
      p.handle command now = acknowledge command o) ∨
    (p.refusal? command = none ∧ (∀ patch, command.command ≠ .updateMetadata patch) ∧
      p.handle command now = p.applyBackend command now) := by
  cases hr : p.refusal? command with
  | some e =>
    left
    simp only [handle, hr]
    exact ⟨e, harmless_refusal hr, rfl⟩
  | none =>
    simp only [handle, hr]
    cases hc : command.command with
    | updateMetadata patch =>
      simp only
      cases hu : p.updateMetadata (Cause.of command now) patch with
      | error e =>
        left
        exact ⟨e, harmless_updateMetadata hu, rfl⟩
      | ok o =>
        right; left
        exact ⟨patch, o, hu, rfl⟩
    | _ =>
      right; right
      refine ⟨trivial, fun patch h => ?_, rfl⟩
      cases h

theorem harmless_applyBackend {command : CommandEnvelope} {now : Nat}
    (hobjects : Objects (p.backend.apply command.command)) {e : CommandError}
    (he : (p.applyBackend command now).result = .error e) : e.IsHarmless := by
  simp only [applyBackend] at he
  generalize p.backend.apply command.command = answer at he hobjects
  rcases answer with ⟨backend, (reason | reason) | events⟩
  · cases he
    exact hobjects _ rfl
  · obtain ⟨_, h, -⟩ := hobjects _ rfl
    cases h
  · cases he

def make (p : Pane) : PaneKind × Capabilities := (p.kind, p.capabilities)

theorem make_tell (p : Pane) (cause : Cause) (events : List Event) :
    (p.tell cause events).1.make = p.make := by
  induction events generalizing p with
  | nil => rfl
  | cons event rest ih => exact ih _

theorem make_telling (p : Pane) (cause : Cause) (events : List Event) (result : α) :
    (p.telling cause events result).pane.make = p.make := p.make_tell cause events

theorem make_fail (p : Pane) (cause : Cause) (reason : String) (result : α) :
    (p.fail cause reason result).pane.make = p.make := by
  simp only [fail]
  split
  · rfl
  · exact make_telling _ _ _ _

theorem make_terminate (p : Pane) : p.terminate.1.make = p.make := by
  simp only [terminate]
  split <;> rfl

theorem make_start (p : Pane) (now : Nat) : (p.start now).pane.make = p.make := by
  simp only [start]
  split
  · exact make_fail _ _ _ _
  · split
    · rfl
    · exact make_telling _ _ _ _

theorem make_applyBackend (p : Pane) (command : CommandEnvelope) (now : Nat) :
    (p.applyBackend command now).pane.make = p.make := by
  simp only [applyBackend]
  split
  · refine (make_telling _ _ _ _).trans ?_
    simp only [endIfStopped]
    split
    · rfl
    · exact make_terminate _
  · rfl
  · exact make_fail _ _ _ _

theorem make_updateMetadata {cause : Cause} {patch : MetadataPatch} {o : Outcome Unit}
    (h : p.updateMetadata cause patch = .ok o) : o.pane.make = p.make := by
  simp only [updateMetadata] at h
  split at h
  · cases h
  · split at h
    · cases h
    · split at h
      · cases h
        exact make_telling _ _ _ _
      · cases h
        rfl

theorem make_handle (p : Pane) (command : CommandEnvelope) (now : Nat) :
    (p.handle command now).pane.make = p.make := by
  rcases p.handle_cases command now with ⟨e, -, he⟩ | ⟨patch, o, hu, ho⟩ | ⟨-, -, ha⟩
  · rw [he]
    rfl
  · rw [ho]
    exact make_updateMetadata hu
  · rw [ha]
    exact p.make_applyBackend command now

theorem make_shutdown (p : Pane) (now : Nat) : (p.shutdown now).pane.make = p.make := by
  simp only [shutdown]
  split
  · rfl
  · refine (make_telling _ _ _ _).trans ((make_terminate _).trans ?_)
    simp only [beginDrain]
    split
    · split <;> rfl
    · rfl

theorem make_perform (p : Pane) : ∀ op, (p.perform op).pane.make = p.make
  | .start now => p.make_start now
  | .handle command now => p.make_handle command now
  | .shutdown now => p.make_shutdown now

theorem state_fail (p : Pane) (cause : Cause) (reason : String) (result : α) :
    (p.fail cause reason result).pane.state = .terminated := by
  by_cases hp : p.state.isTerminal = true
  · have hf : p.lifecycle.fail reason = (p.lifecycle, none) := if_pos hp
    simp only [fail, hf]
    exact eq_of_beq hp
  · have hf : p.lifecycle.fail reason =
        (⟨.terminated, some reason⟩, some ⟨p.lifecycle.state, .terminated⟩) := if_neg hp
    simp only [fail, hf]
    exact state_telling _ _ _ _

/-- A ready pane has its backend started and running. -/
def Attended (p : Pane) : Prop :=
  p.state = .ready → p.backend.isUp = true ∧ p.backend.isAlive = true

theorem attended_of_terminated (h : p.state = .terminated) : p.Attended := by
  intro hs
  rw [h] at hs
  cases hs

theorem attended_start (hb : p.backend.BuiltIn) (now : Nat) : (p.start now).pane.Attended := by
  rcases hanswer : p.backend.start p.metadata with ⟨backend, e | events⟩
  · refine attended_of_terminated ?_
    simp only [start, hanswer]
    exact state_fail _ _ _ _
  · intro _
    have hup := Backend.isUp_start hb p.metadata
    have halive := Backend.isAlive_start hb (congrArg Prod.snd hanswer)
    rw [backend_start]
    exact ⟨hup, halive⟩

theorem attended_applyBackend (hb : p.backend.BuiltIn) (hu : p.backend.isUp = true)
    (ha : p.backend.isAlive = true) (command : CommandEnvelope) (now : Nat) :
    (p.applyBackend command now).pane.Attended := by
  have hspares := Backend.spares_apply hb command.command
  have hup := Backend.isUp_apply hb command.command
  have hbackend := p.backend_applyBackend command now
  rcases hanswer : p.backend.apply command.command with ⟨backend, (reason | reason) | events⟩
  · -- The backend objects, and is as it was.
    intro _
    rw [hbackend, hspares _ (congrArg Prod.snd hanswer)]
    exact ⟨hu, ha⟩
  · refine attended_of_terminated ?_
    simp only [applyBackend, hanswer]
    exact state_fail _ _ _ _
  · cases hrest : backend.isAlive with
    | true =>
      intro _
      rw [hbackend, hup, hanswer]
      exact ⟨hu, hrest⟩
    | false =>
      -- The command was carried out, but it was the last one: this is how a terminal is killed.
      refine attended_of_terminated ?_
      simp only [applyBackend, hanswer, acknowledge, endIfStopped, hrest]
      exact (state_telling _ _ _ _).trans (lasts_terminate _).2

structure Suited (p : Pane) : Prop where
  builtIn : p.backend.BuiltIn
  make : p.make = (p.backend.kind, .ofKind p.backend.kind)
  attended : p.Attended

theorem kind_perform (p : Pane) (op : Operation) :
    (p.perform op).pane.backend.kind = p.backend.kind := by
  cases op with
  | start now =>
    refine (congrArg Backend.kind (p.backend_start now)).trans ?_
    exact p.backend.kind_start p.metadata
  | handle command now =>
    rcases p.backend_handle command now with hsame | ⟨-, happly⟩
    · exact congrArg Backend.kind hsame
    · exact (congrArg Backend.kind happly).trans (p.backend.kind_apply command.command)
  | shutdown now =>
    cases hr : p.released with
    | true => exact congrArg (·.pane.backend.kind) (shutdown_of_released hr now)
    | false =>
      exact (congrArg Backend.kind (shutdown_of_not_released hr now).1).trans
        p.backend.kind_shutdown

namespace Suited

theorem create {b : Backend} (hb : b.BuiltIn) (id : PaneId) (metadata : Metadata)
    (epoch capacity : Nat) : (create id b metadata (.ofKind b.kind) epoch capacity).Suited where
  builtIn := hb
  make := rfl
  attended h := nomatch h

theorem family?_eq (h : p.Suited) {command : CommandEnvelope} (hr : p.refusal? command = none)
    (hc : ∀ patch, command.command ≠ .updateMetadata patch) :
    command.command.kind.family? = some p.backend.kind := by
  have hallowed := allowed_of_not_refused hr
  have hcapabilities : p.capabilities = .ofKind p.backend.kind := congrArg Prod.snd h.make
  rw [hcapabilities, Capabilities.contains_ofKind_iff] at hallowed
  refine hallowed.resolve_left fun hnone => ?_
  rw [Command.family?_kind] at hnone
  cases hcommand : command.command with
  | updateMetadata patch => exact hc patch hcommand
  | _ =>
    rw [hcommand] at hnone
    cases hnone

theorem attended_handle (h : p.Suited) (command : CommandEnvelope) (now : Nat) :
    (p.handle command now).pane.Attended := by
  rcases p.handle_cases command now with ⟨e, -, he⟩ | ⟨patch, o, hu, ho⟩ | ⟨hr, -, ha⟩
  · rw [he]
    exact h.attended
  · rw [ho]
    intro hready
    have hbackend : (acknowledge command o).pane.backend = p.backend := backend_updateMetadata hu
    rw [hbackend]
    exact h.attended ((lasts_updateMetadata hu).2.2.symm.trans hready)
  · obtain ⟨hup, halive⟩ := h.attended (ready_of_not_refused hr)
    rw [ha]
    exact attended_applyBackend h.builtIn hup halive command now

theorem attended_shutdown (h : p.Suited) (now : Nat) : (p.shutdown now).pane.Attended := by
  cases hr : p.released with
  | true =>
    rw [shutdown_of_released hr]
    exact h.attended
  | false => exact attended_of_terminated (state_shutdown hr now)

theorem perform (h : p.Suited) (op : Operation) : (p.perform op).pane.Suited where
  builtIn := (narrates_perform Backend.manners_builtIn h.builtIn op).fit
  make := by
    rw [make_perform, kind_perform]
    exact h.make
  attended := by
    cases op with
    | start now => exact attended_start h.builtIn now
    | handle command now => exact h.attended_handle command now
    | shutdown now => exact h.attended_shutdown now

theorem performAll (h : p.Suited) (ops : List Operation) : (p.performAll ops).Suited := by
  induction ops generalizing p with
  | nil => exact h
  | cons op rest ih => exact ih (h.perform op)

theorem harmless_handle (h : p.Suited) {command : CommandEnvelope} {now : Nat} {e : CommandError}
    (he : (p.handle command now).result = .error e) : e.IsHarmless := by
  rcases p.handle_cases command now with ⟨own, hown, hh⟩ | ⟨patch, o, -, ho⟩ | ⟨hr, hc, ha⟩
  · rw [hh] at he
    cases he
    exact hown
  · rw [ho] at he
    cases he
  · obtain ⟨hup, halive⟩ := h.attended (ready_of_not_refused hr)
    rw [ha] at he
    exact harmless_applyBackend
      (Backend.objects_apply h.builtIn halive hup (h.family?_eq hr hc)) he

end Suited

/-- A pane over a backend that is not scripted, with the capabilities of the backend's kind, however
it is started, given commands and shut down. While it is ready its backend is up and runs, and is of
the kind that it was created for. So no command, now or ever, fails it or is turned down as one for
another kind of backend. -/
theorem ready_backend_is_live (id : PaneId) (backend : Backend) (metadata : Metadata)
    (epoch capacity : Nat) (ops : List Operation) :
    let p := (Pane.create id backend metadata (.ofKind backend.kind) epoch capacity).performAll ops
    backend.BuiltIn →
      p.backend.kind = p.kind ∧
      (p.state = .ready → p.backend.isUp = true ∧ p.backend.isAlive = true) ∧
      ∀ command now,
        (∀ pane reason, (p.handle command now).result ≠ .error (.backend pane reason)) ∧
        ∀ kind other, (p.handle command now).result ≠
          .error (.validation (BackendError.wrongDomain kind other).message) := by
  intro p hb
  have hp : p.Suited := (Suited.create hb id metadata epoch capacity).performAll ops
  refine ⟨(congrArg Prod.fst hp.make).symm, hp.attended, fun command now => ⟨?_, ?_⟩⟩
  · intro pane reason he
    exact hp.harmless_handle he
  · intro kind other he
    obtain ⟨reason, h, hown⟩ := hp.harmless_handle he
    cases h
    exact hown ⟨kind, other, rfl⟩

theorem ready_backend_is_live_killed :
    let id : PaneId := ⟨"t"⟩
    let backend := Backend.create id .terminal
    let say (c : TerminalCommand) : CommandEnvelope := ⟨⟨"c"⟩, none, id, .terminal c, 0⟩
    let before : List Operation := [.start 0, .handle (say (.sendInput "ls")) 1]
    let created := Pane.create id backend ⟨none, none, none, none⟩ (.ofKind backend.kind) 0 3
    let p := created.performAll before
    let q := created.performAll (before ++ [.handle (say .kill) 2, .start 3])
    let answer := (q.handle (say (.sendInput "ls")) 4).result
    backend.BuiltIn ∧ p.state = .ready ∧ p.backend.isUp = true ∧ p.backend.isAlive = true ∧
      q.backend.isUp = true ∧ q.backend.isAlive = false ∧
      answer = .error (.lifecycleClosed id .terminated) ∧
      ∀ pane reason, answer ≠ .error (.backend pane reason) := by
  intro id backend say before created p q answer
  have hb : backend.BuiltIn := trivial
  have hready : p.state = .ready := by decide +kernel
  have hp := ready_backend_is_live id backend ⟨none, none, none, none⟩ 0 3 before hb
  have hq := ready_backend_is_live id backend ⟨none, none, none, none⟩ 0 3
    (before ++ [.handle (say .kill) 2, .start 3]) hb
  exact ⟨hb, hready, (hp.2.1 hready).1, (hp.2.1 hready).2, by decide +kernel, by decide +kernel,
    by decide +kernel, (hq.2.2 _ 4).1⟩

end Pane

end Switchboard
