import Switchboard.Proofs.Pane.Lifecycle

/-!
# Commands that are refused and commands that are carried out

A backend that refuses a command is what it was before: its checks come before its changes, and
where a change is its own check it changes nothing when it fails. So a pane that refuses a command
is what it was before and tells nothing. A command that is carried out is answered with the numbers
of all that was told for it, which follow on the numbers before it.
-/
namespace Switchboard

/-- An error leaves what was there before. -/
def Reaction.Spares {σ ε : Type} (before : σ) (r : Reaction σ ε) : Prop :=
  ∀ e, r.2 = .error e → r.1 = before

namespace Reaction

variable {σ ε : Type}

theorem spares_ok (before after : σ) (events : List ε) : Spares before (after, .ok events) :=
  fun _ h => nomatch h

theorem spares_error (before : σ) (e : BackendError) :
    Spares (ε := ε) before (before, .error e) := fun _ _ => rfl

end Reaction

open Reaction

theorem Terminal.spares_apply (t : Terminal) (command : TerminalCommand) :
    Spares t (t.apply command) := by
  cases command with
  | sendInput text =>
    simp only [apply, sendInput]
    split
    · exact spares_error t _
    · split
      · exact spares_error t _
      · exact spares_ok t _ _
  | resize cols rows =>
    simp only [apply]
    split
    · exact spares_error t _
    · exact spares_ok t _ _
  | clear => exact spares_ok t _ _
  | kill =>
    simp only [apply]
    split
    · exact spares_ok t _ _
    · exact spares_error t _

theorem Web.spares_apply (w : Web) (command : WebCommand) : Spares w (w.apply command) := by
  cases command with
  | navigate url =>
    simp only [apply]
    split
    · exact spares_ok w _ _
    · exact spares_error w _
  | reload =>
    simp only [apply]
    split
    · exact spares_ok w _ _
    · exact spares_error w _
  | goBack =>
    simp only [apply]
    split
    · exact spares_ok w _ _
    · exact spares_error w _
  | goForward =>
    simp only [apply]
    split
    · exact spares_ok w _ _
    · exact spares_error w _

namespace Diff

variable {staged : List (Path × UInt32)} {hunk : Path × UInt32}

theorem insertHunk_of_not_new (h : (insertHunk staged hunk).2 = false) :
    (insertHunk staged hunk).1 = staged := by
  simp only [insertHunk] at h ⊢
  split at h
  next hold => rw [if_pos hold]
  next => cases h

theorem removeHunk_of_absent (h : (removeHunk staged hunk).2 = false) :
    (removeHunk staged hunk).1 = staged := by
  refine List.filter_eq_self.mpr ?_
  intro x hx
  rw [Bool.not_eq_true']
  exact Bool.eq_false_iff.mpr (List.any_eq_false.mp h x hx)

theorem spares_apply (d : Diff) (command : DiffCommand) : Spares d (d.apply command) := by
  cases command with
  | selectFile path =>
    simp only [apply]
    split
    · exact spares_ok d _ _
    · exact spares_error d _
  | stageHunk path hunk =>
    simp only [apply]
    split
    · exact spares_error d _
    · cases hnew : (insertHunk d.staged (path, hunk)).2 with
      | true => exact spares_ok d _ _
      | false =>
        rw [insertHunk_of_not_new hnew]
        exact spares_error d _
  | unstageHunk path hunk =>
    simp only [apply]
    cases hthere : (removeHunk d.staged (path, hunk)).2 with
    | true => exact spares_ok d _ _
    | false =>
      rw [removeHunk_of_absent hthere]
      exact spares_error d _
  | addComment path line body =>
    simp only [apply]
    split
    · exact spares_error d _
    · split
      · exact spares_error d _
      · exact spares_ok d _ _
  | scroll line => exact spares_ok d _ _

end Diff

theorem Viewer.spares_apply (v : Viewer) (command : ViewerCommand) :
    Spares v (v.apply command) := by
  cases command with
  | openFile path =>
    simp only [apply]
    split
    · exact spares_error v _
    · exact spares_ok v _ _
  | goToLine line column =>
    simp only [apply]
    split
    · exact spares_error v _
    · split
      · exact spares_error v _
      · exact spares_ok v _ _
  | closeFile =>
    simp only [apply]
    split
    · exact spares_error v _
    · exact spares_ok v _ _
  | scroll line =>
    simp only [apply]
    split
    · exact spares_error v _
    · exact spares_ok v _ _

namespace Backend

theorem spares_reply {σ ε : Type} {s : σ} {r : Reaction σ ε} (h : Spares s r) (wrap : σ → Backend)
    (event : ε → Event) : Spares (wrap s) (reply wrap event r) := by
  rcases r with ⟨after, e | events⟩
  · intro _ _
    exact congrArg wrap (h e rfl)
  · exact spares_ok _ _ _

theorem spares_apply {b : Backend} (hb : b.BuiltIn) (command : Command) :
    Spares b (b.apply command) := by
  have hwrong : Spares (ε := Event) b (b, .error (.wrongDomain b.kind command)) := spares_error b _
  cases b with
  | terminal t =>
    cases command with
    | terminal c => exact spares_reply (t.spares_apply c) _ _
    | _ => exact hwrong
  | web w =>
    cases command with
    | web c => exact spares_reply (w.spares_apply c) _ _
    | _ => exact hwrong
  | diff d =>
    cases command with
    | diff c => exact spares_reply (d.spares_apply c) _ _
    | _ => exact hwrong
  | viewer v =>
    cases command with
    | viewer c => exact spares_reply (v.spares_apply c) _ _
    | _ => exact hwrong
  | scripted s => cases hb

theorem builtIn_create (pane : PaneId) (kind : PaneKind) : (create pane kind).BuiltIn := by
  cases kind <;> trivial

end Backend

theorem Sequencer.Numbers.seqs_eq {source : Source} {q q' : Sequencer} {told : List Envelope}
    (h : Numbers source q told q') (hw : q.lastSeq + told.length ≤ wordMax) :
    q'.lastSeq = q.lastSeq + told.length ∧
      told.map Envelope.seq = List.range' (q.lastSeq + 1) told.length := by
  induction h with
  | nil q => exact ⟨rfl, rfl⟩
  | @cons q q' e told hs ht _ ih =>
    rw [List.length_cons] at hw
    have hnext : q.advance.lastSeq = q.lastSeq + 1 := satAdd_eq (by omega)
    have hseq : e.seq = q.lastSeq + 1 := (congrArg Stamp.seq ht).trans hnext
    obtain ⟨hlast, hseqs⟩ := ih (by omega)
    rw [hnext] at hlast hseqs
    refine ⟨by rw [List.length_cons]; omega, ?_⟩
    rw [List.map_cons, List.length_cons, List.range'_succ, hseq, hseqs]

namespace Pane

variable {α : Type} {p : Pane}

theorem metadata_tell (p : Pane) (cause : Cause) (events : List Event) :
    (p.tell cause events).1.metadata = p.metadata := by
  induction events generalizing p with
  | nil => rfl
  | cons event rest ih => exact ih _

def Outcome.Attributed (cause : Cause) (o : Outcome α) : Prop :=
  ∀ e ∈ o.told, e.command = cause.command ∧ e.correlation = cause.correlation ∧
    e.worktree = o.pane.metadata.worktree

theorem attributed_silent (p : Pane) (cause : Cause) (result : α) :
    Outcome.Attributed cause (p.silent result) := fun _ he => nomatch he

theorem attributed_telling (p : Pane) (cause : Cause) (events : List Event) (result : α) :
    Outcome.Attributed cause (p.telling cause events result) := by
  have hafter : (p.telling cause events result).pane.metadata = p.metadata :=
    p.metadata_tell cause events
  rw [Outcome.Attributed, hafter]
  simp only [telling]
  induction events generalizing p with
  | nil => exact fun _ he => nomatch he
  | cons event rest ih =>
    intro e he
    rcases List.mem_cons.mp he with rfl | he
    · exact ⟨rfl, rfl, rfl⟩
    · exact ih (p.emit cause event) (metadata_tell _ cause rest) e he

theorem attributed_updateMetadata {cause : Cause} {patch : MetadataPatch} {o : Outcome Unit}
    (h : p.updateMetadata cause patch = .ok o) : Outcome.Attributed cause o := by
  simp only [updateMetadata] at h
  split at h
  · cases h
  · split at h
    · cases h
    · split at h
      · cases h
        exact attributed_telling { p with metadata := patch.apply p.metadata } _ _ _
      · cases h
        exact attributed_silent { p with metadata := patch.apply p.metadata } _ _

theorem result_fail (p : Pane) (cause : Cause) (reason : String) (result : α) :
    (p.fail cause reason result).result = result := by
  simp only [fail]
  rcases p.lifecycle.fail reason with ⟨lifecycle, _ | t⟩ <;> rfl

section

variable {command : CommandEnvelope} {now : Nat}

theorem untouched_of_applyBackend (hb : p.backend.BuiltIn) {e : CommandError}
    (h : (p.applyBackend command now).result = .error e)
    (he : ∀ pane reason, e ≠ .backend pane reason) :
    (p.applyBackend command now).pane = p ∧ (p.applyBackend command now).told = [] := by
  have hspares := Backend.spares_apply hb command.command
  simp only [applyBackend] at h ⊢
  generalize p.backend.apply command.command = answer at hspares h ⊢
  rcases answer with ⟨backend, err | events⟩
  · cases err with
    | invalid reason =>
      have hsame : backend = p.backend := hspares _ rfl
      subst hsame
      exact ⟨rfl, rfl⟩
    | fatal reason =>
      rw [result_fail] at h
      cases h
      exact absurd rfl (he _ _)
  · cases h

theorem untouched_of_refused (hb : p.backend.BuiltIn) {e : CommandError}
    (h : (p.handle command now).result = .error e)
    (he : ∀ pane reason, e ≠ .backend pane reason) :
    (p.handle command now).pane = p ∧ (p.handle command now).told = [] := by
  simp only [handle] at h ⊢
  cases hr : p.refusal? command with
  | some _ => exact ⟨rfl, rfl⟩
  | none =>
    simp only [hr] at h ⊢
    cases hc : command.command with
    | updateMetadata patch =>
      simp only [hc] at h ⊢
      cases hu : p.updateMetadata (Cause.of command now) patch with
      | ok o =>
        simp only [hu] at h
        cases h
      | error _ => exact ⟨rfl, rfl⟩
    | _ =>
      simp only [hc] at h ⊢
      exact untouched_of_applyBackend hb h he

theorem acknowledged_applyBackend {ack : CommandAck}
    (h : (p.applyBackend command now).result = .ok ack) :
    ack = ⟨command.id, (p.applyBackend command now).told.map Envelope.seq⟩ ∧
      Outcome.Attributed (Cause.of command now) (p.applyBackend command now) := by
  simp only [applyBackend] at h ⊢
  generalize p.backend.apply command.command = answer at h ⊢
  rcases answer with ⟨backend, err | events⟩
  · cases err with
    | invalid reason => cases h
    | fatal reason =>
      rw [result_fail] at h
      cases h
  · cases h
    exact ⟨rfl, attributed_telling _ _ _ _⟩

theorem acknowledged_of_ok {ack : CommandAck} (h : (p.handle command now).result = .ok ack) :
    ack = ⟨command.id, (p.handle command now).told.map Envelope.seq⟩ ∧
      Outcome.Attributed (Cause.of command now) (p.handle command now) := by
  simp only [handle] at h ⊢
  cases hr : p.refusal? command with
  | some _ =>
    simp only [hr] at h
    cases h
  | none =>
    simp only [hr] at h ⊢
    cases hc : command.command with
    | updateMetadata patch =>
      simp only [hc] at h ⊢
      cases hu : p.updateMetadata (Cause.of command now) patch with
      | ok o =>
        simp only [hu] at h ⊢
        cases h
        exact ⟨rfl, attributed_updateMetadata hu⟩
      | error _ =>
        simp only [hu] at h
        cases h
    | _ =>
      simp only [hc] at h ⊢
      exact acknowledged_applyBackend h

end

theorem builtIn_performAll (hb : p.backend.BuiltIn) (ops : List Operation) :
    (p.performAll ops).backend.BuiltIn := by
  induction ops generalizing p with
  | nil => exact hb
  | cons op rest ih => exact ih (narrates_perform Backend.manners_builtIn hb op).fit

/-- A command to a pane whose backend is not scripted, however it was used before. If it is refused
without ending the pane, the pane is in all respects what it was and nothing is told. If it is
carried out, all that is told is acknowledged, in numbers that follow on the last one, and carries
the command and the worktree that the pane names when the command has been carried out. Behind the
largest number there is no other, and it is given out again. -/
theorem refused_or_acknowledged (id : PaneId) (kind : PaneKind) (metadata : Metadata)
    (capabilities : Capabilities) (epoch capacity : Nat) (ops : List Operation)
    (command : CommandEnvelope) (now : Nat) :
    let p := (create id (.create id kind) metadata capabilities epoch capacity).performAll ops
    let o := p.handle command now
    (∀ e, o.result = .error e → (∀ pane reason, e ≠ .backend pane reason) →
      o.pane = p ∧ o.told = []) ∧
    ∀ ack, o.result = .ok ack →
      ack.command = command.id ∧ ack.emitted = o.told.map Envelope.seq ∧
      (∀ i e, o.told[i]? = some e → e.seq = min (p.lastSeq + i + 1) wordMax) ∧
      (p.lastSeq + o.told.length < 2 ^ 64 → p.lastSeq ≤ o.pane.lastSeq ∧
        ack.emitted = List.range' (p.lastSeq + 1) (o.pane.lastSeq - p.lastSeq)) ∧
      ∀ e ∈ o.told, e.seq ∈ ack.emitted ∧ e.command = some command.id ∧
        e.correlation = command.correlation ∧ e.worktree = o.pane.metadata.worktree := by
  intro p o
  have hb : p.backend.BuiltIn := builtIn_performAll (Backend.builtIn_create id kind) ops
  refine ⟨fun e => untouched_of_refused hb, ?_⟩
  intro ack h
  obtain ⟨rfl, hcaused⟩ := acknowledged_of_ok h
  have hnumbers := (p.sound_handle command now).numbers
  refine ⟨rfl, rfl, fun i e hi => congrArg Stamp.seq (hnumbers.stamp_eq hi).2, ?_,
    fun e he => ⟨List.mem_map_of_mem he, hcaused e he⟩⟩
  intro hw
  obtain ⟨hlast, hseqs⟩ := hnumbers.seqs_eq (Nat.le_of_lt_succ hw)
  have hafter : o.pane.lastSeq = p.lastSeq + o.told.length := hlast
  refine ⟨by omega, ?_⟩
  rw [hafter, Nat.add_sub_cancel_left]
  exact hseqs

theorem refused_or_acknowledged_staged_twice :
    let id : PaneId := ⟨"d"⟩
    let stage (path : String) : CommandEnvelope :=
      ⟨⟨"c"⟩, some ⟨"x"⟩, id, .diff (.stageHunk ⟨path⟩ 1), 0⟩
    let p := (create id (.create id .diff) ⟨none, none, some ⟨"w"⟩, none⟩ (.ofKind .diff) 0 3)
      |>.performAll [.start 0, .handle (stage "a/b") 1]
    let again := p.handle (stage "a//b") 2
    let other := p.handle (stage "a/c") 2
    (∃ reason, again.result = .error (.validation reason)) ∧ again.pane = p ∧ again.told = [] ∧
      other.result = .ok ⟨⟨"c"⟩, [3]⟩ ∧ p.lastSeq = 2 ∧ other.pane.lastSeq = 3 ∧
      ∀ e ∈ other.told, e.correlation = some ⟨"x"⟩ ∧ e.worktree = some ⟨"w"⟩ := by
  intro id stage p again other
  have hrefused : again.result = .error (.validation "hunk 1 of a//b already staged") := by
    decide +kernel
  have hdone : other.result = .ok ⟨⟨"c"⟩, [3]⟩ := by decide +kernel
  have hsame := (refused_or_acknowledged id .diff ⟨none, none, some ⟨"w"⟩, none⟩ (.ofKind .diff) 0 3
    [.start 0, .handle (stage "a/b") 1] (stage "a//b") 2).1 _ hrefused fun _ _ h => nomatch h
  have hall := ((refused_or_acknowledged id .diff ⟨none, none, some ⟨"w"⟩, none⟩ (.ofKind .diff) 0 3
    [.start 0, .handle (stage "a/b") 1] (stage "a/c") 2).2 _ hdone).2.2.2.2
  exact ⟨⟨_, hrefused⟩, hsame.1, hsame.2, hdone, by decide +kernel, by decide +kernel,
    fun e he => ⟨(hall e he).2.2.1, (hall e he).2.2.2.trans (by decide +kernel)⟩⟩

end Pane

end Switchboard
