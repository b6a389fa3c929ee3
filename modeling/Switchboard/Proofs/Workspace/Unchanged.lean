import Switchboard.Proofs.FsSource.Invariants
import Switchboard.Proofs.Projection.Views
import Switchboard.Proofs.Reducer.Runs
import Switchboard.Proofs.Workspace.Accounts
import Switchboard.Proofs.Workspace.Steps

/-!
# What makes no entry in the books

Time passes, those who follow the bus catch up, probes are answered, and panes are waited for. None
of this makes an entry in the books: the roots keep their tiers, the views their worktrees, and what
the notifier is told it will know all the same.
-/
namespace Switchboard

namespace FsSource

def standing (s : FsSource) : RootTable × Option WorktreeId := (s.table, s.focused)

theorem standing_beginProbe (s : FsSource) (w : WorktreeId) (reason : ReconcileReason) :
    (s.beginProbe w reason).1.standing = s.standing := by
  rcases s.beginProbe_cases w reason with h | ⟨state, probing, queued, -, h⟩ <;> rw [h]
  rfl

theorem standing_beginProbes (s : FsSource) (reason : ReconcileReason) (ws : List WorktreeId) :
    (s.beginProbes reason ws).1.standing = s.standing := by
  induction ws generalizing s with
  | nil => rfl
  | cons w rest ih =>
    rw [beginProbes_cons, ih]
    exact s.standing_beginProbe w reason

theorem standing_emitAll (s : FsSource) (w : WorktreeId) (now : Nat)
    (events : List FilesystemEvent) : (s.emitAll w now events).1.standing = s.standing := by
  obtain ⟨sequencer, h⟩ := s.emitAll_fst w now events
  rw [h]
  rfl

theorem standing_flushRoot (s : FsSource) (w : WorktreeId) (now : Nat) :
    (s.flushRoot w now).1.standing = s.standing := by
  rcases s.flushRoot_cases w now with ⟨batcher, h, -⟩ | ⟨batcher, css, h, -⟩
  · rw [h]
    rfl
  · rw [h, standing_beginProbe, standing_emitAll]
    rfl

theorem standing_flushRoots (s : FsSource) (now : Nat) (ws : List WorktreeId) :
    (s.flushRoots now ws).1.standing = s.standing := by
  induction ws generalizing s with
  | nil => rfl
  | cons w rest ih =>
    rw [(s.flushRoots_cons now w rest).1, ih]
    exact s.standing_flushRoot w now

theorem standing_applyStatus (s : FsSource) (o : ProbeOutcome) (now : Nat) :
    (s.applyStatus o now).1.standing = s.standing := by
  cases h : s.awaiting? o with
  | none => rw [applyStatus_of_dropped h]
  | some state =>
    obtain ⟨batcher, sequencer, -, -, he⟩ := heard_fst s o state now
    have hheard : (s.heard o state now).1.standing = s.standing := by
      rw [he]
      rfl
    rw [applyStatus_of_awaited h]
    cases state.queued with
    | none => exact hheard
    | some reason => exact (standing_beginProbe _ _ _).trans hheard

theorem standing_ingest (s : FsSource) (paths : List Path) (now : Nat) :
    (s.ingest paths now).1.standing = s.standing := by
  obtain ⟨batcher, h⟩ := s.ingest_state paths now
  rw [h]
  rfl

end FsSource

namespace Observer

variable (o : Observer)

theorem standing_reconcile (reason : ReconcileReason) :
    (o.reconcile reason).source.standing = o.source.standing :=
  o.source.standing_beginProbes reason _

theorem standing_flushDue (now : Nat) : (o.flushDue now).1.source.standing = o.source.standing :=
  o.source.standing_flushRoots now _

theorem standing_ingest (paths : List Path) (now : Nat) :
    (o.ingest paths now).source.standing = o.source.standing :=
  o.source.standing_ingest paths now

theorem standing_answer (look : Path → Option StatusReport) (now : Nat) :
    (o.answer look now).1.source.standing = o.source.standing := by
  simp only [answer]
  cases o.probes with
  | nil => rfl
  | cons probe rest => exact o.source.standing_applyStatus _ now

end Observer

namespace Intake

theorem resolver_accept (i : Intake) (e : Envelope) :
    (i.accept e).reducer.resolver = i.reducer.resolver := by
  simp only [accept]
  split
  · simp only [Reducer.push]
    split <;> rfl
  · rfl

theorem resolver_foldl_accept (es : List Envelope) (i : Intake) :
    (es.foldl accept i).reducer.resolver = i.reducer.resolver := by
  induction es generalizing i with
  | nil => rfl
  | cons e rest ih => exact (ih _).trans (i.resolver_accept e)

theorem resolver_acceptRecovery (i : Intake) (r : Recovery) :
    (i.acceptRecovery r).reducer.resolver = i.reducer.resolver := by
  rw [acceptRecovery, resolver_foldl_accept]
  cases r.lost <;> rfl

theorem resolver_recover (i : Intake) (histories : List ReplayBuffer) :
    (i.recover histories).reducer.resolver = i.reducer.resolver := by
  rw [recover]
  generalize backfill histories i.cursor = recoveries
  induction recoveries generalizing i with
  | nil => rfl
  | cons r rest ih => exact (ih _).trans (i.resolver_acceptRecovery r)

theorem resolver_foldl_control (cs : List Control) (i : Intake) :
    (cs.foldl control i).reducer.resolver = cs.foldl Resolver.heed i.reducer.resolver := by
  induction cs generalizing i with
  | nil => rfl
  | cons c rest ih =>
    rw [List.foldl_cons, ih, List.foldl_cons]
    cases c <;> rfl

end Intake

namespace Notifier

def known (n : Notifier) : Table PaneId WorktreeId :=
  (n.controls.foldl Resolver.heed n.intake.reducer.resolver).worktrees

theorem resolver_drain (n : Notifier) (bus : Ring Envelope) (histories : List ReplayBuffer) :
    (n.drain bus histories).intake.reducer.resolver = n.intake.reducer.resolver := by
  simp only [drain]
  generalize bus.outstanding n.next = received
  generalize n.intake = i
  induction received generalizing i with
  | nil => rfl
  | cons r rest ih =>
    rw [List.foldl_cons, ih]
    cases r with
    | empty => rfl
    | message e => exact i.resolver_accept e
    | lagged _ => exact i.resolver_recover histories

theorem known_catchUp (n : Notifier) (bus : Ring Envelope) (histories : List ReplayBuffer) :
    (n.catchUp bus histories).known = n.known := by
  show (List.foldl Intake.control (n.drain bus histories).intake
    n.controls).reducer.resolver.worktrees = _
  rw [Intake.resolver_foldl_control, resolver_drain]
  rfl

theorem known_tick (n : Notifier) (now : Nat) : (n.tick now).1.known = n.known := by
  rcases n.tick_cases now with h | h <;> rw [h]
  rfl

theorem known_tell (n : Notifier) (c : Control) :
    (n.tell c).known =
      ((n.controls.foldl Resolver.heed n.intake.reducer.resolver).heed c).worktrees := by
  rw [known, tell, List.foldl_append]
  rfl

end Notifier

namespace Projection

def worktreeOf (p : Projection) (pane : PaneId) : Option WorktreeId :=
  (p.view? pane).map (·.worktree)

theorem worktreeOf_apply {p : Projection} (h : p.Keyed) (e : Envelope) :
    (p.apply e).1.worktreeOf = p.worktreeOf := by
  funext pane
  rw [worktreeOf, view?_apply h, Option.map_map, worktreeOf]
  congr 1
  funext view
  exact (p.shown_spec e view).1

end Projection

namespace Feed

def Keeps (f f' : Feed) : Prop :=
  f.projection.Keyed → f'.projection.Keyed ∧ f'.projection.worktreeOf = f.projection.worktreeOf

variable {f f' f'' : Feed}

theorem Keeps.refl (f : Feed) : Keeps f f := fun h => ⟨h, rfl⟩

theorem Keeps.trans (h : Keeps f f') (h' : Keeps f' f'') : Keeps f f'' := by
  intro hk
  obtain ⟨hk', he⟩ := h hk
  obtain ⟨hk'', he'⟩ := h' hk'
  exact ⟨hk'', he'.trans he⟩

theorem keeps_foldl {α : Type} {step : Feed → α → Feed} (h : ∀ f a, Keeps f (step f a))
    (as : List α) (f : Feed) : Keeps f (as.foldl step f) := by
  induction as generalizing f with
  | nil => exact .refl f
  | cons a rest ih => exact (h f a).trans (ih _)

theorem keeps_accept (f : Feed) (e : Envelope) : Keeps f (f.accept e) := by
  simp only [accept]
  split
  · exact .refl f
  · split
    · exact fun h => ⟨h.apply e, Projection.worktreeOf_apply h e⟩
    · exact .refl f

theorem keeps_recordLoss (f : Feed) (lost : Option DeliveryGap) : Keeps f (f.recordLoss lost) := by
  cases lost <;> exact fun h => ⟨h, rfl⟩

theorem keeps_acceptRecovery (f : Feed) (r : Recovery) : Keeps f (f.acceptRecovery r) :=
  (keeps_foldl keeps_accept r.events f).trans (keeps_recordLoss _ r.lost)

theorem keeps_drain (f : Feed) (bus : Ring Envelope) (histories : List ReplayBuffer) :
    Keeps f (f.drain bus histories) := by
  have hreceive : ∀ f r, Keeps f (receive histories f r) := by
    intro f r
    cases r with
    | empty => exact .refl f
    | message e => exact f.keeps_accept e
    | lagged _ => exact keeps_foldl keeps_acceptRecovery _ f
  exact (keeps_foldl hreceive _ f).trans fun h => ⟨h, rfl⟩

end Feed

namespace Registry

def crew (r : Registry) : List Pane := r.runs.map (·.pane)

theorem crew_update (r : Registry) (run : RunId) (l : LivePane) :
    (r.update run l).crew = r.crew.set run.index l.pane := List.map_set

theorem crew_update_of_eq {r : Registry} {run : RunId} {l l' : LivePane} (hl : r.run? run = some l)
    (hp : l'.pane = l.pane) : (r.update run l').crew = r.crew := by
  obtain ⟨hlt, hget⟩ := List.getElem?_eq_some_iff.mp hl
  have hlen : run.index < r.crew.length := by simpa [crew] using hlt
  have hcrew : r.crew[run.index] = l'.pane := by simp [crew, hget, hp]
  rw [crew_update, ← hcrew, List.set_getElem_self]

theorem crew_settle (r : Registry) : r.settle.crew = r.crew := by
  simp only [crew, settle, List.map_map]
  rfl

end Registry

namespace Workspace

variable {ws ws' ws'' : Workspace}

def books (ws : Workspace) : Books where
  entries := ws.registry.panes
  runs := ws.registry.crew
  bindings := ws.bindings
  known := ws.notifier.known
  seen := ws.feed.projection.worktreeOf
  roots := ws.observer.source.table
  focus := ws.focus.focused
  first := ws.observer.source.focused

/-- From the one workspace to the other no entry is made in the books. -/
def Silent (ws ws' : Workspace) : Prop :=
  ws.feed.projection.Keyed → ws'.feed.projection.Keyed ∧ ws'.books = ws.books

namespace Silent

theorem refl (ws : Workspace) : Silent ws ws := fun hk => ⟨hk, rfl⟩

theorem trans (h : Silent ws ws') (h' : Silent ws' ws'') : Silent ws ws'' := by
  intro hk
  obtain ⟨hk', he⟩ := h hk
  obtain ⟨hk'', he'⟩ := h' hk'
  exact ⟨hk'', he'.trans he⟩

end Silent

theorem silent_observer {o : Observer} (h : o.source.standing = ws.observer.source.standing) :
    Silent ws { ws with observer := o } := by
  intro hk
  obtain ⟨htable, hfirst⟩ := Prod.mk.inj h
  exact ⟨hk, by simp only [books, htable, hfirst]⟩

theorem silent_publish (ws : Workspace) (told : List Envelope) : Silent ws (ws.publish told) :=
  fun hk => ⟨hk, rfl⟩

theorem silent_feed {f : Feed} (h : ws.feed.Keeps f) : Silent ws { ws with feed := f } := by
  intro hk
  obtain ⟨hk', hseen⟩ := h hk
  exact ⟨hk', by simp only [books, hseen]⟩

theorem silent_notifier {n : Notifier} (h : n.known = ws.notifier.known) :
    Silent ws { ws with notifier := n } := fun hk => ⟨hk, by simp only [books, h]⟩

theorem silent_registry {r : Registry} (hp : r.panes = ws.registry.panes)
    (hc : r.crew = ws.registry.crew) : Silent ws { ws with registry := r } :=
  fun hk => ⟨hk, by simp only [books, hp, hc]⟩

theorem silent_honourResync (ws : Workspace) : Silent ws ws.honourResync := by
  simp only [honourResync]
  split
  · have hasked : Silent ws { ws with feed := { ws.feed with wantsResync := false } } :=
      silent_feed fun h => ⟨h, rfl⟩
    exact hasked.trans (silent_observer (ws.observer.standing_reconcile _))
  · exact .refl ws

theorem silent_catchUp (ws : Workspace) : Silent ws ws.catchUp := by
  have hcaught : Silent ws { ws with
      notifier := ws.notifier.catchUp ws.bus ws.histories
      feed := ws.feed.drain ws.bus ws.histories
      registry := ws.registry.settle } := by
    intro hk
    obtain ⟨hk', hseen⟩ := ws.feed.keeps_drain ws.bus ws.histories hk
    refine ⟨hk', ?_⟩
    simp only [books, Notifier.known_catchUp, Registry.crew_settle, hseen]
    rfl
  exact hcaught.trans (silent_honourResync _)

theorem silent_answerProbe (ws : Workspace) : Silent ws ws.answerProbe :=
  (silent_observer (ws.observer.standing_answer ws.look ws.now)).trans (silent_publish _ _)

theorem silent_settleFor (fuel : Nat) (ws : Workspace) : Silent ws (settleFor fuel ws) := by
  induction fuel generalizing ws with
  | zero => exact silent_catchUp ws
  | succ fuel ih =>
    simp only [settleFor]
    split
    · exact silent_catchUp ws
    · exact (silent_catchUp ws).trans ((silent_answerProbe _).trans (ih _))

theorem silent_deliver (ws : Workspace) (batch : Option Batch) : Silent ws (ws.deliver batch) := by
  cases batch <;> exact .refl _

theorem silent_endFrame (ws : Workspace) : Silent ws ws.endFrame := by
  simp only [endFrame]
  split
  · exact (silent_notifier (ws.notifier.known_tick ws.now)).trans (silent_deliver _ _)
  · exact .refl ws

theorem silent_flushDue (ws : Workspace) : Silent ws ws.flushDue := by
  simp only [flushDue]
  split
  · exact (silent_observer (ws.observer.standing_flushDue ws.now)).trans (silent_publish _ _)
  · exact .refl ws

theorem silent_sweep (ws : Workspace) : Silent ws ws.sweep := by
  simp only [sweep]
  split
  · exact silent_observer (ws.observer.standing_reconcile _)
  · exact .refl ws

theorem silent_beat (ws : Workspace) : Silent ws ws.beat := by
  simp only [beat]
  split
  · exact (silent_endFrame ws).trans ((silent_flushDue _).trans
      ((silent_sweep _).trans (silent_settleFor _ _)))
  · exact .refl ws

theorem silent_pass (ms : Nat) (ws : Workspace) : Silent ws (pass ms ws) := by
  induction ms generalizing ws with
  | zero => exact .refl ws
  | succ ms ih =>
    have hnow : Silent ws { ws with now := ws.now + 1 } := fun hk => ⟨hk, rfl⟩
    exact hnow.trans ((silent_beat _).trans (ih _))

theorem silent_rest (ws : Workspace) (ms : Nat) : Silent ws (ws.rest ms) :=
  (silent_settleFor _ ws).trans (silent_pass ms _)

theorem silent_follow {run : RunId} {l l' : LivePane} (hl : ws.registry.run? run = some l)
    (hp : l'.pane = l.pane) : Silent ws { ws with registry := ws.registry.update run l' } :=
  silent_registry rfl (Registry.crew_update_of_eq hl hp)

theorem silent_stopFollowers (ws : Workspace) (run : RunId) (timeout : Nat) :
    Silent ws (ws.stopFollowers run timeout) := by
  simp only [stopFollowers]
  cases h : ws.registry.run? run with
  | none => exact .refl ws
  | some l => exact silent_follow h (pane_finish l timeout)

theorem silent_awaitFollowers (ws : Workspace) (run : RunId) :
    Silent ws (ws.awaitFollowers run) := by
  simp only [awaitFollowers]
  split
  · exact (silent_catchUp ws).trans (silent_rest _ _)
  · exact silent_catchUp ws

theorem silent_retire (ws : Workspace) (run : RunId) : Silent ws (ws.retire run) := by
  simp only [retire]
  split
  · exact .refl ws
  · split
    · exact (silent_stopFollowers ws run 0).trans (silent_catchUp _)
    · exact (silent_awaitFollowers ws run).trans (silent_stopFollowers _ run _)

theorem silent_inject (ws : Workspace) (paths : List Path) : Silent ws (ws.inject paths) :=
  (silent_catchUp ws).trans (silent_observer (Observer.standing_ingest _ _ _))

theorem silent_subscribe (ws : Workspace) (pane : PaneId) (after : Option Nat) :
    Silent ws (ws.subscribe pane after).1 := by
  simp only [subscribe]
  cases h : ws.registry.registered? pane with
  | none => exact .refl ws
  | some found =>
    obtain ⟨-, hl⟩ := registered?_eq_some h
    have hfollow : Silent ws { ws with
        registry := ws.registry.update found.1 (found.2.subscribe after) } := silent_follow hl rfl
    exact hfollow.trans fun hk => ⟨hk, rfl⟩

theorem silent_read (ws : Workspace) (stream : Nat) (count : Option Nat) :
    Silent ws (ws.read stream count).1 := by
  simp only [read]
  cases ws.streams[stream]? with
  | none => exact .refl ws
  | some s =>
    cases hl : ws.registry.run? s.run with
    | none =>
      simp only [hl]
      exact .refl ws
    | some l =>
      simp only [hl]
      exact silent_follow hl (pane_readQueued l s.index count)

end Workspace

end Switchboard
