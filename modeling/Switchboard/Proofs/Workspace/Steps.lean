import Switchboard.Proofs.Notifier.CatchUp
import Switchboard.Proofs.Registry.Entries
import Switchboard.Workspace.Operation

/-!
# What a workspace does to the scene

Whatever is asked of a workspace, and whatever happens in it of its own accord, moves the scene of
delivery by the moves of the scene and by nothing else.
-/
namespace Switchboard

inductive Operation where
  | openPane (spec : PaneSpec)
  | dispatch (command : CommandEnvelope)
  | closePane (pane : PaneId)
  | bindPane (pane : PaneId) (worktree : WorktreeId) (cwd : Option Path)
  | setFocus (focus : Focus)
  | addWorktree (worktree : WorktreeId) (path : Path)
  | removeWorktree (worktree : WorktreeId)
  | inject (paths : List Path)
  | reconcile (reason : ReconcileReason)
  | setReport (root : Path) (found : Option StatusReport)
  | subscribe (pane : PaneId) (after : Option Nat)
  | read (stream : Nat) (count : Option Nat)
  | makeDir (path : Path)
  | rest (ms : Nat)

namespace Workspace

variable {ws ws' ws'' : Workspace}

def perform (ws : Workspace) : Operation → Workspace
  | .openPane spec => (ws.openPane spec).1
  | .dispatch command => (ws.dispatch command).1
  | .closePane pane => (ws.closePane pane).1
  | .bindPane pane w cwd => (ws.bindPane pane w cwd).1
  | .setFocus focus => ws.setFocus focus
  | .addWorktree w path => (ws.addWorktree w path).1
  | .removeWorktree w => (ws.removeWorktree w).1
  | .inject paths => ws.inject paths
  | .reconcile reason => ws.reconcile reason
  | .setReport root found => ws.setReport root found
  | .subscribe pane from_ => (ws.subscribe pane from_).1
  | .read stream count => (ws.read stream count).1
  | .makeDir path => { ws with tree := ws.tree.makeDir path }
  | .rest ms => ws.rest ms

def performAll (ws : Workspace) (operations : List Operation) : Workspace :=
  operations.foldl perform ws

def scene (ws : Workspace) : Scene where
  bus := ws.bus
  published := ws.published
  speakers := ws.observer.speaker :: ws.registry.speakers
  epochs := ws.registry.lastEpochs
  notifier := ws.notifier
  delivered := ws.delivered

theorem histories_scene (ws : Workspace) : ws.scene.histories = ws.histories := by
  rw [histories, ws.registry.histories_eq]
  rfl

/-- From the one workspace to the other the scene only moves. -/
def Goes (ws ws' : Workspace) : Prop :=
  ws.registry.Wired → ws'.registry.Wired ∧ Scene.Leads ws.scene ws'.scene

namespace Goes

theorem refl (ws : Workspace) : Goes ws ws := fun hw => ⟨hw, .refl⟩

theorem trans (h : Goes ws ws') (h' : Goes ws' ws'') : Goes ws ws'' := by
  intro hw
  obtain ⟨hw', hl⟩ := h hw
  obtain ⟨hw'', hl'⟩ := h' hw'
  exact ⟨hw'', hl.trans hl'⟩

theorem still (hw : ws.registry.Wired → ws'.registry.Wired) (hs : ws'.scene = ws.scene) :
    Goes ws ws' := fun h => ⟨hw h, hs ▸ .refl⟩

theorem move (hw : ws.registry.Wired → ws'.registry.Wired) (hm : Scene.Move ws.scene ws'.scene) :
    Goes ws ws' := fun h => ⟨hw h, .single hm⟩

end Goes

theorem goes_observer {o : Observer} (h : o.speaker = ws.observer.speaker) :
    Goes ws { ws with observer := o } := by
  refine .still id ?_
  simp only [scene, h]

theorem goes_observer_tells {o : Observer} {told : List Envelope}
    (h : ws.observer.speaker.Tells told o.speaker) :
    Goes ws ({ ws with observer := o }.publish told) := by
  have hs : ws.scene.speakers = [] ++ ws.observer.speaker :: ws.registry.speakers := rfl
  exact .move id (.tell hs h)

theorem honourResync_eq (ws : Workspace) :
    ws.honourResync.registry = ws.registry ∧ ws.honourResync.scene = ws.scene := by
  simp only [honourResync]
  by_cases h : ws.feed.wantsResync = true
  · simp only [if_pos h, scene, Observer.speaker_reconcile, and_self]
  · simp only [if_neg h, and_self]

theorem scene_catchUp (ws : Workspace) : ws.catchUp.scene = ws.scene.catchUp := by
  simp only [catchUp, (honourResync_eq _).2]
  simp only [scene, Scene.catchUp, Registry.speakers_settle, ← histories_scene]
  rfl

theorem goes_catchUp (ws : Workspace) : Goes ws ws.catchUp := by
  refine .move (fun hw => ?_) (scene_catchUp ws ▸ .catchUp ws.scene)
  simp only [catchUp, (honourResync_eq _).1]
  exact hw.settle

theorem goes_answerProbe (ws : Workspace) : Goes ws ws.answerProbe :=
  goes_observer_tells (ws.observer.tells_answer ws.look ws.now)

theorem goes_settleFor (fuel : Nat) (ws : Workspace) : Goes ws (settleFor fuel ws) := by
  induction fuel generalizing ws with
  | zero => exact goes_catchUp ws
  | succ fuel ih =>
    simp only [settleFor]
    by_cases h : ws.catchUp.observer.probes.isEmpty = true
    · rw [if_pos h]
      exact goes_catchUp ws
    · rw [if_neg h]
      exact (goes_catchUp ws).trans ((goes_answerProbe _).trans (ih _))

theorem goes_settle (ws : Workspace) : Goes ws ws.settle := goes_settleFor _ ws

theorem goes_deliver {out : Notifier × Option Batch}
    (hm : Scene.Move ws.scene (ws.scene.deliver out)) :
    Goes ws ({ ws with notifier := out.1 }.deliver out.2) := by
  rcases out with ⟨n, _ | batch⟩
  · refine .move id ?_
    have hs : scene ({ ws with notifier := n }.deliver none) = ws.scene.deliver (n, none) := by
      simp only [deliver, scene, Scene.deliver, Option.toList_none, List.append_nil]
    exact hs ▸ hm
  · exact .move id hm

theorem goes_endFrame (ws : Workspace) : Goes ws ws.endFrame := by
  simp only [endFrame]
  by_cases h : ws.now % ws.config.frame = 0
  · rw [if_pos h]
    exact goes_deliver (.frame ws.scene ws.now)
  · rw [if_neg h]
    exact .refl ws

theorem goes_flushDue (ws : Workspace) : Goes ws ws.flushDue := by
  simp only [flushDue]
  by_cases h : ws.observer.isDue ws.now = true
  · rw [if_pos h]
    exact goes_observer_tells (ws.observer.tells_flushDue ws.now)
  · rw [if_neg h]
    exact .refl ws

theorem goes_sweep (ws : Workspace) : Goes ws ws.sweep := by
  simp only [sweep]
  by_cases h : ws.now % (1000 * ws.config.files.driftSweep) = 0
  · rw [if_pos h]
    exact goes_observer (ws.observer.speaker_reconcile _)
  · rw [if_neg h]
    exact .refl ws

theorem goes_beat (ws : Workspace) : Goes ws ws.beat := by
  simp only [beat]
  by_cases h : ws.running = true
  · rw [if_pos h]
    exact (goes_endFrame ws).trans ((goes_flushDue _).trans
      ((goes_sweep _).trans (goes_settle _)))
  · rw [if_neg h]
    exact .refl ws

theorem goes_pass (ms : Nat) (ws : Workspace) : Goes ws (pass ms ws) := by
  induction ms generalizing ws with
  | zero => exact .refl ws
  | succ ms ih =>
    have hnow : Goes ws { ws with now := ws.now + 1 } := .still id rfl
    exact hnow.trans ((goes_beat _).trans (ih _))

theorem goes_rest_of_catchUp (ws : Workspace) (ms : Nat) : Goes ws.catchUp (ws.rest ms) := by
  have hsettle : ∀ fuel, Goes ws.catchUp (settleFor fuel ws) := by
    intro fuel
    cases fuel with
    | zero => exact .refl _
    | succ fuel =>
      simp only [settleFor]
      by_cases h : ws.catchUp.observer.probes.isEmpty = true
      · rw [if_pos h]
        exact .refl _
      · rw [if_neg h]
        exact (goes_answerProbe _).trans (goes_settleFor fuel _)
  exact (hsettle probeLimit).trans (goes_pass ms _)

theorem goes_rest (ws : Workspace) (ms : Nat) : Goes ws (ws.rest ms) :=
  (goes_catchUp ws).trans (goes_rest_of_catchUp ws ms)

theorem goes_project (ws : Workspace) (f : Projection → Projection) : Goes ws (ws.project f) :=
  .still id rfl

theorem goes_tellNotifier (ws : Workspace) (c : Control) : Goes ws (ws.tellNotifier c) :=
  .move id (.control ws.scene c)

theorem goes_refreshTier (ws : Workspace) (w : WorktreeId) : Goes ws (ws.refreshTier w) := by
  simp only [refreshTier]
  refine (goes_catchUp ws).trans ?_
  cases h : ws.catchUp.observer.setTier w (ws.tierFor w) with
  | error e => exact .refl _
  | ok o => exact goes_observer (Observer.speaker_setTier h)

theorem goes_resolveCwd (ws : Workspace) (cwd : Option Path) : Goes ws (ws.resolveCwd cwd).1 := by
  cases cwd with
  | none => exact .refl ws
  | some path => exact goes_catchUp ws

theorem goes_bindings (ws : Workspace) (bindings : Table PaneId WorktreeId) :
    Goes ws { ws with bindings } := .still id rfl

theorem goes_bind (ws : Workspace) (pane : PaneId) (w : WorktreeId) (cwd : Option Path) :
    Goes ws (ws.bind pane w cwd) := by
  have htold := (goes_resolveCwd ws cwd).trans
    ((goes_project (ws.resolveCwd cwd).1 (·.bind pane w (ws.resolveCwd cwd).2)).trans
      (goes_tellNotifier _ (.bind pane w)))
  simp only [bind]
  generalize ((ws.resolveCwd cwd).1.project
    (·.bind pane w (ws.resolveCwd cwd).2)).tellNotifier (.bind pane w) = ws' at htold ⊢
  refine htold.trans ((goes_bindings ws' (Table.set ws'.bindings pane w)).trans
    (Goes.trans ?_ (goes_refreshTier _ w)))
  cases Table.get? ws'.bindings pane with
  | none => exact .refl _
  | some old =>
    by_cases h : old = w
    · simp only [if_pos h]
      exact .refl _
    · simp only [if_neg h]
      exact goes_refreshTier _ old

theorem goes_unbind (ws : Workspace) (pane : PaneId) : Goes ws (ws.unbind pane) := by
  have htold := (goes_project ws fun p => (p.unbind pane).1).trans
    (goes_tellNotifier _ (.forget pane))
  simp only [unbind]
  generalize (ws.project fun p => (p.unbind pane).1).tellNotifier (.forget pane) = ws' at htold ⊢
  refine htold.trans ((goes_bindings ws' (Table.erase ws'.bindings pane)).trans ?_)
  cases Table.get? ws'.bindings pane with
  | none => exact .refl _
  | some w => exact goes_refreshTier _ w

theorem goes_syncFocused (ws : Workspace) : Goes ws ws.syncFocused := goes_observer rfl

theorem goes_follow {run : RunId} {l l' : LivePane} (hl : ws.registry.run? run = some l)
    (hp : l'.pane = l.pane) : Goes ws { ws with registry := ws.registry.update run l' } := by
  refine .still (fun hw => hw.update hl (congrArg Pane.id hp)) ?_
  have hs := Registry.speakers_update_of_eq hl (congrArg Pane.speaker hp)
  simp only [scene, hs]
  rfl

theorem goes_outcome {α : Type} {run : RunId} {l : LivePane} {pane : PaneId} {o : Outcome α}
    (hf : ws.registry.find? pane = some run) (hl : ws.registry.run? run = some l)
    (ho : Pane.Outcome.Sound l.pane o) :
    Goes ws ({ ws with registry := ws.registry.update run (l.afterwards o) }.publish o.told) := by
  intro hw
  have hid : o.pane.id = l.pane.id := Source.pane.inj ho.source
  obtain ⟨front, behind, hs, hset, -⟩ := hw.split hf hl
  refine ⟨hw.update hl hid, .single ?_⟩
  have hspeakers : ws.scene.speakers =
      (ws.observer.speaker :: front) ++ l.pane.speaker :: behind := by
    rw [List.cons_append, ← hs]
    rfl
  have hm := Scene.Move.tell hspeakers ho
  have hscene : scene ({ ws with
      registry := ws.registry.update run (l.afterwards o) }.publish o.told) =
        ws.scene.say ((ws.observer.speaker :: front) ++ o.pane.speaker :: behind) o.told := by
    have hset' := hset (l.afterwards o)
    simp only [scene, Scene.say, publish, hset', List.cons_append]
    rfl
  exact hscene ▸ hm

theorem registered?_eq_some {r : Registry} {pane : PaneId} {run : RunId} {l : LivePane}
    (h : r.registered? pane = some (run, l)) : r.find? pane = some run ∧ r.run? run = some l := by
  simp only [Registry.registered?, Option.bind_eq_bind, Option.bind_eq_some_iff] at h
  obtain ⟨run', hf, l', hl, he⟩ := h
  cases he
  exact ⟨hf, hl⟩

theorem registered?_of_find? {r : Registry} {pane : PaneId} {run : RunId} {l : LivePane}
    (hf : r.find? pane = some run) (hl : r.run? run = some l) :
    r.registered? pane = some (run, l) := by
  simp only [Registry.registered?, hf, hl, Option.bind_eq_bind, Option.bind_some]

theorem goes_nothing_told (ws : Workspace) : Goes ws (ws.publish []) := by
  refine .still id ?_
  simp only [publish, scene, List.append_nil, List.foldl_nil]

theorem goes_handle (ws : Workspace) (command : CommandEnvelope) :
    Goes ws ({ ws with registry := (ws.registry.handle command ws.now).registry }.publish
      (ws.registry.handle command ws.now).told) := by
  simp only [Registry.handle]
  cases h : ws.registry.registered? command.target with
  | none => exact goes_nothing_told ws
  | some found =>
    obtain ⟨hf, hl⟩ := registered?_eq_some h
    exact goes_outcome hf hl (found.2.pane.sound_handle command ws.now)

theorem pane_finish (l : LivePane) (timeout : Nat) : (l.finish timeout).pane = l.pane := by
  simp only [LivePane.finish]
  by_cases h : timeout = 0
  · rw [if_pos h]
  · rw [if_neg h]
    rfl

theorem goes_stopFollowers (ws : Workspace) (run : RunId) (timeout : Nat) :
    Goes ws (ws.stopFollowers run timeout) := by
  simp only [stopFollowers]
  cases h : ws.registry.run? run with
  | none => exact .refl ws
  | some l => exact goes_follow h (pane_finish l timeout)

theorem goes_awaitFollowers (ws : Workspace) (run : RunId) : Goes ws (ws.awaitFollowers run) := by
  simp only [awaitFollowers]
  by_cases h : (ws.catchUp.registry.run? run).any LivePane.isFollowed = true
  · rw [if_pos h]
    exact (goes_catchUp ws).trans (goes_rest _ _)
  · rw [if_neg h]
    exact goes_catchUp ws

theorem goes_retire (ws : Workspace) (run : RunId) : Goes ws (ws.retire run) := by
  simp only [retire]
  split
  · exact .refl ws
  · split
    · exact (goes_stopFollowers ws run 0).trans (goes_catchUp _)
    · exact (goes_awaitFollowers ws run).trans (goes_stopFollowers _ run _)

theorem goes_close (ws : Workspace) (pane : PaneId) : Goes ws (ws.close pane).1 := by
  simp only [close]
  cases h : ws.registry.unregister pane with
  | error e => exact .refl ws
  | ok out =>
    obtain ⟨r, run⟩ := out
    obtain ⟨hf, rfl⟩ := Registry.unregister_eq_ok h
    have hrun : Registry.run? { ws.registry with
        panes := Table.erase ws.registry.panes pane } run = ws.registry.run? run := rfl
    cases hl : ws.registry.run? run with
    | none =>
      simp only [hrun, hl]
      exact .refl ws
    | some l =>
      simp only [hrun, hl]
      refine Goes.trans ?_ (goes_retire _ run)
      intro hw
      have ho := l.pane.sound_shutdown ws.now
      have hid : (l.pane.shutdown ws.now).pane.id = l.pane.id := Source.pane.inj ho.source
      obtain ⟨front, behind, hs, -, hgone⟩ := hw.split hf hl
      refine ⟨(hw.erase pane).update (hrun.trans hl) hid, .single ?_⟩
      have hspeakers : ws.scene.speakers =
          (ws.observer.speaker :: front) ++ l.pane.speaker :: behind := by
        rw [List.cons_append, ← hs]
        rfl
      have hm := Scene.Move.leave rfl hspeakers ho
      have hscene : scene ({ ws with
          registry := Registry.update { ws.registry with
            panes := Table.erase ws.registry.panes pane } run
              (l.afterwards (l.pane.shutdown ws.now)) }.publish (l.pane.shutdown ws.now).told) =
          ws.scene.say ((ws.observer.speaker :: front) ++ behind)
            (l.pane.shutdown ws.now).told := by
        have hgone' := hgone (l.afterwards (l.pane.shutdown ws.now))
        simp only [scene, Scene.say, publish, hgone', List.cons_append]
        rfl
      exact hscene ▸ hm

theorem goes_closeAll (panes : List PaneId) (ws : Workspace) : Goes ws (ws.closeAll panes) := by
  induction panes generalizing ws with
  | nil => exact .refl ws
  | cons pane rest ih => exact (goes_close ws pane).trans (ih _)

theorem goes_register {spec : PaneSpec} {r : Registry}
    (h : ws.registry.register (.create (ws.newPane spec)) = .ok r) :
    Goes ws { ws with registry := r } := by
  intro hw
  obtain ⟨hw', hnew, front, behind, hs, hset⟩ := hw.register h
  obtain ⟨-, hr⟩ := Registry.register_eq_ok h
  refine ⟨hw', .single ?_⟩
  have hspeakers : ws.scene.speakers = (ws.observer.speaker :: front) ++ behind := by
    rw [List.cons_append, ← hs]
    rfl
  have hnone : ∀ sp ∈ ws.scene.speakers, sp.source ≠ .pane spec.pane := by
    intro sp hsp
    rcases List.mem_cons.mp hsp with rfl | hsp
    · exact fun he => nomatch he
    · exact hnew sp hsp
  have hm := Scene.Move.enter spec.pane ws.config.replayCapacity hspeakers hnone
  have hscene : scene { ws with registry := r } = ws.scene.welcome
      (ws.observer.speaker :: front) behind spec.pane ws.config.replayCapacity := by
    have hepochs : r.lastEpochs = Table.set ws.registry.lastEpochs spec.pane
        (max ((Table.get? ws.registry.lastEpochs spec.pane).getD
          (ws.registry.nextEpoch spec.pane)) (ws.registry.nextEpoch spec.pane)) := by
      rw [hr]
      rfl
    simp only [scene, Scene.welcome, hset, hepochs, List.cons_append]
    rfl
  exact hscene ▸ hm

theorem goes_bindNew (ws : Workspace) (spec : PaneSpec) : Goes ws (ws.bindNew spec) := by
  simp only [bindNew]
  cases spec.metadata.worktree with
  | none => exact .refl ws
  | some w => exact goes_bind ws _ _ _

theorem goes_startPane (ws : Workspace) (pane : PaneId) : Goes ws (ws.startPane pane).1 := by
  simp only [startPane, Registry.start]
  cases h : ws.registry.registered? pane with
  | none => exact .refl ws
  | some found =>
    obtain ⟨hf, hl⟩ := registered?_eq_some h
    have htold := goes_outcome hf hl (found.2.pane.sound_start ws.now)
    simp only [Option.map_some]
    split
    · exact htold
    · exact htold
    · exact htold.trans ((goes_close _ pane).trans (goes_unbind _ pane))

theorem goes_openPane (ws : Workspace) (spec : PaneSpec) : Goes ws (ws.openPane spec).1 := by
  simp only [openPane]
  cases h : ws.registry.register (.create (ws.newPane spec)) with
  | error e => exact .refl ws
  | ok r => exact (goes_register h).trans ((goes_bindNew _ spec).trans (goes_startPane _ _))

theorem goes_closePane (ws : Workspace) (pane : PaneId) : Goes ws (ws.closePane pane).1 := by
  have hclose := goes_close ws pane
  simp only [closePane]
  generalize ws.close pane = out at hclose
  rcases out with ⟨ws', e | ids⟩
  · exact hclose
  · exact hclose.trans ((goes_unbind ws' pane).trans (goes_syncFocused _))

theorem goes_afterCommand (ws : Workspace) (command : CommandEnvelope) (before : LivePane) :
    Goes ws (ws.afterCommand command before) := by
  simp only [afterCommand]
  split
  · simp only [rebindIfMoved]
    split
    · exact .refl ws
    · split
      · exact goes_bind ws _ _ _
      · exact goes_unbind ws _
  · exact .refl ws

theorem goes_dispatch (ws : Workspace) (command : CommandEnvelope) :
    Goes ws (ws.dispatch command).1 := by
  simp only [dispatch]
  cases ws.registry.lookup? command.target with
  | none => exact .refl ws
  | some before =>
    have hhandle := goes_handle ws command
    generalize { ws with registry := (ws.registry.handle command ws.now).registry }.publish
      (ws.registry.handle command ws.now).told = ws' at hhandle
    simp only
    split
    · exact hhandle.trans ((goes_close ws' _).trans ((goes_unbind _ _).trans
        (goes_syncFocused _)))
    · split
      · exact hhandle.trans (goes_afterCommand ws' command before)
      · exact hhandle

theorem goes_bindPane (ws : Workspace) (pane : PaneId) (w : WorktreeId) (cwd : Option Path) :
    Goes ws (ws.bindPane pane w cwd).1 := by
  simp only [bindPane]
  split
  · exact (goes_bind ws pane w cwd).trans (goes_syncFocused _)
  · exact .refl ws

theorem goes_setFocus (ws : Workspace) (focus : Focus) : Goes ws (ws.setFocus focus) := by
  have hfocus : Goes ws { ws with focus } := .still id rfl
  exact hfocus.trans ((goes_tellNotifier _ _).trans (goes_syncFocused _))

theorem goes_addWorktree (ws : Workspace) (w : WorktreeId) (path : Path) :
    Goes ws (ws.addWorktree w path).1 := by
  simp only [addWorktree]
  refine (goes_catchUp ws).trans ?_
  cases ws.catchUp.tree.canonicalizeRoot path with
  | error e => exact .refl _
  | ok root =>
    cases h : ws.catchUp.observer.register w root (ws.tierFor w) with
    | error e =>
      simp only [h]
      exact .refl _
    | ok o =>
      simp only [h]
      exact (goes_observer (Observer.speaker_register h)).trans
        ((goes_project _ _).trans (goes_syncFocused _))

theorem goes_removeWorktree (ws : Workspace) (w : WorktreeId) :
    Goes ws (ws.removeWorktree w).1 := by
  simp only [removeWorktree]
  refine (goes_catchUp ws).trans ?_
  cases h : ws.catchUp.observer.unregister w with
  | error e => exact .refl _
  | ok o => exact (goes_observer (Observer.speaker_unregister h)).trans (goes_project _ _)

theorem goes_inject (ws : Workspace) (paths : List Path) : Goes ws (ws.inject paths) :=
  (goes_catchUp ws).trans (goes_observer (Observer.speaker_ingest _ _ _))

theorem goes_subscribe (ws : Workspace) (pane : PaneId) (after : Option Nat) :
    Goes ws (ws.subscribe pane after).1 := by
  simp only [subscribe]
  cases h : ws.registry.registered? pane with
  | none => exact .refl ws
  | some found =>
    obtain ⟨-, hl⟩ := registered?_eq_some h
    have hfollow : Goes ws { ws with
        registry := ws.registry.update found.1 (found.2.subscribe after) } := goes_follow hl rfl
    exact hfollow.trans (.still id rfl)

theorem pane_readQueued (l : LivePane) (index : Nat) (count : Option Nat) :
    (l.readQueued index count).1.pane = l.pane := by
  simp only [LivePane.readQueued]
  cases l.followers[index]? <;> rfl

theorem goes_read (ws : Workspace) (stream : Nat) (count : Option Nat) :
    Goes ws (ws.read stream count).1 := by
  simp only [read]
  cases ws.streams[stream]? with
  | none => exact .refl ws
  | some s =>
    cases hl : ws.registry.run? s.run with
    | none =>
      simp only [hl]
      exact .refl ws
    | some l =>
      simp only [hl]
      exact goes_follow hl (pane_readQueued l s.index count)

theorem goes_perform (ws : Workspace) (operation : Operation) :
    Goes ws (ws.perform operation) := by
  cases operation with
  | openPane spec => exact goes_openPane ws spec
  | dispatch command => exact goes_dispatch ws command
  | closePane pane => exact goes_closePane ws pane
  | bindPane pane w cwd => exact goes_bindPane ws pane w cwd
  | setFocus focus => exact goes_setFocus ws focus
  | addWorktree w path => exact goes_addWorktree ws w path
  | removeWorktree w => exact goes_removeWorktree ws w
  | inject paths => exact goes_inject ws paths
  | reconcile reason => exact goes_observer (ws.observer.speaker_reconcile reason)
  | setReport root found => exact .still id rfl
  | subscribe pane after => exact goes_subscribe ws pane after
  | read stream count => exact goes_read ws stream count
  | makeDir path => exact .still id rfl
  | rest ms => exact goes_rest ws ms

theorem goes_performAll (operations : List Operation) (ws : Workspace) :
    Goes ws (ws.performAll operations) := by
  induction operations generalizing ws with
  | nil => exact .refl ws
  | cons operation rest ih => exact (goes_perform ws operation).trans (ih _)

theorem scene_shutdown (ws : Workspace) : ∃ now, ws.shutdown.scene =
    (ws.closeAll ws.panes).scene.catchUp.deliver
      ((ws.closeAll ws.panes).scene.catchUp.notifier.finish now) := by
  refine ⟨(ws.closeAll ws.panes).catchUp.now, ?_⟩
  rw [← scene_catchUp]
  simp only [shutdown]
  generalize (ws.closeAll ws.panes).catchUp = last
  have hn : last.scene.notifier = last.notifier := rfl
  rw [hn]
  rcases last.notifier.finish last.now with ⟨n, _ | batch⟩
  · simp only [deliver, scene, Scene.deliver, Option.toList_none, List.append_nil]
    rfl
  · rfl

theorem goes_shutdown (ws : Workspace) : Goes ws ws.shutdown := by
  obtain ⟨now, hs⟩ := scene_shutdown ws
  refine (goes_closeAll ws.panes ws).trans ((goes_catchUp _).trans (.move ?_ ?_))
  · intro hw
    simp only [shutdown]
    rcases (ws.closeAll ws.panes).catchUp.notifier.finish _ with ⟨n, _ | batch⟩ <;> exact hw
  · rw [hs, ← scene_catchUp]
    exact .finish _ now

end Workspace

end Switchboard
