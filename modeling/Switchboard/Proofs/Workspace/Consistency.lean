import Switchboard.Proofs.Pane.Started
import Switchboard.Proofs.Workspace.Unchanged

/-!
# How a workspace keeps its books

Every operation makes its entries in all the books at once: in the bindings, with the notifier, in
the projection and in the tiers of the roots. So the books of a workspace agree at all times, once
the notifier has looked at what it was told.
-/
namespace Switchboard

open Books (Serves)

theorem Observer.setTier_cases (o : Observer) (w : WorktreeId) (tier : ActivityTier) :
    (∃ o', o.setTier w tier = .ok o' ∧
        o'.source.standing = (o.source.table.retier w tier, o.source.focused)) ∨
      ∃ e, o.setTier w tier = .error e ∧ o.source.table.retier w tier = o.source.table := by
  cases h : o.source.table.setTier w tier with
  | error e =>
    refine .inr ⟨e, ?_, by simp only [RootTable.retier, h]⟩
    simp only [setTier, FsSource.setTier, h]
    rfl
  | ok table =>
    refine .inl ⟨{ o with source := { o.source with table } }, ?_, ?_⟩
    · simp only [setTier, FsSource.setTier, h]
      rfl
    · simp only [RootTable.retier, h]
      rfl

namespace Projection

theorem worktreeOf_bind {p : Projection} (h : p.Keyed) (pane : PaneId) (w : WorktreeId)
    (cwd : Option Path) :
    (p.bind pane w cwd).worktreeOf = Function.update p.worktreeOf pane (some w) := by
  funext other
  rw [Books.update_seen, worktreeOf, view?_bind h]
  by_cases ho : pane = other
  · rw [if_pos ho, if_pos ho, Option.map_some, worktree_rebound]
  · rw [if_neg ho, if_neg ho, worktreeOf]

theorem worktreeOf_unbind (p : Projection) (pane : PaneId) :
    (p.unbind pane).1.worktreeOf = Function.update p.worktreeOf pane none := by
  funext other
  rw [Books.update_seen, worktreeOf, view?_unbind]
  by_cases ho : pane = other
  · rw [if_pos ho, if_pos ho, Option.map_none]
  · rw [if_neg ho, if_neg ho, worktreeOf]

end Projection

namespace Workspace

variable {ws ws' ws'' : Workspace}

/-- From the one workspace to the other exactly this is entered in the books. -/
def Writes (ws : Workspace) (entry : Books → Books) (ws' : Workspace) : Prop :=
  ws.feed.projection.Keyed → ws'.feed.projection.Keyed ∧ ws'.books = entry ws.books

section

variable {entry entry' : Books → Books}

theorem Writes.trans (h : Writes ws entry ws') (h' : Writes ws' entry' ws'') :
    Writes ws (entry' ∘ entry) ws'' := by
  intro hk
  obtain ⟨hk', he⟩ := h hk
  obtain ⟨hk'', he'⟩ := h' hk'
  exact ⟨hk'', he'.trans (congrArg entry' he)⟩

theorem Writes.silent (h : Writes ws entry ws') (h' : Silent ws' ws'') : Writes ws entry ws'' := by
  intro hk
  obtain ⟨hk', he⟩ := h hk
  obtain ⟨hk'', he'⟩ := h' hk'
  exact ⟨hk'', he'.trans he⟩

theorem Silent.writes (h : Silent ws ws') (h' : Writes ws' entry ws'') : Writes ws entry ws'' := by
  intro hk
  obtain ⟨hk', he⟩ := h hk
  obtain ⟨hk'', he'⟩ := h' hk'
  exact ⟨hk'', he'.trans (congrArg entry he)⟩

end

theorem writes_refreshTier (ws : Workspace) (w : WorktreeId) :
    Writes ws (·.refresh w) (ws.refreshTier w) := by
  intro hk
  obtain ⟨hk', he⟩ := silent_catchUp ws hk
  have hroots : ws.catchUp.observer.source.table = ws.observer.source.table :=
    congrArg Books.roots he
  have htier : ws.tierFor w = ws.books.tierFor w := rfl
  simp only [refreshTier]
  rcases ws.catchUp.observer.setTier_cases w (ws.tierFor w) with ⟨o, ho, hs⟩ | ⟨e, ho, hs⟩
  · obtain ⟨htable, hfirst⟩ := Prod.mk.inj hs
    simp only [ho]
    refine ⟨hk', ?_⟩
    rw [← he]
    simp only [books, Books.refresh, htable, hfirst]
    rw [htier, ← he]
    rfl
  · simp only [ho]
    refine ⟨hk', ?_⟩
    rw [he, Books.refresh, ← htier]
    show ws.books = { ws.books with roots := ws.observer.source.table.retier w (ws.tierFor w) }
    rw [← hroots, hs, hroots]
    rfl

theorem silent_resolveCwd (ws : Workspace) (cwd : Option Path) :
    Silent ws (ws.resolveCwd cwd).1 := by
  cases cwd with
  | none => exact .refl ws
  | some path => exact silent_catchUp ws

theorem writes_noteBinding (ws : Workspace) (pane : PaneId) (w : WorktreeId)
    (cwd : Option Path) :
    Writes ws (·.noteBinding pane w)
      { (ws.project (·.bind pane w cwd)).tellNotifier (.bind pane w) with
        bindings := Table.set ws.bindings pane w } := by
  intro hk
  refine ⟨hk.bind pane w cwd, ?_⟩
  have hseen := Projection.worktreeOf_bind hk pane w cwd
  have hknown := ws.notifier.known_tell (.bind pane w)
  simp only [books, Books.noteBinding, project, tellNotifier, hseen, hknown]
  rfl

theorem writes_noteRelease (ws : Workspace) (pane : PaneId) :
    Writes ws (·.noteRelease pane)
      { (ws.project fun p => (p.unbind pane).1).tellNotifier (.forget pane) with
        bindings := Table.erase ws.bindings pane } := by
  intro hk
  refine ⟨hk.unbind pane, ?_⟩
  have hseen := Projection.worktreeOf_unbind ws.feed.projection pane
  have hknown := ws.notifier.known_tell (.forget pane)
  simp only [books, Books.noteRelease, project, tellNotifier, hseen, hknown]
  rfl

theorem writes_bind (ws : Workspace) (pane : PaneId) (w : WorktreeId) (cwd : Option Path) :
    Writes ws (·.bind pane w) (ws.bind pane w cwd) := by
  refine (silent_resolveCwd ws cwd).writes ?_
  simp only [bind]
  generalize (ws.resolveCwd cwd).1 = ws, (ws.resolveCwd cwd).2 = cwd
  intro hk
  have hnoted := writes_noteBinding ws pane w cwd
  have hbound : ws.books.bound? pane = Table.get? ws.bindings pane := rfl
  simp only [Books.bind, hbound]
  have hsame : Table.get? ((ws.project (·.bind pane w cwd)).tellNotifier
      (.bind pane w)).bindings pane = Table.get? ws.bindings pane := rfl
  simp only [hsame]
  cases Table.get? ws.bindings pane with
  | none => exact hnoted.trans (writes_refreshTier _ w) hk
  | some old =>
    by_cases ho : old = w
    · simp only [if_pos ho]
      exact hnoted.trans (writes_refreshTier _ w) hk
    · simp only [if_neg ho]
      exact (hnoted.trans (writes_refreshTier _ old)).trans (writes_refreshTier _ w) hk

theorem writes_unbind (ws : Workspace) (pane : PaneId) :
    Writes ws (·.unbind pane) (ws.unbind pane) := by
  intro hk
  have hnoted := writes_noteRelease ws pane
  have hbound : ws.books.bound? pane = Table.get? ws.bindings pane := rfl
  have hsame : Table.get? ((ws.project fun p => (p.unbind pane).1).tellNotifier
      (.forget pane)).bindings pane = Table.get? ws.bindings pane := rfl
  simp only [unbind, Books.unbind, hbound, hsame]
  cases Table.get? ws.bindings pane with
  | none => exact hnoted hk
  | some w => exact hnoted.trans (writes_refreshTier _ w) hk

theorem writes_syncFocused (ws : Workspace) : Writes ws Books.sync ws.syncFocused :=
  fun hk => ⟨hk, rfl⟩

theorem writes_setFocus (ws : Workspace) (focus : Focus) :
    Writes ws (fun b => Books.sync { b with focus := focus.focused }) (ws.setFocus focus) := by
  refine fun hk => ⟨hk, ?_⟩
  have hknown := ws.notifier.known_tell (.setFocus focus)
  simp only [setFocus, syncFocused, tellNotifier, books, Books.sync, hknown]
  rfl

theorem run?_books (ws : Workspace) (run : RunId) :
    ws.books.run? run = (ws.registry.run? run).map (·.pane) := List.getElem?_map

theorem close_of_absent {pane : PaneId} (hf : ws.registry.find? pane = none) :
    ws.close pane = (ws, .error (.notRegistered pane)) := by
  simp only [close, Registry.unregister, hf]

section

variable {pane : PaneId} {run : RunId} {l : LivePane}

theorem writes_close (hf : ws.registry.find? pane = some run)
    (hl : ws.registry.run? run = some l) :
    (∃ ids, (ws.close pane).2 = .ok ids) ∧
      Writes ws (·.leave pane run (l.pane.shutdown ws.now).pane) (ws.close pane).1 := by
  have hrun : Registry.run? { ws.registry with
      panes := Table.erase ws.registry.panes pane } run = some l := hl
  simp only [close, Registry.unregister, hf, hrun]
  refine ⟨⟨_, rfl⟩, Writes.silent ?_ (silent_retire _ run)⟩
  refine fun hk => ⟨hk, ?_⟩
  simp only [books, publish, Registry.crew_update]
  rfl

theorem closePane_of_absent (hf : ws.registry.find? pane = none) :
    (ws.closePane pane).1 = ws := by
  simp only [closePane, close_of_absent hf]

theorem writes_closePane (hf : ws.registry.find? pane = some run)
    (hl : ws.registry.run? run = some l) :
    Writes ws (fun b => ((b.leave pane run (l.pane.shutdown ws.now).pane).unbind pane).sync)
      (ws.closePane pane).1 := by
  obtain ⟨⟨ids, hids⟩, hw⟩ := writes_close hf hl
  simp only [closePane]
  generalize ws.close pane = out at hids hw
  obtain ⟨ws', rfl⟩ : ∃ ws', out = (ws', .ok ids) := ⟨out.1, by rw [← hids]⟩
  exact (hw.trans (writes_unbind ws' pane)).trans (writes_syncFocused _)

end

theorem dispatch_of_absent {command : CommandEnvelope}
    (hf : ws.registry.find? command.target = none) : (ws.dispatch command).1 = ws := by
  simp only [dispatch, Registry.lookup?, hf, Option.bind_none]

def handled (ws : Workspace) (command : CommandEnvelope) : Workspace :=
  { ws with registry := (ws.registry.handle command ws.now).registry }.publish
    (ws.registry.handle command ws.now).told

section

variable {command : CommandEnvelope} {run : RunId} {l : LivePane}

theorem handle_eq (hf : ws.registry.find? command.target = some run)
    (hl : ws.registry.run? run = some l) (now : Nat) :
    ws.registry.handle command now =
      ⟨ws.registry.update run (l.afterwards (l.pane.handle command now)),
        (l.pane.handle command now).told, (l.pane.handle command now).result⟩ := by
  simp only [Registry.handle, registered?_of_find? hf hl]

theorem find?_handled (hf : ws.registry.find? command.target = some run)
    (hl : ws.registry.run? run = some l) :
    (ws.handled command).registry.find? command.target = some run ∧
      (ws.handled command).registry.run? run =
        some (l.afterwards (l.pane.handle command ws.now)) := by
  simp only [handled, publish, handle_eq hf hl]
  exact ⟨hf, Registry.run?_update hl⟩

theorem writes_handled (hf : ws.registry.find? command.target = some run)
    (hl : ws.registry.run? run = some l) :
    Writes ws (·.advance run (l.pane.handle command ws.now).pane) (ws.handled command) := by
  refine fun hk => ⟨hk, ?_⟩
  simp only [handled, books, publish, handle_eq hf hl, Registry.crew_update]
  rfl

theorem leaves_handled (hf : ws.registry.find? command.target = some run)
    (hl : ws.registry.run? run = some l) :
    (ws.handled command).registry.leaves command.target
      (l.pane.handle command ws.now).result = (l.pane.handle command ws.now).ends := by
  obtain ⟨hf', hl'⟩ := find?_handled hf hl
  rw [Registry.leaves, Registry.lookup?, hf', Option.bind_some, hl']
  rfl

theorem dispatch_eq (hf : ws.registry.find? command.target = some run)
    (hl : ws.registry.run? run = some l) :
    ws.dispatch command =
      if (l.pane.handle command ws.now).ends then
        ((((ws.handled command).close command.target).1.unbind command.target).syncFocused,
          (l.pane.handle command ws.now).result)
      else
        match (l.pane.handle command ws.now).result with
        | .ok ack => ((ws.handled command).afterCommand command l, .ok ack)
        | .error e => (ws.handled command, .error e) := by
  have hlookup : ws.registry.lookup? command.target = some l := by
    rw [Registry.lookup?, hf, Option.bind_some, hl]
  have hresult : (ws.registry.handle command ws.now).result =
      (l.pane.handle command ws.now).result := by rw [handle_eq hf hl]
  rw [← leaves_handled hf hl, ← hresult]
  simp only [dispatch, hlookup]
  rfl

theorem writes_dispatch_of_ends (hf : ws.registry.find? command.target = some run)
    (hl : ws.registry.run? run = some l) (he : (l.pane.handle command ws.now).ends = true) :
    Writes ws (fun b => ((b.leave command.target run
        ((l.pane.handle command ws.now).pane.shutdown ws.now).pane).unbind command.target).sync)
      (ws.dispatch command).1 := by
  obtain ⟨hf', hl'⟩ := find?_handled hf hl
  have hclose := (writes_handled hf hl).trans (writes_close hf' hl').2
  have hleave : ((·.leave command.target run
        ((l.pane.handle command ws.now).pane.shutdown ws.now).pane) ∘
      (·.advance run (l.pane.handle command ws.now).pane) : Books → Books) =
        (·.leave command.target run
          ((l.pane.handle command ws.now).pane.shutdown ws.now).pane) := by
    funext b
    simp only [Function.comp_apply, Books.leave, Books.advance, List.set_set]
  rw [dispatch_eq hf hl, if_pos he]
  have hall := (hclose.trans (writes_unbind _ command.target)).trans (writes_syncFocused _)
  exact fun hk => ⟨(hall hk).1, (hall hk).2.trans (congrArg (fun f =>
    ((f ws.books).unbind command.target).sync) hleave)⟩

theorem writes_dispatch (hf : ws.registry.find? command.target = some run)
    (hl : ws.registry.run? run = some l) (he : (l.pane.handle command ws.now).ends = false) :
    Writes ws (fun b => (b.advance run (l.pane.handle command ws.now).pane).follow command.target
        (l.pane.move? command ws.now)) (ws.dispatch command).1 := by
  obtain ⟨hf', hl'⟩ := find?_handled hf hl
  have hwrites := writes_handled hf hl
  have hlookup : (ws.handled command).registry.lookup? command.target =
      some (l.afterwards (l.pane.handle command ws.now)) := by
    rw [Registry.lookup?, hf', Option.bind_some, hl']
  rw [dispatch_eq hf hl, if_neg (Bool.eq_false_iff.mp he)]
  cases hr : (l.pane.handle command ws.now).result with
  | error e =>
    have hmove : l.pane.move? command ws.now = none := by
      simp only [Pane.move?, hr]
      split <;> trivial
    rw [hmove]
    exact hwrites
  | ok ack =>
    simp only [afterCommand, hlookup]
    cases hc : command.command with
    | updateMetadata patch =>
      have hmeta : (l.afterwards (l.pane.handle command ws.now)).pane.metadata =
          patch.apply l.pane.metadata := (Pane.metadata_handle hc hr).1
      simp only [rebindIfMoved, Pane.move?, hc, hr, hmeta]
      split
      · exact hwrites
      · cases (patch.apply l.pane.metadata).worktree with
        | none => exact hwrites.trans (writes_unbind _ _)
        | some w => exact hwrites.trans (writes_bind _ _ _ _)
    | _ =>
      simp only [Pane.move?, hc]
      exact hwrites

end

theorem openPane_of_taken {spec : PaneSpec} (hf : (ws.registry.find? spec.pane).isSome = true) :
    (ws.openPane spec).1 = ws := by
  have hreg : ws.registry.register (.create (ws.newPane spec)) =
      .error (.alreadyRegistered spec.pane) := if_pos hf
  simp only [openPane, hreg]

section

variable {spec : PaneSpec}

theorem register_of_free (hf : ws.registry.find? spec.pane = none) :
    ∃ r, ws.registry.register (.create (ws.newPane spec)) = .ok r ∧
      Writes ws (·.enter (ws.newPane spec)) { ws with registry := r } := by
  cases hreg : ws.registry.register (.create (ws.newPane spec)) with
  | error e =>
    have hfree : Registry.contains { ws.registry with
        runs := ws.registry.runs ++ [LivePane.create (ws.newPane spec)] } spec.pane = false := by
      rw [Registry.contains]
      exact Option.isSome_eq_false_iff.mpr (Option.isNone_iff_eq_none.mpr hf)
    have hok : ws.registry.register (.create (ws.newPane spec)) = .ok _ :=
      if_neg (Bool.eq_false_iff.mp hfree)
    rw [hok] at hreg
    cases hreg
  | ok r =>
    obtain ⟨-, rfl⟩ := Registry.register_eq_ok hreg
    refine ⟨_, rfl, fun hk => ⟨hk, ?_⟩⟩
    simp only [books, Books.enter, Registry.crew, List.map_append, List.length_map]
    rfl

theorem writes_bindNew (ws : Workspace) (spec : PaneSpec) :
    Writes ws (·.follow spec.pane (spec.metadata.worktree.map some)) (ws.bindNew spec) := by
  simp only [bindNew]
  cases spec.metadata.worktree with
  | none => exact Silent.refl ws
  | some w => exact writes_bind ws _ _ _

theorem writes_startPane {run : RunId} {l : LivePane} {pane : PaneId}
    (hf : ws.registry.find? pane = some run) (hl : ws.registry.run? run = some l)
    (hs : (l.pane.start ws.now).result = .ok ()) :
    Writes ws (·.advance run (l.pane.start ws.now).pane) (ws.startPane pane).1 := by
  have hlookup : (ws.registry.update run (l.afterwards (l.pane.start ws.now))).lookup? pane =
      some (l.afterwards (l.pane.start ws.now)) := by
    have hfound : (ws.registry.update run (l.afterwards (l.pane.start ws.now))).find? pane =
        some run := hf
    rw [Registry.lookup?, hfound, Option.bind_some]
    exact Registry.run?_update hl
  simp only [startPane, Registry.start, registered?_of_find? hf hl, Option.map_some, hs,
    snapshot?, publish, hlookup]
  refine fun hk => ⟨hk, ?_⟩
  simp only [books, Registry.crew_update]
  rfl

theorem writes_openPane (hk : ws.feed.projection.Keyed)
    (hf : ws.registry.find? spec.pane = none) :
    ∃ p, Serves .ready spec.pane p ∧ Writes ws
      (fun b => ((b.enter (ws.newPane spec)).follow spec.pane
        (spec.metadata.worktree.map some)).advance ⟨b.runs.length⟩ p) (ws.openPane spec).1 := by
  obtain ⟨r, hreg, hentered⟩ := register_of_free hf
  have hbound := hentered.trans (writes_bindNew { ws with registry := r } spec)
  simp only [openPane, hreg]
  generalize bindNew { ws with registry := r } spec = mid at hbound ⊢
  obtain ⟨-, hmid⟩ := hbound hk
  have hfind : mid.registry.find? spec.pane = some ⟨ws.books.runs.length⟩ := by
    show mid.books.find? spec.pane = _
    rw [hmid, Function.comp_apply, Books.find?_follow, Books.find?_enter]
    exact if_pos rfl
  have hrun : mid.books.run? ⟨ws.books.runs.length⟩ = some (ws.newPane spec) := by
    rw [hmid, Function.comp_apply, Books.run?_follow, Books.run?_enter]
    exact if_pos rfl
  rw [run?_books, Option.map_eq_some_iff] at hrun
  obtain ⟨l, hl, hpane⟩ := hrun
  obtain ⟨hstart, hserves⟩ := Pane.serves_start spec.pane spec.kind spec.metadata
    (spec.capabilities.getD (.ofKind spec.kind)) (ws.registry.nextEpoch spec.pane)
    ws.config.replayCapacity mid.now
  have hnew : l.pane.start mid.now = (ws.newPane spec).start mid.now := by rw [hpane]
  have hdone := writes_startPane hfind hl (by rw [hnew]; exact hstart)
  rw [hnew] at hdone
  exact ⟨_, hserves, hbound.trans hdone⟩

end

theorem writes_addWorktree (hk : ws.feed.projection.Keyed) (w : WorktreeId) (path : Path) :
    Silent ws (ws.addWorktree w path).1 ∨
      ∃ root roots, ws.books.roots.insert w root (ws.books.tierFor w) = .ok roots ∧
        Writes ws (fun b => (b.enrol roots).sync) (ws.addWorktree w path).1 := by
  have hcatch := silent_catchUp ws
  have htier : ws.tierFor w = ws.books.tierFor w := rfl
  have htable : ws.catchUp.observer.source.table = ws.books.roots :=
    congrArg Books.roots (hcatch hk).2
  simp only [addWorktree]
  cases ws.catchUp.tree.canonicalizeRoot path with
  | error e => exact .inl hcatch
  | ok root =>
    simp only
    cases ho : ws.catchUp.observer.register w root (ws.tierFor w) with
    | error e => exact .inl hcatch
    | ok o =>
      simp only [Observer.register, Bind.bind, Except.bind] at ho
      cases hs : ws.catchUp.observer.source.register w root (ws.tierFor w) with
      | error e =>
        rw [hs] at ho
        cases ho
      | ok out =>
        rw [hs] at ho
        cases ho
        obtain ⟨table, hi, hb⟩ := FsSource.register_cases hs
        have hstanding := FsSource.standing_beginProbe
          (ws.catchUp.observer.source.entered table w) w .wake
        rw [hb] at hstanding
        obtain ⟨htable', -⟩ := Prod.mk.inj hstanding
        rw [htable, htier] at hi
        have hin : out.1.table = table := htable'
        subst hin
        exact .inr ⟨root, _, hi, hcatch.writes fun hk' => ⟨hk'.setRoot w root, rfl⟩⟩

theorem writes_removeWorktree (hk : ws.feed.projection.Keyed) (w : WorktreeId) :
    Silent ws (ws.removeWorktree w).1 ∨
      ∃ roots r, ws.books.roots.remove w = .ok (roots, r) ∧
        Writes ws (·.expel w roots) (ws.removeWorktree w).1 := by
  have hcatch := silent_catchUp ws
  have htable : ws.catchUp.observer.source.table = ws.books.roots :=
    congrArg Books.roots (hcatch hk).2
  simp only [removeWorktree]
  cases ho : ws.catchUp.observer.unregister w with
  | error e => exact .inl hcatch
  | ok o =>
    simp only [Observer.unregister, Bind.bind, Except.bind] at ho
    cases hs : ws.catchUp.observer.source.unregister w with
    | error e =>
      rw [hs] at ho
      cases ho
    | ok out =>
      rw [hs] at ho
      cases ho
      obtain ⟨table, root, hr, -, hout⟩ := FsSource.unregister_cases hs
      rw [htable] at hr
      refine .inr ⟨table, root, hr, hcatch.writes fun hk' => ⟨hk'.forgetRoot w, ?_⟩⟩
      simp only [project, books, Books.expel, hout]
      rfl

structure Orderly (ws : Workspace) : Prop where
  keyed : ws.feed.projection.Keyed
  sound : ws.books.Sound none

namespace Orderly

theorem silent (h : Orderly ws) (hs : Silent ws ws') : Orderly ws' := by
  obtain ⟨hk, he⟩ := hs h.keyed
  exact ⟨hk, he ▸ h.sound⟩

theorem writes (h : Orderly ws) {entry : Books → Books} (hw : Writes ws entry ws')
    (hs : (entry ws.books).Sound none) : Orderly ws' := by
  obtain ⟨hk, he⟩ := hw h.keyed
  exact ⟨hk, he ▸ hs⟩

theorem serves (h : Orderly ws) {pane : PaneId} {run : RunId}
    (hf : ws.registry.find? pane = some run) :
    ∃ l, ws.registry.run? run = some l ∧ Serves .ready pane l.pane := by
  obtain ⟨p, hp, hs⟩ := h.sound.staffed.here pane run hf
  rw [run?_books, Option.map_eq_some_iff] at hp
  obtain ⟨l, hl, rfl⟩ := hp
  exact ⟨l, hl, hs⟩

theorem closePane (h : Orderly ws) (pane : PaneId) : Orderly (ws.closePane pane).1 := by
  cases hf : ws.registry.find? pane with
  | none => rwa [closePane_of_absent hf]
  | some run =>
    obtain ⟨l, hl, -, hreleased, -⟩ := h.serves hf
    exact h.writes (writes_closePane hf hl)
      ((h.sound.leave hf (Pane.state_shutdown hreleased ws.now)).look _ _)

theorem dispatch (h : Orderly ws) (command : CommandEnvelope) :
    Orderly (ws.dispatch command).1 := by
  cases hf : ws.registry.find? command.target with
  | none => rwa [dispatch_of_absent hf]
  | some run =>
    obtain ⟨l, hl, hs⟩ := h.serves hf
    cases he : (l.pane.handle command ws.now).ends with
    | true =>
      exact h.writes (writes_dispatch_of_ends hf hl he)
        ((h.sound.leave hf (Pane.state_handle_shutdown hs command ws.now ws.now)).look _ _)
    | false =>
      refine h.writes (writes_dispatch hf hl he) ?_
      refine (h.sound.advance (fun _ hy => nomatch hy) hf
        (Pane.serves_handle hs command ws.now he)).follow ?_ _
      exact Option.isSome_of_eq_some hf

theorem openPane (h : Orderly ws) (spec : PaneSpec) : Orderly (ws.openPane spec).1 := by
  cases hf : ws.registry.find? spec.pane with
  | some run => rwa [openPane_of_taken (by rw [hf]; rfl)]
  | none =>
    obtain ⟨p, hserves, hw⟩ := writes_openPane h.keyed hf
    have hentered := h.sound.enter (p := ws.newPane spec) hf rfl rfl
    have hfound : (ws.books.enter (ws.newPane spec)).find? spec.pane =
        some ⟨ws.books.runs.length⟩ := by
      rw [Books.find?_enter]
      exact if_pos rfl
    refine h.writes hw ?_
    refine (hentered.follow (Option.isSome_of_eq_some hfound) _).advance ?_ ?_ hserves
    · rintro r ⟨⟩
      rfl
    · rw [Books.find?_follow]
      exact hfound

theorem bindPane (h : Orderly ws) (pane : PaneId) (w : WorktreeId) (cwd : Option Path) :
    Orderly (ws.bindPane pane w cwd).1 := by
  simp only [Workspace.bindPane]
  split
  next hc =>
    exact h.writes ((writes_bind ws pane w cwd).trans (writes_syncFocused _))
      ((h.sound.bind hc w).look _ _)
  next => exact h

theorem addWorktree (h : Orderly ws) (w : WorktreeId) (path : Path) :
    Orderly (ws.addWorktree w path).1 := by
  rcases writes_addWorktree h.keyed w path with hs | ⟨root, roots, hi, hw⟩
  · exact h.silent hs
  · exact h.writes hw ((h.sound.enrol hi).look _ _)

theorem removeWorktree (h : Orderly ws) (w : WorktreeId) :
    Orderly (ws.removeWorktree w).1 := by
  rcases writes_removeWorktree h.keyed w with hs | ⟨roots, r, hr, hw⟩
  · exact h.silent hs
  · exact h.writes hw (h.sound.expel hr)

theorem perform (h : Orderly ws) (operation : Operation) : Orderly (ws.perform operation) := by
  cases operation with
  | openPane spec => exact h.openPane spec
  | dispatch command => exact h.dispatch command
  | closePane pane => exact h.closePane pane
  | bindPane pane w cwd => exact h.bindPane pane w cwd
  | setFocus focus => exact h.writes (writes_setFocus ws focus) (h.sound.look _ _)
  | addWorktree w path => exact h.addWorktree w path
  | removeWorktree w => exact h.removeWorktree w
  | inject paths => exact h.silent (silent_inject ws paths)
  | reconcile reason => exact h.silent (silent_observer (ws.observer.standing_reconcile reason))
  | setReport root found => exact ⟨h.keyed, h.sound⟩
  | subscribe pane after => exact h.silent (silent_subscribe ws pane after)
  | read stream count => exact h.silent (silent_read ws stream count)
  | makeDir path => exact ⟨h.keyed, h.sound⟩
  | rest ms => exact h.silent (silent_rest ws ms)

theorem create (config : Config) (tree : Tree) : Orderly (create config tree) where
  keyed := .create _
  sound :=
    { staffed := ⟨fun _ _ h => (nomatch h), fun _ _ h => (nomatch h)⟩
      agrees := ⟨Table.sorted_nil, rfl, fun _ => rfl, fun _ h => (nomatch h)⟩
      roots := RootTable.sound_create _
      tiered := fun _ _ h => (nomatch h) }

theorem performAll (h : Orderly ws) (operations : List Operation) :
    Orderly (ws.performAll operations) := by
  induction operations generalizing ws with
  | nil => exact h
  | cons operation rest ih => exact ih (h.perform operation)

end Orderly

theorem controls_catchUp (ws : Workspace) : ws.catchUp.notifier.controls = [] := by
  simp only [catchUp, honourResync]
  split <;> rfl

/-- Whatever was asked of a workspace, carried out or refused: once the notifier has handled what it
was told, every registered pane is ready and every run that left has ended; the bindings, the
projection and the notifier have the same panes bound to the same worktrees, all of them registered;
and a root is active exactly if a pane is bound to its worktree. -/
theorem books_agree (config : Config) (tree : Tree) (operations : List Operation) :
    let ws := ((create config tree).performAll operations).catchUp
    ws.notifier.controls = [] ∧
    (∀ pane ∈ ws.panes, ∃ l, ws.registry.lookup? pane = some l ∧ l.pane.id = pane ∧
      l.pane.state = .ready) ∧
    (∀ run l, ws.registry.run? run = some l → (∀ pane, ws.registry.find? pane ≠ some run) →
      l.pane.state = .terminated) ∧
    (∀ pane, (ws.view? pane).map (·.worktree) = Table.get? ws.bindings pane) ∧
    (∀ view ∈ ws.feed.projection.views, ws.view? view.pane = some view) ∧
    ws.notifier.intake.reducer.resolver.worktrees = ws.bindings ∧
    (∀ pane w, Table.get? ws.bindings pane = some w → pane ∈ ws.panes) ∧
    ∀ info ∈ ws.worktrees, info.root.tier = .activeInApp ↔
      ∃ pane, Table.get? ws.bindings pane = some info.root.worktree := by
  intro ws
  have h : Orderly ws :=
    ((Orderly.create config tree).performAll operations).silent (silent_catchUp _)
  have hcontrols : ws.notifier.controls = [] := controls_catchUp _
  refine ⟨hcontrols, ?_, ?_, h.sound.agrees.seen, fun view => h.keyed.view?_of_mem, ?_, ?_, ?_⟩
  · intro pane hp
    obtain ⟨run, hf⟩ := Option.isSome_iff_exists.mp (Table.mem_keys.mp hp)
    obtain ⟨l, hl, hid, -, hready⟩ := h.serves hf
    have hlookup : ws.registry.lookup? pane = some l := by
      rw [Registry.lookup?, Registry.find?, hf, Option.bind_some, hl]
    exact ⟨l, hlookup, hid, hready⟩
  · intro run l hl hgone
    exact h.sound.staffed.gone run l.pane (by rw [run?_books, hl]; rfl) hgone
  · have hknown := h.sound.agrees.known
    simp only [books, Notifier.known, hcontrols, List.foldl_nil] at hknown
    exact hknown
  · intro pane w hb
    exact Table.mem_keys.mpr (h.sound.agrees.registered pane (Option.isSome_of_eq_some hb))
  · intro info hi
    obtain ⟨r, hr, rfl⟩ := List.mem_map.mp hi
    exact h.sound.tiered r.worktree r (h.sound.roots.get?_of_mem hr) List.not_mem_nil

end Workspace

end Switchboard
