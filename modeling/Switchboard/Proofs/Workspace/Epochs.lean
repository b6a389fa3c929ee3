import Switchboard.Proofs.Notifier.Stamps
import Switchboard.Proofs.Workspace.Consistency
import Switchboard.Proofs.Workspace.Delivery

/-!
# The epochs of a pane

The registry remembers the last epoch of every pane, and only opening a pane makes a new one. So the
epochs of a pane count how often it was opened, and no stamp is ever used twice.
-/
namespace Switchboard

namespace Workspace

variable {ws ws' : Workspace}

def epochs (ws : Workspace) : Table PaneId Nat := ws.registry.lastEpochs

theorem epochs_honourResync (ws : Workspace) : ws.honourResync.epochs = ws.epochs := by
  simp only [honourResync]
  split <;> rfl

theorem epochs_catchUp (ws : Workspace) : ws.catchUp.epochs = ws.epochs := by
  simp only [catchUp]
  exact epochs_honourResync _

theorem epochs_settleFor (fuel : Nat) (ws : Workspace) :
    (settleFor fuel ws).epochs = ws.epochs := by
  induction fuel generalizing ws with
  | zero => exact epochs_catchUp ws
  | succ fuel ih =>
    simp only [settleFor]
    split
    · exact epochs_catchUp ws
    · rw [ih]
      exact epochs_catchUp ws

theorem epochs_deliver (ws : Workspace) (batch : Option Batch) :
    (ws.deliver batch).epochs = ws.epochs := by
  cases batch <;> rfl

theorem epochs_endFrame (ws : Workspace) : ws.endFrame.epochs = ws.epochs := by
  simp only [endFrame]
  split
  · exact epochs_deliver _ _
  · rfl

theorem epochs_flushDue (ws : Workspace) : ws.flushDue.epochs = ws.epochs := by
  simp only [flushDue]
  split <;> rfl

theorem epochs_sweep (ws : Workspace) : ws.sweep.epochs = ws.epochs := by
  simp only [sweep]
  split <;> rfl

theorem epochs_beat (ws : Workspace) : ws.beat.epochs = ws.epochs := by
  simp only [beat]
  split
  · rw [settle, epochs_settleFor, epochs_sweep, epochs_flushDue, epochs_endFrame]
  · rfl

theorem epochs_pass (ms : Nat) (ws : Workspace) : (pass ms ws).epochs = ws.epochs := by
  induction ms generalizing ws with
  | zero => rfl
  | succ ms ih =>
    rw [pass, ih, epochs_beat]
    rfl

theorem epochs_rest (ws : Workspace) (ms : Nat) : (ws.rest ms).epochs = ws.epochs := by
  rw [rest, epochs_pass, settle, epochs_settleFor]

theorem epochs_refreshTier (ws : Workspace) (w : WorktreeId) :
    (ws.refreshTier w).epochs = ws.epochs := by
  simp only [refreshTier]
  split <;> exact epochs_catchUp ws

theorem epochs_resolveCwd (ws : Workspace) (cwd : Option Path) :
    (ws.resolveCwd cwd).1.epochs = ws.epochs := by
  cases cwd with
  | none => rfl
  | some path => exact epochs_catchUp ws

theorem epochs_bind (ws : Workspace) (pane : PaneId) (w : WorktreeId) (cwd : Option Path) :
    (ws.bind pane w cwd).epochs = ws.epochs := by
  simp only [bind]
  rw [epochs_refreshTier, ← epochs_resolveCwd ws cwd]
  split
  · split
    · rfl
    · exact epochs_refreshTier _ _
  · rfl

theorem epochs_unbind (ws : Workspace) (pane : PaneId) : (ws.unbind pane).epochs = ws.epochs := by
  simp only [unbind]
  split
  · exact epochs_refreshTier _ _
  · rfl

theorem epochs_stopFollowers (ws : Workspace) (run : RunId) (timeout : Nat) :
    (ws.stopFollowers run timeout).epochs = ws.epochs := by
  simp only [stopFollowers]
  split <;> rfl

theorem epochs_awaitFollowers (ws : Workspace) (run : RunId) :
    (ws.awaitFollowers run).epochs = ws.epochs := by
  simp only [awaitFollowers]
  split
  · rw [epochs_rest, epochs_catchUp]
  · exact epochs_catchUp ws

theorem epochs_retire (ws : Workspace) (run : RunId) : (ws.retire run).epochs = ws.epochs := by
  simp only [retire]
  split
  · rfl
  · split
    · rw [epochs_catchUp, epochs_stopFollowers]
    · rw [epochs_stopFollowers, epochs_awaitFollowers]

theorem epochs_close (ws : Workspace) (pane : PaneId) :
    (ws.close pane).1.epochs = ws.epochs := by
  simp only [close]
  cases h : ws.registry.unregister pane with
  | error e => rfl
  | ok out =>
    obtain ⟨-, hr⟩ := Registry.unregister_eq_ok h
    simp only
    split
    · rfl
    · rw [epochs_retire, hr]
      rfl

theorem epochs_closeAll (panes : List PaneId) (ws : Workspace) :
    (ws.closeAll panes).epochs = ws.epochs := by
  induction panes generalizing ws with
  | nil => rfl
  | cons pane rest ih => rw [closeAll, ih, epochs_close]

theorem epochs_shutdown (ws : Workspace) : ws.shutdown.epochs = ws.epochs := by
  simp only [shutdown]
  rw [epochs_deliver, ← epochs_closeAll ws.panes ws]
  exact epochs_catchUp _

theorem epochs_bindNew (ws : Workspace) (spec : PaneSpec) :
    (ws.bindNew spec).epochs = ws.epochs := by
  simp only [bindNew]
  split
  · exact epochs_bind _ _ _ _
  · rfl

theorem epochs_closePane (ws : Workspace) (pane : PaneId) :
    (ws.closePane pane).1.epochs = ws.epochs := by
  have hclose := epochs_close ws pane
  simp only [closePane]
  generalize ws.close pane = out at hclose
  rcases out with ⟨ws', e | ids⟩
  · exact hclose
  · exact (epochs_unbind ws' pane).trans hclose

theorem epochs_afterCommand (ws : Workspace) (command : CommandEnvelope) (before : LivePane) :
    (ws.afterCommand command before).epochs = ws.epochs := by
  simp only [afterCommand]
  split
  · simp only [rebindIfMoved]
    split
    · rfl
    · split
      · exact epochs_bind _ _ _ _
      · exact epochs_unbind _ _
  · rfl

theorem epochs_handled (ws : Workspace) (command : CommandEnvelope) :
    (ws.handled command).epochs = ws.epochs := by
  simp only [handled, publish, epochs, Registry.handle]
  split <;> rfl

theorem epochs_dispatch (ws : Workspace) (command : CommandEnvelope) :
    (ws.dispatch command).1.epochs = ws.epochs := by
  simp only [dispatch]
  cases ws.registry.lookup? command.target with
  | none => rfl
  | some before =>
    have hhandled := epochs_handled ws command
    simp only [handled] at hhandled
    simp only
    split
    · exact (epochs_unbind _ _).trans ((epochs_close _ _).trans hhandled)
    · split
      · exact (epochs_afterCommand _ _ _).trans hhandled
      · exact hhandled

theorem epochs_bindPane (ws : Workspace) (pane : PaneId) (w : WorktreeId) (cwd : Option Path) :
    (ws.bindPane pane w cwd).1.epochs = ws.epochs := by
  simp only [bindPane]
  split
  · exact epochs_bind ws pane w cwd
  · rfl

theorem epochs_addWorktree (ws : Workspace) (w : WorktreeId) (path : Path) :
    (ws.addWorktree w path).1.epochs = ws.epochs := by
  simp only [addWorktree]
  split
  · exact epochs_catchUp ws
  · split <;> exact epochs_catchUp ws

theorem epochs_removeWorktree (ws : Workspace) (w : WorktreeId) :
    (ws.removeWorktree w).1.epochs = ws.epochs := by
  simp only [removeWorktree]
  split <;> exact epochs_catchUp ws

theorem epochs_subscribe (ws : Workspace) (pane : PaneId) (from_ : Option Nat) :
    (ws.subscribe pane from_).1.epochs = ws.epochs := by
  simp only [subscribe]
  split <;> rfl

theorem epochs_read (ws : Workspace) (stream : Nat) (count : Option Nat) :
    (ws.read stream count).1.epochs = ws.epochs := by
  simp only [read]
  split
  · rfl
  · split <;> rfl

theorem epochs_perform (ws : Workspace) {op : Operation} (h : ∀ spec, op ≠ .openPane spec) :
    (ws.perform op).epochs = ws.epochs := by
  cases op with
  | openPane spec => exact absurd rfl (h spec)
  | dispatch command => exact epochs_dispatch ws command
  | closePane pane => exact epochs_closePane ws pane
  | bindPane pane w cwd => exact epochs_bindPane ws pane w cwd
  | setFocus focus => rfl
  | addWorktree w path => exact epochs_addWorktree ws w path
  | removeWorktree w => exact epochs_removeWorktree ws w
  | inject paths => exact epochs_catchUp ws
  | reconcile reason => rfl
  | setReport root found => rfl
  | subscribe pane from_ => exact epochs_subscribe ws pane from_
  | read stream count => exact epochs_read ws stream count
  | makeDir path => rfl
  | rest ms => exact epochs_rest ws ms

def opens? (ws : Workspace) : Operation → Option PaneId
  | .openPane spec =>
    match (ws.openPane spec).2 with
    | .ok _ => some spec.pane
    | .error _ => none
  | _ => none

/-- How often the operations open a pane with success. -/
def opened (ws : Workspace) (pane : PaneId) : List Operation → Nat
  | [] => 0
  | op :: rest => (if ws.opens? op = some pane then 1 else 0) + (ws.perform op).opened pane rest

theorem opens?_of_not_openPane {op : Operation} (h : ∀ spec, op ≠ .openPane spec) :
    ws.opens? op = none := by
  cases op with
  | openPane spec => exact absurd rfl (h spec)
  | _ => rfl

theorem opens?_of_taken {spec : PaneSpec} (hf : (ws.registry.find? spec.pane).isSome = true) :
    ws.opens? (.openPane spec) = none := by
  have hreg : ws.registry.register (.create (ws.newPane spec)) =
      .error (.alreadyRegistered spec.pane) := if_pos hf
  simp only [opens?, openPane, hreg]

theorem told_start (ws : Workspace) (spec : PaneSpec) (now : Nat) :
    ((ws.newPane spec).start now).told ≠ [] ∧
      ∀ e ∈ ((ws.newPane spec).start now).told,
        e.source = .pane spec.pane ∧ e.epoch = ws.registry.nextEpoch spec.pane := by
  have htells := (ws.newPane spec).sound_start now
  refine ⟨?_, ?_⟩
  · intro hnone
    obtain ⟨-, -, -, hready⟩ := Pane.serves_start spec.pane spec.kind spec.metadata
      (spec.capabilities.getD (.ofKind spec.kind)) (ws.registry.nextEpoch spec.pane)
      ws.config.replayCapacity now
    have htale := (Pane.narrates_start Backend.manners_any (p := ws.newPane spec) trivial now).tale
    have hcreated : (ws.newPane spec).state = .created := rfl
    have hstarted : ((ws.newPane spec).start now).pane.state = .ready := hready
    -- no pane gets from created to ready without a word
    rw [hnone, hcreated, hstarted] at htale
    exact absurd htale.eq_of_nil (by decide)
  · intro e he
    obtain ⟨i, hi⟩ := List.getElem?_of_mem he
    obtain ⟨hs, ht⟩ := htells.numbers.stamp_eq hi
    exact ⟨hs, congrArg Stamp.epoch ht⟩

theorem openPane_of_free (hk : ws.feed.projection.Keyed) (hw : ws.registry.Wired)
    {spec : PaneSpec} (hf : ws.registry.find? spec.pane = none) :
    let ws' := (ws.openPane spec).1
    let next := ws.registry.nextEpoch spec.pane
    ws.opens? (.openPane spec) = some spec.pane ∧
      (∃ told, told ≠ [] ∧ (∀ e ∈ told, e.source = .pane spec.pane ∧ e.epoch = next) ∧
        ∃ front, ws.published <+: front ∧ ws'.published = front ++ told) ∧
      ws'.epochs = Table.set ws.epochs spec.pane
        (max ((Table.get? ws.epochs spec.pane).getD next) next) := by
  obtain ⟨r, hreg, hentered⟩ := register_of_free hf
  have hr := (Registry.register_eq_ok hreg).2
  have hbound := hentered.trans (writes_bindNew { ws with registry := r } spec)
  have hgoes := (goes_register hreg).trans (goes_bindNew { ws with registry := r } spec)
  have hepochs := epochs_bindNew { ws with registry := r } spec
  simp only [opens?, openPane, hreg]
  generalize bindNew { ws with registry := r } spec = mid at hbound hgoes hepochs ⊢
  -- the binding leaves the new pane where it was registered, so it is this one that starts
  obtain ⟨-, hmid⟩ := hbound hk
  have hfind : mid.registry.find? spec.pane = some ⟨ws.books.runs.length⟩ := by
    show mid.books.find? spec.pane = _
    rw [hmid, Function.comp_apply, Books.find?_follow, Books.find?_enter]
    exact if_pos rfl
  have hrun : mid.books.run? ⟨ws.books.runs.length⟩ = some (ws.newPane spec) := by
    rw [hmid, Function.comp_apply, Books.run?_follow, Books.run?_enter]
    exact if_pos rfl
  rw [run?_books, Option.map_eq_some_iff] at hrun
  obtain ⟨l, hl, hpane⟩ := hrun
  have hresult : (l.pane.start mid.now).result = .ok () := by
    rw [hpane]
    exact (Pane.serves_start ..).1
  have hlookup : (mid.registry.update ⟨ws.books.runs.length⟩
      (l.afterwards (l.pane.start mid.now))).lookup? spec.pane =
        some (l.afterwards (l.pane.start mid.now)) := by
    have hfound : (mid.registry.update ⟨ws.books.runs.length⟩
        (l.afterwards (l.pane.start mid.now))).find? spec.pane = some ⟨ws.books.runs.length⟩ :=
      hfind
    rw [Registry.lookup?, hfound, Option.bind_some]
    exact Registry.run?_update hl
  obtain ⟨htold, hown⟩ := told_start ws spec mid.now
  rw [← hpane] at htold hown
  simp only [startPane, Registry.start, registered?_of_find? hfind hl, Option.map_some, hresult,
    snapshot?, publish, hlookup]
  refine ⟨trivial, ⟨_, htold, hown, _, (hgoes hw).2.published, rfl⟩, ?_⟩
  exact hepochs.trans (congrArg Registry.lastEpochs hr)

def lastEpoch? : Nat → Option Nat
  | 0 => none
  | n + 1 => some (min n wordMax)

structure Tallied (ws : Workspace) (pane : PaneId) (opened : Nat) : Prop where
  last : Table.get? ws.epochs pane = lastEpoch? opened
  used : ∀ k, k < opened → ∃ e ∈ toldBy (.pane pane) ws.published, e.epoch = min k wordMax
  room : opened ≤ (toldBy (.pane pane) ws.published).length

namespace Tallied

variable {pane : PaneId} {n : Nat}

theorem create (config : Config) (tree : Tree) (pane : PaneId) :
    Tallied (create config tree) pane 0 :=
  ⟨rfl, fun _ hk => absurd hk (Nat.not_lt_zero _), Nat.zero_le _⟩

theorem still (h : Tallied ws pane n) (he : Table.get? ws'.epochs pane = Table.get? ws.epochs pane)
    (hp : ws.published <+: ws'.published) : Tallied ws' pane n := by
  have hpart : (toldBy (.pane pane) ws.published).Sublist (toldBy (.pane pane) ws'.published) :=
    hp.sublist.filter _
  refine ⟨he.trans h.last, ?_, Nat.le_trans h.room hpart.length_le⟩
  intro k hk
  obtain ⟨e, hmem, hepoch⟩ := h.used k hk
  exact ⟨e, hpart.subset hmem, hepoch⟩

theorem nextEpoch_eq (h : Tallied ws pane n) : ws.registry.nextEpoch pane = min n wordMax := by
  have hlast : Table.get? ws.registry.lastEpochs pane = lastEpoch? n := h.last
  simp only [Registry.nextEpoch, hlast]
  cases n with
  | zero => rfl
  | succ n =>
    simp only [lastEpoch?, satSucc, satAdd]
    generalize wordMax = limit
    omega

theorem enter (h : Tallied ws pane n) {told : List Envelope} (hnone : told ≠ [])
    (hown : ∀ e ∈ told, e.source = .pane pane ∧ e.epoch = min n wordMax)
    {front : List Envelope} (hfront : ws.published <+: front)
    (hpublished : ws'.published = front ++ told)
    (hlast : Table.get? ws'.epochs pane = lastEpoch? (n + 1)) : Tallied ws' pane (n + 1) := by
  have hold : (toldBy (.pane pane) ws.published).Sublist (toldBy (.pane pane) front) :=
    hfront.sublist.filter _
  have hparts : toldBy (.pane pane) ws'.published = toldBy (.pane pane) front ++ told := by
    rw [hpublished, toldBy_append, toldBy_eq_self fun e he => (hown e he).1]
  refine ⟨hlast, ?_, ?_⟩
  · intro k hk
    rw [hparts]
    rcases Nat.lt_succ_iff_lt_or_eq.mp hk with hk | rfl
    · obtain ⟨e, he, hepoch⟩ := h.used k hk
      exact ⟨e, List.mem_append_left _ (hold.subset he), hepoch⟩
    · obtain ⟨e, he⟩ := List.exists_mem_of_ne_nil told hnone
      exact ⟨e, List.mem_append_right _ he, (hown e he).2⟩
  · have hroom := Nat.le_trans h.room hold.length_le
    have hpos := List.length_pos_iff.mpr hnone
    rw [hparts, List.length_append]
    omega

theorem openPane (h : Tallied ws pane n) (hk : ws.feed.projection.Keyed) (hw : ws.registry.Wired)
    (spec : PaneSpec) :
    Tallied (ws.openPane spec).1 pane
      (n + if ws.opens? (.openPane spec) = some pane then 1 else 0) := by
  cases hf : ws.registry.find? spec.pane with
  | some run =>
    have htaken : (ws.registry.find? spec.pane).isSome = true := by
      rw [hf]
      rfl
    rw [opens?_of_taken htaken, openPane_of_taken htaken]
    exact h
  | none =>
    obtain ⟨hopens, ⟨told, hnone, hown, front, hfront, hpublished⟩, hepochs⟩ :=
      openPane_of_free hk hw hf
    have hgrown := (goes_perform ws (.openPane spec) hw).2.published
    rw [hopens]
    by_cases hp : spec.pane = pane
    · subst hp
      rw [if_pos rfl]
      have hnext := h.nextEpoch_eq
      rw [hnext] at hown
      refine h.enter hnone hown hfront hpublished ?_
      rw [hepochs, Table.get?_set_self, h.last, hnext]
      cases n with
      | zero => rfl
      | succ n =>
        simp only [lastEpoch?, Option.getD_some, Option.some.injEq]
        generalize wordMax = limit
        omega
    · rw [if_neg fun h => hp (Option.some.inj h)]
      exact h.still (hepochs ▸ Table.get?_set_of_ne _ _ hp) hgrown

theorem perform (h : Tallied ws pane n) (hk : ws.feed.projection.Keyed) (hw : ws.registry.Wired)
    (op : Operation) :
    Tallied (ws.perform op) pane (n + if ws.opens? op = some pane then 1 else 0) := by
  by_cases hop : ∃ spec, op = .openPane spec
  · obtain ⟨spec, rfl⟩ := hop
    exact h.openPane hk hw spec
  · have hnot : ∀ spec, op ≠ .openPane spec := fun spec he => hop ⟨spec, he⟩
    rw [opens?_of_not_openPane hnot]
    exact h.still (congrArg (Table.get? · pane) (epochs_perform ws hnot))
      (goes_perform ws op hw).2.published

theorem performAll (h : Tallied ws pane n) (ho : Orderly ws) (hw : ws.registry.Wired)
    (operations : List Operation) :
    Tallied (ws.performAll operations) pane (n + ws.opened pane operations) := by
  induction operations generalizing ws n with
  | nil => exact h
  | cons op rest ih =>
    rw [opened, ← Nat.add_assoc]
    exact ih (h.perform ho.keyed hw op) (ho.perform op) (goes_perform ws op hw).1

theorem shutdown (h : Tallied ws pane n) (hw : ws.registry.Wired) :
    Tallied ws.shutdown pane n :=
  h.still (congrArg (Table.get? · pane) (epochs_shutdown ws)) (goes_shutdown ws hw).2.published

end Tallied

theorem inRows_create (config : Config) (tree : Tree) : (create config tree).scene.InRows where
  distinct := List.nodup_singleton _
  rows := fun _ _ _ _ _ hn => nomatch hn
  ends := by
    intro sp hsp _
    rw [List.mem_singleton.mp hsp]
    rfl
  rises := .nil
  latest := fun _ _ _ he => nomatch he
  recorded := fun _ he => nomatch he
  known := by
    intro sp hsp pane hp
    rw [List.mem_singleton.mp hsp] at hp
    cases hp
  bounded := fun _ _ hget => nomatch hget

/-- What a pane told that was opened so often, even if its epochs or its numbers have run out: it
told something in every epoch from 0 on that there is, one after the other, and in each of them the
numbers from 1 on without a hole. -/
structure Lived (pane : PaneId) (opened : Nat) (told : List Envelope) : Prop where
  epochs : ∀ epoch, (∃ e ∈ toldBy (.pane pane) told, e.epoch = epoch) ↔
    epoch < opened ∧ epoch ≤ wordMax
  rises : (toldBy (.pane pane) told).Pairwise fun a b => a.epoch ≤ b.epoch
  seqs : ∀ epoch, epoch < wordMax → ∀ i n,
    (row (.pane pane) epoch told)[i]? = some n → n = min (i + 1) wordMax

/-- What a pane told that was opened so often, as long as neither epochs nor numbers have run
out. -/
structure Counted (pane : PaneId) (opened : Nat) (told : List Envelope) : Prop where
  epochs : ∀ epoch, (∃ e ∈ toldBy (.pane pane) told, e.epoch = epoch) ↔ epoch < opened
  seqs : ∀ epoch, row (.pane pane) epoch told =
    List.range' 1 (row (.pane pane) epoch told).length
  grows : (toldBy (.pane pane) told).Pairwise fun a b => a.stamp.before b.stamp = true
  passes : ∀ seen e, (seen ++ [e]).Sublist told → e.source = .pane pane →
    ((Cursor.start.follow seen).advance e).2 = true

section

variable {pane : PaneId} {n : Nat}

theorem lived (h : Tallied ws pane n) (hr : ws.scene.InRows) :
    Lived pane n ws.published := by
  refine ⟨?_, ?_, fun epoch he i n => hr.rows (.pane pane) epoch he i n⟩
  · intro epoch
    constructor
    · rintro ⟨e, he, rfl⟩
      obtain ⟨hmem, hs⟩ := mem_toldBy.mp he
      obtain ⟨last, hget, hle⟩ := hr.recorded e hmem pane hs
      have hlast : lastEpoch? n = some last := h.last.symm.trans hget
      cases n with
      | zero => cases hlast
      | succ n =>
        rw [lastEpoch?, Option.some.injEq] at hlast
        omega
    · rintro ⟨hlt, hle⟩
      obtain ⟨e, he, hepoch⟩ := h.used epoch hlt
      exact ⟨e, he, hepoch.trans (Nat.min_eq_left hle)⟩
  · rw [List.pairwise_iff_forall_sublist]
    intro a b hpair
    have hs : ∀ x ∈ [a, b], x.source = .pane pane :=
      fun x hx => (mem_toldBy.mp (hpair.subset hx)).2
    refine List.pairwise_iff_forall_sublist.mp hr.rises (hpair.trans List.filter_sublist) ?_
    rw [hs a (by simp), hs b (by simp)]

theorem counted (h : Tallied ws pane n) (hr : ws.scene.InRows)
    (hspace : (toldBy (.pane pane) ws.published).length < wordMax) :
    Counted pane n ws.published := by
  have hroom := h.room
  have hepochs : ∀ epoch, (∃ e ∈ toldBy (.pane pane) ws.published, e.epoch = epoch) ↔
      epoch < n := by
    intro epoch
    rw [(lived h hr).epochs]
    omega
  have hsmall : ∀ e ∈ toldBy (.pane pane) ws.published, e.epoch < wordMax := by
    intro e he
    have := (hepochs e.epoch).mp ⟨e, he, rfl⟩
    omega
  have hgrows := hr.grows hsmall (Nat.le_of_lt hspace)
  refine ⟨hepochs, ?_, hgrows, ?_⟩
  · intro epoch
    by_cases he : epoch < wordMax
    · exact hr.row_eq he (Nat.le_trans (length_row_le _ _ _) (Nat.le_of_lt hspace))
    · have hnone : row (.pane pane) epoch ws.published = [] := by
        refine row_eq_nil fun e hmem hs hepoch => he ?_
        rw [← hepoch]
        exact hsmall e (mem_toldBy.mpr ⟨hmem, hs⟩)
      rw [hnone]
      rfl
  · intro seen e hsub hs
    have hnew : (Cursor.start.follow seen).isNew e = true := by
      refine (Cursor.isNew_follow _ _ _).mpr ⟨rfl, fun x hx hxs => ?_⟩
      have hpair : [x, e].Sublist (toldBy (.pane pane) ws.published) := by
        have hboth : toldBy (.pane pane) [x, e] = [x, e] := by
          refine toldBy_eq_self fun y hy => ?_
          rcases List.mem_pair.mp hy with rfl | rfl
          · exact hxs.trans hs
          · exact hs
        rw [← hboth]
        refine List.Sublist.filter _ (List.Sublist.trans ?_ hsub)
        exact (List.singleton_sublist.mpr hx).append_right [e]
      exact List.pairwise_iff_forall_sublist.mp hgrows hpair
    rw [Cursor.advance_of_isNew hnew]

end

/-- However often panes are opened, commanded, closed and opened again under an id, what they tell
under it is in epochs counted from 0 on, one for every time that a pane was opened, and in each
epoch it is numbered from 1 on without a hole. As long as neither have run out no stamp comes twice,
so that a cursor lets everything pass. -/
theorem stamps_never_repeat (config : Config) (tree : Tree) (operations : List Operation)
    (pane : PaneId) :
    let opened := (create config tree).opened pane operations
    let before := ((create config tree).performAll operations).published
    let told := (run config tree operations).published
    Lived pane opened before ∧ Lived pane opened told ∧
      ((toldBy (.pane pane) told).length < wordMax →
        Counted pane opened before ∧ Counted pane opened told) := by
  intro opened before told
  have hwired := Registry.wired_create config.shutdownTimeout
  have hgoes := goes_performAll operations (create config tree) hwired
  have htallied :=
    (Tallied.create config tree pane).performAll (.create config tree) hwired operations
  have hended := htallied.shutdown hgoes.1
  have hrows := (inRows_create config tree).leads hgoes.2
  have hend := goes_shutdown _ hgoes.1
  have hrows' := hrows.leads hend.2
  rw [Nat.zero_add] at htallied hended
  refine ⟨lived htallied hrows, lived hended hrows',
    fun hspace => ⟨?_, counted hended hrows' hspace⟩⟩
  refine counted htallied hrows (Nat.lt_of_le_of_lt ?_ hspace)
  exact (hend.2.published.sublist.filter _).length_le

def reopened : List Operation :=
  [.openPane ⟨⟨"p1"⟩, .terminal, .empty, none⟩, .openPane ⟨⟨"p1"⟩, .diff, .empty, none⟩,
    .dispatch ⟨⟨"c1"⟩, none, ⟨"p1"⟩, .terminal .kill, 0⟩, .closePane ⟨"p1"⟩, .rest 16,
    .openPane ⟨⟨"p1"⟩, .diff, .empty, none⟩,
    .dispatch ⟨⟨"c2"⟩, none, ⟨"p1"⟩, .terminal .kill, 0⟩]

theorem stamps_never_repeat_reopened :
    (toldBy (.pane ⟨"p1"⟩) (run narrow .empty reopened).published).map (·.stamp) =
        [⟨0, 1⟩, ⟨0, 2⟩, ⟨0, 3⟩, ⟨0, 4⟩, ⟨1, 1⟩, ⟨1, 2⟩, ⟨1, 3⟩] ∧
      Counted ⟨"p1"⟩ 2 (run narrow .empty reopened).published := by
  have hopened : (create narrow .empty).opened ⟨"p1"⟩ reopened = 2 := by decide +kernel
  have hspace : (toldBy (.pane ⟨"p1"⟩) (run narrow .empty reopened).published).length <
      wordMax := by decide +kernel
  have hcounted := ((stamps_never_repeat narrow .empty reopened ⟨"p1"⟩).2.2 hspace).2
  rw [hopened] at hcounted
  exact ⟨by decide +kernel, hcounted⟩

end Workspace

end Switchboard
