import Switchboard.Proofs.Workspace.Consistency

/-!
# Which root goes first

The root that goes first is looked up from the focused pane whenever the focus, a binding that is
asked for, or the roots change, and when a pane leaves. It is not looked up when a pane is bound
because it opens or because it says that it moved. So the focused pane's root goes first exactly as
long as the focused pane is not bound anew in one of these two ways.
-/
namespace Switchboard

namespace Books

variable {b : Books} {pane : PaneId}

def Attends (b : Books) : Prop :=
  ∀ w, (b.roots.get? w).isSome = true → (b.first = some w ↔ b.joined = some w)

/-- The move takes the focused pane to a registered root, or away from one. -/
def Slips (b : Books) (pane : PaneId) (move : Option (Option WorktreeId)) : Prop :=
  b.focus = some pane ∧ ∃ target, move = some target ∧
    ∃ w, (b.roots.get? w).isSome = true ∧ ¬(b.bound? pane = some w ↔ target = some w)

theorem attends_sync (b : Books) : b.sync.Attends := fun _ _ => .rfl

theorem attends_expel {w : WorktreeId} {roots : RootTable} {r : Root} (h : b.Attends)
    (hr : b.roots.remove w = .ok (roots, r)) : (b.expel w roots).Attends := by
  obtain ⟨-, rfl⟩ := RootTable.remove_eq_ok hr
  intro u hu
  have hget : (Table.get? (Table.erase b.roots.roots w) u).isSome = true := hu
  rw [Table.get?_erase] at hget
  by_cases hw : w = u
  · rw [if_pos hw] at hget
    cases hget
  rw [if_neg hw] at hget
  refine Iff.trans ?_ (h u hget)
  show (if b.first = some w then none else b.first) = some u ↔ b.first = some u
  by_cases hf : b.first = some w
  · rw [if_pos hf, hf, Option.some.injEq]
    exact iff_of_false (fun he => nomatch he) hw
  · rw [if_neg hf]

theorem bound?_follow (b : Books) (pane : PaneId) (move : Option (Option WorktreeId))
    (other : PaneId) : (b.follow pane move).bound? other =
      if pane = other then move.getD (b.bound? pane) else b.bound? other := by
  rcases move with _ | _ | w
  · by_cases ho : pane = other
    · rw [if_pos ho, ← ho]
      rfl
    · rw [if_neg ho]
      rfl
  · exact (congrFun (Retiered.unbind b pane).bound? other).trans (b.bound?_noteRelease pane other)
  · exact (congrFun (Retiered.bind b pane w).bound? other).trans (b.bound?_noteBinding pane w other)

theorem follow_stays (b : Books) (pane : PaneId) (move : Option (Option WorktreeId)) :
    (b.follow pane move).focus = b.focus ∧ (b.follow pane move).first = b.first ∧
      ∀ w, ((b.follow pane move).roots.get? w).isSome = (b.roots.get? w).isSome := by
  rcases move with _ | _ | w
  · exact ⟨rfl, rfl, fun _ => rfl⟩
  · have hr := Retiered.unbind b pane
    exact ⟨hr.focus, hr.first, hr.kept⟩
  · have hr := Retiered.bind b pane w
    exact ⟨hr.focus, hr.first, hr.kept⟩

theorem attends_follow_iff (h : b.Attends) (move : Option (Option WorktreeId)) :
    (b.follow pane move).Attends ↔ ¬b.Slips pane move := by
  obtain ⟨hfocus, hfirst, hroots⟩ := b.follow_stays pane move
  have hjoined : (b.follow pane move).joined =
      if b.focus = some pane then move.getD (b.bound? pane) else b.joined := by
    rw [joined, hfocus, joined]
    cases b.focus with
    | none => rfl
    | some other =>
      rw [Option.bind_some, Option.bind_some, bound?_follow]
      simp only [Option.some.injEq, eq_comm]
  simp only [Attends, hfirst, hroots, hjoined]
  by_cases hp : b.focus = some pane
  · have hbefore : b.joined = b.bound? pane := by rw [joined, hp, Option.bind_some]
    simp only [Slips, hp, if_true, true_and]
    cases move with
    | none =>
      refine iff_of_true (fun w hw => hbefore ▸ h w hw) ?_
      rintro ⟨_, ⟨⟩, -⟩
    | some target =>
      simp only [Option.getD_some]
      constructor
      · rintro ha ⟨_, ⟨⟩, w, hw, hne⟩
        exact hne (hbefore ▸ (h w hw).symm.trans (ha w hw))
      · intro hs w hw
        refine (h w hw).trans (hbefore ▸ Classical.not_not.mp fun hne => hs ?_)
        exact ⟨target, rfl, w, hw, hne⟩
  · simp only [if_neg hp]
    exact iff_of_true h fun hs => hp hs.1

end Books

namespace Workspace

variable {ws ws' : Workspace}

def Attends (ws : Workspace) : Prop :=
  ∀ w, (ws.observer.source.table.get? w).isSome = true →
    (ws.observer.source.focused = some w ↔
      ∃ pane, ws.focus.focused = some pane ∧ Table.get? ws.bindings pane = some w)

theorem attends_books : ws.books.Attends ↔ ws.Attends := by
  have hjoined : ∀ w, ws.books.joined = some w ↔
      ∃ pane, ws.focus.focused = some pane ∧ Table.get? ws.bindings pane = some w :=
    fun w => Option.bind_eq_some_iff
  simp only [Books.Attends, hjoined]
  rfl

/-- The focused pane is bound anew because it opens or because it says that it moved, and this takes
it to a registered root or away from one. -/
def Slips (ws : Workspace) : Operation → Prop
  | .openPane spec =>
    ws.registry.find? spec.pane = none ∧ ws.focus.focused = some spec.pane ∧
      ∃ w, spec.metadata.worktree = some w ∧
        (ws.observer.source.table.get? w).isSome = true
  | .dispatch command =>
    ws.focus.focused = some command.target ∧
      ∃ l target, ws.registry.lookup? command.target = some l ∧
        l.pane.move? command ws.now = some target ∧
          ∃ w, (ws.observer.source.table.get? w).isSome = true ∧
            ¬(Table.get? ws.bindings command.target = some w ↔ target = some w)
  | _ => False

theorem attends_of_silent (hk : ws.feed.projection.Keyed) (hs : Silent ws ws') :
    ws'.Attends ↔ ws.Attends := by
  rw [← attends_books, (hs hk).2, attends_books]

theorem attends_of_writes {entry : Books → Books} (hk : ws.feed.projection.Keyed)
    (hw : Writes ws entry ws') : ws'.Attends ↔ (entry ws.books).Attends := by
  rw [← attends_books, (hw hk).2]

theorem attends_of_synced {entry : Books → Books} (hk : ws.feed.projection.Keyed)
    (hw : Writes ws (fun b => (entry b).sync) ws') : ws'.Attends :=
  (attends_of_writes hk hw).mpr (Books.attends_sync _)

namespace Orderly

variable (h : Orderly ws) (ha : ws.Attends)

include h ha

theorem attends_openPane_iff (spec : PaneSpec) :
    (ws.openPane spec).1.Attends ↔ ¬ws.Slips (.openPane spec) := by
  cases hf : ws.registry.find? spec.pane with
  | some run =>
    rw [openPane_of_taken (by rw [hf]; rfl)]
    refine iff_of_true ha fun hs => ?_
    rw [hs.1] at hf
    cases hf
  | none =>
    have hfree : ws.books.bound? spec.pane = none := by
      by_contra hb
      have hin := h.sound.agrees.registered spec.pane (Option.isSome_iff_ne_none.mpr hb)
      rw [show ws.books.find? spec.pane = none from hf] at hin
      cases hin
    have hentered : (ws.books.enter (ws.newPane spec)).Attends := attends_books.mpr ha
    obtain ⟨p, -, hw⟩ := writes_openPane h.keyed hf
    refine (attends_of_writes h.keyed hw).trans ((Books.attends_follow_iff hentered _).trans
      (not_congr ?_))
    simp only [Books.Slips, Slips, hf, true_and, Option.map_eq_some_iff]
    refine and_congr_right fun _ => ?_
    constructor
    · rintro ⟨_, ⟨w, hspec, rfl⟩, u, hu, hne⟩
      have hu' : some w = some u := by
        by_contra hwu
        exact hne (iff_of_false (by
          rw [show (ws.books.enter (ws.newPane spec)).bound? spec.pane = none from hfree]
          exact fun he => nomatch he) hwu)
      cases hu'
      exact ⟨w, hspec, hu⟩
    · rintro ⟨w, hspec, hw⟩
      refine ⟨some w, ⟨w, hspec, rfl⟩, w, hw, fun hiff => ?_⟩
      have hb : (ws.books.enter (ws.newPane spec)).bound? spec.pane = some w := hiff.mpr rfl
      rw [show (ws.books.enter (ws.newPane spec)).bound? spec.pane = none from hfree] at hb
      cases hb

theorem attends_dispatch_iff (command : CommandEnvelope) :
    (ws.dispatch command).1.Attends ↔ ¬ws.Slips (.dispatch command) := by
  cases hf : ws.registry.find? command.target with
  | none =>
    rw [dispatch_of_absent hf]
    refine iff_of_true ha ?_
    rintro ⟨-, l, target, hl, -⟩
    rw [Registry.lookup?, hf] at hl
    cases hl
  | some run =>
    obtain ⟨l, hl, hs⟩ := h.serves hf
    have hlookup : ws.registry.lookup? command.target = some l := by
      rw [Registry.lookup?, hf, Option.bind_some, hl]
    cases he : (l.pane.handle command ws.now).ends with
    | true =>
      refine iff_of_true (attends_of_synced h.keyed (writes_dispatch_of_ends hf hl he)) ?_
      rintro ⟨-, l', target, hl', hmove, -⟩
      rw [hlookup, Option.some.injEq] at hl'
      rw [← hl', Pane.move?_of_ends hs.2.2 he] at hmove
      cases hmove
    | false =>
      have hadvanced : (ws.books.advance run (l.pane.handle command ws.now).pane).Attends :=
        attends_books.mpr ha
      refine (attends_of_writes h.keyed (writes_dispatch hf hl he)).trans
        ((Books.attends_follow_iff hadvanced _).trans (not_congr ?_))
      simp only [Books.Slips, Slips, hlookup, Option.some.injEq]
      refine and_congr_right fun _ => ?_
      constructor
      · rintro ⟨target, hmove, hw⟩
        exact ⟨l, target, rfl, hmove, hw⟩
      · rintro ⟨_, target, rfl, hmove, hw⟩
        exact ⟨target, hmove, hw⟩

theorem attends_perform_iff (operation : Operation) :
    (ws.perform operation).Attends ↔ ¬ws.Slips operation := by
  have hsilent : ∀ {ws' : Workspace}, Silent ws ws' → (ws'.Attends ↔ ¬False) := fun hs =>
    (attends_of_silent h.keyed hs).trans (iff_of_true ha not_false)
  have hsynced : ∀ {entry : Books → Books} {ws' : Workspace},
      Writes ws (fun b => Books.sync (entry b)) ws' → (ws'.Attends ↔ ¬False) :=
    fun hw => iff_of_true (attends_of_synced h.keyed hw) not_false
  cases operation with
  | openPane spec => exact h.attends_openPane_iff ha spec
  | dispatch command => exact h.attends_dispatch_iff ha command
  | closePane pane =>
    simp only [Workspace.perform]
    cases hf : ws.registry.find? pane with
    | none =>
      rw [closePane_of_absent hf]
      exact iff_of_true ha not_false
    | some run =>
      obtain ⟨l, hl, -⟩ := h.serves hf
      exact hsynced (writes_closePane hf hl)
  | bindPane pane w cwd =>
    simp only [Workspace.perform, Workspace.bindPane]
    split
    · exact hsynced ((writes_bind ws pane w cwd).trans (writes_syncFocused _))
    · exact iff_of_true ha not_false
  | setFocus focus => exact hsynced (writes_setFocus ws focus)
  | addWorktree w path =>
    rcases writes_addWorktree h.keyed w path with hs | ⟨root, roots, -, hw⟩
    · exact hsilent hs
    · exact hsynced hw
  | removeWorktree w =>
    rcases writes_removeWorktree h.keyed w with hs | ⟨roots, r, hr, hw⟩
    · exact hsilent hs
    · exact iff_of_true ((attends_of_writes h.keyed hw).mpr
        (Books.attends_expel (attends_books.mpr ha) hr)) not_false
  | inject paths => exact hsilent (silent_inject ws paths)
  | reconcile reason => exact hsilent (silent_observer (ws.observer.standing_reconcile reason))
  | setReport root found => exact iff_of_true ha not_false
  | subscribe pane after => exact hsilent (silent_subscribe ws pane after)
  | read stream count => exact hsilent (silent_read ws stream count)
  | makeDir path => exact iff_of_true ha not_false
  | rest ms => exact hsilent (silent_rest ws ms)

end Orderly

/-- After every operation of a run the focused pane's root goes first, if it is registered, and no
other, exactly if no operation of the run slips. -/
theorem attends_iff_never_slips (config : Config) (tree : Tree) (operations : List Operation) :
    (∀ n, ((create config tree).performAll (operations.take n)).Attends) ↔
      ∀ n operation, operations[n]? = some operation →
        ¬((create config tree).performAll (operations.take n)).Slips operation := by
  have horderly : ∀ n, Orderly ((create config tree).performAll (operations.take n)) :=
    fun n => (Orderly.create config tree).performAll _
  have hnext : ∀ n operation, operations[n]? = some operation →
      (create config tree).performAll (operations.take (n + 1)) =
        ((create config tree).performAll (operations.take n)).perform operation := by
    intro n operation ho
    rw [List.take_add_one, ho, performAll, List.foldl_append]
    rfl
  constructor
  · intro hall n operation ho
    refine ((horderly n).attends_perform_iff (hall n) operation).mp ?_
    rw [← hnext n operation ho]
    exact hall (n + 1)
  · intro hnone n
    induction n with
    | zero => exact fun w hw => nomatch hw
    | succ n ih =>
      cases ho : operations[n]? with
      | none =>
        have hlen := List.getElem?_eq_none_iff.mp ho
        rwa [List.take_of_length_le (by omega), ← List.take_of_length_le hlen]
      | some operation =>
        rw [hnext n operation ho]
        exact ((horderly n).attends_perform_iff ih operation).mpr (hnone n operation ho)

theorem canonicalizeRoot_root (t : Tree) : t.canonicalizeRoot ⟨"/"⟩ = .ok ⟨"/"⟩ := by
  have hsteps : Tree.steps ⟨"/"⟩ = [.stay] := by decide +kernel
  have habsolute : Path.isAbsolute ⟨"/"⟩ = true := by decide +kernel
  have hwalk : t.walk Tree.linkLimit [] [.stay] = .ok [] := by rw [Tree.walk, Tree.walk]
  simp only [Tree.canonicalizeRoot, Tree.resolve, habsolute, hsteps, hwalk, if_true]
  rfl

def openedInFocus : List Operation :=
  [.addWorktree ⟨"W1"⟩ ⟨"/"⟩, .setFocus (.on ⟨"p1"⟩),
    .openPane ⟨⟨"p1"⟩, .codeViewer, ⟨none, none, some ⟨"W1"⟩, none⟩, none⟩]

theorem not_always_attends : ¬ ∀ (config : Config) (tree : Tree) (operations : List Operation),
    config.fault? = none → ((create config tree).performAll operations).Attends := by
  intro h
  have hall := h .standard .empty openedInFocus (by decide)
  simp only [performAll, openedInFocus, List.foldl_cons, perform, addWorktree,
    canonicalizeRoot_root] at hall
  have hiff := hall ⟨"W1"⟩ (by decide +kernel)
  have hfirst := hiff.mpr ⟨⟨"p1"⟩, by decide +kernel, by decide +kernel⟩
  exact absurd hfirst (by decide +kernel)

end Workspace

end Switchboard
