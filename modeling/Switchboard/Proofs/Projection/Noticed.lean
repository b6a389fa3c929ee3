import Switchboard.Proofs.Projection.Redelivery
import Switchboard.Proofs.Projection.Scope

/-!
# Noticed paths in panes

The source finds the root of a noticed path by comparison keys, and tells the path as the names
behind the root; the projection finds the scope of a pane by how its directory is spelled. A noticed
path comes to be shown exactly if the directory lies between root and path as spelled. In one case
mode this is what the keys say; where case does not count, a directory whose case differs from that
of its root sees nothing.
-/
namespace Switchboard

open Mirror (Step perform)

namespace Projection

theorem contains_showing {scope : Scope} {old : PathSet} {rel : Path} :
    PathSet.contains (scope.showing old [rel]) rel = true ↔
      scope.admits rel = true ∨ PathSet.contains old rel = true := by
  by_cases h : scope.admits rel = true
  · simp [Scope.showing, h, PathSet.contains_of_mem]
  · simp [Scope.showing, h]

theorem view?_applyEach_of_other {p : Projection} (hk : Keyed p) {pane : PaneId} {view : PaneView}
    (hv : p.view? pane = some view) {es : List Envelope}
    (h : ∀ e ∈ es, e.worktree ≠ some view.worktree) :
    (p.applyEach es).view? pane = some view := by
  induction es generalizing p with
  | nil => exact hv
  | cons e rest ih =>
    obtain ⟨hfirst, hrest⟩ := List.forall_mem_cons.mp h
    have hsame : p.shown e view = view := by
      simp only [shown]
      split
      · next w event _ hw _ => exact if_neg fun he => hfirst (hw.trans (congrArg some he.symm))
      · rfl
    refine ih (hk.apply e) ?_ hrest
    rw [view?_apply hk, hv, Option.map_some, hsame]

theorem lastBatchSeq_le_told {config : FsConfig} {epoch capacity : Nat} {steps : List Step}
    {operations : List Operation}
    (h : (applied operations).Sublist ((FsSource.create config epoch).told steps))
    {pane : PaneId} {view : PaneView}
    (hv : ((create capacity).performAll operations).view? pane = some view) :
    view.lastBatchSeq ≤
      ((FsSource.create config epoch).after steps).batcher.lastBatchSeq view.worktree := by
  have hsound := FsSource.sound_create config epoch
  have hspeaks := FsSource.speaks_told hsound steps
  have hcaught : Caught ((create capacity).performAll operations) (applied operations) :=
    (Caught.create capacity).performAll ((FsSource.inSequence_told hsound steps).sublist h)
  rcases hcaught.behind pane view hv with hzero | hmem
  · omega
  · have htold := (batchSeqs_sublist view.worktree h).subset hmem
    rw [hspeaks.batches] at htold
    have := (List.mem_range'_1.mp htold).2
    rw [hspeaks.last]
    omega

end Projection

namespace FsSource

open Projection

section Showing

variable {s : FsSource} {w : WorktreeId}

theorem heard?_emitAll (s : FsSource) (w : WorktreeId) (now : Nat)
    (events : List FilesystemEvent) :
    (s.emitAll w now events).2.map Envelope.heard? = events.map fun event => some (w, event) := by
  induction events generalizing s with
  | nil => rfl
  | cons event rest ih =>
    rw [emitAll_cons, List.map_cons, List.map_cons, ih]
    rfl

theorem worktree_flushRoot (h : s.Sound) (u : WorktreeId) (now : Nat) :
    ∀ e ∈ (s.flushRoot u now).2.envelopes, e.worktree = some u := by
  cases hb : s.batcher.pending? u with
  | none =>
    rw [flushRoot_of_not_pending hb]
    intro e he
    cases he
  | some batch =>
    obtain ⟨root, ht⟩ := root_of_pending? (h.owned u) hb
    rw [flushRoot_of_pending hb ht]
    exact worktree_emitAll _ _ _ _

theorem worktree_flushRoots (h : s.Sound) (now : Nat) (ws : List WorktreeId) :
    ∀ e ∈ (s.flushRoots now ws).2.envelopes, ∃ u ∈ ws, e.worktree = some u := by
  induction ws generalizing s with
  | nil =>
    intro e he
    cases he
  | cons u rest ih =>
    intro e he
    rw [(s.flushRoots_cons now u rest).2, List.mem_append] at he
    rcases he with he | he
    · exact ⟨u, List.mem_cons_self, worktree_flushRoot h u now e he⟩
    · obtain ⟨u', hu', hw⟩ := ih (h.perform (.flushRoot u now)) e he
      exact ⟨u', List.mem_cons_of_mem u hu', hw⟩

variable {p : Projection} {pane : PaneId} {view : PaneView} (hk : Keyed p)
  (hv : p.view? pane = some view)

include hk hv

theorem shown_flushRoot (h : s.Sound) (hsorted : (s.batcher.waiting view.worktree).Sorted)
    (hcursor : view.lastBatchSeq ≤ s.batcher.lastBatchSeq view.worktree) (now : Nat) :
    ((p.applyEach (s.flushRoot view.worktree now).2.envelopes).view? pane).map (·.changed) =
      some ((p.scope view).showing view.changed (s.batcher.waiting view.worktree)) := by
  cases hb : s.batcher.pending? view.worktree with
  | none =>
    rw [flushRoot_of_not_pending hb, s.batcher.waiting_of_not_pending _ hb]
    exact congrArg (Option.map (·.changed)) hv
  | some batch =>
    obtain ⟨root, ht⟩ := root_of_pending? (h.owned _) hb
    rw [s.batcher.waiting_of_pending? _ hb] at hsorted ⊢
    rw [flushRoot_of_pending hb ht]
    have hparts : 0 < (s.batcher.drop view.worktree).policy.maxPaths := h.parts
    have hheard := heard?_emitAll
      { s with batcher := ((s.batcher.drop view.worktree).changesets view.worktree batch.paths
        now).1 } view.worktree now (((s.batcher.drop view.worktree).changesets view.worktree
          batch.paths now).2.map .filesChanged)
    rw [List.map_map] at hheard
    exact showing_batch hk hv rfl hparts hsorted hcursor hheard

theorem shown_flushRoots (h : s.Sound) (hsorted : (s.batcher.waiting view.worktree).Sorted)
    (hcursor : view.lastBatchSeq ≤ s.batcher.lastBatchSeq view.worktree) (now : Nat)
    {ws : List WorktreeId} (hn : ws.Nodup) (hw : view.worktree ∈ ws) :
    ((p.applyEach (s.flushRoots now ws).2.envelopes).view? pane).map (·.changed) =
      some ((p.scope view).showing view.changed (s.batcher.waiting view.worktree)) := by
  induction ws generalizing s p with
  | nil => cases hw
  | cons u rest ih =>
    obtain ⟨hfirst, hrest⟩ := List.nodup_cons.mp hn
    have hnext : (s.flushRoot u now).1.Sound := h.perform (.flushRoot u now)
    rw [(s.flushRoots_cons now u rest).2, applyEach, List.foldl_append]
    by_cases hu : u = view.worktree
    · subst hu
      -- no root is flushed twice, so what comes behind leaves the pane as it is
      obtain ⟨view', hv', hbound, -, -⟩ :=
        view?_applyEach hk hv (s.flushRoot view.worktree now).2.envelopes
      have hshown := shown_flushRoot hk hv h hsorted hcursor now
      rw [hv'] at hshown
      have hother : ∀ e ∈ ((s.flushRoot view.worktree now).1.flushRoots now rest).2.envelopes,
          e.worktree ≠ some view'.worktree := by
        intro e he hroot
        obtain ⟨u', hu', hw'⟩ := worktree_flushRoots hnext now rest e he
        rw [hbound, hw', Option.some.injEq] at hroot
        exact hfirst (hroot ▸ hu')
      have hlast := view?_applyEach_of_other (keyed_applyEach hk _) hv' hother
      exact (congrArg (Option.map (·.changed)) hlast).trans hshown
    · have hother : ∀ e ∈ (s.flushRoot u now).2.envelopes, e.worktree ≠ some view.worktree := by
        intro e he hroot
        rw [worktree_flushRoot h u now e he, Option.some.injEq] at hroot
        exact hu hroot
      have hkept := view?_applyEach_of_other hk hv hother
      have hlast := (s.speaks_flushRoot u now h).last view.worktree
      have hwaits := waiting_flushRoot h u now view.worktree
      rw [if_neg hu] at hwaits
      have hmem : view.worktree ∈ rest := (List.mem_cons.mp hw).resolve_left (Ne.symm hu)
      have hall := ih (keyed_applyEach hk _) hkept hnext (hwaits.symm ▸ hsorted) (by omega)
        hrest hmem
      rwa [hwaits, scope_congr (roots_applyEach p _) view] at hall

end Showing

def Flushes (s : FsSource) (w : WorktreeId) : Step → Prop
  | .flushRoot u _ => u = w
  | .flushDue now => w ∈ s.dueRoots now
  | _ => False

theorem shown_flush {s : FsSource} {p : Projection} (hk : Keyed p) {pane : PaneId}
    {view : PaneView} (hv : p.view? pane = some view) (h : s.Sound)
    (hsorted : (s.batcher.waiting view.worktree).Sorted)
    (hcursor : view.lastBatchSeq ≤ s.batcher.lastBatchSeq view.worktree) {x : Step}
    (hx : s.Flushes view.worktree x) :
    ((p.applyEach (perform s x).2).view? pane).map (·.changed) =
      some ((p.scope view).showing view.changed (s.batcher.waiting view.worktree)) := by
  cases x with
  | flushRoot u now =>
    obtain rfl : u = view.worktree := hx
    exact shown_flushRoot hk hv h hsorted hcursor now
  | flushDue now =>
    have hn : (s.dueRoots now).Nodup := nodup_scheduled (s.batcher.nodup_due now h.sorted)
    exact shown_flushRoots hk hv h hsorted hcursor now hn hx
  | _ => cases hx

end FsSource

namespace FsSource

open Projection

section Agreeing

variable {s : FsSource} {raw rel : Path} {w : WorktreeId} {root : Root}

theorem changed_spec (h : s.table.Sound) (hc : ∀ r ∈ s.table.list, r.path.Canonical)
    (hr : s.table.get? w = some root) (ha : raw.isAbsolute = true) (hch : s.Changed raw w rel) :
    (root.path.join rel).key s.table.foldCase = raw.normalize.key s.table.foldCase ∧
      (root.path.join rel).components = root.path.components ++ rel.components ∧
      (root.path.join rel).Canonical ∧
      ∀ n ∈ (root.path.join rel).place, n ∈ root.path.place ∨ n ∈ raw.place := by
  obtain ⟨names, ⟨r, hmem, hrw, hholds, -, hnames⟩, -, -, rfl⟩ := hch
  obtain rfl : r = root := by
    have hget := h.get?_of_mem hmem
    rw [hrw] at hget
    exact Option.some.inj (hget.symm.trans hr)
  have hcanonical := hc r hmem
  have hparts : ∀ n ∈ names, Path.IsPart (.name n) := by
    intro n hn
    rw [hnames] at hn
    exact Path.isPart_of_mem_place ha (List.drop_subset _ _ hn)
  have hcomponents := Path.components_join_along hcanonical.isAbsolute hparts
  have hjoined : (r.path.join (.along names)).components =
      .root :: (r.path.place ++ names).map .name := by
    rw [hcomponents, hcanonical.components, Path.components_along hparts, List.map_append,
      List.cons_append]
  refine ⟨?_, hcomponents, ⟨_, hjoined⟩, ?_⟩
  · have hdrop : Path.folded s.table.foldCase names =
        (Path.folded s.table.foldCase raw.place).drop
          (Path.folded s.table.foldCase r.path.place).length := by
      rw [hnames, Path.length_folded]
      exact List.map_drop
    have hkey : (Path.along names).key s.table.foldCase =
        Path.folded s.table.foldCase names := by
      rw [Path.key, Path.components_along hparts, Path.filter_names, Path.map_keyPart_name]
    rw [Path.key_join _ _ _ (Path.isAbsolute_along hparts), hcanonical.key, hkey,
      Path.key_normalize ha, hdrop, List.cons_append]
    exact congrArg _ (List.prefix_iff_eq_append.mp hholds)
  · intro n hn
    rw [Path.place_of_components hjoined, hnames] at hn
    exact (List.mem_append.mp hn).imp_right fun hn => List.drop_subset _ _ hn

theorem waiting_ingest_changed (h : s.table.Sound) (hc : ∀ r ∈ s.table.list, r.path.Canonical)
    (ha : raw.isAbsolute = true) (hch : s.Changed raw w rel) (hidle : s.batcher.waiting w = [])
    (now : Nat) : (s.ingest [raw] now).1.batcher.waiting w = [rel] := by
  have hroute : (s.route raw).changed? w = some rel :=
    Route.changed?_eq_some.mpr ((route_eq_changed_iff h hc ha).mpr hch)
  have hone : [raw].filterMap (fun raw => (s.route raw).changed? w) = [rel] := by simp [hroute]
  rw [waiting_ingest, hidle, hone]
  rfl

end Agreeing

/-- A path of a root is noticed alone and flushed, and a reader that took all before in order takes
what is told. Then a pane of the root with an absolute directory shows the path exactly if the
directory lies between root and path as they are spelled, or if it showed the path before and sees
nothing new. What lies between as spelled does so by the comparison keys, too; where case counts,
the two are one for a directory without dots that lies in the root, if all three are UTF-8. -/
theorem shown_iff_spelled_between (config : FsConfig) (epoch capacity : Nat)
    {steps : List Step} {s : FsSource} (hs : (create config epoch).after steps = s)
    {operations : List Operation} {p : Projection}
    (hp : (Projection.create capacity).performAll operations = p)
    (hinorder : (applied operations).Sublist ((create config epoch).told steps))
    (hcanonical : ∀ r ∈ s.table.list, r.path.Canonical) {w : WorktreeId} {root : Root}
    (hroot : s.table.get? w = some root) (hrecorded : Table.get? p.roots w = some root.path)
    (hidle : s.batcher.waiting w = []) {pane : PaneId} {view : PaneView}
    (hv : p.view? pane = some view) (hw : view.worktree = w) {cwd : Path}
    (hcwd : view.cwd = some cwd) (hcabs : cwd.isAbsolute = true) {raw rel : Path}
    (habs : raw.isAbsolute = true) (hchanged : s.Changed raw w rel) (now : Nat) {x : Step}
    (hx : (s.ingest [raw] now).1.Flushes w x) :
    ∃ view', (p.applyEach (perform (s.ingest [raw] now).1 x).2).view? pane = some view' ∧
      (PathSet.contains view'.changed rel = true ↔
        (root.path.components <+: cwd.components ∧
          cwd.components <+: (root.path.join rel).components) ∨
          PathSet.contains view.changed rel = true) ∧
      (cwd.components <+: (root.path.join rel).components →
        cwd.key s.table.foldCase <+: raw.normalize.key s.table.foldCase) ∧
      (s.table.foldCase = false → cwd.Canonical → root.key <+: cwd.key false →
        root.path.isText → cwd.isText → raw.isText →
        (root.path.components <+: cwd.components ∧
            cwd.components <+: (root.path.join rel).components ↔
          cwd.key false <+: raw.normalize.key false)) := by
  subst hs hp hw
  have hsound : ((create config epoch).after steps).Sound := (sound_create config epoch).after steps
  generalize hs : (create config epoch).after steps = s at *
  have hmem : root ∈ s.table.list := RootTable.Sound.mem_of_get? hroot
  obtain ⟨hkey, hcomponents, hjoined, hnames⟩ :=
    changed_spec hsound.table hcanonical hroot habs hchanged
  have hwaits := waiting_ingest_changed hsound.table hcanonical habs hchanged hidle now
  have hcursor : view.lastBatchSeq ≤
      (s.ingest [raw] now).1.batcher.lastBatchSeq view.worktree := by
    have hlast := (s.speaks_ingest now [raw]).last view.worktree
    have hle := lastBatchSeq_le_told hinorder hv
    rw [hs] at hle
    omega
  have hshown := shown_flush ((Keyed.create capacity).performAll operations) hv
    (hsound.perform (.ingest [raw] now)) (hwaits ▸ List.pairwise_singleton _ rel) hcursor hx
  have hwaits' : (perform s (.ingest [raw] now)).1.batcher.waiting view.worktree = [rel] := hwaits
  obtain ⟨view', hv', hchanged'⟩ := Option.map_eq_some_iff.mp hshown
  refine ⟨view', hv', ?_, ?_, ?_⟩
  · rw [hchanged', hwaits', contains_showing, hcomponents,
      admits_scope_iff hrecorded hcwd (hcanonical root hmem).isAbsolute hcabs]
  · intro hbetween
    rw [← hkey]
    exact Path.key_prefix_of_components hbetween _
  · intro hcase hc hinside hrt hct hpt
    have hroottext : ∀ n ∈ root.path.place, n.text?.isSome := fun n hn =>
      Path.isSome_text?_of_mem_place (hcanonical root hmem).isAbsolute hrt hn
    have hcwdtext : ∀ n ∈ cwd.place, n.text?.isSome := fun n hn =>
      Path.isSome_text?_of_mem_place hcabs hct hn
    have htext : ∀ n ∈ (root.path.join rel).place, n.text?.isSome := fun n hn =>
      (hnames n hn).elim (hroottext n) (Path.isSome_text?_of_mem_place habs hpt)
    rw [hcase] at hkey
    rw [hsound.table.keyed root hmem, hcase] at hinside
    rw [← hkey, ← hc.components_prefix_iff hjoined hcwdtext htext]
    exact and_iff_right
      (((hcanonical root hmem).components_prefix_iff hc hroottext hcwdtext).mpr hinside)

def capital : FsSource :=
  (create ⟨.standard, true, [".git"]⟩ 0).after [.register ⟨"W1"⟩ ⟨"/Repo"⟩ .activeInApp]

def watching (cwd : Path) : List Operation :=
  [.arrange (.setRoot ⟨"W1"⟩ ⟨"/Repo"⟩), .arrange (.bind ⟨"p"⟩ ⟨"W1"⟩ (some cwd))]

theorem shown_iff_spelled_between_capital :
    let told := (perform (capital.ingest [⟨"/repo/src/a.txt"⟩] 0).1 (.flushRoot ⟨"W1"⟩ 500)).2
    ∃ view, ((((Projection.create 4).performAll (watching ⟨"/Repo/src"⟩)).applyEach told).view?
        ⟨"p"⟩) = some view ∧ PathSet.contains view.changed ⟨"src/a.txt"⟩ = true := by
  have hcanonical : ∀ r ∈ capital.table.list, r.path.Canonical := by
    have hlist : capital.table.list.map (·.path) = [⟨"/Repo"⟩] := by decide +kernel
    intro r hr
    have hpath : r.path ∈ capital.table.list.map (·.path) := List.mem_map_of_mem hr
    rw [hlist, List.mem_singleton] at hpath
    exact ⟨["Repo"], hpath ▸ by decide +kernel⟩
  have hsound : capital.Sound := (sound_create _ 0).after _
  have hroot : capital.table.get? ⟨"W1"⟩ =
      some ⟨⟨"W1"⟩, ⟨"/Repo"⟩, .activeInApp, ["/", "repo"]⟩ := by decide +kernel
  have hv : ((Projection.create 4).performAll (watching ⟨"/Repo/src"⟩)).view? ⟨"p"⟩ = some
      { PaneView.empty ⟨"p"⟩ ⟨"W1"⟩ with cwd := some ⟨"/Repo/src"⟩ } := by decide +kernel
  have hchanged : capital.Changed ⟨"/repo/src/a.txt"⟩ ⟨"W1"⟩ ⟨"src/a.txt"⟩ :=
    (route_eq_changed_iff hsound.table hcanonical rfl).mp (by decide +kernel)
  have hs : (create ⟨.standard, true, [".git"]⟩ 0).after
      [.register ⟨"W1"⟩ ⟨"/Repo"⟩ .activeInApp] = capital := rfl
  have hinorder : (applied (watching ⟨"/Repo/src"⟩)).Sublist
      ((create ⟨.standard, true, [".git"]⟩ 0).told
        [.register ⟨"W1"⟩ ⟨"/Repo"⟩ .activeInApp]) := List.nil_sublist _
  have hx : (capital.ingest [⟨"/repo/src/a.txt"⟩] 0).1.Flushes ⟨"W1"⟩ (.flushRoot ⟨"W1"⟩ 500) :=
    rfl
  obtain ⟨view, hview, hshown, -, -⟩ :=
    shown_iff_spelled_between ⟨.standard, true, [".git"]⟩ 0 4 hs rfl hinorder
      hcanonical hroot (by decide +kernel) (by decide +kernel) hv rfl rfl rfl rfl hchanged 0 hx
  exact ⟨view, hview, hshown.mpr (.inl ⟨by decide +kernel, by decide +kernel⟩)⟩

/-- The directory is above the path by its comparison key, and the pane sees nothing. -/
theorem not_always_shown :
    let told := (perform (capital.ingest [⟨"/repo/src/a.txt"⟩] 0).1 (.flushRoot ⟨"W1"⟩ 500)).2
    capital.route ⟨"/repo/src/a.txt"⟩ = .changed ⟨"W1"⟩ ⟨"src/a.txt"⟩ ∧
      (⟨"/Repo"⟩ : Path).key true <+: (⟨"/repo/src"⟩ : Path).key true ∧
      (⟨"/repo/src"⟩ : Path).key true <+: (⟨"/repo/src/a.txt"⟩ : Path).key true ∧
      changedPaths ⟨"W1"⟩ told = [⟨"src/a.txt"⟩] ∧
      ((((Projection.create 4).performAll (watching ⟨"/repo/src"⟩)).applyEach told).view?
        ⟨"p"⟩).map (·.changed) = some [] := by
  decide +kernel

end FsSource

end Switchboard
