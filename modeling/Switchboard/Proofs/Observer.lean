import Switchboard.Proofs.Path.Set
import Switchboard.Proofs.Roots.Nesting
import Switchboard.Proofs.Workspace.Unchanged

/-!
# Which roots are watched

A watch covers everything below it. So the observer watches the roots that lie in no other root, and
brings its watches in line whenever a root comes or goes. One root that comes may take the place of
many watches, and when it goes they are all there again.
-/
namespace Switchboard

namespace RootTable

variable {t t' : RootTable} {p q : Path}

def paths (t : RootTable) : List Path := t.list.map (·.path)

/-- The path of a registered root that no other root lies around. -/
def IsTop (t : RootTable) (p : Path) : Prop :=
  p ∈ t.paths ∧ ∀ q ∈ t.paths, q.key t.foldCase <+: p.key t.foldCase →
    q.key t.foldCase = p.key t.foldCase

theorem mem_paths : p ∈ t.paths ↔ ∃ r ∈ t.list, r.path = p := List.mem_map

theorem paths_eq (t : RootTable) : t.paths = t.roots.map fun e => e.2.path := List.map_map

theorem key_eq_of_same (hs : p.same q = true) (foldCase : Bool) :
    p.key foldCase = q.key foldCase := by
  rw [Path.key, Path.key, Path.same_iff.mp hs]

theorem Sound.eq_of_key (h : t.Sound) (hp : p ∈ t.paths) (hq : q ∈ t.paths)
    (hk : p.key t.foldCase = q.key t.foldCase) : p = q := by
  obtain ⟨r, hr, rfl⟩ := mem_paths.mp hp
  obtain ⟨r', hr', rfl⟩ := mem_paths.mp hq
  rw [h.distinct r hr r' hr' (by rw [h.keyed r hr, h.keyed r' hr', hk])]

theorem Sound.parentOf_eq_none_iff (h : t.Sound) {r : Root} (hr : r ∈ t.list) :
    t.parentOf r = none ↔ ∀ q ∈ t.paths, q.key t.foldCase <+: r.path.key t.foldCase →
      q.key t.foldCase = r.path.key t.foldCase := by
  rw [show t.parentOf r = t.parentAt r.key from rfl, h.parentAt_eq_none_iff, ← h.keyed r hr]
  constructor
  · intro hnone q hq hpre
    obtain ⟨r', hr', rfl⟩ := mem_paths.mp hq
    rw [← h.keyed r' hr'] at hpre ⊢
    have := hnone _ (h.mem_sites.mpr ⟨r', hr', rfl, rfl⟩)
    exact hpre.eq_of_length_le (by simpa [hpre] using this)
  · rintro htop ⟨u, k⟩ hx ⟨hpre, hlt⟩
    obtain ⟨r', hr', -, rfl⟩ := h.mem_sites.mp hx
    have := htop r'.path (mem_paths.mpr ⟨r', hr', rfl⟩)
    rw [← h.keyed r' hr'] at this
    rw [this hpre] at hlt
    exact Nat.lt_irrefl _ hlt

theorem exists_top (hp : p ∈ t.paths) :
    ∃ top, t.IsTop top ∧ top.key t.foldCase <+: p.key t.foldCase := by
  induction hn : (p.key t.foldCase).length using Nat.strongRecOn generalizing p with
  | ind n ih =>
    by_cases htop : t.IsTop p
    · exact ⟨p, htop, List.prefix_rfl⟩
    · simp only [IsTop, hp, true_and, not_forall] at htop
      obtain ⟨q, hq, hpre, hne⟩ := htop
      have hlt : (q.key t.foldCase).length < n :=
        hn ▸ Nat.lt_of_le_of_ne hpre.length_le fun hlen => hne (hpre.eq_of_length hlen)
      obtain ⟨top, hin, habove⟩ := ih _ hlt hq rfl
      exact ⟨top, hin, habove.trans hpre⟩

theorem Sound.top_eq_of_prefix (h : t.Sound) (hp : t.IsTop p) (hq : t.IsTop q)
    (hpre : p.key t.foldCase <+: q.key t.foldCase) : p = q :=
  h.eq_of_key hp.1 hq.1 (hq.2 p hp.1 hpre)

theorem Sound.top_unique (h : t.Sound) (hp : t.IsTop p) (hq : t.IsTop q) {key : List String}
    (hkp : p.key t.foldCase <+: key) (hkq : q.key t.foldCase <+: key) : p = q := by
  rcases List.prefix_or_prefix_of_prefix hkp hkq with hpre | hpre
  · exact h.top_eq_of_prefix hp hq hpre
  · exact (h.top_eq_of_prefix hq hp hpre).symm

theorem Sound.paths_setTier (h : t.Sound) {w : WorktreeId} {tier : ActivityTier}
    (ht : t.setTier w tier = .ok t') : t'.paths = t.paths := by
  have hmap := congrArg (List.map Prod.snd) (h.map_setTier (f := Root.path) (fun _ _ => rfl) ht)
  rw [List.map_map, List.map_map] at hmap
  rw [paths_eq, paths_eq]
  exact hmap

theorem Sound.isTop_setTier (h : t.Sound) {w : WorktreeId} {tier : ActivityTier}
    (ht : t.setTier w tier = .ok t') : t'.IsTop p ↔ t.IsTop p := by
  have hcase : t'.foldCase = t.foldCase := by
    obtain ⟨r, -, rfl⟩ := setTier_eq_ok ht
    rfl
  rw [IsTop, IsTop, h.paths_setTier ht, hcase]

theorem paths_subset_insert {w : WorktreeId} {path : Path} {tier : ActivityTier}
    (ht : t.insert w path tier = .ok t') : t.paths ⊆ t'.paths := by
  obtain ⟨hnew, -, rfl⟩ := insert_eq_ok ht
  obtain ⟨front, behind, hroots, hset⟩ := Table.set_eq_insert hnew
    (⟨w, path, tier, path.key t.foldCase⟩ : Root)
  intro p hp
  rw [paths_eq, hroots, List.map_append, List.mem_append] at hp
  rw [paths_eq, hset, List.map_append, List.map_cons, List.mem_append]
  exact hp.imp_right (List.mem_cons_of_mem _)

theorem paths_remove_subset {w : WorktreeId} {r : Root} (ht : t.remove w = .ok (t', r)) :
    t'.paths ⊆ t.paths := by
  intro p hp
  obtain ⟨r, hr, rfl⟩ := mem_paths.mp hp
  exact mem_paths.mpr ⟨r, mem_of_mem_remove ht hr, rfl⟩

theorem Sound.eq_of_same_perform (h : t.Sound) (c : Call) (hp : p ∈ t.paths)
    (hq : q ∈ (t.perform c).paths) (hs : p.same q = true) : p = q := by
  rcases t.perform_cases c with hc | ⟨w, path, tier, -, hc⟩ | ⟨w, r, -, hc⟩ | ⟨w, tier, -, hc⟩
  · exact h.eq_of_key hp (hc ▸ hq) (key_eq_of_same hs _)
  · exact (h.perform c).eq_of_key (paths_subset_insert hc hp) hq (key_eq_of_same hs _)
  · exact h.eq_of_key hp (paths_remove_subset hc hq) (key_eq_of_same hs _)
  · exact h.eq_of_key hp (h.paths_setTier hc ▸ hq) (key_eq_of_same hs _)

end RootTable

namespace Watch

variable {w : Watch} {t t' : RootTable}

theorem mem_wanted (h : t.Sound) {p : Path} : p ∈ wanted t ↔ t.IsTop p := by
  have hmem : p ∈ ((t.list.filter fun r => (t.parentOf r).isNone).map (·.path)) ↔ t.IsTop p := by
    simp only [List.mem_map, List.mem_filter, Option.isNone_iff_eq_none]
    constructor
    · rintro ⟨r, ⟨hr, hnone⟩, rfl⟩
      exact ⟨RootTable.mem_paths.mpr ⟨r, hr, rfl⟩, (h.parentOf_eq_none_iff hr).mp hnone⟩
    · rintro ⟨hp, htop⟩
      obtain ⟨r, hr, rfl⟩ := RootTable.mem_paths.mp hp
      exact ⟨r, ⟨hr, (h.parentOf_eq_none_iff hr).mpr htop⟩, rfl⟩
  rw [wanted, PathSet.mem_ofList_iff, hmem]
  intro p hp q hq hs
  have hin : ∀ x ∈ (t.list.filter fun r => (t.parentOf r).isNone).map (·.path), x ∈ t.paths :=
    fun x hx => (List.filter_sublist.map _).subset hx
  exact h.eq_of_key (hin p hp) (hin q hq) (RootTable.key_eq_of_same hs _)

structure InLine (w : Watch) (t : RootTable) : Prop where
  watched : w.watched = wanted t
  active : ∀ p, p ∈ w.active ↔ p ∈ w.watched
  once : (w.active.map Path.components).Nodup

theorem mem_foldl_giveUp {active stale : List Path} {p : Path} :
    p ∈ stale.foldl giveUp active ↔ p ∈ active ∧ PathSet.contains stale p = false := by
  induction stale generalizing active with
  | nil => simp [PathSet.contains]
  | cons q rest ih =>
    rw [List.foldl_cons, ih, giveUp, List.mem_filter, and_assoc]
    simp [PathSet.contains]

theorem foldl_giveUp_sublist (active stale : List Path) :
    (stale.foldl giveUp active).Sublist active := by
  induction stale generalizing active with
  | nil => exact List.Sublist.refl _
  | cons q rest ih => exact (ih _).trans List.filter_sublist

theorem active_sync (w : Watch) (t : RootTable) :
    (w.sync t).active = (w.watched.filter (!(wanted t).contains ·)).foldl giveUp w.active ++
      (wanted t).filter (!w.watched.contains ·) := rfl

section Sync

variable (halike : ∀ p ∈ w.watched, ∀ q ∈ wanted t', p.same q = true → p = q)

include halike

theorem contains_wanted {p : Path} (hp : p ∈ w.watched) :
    PathSet.contains (wanted t') p = true ↔ p ∈ wanted t' := by
  refine ⟨fun hc => ?_, PathSet.contains_of_mem⟩
  obtain ⟨q, hq, hs⟩ := PathSet.contains_iff.mp hc
  exact halike p hp q hq hs ▸ hq

theorem contains_stale {p : Path} (hp : p ∈ w.watched) :
    PathSet.contains (w.watched.filter (!(wanted t').contains ·)) p = false ↔ p ∈ wanted t' := by
  have hnot : ∀ p q : Path, p.same q = true →
      (!(wanted t').contains p) = !(wanted t').contains q :=
    fun p q hs => by rw [PathSet.contains_congr hs]
  rw [Bool.eq_false_iff, ne_eq, PathSet.contains_filter hnot, ← contains_wanted halike hp]
  simp [PathSet.contains_of_mem hp]

theorem mem_missing {p : Path} :
    p ∈ (wanted t').filter (!w.watched.contains ·) ↔ p ∈ wanted t' ∧ p ∉ w.watched := by
  rw [List.mem_filter]
  refine and_congr_right fun hp => ?_
  rw [Bool.not_eq_true', Bool.eq_false_iff, ne_eq, not_iff_not]
  refine ⟨fun hc => ?_, PathSet.contains_of_mem⟩
  obtain ⟨q, hq, hs⟩ := PathSet.contains_iff.mp hc
  exact halike q hq p hp (Path.same_symm hs) ▸ hq

theorem watched_sync (hsorted : w.watched.Sorted) : (w.sync t').watched = wanted t' := by
  let stale := w.watched.filter (!(wanted t').contains ·)
  have hkept : ∀ p, p ∈ w.watched.filter (!PathSet.contains stale ·) ↔
      p ∈ w.watched ∧ p ∈ wanted t' := by
    intro p
    rw [List.mem_filter]
    refine and_congr_right fun hp => ?_
    rw [Bool.not_eq_true', contains_stale halike hp]
  have hwanted : (wanted t').Sorted := PathSet.sorted_ofList _
  have hwithin : ∀ p, p ∈ w.watched.filter (!PathSet.contains stale ·) ∨
      p ∈ (wanted t').filter (!w.watched.contains ·) → p ∈ wanted t' := by
    rintro p (hp | hp)
    · exact ((hkept p).mp hp).2
    · exact ((mem_missing halike).mp hp).1
  refine (hsorted.sublist List.filter_sublist).insertAll.eq_of_mem_iff hwanted fun p => ?_
  rw [PathSet.mem_insertAll_iff
    fun p q hp hq hs => hwanted.eq_of_same (hwithin p hp) (hwithin q hq) hs]
  refine ⟨hwithin p, fun hp => ?_⟩
  by_cases hin : p ∈ w.watched
  · exact .inl ((hkept p).mpr ⟨hin, hp⟩)
  · exact .inr ((mem_missing halike).mpr ⟨hp, hin⟩)

end Sync

/-- Whatever was watched, the watches are those of the new tops, if no path comes back in another
spelling. -/
theorem InLine.sync (h : w.InLine t)
    (halike : ∀ p ∈ wanted t, ∀ q ∈ wanted t', p.same q = true → p = q) :
    (w.sync t').InLine t' := by
  rw [← h.watched] at halike
  have hsorted : (wanted t').Sorted := PathSet.sorted_ofList _
  have hwatched := watched_sync halike (h.watched ▸ PathSet.sorted_ofList _)
  have hkept : ∀ p, p ∈ (w.watched.filter (!(wanted t').contains ·)).foldl giveUp w.active ↔
      p ∈ w.watched ∧ p ∈ wanted t' := by
    intro p
    rw [mem_foldl_giveUp, h.active]
    exact and_congr_right (contains_stale halike)
  refine ⟨hwatched, fun p => ?_, ?_⟩
  · rw [hwatched, active_sync, List.mem_append, hkept, mem_missing halike]
    by_cases hp : p ∈ w.watched <;> simp [hp]
  · rw [active_sync, List.map_append, List.nodup_append]
    refine ⟨h.once.sublist ((foldl_giveUp_sublist _ _).map _),
      (hsorted.sublist List.filter_sublist).nodup_components, ?_⟩
    -- What is watched anew is wanted and was not watched, so it is not among what was kept.
    intro c hc c' hc' heq
    obtain ⟨p, hp, rfl⟩ := List.mem_map.mp hc
    obtain ⟨q, hq, rfl⟩ := List.mem_map.mp hc'
    obtain ⟨hwas, hp⟩ := (hkept p).mp hp
    obtain ⟨hq, hnot⟩ := (mem_missing halike).mp hq
    exact hnot (hsorted.eq_of_same hp hq (Path.same_iff.mpr heq) ▸ hwas)

end Watch

namespace Observer

inductive Request where
  | register (w : WorktreeId) (path : Path) (tier : ActivityTier)
  | unregister (w : WorktreeId)
  | setTier (w : WorktreeId) (tier : ActivityTier)
  | setFocused (w : Option WorktreeId)
  | ingest (paths : List Path) (now : Nat)
  | reconcile (reason : ReconcileReason)
  | flushDue (now : Nat)
  | answer (look : Path → Option StatusReport) (now : Nat)

def handle (o : Observer) : Request → Observer
  | .register w path tier => (o.register w path tier).toOption.getD o
  | .unregister w => (o.unregister w).toOption.getD o
  | .setTier w tier => (o.setTier w tier).toOption.getD o
  | .setFocused w => o.setFocused w
  | .ingest paths now => o.ingest paths now
  | .reconcile reason => o.reconcile reason
  | .flushDue now => (o.flushDue now).1
  | .answer look now => (o.answer look now).1

def handleAll (o : Observer) (requests : List Request) : Observer := requests.foldl handle o

variable {o o' : Observer} {w : WorktreeId} {path : Path} {tier : ActivityTier}

structure Watchful (o : Observer) : Prop where
  sound : o.source.table.Sound
  inLine : o.watch.InLine o.source.table

theorem watchful_create (config : Config) : (create config).Watchful where
  sound := RootTable.sound_create _
  inLine := ⟨rfl, fun _ => Iff.rfl, List.nodup_nil⟩

theorem Watchful.sync (h : o.Watchful) (c : RootTable.Call)
    (ht : o'.source.table = o.source.table.perform c)
    (hw : o'.watch = o.watch.sync o'.source.table) : o'.Watchful := by
  have hsound : o'.source.table.Sound := ht ▸ h.sound.perform c
  refine ⟨hsound, hw ▸ h.inLine.sync fun p hp q hq hs => ?_⟩
  rw [Watch.mem_wanted h.sound] at hp
  rw [Watch.mem_wanted hsound, ht] at hq
  exact h.sound.eq_of_same_perform c hp.1 hq.1 hs

theorem Watchful.register (h : o.Watchful) (hr : o.register w path tier = .ok o') :
    o'.Watchful := by
  cases hs : o.source.register w path tier with
  | error e => simp [Observer.register, hs, bind, Except.bind] at hr
  | ok out =>
    obtain ⟨table, hi, hb⟩ := FsSource.register_cases hs
    have hstanding := (o.source.entered table w).standing_beginProbe w .wake
    simp only [Observer.register, hs, bind, Except.bind, Except.ok.injEq] at hr
    subst hr
    rw [hb] at hstanding
    refine h.sync (.insert w path tier) ?_ rfl
    rw [RootTable.perform, hi]
    exact congrArg Prod.fst hstanding

theorem Watchful.unregister (h : o.Watchful) (hu : o.unregister w = .ok o') : o'.Watchful := by
  cases hs : o.source.unregister w with
  | error e => simp [Observer.unregister, hs, bind, Except.bind] at hu
  | ok out =>
    obtain ⟨table, root, hr, -, hout⟩ := FsSource.unregister_cases hs
    simp only [Observer.unregister, hs, bind, Except.bind, Except.ok.injEq] at hu
    subst hu
    refine h.sync (.remove w) ?_ rfl
    rw [RootTable.perform, hr, hout]
    rfl

theorem Watchful.setTier (h : o.Watchful) (ht : o.setTier w tier = .ok o') : o'.Watchful := by
  cases hs : o.source.setTier w tier with
  | error e => simp [Observer.setTier, hs, bind, Except.bind] at ht
  | ok source =>
    obtain ⟨table, hi, rfl⟩ := FsSource.setTier_cases hs
    simp only [Observer.setTier, hs, bind, Except.bind, Except.ok.injEq] at ht
    subst ht
    have hsound := h.sound.setTier hi
    refine ⟨hsound, ?_, h.inLine.active, h.inLine.once⟩
    refine h.inLine.watched.trans ((PathSet.sorted_ofList _).eq_of_mem_iff
      (PathSet.sorted_ofList _) fun p => ?_)
    exact (Watch.mem_wanted h.sound).trans
      ((h.sound.isTop_setTier hi).symm.trans (Watch.mem_wanted hsound).symm)

theorem Watchful.of_standing (h : o.Watchful) (hs : o'.source.standing = o.source.standing)
    (hw : o'.watch = o.watch) : o'.Watchful := by
  have ht : o'.source.table = o.source.table := congrArg Prod.fst hs
  exact ⟨ht ▸ h.sound, by rw [ht, hw]; exact h.inLine⟩

theorem Watchful.getD {out : Except RootError Observer} (h : o.Watchful)
    (hout : ∀ o', out = .ok o' → o'.Watchful) : (out.toOption.getD o).Watchful := by
  cases out with
  | error e => exact h
  | ok o' => exact hout o' rfl

theorem Watchful.handle (h : o.Watchful) (r : Request) : (o.handle r).Watchful := by
  cases r with
  | register w path tier => exact h.getD fun o' => h.register
  | unregister w => exact h.getD fun o' => h.unregister
  | setTier w tier => exact h.getD fun o' => h.setTier
  | setFocused w => exact ⟨h.sound, h.inLine⟩
  | ingest paths now => exact h.of_standing (o.standing_ingest paths now) rfl
  | reconcile reason => exact h.of_standing (o.standing_reconcile reason) rfl
  | flushDue now => exact h.of_standing (o.standing_flushDue now) rfl
  | answer look now =>
    refine h.of_standing (o.standing_answer look now) ?_
    simp only [Observer.handle, Observer.answer]
    cases o.probes <;> rfl

theorem Watchful.handleAll (h : o.Watchful) (requests : List Request) :
    (o.handleAll requests).Watchful := by
  induction requests generalizing o with
  | nil => exact h
  | cons r rest ih => exact ih (h.handle r)

/-- Whatever is asked, the watched paths are those of the roots that no other root lies around. Each
is watched once, as the observer itself knows, none is watched above another, and every root lies at
or below exactly one of them. -/
theorem watches_are_the_top_roots (config : Config) (requests : List Request) :
    let o := (create config).handleAll requests
    let t := o.source.table
    (o.watch.active.map Path.components).Nodup ∧
      (∀ p, p ∈ o.watch.active ↔ t.IsTop p) ∧
      o.watch.watched.Sorted ∧
      (∀ p, p ∈ o.watch.watched ↔ p ∈ o.watch.active) ∧
      (∀ p ∈ o.watch.active, ∀ q ∈ o.watch.active,
        p.key t.foldCase <+: q.key t.foldCase → p = q) ∧
      ∀ r ∈ t.list, ∃! p, p ∈ o.watch.active ∧ p.key t.foldCase <+: r.path.key t.foldCase := by
  intro o t
  obtain ⟨hsound, hline⟩ := (watchful_create config).handleAll requests
  have htop : ∀ p, p ∈ o.watch.active ↔ t.IsTop p := by
    intro p
    rw [hline.active, hline.watched]
    exact Watch.mem_wanted hsound
  refine ⟨hline.once, htop, hline.watched ▸ PathSet.sorted_ofList _,
    fun p => (hline.active p).symm, ?_, ?_⟩
  · intro p hp q hq hpre
    exact hsound.top_eq_of_prefix ((htop p).mp hp) ((htop q).mp hq) hpre
  · intro r hr
    obtain ⟨p, hp, habove⟩ := RootTable.exists_top (RootTable.mem_paths.mpr ⟨r, hr, rfl⟩)
    refine ⟨p, ⟨(htop p).mpr hp, habove⟩, fun q ⟨hq, hq'⟩ => ?_⟩
    exact hsound.top_unique ((htop q).mp hq) hp hq' habove

example :
    let asked : List Request := [.register ⟨"W1"⟩ ⟨"/a/b"⟩ .sidebarOnly,
      .register ⟨"W2"⟩ ⟨"/a/c"⟩ .sidebarOnly, .register ⟨"W3"⟩ ⟨"/a"⟩ .sidebarOnly]
    let o := (create .standard).handleAll asked
    o.watch.active = [⟨"/a"⟩] ∧
      (o.handle (.unregister ⟨"W3"⟩)).watch.active = [⟨"/a/b"⟩, ⟨"/a/c"⟩] := by
  decide +kernel

end Observer

end Switchboard
