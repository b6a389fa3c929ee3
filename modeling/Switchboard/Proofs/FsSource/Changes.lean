import Switchboard.Proofs.FsSource.Invariants
import Switchboard.Proofs.Path.Absolute

/-!
# From noticed paths to told changes

A noticed path is a change of the deepest registered root above the place where it leads. The
changes of a root wait until they are flushed; then each of them is told once, in order, however the
notices came in.
-/
namespace Switchboard

open Mirror (Step perform)

def changesets (es : List Envelope) : List Changeset := es.filterMap (·.event.changeset?)

def changes (es : List Envelope) : List (WorktreeId × Path) :=
  (changesets es).flatMap fun c => c.paths.map (c.worktree, ·)

def changedPaths (w : WorktreeId) (es : List Envelope) : List Path :=
  ((changes es).filter (·.1 = w)).map (·.2)

section Told

variable (es es' : List Envelope) (w : WorktreeId)

@[simp] theorem changes_nil : changes [] = [] := rfl

theorem changes_append : changes (es ++ es') = changes es ++ changes es' := by
  simp [changes, changesets]

theorem changedPaths_append :
    changedPaths w (es ++ es') = changedPaths w es ++ changedPaths w es' := by
  simp [changedPaths, changes_append]

theorem mem_changedPaths {rel : Path} : rel ∈ changedPaths w es ↔ (w, rel) ∈ changes es := by
  simp [changedPaths]

end Told

theorem nodup_of_nodup_filter {α β : Type} [DecidableEq α] {l : List (α × β)}
    (h : ∀ a, ((l.filter (·.1 = a)).map (·.2)).Nodup) : l.Nodup := by
  induction l with
  | nil => exact .nil
  | cons x l ih =>
    refine List.nodup_cons.mpr ⟨fun hx => ?_, ih fun a => ?_⟩
    · have := h x.1
      rw [List.filter_cons_of_pos (by simp), List.map_cons, List.nodup_cons] at this
      exact this.1 (List.mem_map.mpr ⟨x, List.mem_filter.mpr ⟨hx, by simp⟩, rfl⟩)
    · exact (h a).sublist (((List.sublist_cons_self x l).filter _).map _)

namespace FsSource

theorem changesets_emitAll (s : FsSource) (w : WorktreeId) (now : Nat)
    (events : List FilesystemEvent) : changesets (s.emitAll w now events).2 =
      events.filterMap fun event => Event.changeset? (.filesystem event) := by
  induction events generalizing s with
  | nil => rfl
  | cons event rest ih =>
    have hes : changesets (s.emitAll w now (event :: rest)).2 =
        (Event.changeset? (.filesystem event)).toList ++
          changesets ((s.emit w now event).1.emitAll w now rest).2 := by
      rw [emitAll_cons, changesets, List.filterMap_cons]
      cases event <;> rfl
    rw [hes, ih, List.filterMap_cons]
    cases Event.changeset? (.filesystem event) <;> rfl

theorem changes_emitAll (s : FsSource) (w : WorktreeId) (now : Nat) {css : List Changeset}
    {more : List FilesystemEvent} (h : ∀ cs ∈ css, cs.worktree = w)
    (hm : ∀ event ∈ more, Event.changeset? (.filesystem event) = none) :
    changes (s.emitAll w now (css.map .filesChanged ++ more)).2 =
      (css.flatMap (·.paths)).map (w, ·) := by
  have hcss : changesets (s.emitAll w now (css.map .filesChanged ++ more)).2 = css := by
    rw [changesets_emitAll, List.filterMap_append, List.filterMap_map,
      List.filterMap_eq_nil_iff.mpr hm, List.append_nil]
    exact List.filterMap_some
  rw [changes, hcss, List.map_flatMap]
  exact List.flatMap_congr fun cs hcs => by rw [h cs hcs]

section Flushing

variable {s : FsSource}

theorem changes_flushRoot (h : s.Sound) (w : WorktreeId) (now : Nat) :
    changes (s.flushRoot w now).2.envelopes = (s.batcher.waiting w).map (w, ·) := by
  cases hb : s.batcher.pending? w with
  | none =>
    rw [flushRoot_of_not_pending hb, s.batcher.waiting_of_not_pending w hb]
    rfl
  | some batch =>
    obtain ⟨root, ht⟩ := root_of_pending? (h.owned w) hb
    rw [flushRoot_of_pending hb ht, s.batcher.waiting_of_pending? w hb]
    dsimp only
    rw [← List.append_nil (List.map _ _),
      changes_emitAll _ _ _ (Batcher.worktree_changesets _ _ _ _) (by simp),
      Batcher.flatMap_changesets (s.batcher.drop w) _ _ _ h.parts]

theorem changedPaths_flushRoot (h : s.Sound) (w : WorktreeId) (now : Nat) (u : WorktreeId) :
    changedPaths u (s.flushRoot w now).2.envelopes =
      if w = u then s.batcher.waiting u else [] := by
  rw [changedPaths, changes_flushRoot h]
  by_cases hu : w = u <;> simp [List.filter_map, Function.comp_def, hu]

theorem waiting_flushRoot (h : s.Sound) (w : WorktreeId) (now : Nat) (u : WorktreeId) :
    (s.flushRoot w now).1.batcher.waiting u = if w = u then [] else s.batcher.waiting u := by
  rw [Batcher.waiting, pending?_flushRoot h.consistent (h.owned w)]
  by_cases hu : w = u <;> simp [hu, Batcher.waiting]

theorem told_flushRoot (h : s.Sound) (w : WorktreeId) (now : Nat) (u : WorktreeId) :
    changedPaths u (s.flushRoot w now).2.envelopes ++ (s.flushRoot w now).1.batcher.waiting u =
      s.batcher.waiting u := by
  rw [changedPaths_flushRoot h, waiting_flushRoot h]
  by_cases hu : w = u <;> simp [hu]

theorem told_flushRoots (h : s.Sound) (now : Nat) (ws : List WorktreeId) (u : WorktreeId) :
    changedPaths u (s.flushRoots now ws).2.envelopes ++ (s.flushRoots now ws).1.batcher.waiting u =
      s.batcher.waiting u := by
  induction ws generalizing s with
  | nil => rfl
  | cons w rest ih =>
    have hsound : (s.flushRoot w now).1.Sound := h.perform (.flushRoot w now)
    have hes : (s.flushRoots now (w :: rest)).2.envelopes = (s.flushRoot w now).2.envelopes ++
        ((s.flushRoot w now).1.flushRoots now rest).2.envelopes := rfl
    rw [hes, changedPaths_append, List.append_assoc]
    calc changedPaths u (s.flushRoot w now).2.envelopes ++ _
      _ = changedPaths u (s.flushRoot w now).2.envelopes ++
          (s.flushRoot w now).1.batcher.waiting u := congrArg _ (ih hsound)
      _ = s.batcher.waiting u := told_flushRoot h w now u

end Flushing

end FsSource

namespace Mirror

def Step.IsFlush : Step → Prop
  | .flushRoot .. | .flushDue .. => True
  | _ => False

end Mirror

namespace FsSource

theorem told_flush {s : FsSource} (h : s.Sound) {x : Step} (hx : x.IsFlush) (u : WorktreeId) :
    changedPaths u (perform s x).2 ++ (perform s x).1.batcher.waiting u = s.batcher.waiting u := by
  cases x with
  | flushRoot w now => exact told_flushRoot h w now u
  | flushDue now => exact told_flushRoots h now _ u
  | _ => cases hx

theorem told_flushes {s : FsSource} (h : s.Sound) {flushes : List Step}
    (hx : ∀ x ∈ flushes, x.IsFlush) (u : WorktreeId) :
    changedPaths u (s.told flushes) ++ (s.after flushes).batcher.waiting u =
      s.batcher.waiting u := by
  induction flushes generalizing s with
  | nil => rfl
  | cons x rest ih =>
    obtain ⟨hx, hrest⟩ := List.forall_mem_cons.mp hx
    rw [told, changedPaths_append, List.append_assoc]
    exact (congrArg _ (ih (h.perform x) hrest)).trans (told_flush h hx u)

def Route.changed? (w : WorktreeId) : Route → Option Path
  | .changed u rel => if u = w then some rel else none
  | _ => none

theorem Route.changed?_eq_some {w : WorktreeId} {rel : Path} {r : Route} :
    r.changed? w = some rel ↔ r = .changed w rel := by
  cases r with
  | changed u rel' => by_cases hu : u = w <;> simp [Route.changed?, hu]
  | _ => simp [Route.changed?]

section Noticing

variable (s : FsSource) (now : Nat) (w : WorktreeId)

theorem waiting_note (r : Route) :
    (s.note now r).batcher.waiting w =
      ((r.changed? w).toList).foldl (fun set rel => set.insert rel) (s.batcher.waiting w) := by
  cases r with
  | unowned => rfl
  | statusOnly u => exact s.batcher.waiting_noteStatus u w now
  | changed u rel =>
    rw [note, Batcher.waiting_notePath, Route.changed?]
    by_cases hu : u = w <;> simp [hu]

theorem waiting_notes (routes : List Route) :
    (routes.foldl (note · now) s).batcher.waiting w =
      (s.batcher.waiting w).insertAll (routes.filterMap (·.changed? w)) := by
  induction routes generalizing s with
  | nil => rfl
  | cons r rest ih =>
    rw [List.foldl_cons, ih, waiting_note, List.filterMap_cons]
    cases r.changed? w <;> rfl

theorem waiting_ingest (raws : List Path) :
    (s.ingest raws now).1.batcher.waiting w =
      (s.batcher.waiting w).insertAll (raws.filterMap fun raw => (s.route raw).changed? w) := by
  rw [ingest, waiting_notes, List.filterMap_map]
  rfl

theorem count_ingest (raws : List Path) :
    (s.ingest raws now).2.routed + (s.ingest raws now).2.statusOnly +
      (s.ingest raws now).2.unowned = raws.length := by
  have h : ∀ (routes : List Route) (stats : IngestStats),
      let sum := routes.foldl IngestStats.count stats
      sum.routed + sum.statusOnly + sum.unowned =
        stats.routed + stats.statusOnly + stats.unowned + routes.length := by
    intro routes
    induction routes with
    | nil => intro stats; rfl
    | cons r rest ih =>
      intro stats
      rw [List.foldl_cons, List.length_cons]
      have := ih (IngestStats.count stats r)
      cases r <;> simp only [IngestStats.count] at * <;> omega
  simpa [ingest] using h (raws.map s.route) ⟨0, 0, 0⟩

end Noticing

theorem route_congr {s s' : FsSource} (h : Keeps s s') : s'.route = s.route := by
  have hi : s'.isIgnored = s.isIgnored := by
    funext rel
    rw [isIgnored, isIgnored, h.ignoreDirs]
  funext raw
  rw [route, route, h.table, hi]

def ingests (feeds : List (List Path × Nat)) : List Step :=
  feeds.map fun feed => .ingest feed.1 feed.2

theorem told_ingests (s : FsSource) (feeds : List (List Path × Nat)) :
    s.told (ingests feeds) = [] := by
  induction feeds generalizing s with
  | nil => rfl
  | cons feed rest ih => exact ih (s.ingest feed.1 feed.2).1

theorem waiting_ingests {s : FsSource} (h : s.Sound) (feeds : List (List Path × Nat))
    (w : WorktreeId) : (s.after (ingests feeds)).batcher.waiting w =
      (s.batcher.waiting w).insertAll
        ((feeds.flatMap (·.1)).filterMap fun raw => (s.route raw).changed? w) := by
  induction feeds generalizing s with
  | nil => rfl
  | cons feed rest ih =>
    have hk := keeps_ingest h.table feed.1 feed.2
    have hcons : s.after (ingests (feed :: rest)) =
        (s.ingest feed.1 feed.2).1.after (ingests rest) := rfl
    have hsound : (s.ingest feed.1 feed.2).1.Sound := h.perform (.ingest feed.1 feed.2)
    rw [hcons, ih hsound, waiting_ingest, route_congr hk,
      List.flatMap_cons, List.filterMap_append, PathSet.insertAll_append]

end FsSource

def Root.Holds (foldCase : Bool) (r : Root) (names : List RawText) : Prop :=
  Path.folded foldCase r.path.place <+: Path.folded foldCase names

namespace FsSource

/-- The root is the deepest one that holds the place, and the names lead there from the root. -/
def Owns (s : FsSource) (w : WorktreeId) (place names : List RawText) : Prop :=
  ∃ r ∈ s.table.list, r.worktree = w ∧ r.Holds s.table.foldCase place ∧
    (∀ r' ∈ s.table.list, r'.Holds s.table.foldCase place →
      r'.path.place.length ≤ r.path.place.length) ∧
    names = place.drop r.path.place.length

/-- The path leads strictly below the root that owns its place, past no ignored name. -/
def Changed (s : FsSource) (raw : Path) (w : WorktreeId) (rel : Path) : Prop :=
  ∃ names, s.Owns w raw.place names ∧ names ≠ [] ∧ (∀ n ∈ names, n.lossy ∉ s.ignoreDirs) ∧
    rel = .along names

section Owners

variable {s : FsSource} {raw : Path}

theorem key_root (h : s.table.Sound) {r : Root} (hr : r ∈ s.table.list) (hc : r.path.Canonical) :
    r.key = Path.keyPart s.table.foldCase .root ::
      Path.folded s.table.foldCase r.path.place := by
  rw [h.keyed r hr, hc.key]

theorem holds_iff_key (h : s.table.Sound) {r : Root} (hr : r ∈ s.table.list)
    (hc : r.path.Canonical) (ha : raw.isAbsolute = true) :
    r.key <+: raw.normalize.key s.table.foldCase ↔ r.Holds s.table.foldCase raw.place := by
  rw [key_root h hr hc, Path.key_normalize ha, List.cons_prefix_cons, Root.Holds]
  exact and_iff_right rfl

theorem length_key (h : s.table.Sound) {r : Root} (hr : r ∈ s.table.list)
    (hc : r.path.Canonical) : r.key.length = r.path.place.length + 1 := by
  rw [key_root h hr hc, List.length_cons, Path.length_folded]

theorem ownerOf?_normalize (h : s.table.Sound) (hc : ∀ r ∈ s.table.list, r.path.Canonical)
    (ha : raw.isAbsolute = true) {r : Root} {rel : Path} :
    s.table.ownerOf? raw.normalize = some (r, rel) ↔
      (r ∈ s.table.list ∧ r.Holds s.table.foldCase raw.place ∧
        ∀ r' ∈ s.table.list, r'.Holds s.table.foldCase raw.place →
          r'.path.place.length ≤ r.path.place.length) ∧
      rel = .along (raw.place.drop r.path.place.length) := by
  rw [h.ownerOf?_eq_some_iff]
  constructor
  · rintro ⟨⟨hr, hpre, hmax⟩, rfl⟩
    refine ⟨⟨hr, (holds_iff_key h hr (hc r hr) ha).mp hpre, fun r' hr' hh => ?_⟩, ?_⟩
    · have := hmax r' hr' ((holds_iff_key h hr' (hc r' hr') ha).mpr hh)
      rw [length_key h hr (hc r hr), length_key h hr' (hc r' hr')] at this
      omega
    · rw [length_key h hr (hc r hr), Path.dropKey_normalize ha]
  · rintro ⟨⟨hr, hh, hmax⟩, rfl⟩
    refine ⟨⟨hr, (holds_iff_key h hr (hc r hr) ha).mpr hh, fun r' hr' hpre => ?_⟩, ?_⟩
    · have := hmax r' hr' ((holds_iff_key h hr' (hc r' hr') ha).mp hpre)
      rw [length_key h hr (hc r hr), length_key h hr' (hc r' hr')]
      omega
    · rw [length_key h hr (hc r hr), Path.dropKey_normalize ha]

/-- A path is noticed as a change exactly where it is one. -/
theorem route_eq_changed_iff (h : s.table.Sound) (hc : ∀ r ∈ s.table.list, r.path.Canonical)
    (ha : raw.isAbsolute = true) {w : WorktreeId} {rel : Path} :
    s.route raw = .changed w rel ↔ s.Changed raw w rel := by
  have hparts : ∀ count, ∀ n ∈ raw.place.drop count, Path.IsPart (.name n) :=
    fun count n hn => Path.isPart_of_mem_place ha (List.drop_subset _ _ hn)
  have hdirs : ∀ count, s.isIgnored (.along (raw.place.drop count)) = false ↔
      ∀ n ∈ raw.place.drop count, n.lossy ∉ s.ignoreDirs := by
    intro count
    rw [← Bool.not_eq_true, isIgnored, Path.any_components_along (hparts count)]
    simp
  have hempty : ∀ count, (Path.along (raw.place.drop count)).text.isEmpty = false ↔
      raw.place.drop count ≠ [] := by
    intro count
    rw [← Bool.not_eq_true, Path.isEmpty_text_along (hparts count)]
  constructor
  · intro hroute
    simp only [route] at hroute
    cases ho : s.table.ownerOf? raw.normalize with
    | none => simp [ho] at hroute
    | some owner =>
      obtain ⟨r, rel'⟩ := owner
      obtain ⟨⟨hr, hh, hmax⟩, rfl⟩ := (ownerOf?_normalize h hc ha).mp ho
      rw [ho] at hroute
      dsimp only at hroute
      split at hroute
      · cases hroute
      · next hn =>
        rw [Bool.or_eq_true, not_or, Bool.not_eq_true, Bool.not_eq_true] at hn
        cases hroute
        exact ⟨_, ⟨r, hr, rfl, hh, hmax, rfl⟩, (hempty _).mp hn.1, (hdirs _).mp hn.2, rfl⟩
  · rintro ⟨_, ⟨r, hr, rfl, hh, hmax, rfl⟩, hne, hign, rfl⟩
    have ho := (ownerOf?_normalize h hc ha).mpr ⟨⟨hr, hh, hmax⟩, rfl⟩
    simp only [route, ho, (hempty _).mpr hne, (hdirs _).mpr hign, Bool.or_self]
    rfl

theorem Changed.eq_of_same {raw raw' : Path} {w : WorktreeId} {p q : Path}
    (ha : raw.isAbsolute = true) (ha' : raw'.isAbsolute = true) (hp : s.Changed raw w p)
    (hq : s.Changed raw' w q) (hs : p.same q = true) : p = q := by
  obtain ⟨_, ⟨r, -, -, -, -, rfl⟩, -, -, rfl⟩ := hp
  obtain ⟨_, ⟨r', -, -, -, -, rfl⟩, -, -, rfl⟩ := hq
  have hparts : ∀ {raw : Path}, raw.isAbsolute = true → ∀ count, ∀ n ∈ raw.place.drop count,
      Path.IsPart (.name n) :=
    fun ha count n hn => Path.isPart_of_mem_place ha (List.drop_subset _ _ hn)
  have hc := Path.same_iff.mp hs
  rw [Path.components_along (hparts ha _), Path.components_along (hparts ha' _)] at hc
  exact congrArg Path.ofComponents hc

end Owners

/-- The paths come in, in parts and in any order, and then everything that waits is flushed. -/
structure Delivers (s : FsSource) (paths : List Path) (feeds : List (List Path × Nat))
    (flushes : List Step) : Prop where
  split : (feeds.flatMap (·.1)).Perm paths
  flush : ∀ x ∈ flushes, x.IsFlush
  nothing : ∀ w, (s.after (ingests feeds ++ flushes)).batcher.hasPending w = false

section Delivers

variable {s : FsSource} {paths : List Path} {feeds : List (List Path × Nat)} {flushes : List Step}

theorem Delivers.changedPaths (hd : s.Delivers paths feeds flushes) (h : s.Sound)
    (hp : ∀ w, s.batcher.hasPending w = false) (w : WorktreeId) :
    changedPaths w (s.told (ingests feeds ++ flushes)) =
      PathSet.insertAll []
        ((feeds.flatMap (·.1)).filterMap fun raw => (s.route raw).changed? w) := by
  have hnone : ∀ {s' : FsSource}, s'.batcher.hasPending w = false → s'.batcher.waiting w = [] :=
    fun hs => Batcher.waiting_of_not_pending _ _ (by simpa [Batcher.hasPending] using hs)
  have hflush := told_flushes (h.after (ingests feeds)) hd.flush w
  have hlast := hd.nothing w
  rw [after_append] at hlast
  rw [hnone hlast, List.append_nil, waiting_ingests h, hnone (hp w)] at hflush
  rw [told_append, told_ingests, List.nil_append, hflush]

theorem mem_insertAll_changed (h : s.table.Sound) (hc : ∀ r ∈ s.table.list, r.path.Canonical)
    {raws : List Path} (ha : ∀ raw ∈ raws, raw.isAbsolute = true) {w : WorktreeId} {rel : Path} :
    rel ∈ PathSet.insertAll [] (raws.filterMap fun raw => (s.route raw).changed? w) ↔
      ∃ raw ∈ raws, s.Changed raw w rel := by
  have hmem : ∀ p, p ∈ (raws.filterMap fun raw => (s.route raw).changed? w) ↔
      ∃ raw ∈ raws, s.Changed raw w p := by
    intro p
    rw [List.mem_filterMap]
    refine exists_congr fun raw => and_congr_right fun hraw => ?_
    rw [Route.changed?_eq_some, route_eq_changed_iff h hc (ha raw hraw)]
  rw [PathSet.mem_insertAll_iff]
  · simp [hmem]
  · intro p q hp hq hs
    obtain ⟨raw, hraw, hp⟩ := (hmem p).mp (hp.resolve_left List.not_mem_nil)
    obtain ⟨raw', hraw', hq⟩ := (hmem q).mp (hq.resolve_left List.not_mem_nil)
    exact hp.eq_of_same (ha raw hraw) (ha raw' hraw') hq hs

end Delivers

/-- Paths that come in while nothing is pending are told exactly as the changes they are: a path of
a root is told if one of them leads there, once among everything that is told, and for each root in
an order that does not depend on how they came in. Each notice is counted once. -/
theorem told_once_each {config : FsConfig} {epoch : Nat} {steps : List Step}
    (hc : ∀ r ∈ ((create config epoch).after steps).table.list, r.path.Canonical)
    (hp : ∀ w, ((create config epoch).after steps).batcher.hasPending w = false)
    {paths : List Path} (ha : ∀ raw ∈ paths, raw.isAbsolute = true)
    {feeds : List (List Path × Nat)} {flushes : List Step}
    (hd : ((create config epoch).after steps).Delivers paths feeds flushes) :
    let s := (create config epoch).after steps
    let told := s.told (ingests feeds ++ flushes)
    (∀ w rel, (w, rel) ∈ changes told ↔ ∃ raw ∈ paths, s.Changed raw w rel) ∧
      ((changes told).map fun c => (c.1, c.2.components)).Nodup ∧
      (∀ feeds' flushes', s.Delivers paths feeds' flushes' → ∀ w,
        changedPaths w (s.told (ingests feeds' ++ flushes')) = changedPaths w told) ∧
      ∀ front raws now rest, feeds = front ++ (raws, now) :: rest →
        let stats := ((s.after (ingests front)).ingest raws now).2
        stats.routed + stats.statusOnly + stats.unowned = raws.length := by
  intro s told
  have hs : s.Sound := (sound_create config epoch).after steps
  have hmem : ∀ {feeds flushes}, s.Delivers paths feeds flushes → ∀ w rel,
      rel ∈ changedPaths w (s.told (ingests feeds ++ flushes)) ↔
        ∃ raw ∈ paths, s.Changed raw w rel := by
    intro feeds flushes hd w rel
    rw [hd.changedPaths hs hp, mem_insertAll_changed hs.table hc fun raw hraw =>
      ha raw (hd.split.mem_iff.mp hraw)]
    simp only [hd.split.mem_iff]
  have hsorted : ∀ {feeds flushes}, s.Delivers paths feeds flushes → ∀ w,
      PathSet.Sorted (changedPaths w (s.told (ingests feeds ++ flushes))) := by
    intro feeds flushes hd w
    rw [hd.changedPaths hs hp]
    exact PathSet.Sorted.insertAll .nil
  refine ⟨fun w rel => ?_, ?_, fun feeds' flushes' hd' w => ?_, fun _ raws now _ _ => ?_⟩
  · rw [← mem_changedPaths, hmem hd]
  · refine nodup_of_nodup_filter fun w => ?_
    have hw := (hsorted hd w).nodup_components
    rw [changedPaths, List.map_map] at hw
    rw [List.filter_map, List.map_map]
    exact hw
  · exact (hsorted hd' w).eq_of_mem_iff (hsorted hd w) fun rel => by rw [hmem hd', hmem hd]
  · exact count_ingest _ now raws

def nestedRoots : List Step :=
  [.register ⟨"W1"⟩ ⟨"/repo"⟩ .activeInApp, .register ⟨"W2"⟩ ⟨"/repo/sub"⟩ .sidebarOnly]

def noticed : List Path :=
  [⟨"/repo/sub/../a.txt"⟩, ⟨"/repo/sub/b.txt"⟩, ⟨"/repo/.git/HEAD"⟩, ⟨"/repo//a.txt"⟩, ⟨"/repo"⟩]

theorem told_once_each_nested :
    let s := (create ⟨.standard, false, [".git"]⟩ 0).after nestedRoots
    let feeds := [(noticed.drop 2, 1), (noticed.take 2, 2)]
    let flushes : List Step := [.flushRoot ⟨"W2"⟩ 3, .flushRoot ⟨"W1"⟩ 3]
    (∀ r ∈ s.table.list, r.path.Canonical) ∧
      (∀ w, s.batcher.hasPending w = false) ∧ (∀ raw ∈ noticed, raw.isAbsolute = true) ∧
      s.Delivers noticed feeds flushes ∧
      changes (s.told (ingests feeds ++ flushes)) = [(⟨"W2"⟩, ⟨"b.txt"⟩), (⟨"W1"⟩, ⟨"a.txt"⟩)] ∧
      (∃ raw ∈ noticed, s.Changed raw ⟨"W2"⟩ ⟨"b.txt"⟩) ∧
      ∀ feeds' flushes', s.Delivers noticed feeds' flushes' → ∀ w,
        changedPaths w (s.told (ingests feeds' ++ flushes')) =
          changedPaths w (s.told (ingests feeds ++ flushes)) := by
  intro s feeds flushes
  have hc : ∀ r ∈ s.table.list, r.path.Canonical := by
    have hlist : s.table.list.map (·.path) = [⟨"/repo"⟩, ⟨"/repo/sub"⟩] := by decide +kernel
    intro r hr
    have hpath : r.path ∈ s.table.list.map (·.path) := List.mem_map.mpr ⟨r, hr, rfl⟩
    rw [hlist, List.mem_cons, List.mem_singleton] at hpath
    rcases hpath with hpath | hpath <;> rw [hpath]
    · exact ⟨["repo"], by decide +kernel⟩
    · exact ⟨["repo", "sub"], by decide +kernel⟩
  have hstart : s.batcher.pending = [] := by decide +kernel
  have hp : ∀ w, s.batcher.hasPending w = false := fun w => by
    rw [Batcher.hasPending, Batcher.pending?, hstart]
    rfl
  have hend : (s.after (ingests feeds ++ flushes)).batcher.pending = [] := by decide +kernel
  have ha : ∀ raw ∈ noticed, raw.isAbsolute = true := by decide +kernel
  have hd : s.Delivers noticed feeds flushes := by
    refine ⟨by decide +kernel, ?_, fun w => ?_⟩
    · simp [flushes, Step.IsFlush]
    · rw [Batcher.hasPending, Batcher.pending?, hend]
      rfl
  have htold : changes (s.told (ingests feeds ++ flushes)) =
      [(⟨"W2"⟩, ⟨"b.txt"⟩), (⟨"W1"⟩, ⟨"a.txt"⟩)] := by decide +kernel
  obtain ⟨hiff, -, hsame, -⟩ := told_once_each hc hp ha hd
  exact ⟨hc, hp, ha, hd, htold, (hiff _ _).mp (by rw [htold]; simp), hsame⟩

end FsSource

end Switchboard
