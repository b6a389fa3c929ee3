import Switchboard.Proofs.FsSource.Invariants

/-!
# Requests and their answers

The requests that the source issued and that were not answered yet are under way. Whoever runs the
probes answers each of them once at most, in any order. Of the requests of a root under its present
number at most one is under way, and the state of the root says so. What was asked for meanwhile
is issued as one request when the answer comes, under the reason that counts most.
-/
namespace Switchboard

open Mirror (Step perform)

/-- A request that is under way, and what was asked for its root since it was issued. -/
structure Unanswered where
  request : ProbeRequest
  since : List ReconcileReason
  deriving DecidableEq

structure Exchange where
  source : FsSource
  unanswered : List Unanswered

def reasonsFor (w : WorktreeId) (asks : List (WorktreeId × ReconcileReason)) :
    List ReconcileReason :=
  (asks.filter (·.1 = w)).map (·.2)

theorem reasonsFor_append (w : WorktreeId) (asks more : List (WorktreeId × ReconcileReason)) :
    reasonsFor w (asks ++ more) = reasonsFor w asks ++ reasonsFor w more := by
  simp [reasonsFor]

def merged (reasons : List ReconcileReason) : Option ReconcileReason :=
  reasons.foldl (fun waiting reason => some (.queue waiting reason)) none

theorem merged_concat (reasons : List ReconcileReason) (reason : ReconcileReason) :
    merged (reasons ++ [reason]) = some (.queue (merged reasons) reason) := by
  simp [merged]

theorem precedence_queue (waiting reason : ReconcileReason) :
    (ReconcileReason.queue (some waiting) reason).precedence =
      max waiting.precedence reason.precedence := by
  simp only [ReconcileReason.queue]
  split <;> omega

theorem precedence_merged (reasons : List ReconcileReason) :
    (merged reasons).map (·.precedence) = (reasons.map (·.precedence)).max? := by
  have h : ∀ (rest : List ReconcileReason) (r : ReconcileReason),
      (rest.foldl (fun waiting reason => some (ReconcileReason.queue waiting reason))
        (some r)).map (·.precedence) =
        some ((rest.map (·.precedence)).foldl max r.precedence) := by
    intro rest
    induction rest with
    | nil => intro r; rfl
    | cons q rest ih =>
      intro r
      rw [List.foldl_cons, ih, precedence_queue, List.map_cons, List.foldl_cons]
  cases reasons with
  | nil => rfl
  | cons r rest => exact h rest r

namespace FsSource

def asks (s : FsSource) : Step → List (WorktreeId × ReconcileReason)
  | .register w path tier =>
    match s.register w path tier with
    | .ok _ => [(w, .wake)]
    | .error _ => []
  | .flushRoot w _ => if s.batcher.hasPending w then [(w, .flush)] else []
  | .flushDue now => (s.dueRoots now).map (·, .flush)
  | .request w reason => [(w, reason)]
  | .requestAll reason => (s.scheduled (s.table.list.map (·.worktree))).map (·, reason)
  | _ => []

inductive Felt (w : WorktreeId) :
    Option RootState → List ReconcileReason → List ProbeRequest → Option RootState → Prop
  | still (state : Option RootState) : Felt w state [] [] state
  | unknown (reasons : List ReconcileReason) : Felt w none reasons [] none
  | waits {state : RootState} (reason : ReconcileReason) (h : state.probing = true) :
    Felt w (some state) [reason] []
      (some { state with queued := some (.queue state.queued reason) })
  | starts {state : RootState} (path : Path) (reason : ReconcileReason)
      (h : state.probing = false) :
    Felt w (some state) [reason] [⟨w, path, state.generation, reason⟩]
      (some { state with probing := true })

namespace Felt

variable {w : WorktreeId} {a b c : Option RootState} {reasons more : List ReconcileReason}
variable {requests others : List ProbeRequest}

theorem of_nil (h : Felt w a [] requests b) : requests = [] ∧ b = a := by
  cases h <;> exact ⟨rfl, rfl⟩

theorem filter_generation {state : RootState} (h : Felt w (some state) reasons requests b) :
    requests.filter (·.generation = state.generation) = requests := by
  cases h <;> simp

theorem map_generation (h : Felt w a reasons requests b) :
    b.map (·.generation) = a.map (·.generation) := by
  cases h <;> rfl

theorem generation?_of_mem {r : ProbeRequest} (h : Felt w a reasons requests b)
    (hr : r ∈ requests) : b.map (·.generation) = some r.generation := by
  cases h with
  | starts path reason hp =>
    rw [List.mem_singleton] at hr
    rw [hr]
    rfl
  | _ => cases hr

theorem append (h : Felt w a reasons requests b) (h' : Felt w b more others c)
    (hd : reasons = [] ∨ more = []) : Felt w a (reasons ++ more) (requests ++ others) c := by
  rcases hd with rfl | rfl
  · obtain ⟨rfl, rfl⟩ := h.of_nil
    exact h'
  · obtain ⟨rfl, rfl⟩ := h'.of_nil
    simpa using h

end Felt

def requestsFor (w : WorktreeId) (requests : List ProbeRequest) : List ProbeRequest :=
  requests.filter (·.worktree = w)

theorem requestsFor_append (w : WorktreeId) (requests others : List ProbeRequest) :
    requestsFor w (requests ++ others) = requestsFor w requests ++ requestsFor w others :=
  List.filter_append _ _

section Asking

variable {s : FsSource}

theorem felt_beginProbe (hc : s.Consistent) (w : WorktreeId) (reason : ReconcileReason)
    (u : WorktreeId) : Felt u (s.state? u) (reasonsFor u [(w, reason)])
      (requestsFor u (s.beginProbe w reason).2.toList) ((s.beginProbe w reason).1.state? u) := by
  by_cases hu : w = u
  · subst hu
    have hr : reasonsFor w [(w, reason)] = [reason] := by simp [reasonsFor]
    cases hs : s.state? w with
    | none =>
      rw [beginProbe_of_no_state hs, hs]
      exact .unknown _
    | some state =>
      obtain ⟨root, -, hb⟩ := beginProbe_of_state hc hs reason
      rw [hb, state?_withState, if_pos rfl, hr]
      cases hp : state.probing with
      | true => simpa [requestsFor, RootState.asked, hp] using Felt.waits reason hp
      | false => simpa [requestsFor, RootState.asked, hp] using Felt.starts root.path reason hp
  · have hr : reasonsFor u [(w, reason)] = [] := by simp [reasonsFor, hu]
    have hq : requestsFor u (s.beginProbe w reason).2.toList = [] := by
      cases hs : s.state? w with
      | none => simp [beginProbe_of_no_state hs, requestsFor]
      | some state =>
        obtain ⟨root, -, hb⟩ := beginProbe_of_state hc hs reason
        rw [hb]
        cases state.probing <;> simp [requestsFor, hu]
    rw [hr, hq, state?_beginProbe hc, if_neg hu]
    exact .still _

theorem reasonsFor_eq_nil {u : WorktreeId} {ws : List WorktreeId} (h : u ∉ ws)
    (reason : ReconcileReason) : reasonsFor u (ws.map (·, reason)) = [] := by
  simp only [reasonsFor, List.map_eq_nil_iff, List.filter_eq_nil_iff, List.mem_map]
  rintro _ ⟨w, hw, rfl⟩
  have : w ≠ u := fun he => h (he ▸ hw)
  simpa using this

theorem reasonsFor_disjoint {u w : WorktreeId} {ws : List WorktreeId} (h : w ∉ ws)
    (reason : ReconcileReason) :
    reasonsFor u [(w, reason)] = [] ∨ reasonsFor u (ws.map (·, reason)) = [] := by
  by_cases hu : w = u
  · exact .inr (reasonsFor_eq_nil (hu ▸ h) reason)
  · exact .inl (by simp [reasonsFor, hu])

theorem felt_beginProbes (hc : s.Consistent) (reason : ReconcileReason) {ws : List WorktreeId}
    (hn : ws.Nodup) (u : WorktreeId) : Felt u (s.state? u) (reasonsFor u (ws.map (·, reason)))
      (requestsFor u (s.beginProbes reason ws).2) ((s.beginProbes reason ws).1.state? u) := by
  induction ws generalizing s with
  | nil => exact .still _
  | cons w rest ih =>
    obtain ⟨hw, hrest⟩ := List.nodup_cons.mp hn
    have hc' := (keeps_beginProbe hc w reason).consistent hc
    have hreq : (s.beginProbes reason (w :: rest)).2 = (s.beginProbe w reason).2.toList ++
        ((s.beginProbe w reason).1.beginProbes reason rest).2 := rfl
    rw [hreq, requestsFor_append, List.map_cons, ← List.singleton_append, reasonsFor_append]
    exact (felt_beginProbe hc w reason u).append (ih hc' hrest) (reasonsFor_disjoint hw reason)

theorem felt_flushRoot (hc : s.Consistent) {w : WorktreeId}
    (ho : s.batcher.hasPending w = true → (s.table.get? w).isSome = true) (now : Nat)
    (u : WorktreeId) :
    Felt u (s.state? u) (reasonsFor u (if s.batcher.hasPending w then [(w, .flush)] else []))
      (requestsFor u (s.flushRoot w now).2.probes) ((s.flushRoot w now).1.state? u) := by
  cases hb : s.batcher.pending? w with
  | none =>
    rw [flushRoot_of_not_pending hb, Batcher.hasPending, hb]
    exact .still _
  | some batch =>
    have hp : s.batcher.hasPending w = true := by rw [Batcher.hasPending, hb]; rfl
    obtain ⟨root, ht⟩ := Option.isSome_iff_exists.mp (ho hp)
    have hk := keeps_take s w batch.paths now
      (((s.batcher.drop w).changesets w batch.paths now).2.map .filesChanged)
    have hf := felt_beginProbe (hk.consistent hc) w .flush u
    rw [flushRoot_of_pending hb ht, if_pos hp]
    obtain ⟨sequencer, he⟩ := emitAll_fst
      { s with batcher := ((s.batcher.drop w).changesets w batch.paths now).1 } w now
      (((s.batcher.drop w).changesets w batch.paths now).2.map .filesChanged)
    rw [he] at hf ⊢
    exact hf

theorem felt_flushRoots (hc : s.Consistent) (ho : ∀ u, s.batcher.hasPending u = true →
    (s.table.get? u).isSome = true) (now : Nat) {ws : List WorktreeId} (hn : ws.Nodup)
    (hp : ∀ w ∈ ws, s.batcher.hasPending w = true) (u : WorktreeId) :
    Felt u (s.state? u) (reasonsFor u (ws.map (·, .flush)))
      (requestsFor u (s.flushRoots now ws).2.probes) ((s.flushRoots now ws).1.state? u) := by
  induction ws generalizing s with
  | nil => exact .still _
  | cons w rest ih =>
    obtain ⟨hw, hrest⟩ := List.nodup_cons.mp hn
    have hk := keeps_flushRoot hc (ho w) now
    have hf := felt_flushRoot hc (ho w) now u
    rw [if_pos (hp w List.mem_cons_self)] at hf
    have hreq : (s.flushRoots now (w :: rest)).2.probes = (s.flushRoot w now).2.probes ++
        ((s.flushRoot w now).1.flushRoots now rest).2.probes := rfl
    rw [hreq, requestsFor_append, List.map_cons, ← List.singleton_append, reasonsFor_append]
    refine hf.append (ih (hk.consistent hc) ?_ hrest ?_) (reasonsFor_disjoint hw .flush)
    · intro v hv
      rw [hk.table]
      exact (hk.owned v hv).elim (ho v) id
    · intro v hv
      have hne : w ≠ v := fun he => hw (he ▸ hv)
      rw [Batcher.hasPending, pending?_flushRoot hc (ho w), if_neg hne]
      exact hp v (List.mem_cons_of_mem _ hv)

theorem nodup_scheduled {ws : List WorktreeId} (h : ws.Nodup) : (s.scheduled ws).Nodup :=
  (List.mergeSort_perm ws s.sooner).nodup_iff.mpr h

theorem felt_perform (h : s.Sound) {x : Step} {u : WorktreeId}
    (hr : ∀ path tier, x ≠ .register u path tier) (hd : x ≠ .unregister u)
    (ha : ∀ o now, x = .answer o now → o.worktree ≠ u) :
    Felt u (s.state? u) (reasonsFor u (s.asks x)) (requestsFor u (s.issued x))
      ((perform s x).1.state? u) := by
  cases x with
  | register w path tier =>
    have hw : w ≠ u := fun he => hr path tier (he ▸ rfl)
    simp only [asks, issued, perform]
    cases hreg : s.register w path tier with
    | error e => exact .still _
    | ok out =>
      obtain ⟨s', probe⟩ := out
      have hwake : reasonsFor u [(w, ReconcileReason.wake)] = [] := by simp [reasonsFor, hw]
      have hprobe : requestsFor u [probe] = [] := by
        simp [requestsFor, probe_register h.consistent hreg, hw]
      simp only [hwake, hprobe, state?_register h.consistent hreg, if_neg hw]
      exact .still _
  | unregister w =>
    have hw : w ≠ u := fun he => hd (he ▸ rfl)
    simp only [perform]
    cases hun : s.unregister w with
    | error e => exact .still _
    | ok out =>
      obtain ⟨table, root, -, -, he⟩ := unregister_cases hun
      have hs : out.1.state? u = s.state? u := by
        rw [he, state?, Table.get?_erase, if_neg hw, state?]
      simp only [hs]
      exact .still _
  | setTier w tier =>
    simp only [perform]
    cases ht : s.setTier w tier with
    | error e => exact .still _
    | ok s' =>
      obtain ⟨table, -, rfl⟩ := setTier_cases ht
      exact .still _
  | setFocused w => exact .still _
  | ingest paths now =>
    obtain ⟨batcher, hi⟩ := ingest_state s paths now
    simp only [perform, hi]
    exact .still _
  | flushRoot w now => exact felt_flushRoot h.consistent (h.owned w) now u
  | flushDue now =>
    have hdue := s.batcher.nodup_due now h.sorted
    refine felt_flushRoots h.consistent h.owned now (nodup_scheduled hdue) ?_ u
    intro w hw
    obtain ⟨batch, hb, -⟩ := (Batcher.mem_due _ _ h.sorted).mp (List.mem_mergeSort.mp hw)
    exact (Batcher.hasPending_iff _ _).mpr ⟨batch, hb⟩
  | request w reason => exact felt_beginProbe h.consistent w reason u
  | requestAll reason =>
    exact felt_beginProbes h.consistent reason (nodup_scheduled h.table.nodup_worktrees) u
  | answer o now =>
    have hu := ha o now rfl
    cases hw : s.awaiting? o with
    | none =>
      simp only [perform, issued, applyStatus_of_dropped hw]
      exact .still _
    | some state =>
      obtain ⟨path, hp⟩ := probes_applyStatus h.consistent hw now
      have hq : requestsFor u (s.issued (.answer o now)) = [] := by
        simp only [issued, hp]
        cases state.queued <;> simp [requestsFor, hu]
      rw [hq]
      simp only [perform, state?_applyStatus h.consistent hw, if_neg hu]
      exact .still _

/-- What a step can do to a root: tell it what it asks of it, register it under the next number,
unregister it, or take the answer that it waits for. -/
theorem root_cases (h : s.Sound) (x : Step) (u : WorktreeId) :
    (Felt u (s.state? u) (reasonsFor u (s.asks x)) (requestsFor u (s.issued x))
        ((perform s x).1.state? u) ∧
      ∀ o now, x = .answer o now → o.worktree ≠ u ∨ s.generation? u ≠ some o.generation) ∨
    (∃ path, s.issued x = [⟨u, path, s.nextGeneration, .wake⟩] ∧
      (perform s x).1.state? u = some ⟨s.nextGeneration, none, true, none⟩ ∧
      ∀ o now, x ≠ .answer o now) ∨
    (s.issued x = [] ∧ (perform s x).1.state? u = none) ∨
    ∃ o now state path, x = .answer o now ∧ o.worktree = u ∧ s.awaiting? o = some state ∧
      s.issued x = (state.queued.map fun reason => ⟨u, path, o.generation, reason⟩).toList ∧
      (perform s x).1.state? u = some (state.answered o.report) := by
  by_cases hr : ∃ path tier, x = .register u path tier
  · obtain ⟨path, tier, rfl⟩ := hr
    simp only [asks, issued, perform]
    cases hreg : s.register u path tier with
    | error e => exact .inl ⟨.still _, by simp⟩
    | ok out =>
      obtain ⟨s', probe⟩ := out
      refine .inr (.inl ⟨path, ?_, ?_, by simp⟩)
      · rw [probe_register h.consistent hreg]
      · simpa using state?_register h.consistent hreg u
  by_cases hd : x = .unregister u
  · subst hd
    simp only [perform]
    cases hun : s.unregister u with
    | error e => exact .inl ⟨.still _, by simp⟩
    | ok out =>
      obtain ⟨table, root, -, -, he⟩ := unregister_cases hun
      refine .inr (.inr (.inl ⟨rfl, ?_⟩))
      simp only [he, state?, Table.get?_erase, if_pos]
  by_cases ha : ∃ o now, x = .answer o now ∧ o.worktree = u
  · obtain ⟨o, now, rfl, rfl⟩ := ha
    cases hw : s.awaiting? o with
    | none =>
      have hg : s.generation? o.worktree ≠ some o.generation := by
        intro hg
        obtain ⟨state, hs, hsg⟩ := Option.map_eq_some_iff.mp hg
        rw [awaiting?_eq_some.mpr ⟨hs, hsg⟩] at hw
        cases hw
      left
      simp only [perform, issued, applyStatus_of_dropped hw]
      refine ⟨.still _, ?_⟩
      rintro o' now' he
      cases he
      exact .inr hg
    | some state =>
      obtain ⟨path, hp⟩ := probes_applyStatus h.consistent hw now
      refine .inr (.inr (.inr ⟨o, now, state, path, rfl, rfl, hw, hp, ?_⟩))
      simpa [perform] using state?_applyStatus h.consistent hw now o.worktree
  · have hne : ∀ o now, x = .answer o now → o.worktree ≠ u :=
      fun o now hx hu => ha ⟨o, now, hx, hu⟩
    have hnr : ∀ path tier, x ≠ .register u path tier := fun path tier hx => hr ⟨path, tier, hx⟩
    exact .inl ⟨felt_perform h hnr hd hne, fun o now hx => .inl (hne o now hx)⟩

theorem generation?_of_issued (h : s.Sound) {x : Step} {r : ProbeRequest} (hr : r ∈ s.issued x) :
    (perform s x).1.generation? r.worktree = some r.generation := by
  rcases root_cases h x r.worktree with ⟨hf, -⟩ | ⟨path, hi, hs, -⟩ | ⟨hi, -⟩ |
    ⟨o, now, state, path, -, hw, ha, hi, hs⟩
  · have hmem : r ∈ requestsFor r.worktree (s.issued x) := by simpa [requestsFor] using hr
    exact hf.generation?_of_mem hmem
  · have : r.generation = s.nextGeneration := by
      rw [hi, List.mem_singleton] at hr
      rw [hr]
    rw [generation?, hs, this]
    rfl
  · rw [hi] at hr
    cases hr
  · obtain ⟨-, hg⟩ := awaiting?_eq_some.mp ha
    have hr : r.generation = o.generation := by
      rw [hi, Option.mem_toList, Option.map_eq_some_iff] at hr
      obtain ⟨reason, -, he⟩ := hr
      rw [← he]
    rw [generation?, hs, Option.map_some, hr, ← hg]
    rfl

end Asking

end FsSource

namespace Exchange

open FsSource

def start (config : FsConfig) (epoch : Nat) : Exchange := ⟨.create config epoch, []⟩

def hear (asks : List (WorktreeId × ReconcileReason)) (u : Unanswered) : Unanswered :=
  { u with since := u.since ++ reasonsFor u.request.worktree asks }

def kept (e : Exchange) : Step → List Unanswered
  | .answer o _ => e.unanswered.eraseP fun u => u.request.outcome o.report = o
  | _ => e.unanswered

def step (e : Exchange) (x : Step) : Exchange where
  source := (perform e.source x).1
  unanswered := (e.kept x).map (hear (e.source.asks x)) ++ (e.source.issued x).map (⟨·, []⟩)

def run (e : Exchange) (steps : List Step) : Exchange := steps.foldl step e

/-- An answer is the outcome of a request that is under way, with any report or none. -/
def Fair (e : Exchange) : Step → Prop
  | .answer o _ => ∃ u ∈ e.unanswered, u.request.outcome o.report = o
  | _ => True

def Lawful (e : Exchange) : List Step → Prop
  | [] => True
  | x :: rest => e.Fair x ∧ (e.step x).Lawful rest

instance (e : Exchange) : (x : Step) → Decidable (e.Fair x)
  | .answer o _ => inferInstanceAs (Decidable (∃ u ∈ e.unanswered, u.request.outcome o.report = o))
  | .register .. | .unregister .. | .setTier .. | .setFocused .. | .ingest .. | .flushRoot ..
  | .flushDue .. | .request .. | .requestAll .. => .isTrue trivial

instance decidableLawful : (steps : List Step) → (e : Exchange) → Decidable (e.Lawful steps)
  | [], _ => .isTrue trivial
  | x :: rest, e => @instDecidableAnd _ _ _ (decidableLawful rest (e.step x))

def flights (e : Exchange) (w : WorktreeId) (generation : Nat) : List Unanswered :=
  e.unanswered.filter fun u => u.request.worktree = w ∧ u.request.generation = generation

/-- What the state of a root says about the requests under way for it. -/
def Tracks (state : RootState) : List Unanswered → Prop
  | [] => state.probing = false ∧ state.queued = none
  | [u] => state.probing = true ∧ state.queued = merged u.since
  | _ => False

theorem Tracks.felt {w : WorktreeId} {state state' : RootState} {us : List Unanswered}
    {reasons : List ReconcileReason} {requests : List ProbeRequest} (h : Tracks state us)
    (hf : Felt w (some state) reasons requests (some state')) :
    Tracks state' (us.map (fun u => { u with since := u.since ++ reasons }) ++
      requests.map (⟨·, []⟩)) := by
  match us, h with
  | [], ⟨hp, hq⟩ =>
    cases hf with
    | still => exact ⟨hp, hq⟩
    | waits reason hw => exact absurd (hp.symm.trans hw) (by simp)
    | starts path reason _ => exact ⟨rfl, hq⟩
  | [u], ⟨hp, hq⟩ =>
    cases hf with
    | still => simpa using (show Tracks state [u] from ⟨hp, hq⟩)
    | waits reason _ => exact ⟨hp, by rw [merged_concat, hq]⟩
    | starts path reason hs => exact absurd (hp.symm.trans hs) (by simp)

structure Orderly (e : Exchange) : Prop where
  sound : e.source.Sound
  numbered : ∀ u ∈ e.unanswered, u.request.generation < e.source.nextGeneration
  tracks : ∀ w state, e.source.state? w = some state → Tracks state (e.flights w state.generation)

theorem orderly_start (config : FsConfig) (epoch : Nat) : (start config epoch).Orderly where
  sound := sound_create config epoch
  numbered u h := by cases h
  tracks w state h := by cases h

section Step

variable {e : Exchange} {x : Step} {w : WorktreeId}

theorem mem_kept {u : Unanswered} (h : u ∈ e.kept x) : u ∈ e.unanswered := by
  cases x with
  | answer o now => exact List.mem_of_mem_eraseP h
  | _ => exact h

theorem flights_step (generation : Nat) : (e.step x).flights w generation =
    ((e.kept x).filter fun u =>
        u.request.worktree = w ∧ u.request.generation = generation).map
      (fun u => { u with since := u.since ++ reasonsFor w (e.source.asks x) }) ++
    ((requestsFor w (e.source.issued x)).filter (·.generation = generation)).map (⟨·, []⟩) := by
  simp only [flights, step, List.filter_append, List.filter_map, requestsFor, List.filter_filter]
  congr 1
  · refine List.map_congr_left fun u hu => ?_
    have hw : u.request.worktree = w := (of_decide_eq_true (List.mem_filter.mp hu).2).1
    rw [hear, hw]
  · congr 2
    funext r
    simp [Bool.and_comm]

theorem filter_eraseP {α : Type} {p f : α → Bool} (h : ∀ a, p a = true → f a = true)
    (l : List α) : (l.eraseP p).filter f = (l.filter f).eraseP p := by
  have hand : (fun a => p a && f a) = p := by
    funext a
    cases hp : p a with
    | false => rfl
    | true => rw [h a hp]; rfl
  rw [List.eraseP_filter, hand]

theorem flights_kept_answer {o : ProbeOutcome} {now generation : Nat}
    (h : o.worktree ≠ w ∨ o.generation ≠ generation) :
    (e.kept (.answer o now)).filter (fun u =>
      u.request.worktree = w ∧ u.request.generation = generation) = e.flights w generation := by
  rcases List.exists_or_eq_self_of_eraseP (fun u => u.request.outcome o.report = o)
    e.unanswered with hl | ⟨u, before, behind, -, hu, hl, hk⟩
  · rw [kept, hl, flights]
  · have ho : u.request.outcome o.report = o := of_decide_eq_true hu
    have hworktree : u.request.worktree = o.worktree := by rw [← ho]; rfl
    have hgeneration : u.request.generation = o.generation := by rw [← ho]; rfl
    have hnot : ¬ (u.request.worktree = w ∧ u.request.generation = generation) := by
      rw [hworktree, hgeneration]
      rintro ⟨hw, hg⟩
      exact h.elim (· hw) (· hg)
    rw [kept, hk, flights, hl]
    rw [List.filter_append, List.filter_append, List.filter_cons_of_neg (by simpa using hnot)]

theorem flights_kept {state : RootState} (hs : e.source.state? w = some state)
    (hx : ∀ o now, x = .answer o now →
      o.worktree ≠ w ∨ e.source.generation? w ≠ some o.generation) :
    (e.kept x).filter (fun u =>
      u.request.worktree = w ∧ u.request.generation = state.generation) =
        e.flights w state.generation := by
  cases x with
  | answer o now =>
    refine flights_kept_answer ((hx o now rfl).imp_right ?_)
    rw [generation?, hs]
    exact fun h he => h (he ▸ rfl)
  | _ => rfl

theorem flights_felt {state : RootState} {b : Option RootState}
    (hs : e.source.state? w = some state)
    (hf : Felt w (some state) (reasonsFor w (e.source.asks x))
      (requestsFor w (e.source.issued x)) b)
    (hx : ∀ o now, x = .answer o now →
      o.worktree ≠ w ∨ e.source.generation? w ≠ some o.generation) :
    (e.step x).flights w state.generation =
      (e.flights w state.generation).map
          (fun u => { u with since := u.since ++ reasonsFor w (e.source.asks x) }) ++
        (requestsFor w (e.source.issued x)).map (⟨·, []⟩) := by
  rw [flights_step, flights_kept hs hx, hf.filter_generation]

theorem mem_flights_of_outcome {o : ProbeOutcome} {u : Unanswered} (hu : u ∈ e.unanswered)
    (ho : u.request.outcome o.report = o) : u ∈ e.flights o.worktree o.generation := by
  refine List.mem_filter.mpr ⟨hu, ?_⟩
  rw [← ho]
  simp [ProbeRequest.outcome]

theorem fair_of_flights {o : ProbeOutcome} {now generation : Nat} {u : Unanswered}
    (h : e.flights w generation = [u]) (ho : u.request.outcome o.report = o) :
    e.Fair (.answer o now) :=
  ⟨u, List.mem_of_mem_filter (h ▸ List.mem_singleton_self u), ho⟩

theorem flights_kept_taken {o : ProbeOutcome} {now : Nat} {u : Unanswered}
    (hu : e.flights o.worktree o.generation = [u])
    (hf : e.Fair (.answer o now)) :
    u.request.outcome o.report = o ∧ (e.kept (.answer o now)).filter (fun u =>
      u.request.worktree = o.worktree ∧ u.request.generation = o.generation) = [] := by
  obtain ⟨v, hv, ho⟩ := hf
  obtain rfl : v = u := List.mem_singleton.mp (hu ▸ mem_flights_of_outcome hv ho)
  refine ⟨ho, ?_⟩
  -- The answer closes the only request under way under its number.
  have hflights : e.unanswered.filter (fun u =>
      u.request.worktree = o.worktree ∧ u.request.generation = o.generation) = [v] := hu
  rw [kept, filter_eraseP, hflights, List.eraseP_cons_of_pos (by simpa using ho)]
  intro u hm
  rw [← of_decide_eq_true hm]
  simp [ProbeRequest.outcome]

theorem Orderly.numbered_step (h : e.Orderly) (x : Step) :
    ∀ u ∈ (e.step x).unanswered, u.request.generation < (e.step x).source.nextGeneration := by
  intro u hu
  rcases List.mem_append.mp hu with hu | hu
  · obtain ⟨v, hv, rfl⟩ := List.mem_map.mp hu
    exact Nat.lt_of_lt_of_le (h.numbered v (mem_kept hv)) (h.sound.nextGeneration_perform x)
  · obtain ⟨r, hr, rfl⟩ := List.mem_map.mp hu
    exact (h.sound.perform x).numbered _ _ (generation?_of_issued h.sound hr)

theorem Orderly.filter_kept_next (h : e.Orderly) : (e.kept x).filter (fun u =>
    u.request.worktree = w ∧ u.request.generation = e.source.nextGeneration) = [] := by
  rw [List.filter_eq_nil_iff]
  intro u hu
  have := h.numbered u (mem_kept hu)
  simp only [decide_eq_true_eq, not_and]
  omega

theorem Orderly.taken (h : e.Orderly) {o : ProbeOutcome} {now : Nat} {state : RootState}
    (hf : e.Fair (.answer o now)) (ha : e.source.awaiting? o = some state) :
    ∃ u, e.flights o.worktree o.generation = [u] ∧ state.queued = merged u.since := by
  obtain ⟨hs, hg⟩ := awaiting?_eq_some.mp ha
  have ht := h.tracks _ state hs
  obtain ⟨v, hv, ho⟩ := hf
  have hmem := mem_flights_of_outcome hv ho
  rw [hg] at ht
  match hl : e.flights o.worktree o.generation, ht with
  | [], _ => simp [hl] at hmem
  | [u], ⟨_, hq⟩ => exact ⟨u, rfl, hq⟩

theorem flights_taken {a : Exchange} (h : e.Orderly) {state : RootState} {o : ProbeOutcome}
    {now : Nat} {path : Path}
    (hf : e.Fair (.answer o now)) (ha : e.source.awaiting? o = some state)
    (hi : e.source.issued (.answer o now) =
      (state.queued.map fun reason => ⟨o.worktree, path, o.generation, reason⟩).toList)
    (hsource : a.source = e.source) (hflights : a.flights o.worktree o.generation = [] ∨
      a.flights o.worktree o.generation = e.flights o.worktree o.generation) :
    (a.step (.answer o now)).flights o.worktree o.generation =
      (state.queued.map fun reason =>
        ⟨⟨o.worktree, path, o.generation, reason⟩, []⟩).toList := by
  have hclosed : (a.kept (.answer o now)).filter (fun u =>
      u.request.worktree = o.worktree ∧ u.request.generation = o.generation) = [] := by
    obtain ⟨u, hu, -⟩ := h.taken hf ha
    rcases hflights with hnil | hsame
    · exact List.eq_nil_of_sublist_nil (hnil ▸ List.eraseP_sublist.filter _)
    · have hone := hsame.trans hu
      exact (flights_kept_taken hone (fair_of_flights hone (flights_kept_taken hu hf).1)).2
  rw [flights_step, hclosed, hsource, hi]
  cases state.queued <;> simp [requestsFor]

theorem Orderly.step (h : e.Orderly) (hf : e.Fair x) : (e.step x).Orderly where
  sound := h.sound.perform x
  numbered := h.numbered_step x
  tracks w state' hs := by
    rcases root_cases h.sound x w with ⟨hfelt, hother⟩ | ⟨path, hi, hnew, -⟩ | ⟨-, hnone⟩ |
      ⟨o, now, state, path, rfl, rfl, ha, hi, hanswered⟩
    · -- The root hears what is asked of it.
      have hs' : (perform e.source x).1.state? w = some state' := hs
      rw [hs'] at hfelt
      cases ho : e.source.state? w with
      | none =>
        rw [ho] at hfelt
        cases hfelt.map_generation
      | some state =>
        rw [ho] at hfelt
        have hg : state'.generation = state.generation := Option.some.inj hfelt.map_generation
        rw [hg, flights_felt ho hfelt hother]
        exact (h.tracks w state ho).felt hfelt
    · -- A new root waits for its first report.
      have hstate : state' = ⟨e.source.nextGeneration, none, true, none⟩ :=
        Option.some.inj (hs.symm.trans hnew)
      subst hstate
      rw [flights_step, h.filter_kept_next, hi]
      simp [requestsFor, Tracks, merged]
    · have hs' : (perform e.source x).1.state? w = some state' := hs
      rw [hnone] at hs'
      cases hs'
    · -- The request is answered, and what was asked for meanwhile is under way.
      have hstate : state' = state.answered o.report :=
        Option.some.inj (hs.symm.trans hanswered)
      obtain ⟨-, hg⟩ := awaiting?_eq_some.mp ha
      have hgeneration : state'.generation = o.generation := by rw [hstate, RootState.answered, hg]
      rw [hgeneration, flights_taken h hf ha hi rfl (.inr rfl), hstate]
      cases hq : state.queued <;> simp [Tracks, RootState.answered, merged, hq]

theorem Orderly.run (h : e.Orderly) {steps : List Step} (hl : e.Lawful steps) :
    (e.run steps).Orderly := by
  induction steps generalizing e with
  | nil => exact h
  | cons x rest ih => exact ih (h.step hl.1) hl.2

theorem Orderly.single (h : e.Orderly) {root : Root} (hr : e.source.table.get? w = some root) :
    ∃ state, e.source.state? w = some state ∧ (e.flights w state.generation).length ≤ 1 ∧
      (e.source.probing w = true ↔ e.flights w state.generation ≠ []) ∧
      (state.queued ≠ none → e.flights w state.generation ≠ []) := by
  have hsome := h.sound.consistent w
  rw [hr] at hsome
  obtain ⟨state, hs⟩ := Option.isSome_iff_exists.mp hsome
  have ht := h.tracks w state hs
  refine ⟨state, hs, ?_⟩
  rw [probing, hs]
  match e.flights w state.generation, ht with
  | [], ⟨hp, hq⟩ => simp [hp, hq]
  | [u], ⟨hp, _⟩ => simp [hp]

theorem Orderly.follow_up (h : e.Orderly) {u : Unanswered} (hu : u ∈ e.unanswered)
    (hg : e.source.generation? u.request.worktree = some u.request.generation)
    (report : Option StatusReport) (now : Nat) :
    ∃ path, (e.source.applyStatus (u.request.outcome report) now).2.probes =
      ((merged u.since).map fun reason =>
        ⟨u.request.worktree, path, u.request.generation, reason⟩).toList := by
  obtain ⟨state, hs, hsg⟩ := Option.map_eq_some_iff.mp hg
  have ha : e.source.awaiting? (u.request.outcome report) = some state :=
    awaiting?_eq_some.mpr ⟨hs, hsg⟩
  have hmem : u ∈ e.flights u.request.worktree u.request.generation :=
    List.mem_filter.mpr ⟨hu, by simp⟩
  have hf : e.Fair (.answer (u.request.outcome report) now) := ⟨u, hu, rfl⟩
  obtain ⟨v, hv, hq⟩ := h.taken hf ha
  have hvu : u = v := by
    rw [show e.flights u.request.worktree u.request.generation = [v] from hv] at hmem
    exact List.mem_singleton.mp hmem
  obtain ⟨path, hp⟩ := probes_applyStatus h.sound.consistent ha now
  rw [hq, ← hvu] at hp
  exact ⟨path, hp⟩

end Step

/-- In every run in which answers belong to requests under way: of a registered root at most one
request under its present number is under way, one exactly if the root is probing, and one if a
reason waits. Its answer, be it a report or a failure, issues one request if anything was asked for
since, which counts as much as the one of them that counts most, and none otherwise. -/
theorem one_under_way (config : FsConfig) (epoch : Nat) {steps : List Step}
    (h : (start config epoch).Lawful steps) :
    let e := (start config epoch).run steps
    (∀ w root, e.source.table.get? w = some root →
      ∃ state, e.source.state? w = some state ∧ (e.flights w state.generation).length ≤ 1 ∧
        (e.source.probing w = true ↔ e.flights w state.generation ≠ []) ∧
        (state.queued ≠ none → e.flights w state.generation ≠ [])) ∧
    ∀ u ∈ e.unanswered,
      e.source.generation? u.request.worktree = some u.request.generation →
        ∀ report now,
          let probes := (e.source.applyStatus (u.request.outcome report) now).2.probes
          (u.since = [] → probes = []) ∧
          (u.since ≠ [] → ∃ r, probes = [r] ∧ r.worktree = u.request.worktree ∧
            r.generation = u.request.generation ∧
            (u.since.map (·.precedence)).max? = some r.reason.precedence) := by
  intro e
  have ho : e.Orderly := (orderly_start config epoch).run h
  refine ⟨fun w root hr => ho.single hr, ?_⟩
  intro u hu hg report now probes
  obtain ⟨path, hp⟩ := ho.follow_up hu hg report now
  have hp : probes = _ := hp
  rw [hp]
  constructor
  · intro hs
    rw [hs]
    rfl
  · intro hs
    have hmax := precedence_merged u.since
    cases hm : merged u.since with
    | none =>
      rw [hm, Option.map_none, eq_comm, List.max?_eq_none_iff, List.map_eq_nil_iff] at hmax
      exact absurd hmax hs
    | some reason =>
      rw [hm] at hmax
      exact ⟨_, rfl, rfl, rfl, hmax.symm⟩

def registeredTwice : List Step :=
  [.register ⟨"W1"⟩ ⟨"/repo"⟩ .activeInApp, .request ⟨"W1"⟩ .overflow, .unregister ⟨"W1"⟩,
    .register ⟨"W1"⟩ ⟨"/repo"⟩ .activeInApp, .ingest [⟨"/repo/a.txt"⟩] 3, .flushRoot ⟨"W1"⟩ 4,
    .answer ⟨⟨"W1"⟩, 1, .wake, none⟩ 5, .request ⟨"W1"⟩ .resync, .request ⟨"W1"⟩ .driftSweep]

theorem one_under_way_registeredTwice :
    (start ⟨.standard, false, []⟩ 0).Lawful registeredTwice ∧
      ∃ u ∈ ((start ⟨.standard, false, []⟩ 0).run registeredTwice).unanswered,
        u.request = ⟨⟨"W1"⟩, ⟨"/repo"⟩, 2, .wake⟩ ∧
          u.since = [.flush, .resync, .driftSweep] ∧
          ∀ report now, ∃ r, (((start ⟨.standard, false, []⟩ 0).run
              registeredTwice).source.applyStatus (u.request.outcome report) now).2.probes = [r] ∧
            some 2 = some r.reason.precedence := by
  have hl : (start ⟨.standard, false, []⟩ 0).Lawful registeredTwice := by decide +kernel
  have hu : (⟨⟨⟨"W1"⟩, ⟨"/repo"⟩, 2, .wake⟩, [.flush, .resync, .driftSweep]⟩ : Unanswered) ∈
      ((start ⟨.standard, false, []⟩ 0).run registeredTwice).unanswered := by decide +kernel
  have hg : ((start ⟨.standard, false, []⟩ 0).run registeredTwice).source.generation? ⟨"W1"⟩ =
      some 2 := by decide +kernel
  refine ⟨hl, _, hu, rfl, rfl, fun report now => ?_⟩
  obtain ⟨r, hp, -, -, hm⟩ := ((one_under_way _ _ hl).2 _ hu hg report now).2 (by simp)
  exact ⟨r, hp, hm⟩

end Exchange

end Switchboard
