import Switchboard.Proofs.FsSource.Numbering
import Switchboard.Proofs.FsSource.Overflow
import Switchboard.Proofs.FsSource.Probes

/-!
# Everything once more

Who lost history wants everything about a root once more. The next report is to be told in full
then, as if there had been none before. While a request of the root is under way that has to wait,
and what is asked for meanwhile gives way to it. It is not asked for again when the request that was
issued for it fails: the report of a later request is told like any other.
-/
namespace Switchboard

open Mirror (Step perform)

namespace Mirror

def Step.Demands (w : WorktreeId) (x : Step) : Prop :=
  x = .request w .resync ∨ x = .requestAll .resync

def Step.report? : Step → Option StatusReport
  | .answer o _ => o.report
  | _ => none

end Mirror

namespace FsSource

def Publishes (s : FsSource) (w : WorktreeId) (report : StatusReport) (told : List Envelope) :
    Prop :=
  Event.filesystem (.gitStatusChanged w report.counts) ∈ told.map (·.event) ∧
    ∀ root p, s.table.get? w = some root → report.Lists p → s.table.Belongs w (root.path.join p) →
      PathSet.contains (changedPaths w told) p = true

/-- A report differs from the last one in its counts and in every path in it that belongs to the
root. -/
def AllNews (s : FsSource) (o : ProbeOutcome) (report : StatusReport) : Prop :=
  (s.lastReport? o.worktree).map (·.counts) ≠ some report.counts ∧
    ∀ root p, s.table.get? o.worktree = some root → report.Lists p →
      s.table.Belongs o.worktree (root.path.join p) →
        o.reason.Reveals (s.lastReport? o.worktree) report p

section Publishing

variable {s : FsSource} {o : ProbeOutcome} {report : StatusReport}

theorem mem_news_counts {d : StatusDelta} {w : WorktreeId} {counts : StatusCounts} :
    .gitStatusChanged w counts ∈ StatusDelta.news d w ↔ d.counts = some counts := by
  simp [StatusDelta.news]

theorem counts_between_eq_some {previous : Option StatusReport} :
    (StatusDelta.between previous report).counts = some report.counts ↔
      previous.map (·.counts) ≠ some report.counts := by
  cases previous with
  | none => simp [StatusDelta.between]
  | some previous => simp [StatusDelta.between]

theorem counts_told_iff (ht : s.taken? o = some report) (now : Nat) :
    Event.filesystem (.gitStatusChanged o.worktree report.counts) ∈
        (s.applyStatus o now).2.envelopes.map (·.event) ↔
      (s.baseline o).map (·.counts) ≠ some report.counts := by
  obtain ⟨-, q, css, htold⟩ := applyStatus_of_taken ht now
  rw [htold, event_emitAll, List.mem_map_of_injective (fun _ _ h => Event.filesystem.inj h),
    List.mem_append, mem_news_counts, counts_between_eq_some]
  simp

theorem publishes_answer_iff (h : s.Sound) (ht : s.taken? o = some report) (now : Nat) :
    s.Publishes o.worktree report (perform s (.answer o now)).2 ↔
      o.reason = .resync ∨ s.AllNews o report := by
  have hpaths : (∀ root p, s.table.get? o.worktree = some root → report.Lists p →
      s.table.Belongs o.worktree (root.path.join p) →
        PathSet.contains (changedPaths o.worktree (s.applyStatus o now).2.envelopes) p = true) ↔
      ∀ root p, s.table.get? o.worktree = some root → report.Lists p →
        s.table.Belongs o.worktree (root.path.join p) →
          o.reason.Reveals (s.lastReport? o.worktree) report p := by
    refine forall₂_congr fun root p => forall_congr' fun hr => forall₂_congr fun _ hb => ?_
    rw [contains_answer h hr rfl ht now, and_iff_left hb]
  simp only [Publishes, perform]
  rw [counts_told_iff ht, hpaths, baseline, AllNews]
  by_cases hr : o.reason = .resync
  · rw [if_pos hr, hr]
    exact iff_of_true ⟨by simp, fun _ _ _ hl _ => hl⟩ (.inl rfl)
  · rw [if_neg hr]
    exact (or_iff_right hr).symm

end Publishing

theorem resync_queue (waiting : Option ReconcileReason) :
    ReconcileReason.queue waiting .resync = .resync := by
  rcases waiting with _ | _ | _ | _ | _ | _ <;> rfl

theorem resync_of_queue {waiting : Option ReconcileReason} {reason : ReconcileReason}
    (h : ReconcileReason.queue waiting reason = .resync) :
    reason = .resync ∨ waiting = some .resync := by
  simp only [ReconcileReason.queue] at h
  split at h
  · split at h
    · exact .inr (congrArg some h)
    · exact .inl h
  · exact .inl h

theorem reasonsFor_map {w : WorktreeId} {ws : List WorktreeId} (hn : ws.Nodup) (hw : w ∈ ws)
    (reason : ReconcileReason) : reasonsFor w (ws.map (·, reason)) = [reason] := by
  obtain ⟨before, behind, rfl⟩ := List.append_of_mem hw
  rw [List.nodup_append] at hn
  obtain ⟨-, hbehind, hbefore⟩ := hn
  rw [List.map_append, List.map_cons, ← List.singleton_append, reasonsFor_append,
    reasonsFor_append, reasonsFor_eq_nil (fun h => hbefore w h w List.mem_cons_self rfl),
    reasonsFor_eq_nil (List.nodup_cons.mp hbehind).1]
  simp [reasonsFor]

theorem demands_of_asks {s : FsSource} {w : WorktreeId} {x : Step}
    (h : .resync ∈ reasonsFor w (s.asks x)) : x.Demands w := by
  have hmem : (w, ReconcileReason.resync) ∈ s.asks x := by
    simp only [reasonsFor, List.mem_map, List.mem_filter, decide_eq_true_eq] at h
    obtain ⟨⟨u, reason⟩, ⟨hm, rfl⟩, rfl⟩ := h
    exact hm
  cases x with
  | register u path tier =>
    simp only [asks] at hmem
    split at hmem <;> simp at hmem
  | flushRoot u now =>
    simp only [asks] at hmem
    split at hmem <;> simp at hmem
  | flushDue now => simp [asks] at hmem
  | request u reason =>
    simp only [asks, List.mem_singleton, Prod.mk.injEq] at hmem
    exact .inl (by rw [hmem.1, hmem.2])
  | requestAll reason =>
    simp only [asks, List.mem_map, Prod.mk.injEq] at hmem
    obtain ⟨-, -, -, hr⟩ := hmem
    exact .inr (by rw [hr])
  | _ => simp [asks] at hmem

theorem felt_demand {s : FsSource} (h : s.Sound) {w : WorktreeId} {state : RootState}
    (hs : s.state? w = some state) {x : Step} (hx : x.Demands w) :
    reasonsFor w (s.asks x) = [.resync] ∧
      Felt w (some state) [.resync] (requestsFor w (s.issued x)) ((perform s x).1.state? w) := by
  have hasks : reasonsFor w (s.asks x) = [.resync] := by
    rcases hx with rfl | rfl
    · simp [asks, reasonsFor]
    · refine reasonsFor_map (nodup_scheduled h.table.nodup_worktrees) (List.mem_mergeSort.mpr ?_) _
      have hsome : (s.table.get? w).isSome = true := by rw [← h.consistent w, hs]; rfl
      obtain ⟨root, hr⟩ := Option.isSome_iff_exists.mp hsome
      exact List.mem_map.mpr ⟨root, RootTable.Sound.mem_of_get? hr, h.table.worktree_of_get? hr⟩
  refine ⟨hasks, ?_⟩
  rw [← hasks, ← hs]
  rcases hx with rfl | rfl <;> exact felt_perform h (by simp) (by simp) (by simp)

end FsSource

namespace Exchange

open FsSource

def anew (e : Exchange) : Exchange := { e with unanswered := [] }

def Answers (e : Exchange) (w : WorktreeId) (generation : Nat) : Step → Prop
  | .answer o now => o.worktree = w ∧ o.generation = generation ∧ e.Fair (.answer o now)
  | _ => False

def Throughout (P : Exchange → Step → Prop) (e : Exchange) : List Step → Prop
  | [] => True
  | x :: rest => P e x ∧ Throughout P (e.step x) rest

/-- Everything was demanded of a registered root on the way, and nothing that was issued from
then on was answered since. The exchange is what came of that. -/
inductive Renewed (e : Exchange) (w : WorktreeId) (generation : Nat) :
    List Step → Exchange → Prop
  | demanded (steps : List Step) {x : Step} (hx : x.Demands w)
      (hg : (e.run steps).source.generation? w = some generation) :
      Renewed e w generation (steps ++ [x]) ((e.run steps).anew.step x)
  | stands {steps : List Step} {a : Exchange} (h : Renewed e w generation steps a) {x : Step}
      (hx : ¬ a.Answers w generation x) : Renewed e w generation (steps ++ [x]) (a.step x)

instance (e : Exchange) (w : WorktreeId) (generation : Nat) :
    (x : Step) → Decidable (e.Answers w generation x)
  | .answer o now => inferInstanceAs
      (Decidable (o.worktree = w ∧ o.generation = generation ∧ e.Fair (.answer o now)))
  | .register .. | .unregister .. | .setTier .. | .setFocused .. | .ingest .. | .flushRoot ..
  | .flushDue .. | .request .. | .requestAll .. => .isFalse id

instance decidableThroughout {P : Exchange → Step → Prop} [∀ e x, Decidable (P e x)] :
    (steps : List Step) → (e : Exchange) → Decidable (Throughout P e steps)
  | [], _ => .isTrue trivial
  | x :: rest, e => @instDecidableAnd _ _ _ (decidableThroughout rest (e.step x))

section Runs

variable {e a : Exchange} {x : Step} {steps more : List Step} {w : WorktreeId} {g : Nat}

theorem run_append : e.run (steps ++ more) = (e.run steps).run more := List.foldl_append

theorem run_concat : e.run (steps ++ [x]) = (e.run steps).step x := run_append

theorem source_run : (e.run steps).source = e.source.after steps := by
  induction steps generalizing e with
  | nil => rfl
  | cons x rest ih => exact ih

theorem lawful_append : e.Lawful (steps ++ more) ↔ e.Lawful steps ∧ (e.run steps).Lawful more := by
  induction steps generalizing e with
  | nil => exact (iff_of_eq (true_and _)).symm
  | cons x rest ih => exact (and_congr_right fun _ => ih).trans and_assoc.symm

theorem lawful_concat : e.Lawful (steps ++ [x]) ↔ e.Lawful steps ∧ (e.run steps).Fair x := by
  rw [lawful_append]
  exact and_congr_right fun _ => and_iff_left trivial

theorem not_answers_of_flights_eq_nil (h : a.flights w g = []) : ¬ a.Answers w g x := by
  cases x with
  | answer o now =>
    rintro ⟨rfl, rfl, u, hu, ho⟩
    have hmem := mem_flights_of_outcome hu ho
    rw [h] at hmem
    cases hmem
  | _ => exact id

theorem Renewed.source (h : Renewed e w g steps a) : a.source = (e.run steps).source := by
  induction h with
  | demanded steps hx hg => rw [run_concat]; rfl
  | stands h hx ih => rw [run_concat, step, step, ih]

theorem Renewed.generation? (hs : e.source.Sound) (h : Renewed e w g steps a) (more : List Step)
    (hg : (e.run (steps ++ more)).source.generation? w = some g) :
    (e.run steps).source.generation? w = some g := by
  have hbetween : ∀ (front mid more : List Step),
      (e.run front).source.generation? w = some g →
      (e.run (front ++ mid ++ more)).source.generation? w = some g →
        (e.run (front ++ mid)).source.generation? w = some g := by
    intro front mid more hf hm
    rw [source_run] at hf
    rw [List.append_assoc, source_run, after_append] at hm
    rw [source_run, after_append]
    exact (hs.after front).generation?_between hf hm
  induction h generalizing more with
  | demanded steps hx hg' => exact hbetween steps _ more hg' hg
  | @stands steps a h x hx ih =>
    exact hbetween steps _ more (ih ([x] ++ more) (by rwa [← List.append_assoc])) hg

theorem Renewed.run (h : Renewed e w g steps a)
    (hm : Throughout (fun b x => ¬ b.Answers w g x) a more) :
    Renewed e w g (steps ++ more) (a.run more) := by
  induction more generalizing steps a with
  | nil => rwa [List.append_nil]
  | cons x rest ih =>
    have := ih (h.stands hm.1) hm.2
    rwa [List.append_assoc] at this

end Runs

def Promised (state : RootState) : List Unanswered → Prop
  | [] => state.queued = some .resync
  | [u] => u.request.reason = .resync
  | _ => False

section Step

variable {e a : Exchange} {x : Step} {w : WorktreeId} {state state' : RootState}
variable {us es : List Unanswered} {reasons : List ReconcileReason} {requests : List ProbeRequest}

theorem Promised.probing (h : Promised state us) (ht : Tracks state es) (hs : us = [] ∨ us = es) :
    state.probing = true := by
  match es, ht with
  | [u], ht => exact ht.1
  | [], ht =>
    have hnil : us = [] := hs.elim id id
    subst hnil
    exact absurd (ht.2.symm.trans h) (by simp)

theorem Promised.felt (h : Promised state us) (hp : state.probing = true)
    (hf : Felt w (some state) reasons requests (some state')) :
    Promised state' (us.map fun u => { u with since := u.since ++ reasons }) ∧ requests = [] := by
  cases hf with
  | still =>
    refine ⟨?_, rfl⟩
    match us, h with
    | [], h => exact h
    | [u], h => exact h
  | waits reason _ =>
    refine ⟨?_, rfl⟩
    match us, h with
    | [], h =>
      have hq : state.queued = some .resync := h
      simp only [List.map_nil, Promised, hq]
      cases reason <;> rfl
    | [u], h => exact h
  | starts path reason hn => exact absurd (hn.symm.trans hp) (by simp)

theorem Promised.of_felt (h : Promised state' us) (ht : Tracks state es)
    (hf : Felt w (some state) reasons requests (some state'))
    (hs : us = [] ∨ us = es.map (fun u => { u with since := u.since ++ reasons }) ++
      requests.map (⟨·, []⟩)) :
    (.resync ∈ reasons ∧ us = requests.map (⟨·, []⟩)) ∨
      ∃ vs, (vs = [] ∨ vs = es) ∧ Promised state vs ∧ requests = [] ∧
        us = vs.map fun u => { u with since := u.since ++ reasons } := by
  match es, ht with
  | [], ⟨hp, hq⟩ =>
    cases hf with
    | still =>
      have hnil : us = [] := hs.elim id id
      subst hnil
      exact .inr ⟨[], .inl rfl, h, rfl, rfl⟩
    | waits reason hw => exact absurd (hp.symm.trans hw) (by simp)
    | starts path reason _ =>
      rcases hs with rfl | rfl
      · exact absurd (hq.symm.trans h) (by simp)
      · have hr : reason = .resync := h
        exact .inl ⟨by rw [hr]; exact List.mem_singleton_self _, rfl⟩
  | [u], ⟨hp, hq⟩ =>
    cases hf with
    | still =>
      rcases hs with rfl | rfl
      · exact .inr ⟨[], .inl rfl, h, rfl, rfl⟩
      · exact .inr ⟨[u], .inr rfl, h, rfl, rfl⟩
    | waits reason _ =>
      rcases hs with rfl | rfl
      · rcases resync_of_queue (Option.some.inj h) with rfl | hqueued
        · exact .inl ⟨List.mem_singleton_self _, rfl⟩
        · exact .inr ⟨[], .inl rfl, hqueued, rfl, rfl⟩
      · exact .inr ⟨[u], .inr rfl, h, rfl, rfl⟩
    | starts path reason hn => exact absurd (hn.symm.trans hp) (by simp)

end Step

/-- The second exchange is what came of the first one's steps since something was demanded of the
root: of the requests of the root under its number it has all or none. -/
structure Owes (e a : Exchange) (w : WorktreeId) (generation : Nat) : Prop where
  source : a.source = e.source
  flights : a.flights w generation = [] ∨ a.flights w generation = e.flights w generation
  promised : ∃ state, e.source.state? w = some state ∧ state.generation = generation ∧
    Promised state (a.flights w generation)

section Step

variable {e a : Exchange} {x : Step} {w : WorktreeId} {g : Nat}

theorem owes_of_demand (h : e.Orderly) (hx : x.Demands w) (hg : e.source.generation? w = some g) :
    Owes (e.step x) (e.anew.step x) w g := by
  obtain ⟨state, hs, rfl⟩ := Option.map_eq_some_iff.mp hg
  obtain ⟨hasks, hfelt⟩ := felt_demand h.sound hs hx
  have hother : ∀ o now, x = .answer o now →
      o.worktree ≠ w ∨ e.source.generation? w ≠ some o.generation := by
    rcases hx with rfl | rfl <;> simp
  have hnew : (e.anew.step x).flights w state.generation =
      (requestsFor w (e.source.issued x)).map (⟨·, []⟩) :=
    flights_felt (e := e.anew) hs (hasks ▸ hfelt) hother
  have hold := flights_felt hs (hasks ▸ hfelt) hother
  have ht := h.tracks w state hs
  generalize hb : (perform e.source x).1.state? w = b at hfelt
  generalize requestsFor w (e.source.issued x) = requests at hfelt hnew hold
  cases hfelt with
  | waits reason hp =>
    refine ⟨rfl, .inl hnew, _, hb, rfl, ?_⟩
    rw [hnew]
    exact congrArg some (resync_queue _)
  | starts path reason hp =>
    have hnil : e.flights w state.generation = [] := by
      match hl : e.flights w state.generation, ht with
      | [], _ => rfl
      | [u], ht => exact absurd (hp.symm.trans ht.1) (by simp)
    refine ⟨rfl, .inr ?_, _, hb, rfl, ?_⟩
    · rw [hnew, hold, hnil]
      rfl
    · rw [hnew]
      rfl

theorem Owes.step (ho : Owes e a w g) (h : e.Orderly) (hf : e.Fair x)
    (hg : (e.step x).source.generation? w = some g) (hx : ¬ a.Answers w g x) :
    Owes (e.step x) (a.step x) w g := by
  obtain ⟨hsource, hflights, state, hs, rfl, hp⟩ := ho
  obtain ⟨state', hs', hg'⟩ := Option.map_eq_some_iff.mp hg
  have hsource' : (a.step x).source = (e.step x).source := by
    simp only [Exchange.step, hsource]
  rcases root_cases h.sound x w with ⟨hfelt, hother⟩ | ⟨path, -, hnew, -⟩ | ⟨-, hnone⟩ |
    ⟨o, now, awaited, path, rfl, rfl, ha, hi, hanswered⟩
  · -- What is asked for gives way to what is promised.
    have hs'' : (perform e.source x).1.state? w = some state' := hs'
    rw [hs, hs''] at hfelt
    obtain ⟨hp', hnone⟩ := hp.felt (hp.probing (h.tracks w state hs) hflights) hfelt
    have hold := flights_felt hs hfelt hother
    have hnew := flights_felt (e := a) (hsource ▸ hs) (hsource ▸ hfelt) (hsource ▸ hother)
    rw [hnone, List.map_nil, List.append_nil] at hold
    rw [hsource, hnone, List.map_nil, List.append_nil] at hnew
    refine ⟨hsource', ?_, state', hs', hg', hnew ▸ hp'⟩
    rw [hnew, hold]
    rcases hflights with hnil | hsame
    · exact .inl (by rw [hnil, List.map_nil])
    · exact .inr (by rw [hsame])
  · -- The number would be a new one.
    have hstate : state' = _ := Option.some.inj (hs'.symm.trans hnew)
    have hlt := h.sound.numbered w state.generation (by rw [generation?, hs]; rfl)
    rw [hstate] at hg'
    exact absurd hg' (Nat.ne_of_gt hlt)
  · have hs'' : (perform e.source x).1.state? w = some state' := hs'
    rw [hnone] at hs''
    cases hs''
  · -- Nothing issued since is under way: what is promised waits, and is issued now.
    obtain ⟨hawaited, hgeneration⟩ := awaiting?_eq_some.mp ha
    obtain rfl : state = awaited := Option.some.inj (hs.symm.trans hawaited)
    rw [hgeneration] at hflights hx hp ⊢
    have hnil : a.flights o.worktree o.generation = [] := by
      rcases hflights with hnil | hsame
      · exact hnil
      · obtain ⟨u, hu, -⟩ := h.taken hf ha
        have ho := (flights_kept_taken hu hf).1
        exact absurd ⟨rfl, rfl, fair_of_flights (hsame.trans hu) ho⟩ hx
    have hold := flights_taken h hf ha hi rfl (.inr rfl)
    have hnew := flights_taken h hf ha hi hsource (.inl hnil)
    refine ⟨hsource', .inr (hnew.trans hold.symm), state', hs', hg'.trans hgeneration, ?_⟩
    rw [hnil] at hp
    have hq : state.queued = some .resync := hp
    rw [hnew, hq]
    rfl

theorem owes_of_renewed {steps : List Step} (h : e.Orderly) (hl : e.Lawful steps)
    (hr : Renewed e w g steps a) (hg : (e.run steps).source.generation? w = some g) :
    Owes (e.run steps) a w g := by
  induction hr with
  | demanded steps hx hg' =>
    rw [run_concat]
    exact owes_of_demand (h.run (lawful_concat.mp hl).1) hx hg'
  | stands hr hx ih =>
    obtain ⟨hl', hf⟩ := lawful_concat.mp hl
    have howes := ih hl' (hr.generation? h.sound _ hg)
    rw [run_concat] at hg ⊢
    exact howes.step (h.run hl') hf hg hx

theorem not_answers_of_other {generation : Nat} (hg : e.source.generation? w = some generation)
    (hx : ∀ o now, x = .answer o now →
      o.worktree ≠ w ∨ e.source.generation? w ≠ some o.generation) :
    ¬ a.Answers w generation x := by
  cases x with
  | answer o now =>
    rintro ⟨rfl, rfl, -⟩
    exact (hx o now rfl).elim (absurd rfl) (absurd hg)
  | _ => exact id

end Step

theorem renewed_of_promised (config : FsConfig) (epoch : Nat) {steps : List Step}
    (hl : (start config epoch).Lawful steps) {w : WorktreeId} {state : RootState}
    (hs : ((start config epoch).run steps).source.state? w = some state) {us : List Unanswered}
    (hus : us = [] ∨ us = ((start config epoch).run steps).flights w state.generation)
    (hp : Promised state us) :
    ∃ a, Renewed (start config epoch) w state.generation steps a ∧
      a.flights w state.generation = us := by
  induction steps using List.reverseRecOn generalizing state us with
  | nil => cases hs
  | append_singleton steps x ih =>
    obtain ⟨hfront, hf⟩ := lawful_concat.mp hl
    have h : ((start config epoch).run steps).Orderly := (orderly_start config epoch).run hfront
    rw [run_concat] at hs hus
    generalize he : (start config epoch).run steps = e at *
    have hs' : (perform e.source x).1.state? w = some state := hs
    rcases root_cases h.sound x w with ⟨hfelt, hother⟩ | ⟨path, hi, hnew, -⟩ | ⟨-, hnone⟩ |
      ⟨o, now, before, path, rfl, rfl, ha, hi, hanswered⟩
    · rw [hs'] at hfelt
      cases hb : e.source.state? w with
      | none =>
        rw [hb] at hfelt
        cases hfelt.map_generation
      | some before =>
        rw [hb] at hfelt
        have hg : state.generation = before.generation := Option.some.inj hfelt.map_generation
        have hbefore : e.source.generation? w = some before.generation := by
          rw [generation?, hb]
          rfl
        rw [hg] at hus ⊢
        rw [flights_felt hb hfelt hother] at hus
        rcases hp.of_felt (h.tracks w before hb) hfelt hus with
          ⟨hasked, rfl⟩ | ⟨vs, hvs, hpromised, hnone, rfl⟩
        · refine ⟨_, .demanded steps (demands_of_asks hasked) (he ▸ hbefore), ?_⟩
          rw [he]
          exact flights_felt (e := e.anew) hb hfelt hother
        · obtain ⟨a, hr, rfl⟩ := ih hfront hb hvs hpromised
          have hsource : a.source = e.source := hr.source.trans (congrArg _ he)
          refine ⟨_, hr.stands (not_answers_of_other hbefore hother), ?_⟩
          rw [flights_felt (e := a) (hsource ▸ hb) (hsource ▸ hfelt) (hsource ▸ hother), hsource,
            hnone, List.map_nil, List.append_nil]
    · -- A new root waits for its first report.
      obtain rfl : state = _ := Option.some.inj (hs'.symm.trans hnew)
      rw [flights_step, h.filter_kept_next, hi] at hus
      rcases hus with rfl | rfl
      · cases hp
      · simp [requestsFor, Promised] at hp
    · rw [hnone] at hs'
      cases hs'
    · -- What was asked for meanwhile is under way.
      obtain rfl : state = _ := Option.some.inj (hs'.symm.trans hanswered)
      obtain ⟨hbefore, hg⟩ := awaiting?_eq_some.mp ha
      have hg' : (before.answered o.report).generation = o.generation := hg
      rw [hg'] at hus ⊢
      rw [flights_taken h hf ha hi rfl (.inr rfl)] at hus
      cases hq : before.queued with
      | none =>
        have hnil : us = [] := by rw [hq] at hus; exact hus.elim id id
        subst hnil
        cases hp
      | some reason =>
        rw [hq] at hus
        rcases hus with rfl | rfl
        · cases hp
        · have hreason : reason = .resync := hp
          obtain ⟨a, hr, hnil⟩ := ih hfront hbefore (.inl rfl) (hq.trans (congrArg some hreason))
          rw [hg] at hr hnil
          refine ⟨_, hr.stands (not_answers_of_flights_eq_nil hnil), ?_⟩
          rw [flights_taken h hf ha hi (hr.source.trans (congrArg _ he)) (.inl hnil), hq]

/-- A report that is taken is told in full exactly if its request asked for everything, or if all of
it is news. The request asked for everything exactly if that was demanded of the root under its
number and nothing that was issued from the demand on was answered before. So what is demanded is
told by the next report whose request was issued since, unless another request that was
issued since failed before it. -/
theorem told_in_full_iff (config : FsConfig) (epoch : Nat) {steps : List Step} {o : ProbeOutcome}
    {now : Nat} {report : StatusReport}
    (hl : (start config epoch).Lawful (steps ++ [.answer o now]))
    (ht : ((start config epoch).run steps).source.taken? o = some report) :
    let s := ((start config epoch).run steps).source
    let told := (perform s (.answer o now)).2
    (s.Publishes o.worktree report told ↔ o.reason = .resync ∨ s.AllNews o report) ∧
      (o.reason = .resync ↔ ∃ a,
        (start config epoch).Renewed o.worktree o.generation steps a ∧ a.Fair (.answer o now)) ∧
      ∀ front call mid, steps = front ++ call :: mid → call.Demands o.worktree →
        ((start config epoch).run front).source.generation? o.worktree = some o.generation →
          let a := ((start config epoch).run front).anew.step call
          Throughout (fun b x => ¬ b.Answers o.worktree o.generation x) a mid →
            (a.run mid).Fair (.answer o now) → s.Publishes o.worktree report told := by
  intro s told
  obtain ⟨hfront, hf⟩ := lawful_concat.mp hl
  have h : ((start config epoch).run steps).Orderly := (orderly_start config epoch).run hfront
  obtain ⟨state, ha, -⟩ := taken?_eq_some.mp ht
  obtain ⟨hs, hg⟩ := awaiting?_eq_some.mp ha
  obtain ⟨u, hu, -⟩ := h.taken hf ha
  have ho : u.request.outcome o.report = o := (flights_kept_taken hu hf).1
  have hreason : u.request.reason = o.reason := congrArg ProbeOutcome.reason ho
  have hpublished : s.Publishes o.worktree report told ↔
      o.reason = .resync ∨ s.AllNews o report := publishes_answer_iff h.sound ht now
  have hrenewed : o.reason = .resync ↔ ∃ a,
      (start config epoch).Renewed o.worktree o.generation steps a ∧ a.Fair (.answer o now) := by
    constructor
    · intro hr
      have hp : Promised state [u] := hreason.trans hr
      obtain ⟨a, hrenewed, hflights⟩ := renewed_of_promised config epoch hfront hs
        (.inr (hg ▸ hu.symm)) hp
      rw [hg] at hrenewed
      exact ⟨a, hrenewed, fair_of_flights hflights ho⟩
    · rintro ⟨a, hrenewed, hfair⟩
      obtain ⟨-, hflights, state', -, -, hp⟩ := owes_of_renewed (orderly_start config epoch) hfront
        hrenewed (generation?_of_taken ht)
      have hne : a.flights o.worktree o.generation ≠ [] := fun hnil =>
        not_answers_of_flights_eq_nil hnil (x := .answer o now) ⟨rfl, rfl, hfair⟩
      rw [hflights.resolve_left hne, hu] at hp
      exact hreason.symm.trans hp
  refine ⟨hpublished, hrenewed, ?_⟩
  rintro front call mid rfl hcall hgen a hunheard hfair
  have hstands := (Renewed.demanded front hcall hgen).run hunheard
  rw [List.append_assoc] at hstands
  exact hpublished.mpr (.inl (hrenewed.mpr ⟨_, hstands, hfair⟩))

def oneChange : StatusReport := ⟨⟨1, 0, 0⟩, none, [⟨"a.txt"⟩]⟩

def reportedOnce : List Step :=
  [.register ⟨"W1"⟩ ⟨"/repo"⟩ .activeInApp, .answer ⟨⟨"W1"⟩, 1, .wake, some oneChange⟩ 1]

theorem told_in_full_iff_unchanged :
    let front := reportedOnce ++ [.request ⟨"W1"⟩ .flush]
    let mid : List Step := [.request ⟨"W1"⟩ .overflow, .answer ⟨⟨"W1"⟩, 1, .flush, none⟩ 2]
    let o : ProbeOutcome := ⟨⟨"W1"⟩, 1, .resync, some oneChange⟩
    let s := ((start ⟨.standard, false, []⟩ 0).run
      (front ++ .request ⟨"W1"⟩ .resync :: mid)).source
    (start ⟨.standard, false, []⟩ 0).Lawful
        (front ++ .request ⟨"W1"⟩ .resync :: mid ++ [.answer o 3]) ∧
      s.taken? o = some oneChange ∧ s.lastReport? ⟨"W1"⟩ = some oneChange ∧
      s.Publishes ⟨"W1"⟩ oneChange (perform s (.answer o 3)).2 := by
  intro front mid o s
  have hl : (start ⟨.standard, false, []⟩ 0).Lawful
      (front ++ .request ⟨"W1"⟩ .resync :: mid ++ [.answer o 3]) := by decide +kernel
  have ht : s.taken? o = some oneChange := by decide +kernel
  refine ⟨hl, ht, by decide +kernel, ?_⟩
  exact (told_in_full_iff _ _ hl ht).2.2 front (.request ⟨"W1"⟩ .resync) mid rfl (.inl rfl)
    (by decide +kernel) (by decide +kernel) (by decide +kernel)

/-- The request to tell everything fails, and the next report is compared with the last one. -/
theorem not_always_told_in_full :
    ¬ ∀ (config : FsConfig) (epoch : Nat) (front : List Step) (call : Step) (mid : List Step)
      (o : ProbeOutcome) (now : Nat) (report : StatusReport),
      let e := (start config epoch).run (front ++ call :: mid)
      let a := ((start config epoch).run front).anew.step call
      (start config epoch).Lawful (front ++ call :: mid ++ [.answer o now]) →
        call.Demands o.worktree →
        ((start config epoch).run front).source.generation? o.worktree = some o.generation →
        e.source.taken? o = some report → (a.run mid).Fair (.answer o now) →
        Throughout (fun b x => b.Answers o.worktree o.generation x → x.report? = none) a mid →
          e.source.Publishes o.worktree report (perform e.source (.answer o now)).2 := by
  intro h
  have hpublished := h ⟨.standard, false, []⟩ 0 reportedOnce (.request ⟨"W1"⟩ .resync)
    [.answer ⟨⟨"W1"⟩, 1, .resync, none⟩ 2, .request ⟨"W1"⟩ .wake]
    ⟨⟨"W1"⟩, 1, .wake, some oneChange⟩ 3 oneChange (by decide +kernel) (.inl rfl)
    (by decide +kernel) (by decide +kernel) (by decide +kernel) (by decide +kernel)
  have hcounts := hpublished.1
  revert hcounts
  decide +kernel

end Exchange

end Switchboard
