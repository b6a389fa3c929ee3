import Switchboard.Proofs.Notifier.Losses
import Switchboard.Proofs.Notifier.Repetition
import Switchboard.Proofs.Workspace.Steps

/-!
# Delivery

From its creation to its shutdown a workspace leaves nothing unread and nothing waiting. A critical
envelope that was told is handed out or announced as lost, unless the notifier was overtaken when
the run of the pane that told it was gone from the registry. No envelope is handed out twice, unless
the notifier was overtaken after it had been told to forget a pane that still was there.
-/
namespace Switchboard

namespace Workspace

def run (config : Config) (tree : Tree) (operations : List Operation) : Workspace :=
  ((create config tree).performAll operations).shutdown

theorem fresh_create (config : Config) (tree : Tree) : (create config tree).scene.Fresh := by
  have hnone : ∀ e, e ∉ (create config tree).scene.published := fun e he => nomatch he
  have honly : ∀ sp ∈ (create config tree).scene.speakers,
      sp = (create config tree).observer.speaker := fun sp hsp => List.mem_singleton.mp hsp
  refine ⟨⟨?_, ?_, .nil, ?_, ?_, ?_, ?_, Nat.zero_le _, ?_, ?_, ?_⟩, rfl, rfl, rfl, rfl⟩
  · exact Ring.create_eq_window config.busCapacity
  · exact List.nodup_singleton _
  · intro sp hsp
    rw [honly sp hsp]
    show ReplayBuffer.create .filesystem config.replayCapacity =
      ReplayBuffer.create .filesystem (max config.replayCapacity 1)
    simp [ReplayBuffer.create]
  · exact fun sp _ e he => absurd he (hnone e)
  · exact fun e he => absurd he (hnone e)
  · intro sp hsp pane hp
    rw [honly sp hsp] at hp
    cases hp
  · intro source stamp hst
    cases hst
  · intro v _ e he
    exact absurd (v.mem_spoken.mp he).1 (hnone e)
  · exact Reducer.tidy_create _ _

theorem settled_shutdown {ws₀ ws : Workspace} (h : ws₀.scene.Sound) (hw : ws₀.registry.Wired)
    (hg : Goes ws₀ ws) (hu : ws.shutdown.scene.Unspent) : ws.shutdown.scene.Settled := by
  obtain ⟨now, hs⟩ := scene_shutdown ws
  have hclosed := (hg.trans (goes_closeAll ws.panes ws)) hw
  rw [hs] at hu ⊢
  have hcaught := (Scene.Move.finish _ now).unspent hu
  have hsound := h.leads hclosed.2 ((Scene.Move.catchUp _).unspent hcaught)
  exact Scene.settled_finish hsound now

section Run

variable (config : Config) (tree : Tree) (operations : List Operation) {e : Envelope}

theorem leads_run :
    Scene.Leads (create config tree).scene (run config tree operations).scene :=
  (((goes_performAll operations (create config tree)).trans (goes_shutdown _))
    (Registry.wired_create _)).2

theorem settled_run (hu : (run config tree operations).scene.Unspent) :
    (run config tree operations).scene.Settled :=
  settled_shutdown (fresh_create config tree).sound (Registry.wired_create _)
    (goes_performAll operations _) hu

theorem leads_rest {before after : List Operation} {ms : Nat}
    (h : operations = before ++ .rest ms :: after) :
    Scene.Leads (create config tree).scene ((create config tree).performAll before).scene ∧
      Scene.Leads ((create config tree).performAll before).scene.catchUp
        (run config tree operations).scene := by
  have hbefore := goes_performAll before (create config tree) (Registry.wired_create _)
  have hcaught := goes_catchUp _ hbefore.1
  have hafter := (goes_rest_of_catchUp _ ms).trans
    ((goes_performAll after _).trans (goes_shutdown _)) hcaught.1
  have hrun : run config tree operations =
      ((((create config tree).performAll before).rest ms).performAll after).shutdown := by
    simp only [h, run, performAll, List.foldl_append, List.foldl_cons, perform]
  rw [hrun, ← scene_catchUp]
  exact ⟨hbefore.2, hafter.2⟩

end Run

section

variable {config : Config} {tree : Tree} {operations : List Operation} {e : Envelope}

theorem told_of_not_missed (hu : (run config tree operations).scene.Unspent)
    (he : e ∈ (run config tree operations).published) (hp : e.policy = .critical)
    (hm : ¬ Scene.MissedOnTheWay (create config tree).scene
      (run config tree operations).scene e) :
    e ∈ notified (run config tree operations).delivered ∨
      ∃ g ∈ announced (run config tree operations).delivered, g.Covers e := by
  have hl := leads_run config tree operations
  have hs := settled_run config tree operations hu
  generalize run config tree operations = ws at *
  exact (Scene.told_iff (fresh_create config tree) hl hu hs he hp).mpr hm

theorem untold_of_missed (hu : (run config tree operations).scene.Unspent)
    (he : e ∈ (run config tree operations).published) (hp : e.policy = .critical)
    (hm : Scene.MissedOnTheWay (create config tree).scene (run config tree operations).scene e) :
    ¬ (e ∈ notified (run config tree operations).delivered ∨
      ∃ g ∈ announced (run config tree operations).delivered, g.Covers e) := by
  have hl := leads_run config tree operations
  have hs := settled_run config tree operations hu
  generalize run config tree operations = ws at *
  exact fun htold => (Scene.told_iff (fresh_create config tree) hl hu hs he hp).mp htold hm

end

/-- Exactly those critical envelopes go without a word that the notifier missed. -/
theorem told_iff_not_missed (config : Config) (tree : Tree) (operations : List Operation)
    {e : Envelope} (hu : (run config tree operations).scene.Unspent)
    (he : e ∈ (run config tree operations).published) (hp : e.policy = .critical) :
    (e ∈ notified (run config tree operations).delivered ∨
        ∃ g ∈ announced (run config tree operations).delivered, g.Covers e) ↔
      ¬ Scene.MissedOnTheWay (create config tree).scene (run config tree operations).scene e := by
  constructor
  · intro htold hm
    exact untold_of_missed hu he hp hm htold
  · intro hm
    exact told_of_not_missed hu he hp hm

theorem told_of_filesystem (config : Config) (tree : Tree) (operations : List Operation)
    {e : Envelope} (hu : (run config tree operations).scene.Unspent)
    (he : e ∈ (run config tree operations).published) (hp : e.policy = .critical)
    (hfs : e.source = .filesystem) :
    e ∈ notified (run config tree operations).delivered ∨
      ∃ g ∈ announced (run config tree operations).delivered, g.Covers e :=
  told_of_not_missed hu he hp (Scene.not_missed_of_filesystem (fresh_create config tree) hu hfs)

def narrow : Config := { Config.standard with busCapacity := 1 }

def briefVisit : List Operation :=
  [.openPane ⟨⟨"p1"⟩, .diff, .empty, none⟩, .rest 4, .closePane ⟨"p1"⟩, .rest 16]

def draining : Envelope :=
  ⟨.pane ⟨"p1"⟩, none, ⟨0, 2⟩, none, none, 4, .lifecycle (.stateChanged .ready .draining)⟩

theorem unspent_briefVisit : (run narrow .empty briefVisit).scene.Unspent :=
  Scene.unspent_of_entries (by decide +kernel) (by decide +kernel)

theorem draining_mem : draining ∈ (run narrow .empty briefVisit).published := by
  decide +kernel

theorem draining_missed : Scene.MissedOnTheWay (create narrow .empty).scene
    (run narrow .empty briefVisit).scene draining := by
  have hrest : briefVisit = briefVisit.take 3 ++ .rest 16 :: [] := rfl
  obtain ⟨hl, hl'⟩ := leads_rest narrow .empty briefVisit hrest
  exact ⟨_, hl, hl', by decide +kernel⟩

theorem draining_untold :
    ¬ (draining ∈ notified (run narrow .empty briefVisit).delivered ∨
      ∃ g ∈ announced (run narrow .empty briefVisit).delivered, g.Covers draining) := fun h =>
  (told_iff_not_missed narrow .empty briefVisit unspent_briefVisit draining_mem
    (by decide)).mp h draining_missed

theorem not_always_told : ¬ ∀ (config : Config) (tree : Tree) (operations : List Operation),
    config.fault? = none → ∀ e ∈ (run config tree operations).published, e.policy = .critical →
      e ∈ notified (run config tree operations).delivered ∨
        ∃ g ∈ announced (run config tree operations).delivered, g.Covers e := by
  intro h
  have htold := h narrow .empty briefVisit (by decide) draining draining_mem (by decide)
  exact untold_of_missed unspent_briefVisit draining_mem (by decide) draining_missed htold

section

variable {config : Config} {tree : Tree} {operations : List Operation} {e : Envelope}

theorem twice_of_repeated (hu : (run config tree operations).scene.Unspent)
    (he : e ∈ (run config tree operations).published)
    (hr : Scene.RepeatedOnTheWay (create config tree).scene (run config tree operations).scene e
      (Scene.HandsAgain (run config tree operations).scene e)) :
    2 ≤ timesNotified (run config tree operations).delivered e.source e.stamp := by
  have hl := leads_run config tree operations
  have hs := settled_run config tree operations hu
  generalize run config tree operations = ws at *
  exact (Scene.notified_twice_iff (fresh_create config tree) hl hu hs he).mpr hr

theorem repeated_of_twice (hu : (run config tree operations).scene.Unspent)
    (he : e ∈ (run config tree operations).published)
    (h : 2 ≤ timesNotified (run config tree operations).delivered e.source e.stamp) :
    Scene.RepeatedOnTheWay (create config tree).scene (run config tree operations).scene e
      (Scene.HandsAgain (run config tree operations).scene e) := by
  have hl := leads_run config tree operations
  have hs := settled_run config tree operations hu
  generalize run config tree operations = ws at *
  exact (Scene.notified_twice_iff (fresh_create config tree) hl hu hs he).mp h

end

/-- Exactly those envelopes are handed out twice that the notifier took in again. -/
theorem handed_twice_iff_repeated (config : Config) (tree : Tree) (operations : List Operation)
    {e : Envelope} (hu : (run config tree operations).scene.Unspent)
    (he : e ∈ (run config tree operations).published) :
    2 ≤ timesNotified (run config tree operations).delivered e.source e.stamp ↔
      Scene.RepeatedOnTheWay (create config tree).scene (run config tree operations).scene e
        (Scene.HandsAgain (run config tree operations).scene e) := by
  constructor
  · intro htwice
    exact repeated_of_twice hu he htwice
  · intro hr
    exact twice_of_repeated hu he hr

def unboundPane : List Operation :=
  [.openPane ⟨⟨"p1"⟩, .terminal, ⟨none, none, some ⟨"W1"⟩, none⟩, none⟩, .rest 16,
    .dispatch ⟨⟨"c1"⟩, none, ⟨"p1"⟩, .updateMetadata ⟨none, none, none, none, [.worktree]⟩, 0⟩,
    .rest 16, .dispatch ⟨⟨"c2"⟩, none, ⟨"p1"⟩, .terminal (.sendInput "ls\n"), 0⟩, .rest 16]

def ready : Envelope :=
  ⟨.pane ⟨"p1"⟩, some ⟨"W1"⟩, ⟨0, 1⟩, none, none, 0, .lifecycle (.stateChanged .created .ready)⟩

theorem unspent_unboundPane : (run narrow .empty unboundPane).scene.Unspent :=
  Scene.unspent_of_entries (by decide +kernel) (by decide +kernel)

theorem ready_mem : ready ∈ (run narrow .empty unboundPane).published := by
  decide +kernel

theorem ready_repeated {again : Scene → Prop} (h : ∀ a, again a) :
    Scene.RepeatedOnTheWay (create narrow .empty).scene
      (run narrow .empty unboundPane).scene ready again := by
  have hrest : unboundPane = unboundPane.take 5 ++ .rest 16 :: [] := rfl
  obtain ⟨hl, hl'⟩ := leads_rest narrow .empty unboundPane hrest
  exact ⟨_, hl, hl', by decide +kernel, h _⟩

theorem ready_twice :
    2 ≤ timesNotified (run narrow .empty unboundPane).delivered ready.source ready.stamp :=
  (handed_twice_iff_repeated narrow .empty unboundPane unspent_unboundPane ready_mem).mpr
    (ready_repeated fun _ => .inl (by decide))

theorem not_always_once : ¬ ∀ (config : Config) (tree : Tree) (operations : List Operation),
    config.fault? = none → ∀ e ∈ (run config tree operations).published,
      timesNotified (run config tree operations).delivered e.source e.stamp ≤ 1 := by
  intro h
  have honce := h narrow .empty unboundPane (by decide) ready ready_mem
  have htwice := twice_of_repeated unspent_unboundPane ready_mem
    (ready_repeated fun _ => .inl (by decide))
  omega

end Workspace

end Switchboard
