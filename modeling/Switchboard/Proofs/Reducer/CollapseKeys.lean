import Switchboard.Proofs.Reducer.Runs

/-!
# Which envelopes share a key

The key of a lossy envelope is its source, its worktree and what it tells of, put together with
slashes. What it tells of can be read off the end of the key again, but where the name of the pane
ends and the worktree begins cannot: a pane shadows another one if the part of the other one's name
behind a slash stands at the front of its own worktree. Apart from such pairs envelopes with one key
belong to one stream, and only a shadow can take the last envelope of a stream out of a batch.
-/
namespace Switchboard

theorem append_eq_append_iff {s t s' t' : String} : s ++ t = s' ++ t' ↔
    (∃ m, s' = s ++ m ∧ t = m ++ t') ∨ ∃ m, s = s' ++ m ∧ t' = m ++ t := by
  constructor
  · intro h
    have hl : s.toList ++ t.toList = s'.toList ++ t'.toList := by
      rw [← String.toList_append, h, String.toList_append]
    refine (List.append_eq_append_iff.mp hl).imp ?_ ?_
    all_goals
      rintro ⟨m, hs, ht⟩
      refine ⟨.ofList m, String.toList_inj.mp ?_, String.toList_inj.mp ?_⟩
      · rw [hs, String.toList_append, String.toList_ofList]
      · rw [ht, String.toList_append, String.toList_ofList]
  · rintro (⟨m, rfl, rfl⟩ | ⟨m, rfl, rfl⟩)
    · rw [String.append_assoc]
    · rw [String.append_assoc]

theorem append_slash_inj {s s' n n' : String} (hn : '/' ∉ n.toList) (hn' : '/' ∉ n'.toList) :
    s ++ ("/" ++ n) = s' ++ ("/" ++ n') ↔ s = s' ∧ n = n' := by
  -- a longer front would push its slash into the name
  have hcut : ∀ {m n n' : String}, '/' ∉ n.toList → "/" ++ n = m ++ ("/" ++ n') →
      m = "" ∧ n = n' := by
    intro m n n' hn h
    have hl : '/' :: n.toList = m.toList ++ '/' :: n'.toList := by
      simpa using congrArg String.toList h
    cases hm : m.toList with
    | nil =>
      rw [hm, List.nil_append] at hl
      exact ⟨String.toList_inj.mp hm, String.toList_inj.mp (List.cons.inj hl).2⟩
    | cons c cs =>
      rw [hm, List.cons_append] at hl
      refine absurd ?_ hn
      rw [(List.cons.inj hl).2]
      exact List.mem_append_right _ List.mem_cons_self
  constructor
  · intro h
    rcases append_eq_append_iff.mp h with ⟨m, hs, ht⟩ | ⟨m, hs, ht⟩
    · obtain ⟨rfl, rfl⟩ := hcut hn ht
      exact ⟨(hs.trans String.append_empty).symm, rfl⟩
    · obtain ⟨rfl, rfl⟩ := hcut hn' ht
      exact ⟨hs.trans String.append_empty, rfl⟩
  · rintro ⟨rfl, rfl⟩
    rfl

namespace LossyValue

theorem slash_notMem_name (v : LossyValue) : '/' ∉ v.name.toList := by
  cases v <;> decide

theorem name_injective : Function.Injective name := by
  intro v w h
  cases v <;> cases w <;> first | rfl | exact absurd h (by decide)

end LossyValue

namespace Envelope

def tail : Option WorktreeId → String
  | none => ""
  | some w => "/" ++ w.name

theorem tail_injective : Function.Injective tail := by
  have hsome : ∀ w : WorktreeId, tail (some w) ≠ "" := by
    intro w h
    simpa [tail] using congrArg String.toList h
  intro w w' h
  cases w with
  | none =>
    cases w' with
    | none => rfl
    | some w' => exact absurd h.symm (hsome w')
  | some w =>
    cases w' with
    | none => exact absurd h (hsome w)
    | some w' =>
      have hname : w.name = w'.name := (String.append_right_inj _).mp h
      cases w
      cases w'
      exact congrArg (fun name => some (WorktreeId.mk name)) hname

theorem slash_of_tail {w w' : Option WorktreeId} {m : String} (h : tail w = m ++ tail w') :
    m = "" ∨ ∃ x, m = "/" ++ x := by
  cases hm : m.toList with
  | nil => exact .inl (String.toList_inj.mp hm)
  | cons c cs =>
    have hl := congrArg String.toList h
    rw [String.toList_append, hm] at hl
    cases w with
    | none => cases hl
    | some n =>
      have hc : '/' = c := by
        rw [tail, String.toList_append] at hl
        exact (List.cons.inj hl).1
      refine .inr ⟨.ofList cs, String.toList_inj.mp ?_⟩
      simp [hm, ← hc]

theorem lossyKey_eq (source : Source) (worktree : Option WorktreeId) (v : LossyValue) :
    lossyKey source worktree v = source.text ++ tail worktree ++ ("/" ++ v.name) := by
  cases worktree with
  | none => rw [lossyKey, tail, String.append_empty, String.append_assoc]
  | some w => simp only [lossyKey, tail, String.append_assoc]

/-- The name of the other pane goes on with a slash and a part that stands at the front of this
one's worktree. -/
def Shadows (e other : Envelope) : Prop :=
  ∃ p q x, e.source = .pane p ∧ other.source = .pane q ∧ q.name = p.name ++ ("/" ++ x) ∧
    tail e.worktree = "/" ++ x ++ tail other.worktree

theorem Shadows.text_eq {a b : Envelope} (h : a.Shadows b) :
    a.source.text ++ tail a.worktree = b.source.text ++ tail b.worktree := by
  obtain ⟨p, q, x, ha, hb, hname, htail⟩ := h
  simp only [ha, hb, Source.text, hname, htail, String.append_assoc]

theorem shadows_of_split {a b : Envelope} {p q : PaneId} {m : String} (ha : a.source = .pane p)
    (hb : b.source = .pane q) (hname : q.name = p.name ++ m)
    (htail : tail a.worktree = m ++ tail b.worktree) :
    a.source = b.source ∧ a.worktree = b.worktree ∨ a.Shadows b := by
  rcases slash_of_tail htail with rfl | ⟨x, rfl⟩
  · rw [String.empty_append] at htail
    rw [String.append_empty] at hname
    refine .inl ⟨?_, tail_injective htail⟩
    rw [ha, hb]
    cases p
    cases q
    exact congrArg (Source.pane ⟨·⟩) hname.symm
  · exact .inr ⟨p, q, x, ha, hb, hname, htail⟩

theorem text_eq_iff (a b : Envelope) :
    a.source.text ++ tail a.worktree = b.source.text ++ tail b.worktree ↔
      a.source = b.source ∧ a.worktree = b.worktree ∨ a.Shadows b ∨ b.Shadows a := by
  constructor
  · intro h
    have hapart : ∀ (p : PaneId) (s : SystemSource) (t t' : String),
        (Source.pane p).text ++ t ≠ (Source.system s).text ++ t' := by
      intro p s t t' heq
      have hhead := congrArg (·.toList.head?) heq
      simp [Source.text] at hhead
    cases ha : a.source with
    | pane p =>
      cases hb : b.source with
      | pane q =>
        rw [ha, hb, Source.text, Source.text, String.append_assoc, String.append_assoc,
          String.append_right_inj] at h
        rcases append_eq_append_iff.mp h with ⟨m, hname, htail⟩ | ⟨m, hname, htail⟩
        · exact (shadows_of_split ha hb hname htail).imp (ha ▸ hb ▸ ·) .inl
        · exact (shadows_of_split hb ha hname htail).imp
            (fun h => ⟨(ha ▸ hb ▸ h.1).symm, h.2.symm⟩) .inr
      | system s => exact absurd (ha ▸ hb ▸ h) (hapart p s _ _)
    | system s =>
      cases hb : b.source with
      | pane q => exact absurd (ha ▸ hb ▸ h).symm (hapart q s _ _)
      | system s' =>
        rw [ha, hb] at h
        exact .inl ⟨rfl, tail_injective (String.append_right_inj _ |>.mp h)⟩
  · rintro (⟨hs, hw⟩ | h | h)
    · rw [hs, hw]
    · exact h.text_eq
    · exact h.text_eq.symm

theorem policy_of_lossy?_eq_some {e : Envelope} {v : LossyValue} (h : e.event.lossy? = some v) :
    e.policy = .lossy (lossyKey e.source e.worktree v) := by
  simp only [policy, h]

theorem policy_of_lossy?_eq_none {e : Envelope} (h : e.event.lossy? = none) :
    e.policy = .critical := by
  simp only [policy, h]

theorem policy_eq_iff {a b : Envelope} {v w : LossyValue} (ha : a.event.lossy? = some v)
    (hb : b.event.lossy? = some w) : a.policy = b.policy ↔
      v = w ∧ (a.source = b.source ∧ a.worktree = b.worktree ∨ a.Shadows b ∨ b.Shadows a) := by
  rw [policy_of_lossy?_eq_some ha, policy_of_lossy?_eq_some hb, DeliveryPolicy.lossy.injEq,
    lossyKey_eq, lossyKey_eq, append_slash_inj v.slash_notMem_name w.slash_notMem_name,
    text_eq_iff, LossyValue.name_injective.eq_iff, and_comm]

/-- Of two lossy envelopes of different streams the later one takes the place of the earlier one
exactly if they tell of the same thing and one is a shadow. -/
theorem replacedBy_iff_shadowed {e later : Envelope} {v : LossyValue}
    (he : e.event.lossy? = some v) (hother : later.event.lossy? = some v →
      later.source = e.source → later.worktree ≠ e.worktree) :
    e.replacedBy later = true ↔
      later.event.lossy? = some v ∧ (e.Shadows later ∨ later.Shadows e) := by
  rw [replacedBy_of_lossy (policy_of_lossy?_eq_some he), ← policy_of_lossy?_eq_some he, eq_comm]
  cases hv : later.event.lossy? with
  | none =>
    rw [policy_of_lossy?_eq_some he, policy_of_lossy?_eq_none hv]
    exact iff_of_false (fun h => nomatch h) fun h => nomatch h.1
  | some w =>
    rw [policy_eq_iff he hv, Option.some.injEq, eq_comm (a := w)]
    refine and_congr_right fun hw => or_iff_right fun hsame => ?_
    exact hother (hw ▸ hv) hsame.1.symm hsame.2.symm

end Envelope

/-- Which envelopes have the key of a lossy envelope, and when it is missing from the next batch as
the last of its stream: only shadows make a difference to what source, worktree and kind say. -/
theorem collapse_iff_shadowed {e : Envelope} {v : LossyValue} (he : e.event.lossy? = some v) :
    (∀ (other : Envelope) (w : LossyValue), other.event.lossy? = some w →
      (e.policy = other.policy ↔ v = w ∧
        (e.source = other.source ∧ e.worktree = other.worktree ∨
          e.Shadows other ∨ other.Shadows e))) ∧
    ∀ (frame begin now : Nat) (requests : List Request) (before behind : List Envelope),
      let c := (Course.start frame begin).run requests
      c.since.filterMap Entry.envelope? = before ++ e :: behind →
      (∀ x ∈ behind, x.event.lossy? = some v → x.source = e.source → x.worktree ≠ e.worktree) →
      (e ∈ (c.reducer.flush now).2.notifications.map (·.envelope) ↔
        ∀ x ∈ behind, x.event.lossy? = some v → ¬ (e.Shadows x ∨ x.Shadows e)) := by
  refine ⟨fun other w => Envelope.policy_eq_iff he, ?_⟩
  intro frame begin now requests before behind c hpushed hlast
  have hcollects := (Course.Sound.run frame begin requests).collects
  have hbatch : (c.reducer.flush now).2.notifications.map (·.envelope) =
      (c.reducer.resolver.arrange (owed (before ++ e :: behind))).map (·.envelope) := by
    rw [← hpushed]
    exact congrArg (fun b => b.notifications.map (·.envelope)) (hcollects.batch_eq (.refl _) now)
  have hnot : e ∉ behind := fun hmem => hlast e hmem he rfl rfl
  rw [hbatch, Resolver.mem_arrange, owed, mem_standing_iff hnot]
  refine forall₂_congr fun x hx => ?_
  rw [Envelope.replacedBy_iff_shadowed he (hlast x hx), not_and]

/-- The titles of two panes, of which one is named like the other one together with its worktree,
have one key, and only the later title is handed out. -/
theorem not_always_scoped :
    let titled (pane : String) (worktree : Option WorktreeId) (title : String) : Envelope :=
      ⟨.pane ⟨pane⟩, worktree, ⟨0, 1⟩, none, none, 0, .terminal (.titleChanged title)⟩
    let a := titled "a" (some ⟨"b"⟩) "one"
    let b := titled "a/b" none "two"
    a.source ≠ b.source ∧ a.worktree ≠ b.worktree ∧
      a.policy = .lossy "pane:a/b/terminal.title" ∧ b.policy = .lossy "pane:a/b/terminal.title" ∧
      ((((Reducer.create 16 0).push a).push b).flush 16).2 = ⟨16, [⟨.p3, b⟩], 1, []⟩ := by
  decide +kernel

theorem collapse_iff_shadowed_slash :
    let said (pane worktree : String) (event : TerminalEvent) : Envelope :=
      ⟨.pane ⟨pane⟩, some ⟨worktree⟩, ⟨0, 1⟩, none, none, 0, .terminal event⟩
    let moved := said "a" "b/c" (.cwdChanged ⟨"/tmp"⟩)
    let a := said "a" "b/c" (.titleChanged "one")
    let b := said "a/b" "c" (.titleChanged "two")
    let requests : List Request :=
      [.enter (.envelope moved), .enter (.envelope a), .enter (.envelope b)]
    let handedOut := (((Course.start 16 0).run requests).reducer.flush 0).2.notifications
    a.policy = b.policy ∧ a ∉ handedOut.map (·.envelope) ∧ moved ∈ handedOut.map (·.envelope) := by
  intro said moved a b requests handedOut
  have hshadow : a.Shadows b := ⟨⟨"a"⟩, ⟨"a/b"⟩, "b", rfl, rfl, by decide, by decide⟩
  have ha : a.event.lossy? = some .terminalTitle := rfl
  have hmoved : moved.event.lossy? = some .terminalCwd := rfl
  have hlost := (collapse_iff_shadowed ha).2 16 0 0 requests [moved] [b] rfl (by decide)
  have hkept := (collapse_iff_shadowed hmoved).2 16 0 0 requests [] [a, b] rfl (by decide)
  have hother : ∀ x ∈ [a, b], x.event.lossy? ≠ some .terminalCwd := by decide
  refine ⟨((collapse_iff_shadowed ha).1 b _ rfl).mpr ⟨rfl, .inr (.inl hshadow)⟩, ?_, ?_⟩
  · exact fun hmem => hlost.mp hmem b (List.mem_singleton_self b) rfl (.inl hshadow)
  · exact hkept.mpr fun x hx hv => absurd hv (hother x hx)

end Switchboard
