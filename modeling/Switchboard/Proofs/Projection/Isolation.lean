import Switchboard.Proofs.Projection.Redelivery

/-!
# Panes on their own

Many panes share one projection, with one table of roots and one stream of envelopes. A pane sees
none of the others: what is done to other panes, to roots of worktrees that it is never bound to,
and what is told of a worktree that it is not bound to at that moment, can be left out without any
trace in its view. Whether something can be left out is judged in the run with everything.
-/
namespace Switchboard

namespace Projection

def boundTo? (p : Projection) (pane : PaneId) : Option WorktreeId :=
  (p.view? pane).map (·.worktree)

def hosts (p : Projection) (pane : PaneId) : List Operation → List WorktreeId
  | [] => (p.boundTo? pane).toList
  | op :: rest => (p.boundTo? pane).toList ++ (p.perform op).hosts pane rest

/-- The operation is about another pane, about the root of a worktree that is not among the given
ones, or an envelope that does not come from the filesystem source or is not labelled with the
worktree the pane is bound to. What the payload of the envelope names does not count. -/
def Foreign (p : Projection) (pane : PaneId) (ws : List WorktreeId) : Operation → Prop
  | .arrange (.bind other _ _) => other ≠ pane
  | .arrange (.unbind other) => other ≠ pane
  | .arrange (.setRoot w _) => w ∉ ws
  | .arrange (.forgetRoot w) => w ∉ ws
  | .apply e => e.source = .filesystem → ∀ w ∈ e.worktree, p.boundTo? pane ≠ some w

instance (p : Projection) (pane : PaneId) (ws : List WorktreeId) :
    (op : Operation) → Decidable (p.Foreign pane ws op)
  | .arrange (.bind other _ _) => inferInstanceAs (Decidable (other ≠ pane))
  | .arrange (.unbind other) => inferInstanceAs (Decidable (other ≠ pane))
  | .arrange (.setRoot w _) => inferInstanceAs (Decidable (w ∉ ws))
  | .arrange (.forgetRoot w) => inferInstanceAs (Decidable (w ∉ ws))
  | .apply e =>
    inferInstanceAs <| Decidable <|
      e.source = .filesystem → ∀ w ∈ e.worktree, p.boundTo? pane ≠ some w

/-- The second list is the first one without some operations, each of which is foreign to the pane
at its moment in the run of all of them. -/
inductive Thinned (pane : PaneId) (ws : List WorktreeId) :
    Projection → List Operation → List Operation → Prop where
  | done (p : Projection) : Thinned pane ws p [] []
  | keep {p : Projection} {op : Operation} {rest fewer : List Operation}
    (h : Thinned pane ws (p.perform op) rest fewer) : Thinned pane ws p (op :: rest) (op :: fewer)
  | drop {p : Projection} {op : Operation} {rest fewer : List Operation}
    (hf : p.Foreign pane ws op) (h : Thinned pane ws (p.perform op) rest fewer) :
    Thinned pane ws p (op :: rest) fewer

section Steps

variable {p q : Projection} {pane : PaneId} {w : WorktreeId}

theorem mem_hosts (h : p.boundTo? pane = some w) (operations : List Operation) :
    w ∈ p.hosts pane operations := by
  cases operations <;> simp [hosts, h]

theorem scope_congr_root {view : PaneView}
    (h : Table.get? q.roots view.worktree = Table.get? p.roots view.worktree) :
    q.scope view = p.scope view := by
  simp only [scope, h]

theorem rebound_congr (h : q.view? pane = p.view? pane) (w : WorktreeId) (cwd : Option Path) :
    q.rebound pane w cwd = p.rebound pane w cwd := by
  simp only [rebound, h]

theorem root?_perform (p : Projection) (op : Operation) (w : WorktreeId) :
    Table.get? (p.perform op).roots w = match op with
      | .arrange (.setRoot u root) => if u = w then some root else Table.get? p.roots w
      | .arrange (.forgetRoot u) => if u = w then none else Table.get? p.roots w
      | _ => Table.get? p.roots w := by
  cases op with
  | arrange a =>
    cases a with
    | bind other u cwd =>
      have hroots : (p.bind other u cwd).roots = p.roots := by rw [bind, roots_record]; rfl
      exact congrArg (Table.get? · w) hroots
    | unbind other =>
      have hroots : (p.unbind other).1.roots = p.roots := by
        simp only [unbind]
        split
        · rfl
        · rw [roots_record]
      exact congrArg (Table.get? · w) hroots
    | setRoot u root => exact Table.get?_set _ _ _ _
    | forgetRoot u => exact Table.get?_erase _ _ _
  | apply e => exact congrArg (Table.get? · w) (roots_apply p e)

theorem shown_of_foreign {e : Envelope} {view : PaneView}
    (h : e.source = .filesystem → ∀ w ∈ e.worktree, view.worktree ≠ w) : p.shown e view = view := by
  simp only [shown]
  split
  · next w event hs hw _ => exact if_neg (h hs w hw)
  · rfl

theorem view?_perform_of_foreign (hk : Keyed p) {ws : List WorktreeId} {op : Operation}
    (hf : p.Foreign pane ws op) : (p.perform op).view? pane = p.view? pane := by
  cases op with
  | arrange a =>
    cases a with
    | bind other w cwd => exact (view?_bind hk other w cwd pane).trans (if_neg hf)
    | unbind other => exact (p.view?_unbind other pane).trans (if_neg hf)
    | setRoot w root => rfl
    | forgetRoot w => rfl
  | apply e =>
    rw [perform, view?_apply hk]
    cases hv : p.view? pane with
    | none => rfl
    | some view =>
      refine congrArg some (shown_of_foreign fun hs w hw he => hf hs w hw ?_)
      rw [boundTo?, hv, Option.map_some, he]

theorem root?_perform_of_foreign {ws : List WorktreeId} {op : Operation}
    (hf : p.Foreign pane ws op) (hw : w ∈ ws) :
    Table.get? (p.perform op).roots w = Table.get? p.roots w := by
  rw [root?_perform]
  split
  · next u root => exact if_neg fun he : u = w => hf (he ▸ hw)
  · next u => exact if_neg fun he : u = w => hf (he ▸ hw)
  · rfl

theorem view?_perform_congr (hp : Keyed p) (hq : Keyed q) (hv : q.view? pane = p.view? pane)
    (hr : ∀ w, p.boundTo? pane = some w → Table.get? q.roots w = Table.get? p.roots w)
    (op : Operation) : (q.perform op).view? pane = (p.perform op).view? pane := by
  cases op with
  | arrange a =>
    cases a with
    | bind other w cwd =>
      simp only [perform, Mirror.arrange, view?_bind hp, view?_bind hq]
      by_cases ho : other = pane
      · rw [if_pos ho, if_pos ho, ho, rebound_congr hv]
      · rw [if_neg ho, if_neg ho, hv]
    | unbind other => simp only [perform, Mirror.arrange, view?_unbind, hv]
    | setRoot w root => exact hv
    | forgetRoot w => exact hv
  | apply e =>
    simp only [perform, view?_apply hp, view?_apply hq, hv]
    cases hview : p.view? pane with
    | none => rfl
    | some view =>
      have hscope : q.scope view = p.scope view :=
        scope_congr_root (hr view.worktree (by rw [boundTo?, hview]; rfl))
      simp only [Option.map_some, shown_eq, hscope]

theorem root?_perform_congr (h : Table.get? q.roots w = Table.get? p.roots w) (op : Operation) :
    Table.get? (q.perform op).roots w = Table.get? (p.perform op).roots w := by
  simp only [root?_perform, h]

end Steps

structure Abreast (pane : PaneId) (ws : List WorktreeId) (p q : Projection) : Prop where
  keyed : Keyed p
  keyed_thin : Keyed q
  view : q.view? pane = p.view? pane
  roots : ∀ w ∈ ws, Table.get? q.roots w = Table.get? p.roots w

namespace Abreast

variable {pane : PaneId} {ws : List WorktreeId} {p q : Projection} {op : Operation}

theorem keep (h : Abreast pane ws p q) (hb : ∀ w, p.boundTo? pane = some w → w ∈ ws)
    (op : Operation) : Abreast pane ws (p.perform op) (q.perform op) where
  keyed := h.keyed.perform op
  keyed_thin := h.keyed_thin.perform op
  view := view?_perform_congr h.keyed h.keyed_thin h.view (fun w hw => h.roots w (hb w hw)) op
  roots w hw := root?_perform_congr (h.roots w hw) op

theorem drop (h : Abreast pane ws p q) (hf : p.Foreign pane ws op) :
    Abreast pane ws (p.perform op) q where
  keyed := h.keyed.perform op
  keyed_thin := h.keyed_thin
  view := h.view.trans (view?_perform_of_foreign h.keyed hf).symm
  roots w hw := (h.roots w hw).trans (root?_perform_of_foreign hf hw).symm

theorem performAll (h : Abreast pane ws p q) {operations fewer : List Operation}
    (hw : ∀ w ∈ p.hosts pane operations, w ∈ ws) (ht : Thinned pane ws p operations fewer) :
    Abreast pane ws (p.performAll operations) (q.performAll fewer) := by
  -- the worktrees that are still ahead of the pane lie among the given ones, at every step
  induction ht generalizing q with
  | done p => exact h
  | @keep p op rest fewer _ ih =>
    have hrest : ∀ w ∈ (p.perform op).hosts pane rest, w ∈ ws := fun w hm =>
      hw w (List.mem_append_right _ hm)
    exact ih (h.keep (fun w hb => hw w (mem_hosts hb _)) op) hrest
  | drop hf _ ih => exact ih (h.drop hf) fun w hm => hw w (List.mem_append_right _ hm)

end Abreast

/-- What is foreign to a pane can be left out: the pane sees the same in the end. -/
theorem view?_of_thinned (capacity : Nat) (pane : PaneId) {operations fewer : List Operation}
    (h : Thinned pane ((create capacity).hosts pane operations) (create capacity) operations
      fewer) :
    ((create capacity).performAll fewer).view? pane =
      ((create capacity).performAll operations).view? pane := by
  have hk := Keyed.create capacity
  have hstart : Abreast pane ((create capacity).hosts pane operations) (create capacity)
    (create capacity) := ⟨hk, hk, rfl, fun _ _ => rfl⟩
  exact (hstart.performAll (fun _ hw => hw) h).view

def part (w : String) (n : Nat) (paths : List String) : Envelope :=
  carrying ⟨⟨w⟩, paths.map (⟨·⟩), 0, n, 1, 1⟩

def crowd : List Operation :=
  [.arrange (.setRoot ⟨"W1"⟩ ⟨"/one"⟩), .arrange (.setRoot ⟨"W3"⟩ ⟨"/three"⟩),
    .arrange (.bind ⟨"p"⟩ ⟨"W1"⟩ (some ⟨"/one/src"⟩)), .arrange (.bind ⟨"q"⟩ ⟨"W1"⟩ none),
    .apply { part "W1" 7 ["src/z"] with worktree := some ⟨"W2"⟩ },
    .apply (part "W1" 1 ["docs/b", "src/a"]),
    .apply { part "W1" 8 ["src/y"] with source := .pane ⟨"q"⟩ },
    .arrange (.bind ⟨"p"⟩ ⟨"W2"⟩ none), .apply (part "W1" 2 ["src/c"]),
    .arrange (.forgetRoot ⟨"W3"⟩), .apply (part "W2" 3 ["x"]), .arrange (.unbind ⟨"q"⟩)]

def ownOnly : List Operation :=
  [.arrange (.setRoot ⟨"W1"⟩ ⟨"/one"⟩), .arrange (.bind ⟨"p"⟩ ⟨"W1"⟩ (some ⟨"/one/src"⟩)),
    .apply (part "W1" 1 ["docs/b", "src/a"]), .arrange (.bind ⟨"p"⟩ ⟨"W2"⟩ none),
    .apply (part "W2" 3 ["x"])]

theorem view?_of_thinned_crowd :
    Thinned ⟨"p"⟩ ((create 4).hosts ⟨"p"⟩ crowd) (create 4) crowd ownOnly ∧
      ((create 4).performAll ownOnly).view? ⟨"p"⟩ = ((create 4).performAll crowd).view? ⟨"p"⟩ ∧
      (((create 4).performAll ownOnly).view? ⟨"p"⟩).map (·.changed) = some [⟨"x"⟩] := by
  have hthin : Thinned ⟨"p"⟩ ((create 4).hosts ⟨"p"⟩ crowd) (create 4) crowd ownOnly :=
    .keep <| .drop (by decide +kernel) <| .keep <| .drop (by decide +kernel) <|
      .drop (by decide +kernel) <| .keep <| .drop (by decide +kernel) <| .keep <|
      .drop (by decide +kernel) <| .drop (by decide +kernel) <| .keep <|
      .drop (by decide +kernel) <| .done _
  exact ⟨hthin, view?_of_thinned 4 ⟨"p"⟩ hthin, by decide +kernel⟩

end Projection

end Switchboard
