import Mathlib.Data.List.Infix
import Switchboard.Backend.Web

/-!
# Going back and forth

A web view is a browser with two stacks: the pages before the cursor lie behind the current page,
those after it lie ahead, the nearest ones on top. What a command makes of the history and the
cursor is what it makes of the stacks, and the view turns down what the browser cannot do.
-/
namespace Switchboard

namespace Web

theorem splitScheme_eq_some {cs scheme rest : List Char} :
    splitScheme cs = some (scheme, rest) ↔
      cs = scheme ++ schemeMark ++ rest ∧ ¬ schemeMark <:+: scheme := by
  induction cs generalizing scheme with
  | nil => simp [splitScheme, schemeMark]
  | cons c cs ih =>
    rw [splitScheme]
    by_cases hmark : schemeMark <+: c :: cs
    · rw [if_pos (by simpa using hmark), Option.some.injEq, Prod.mk.injEq]
      obtain ⟨behind, hbehind⟩ := hmark
      rw [← hbehind, List.drop_left]
      constructor
      · rintro ⟨rfl, rfl⟩
        exact ⟨rfl, by decide⟩
      · -- A mark at the front leaves no room for a scheme before the first mark.
        rintro ⟨hsplit, hfirst⟩
        rcases scheme with _ | ⟨a, _ | ⟨b, _ | ⟨d, scheme⟩⟩⟩
        · exact ⟨rfl, List.append_cancel_left hsplit⟩
        · simp [schemeMark] at hsplit
        · simp [schemeMark] at hsplit
        · simp only [schemeMark, List.cons_append, List.cons.injEq] at hsplit
          obtain ⟨rfl, rfl, rfl, -⟩ := hsplit
          exact absurd (List.prefix_append schemeMark scheme).isInfix hfirst
    · rw [if_neg (by simpa using hmark)]
      simp only [Option.map_eq_some_iff, Prod.exists, Prod.mk.injEq]
      constructor
      · rintro ⟨front, tail, htail, rfl, rfl⟩
        obtain ⟨rfl, hfirst⟩ := ih.mp htail
        refine ⟨rfl, fun h => ?_⟩
        rcases List.infix_cons_iff.mp h with h | h
        · exact hmark (h.trans ⟨schemeMark ++ tail, by simp⟩)
        · exact hfirst h
      · rintro ⟨h, hfirst⟩
        cases scheme with
        | nil => exact absurd ⟨rest, h.symm⟩ hmark
        | cons a front =>
          simp only [List.cons_append, List.cons.injEq] at h
          obtain ⟨rfl, rfl⟩ := h
          have hrest := ih.mpr ⟨rfl, fun hi => hfirst (List.infix_cons hi)⟩
          exact ⟨front, rest, hrest, rfl, rfl⟩

def AbsoluteUrl (url : String) : Prop :=
  (∃ scheme rest, url.toList = scheme ++ schemeMark ++ rest ∧ ¬ schemeMark <:+: scheme ∧
    scheme ≠ [] ∧ rest ≠ []) ∨ "about:".toList <+: url.toList

theorem isAbsoluteUrl_iff {url : String} : isAbsoluteUrl url = true ↔ AbsoluteUrl url := by
  rw [isAbsoluteUrl, Bool.or_eq_true, List.isPrefixOf_iff_prefix, AbsoluteUrl]
  refine or_congr_left ?_
  constructor
  · intro h
    split at h
    · next scheme rest hs =>
      obtain ⟨hurl, hfirst⟩ := splitScheme_eq_some.mp hs
      exact ⟨scheme, rest, hurl, hfirst, by simpa using h⟩
    · cases h
  · rintro ⟨scheme, rest, hurl, hfirst, hne⟩
    rw [splitScheme_eq_some.mpr ⟨hurl, hfirst⟩]
    simpa using hne

instance (url : String) : Decidable (AbsoluteUrl url) := decidable_of_iff _ isAbsoluteUrl_iff

end Web

/-- The pages behind the one that is shown and those ahead of it, the nearest ones first. -/
inductive Browser where
  | blank
  | showing (behind : List String) (page : String) (ahead : List String)
  deriving DecidableEq

namespace Browser

def page? : Browser → Option String
  | .blank => none
  | .showing _ page _ => some page

def behind : Browser → List String
  | .blank => []
  | .showing behind _ _ => behind

def ahead : Browser → List String
  | .blank => []
  | .showing _ _ ahead => ahead

/-- The browser after a command, unless it cannot be done. A new page is put before the current one,
and what was ahead is gone; a step moves one page from stack to stack. -/
def visit? : Browser → WebCommand → Option Browser
  | b, .navigate url =>
    if Web.AbsoluteUrl url then some (.showing (b.page?.toList ++ b.behind) url []) else none
  | .showing behind page ahead, .reload => some (.showing behind page ahead)
  | .showing (last :: behind) page ahead, .goBack => some (.showing behind last (page :: ahead))
  | .showing behind page (next :: ahead), .goForward => some (.showing (page :: behind) next ahead)
  | _, _ => none

def visitAll (b : Browser) (commands : List WebCommand) : Browser :=
  commands.foldl (fun b command => (b.visit? command).getD b) b

def told (b : Browser) (command : WebCommand) : List WebEvent :=
  match b.page? with
  | none => []
  | some page =>
    [.navigationStarted page, .loadProgress 100, .navigationCompleted page,
      .titleChanged (Web.titleOf page)] ++
    if command = .reload then [] else [.historyChanged (b.behind ≠ []) (b.ahead ≠ [])]

variable {b b' : Browser}

theorem goForward_of_goBack (h : b.visit? .goBack = some b') : b'.visit? .goForward = some b := by
  match b with
  | .blank => cases h
  | .showing [] _ _ => cases h
  | .showing (_ :: _) _ _ =>
    cases h
    rfl

theorem goBack_of_goForward (h : b.visit? .goForward = some b') : b'.visit? .goBack = some b := by
  match b with
  | .blank => cases h
  | .showing _ _ [] => cases h
  | .showing _ _ (_ :: _) =>
    cases h
    rfl

end Browser

namespace Web

def Shows (w : Web) : Browser → Prop
  | .blank => w.history = [] ∧ w.cursor = 0
  | .showing behind page ahead =>
    w.history = behind.reverse ++ page :: ahead ∧ w.cursor = behind.length

def applyAll (w : Web) (commands : List WebCommand) : Web :=
  commands.foldl (fun w command => (w.apply command).1) w

def refusal : WebCommand → String
  | .navigate url => "not an absolute url: " ++ Text.quoted url
  | .reload => "nothing to reload"
  | .goBack => "no back history"
  | .goForward => "no forward history"

/-- The view does with the command what the browser does: it shows the new page, or turns the
command down and stays as it is. -/
def Obeys (w : Web) (b : Browser) (command : WebCommand) : Prop :=
  match b.visit? command with
  | some b' => ∃ history cursor, { w with history, cursor }.Shows b' ∧
      w.apply command = ({ w with history, cursor }, .ok (b'.told command))
  | none => w.apply command = (w, .error (.invalid (refusal command)))

variable {w : Web} {b b' : Browser} {command : WebCommand}

theorem obeys_of_refused (hv : b.visit? command = none)
    (hreply : w.apply command = (w, .error (.invalid (refusal command)))) : w.Obeys b command := by
  rw [Obeys, hv]
  exact hreply

theorem obeys_of_done {history : List String} {cursor : Nat} (hv : b.visit? command = some b')
    (hshows : { w with history, cursor }.Shows b')
    (hreply : w.apply command = ({ w with history, cursor }, .ok (b'.told command))) :
    w.Obeys b command := by
  rw [Obeys, hv]
  exact ⟨history, cursor, hshows, hreply⟩

namespace Shows

theorem current? (h : w.Shows b) : w.current? = b.page? := by
  cases b with
  | blank => simp [Web.current?, h.1, Browser.page?]
  | showing behind page ahead => simp [Web.current?, h.1, h.2, Browser.page?]

theorem canGoBack (h : w.Shows b) : w.canGoBack = decide (b.behind ≠ []) := by
  cases b with
  | blank => simp [Web.canGoBack, h.1, Browser.behind]
  | showing behind page ahead =>
    cases behind <;> simp [Web.canGoBack, h.1, h.2, Browser.behind]

theorem canGoForward (h : w.Shows b) : w.canGoForward = decide (b.ahead ≠ []) := by
  cases b with
  | blank => simp [Web.canGoForward, h.1, h.2, Browser.ahead]
  | showing behind page ahead =>
    cases ahead <;> simp [Web.canGoForward, h.1, h.2, Browser.ahead]

theorem in_bounds (h : w.Shows b) :
    w.cursor < w.history.length ∨ w.history = [] ∧ w.cursor = 0 := by
  cases b with
  | blank => exact .inr h
  | showing behind page ahead =>
    left
    simp [h.1, h.2]

theorem moved (h : w.Shows b) (hpage : b.page? ≠ none) (hc : command ≠ .reload) :
    w.moved = (w, .ok (b.told command)) := by
  obtain ⟨page, hp⟩ := Option.ne_none_iff_exists'.mp hpage
  simp only [Web.moved, historyChanged, h.current?, h.canGoBack, h.canGoForward, Browser.told, hp,
    if_neg hc, Option.getD_some, load]

theorem obeys (h : w.Shows b) (command : WebCommand) : w.Obeys b command := by
  cases command with
  | navigate url =>
    by_cases hurl : AbsoluteUrl url
    · have hkept : (if w.history.isEmpty then [] else w.history.take (w.cursor + 1)) =
          b.behind.reverse ++ b.page?.toList := by
        cases b with
        | blank => simp [h.1, Browser.behind, Browser.page?]
        | showing behind page ahead =>
          simp [h.1, h.2, Browser.behind, Browser.page?, List.take_append, List.take_of_length_le]
      have hshows : Shows { w with
          history := b.behind.reverse ++ b.page?.toList ++ [url]
          cursor := (b.behind.reverse ++ b.page?.toList).length }
          (.showing (b.page?.toList ++ b.behind) url []) := by
        cases b <;> simp [Shows, Browser.behind, Browser.page?]
      refine obeys_of_done (if_pos hurl) hshows ?_
      rw [Web.apply, if_pos (isAbsoluteUrl_iff.mpr hurl), hkept]
      exact hshows.moved (by simp [Browser.page?]) (by simp)
    · exact obeys_of_refused (if_neg hurl) (if_neg (mt isAbsoluteUrl_iff.mp hurl))
  | reload =>
    have hcurrent := h.current?
    cases b with
    | blank =>
      refine obeys_of_refused rfl ?_
      rw [Web.apply, hcurrent]
      rfl
    | showing behind page ahead =>
      refine obeys_of_done rfl h ?_
      rw [Web.apply, hcurrent]
      simp [Browser.told, Browser.page?, load]
  | goBack =>
    have hcan := h.canGoBack
    match b with
    | .blank => exact obeys_of_refused rfl (if_neg (by simp [hcan, Browser.behind]))
    | .showing [] page ahead => exact obeys_of_refused rfl (if_neg (by simp [hcan, Browser.behind]))
    | .showing (last :: behind) page ahead =>
      have hshows : { w with cursor := w.cursor - 1 }.Shows
          (.showing behind last (page :: ahead)) := by
        simp [Shows, h.1, h.2]
      refine obeys_of_done rfl hshows ?_
      rw [Web.apply, if_pos (by simp [hcan, Browser.behind])]
      exact hshows.moved (by simp [Browser.page?]) (by simp)
  | goForward =>
    have hcan := h.canGoForward
    match b with
    | .blank => exact obeys_of_refused rfl (if_neg (by simp [hcan, Browser.ahead]))
    | .showing behind page [] => exact obeys_of_refused rfl (if_neg (by simp [hcan, Browser.ahead]))
    | .showing behind page (next :: ahead) =>
      have hshows : { w with cursor := w.cursor + 1 }.Shows
          (.showing (page :: behind) next ahead) := by
        simp [Shows, h.1, h.2]
      refine obeys_of_done rfl hshows ?_
      rw [Web.apply, if_pos (by simp [hcan, Browser.ahead])]
      exact hshows.moved (by simp [Browser.page?]) (by simp)

theorem apply (h : w.Shows b) (command : WebCommand) :
    (w.apply command).1.Shows ((b.visit? command).getD b) := by
  have hobeys := h.obeys command
  simp only [Obeys] at hobeys
  split at hobeys
  · next b' hv =>
    obtain ⟨history, cursor, hshows, hreply⟩ := hobeys
    rw [hreply, hv]
    exact hshows
  · next hv =>
    rw [hobeys, hv]
    exact h

theorem applyAll (h : w.Shows b) (commands : List WebCommand) :
    (w.applyAll commands).Shows (b.visitAll commands) := by
  induction commands generalizing w b with
  | nil => exact h
  | cons command commands ih => exact ih (h.apply command)

theorem unique {w' : Web} (h : w.Shows b) (h' : w'.Shows b) :
    w.history = w'.history ∧ w.cursor = w'.cursor := by
  cases b with
  | blank => exact ⟨h.1.trans h'.1.symm, h.2.trans h'.2.symm⟩
  | showing behind page ahead => exact ⟨h.1.trans h'.1.symm, h.2.trans h'.2.symm⟩

theorem returns (h : w.Shows b) {there back : WebCommand} {events : List WebEvent}
    (hback : ∀ b', b.visit? there = some b' → b'.visit? back = some b)
    (hthere : (w.apply there).2 = .ok events) :
    ∃ told, (w.apply there).1.apply back = (w, .ok told) := by
  have hobeys := h.obeys there
  simp only [Obeys] at hobeys
  split at hobeys
  · next b' hv =>
    obtain ⟨history, cursor, hshows, hreply⟩ := hobeys
    have hreturn := hshows.obeys back
    simp only [Obeys, hback b' hv] at hreturn
    obtain ⟨history', cursor', hshows', hreply'⟩ := hreturn
    obtain ⟨hh, hc⟩ := hshows'.unique h
    refine ⟨b.told back, ?_⟩
    rw [hreply, hreply', show history' = w.history from hh, show cursor' = w.cursor from hc]
  · next hv =>
    rw [hobeys] at hthere
    cases hthere

end Shows

/-- After any commands the history and the cursor of a view are the two stacks and the current page
of a browser that was given the same commands, and the cursor is in bounds. The next command does
what it does in the browser: it is turned down, with nothing changed, exactly if the browser cannot
do it, and otherwise loads the page that is current then and tells which stacks are empty. Going
back and going forward take each other back. -/
theorem is_two_stack_browser (pane : PaneId) (isOpen : Bool) (commands : List WebCommand) :
    let w := { create pane with isOpen }.applyAll commands
    let b := Browser.blank.visitAll commands
    w.Shows b ∧ (w.cursor < w.history.length ∨ w.history = [] ∧ w.cursor = 0) ∧
    (∀ command, w.Obeys b command) ∧
    (∀ events, (w.apply .goBack).2 = .ok events →
      ∃ told, (w.apply .goBack).1.apply .goForward = (w, .ok told)) ∧
    ∀ events, (w.apply .goForward).2 = .ok events →
      ∃ told, (w.apply .goForward).1.apply .goBack = (w, .ok told) := by
  intro w b
  have hstart : { create pane with isOpen }.Shows .blank := ⟨rfl, rfl⟩
  have h : w.Shows b := hstart.applyAll commands
  exact ⟨h, h.in_bounds, h.obeys,
    fun _ hback => h.returns (fun _ => Browser.goForward_of_goBack) hback,
    fun _ hforward => h.returns (fun _ => Browser.goBack_of_goForward) hforward⟩

example : Browser.blank.visitAll [.navigate "a://1", .navigate "a://2", .navigate "a://3", .goBack,
    .navigate "a://4", .goBack] = .showing ["a://1"] "a://2" ["a://4"] := by
  decide +kernel

end Web

end Switchboard
