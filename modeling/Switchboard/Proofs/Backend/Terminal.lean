import Switchboard.Backend.Terminal

/-!
# Input cut at line ends

A terminal takes its input line by line, and only the directory goes from one line to the next. So a
text that is cut behind a line end can be sent in two pieces: the same commands start in the same
directories, and the same lines are counted.
-/
namespace Switchboard

namespace TerminalEvent

def isOfLine : TerminalEvent → Bool
  | .cwdChanged _ => true
  | .commandStarted _ => true
  | _ => false

def accepted? : TerminalEvent → Option Nat
  | .inputAccepted bytes => some bytes
  | _ => none

end TerminalEvent

namespace Terminal

variable {t : Terminal} {text a b : String}

theorem completeFrom_append (current front rest : List Char) :
    completeFrom current (front ++ '\n' :: rest) =
      completeFrom current (front ++ ['\n']) ++ completeLines rest := by
  induction front generalizing current with
  | nil => rfl
  | cons c front ih =>
    by_cases hc : c = '\n'
    · subst hc
      exact congrArg (current.reverse :: ·) (ih [])
    · simp only [List.cons_append, completeFrom]
      exact ih (c :: current)

theorem completeLines_append {front rest : List Char} (h : front.getLast? = some '\n') :
    completeLines (front ++ rest) = completeLines front ++ completeLines rest := by
  obtain ⟨init, rfl⟩ := List.getLast?_eq_some_iff.mp h
  rw [List.append_assoc]
  exact completeFrom_append [] init rest

theorem length_completeFrom (current text : List Char) :
    (completeFrom current text).length = text.count '\n' := by
  induction text generalizing current with
  | nil => rfl
  | cons c text ih =>
    by_cases hc : c = '\n'
    · subst hc
      rw [completeFrom, List.length_cons, ih, List.count_cons_self]
    · rw [completeFrom, ih, List.count_cons_of_ne hc]
      exact hc

theorem length_completeLines (text : List Char) :
    (completeLines text).length = text.count '\n' := length_completeFrom [] text

theorem runLines_append (cwd : Option Path) (lines more : List (List Char)) :
    runLines cwd (lines ++ more) =
      ((runLines (runLines cwd lines).1 more).1,
        (runLines cwd lines).2 ++ (runLines (runLines cwd lines).1 more).2) := by
  induction lines generalizing cwd with
  | nil => rfl
  | cons line lines ih =>
    simp only [List.cons_append, runLines, ih, List.append_assoc]

theorem isOfLine_runLine (cwd : Option Path) (line : List Char) :
    ∀ e ∈ (runLine cwd line).2, e.isOfLine = true := by
  simp only [runLine]
  split
  · nofun
  · split <;> simp [TerminalEvent.isOfLine]

theorem isOfLine_runLines (cwd : Option Path) (lines : List (List Char)) :
    ∀ e ∈ (runLines cwd lines).2, e.isOfLine = true := by
  induction lines generalizing cwd with
  | nil => nofun
  | cons line lines ih =>
    intro e he
    rcases List.mem_append.mp he with he | he
    · exact isOfLine_runLine cwd line e he
    · exact ih _ e he

/-- The terminal when all complete lines of a text have run. -/
def after (t : Terminal) (text : String) : Terminal :=
  { t with
    cwd := (runLines t.cwd (completeLines text.toList)).1
    totalLines := t.totalLines + (completeLines text.toList).length }

def lineEvents (t : Terminal) (text : String) : List TerminalEvent :=
  (runLines t.cwd (completeLines text.toList)).2

theorem totalLines_after (t : Terminal) (text : String) :
    (t.after text).totalLines = t.totalLines + text.toList.count '\n' := by
  rw [after, length_completeLines]

theorem after_append (t : Terminal) (ha : a.toList.getLast? = some '\n') (b : String) :
    t.after (a ++ b) = (t.after a).after b := by
  simp only [after, String.toList_append, completeLines_append ha, runLines_append,
    List.length_append, Nat.add_assoc]

theorem lineEvents_append (t : Terminal) (ha : a.toList.getLast? = some '\n') (b : String) :
    t.lineEvents (a ++ b) = t.lineEvents a ++ (t.after a).lineEvents b := by
  simp only [lineEvents, after, String.toList_append, completeLines_append ha, runLines_append]

/-- What is told of the count of lines, if the text ends with a line. -/
def progress (text : String) (totalLines : Nat) : List TerminalEvent :=
  if text.toList.getLast? = some '\n' then [.outputProgress totalLines] else []

theorem progress_cases (text : String) (totalLines : Nat) :
    progress text totalLines = [.outputProgress totalLines] ∨ progress text totalLines = [] := by
  rw [progress]
  split
  · exact .inl rfl
  · exact .inr rfl

def told (t : Terminal) (text : String) : List TerminalEvent :=
  .inputAccepted text.utf8ByteSize :: t.lineEvents text ++ progress text (t.after text).totalLines

theorem filter_told (t : Terminal) (text : String) :
    (t.told text).filter TerminalEvent.isOfLine = t.lineEvents text := by
  have hprogress :
      (progress text (t.after text).totalLines).filter TerminalEvent.isOfLine = [] := by
    rcases progress_cases text (t.after text).totalLines with h | h <;> rw [h] <;> rfl
  rw [told, List.filter_append, hprogress, List.append_nil,
    List.filter_cons_of_neg Bool.false_ne_true]
  exact List.filter_eq_self.mpr (isOfLine_runLines _ _)

theorem accepted_told (t : Terminal) (text : String) :
    (t.told text).filterMap TerminalEvent.accepted? = [text.utf8ByteSize] := by
  have hlines : (t.lineEvents text).filterMap TerminalEvent.accepted? = [] := by
    refine List.filterMap_eq_nil_iff.mpr fun e he => ?_
    have hline := isOfLine_runLines _ _ e he
    cases e <;> first | rfl | cases hline
  have hprogress :
      (progress text (t.after text).totalLines).filterMap TerminalEvent.accepted? = [] := by
    rcases progress_cases text (t.after text).totalLines with h | h <;> rw [h] <;> rfl
  rw [told, List.filterMap_append, hprogress, List.append_nil]
  exact congrArg (text.utf8ByteSize :: ·) hlines

theorem getLast?_told (t : Terminal) (h : text.toList.getLast? = some '\n') :
    (t.told text).getLast? = some (.outputProgress (t.after text).totalLines) := by
  rw [told, progress, if_pos h, List.getLast?_concat]

theorem sendInput_of_alive (ht : t.alive = true) (hne : text ≠ "") :
    t.apply (.sendInput text) = (t.after text, .ok (t.told text)) := by
  have hempty : ¬ text.isEmpty = true := by simpa using hne
  rw [apply, sendInput, if_neg (by simp [ht]), if_neg hempty]
  rfl

theorem totalLines_sendInput (ht : t.alive = true) (text : String) :
    (t.apply (.sendInput text)).1.totalLines = t.totalLines + text.toList.count '\n' := by
  by_cases hne : text = ""
  · subst hne
    simp only [apply, sendInput, ht]
    rfl
  · rw [sendInput_of_alive ht hne]
    exact t.totalLines_after text

def sendAll (t : Terminal) (texts : List String) : Terminal :=
  texts.foldl (fun t text => (t.apply (.sendInput text)).1) t

theorem sendAll_pieces (ht : t.alive = true) {pieces : List String}
    (hends : ∀ piece ∈ pieces, piece.toList.getLast? = some '\n') (hb : b ≠ "") :
    t.sendAll (pieces ++ [b]) = t.after (String.join pieces ++ b) := by
  induction pieces generalizing t with
  | nil => simp [sendAll, sendInput_of_alive ht hb]
  | cons piece rest ih =>
    have hend := hends piece List.mem_cons_self
    have hpiece : piece ≠ "" := by
      rintro rfl
      cases hend
    calc t.sendAll (piece :: rest ++ [b])
      _ = (t.after piece).sendAll (rest ++ [b]) := by
        rw [sendAll, List.cons_append, List.foldl_cons, sendInput_of_alive ht hpiece]
        rfl
      _ = (t.after piece).after (String.join rest ++ b) :=
        ih ht fun other hmem => hends other (List.mem_cons_of_mem _ hmem)
      _ = t.after (piece ++ (String.join rest ++ b)) := (t.after_append hend _).symm
      _ = t.after (String.join (piece :: rest) ++ b) := by
        rw [String.join_cons, String.append_assoc]

/-- A terminal whose process runs. Input that is cut behind a line end, wherever that is, can be
sent in two pieces: the terminal is the same afterwards, what the lines cause is the same, and so is
the count of lines that is told last, if the input ends a line; the sizes that are told add up. Any
text adds its line ends to the count. -/
theorem input_splits_at_line_ends (t : Terminal) (ht : t.alive = true) :
    (∀ a b : String, a.toList.getLast? = some '\n' → b ≠ "" →
      ∃ (between after : Terminal) (first second whole : List TerminalEvent),
        t.apply (.sendInput a) = (between, .ok first) ∧
        between.apply (.sendInput b) = (after, .ok second) ∧
        t.apply (.sendInput (a ++ b)) = (after, .ok whole) ∧
        whole.filter TerminalEvent.isOfLine =
          first.filter TerminalEvent.isOfLine ++ second.filter TerminalEvent.isOfLine ∧
        (b.toList.getLast? = some '\n' →
          second.getLast? = some (.outputProgress after.totalLines) ∧
          whole.getLast? = some (.outputProgress after.totalLines)) ∧
        first.filterMap TerminalEvent.accepted? = [a.utf8ByteSize] ∧
        second.filterMap TerminalEvent.accepted? = [b.utf8ByteSize] ∧
        whole.filterMap TerminalEvent.accepted? = [a.utf8ByteSize + b.utf8ByteSize]) ∧
    ∀ text, (t.apply (.sendInput text)).1.totalLines =
      t.totalLines + text.toList.count '\n' := by
  refine ⟨fun a b ha hb => ?_, totalLines_sendInput ht⟩
  have hne : a ≠ "" := by
    rintro rfl
    cases ha
  have hall : a ++ b ≠ "" := by simp [hb]
  have hlast : (a ++ b).toList.getLast? = b.toList.getLast? := by
    have hb' : b.toList ≠ [] := by simpa using hb
    rw [String.toList_append, List.getLast?_append, List.getLast?_eq_some_getLast hb',
      Option.some_or]
  have hwhole := sendInput_of_alive ht hall
  rw [t.after_append ha] at hwhole
  refine ⟨t.after a, (t.after a).after b, t.told a, (t.after a).told b, t.told (a ++ b),
    sendInput_of_alive ht hne, sendInput_of_alive ht hb, hwhole, ?_, fun hend => ⟨?_, ?_⟩,
    t.accepted_told a, (t.after a).accepted_told b, ?_⟩
  · rw [filter_told, filter_told, filter_told, t.lineEvents_append ha]
  · exact (t.after a).getLast?_told hend
  · rw [← t.after_append ha]
    exact t.getLast?_told (hlast.trans hend)
  · rw [accepted_told, String.utf8ByteSize_append]

theorem input_splits_at_line_ends_cd :
    let t : Terminal := ⟨⟨"t"⟩, 80, 24, some ⟨"/repo"⟩, 5, true, true⟩
    let a := "ls\ncd src\n"
    let b := " \t\n cd  lib \nmake"
    t.alive = true ∧ a.toList.getLast? = some '\n' ∧ b ≠ "" ∧
      (∃ between after first second whole,
        t.apply (.sendInput a) = (between, .ok first) ∧
        between.apply (.sendInput b) = (after, .ok second) ∧
        t.apply (.sendInput (a ++ b)) = (after, .ok whole) ∧
        after.cwd = some ⟨"/repo/src/lib"⟩ ∧ after.totalLines = 9 ∧
        whole.filterMap TerminalEvent.accepted? = [10 + 17]) ∧
      (t.apply (.sendInput (a ++ b))).1.totalLines = 5 + (a ++ b).toList.count '\n' := by
  intro t a b
  have ht : t.alive = true := rfl
  have ha : a.toList.getLast? = some '\n' := by decide +kernel
  have hb : b ≠ "" := by decide +kernel
  obtain ⟨hcut, hcount⟩ := input_splits_at_line_ends t ht
  obtain ⟨between, after, first, second, whole, hfirst, hsecond, hwhole, -, -, -, -, hsize⟩ :=
    hcut a b ha hb
  have hafter : (t.apply (.sendInput (a ++ b))).1 = after := congrArg Prod.fst hwhole
  refine ⟨ht, ha, hb,
    ⟨between, after, first, second, whole, hfirst, hsecond, hwhole, ?_, ?_, hsize⟩,
    hcount (a ++ b)⟩
  · rw [← hafter]
    decide +kernel
  · rw [← hafter]
    decide +kernel

end Terminal

end Switchboard
