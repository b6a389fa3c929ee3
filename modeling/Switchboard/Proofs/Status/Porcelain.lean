import Mathlib.Data.List.DropRight
import Switchboard.Proofs.Path.Set
import Switchboard.Status.Porcelain

/-!
# Reading written status lines

The lines of a status report as they are written: headers, entries of changed files with their code
and a fixed number of fields before the path, untracked and ignored paths. What is read from the
written lines is a matter of the lines alone: each line is found again, its path whole, and counts
for what its code says.
-/
namespace Switchboard

namespace Text

theorem dropReturn_of_not_mem {line : List Char} (h : '\r' ∉ line) : dropReturn line = line := by
  rw [dropReturn]
  split
  · next rest hr =>
    refine absurd ?_ h
    rw [← List.mem_reverse, hr]
    exact List.mem_cons_self
  · rfl

theorem linesFrom_append {line : List Char} (h : '\n' ∉ line) (current rest : List Char) :
    linesFrom current (line ++ '\n' :: rest) =
      dropReturn (current.reverse ++ line) :: linesFrom [] rest := by
  induction line generalizing current with
  | nil => simp [linesFrom]
  | cons c line ih =>
    obtain ⟨hc, hline⟩ := not_or.mp (mt List.mem_cons.mpr h)
    rw [List.cons_append, linesFrom, ih hline, List.reverse_cons, List.append_assoc,
      List.singleton_append]
    exact fun hnl => hc hnl.symm

theorem lines_flatMap {texts : List (List Char)} (h : ∀ cs ∈ texts, '\n' ∉ cs ∧ '\r' ∉ cs) :
    lines (texts.flatMap (· ++ ['\n'])) = texts := by
  induction texts with
  | nil => rfl
  | cons cs texts ih =>
    obtain ⟨⟨hn, hr⟩, hrest⟩ := List.forall_mem_cons.mp h
    rw [List.flatMap_cons, List.append_assoc, List.singleton_append, lines, linesFrom_append hn,
      List.reverse_nil, List.nil_append, dropReturn_of_not_mem hr]
    exact congrArg (cs :: ·) (ih hrest)

end Text

namespace Status.Porcelain

def OneLine (cs : List Char) : Prop := '\n' ∉ cs ∧ '\r' ∉ cs

def Unbroken (cs : List Char) : Prop := ' ' ∉ cs ∧ OneLine cs

instance : DecidablePred OneLine := fun cs =>
  inferInstanceAs (Decidable ('\n' ∉ cs ∧ '\r' ∉ cs))

instance : DecidablePred Unbroken := fun cs => inferInstanceAs (Decidable (' ' ∉ cs ∧ OneLine cs))

inductive Kind where
  | ordinary
  | renamed (origin : List Char)
  | unmerged

namespace Kind

def mark : Kind → Char
  | .ordinary => '1'
  | .renamed _ => '2'
  | .unmerged => 'u'

def fields : Kind → Nat
  | .ordinary => 6
  | .renamed _ => 7
  | .unmerged => 8

def behindPath : Kind → List Char
  | .renamed origin => '\t' :: origin
  | _ => []

end Kind

/-- An entry of a changed file, with a code of two letters. A path that another one follows must not
hold the tab between them. -/
structure Entry where
  kind : Kind
  staged : Char
  changed : Char
  fields : List (List Char)
  path : List Char
  known : staged ≠ '?'
  code_unbroken : Unbroken [staged, changed]
  count : fields.length = kind.fields
  fields_unbroken : ∀ field ∈ fields, Unbroken field
  path_oneLine : OneLine path
  behind_oneLine : OneLine kind.behindPath
  no_tab : ∀ origin, kind = .renamed origin → '\t' ∉ path

inductive Row where
  | head (branch : List Char) (h : OneLine branch)
  | header (text : List Char) (h : OneLine text) (other : ¬ headMark <+: '#' :: text)
  | entry (e : Entry)
  | untracked (path : List Char) (h : OneLine path)
  | ignored (path : List Char) (h : OneLine path)

def Entry.words (e : Entry) : List (List Char) := [e.kind.mark] :: [e.staged, e.changed] :: e.fields

def Entry.text (e : Entry) : List Char :=
  e.words.flatMap (· ++ [' ']) ++ (e.path ++ e.kind.behindPath)

namespace Row

def text : Row → List Char
  | .head branch _ => headMark ++ branch
  | .header text _ _ => '#' :: text
  | .entry e => e.text
  | .untracked path _ => '?' :: ' ' :: path
  | .ignored path _ => '!' :: ' ' :: path

def head? : Row → Option (List Char)
  | .head branch _ => some branch
  | _ => none

def path? : Row → Option (List Char)
  | .entry e => some e.path
  | .untracked path _ => some path
  | _ => none

def isStaged : Row → Bool
  | .entry e => e.staged ≠ '.'
  | _ => false

def isChanged : Row → Bool
  | .entry e => e.changed ≠ '.'
  | _ => false

def isUntracked : Row → Bool
  | .untracked _ _ => true
  | _ => false

/-- The row is an entry whose path begins with the stem and goes on behind it. -/
def Below (stem : List Char) (row : Row) : Prop :=
  ∃ path ∈ row.path?, stem <+: path ∧ stem.length < path.length

instance (stem : List Char) (row : Row) : Decidable (row.Below stem) :=
  inferInstanceAs (Decidable (∃ path ∈ row.path?, stem <+: path ∧ stem.length < path.length))

def told? (stem : List Char) (row : Row) : Option Path :=
  row.path?.map fun path => ⟨String.ofList ((path.drop stem.length).rdropWhile (· = '/'))⟩

end Row

def written (rows : List Row) : String := String.ofList (rows.flatMap fun row => row.text ++ ['\n'])

/-- What the rows say of the files below the stem. -/
def reported (stem : List Char) (rows : List Row) : StatusReport :=
  let below := rows.filter (·.Below stem)
  { counts := ⟨.ofNat (below.countP Row.isChanged), .ofNat (below.countP Row.isStaged),
      .ofNat (below.countP Row.isUntracked)⟩
    branch := ((rows.filterMap Row.head?).getLast?.filter (· ≠ detached)).map String.ofList
    dirty := PathSet.insertAll [] (below.filterMap (Row.told? stem)) }

section Splitting

variable {c : Char} {front : List Char}

theorem all_ne_of_not_mem (h : c ∉ front) : ∀ d ∈ front, decide (d ≠ c) = true := fun d hd => by
  simpa using ne_of_mem_of_not_mem hd h

theorem takeWhile_ne (h : c ∉ front) (rest : List Char) :
    (front ++ c :: rest).takeWhile (· ≠ c) = front := by
  rw [List.takeWhile_append_of_pos (all_ne_of_not_mem h), List.takeWhile_cons_of_neg (by simp),
    List.append_nil]

theorem dropWhile_ne (h : c ∉ front) (rest : List Char) :
    (front ++ c :: rest).dropWhile (· ≠ c) = c :: rest := by
  rw [List.dropWhile_append_of_pos (all_ne_of_not_mem h), List.dropWhile_cons_of_neg (by simp)]

end Splitting

theorem behind_words {words : List (List Char)} (h : ∀ word ∈ words, ' ' ∉ word)
    (rest : List Char) :
    behind words.length (words.flatMap (· ++ [' ']) ++ rest) = some rest := by
  induction words with
  | nil => rfl
  | cons word words ih =>
    obtain ⟨hword, hwords⟩ := List.forall_mem_cons.mp h
    rw [List.flatMap_cons, List.append_assoc, List.append_assoc, List.singleton_append,
      List.length_cons, behind, dropWhile_ne hword]
    exact ih hwords

theorem OneLine.append {a b : List Char} (ha : OneLine a) (hb : OneLine b) : OneLine (a ++ b) := by
  simp_all [OneLine]

theorem OneLine.cons {c : Char} {cs : List Char} (hn : c ≠ '\n') (hr : c ≠ '\r')
    (h : OneLine cs) : OneLine (c :: cs) := by
  simp_all [OneLine, eq_comm]

namespace Entry

variable (e : Entry)

theorem unbroken_words : ∀ word ∈ e.words, Unbroken word := by
  have hmark : Unbroken [e.kind.mark] := by
    cases e.kind <;> simp [Unbroken, OneLine, Kind.mark]
  simpa [words, hmark, e.code_unbroken] using e.fields_unbroken

theorem oneLine_text : OneLine e.text := by
  have hword : ∀ word ∈ e.words, OneLine (word ++ [' ']) := fun word h =>
    (e.unbroken_words word h).2.append ⟨by decide, by decide⟩
  have hwords : OneLine (e.words.flatMap (· ++ [' '])) := by
    simp only [OneLine, List.mem_flatMap, not_exists, not_and]
    exact ⟨fun word h => (hword word h).1, fun word h => (hword word h).2⟩
  exact hwords.append (e.path_oneLine.append e.behind_oneLine)

theorem code?_text : code? e.text = some [e.staged, e.changed] := by
  have hfirst : ∀ word ∈ [[e.kind.mark]], ' ' ∉ word := fun word h =>
    (e.unbroken_words word (List.mem_cons.mpr (.inl (List.mem_singleton.mp h)))).1
  have hbehind : behind 1 e.text = some ([e.staged, e.changed] ++ ' ' ::
      (e.fields.flatMap (· ++ [' ']) ++ (e.path ++ e.kind.behindPath))) :=
    behind_words hfirst _
  rw [code?, hbehind, Option.map_some, takeWhile_ne e.code_unbroken.1]

variable {e} {kind : Kind}

theorem text_of_kind (hk : e.kind = kind) : ∃ rest, e.text = kind.mark :: rest :=
  hk ▸ ⟨_, rfl⟩

theorem behind_text (hk : e.kind = kind) :
    behind (kind.fields + 2) e.text = some (e.path ++ kind.behindPath) := by
  have hlength : e.words.length = kind.fields + 2 := by
    rw [words, List.length_cons, List.length_cons, e.count, hk]
  rw [← hlength, ← hk]
  exact behind_words (fun word h => (e.unbroken_words word h).1) _

theorem entry?_text (e : Entry) : entry? e.text = some ([e.staged, e.changed], e.path) := by
  cases hk : e.kind with
  | ordinary =>
    obtain ⟨rest, htext⟩ := text_of_kind hk
    have hentry : entry? e.text = (do some (← code? e.text, ← behind 8 e.text)) := by
      rw [htext]
      rfl
    have hbehind : behind 8 e.text = some (e.path ++ []) := behind_text hk
    simp [hentry, hbehind, e.code?_text]
  | renamed origin =>
    obtain ⟨rest, htext⟩ := text_of_kind hk
    have hentry : entry? e.text =
        (do some (← code? e.text, (← behind 9 e.text).takeWhile (· ≠ '\t'))) := by
      rw [htext]
      rfl
    have hbehind : behind 9 e.text = some (e.path ++ '\t' :: origin) := behind_text hk
    rw [hentry, hbehind, e.code?_text]
    exact congrArg (fun path => some ([e.staged, e.changed], path))
      (takeWhile_ne (e.no_tab origin hk) origin)
  | unmerged =>
    obtain ⟨rest, htext⟩ := text_of_kind hk
    have hentry : entry? e.text = (do some (← code? e.text, ← behind 10 e.text)) := by
      rw [htext]
      rfl
    have hbehind : behind 10 e.text = some (e.path ++ []) := behind_text hk
    simp [hentry, hbehind, e.code?_text]

end Entry

namespace Row

variable {stem : List Char} {row : Row}

theorem oneLine_text (row : Row) : OneLine row.text := by
  cases row with
  | head branch h => exact OneLine.append ⟨by decide, by decide⟩ h
  | header text h other => exact h.cons (by decide) (by decide)
  | entry e => exact e.oneLine_text
  | untracked path h => exact (h.cons (by decide) (by decide)).cons (by decide) (by decide)
  | ignored path h => exact (h.cons (by decide) (by decide)).cons (by decide) (by decide)

def code : Row → List Char
  | .entry e => [e.staged, e.changed]
  | .untracked _ _ => ['?']
  | _ => []

theorem entry?_text (row : Row) :
    entry? row.text = row.path?.map fun path => (row.code, path) := by
  cases row with
  | entry e => exact e.entry?_text
  | _ => rfl

theorem stripStem?_headMark (row : Row) : stripStem? headMark row.text = row.head? := by
  have hother : ∀ c cs, c ≠ '#' → stripStem? headMark (c :: cs) = none := by
    intro c cs hc
    refine if_neg ?_
    rw [List.isPrefixOf_iff_prefix]
    exact fun h => hc (List.cons_prefix_cons.mp h).1.symm
  cases row with
  | head branch h =>
    rw [stripStem?, if_pos (by simp [text]), text, List.drop_left]
    rfl
  | header text h other => exact if_neg (mt List.isPrefixOf_iff_prefix.mp other)
  | entry e =>
    obtain ⟨rest, htext⟩ := Entry.text_of_kind (e := e) rfl
    rw [text, htext]
    exact hother _ _ (by cases e.kind <;> simp [Kind.mark])
  | untracked path h => exact hother _ _ (by decide)
  | ignored path h => exact hother _ _ (by decide)

theorem count?_code (h : row.path? ≠ none) (c : StatusCounts) :
    count? c row.code = some ⟨c.changed + .ofNat row.isChanged.toNat,
      c.staged + .ofNat row.isStaged.toNat, c.untracked + .ofNat row.isUntracked.toNat⟩ := by
  cases row with
  | entry e =>
    rw [code, count?]
    · by_cases hs : e.staged = '.' <;> by_cases hc : e.changed = '.' <;>
        simp [isStaged, isChanged, isUntracked, hs, hc]
    · exact e.known
  | untracked path h => simp [code, count?, isStaged, isChanged, isUntracked]
  | _ => exact absurd rfl h

theorem addEntry_text (report : StatusReport) (row : Row) :
    addEntry stem report row.text =
      if row.Below stem then
        some { report with
          counts := ⟨report.counts.changed + .ofNat row.isChanged.toNat,
            report.counts.staged + .ofNat row.isStaged.toNat,
            report.counts.untracked + .ofNat row.isUntracked.toNat⟩
          dirty := PathSet.insertAll report.dirty (row.told? stem).toList }
      else none := by
  cases hp : row.path? with
  | none =>
    rw [if_neg (by simp [Below, hp]), addEntry, row.entry?_text, hp]
    rfl
  | some path =>
    have hsome : row.path? ≠ none := by simp [hp]
    have hcount := count?_code hsome report.counts
    have hentry : entry? row.text = some (row.code, path) := by rw [row.entry?_text, hp]; rfl
    by_cases hstem : stem <+: path
    · obtain ⟨rel, rfl⟩ := hstem
      have hstrip : stripStem? stem (stem ++ rel) = some rel := by simp [stripStem?]
      have htold : row.told? stem = some ⟨String.ofList (withoutSlashes rel)⟩ := by
        rw [told?, hp, Option.map_some, List.drop_left]
        rfl
      have hbelow : row.Below stem ↔ rel ≠ [] := by
        simp [Below, hp, List.length_pos_iff]
      cases rel with
      | nil =>
        rw [if_neg (mt hbelow.mp (not_not_intro rfl))]
        simp [addEntry, hentry, stripStem?]
      | cons c rel =>
        rw [if_pos (hbelow.mpr (List.cons_ne_nil c rel)), htold]
        simp [addEntry, hentry, hstrip, hcount, PathSet.insertAll]
    · rw [if_neg (by simp [Below, hp, hstem])]
      simp [addEntry, hentry, stripStem?, hstem]

end Row

section Reports

variable (stem : List Char) (rows : List Row)

theorem addLine_reported (row : Row) :
    addLine stem (reported stem rows) row.text = reported stem (rows ++ [row]) := by
  rw [addLine, row.stripStem?_headMark]
  cases hh : row.head? with
  | some branch =>
    have hpath : row.path? = none := by
      cases row with
      | head _ _ => rfl
      | _ => cases hh
    have hbelow : ¬ row.Below stem := by simp [Row.Below, hpath]
    have hbranch : (if branch = detached then none else some (String.ofList branch)) =
        ((some branch).filter (· ≠ detached)).map String.ofList := by
      by_cases hd : branch = detached <;> simp [Option.filter, hd]
    simp [reported, List.filter_append, List.filterMap_append, hh, hbelow, hbranch]
  | none =>
    simp only [row.addEntry_text]
    by_cases hbelow : row.Below stem
    · have hcount : ∀ p : Row → Bool, (rows.filter (·.Below stem) ++ [row]).countP p =
          (rows.filter (·.Below stem)).countP p + (p row).toNat := by
        intro p
        cases hp : p row <;> simp [hp]
      have htold : [row].filterMap (Row.told? stem) = (row.told? stem).toList := by
        cases ht : row.told? stem <;> simp [ht]
      simp [reported, List.filter_append, List.filterMap_append, hh, hbelow, hcount, htold,
        UInt32.ofNat_add, PathSet.insertAll_append]
    · simp [reported, List.filter_append, List.filterMap_append, hh, hbelow]

theorem lines_written : Text.lines (written rows).toList = rows.map Row.text := by
  have htexts : ∀ cs ∈ rows.map Row.text, OneLine cs := by
    intro cs hcs
    obtain ⟨row, -, rfl⟩ := List.mem_map.mp hcs
    exact row.oneLine_text
  rw [← Text.lines_flatMap htexts, List.flatMap_map, written, String.toList_ofList]

theorem parse_written (stem : String) : parse (written rows) stem = reported stem.toList rows := by
  rw [parse, lines_written]
  induction rows using List.reverseRecOn with
  | nil => rfl
  | append_singleton rows row ih =>
    rw [List.map_append, List.foldl_append, ih]
    exact addLine_reported stem.toList rows row

end Reports

/-- Of the lines that are written everything is read again: the entries whose path begins with the
stem and goes on behind it count for what the letters of their code say, the last header that names
the branch gives the branch, if it names one, and the set of paths holds what stands behind the
stem, in the spelling of the first entry with the same components. An entry whose letters are both
dots is in the set and in none of the counts; a header, an ignored path and the path a file had
before count nowhere. The counts are of 32 bits and start over behind them. -/
theorem reads_what_is_written (rows : List Row) (stem : String) :
    let below := rows.filter (·.Below stem.toList)
    let told := below.filterMap (Row.told? stem.toList)
    let report := parse (written rows) stem
    report.counts.staged = .ofNat (below.countP Row.isStaged) ∧
    report.counts.changed = .ofNat (below.countP Row.isChanged) ∧
    report.counts.untracked = .ofNat (below.countP Row.isUntracked) ∧
    (rows.length < UInt32.size →
      report.counts.staged.toNat = below.countP Row.isStaged ∧
      report.counts.changed.toNat = below.countP Row.isChanged ∧
      report.counts.untracked.toNat = below.countP Row.isUntracked) ∧
    report.branch = ((rows.filterMap Row.head?).getLast?.filter (· ≠ detached)).map String.ofList ∧
    report.dirty.Sorted ∧
    (∀ p, p ∈ report.dirty ↔ told.find? p.same = some p) ∧
    ∀ p, report.dirty.contains p = true ↔ ∃ q ∈ told, p.same q = true := by
  intro below told report
  have hreport : report = reported stem.toList rows := parse_written rows stem
  have hdirty : report.dirty = PathSet.insertAll [] told := by rw [hreport]; rfl
  have hstaged : report.counts.staged = .ofNat (below.countP Row.isStaged) := by rw [hreport]; rfl
  have hchanged : report.counts.changed = .ofNat (below.countP Row.isChanged) := by
    rw [hreport]; rfl
  have huntracked : report.counts.untracked = .ofNat (below.countP Row.isUntracked) := by
    rw [hreport]; rfl
  refine ⟨hstaged, hchanged, huntracked, fun hlen => ?_, by rw [hreport]; rfl, ?_, fun p => ?_,
    fun p => ?_⟩
  · have hfits : ∀ f : Row → Bool, (UInt32.ofNat (below.countP f)).toNat = below.countP f := by
      intro f
      have hbelow : below.countP f ≤ rows.length :=
        Nat.le_trans List.countP_le_length (List.length_filter_le _ rows)
      exact UInt32.toNat_ofNat_of_lt (Nat.lt_of_le_of_lt hbelow hlen)
    rw [hstaged, hchanged, huntracked]
    exact ⟨hfits _, hfits _, hfits _⟩
  · rw [hdirty]
    exact PathSet.Sorted.insertAll .nil
  · rw [hdirty]
    exact PathSet.mem_insertAll_nil_iff
  · rw [hdirty, PathSet.contains_insertAll]
    exact or_iff_right Bool.false_ne_true

def renamedRows : List Row :=
  [.head "main".toList (by decide),
    .entry {
      kind := .renamed "src/old".toList, staged := 'R', changed := '.'
      fields := ["N...", "1", "2", "3", "a", "b", "R100"].map (·.toList)
      path := "src/new name".toList, known := by decide, code_unbroken := by decide
      count := by decide, fields_unbroken := by decide, path_oneLine := by decide
      behind_oneLine := by decide, no_tab := fun _ _ => by decide },
    .untracked "src/t//".toList (by decide), .untracked "src".toList (by decide)]

theorem reads_what_is_written_renamed :
    renamedRows.length < UInt32.size ∧
      (parse (written renamedRows) "src/").counts.staged.toNat = 1 ∧
      (parse (written renamedRows) "src/").counts.changed.toNat = 0 ∧
      (parse (written renamedRows) "src/").counts.untracked.toNat = 1 := by
  have hlen : renamedRows.length < UInt32.size := by decide
  obtain ⟨hstaged, hchanged, huntracked⟩ := (reads_what_is_written renamedRows "src/").2.2.2.1 hlen
  rw [hstaged, hchanged, huntracked]
  exact ⟨hlen, by decide +kernel, by decide +kernel, by decide +kernel⟩

example : parse "# branch.head main\n2 R. N... 1 2 3 a b R100 new name\told\n! o\n? t//\n" "" =
    ⟨⟨0, 1, 1⟩, some "main", [⟨"new name"⟩, ⟨"t"⟩]⟩ := by
  decide +kernel

end Status.Porcelain

end Switchboard
