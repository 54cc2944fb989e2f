import OpenHandsSWE.Harness.LogParsers

/-! The parser of karma logs: the suite that a test is recorded under, from the indentation of the lines. -/

namespace OpenHands.LogParsers
open Text

/-! ## The parser -/

def browserStarts : List Char := "Starting browser".toList

def summaryStarts : List Char := "SUMMARY:".toList

def isMark (c : Char) : Bool := c = '✔' || c = '✖'

/-- `^(\s*)?([✔✖])?\s(.*)$`. Without a mark, the last blank of the indentation is the one before the name. -/
def karmaPattern (line : List Char) : Option (List Char × Option Char × List Char) :=
  let indent := line.takeWhile isSpace
  let rest := line.dropWhile isSpace
  if rest.head?.any isMark && (rest.drop 1).head?.any isSpace then some (indent, rest.head?, rest.drop 2)
  else if indent = [] then none
  else some (indent.dropLast, none, rest)

structure KarmaState where
  testStatusMap : StatusMap := []
  currentIndent : Int := -1
  currentSuite : List (List Char) := []
  started : Bool := false

/-- `" > ".join(names)`. -/
def pathOf (names : List (List Char)) : List Char := List.intercalate [' ', '>', ' '] names

def statusOf (mark : Char) : List Char := (if mark = '✔' then TestStatus.passed else .failed).value.toList

def karmaLine (s : KarmaState) (line : List Char) : Except PyError KarmaState :=
  if browserStarts <:+: line then .ok { s with started := true }
  else if s.started = false then .ok s
  else
    match karmaPattern line with
    | none => .ok s
    | some (_, some mark, name) =>
      .ok { s with testStatusMap := Assoc.set (pathOf (s.currentSuite ++ [name])) (statusOf mark) s.testStatusMap }
    | some (indent, none, name) =>
      if indent = [] then .ok s
      else if s.currentIndent < indent.length then
        .ok { s with currentIndent := indent.length, currentSuite := s.currentSuite ++ [name] }
      else if indent.length < s.currentIndent then
        if s.currentSuite = [] then .error .indexError
        else .ok { s with currentIndent := indent.length, currentSuite := s.currentSuite.dropLast }
      else .ok s

def karmaLines : List (List Char) → KarmaState → Except PyError StatusMap
  | [], s => .ok s.testStatusMap
  | line :: lines, s =>
    if summaryStarts <+: line then .ok s.testStatusMap else (karmaLine s line).bind (karmaLines lines)

def parseLogKarma (log : List Char) : Except PyError StatusMap := karmaLines (split ['\n'] log) {}

/-! ## Forests of suites -/

inductive KarmaItem
  | test (indent : ℕ) (passed : Bool) (name : List Char)
  | suite (name : List Char) (items : List KarmaItem)

/-- A line of the printed forest. -/
inductive KarmaPrinted
  | test (indent : ℕ) (passed : Bool) (name : List Char)
  | suite (indent : ℕ) (name : List Char)

def markOf (passed : Bool) : Char := if passed then '✔' else '✖'

def KarmaPrinted.text : KarmaPrinted → List Char
  | .test indent passed name => List.replicate indent ' ' ++ markOf passed :: ' ' :: name
  | .suite indent name => List.replicate indent ' ' ++ name

mutual

/-- Depth first, with the suites of a depth at the indentation of that depth. -/
def KarmaItem.lines (indent : ℕ → ℕ) (depth : ℕ) : KarmaItem → List KarmaPrinted
  | .test own passed name => [.test own passed name]
  | .suite name items => .suite (indent depth) name :: forestLines indent (depth + 1) items

def forestLines (indent : ℕ → ℕ) (depth : ℕ) : List KarmaItem → List KarmaPrinted
  | [] => []
  | item :: items => item.lines indent depth ++ forestLines indent depth items

end

mutual

/-- The tests with their paths and what their marks say. -/
def KarmaItem.tests (path : List (List Char)) : KarmaItem → List (List Char × List Char)
  | .test _ passed name => [(pathOf (path ++ [name]), statusOf (markOf passed))]
  | .suite name items => forestTests (path ++ [name]) items

def forestTests (path : List (List Char)) : List KarmaItem → List (List Char × List Char)
  | [] => []
  | item :: items => item.tests path ++ forestTests path items

end

/-- The name of a suite begins with a letter that is no blank of the indentation, and no mark. -/
def KarmaPrinted.Named : KarmaPrinted → Prop
  | .test _ _ _ => True
  | .suite _ name => ∃ c cs, name = c :: cs ∧ isSpace c = false ∧ isMark c = false

/-- A log: what comes before the browser starts, the printed forest, and blank lines up to the summary, if any. -/
structure KarmaLog where
  preamble : List (List Char)
  start : List Char
  indent : ℕ → ℕ
  forest : List KarmaItem
  rest : List (List Char)
  preamble_silent : ∀ line ∈ preamble, ¬ browserStarts <:+: line ∧ ¬ summaryStarts <+: line
  start_found : browserStarts <:+: start ∧ ¬ summaryStarts <+: start
  deeper : StrictMono indent
  named : ∀ line ∈ forestLines indent 0 forest, line.Named
  rest_blank : ∀ line ∈ rest.takeWhile fun line => !decide (summaryStarts <+: line), line = []
  one_line : ∀ line ∈ preamble ++ start :: ((forestLines indent 0 forest).map KarmaPrinted.text ++ rest), '\n' ∉ line
  distinct : ((forestTests [] forest).map Prod.fst).Nodup

def KarmaLog.lines (log : KarmaLog) : List KarmaPrinted := forestLines log.indent 0 log.forest

def KarmaLog.text (log : KarmaLog) : List Char :=
  List.intercalate ['\n'] (log.preamble ++ log.start :: (log.lines.map KarmaPrinted.text ++ log.rest))

/-- The parser maps the path of each test to what its mark says, and nothing else. -/
def KeepsSuites (log : KarmaLog) : Prop :=
  ∃ map, parseLogKarma log.text = .ok map ∧
    ∀ path, Assoc.get? path map = Assoc.get? path (forestTests [] log.forest)

/-! ## Suites that are opened and not closed -/

/-- A suite stands at its indentation, one blank of which belongs to its name. -/
abbrev SuiteLine := ℕ × List Char

/-- Deeper than the line of a suite above it, or the first one. -/
def Opens (suite : SuiteLine) (above : List SuiteLine) : Prop := ∀ last ∈ above.head?, last.1 < suite.1

def Closes (suite : SuiteLine) (above : List SuiteLine) : Prop := ∃ last ∈ above.head?, suite.1 < last.1

instance (suite : SuiteLine) (above : List SuiteLine) : Decidable (Opens suite above) :=
  inferInstanceAs (Decidable (∀ last ∈ above.head?, _))

instance (suite : SuiteLine) (above : List SuiteLine) : Decidable (Closes suite above) :=
  decidable_of_iff (above.head?.any fun last => decide (suite.1 < last.1)) (by
    cases above <;> simp [Closes])

/-- Of the lines above, the nearest first, those that open a suite that no line below them closes. A line that is
shallower than the one above it closes a single suite and opens none; a sibling does neither. -/
def unclosed : ℕ → List SuiteLine → List (List Char)
  | _, [] => []
  | closed, suite :: above =>
    if Opens suite above then
      match closed with
      | 0 => suite.2 :: unclosed 0 above
      | closed + 1 => unclosed closed above
    else if Closes suite above then unclosed (closed + 1) above
    else unclosed closed above

/-- A line that does not name the start of a browser, and if it is one of a suite has an indentation of two. -/
def KarmaPrinted.counts (line : KarmaPrinted) : Bool :=
  !decide (browserStarts <:+: line.text) &&
    match line with
    | .suite indent _ => decide (2 ≤ indent)
    | .test _ _ _ => true

/-- The lines that count, up to one that looks like the summary. -/
def counted (lines : List KarmaPrinted) : List KarmaPrinted :=
  (lines.takeWhile fun line => !decide (summaryStarts <+: line.text)).filter KarmaPrinted.counts

/-- No line closes a suite while none is open. -/
def Closable : List SuiteLine → List KarmaPrinted → Prop
  | _, [] => True
  | above, .test _ _ _ :: lines => Closable above lines
  | above, .suite indent name :: lines =>
    (Closes (indent, name) above → unclosed 0 above ≠ []) ∧ Closable ((indent, name) :: above) lines

/-- The tests, each under the suites that the lines above it leave open. -/
def openTests : List SuiteLine → List KarmaPrinted → List (List Char × List Char)
  | _, [] => []
  | above, .test _ passed name :: lines =>
    (pathOf ((unclosed 0 above).reverse ++ [name]), statusOf (markOf passed)) :: openTests above lines
  | above, .suite indent name :: lines => openTests ((indent, name) :: above) lines

/-! ## What is matched in a line -/

section

variable {c : Char} {cs : List Char} {indent : ℕ}

theorem isSpace_markOf (passed : Bool) : isSpace (markOf passed) = false := by
  cases passed <;> rfl

theorem isMark_markOf (passed : Bool) : isMark (markOf passed) = true := by
  cases passed <;> rfl

/-- What is taken for the indentation ends at the first letter. -/
theorem indentation (hc : isSpace c = false) (indent : ℕ) (cs : List Char) :
    (List.replicate indent ' ' ++ c :: cs).takeWhile isSpace = List.replicate indent ' ' ∧
      (List.replicate indent ' ' ++ c :: cs).dropWhile isSpace = c :: cs := by
  have hblank : ∀ d ∈ List.replicate indent ' ', isSpace d = true := by
    intro d hd
    rw [List.eq_of_mem_replicate hd]
    rfl
  constructor
  · rw [List.takeWhile_append_of_pos hblank, List.takeWhile_cons_of_neg (by simp [hc]), List.append_nil]
  · rw [List.dropWhile_append_of_pos hblank, List.dropWhile_cons_of_neg (by simp [hc])]

theorem karmaPattern_test (indent : ℕ) (passed : Bool) (name : List Char) :
    karmaPattern (KarmaPrinted.test indent passed name).text =
      some (List.replicate indent ' ', some (markOf passed), name) := by
  obtain ⟨htake, hdrop⟩ := indentation (isSpace_markOf passed) indent (' ' :: name)
  rw [KarmaPrinted.text, karmaPattern, htake, hdrop]
  have hblank : isSpace ' ' = true := rfl
  simp [isMark_markOf, hblank]

theorem karmaPattern_suite (hc : isSpace c = false) (hmark : isMark c = false) (indent : ℕ) (cs : List Char) :
    karmaPattern (KarmaPrinted.suite indent (c :: cs)).text =
      if indent = 0 then none else some (List.replicate (indent - 1) ' ', none, c :: cs) := by
  obtain ⟨htake, hdrop⟩ := indentation hc indent cs
  rw [KarmaPrinted.text, karmaPattern, htake, hdrop]
  simp [hmark, List.dropLast_replicate]

theorem karmaPattern_nil : karmaPattern [] = none := rfl

end

/-! ## One line -/

section

variable {s : KarmaState} {above : List SuiteLine}

theorem unclosed_cons (closed : ℕ) (suite : SuiteLine) (above : List SuiteLine) :
    unclosed closed (suite :: above) =
      if Opens suite above then (if closed = 0 then suite.2 :: unclosed 0 above else unclosed (closed - 1) above)
      else if Closes suite above then unclosed (closed + 1) above
      else unclosed closed above := by
  cases closed <;> rfl

/-- One more closing takes away the nearest of the open suites. -/
theorem unclosed_succ (closed : ℕ) (above : List SuiteLine) : unclosed (closed + 1) above = (unclosed closed above).tail := by
  induction above generalizing closed with
  | nil => rfl
  | cons suite above ih =>
    rw [unclosed_cons, unclosed_cons]
    by_cases hopens : Opens suite above
    · rw [if_pos hopens, if_pos hopens, if_neg closed.succ_ne_zero]
      cases closed with
      | zero => rfl
      | succ closed => exact ih closed
    · rw [if_neg hopens, if_neg hopens]
      by_cases hcloses : Closes suite above
      · rw [if_pos hcloses, if_pos hcloses, ih]
      · rw [if_neg hcloses, if_neg hcloses, ih]

/-- The parser is where the lines of suites above leave it. -/
structure Follows (s : KarmaState) (above : List SuiteLine) : Prop where
  started : s.started = true
  indent_eq : s.currentIndent = above.head?.elim (-1) fun last => (last.1 : Int) - 1
  suite_eq : s.currentSuite = (unclosed 0 above).reverse

theorem karmaLine_test (h : Follows s above) {indent : ℕ} {passed : Bool} {name : List Char}
    (hline : ¬ browserStarts <:+: (KarmaPrinted.test indent passed name).text) :
    karmaLine s (KarmaPrinted.test indent passed name).text =
      .ok { s with
        testStatusMap := Assoc.set (pathOf ((unclosed 0 above).reverse ++ [name])) (statusOf (markOf passed)) s.testStatusMap } := by
  rw [karmaLine, if_neg hline, h.started, if_neg (by decide), karmaPattern_test, h.suite_eq]

/-- A line of a suite without an indentation of its own is passed over. -/
theorem karmaLine_flush (h : s.started = true) {indent : ℕ} {name : List Char}
    (hnamed : (KarmaPrinted.suite indent name).Named) (hindent : indent < 2)
    (hline : ¬ browserStarts <:+: (KarmaPrinted.suite indent name).text) :
    karmaLine s (KarmaPrinted.suite indent name).text = .ok s := by
  obtain ⟨c, cs, rfl, hspace, hmark⟩ := hnamed
  rw [karmaLine, if_neg hline, h, if_neg (by decide), karmaPattern_suite hspace hmark]
  interval_cases indent <;> rfl

theorem karmaLine_suite_eq (h : s.started = true) {indent : ℕ} {name : List Char}
    (hnamed : (KarmaPrinted.suite indent name).Named) (hindent : 2 ≤ indent)
    (hline : ¬ browserStarts <:+: (KarmaPrinted.suite indent name).text) :
    karmaLine s (KarmaPrinted.suite indent name).text =
      if s.currentIndent < (indent - 1 : ℕ) then
        .ok { s with currentIndent := (indent - 1 : ℕ), currentSuite := s.currentSuite ++ [name] }
      else if ((indent - 1 : ℕ) : Int) < s.currentIndent then
        if s.currentSuite = [] then .error .indexError
        else .ok { s with currentIndent := (indent - 1 : ℕ), currentSuite := s.currentSuite.dropLast }
      else .ok s := by
  obtain ⟨c, cs, rfl, hspace, hmark⟩ := hnamed
  have hlength : (List.replicate (indent - 1) ' ').length = indent - 1 := List.length_replicate
  have hne : List.replicate (indent - 1) ' ' ≠ [] := by
    intro hnil
    rw [hnil, List.length_nil] at hlength
    omega
  rw [karmaLine, if_neg hline, h, if_neg (by decide), karmaPattern_suite hspace hmark, if_neg (by omega)]
  dsimp only
  rw [if_neg hne, hlength]

theorem Follows.opens_iff (h : Follows s above) {indent : ℕ} (hindent : 2 ≤ indent) (name : List Char) :
    s.currentIndent < (indent - 1 : ℕ) ↔ Opens (indent, name) above := by
  rw [h.indent_eq, Opens]
  cases above.head? with
  | none =>
    simp only [Option.elim_none]
    exact iff_of_true (by omega) (fun _ hlast => by cases hlast)
  | some last =>
    simp only [Option.elim_some, Option.mem_some_iff, forall_eq']
    omega

theorem Follows.closes_iff (h : Follows s above) {indent : ℕ} (hindent : 2 ≤ indent) (name : List Char) :
    ((indent - 1 : ℕ) : Int) < s.currentIndent ↔ Closes (indent, name) above := by
  rw [h.indent_eq, Closes]
  cases above.head? with
  | none =>
    simp only [Option.elim_none]
    refine iff_of_false (by omega) ?_
    rintro ⟨_, hlast, -⟩
    cases hlast
  | some last =>
    simp only [Option.elim_some, Option.mem_some_iff, exists_eq_left']
    omega

/-- The parser is at the indentation of the line. -/
theorem indent_eq_elim {indent : ℕ} (hindent : 2 ≤ indent) (name : List Char) :
    ((indent - 1 : ℕ) : Int) = ((indent, name) :: above).head?.elim (-1) fun last => (last.1 : Int) - 1 := by
  simp only [List.head?_cons, Option.elim_some]
  omega

/-- The line of a suite opens it, closes another one or does nothing, as it stands to the line of a suite above. -/
theorem karmaLine_suite (h : Follows s above) {indent : ℕ} {name : List Char}
    (hnamed : (KarmaPrinted.suite indent name).Named) (hindent : 2 ≤ indent)
    (hline : ¬ browserStarts <:+: (KarmaPrinted.suite indent name).text) :
    (Closes (indent, name) above ∧ unclosed 0 above = [] ∧
      karmaLine s (KarmaPrinted.suite indent name).text = .error .indexError) ∨
    ((Closes (indent, name) above → unclosed 0 above ≠ []) ∧
      ∃ s', karmaLine s (KarmaPrinted.suite indent name).text = .ok s' ∧ s'.testStatusMap = s.testStatusMap ∧
        Follows s' ((indent, name) :: above)) := by
  have hopensIff := h.opens_iff hindent name
  have hclosesIff := h.closes_iff hindent name
  rw [karmaLine_suite_eq h.started hnamed hindent hline]
  by_cases hopens : Opens (indent, name) above
  · have hdeeper := hopensIff.mpr hopens
    have hcloses : ¬ Closes (indent, name) above := fun hcloses => absurd (hclosesIff.mpr hcloses) hdeeper.not_gt
    rw [if_pos hdeeper]
    refine .inr ⟨fun hc => absurd hc hcloses, _, rfl, rfl, h.started, indent_eq_elim hindent name, ?_⟩
    rw [unclosed_cons, if_pos hopens, if_pos rfl, List.reverse_cons, ← h.suite_eq]
  rw [if_neg (hopensIff.not.mpr hopens)]
  by_cases hcloses : Closes (indent, name) above
  · rw [if_pos (hclosesIff.mpr hcloses), h.suite_eq]
    by_cases hopen : unclosed 0 above = []
    · exact .inl ⟨hcloses, hopen, by rw [hopen]; rfl⟩
    · rw [if_neg (by simpa using hopen)]
      refine .inr ⟨fun _ => hopen, _, rfl, rfl, h.started, indent_eq_elim hindent name, ?_⟩
      rw [unclosed_cons, if_neg hopens, if_pos hcloses, unclosed_succ, List.dropLast_reverse]
  · have hsame : s.currentIndent = (indent - 1 : ℕ) :=
      le_antisymm (not_lt.mp (hclosesIff.not.mpr hcloses)) (not_lt.mp (hopensIff.not.mpr hopens))
    rw [if_neg (hclosesIff.not.mpr hcloses)]
    refine .inr ⟨fun hc => absurd hc hcloses, s, rfl, rfl, h.started, hsame.trans (indent_eq_elim hindent name), ?_⟩
    rw [unclosed_cons, if_neg hopens, if_neg hcloses, h.suite_eq]

end

/-! ## All lines -/

section

variable {s : KarmaState} {above : List SuiteLine} {lines : List KarmaPrinted} {rest : List (List Char)}

theorem karmaLines_blank (hrest : ∀ line ∈ rest.takeWhile fun line => !decide (summaryStarts <+: line), line = []) (s : KarmaState) :
    karmaLines rest s = .ok s.testStatusMap := by
  induction rest with
  | nil => rfl
  | cons line rest ih =>
    rw [karmaLines]
    by_cases hend : summaryStarts <+: line
    · rw [if_pos hend]
    · rw [List.takeWhile_cons_of_pos (by simpa using hend)] at hrest
      obtain ⟨rfl, hblanks⟩ := List.forall_mem_cons.mp hrest
      have hblank : karmaLine s [] = .ok s := by
        have hbrowser : ¬ browserStarts <:+: ([] : List Char) := by decide
        rw [karmaLine, if_neg hbrowser, karmaPattern_nil]
        exact ite_self _
      rw [if_neg hend, hblank]
      exact ih hblanks

theorem karmaLines_preamble {preamble : List (List Char)}
    (h : ∀ line ∈ preamble, ¬ browserStarts <:+: line ∧ ¬ summaryStarts <+: line) (rest : List (List Char)) :
    karmaLines (preamble ++ rest) {} = karmaLines rest {} := by
  induction preamble with
  | nil => rfl
  | cons line preamble ih =>
    obtain ⟨⟨hbrowser, hsummary⟩, h⟩ := List.forall_mem_cons.mp h
    rw [List.cons_append, karmaLines, if_neg hsummary, karmaLine, if_neg hbrowser, if_pos rfl]
    exact ih h

theorem counted_cons (line : KarmaPrinted) (lines : List KarmaPrinted) :
    counted (line :: lines) =
      if summaryStarts <+: line.text then [] else if line.counts then line :: counted lines else counted lines := by
  by_cases hend : summaryStarts <+: line.text
  · rw [if_pos hend, counted, List.takeWhile_cons_of_neg (by simpa using hend)]
    rfl
  · rw [if_neg hend, counted, List.takeWhile_cons_of_pos (by simpa using hend), List.filter_cons]
    rfl

/-- What the printed lines of a forest make of the map, or the error they end with. -/
theorem karmaLines_printed (hnamed : ∀ line ∈ lines, line.Named)
    (hrest : ∀ line ∈ rest.takeWhile fun line => !decide (summaryStarts <+: line), line = []) (h : Follows s above) :
    (Closable above (counted lines) → karmaLines (lines.map KarmaPrinted.text ++ rest) s =
      .ok ((openTests above (counted lines)).foldl (fun map test => Assoc.set test.1 test.2 map) s.testStatusMap)) ∧
    (¬ Closable above (counted lines) → karmaLines (lines.map KarmaPrinted.text ++ rest) s = .error .indexError) := by
  induction lines generalizing s above with
  | nil => exact ⟨fun _ => karmaLines_blank hrest s, fun hnot => absurd trivial hnot⟩
  | cons line lines ih =>
    obtain ⟨hline, hothers⟩ := List.forall_mem_cons.mp hnamed
    rw [List.map_cons, List.cons_append, karmaLines, counted_cons]
    by_cases hend : summaryStarts <+: line.text
    · rw [if_pos hend, if_pos hend]
      exact ⟨fun _ => rfl, fun hnot => absurd trivial hnot⟩
    rw [if_neg hend, if_neg hend]
    by_cases hbrowser : browserStarts <:+: line.text
    · have hcounts : line.counts = false := by simp [KarmaPrinted.counts, hbrowser]
      have hskip : karmaLine s line.text = .ok s := by
        rw [karmaLine, if_pos hbrowser, ← h.started]
      rw [hcounts, if_neg (by decide), hskip]
      exact ih hothers h
    cases line with
    | test indent passed name =>
      have hcounts : (KarmaPrinted.test indent passed name).counts = true := by simp [KarmaPrinted.counts, hbrowser]
      rw [hcounts, if_pos rfl, karmaLine_test h hbrowser]
      exact ih hothers ⟨h.started, h.indent_eq, h.suite_eq⟩
    | suite indent name =>
      by_cases hindent : 2 ≤ indent
      · have hcounts : (KarmaPrinted.suite indent name).counts = true := by simp [KarmaPrinted.counts, hbrowser, hindent]
        rw [hcounts, if_pos rfl]
        rcases karmaLine_suite h hline hindent hbrowser with ⟨hcloses, hopen, herror⟩ | ⟨hopen, s', hok, hmap, hs'⟩
        · rw [herror]
          exact ⟨fun hclosable => absurd hopen (hclosable.1 hcloses), fun _ => rfl⟩
        · obtain ⟨hclosable, hnot⟩ := ih hothers hs'
          rw [hok, ← hmap]
          exact ⟨fun hall => hclosable hall.2, fun hall => hnot fun hrun => hall ⟨hopen, hrun⟩⟩
      · have hcounts : (KarmaPrinted.suite indent name).counts = false := by simp [KarmaPrinted.counts, hindent]
        rw [hcounts, if_neg (by decide), karmaLine_flush h.started hline (by omega) hbrowser]
        exact ih hothers h

end

/-! ## As many tests as are printed -/

/-- The tests among the lines of a forest. -/
def KarmaPrinted.isTest : KarmaPrinted → Bool
  | .test _ _ _ => true
  | .suite _ _ => false

theorem length_openTests (above : List SuiteLine) (lines : List KarmaPrinted) :
    (openTests above lines).length = lines.countP KarmaPrinted.isTest := by
  induction lines generalizing above with
  | nil => rfl
  | cons line lines ih =>
    cases line with
    | test indent passed name => rw [openTests, List.length_cons, ih, List.countP_cons_of_pos rfl]
    | suite indent name => rw [openTests, ih, List.countP_cons_of_neg Bool.false_ne_true]

mutual

theorem KarmaItem.countP_lines (indent : ℕ → ℕ) (depth : ℕ) (path : List (List Char)) :
    (item : KarmaItem) → (item.lines indent depth).countP KarmaPrinted.isTest = (item.tests path).length
  | .test own passed name => rfl
  | .suite name items => by
    rw [KarmaItem.lines, KarmaItem.tests, List.countP_cons_of_neg Bool.false_ne_true]
    exact countP_forestLines indent (depth + 1) (path ++ [name]) items

theorem countP_forestLines (indent : ℕ → ℕ) (depth : ℕ) (path : List (List Char)) :
    (items : List KarmaItem) → (forestLines indent depth items).countP KarmaPrinted.isTest = (forestTests path items).length
  | [] => rfl
  | item :: items => by
    rw [forestLines, forestTests, List.countP_append, List.length_append, item.countP_lines indent depth path,
      countP_forestLines indent depth path items]

end

theorem length_openTests_counted (log : KarmaLog) :
    (openTests [] (counted log.lines)).length ≤ (forestTests [] log.forest).length := by
  rw [length_openTests, ← countP_forestLines log.indent 0 []]
  exact (List.Sublist.countP_le (List.filter_sublist.trans (List.takeWhile_sublist _)))

/-! ## Logs -/

theorem parseLogKarma_text (log : KarmaLog) :
    parseLogKarma log.text = karmaLines (log.lines.map KarmaPrinted.text ++ log.rest) { started := true } := by
  have hlines := split_intercalate (by simp) log.one_line
  rw [parseLogKarma, KarmaLog.text, KarmaLog.lines, hlines, karmaLines_preamble log.preamble_silent,
    karmaLines, if_neg log.start_found.2, karmaLine, if_pos log.start_found.1]
  rfl

/-- The tests of a forest are recorded with their paths exactly when each line that is shallower than the suite above
it finds an open suite, and the tests under the suites then open are, up to their order, the tests with their paths. -/
theorem keepsSuites_iff (log : KarmaLog) :
    KeepsSuites log ↔
      Closable [] (counted log.lines) ∧ (openTests [] (counted log.lines)).Perm (forestTests [] log.forest) := by
  have hstart : Follows { started := true } [] := ⟨rfl, rfl, rfl⟩
  obtain ⟨hclosable, hnot⟩ := karmaLines_printed log.named log.rest_blank hstart
  rw [← Assoc.get?_ofPairs_eq_iff log.distinct (length_openTests_counted log)]
  constructor
  · rintro ⟨map, hmap, hpaths⟩
    rw [parseLogKarma_text] at hmap
    by_cases hall : Closable [] (counted log.lines)
    · have hread := (hclosable hall).symm.trans hmap
      obtain rfl := Except.ok.inj hread
      exact ⟨hall, hpaths⟩
    · exact absurd ((hnot hall).symm.trans hmap) (by simp)
  · rintro ⟨hall, hpaths⟩
    exact ⟨_, (parseLogKarma_text log).trans (hclosable hall), hpaths⟩

/-- Two suites side by side, with a passing test and a failing one of the same name. -/
def siblings : List KarmaItem :=
  [.suite ['A'] [.test 4 true ['t']], .suite ['B'] [.test 4 false ['t']]]

def siblingsLog : KarmaLog where
  preamble := []
  start := browserStarts
  indent := fun depth => 2 * depth + 2
  forest := siblings
  rest := []
  preamble_silent := by simp
  start_found := by decide
  deeper := fun a b hab => by dsimp only; omega
  named := by
    simp only [siblings, forestLines, KarmaItem.lines, List.nil_append, List.cons_append, List.append_nil, List.forall_mem_cons]
    exact ⟨⟨'A', [], rfl, rfl, rfl⟩, trivial, ⟨'B', [], rfl, rfl, rfl⟩, trivial, by simp⟩
  rest_blank := by simp
  one_line := by decide
  distinct := by decide

/-- The second suite does not replace the first: the passing test is recorded as a failure. -/
theorem not_keepsSuites : ¬ KeepsSuites siblingsLog := by
  rintro ⟨map, hmap, hpaths⟩
  have hread : parseLogKarma siblingsLog.text = .ok [("A > t".toList, "FAILED".toList)] := by decide
  obtain rfl := Except.ok.inj (hread.symm.trans hmap)
  exact absurd (hpaths "A > t".toList) (by decide)

end OpenHands.LogParsers
