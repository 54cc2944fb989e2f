import OpenHandsSWE.Harness.LogParsers

/-! The parser of Django logs, in which the report of a test can be interrupted by other output. -/

namespace OpenHands.LogParsers
open Text

/-! ## The parser -/

def separator : List Char := " ... ".toList

def versionTest : List Char := "--version is equivalent to version".toList

def passSuffixes : List (List Char) := [" ... ok".toList, " ... OK".toList, " ...  OK".toList]

def migration : List Char := "Applying sites.0002_alter_domain_unique...test_no_migrations".toList

/-- `line.split(pat)[0]`. -/
def splitHead (pat line : List Char) : List Char := (split pat line).headD []

/-- `line.rsplit(pat, 1)[0]`. -/
def rsplitHead (pat line : List Char) : List Char :=
  match upTo pat.reverse line.reverse with
  | none => line
  | some tail => line.take (line.length - (tail.length + pat.length))

/-- `line.split(pat, 1)[-1]`. -/
def splitRest (pat line : List Char) : List Char :=
  match upTo pat line with
  | none => line
  | some head => line.drop (head.length + pat.length)

def versionIn (line : List Char) : Option (List Char) := if versionTest <:+: line then some versionTest else none

def prevTestIn (line : List Char) : Option (List Char) :=
  if separator <:+: line then some (splitHead separator line) else none

def passSuffix (line : List Char) : Option (List Char) := passSuffixes.find? fun suffix => suffix <:+ line

/-- What is looked at after the suffixes: a migration that is printed before the name of a passed test is cut off. -/
def withoutMigration (line : List Char) : List Char :=
  if (passSuffix line).isSome ∧ migration <+: strip line then strip (splitRest "...".toList line) else line

def passedTest (line : List Char) : Option (List Char) :=
  (passSuffix line).map fun suffix => rsplitHead suffix (withoutMigration line)

def skippedTest (line : List Char) : Option (List Char) :=
  if " ... skipped".toList <:+: line then some (splitHead " ... skipped".toList line) else none

def endingTest (ending line : List Char) : Option (List Char) :=
  if ending <:+ line then some (splitHead ending line) else none

/-- The second word of a header; `IndexError` when there is none. -/
def headerTest (header line : List Char) : Option (Option (List Char)) :=
  if header <+: line then (words line)[1]?.map fun word => some (strip word) else some none

def note (status : TestStatus) (test : Option (List Char)) (map : StatusMap) : StatusMap :=
  test.elim map fun test => Assoc.set test status.value.toList map

structure DjangoState where
  testStatusMap : StatusMap := []
  prevTest : Option (List Char) := none

def djangoLine (s : DjangoState) (line : List Char) : Option DjangoState := do
  let line := strip line
  let map := note .passed (versionIn line) s.testStatusMap
  let prevTest := (prevTestIn line).or s.prevTest
  let map := note .passed (passedTest line) map
  let line := withoutMigration line
  let map := note .skipped (skippedTest line) map
  let map := note .failed (endingTest " ... FAIL".toList line) map
  let map := note .failed (← headerTest "FAIL:".toList line) map
  let map := note .error (endingTest " ... ERROR".toList line) map
  let map := note .error (← headerTest "ERROR:".toList line) map
  let map := if "ok".toList <+: lstrip line then note .passed prevTest map else map
  some ⟨map, prevTest⟩

/-- A literal text at the head, and what comes after it. -/
def literal (pat cs : List Char) : Option (List Char) := if pat <+: cs then some (cs.drop pat.length) else none

/-- `\nok$`. -/
def okAt (cs : List Char) : Option (List Char) :=
  (literal "\nok".toList cs).bind fun cs => if cs.head?.all (· = '\n') then some cs else none

/-- `(?s:.*?)\ silenced\)\.\nok$`. -/
def silencedAt : List Char → Option (List Char)
  | [] => none
  | c :: cs => ((literal " silenced).".toList (c :: cs)).bind okAt).or (silencedAt cs)

/-- `(.*)\/\nok$`. -/
def slashAt (cs : List Char) : Option (List Char) :=
  let line := cs.takeWhile (· ≠ '\n')
  if line.getLast? = some '/' then okAt (cs.drop line.length) else none

/-- The three messages that interrupt the report of a test which passes. -/
def interruptions : List (List Char → Option (List Char)) := [
  fun cs => (literal "Testing against Django installed in ".toList cs).bind silencedAt,
  fun cs => (literal "Internal Server Error: /".toList cs).bind slashAt,
  fun cs => (literal "System check identified no issues (0 silenced)".toList cs).bind okAt]

/-- `\s\.\.\.\s`. -/
def separatorAt : List Char → Option (List Char)
  | c :: '.' :: '.' :: '.' :: d :: cs => if isSpace c ∧ isSpace d then some cs else none
  | _ => none

/-- `(.*?)\s\.\.\.\s` and the message. -/
def reportAt (message : List Char → Option (List Char)) : List Char → Option (List Char × List Char)
  | [] => none
  | c :: cs =>
    match (separatorAt (c :: cs)).bind message with
    | some rest => some ([], rest)
    | none => if c = '\n' then none else (reportAt message cs).map fun (test, rest) => (c :: test, rest)

/-- `^` is the end of the line before. -/
def patternAt (message : List Char → Option (List Char)) : List Char → Option (List Char × Nat)
  | '\n' :: cs => (reportAt message cs).map fun (test, rest) => (test, cs.length - rest.length)
  | _ => none

/-- The tests that `re.finditer` finds with the three patterns. -/
def interruptedTests (log : List Char) : List (List Char) :=
  interruptions.flatMap fun message => findIter (patternAt message) 0 ('\n' :: log)

/-- `None` when the second word of a header is missing. -/
def parseLogDjango (log : List Char) : Option StatusMap := do
  let s ← (split ['\n'] log).foldlM djangoLine {}
  some ((interruptedTests log).foldl (fun map test => note .passed (some test) map) s.testStatusMap)

/-! ## Logs -/

inductive Verdict where
  | ok
  | fail
  | error
  | skipped
deriving DecidableEq, Repr

def Verdict.text : Verdict → List Char
  | .ok => "ok".toList
  | .fail => "FAIL".toList
  | .error => "ERROR".toList
  | .skipped => "skipped".toList

def IsNoise (line : List Char) : Prop :=
  '\n' ∉ line ∧ ¬ separator <:+: line ∧ ¬ "ok".toList <+: line ∧ ¬ "FAIL:".toList <+: line ∧ ¬ "ERROR:".toList <+: line

/-- What stands between the separator and the verdict: the rest of a line, and more lines. -/
structure Interruption where
  text : List Char
  noise : List (List Char)
  text_line : '\n' ∉ text
  noise_isNoise : ∀ line ∈ noise, IsNoise line

structure Report where
  name : List Char
  verdict : Verdict
  interruption : Option Interruption := none
  name_line : '\n' ∉ name
  name_clean : ¬ separator <:+: name

def Report.lines (report : Report) : List (List Char) :=
  match report.interruption with
  | none => [report.name ++ separator ++ report.verdict.text]
  | some interruption => (report.name ++ separator ++ interruption.text) :: (interruption.noise ++ [report.verdict.text])

/-- A header of the report on the failures, with what stands below it. -/
structure Header where
  isError : Bool
  title : List Char
  traceback : List (List Char)
  title_line : '\n' ∉ title
  traceback_line : ∀ line ∈ traceback, '\n' ∉ line

def Header.lines (header : Header) : List (List Char) :=
  ((if header.isError then "ERROR: " else "FAIL: ").toList ++ header.title) :: header.traceback

structure DjangoLog where
  reports : List Report
  headers : List Header := []
  /-- There is a line break at the end. -/
  ended : Bool := true
  distinct : (reports.map Report.name).Nodup

def DjangoLog.text (log : DjangoLog) : List Char :=
  List.intercalate ['\n'] (log.reports.flatMap Report.lines ++ log.headers.flatMap Header.lines) ++
    if log.ended then ['\n'] else []

/-- No test that failed is recorded as passed. -/
def KeepsDjangoFailures (log : DjangoLog) : Prop :=
  ∀ map, parseLogDjango log.text = some map → ∀ report ∈ log.reports, report.verdict = .fail ∨ report.verdict = .error →
    Assoc.get? report.name map ≠ some TestStatus.passed.value.toList

/-! ## What a line says of a test -/

/-- A line as it is looked at after the suffixes. -/
def shown (line : List Char) : List Char := withoutMigration (strip line)

/-- The test before the last separator that a line still has without the white space around it. -/
def lastTest (lines : List (List Char)) : Option (List Char) :=
  (lines.reverse.find? fun line => separator <:+: strip line).map fun line => splitHead separator (strip line)

def HeaderBroken (line : List Char) : Prop :=
  headerTest "FAIL:".toList (shown line) = none ∨ headerTest "ERROR:".toList (shown line) = none

/-- The line says that a test was skipped or did not pass. -/
def Marks (line test : List Char) : Prop :=
  skippedTest (shown line) = some test ∨ endingTest " ... FAIL".toList (shown line) = some test ∨
    endingTest " ... ERROR".toList (shown line) = some test ∨
    headerTest "FAIL:".toList (shown line) = some (some test) ∨ headerTest "ERROR:".toList (shown line) = some (some test)

/-- The line passes a test: it begins with an ok that goes to the last test before, or it names the test with the
suffix of one that passed. -/
def Passes (before : List (List Char)) (line test : List Char) : Prop :=
  "ok".toList <+: lstrip (shown line) ∧ lastTest (before ++ [line]) = some test ∨
    (passedTest (strip line) = some test ∨ versionIn (strip line) = some test) ∧ ¬ Marks line test

/-- A header cannot be read, or every line that passes a failed test comes before one that marks it, and no message
interrupts its report as it does those that pass. -/
def MarksFailures (log : DjangoLog) : Prop :=
  let lines := split ['\n'] log.text
  (∃ line ∈ lines, HeaderBroken line) ∨
    ∀ report ∈ log.reports, report.verdict = .fail ∨ report.verdict = .error →
      report.name ∉ interruptedTests log.text ∧
        ∀ before line after, lines = before ++ line :: after → Passes before line report.name →
          ∃ later ∈ after, Marks later report.name

section

variable {test : List Char} {line : List Char} {s : DjangoState} {map : StatusMap}

theorem get?_note (status : TestStatus) (noted : Option (List Char)) :
    Assoc.get? test (note status noted map) =
      if noted = some test then some status.value.toList else Assoc.get? test map := by
  cases noted with
  | none => rfl
  | some other =>
    by_cases h : other = test
    · rw [if_pos (congrArg some h), h]
      exact Assoc.get?_set_self _ _ _
    · rw [if_neg fun heq => h (Option.some.inj heq)]
      exact Assoc.get?_set_of_ne (Ne.symm h) _ _

/-- A test is passed after a note that it passed, or before one of another test. -/
theorem note_passed_iff (noted : Option (List Char)) :
    Assoc.get? test (note .passed noted map) = some TestStatus.passed.value.toList ↔
      noted = some test ∨ Assoc.get? test map = some TestStatus.passed.value.toList := by
  rw [get?_note]
  by_cases h : noted = some test
  · rw [if_pos h]
    exact iff_of_true rfl (Or.inl h)
  · rw [if_neg h]
    exact (or_iff_right h).symm

theorem note_other_iff {status : TestStatus} (hstatus : status ≠ .passed) (noted : Option (List Char)) :
    Assoc.get? test (note status noted map) = some TestStatus.passed.value.toList ↔
      noted ≠ some test ∧ Assoc.get? test map = some TestStatus.passed.value.toList := by
  have hvalue : some status.value.toList = some TestStatus.passed.value.toList → status = .passed := fun heq =>
    value_injective (String.toList_injective (Option.some.inj heq))
  rw [get?_note]
  by_cases h : noted = some test
  · rw [if_pos h]
    exact iff_of_false (fun heq => hstatus (hvalue heq)) fun hand => hand.1 h
  · rw [if_neg h]
    exact (and_iff_right h).symm

theorem lastTest_concat (before : List (List Char)) :
    lastTest (before ++ [line]) = (prevTestIn (strip line)).or (lastTest before) := by
  rw [lastTest, List.reverse_append, List.reverse_singleton, List.singleton_append, List.find?_cons, prevTestIn]
  by_cases h : separator <:+: strip line
  · rw [if_pos h, decide_eq_true h]
    rfl
  · rw [if_neg h, decide_eq_false h]
    rfl

/-- What a line does to the status of every test. -/
theorem djangoLine_spec (hline : ¬ HeaderBroken line) :
    ∃ after, djangoLine s line = some after ∧ after.prevTest = (prevTestIn (strip line)).or s.prevTest ∧
      ∀ test, Assoc.get? test after.testStatusMap = some TestStatus.passed.value.toList ↔
        "ok".toList <+: lstrip (shown line) ∧ after.prevTest = some test ∨
          ((passedTest (strip line) = some test ∨ versionIn (strip line) = some test) ∨
            Assoc.get? test s.testStatusMap = some TestStatus.passed.value.toList) ∧ ¬ Marks line test := by
  rw [HeaderBroken, not_or] at hline
  obtain ⟨hfail, herror⟩ := hline
  obtain ⟨fail, hfail⟩ := Option.ne_none_iff_exists'.mp hfail
  obtain ⟨error, herror⟩ := Option.ne_none_iff_exists'.mp herror
  let prevTest := (prevTestIn (strip line)).or s.prevTest
  let passed := note .passed (passedTest (strip line)) (note .passed (versionIn (strip line)) s.testStatusMap)
  let marked := note .error error (note .error (endingTest " ... ERROR".toList (shown line)) (note .failed fail
    (note .failed (endingTest " ... FAIL".toList (shown line)) (note .skipped (skippedTest (shown line)) passed))))
  have hmarked : ∀ test, Assoc.get? test marked = some TestStatus.passed.value.toList ↔
      ((passedTest (strip line) = some test ∨ versionIn (strip line) = some test) ∨
        Assoc.get? test s.testStatusMap = some TestStatus.passed.value.toList) ∧ ¬ Marks line test := by
    intro test
    rw [Marks, hfail, herror, Option.some.injEq, Option.some.injEq, not_or, not_or, not_or, not_or,
      note_other_iff (by decide), note_other_iff (by decide), note_other_iff (by decide), note_other_iff (by decide),
      note_other_iff (by decide), note_passed_iff, note_passed_iff, or_assoc]
    constructor
    · rintro ⟨herror, hendError, hfail, hendFail, hskipped, hpassed⟩
      exact ⟨hpassed, hskipped, hendFail, hendError, hfail, herror⟩
    · rintro ⟨hpassed, hskipped, hendFail, hendError, hfail, herror⟩
      exact ⟨herror, hendError, hfail, hendFail, hskipped, hpassed⟩
  refine ⟨⟨if "ok".toList <+: lstrip (shown line) then note .passed prevTest marked else marked, prevTest⟩, ?_, rfl,
    fun test => ?_⟩
  · unfold djangoLine
    dsimp only
    rw [← shown, hfail, herror]
    rfl
  · dsimp only
    by_cases hok : "ok".toList <+: lstrip (shown line)
    · rw [if_pos hok, note_passed_iff, hmarked, and_iff_right hok]
    · rw [if_neg hok, hmarked]
      exact (or_iff_right fun h => hok h.1).symm

theorem djangoLine_eq_none (hline : HeaderBroken line) : djangoLine s line = none := by
  unfold djangoLine
  dsimp only
  rw [← shown]
  rcases hline with hfail | herror
  · rw [hfail]
    rfl
  · rw [herror]
    cases headerTest "FAIL:".toList (shown line) <;> rfl

end

section Log

variable {test : List Char} {lines : List (List Char)}

/-- Some line passes the test, and none after it marks it. -/
def LastPassed (lines : List (List Char)) (test : List Char) : Prop :=
  ∃ before line after, lines = before ++ line :: after ∧ Passes before line test ∧ ∀ later ∈ after, ¬ Marks later test

theorem lastPassed_concat {line : List Char} :
    LastPassed (lines ++ [line]) test ↔ Passes lines line test ∨ LastPassed lines test ∧ ¬ Marks line test := by
  constructor
  · rintro ⟨before, passing, after, heq, hpasses, hafter⟩
    rcases List.eq_nil_or_concat after with rfl | ⟨init, last, rfl⟩
    · obtain ⟨rfl, hlast⟩ := List.append_inj' heq rfl
      rw [List.singleton_inj.mp hlast]
      exact Or.inl hpasses
    · rw [List.concat_eq_append, ← List.cons_append, ← List.append_assoc] at heq
      obtain ⟨rfl, hlast⟩ := List.append_inj' heq rfl
      rw [List.concat_eq_append, ← List.singleton_inj.mp hlast] at hafter
      refine Or.inr ⟨⟨before, passing, init, rfl, hpasses, fun later hlater => ?_⟩, ?_⟩
      · exact hafter later (List.mem_append_left _ hlater)
      · exact hafter line (List.mem_append_right _ (List.mem_singleton_self line))
  · rintro (hpasses | ⟨⟨before, passing, after, rfl, hpasses, hafter⟩, hline⟩)
    · exact ⟨lines, line, [], rfl, hpasses, fun _ h => absurd h List.not_mem_nil⟩
    · refine ⟨before, passing, after ++ [line], by simp, hpasses, fun later hlater => ?_⟩
      rcases List.mem_append.mp hlater with hlater | hlater
      · exact hafter later hlater
      · exact List.mem_singleton.mp hlater ▸ hline

/-- What the lines record, when every header can be read. -/
theorem foldlM_djangoLine (hlines : ∀ line ∈ lines, ¬ HeaderBroken line) :
    ∃ s, lines.foldlM djangoLine {} = some s ∧ s.prevTest = lastTest lines ∧
      ∀ test, Assoc.get? test s.testStatusMap = some TestStatus.passed.value.toList ↔ LastPassed lines test := by
  induction lines using List.reverseRecOn with
  | nil =>
    refine ⟨{}, rfl, rfl, fun test => iff_of_false (Option.some_ne_none _).symm ?_⟩
    rintro ⟨before, line, after, heq, -⟩
    cases before <;> cases heq
  | append_singleton lines line ih =>
    obtain ⟨s, hs, hprev, hmap⟩ := ih fun l hl => hlines l (List.mem_append_left _ hl)
    have hline := hlines line (List.mem_append_right _ (List.mem_singleton_self line))
    obtain ⟨after, hafter, hprevAfter, hspec⟩ := djangoLine_spec (s := s) hline
    refine ⟨after, ?_, ?_, fun test => ?_⟩
    · rw [List.foldlM_append, hs]
      change [line].foldlM djangoLine s = _
      rw [List.foldlM_cons, hafter]
      rfl
    · rw [hprevAfter, hprev, lastTest_concat]
    · rw [hspec, hmap, lastPassed_concat, Passes, lastTest_concat, hprevAfter, hprev, or_and_right, or_assoc]

theorem foldlM_eq_none {line : List Char} (hmem : line ∈ lines) (hline : HeaderBroken line) (s : DjangoState) :
    lines.foldlM djangoLine s = none := by
  obtain ⟨before, after, rfl⟩ := List.append_of_mem hmem
  rw [List.foldlM_append]
  cases before.foldlM djangoLine s with
  | none => rfl
  | some s' =>
    change (line :: after).foldlM djangoLine s' = none
    rw [List.foldlM_cons, djangoLine_eq_none hline]
    rfl

theorem get?_foldl_note (tests : List (List Char)) (map : StatusMap) :
    Assoc.get? test (tests.foldl (fun map test => note .passed (some test) map) map) =
        some TestStatus.passed.value.toList ↔
      test ∈ tests ∨ Assoc.get? test map = some TestStatus.passed.value.toList := by
  induction tests generalizing map with
  | nil => exact (or_iff_right List.not_mem_nil).symm
  | cons other tests ih =>
    rw [List.foldl_cons, ih, note_passed_iff, List.mem_cons, Option.some.injEq, eq_comm, or_left_comm, or_assoc]

end Log

theorem keepsDjangoFailures_iff (log : DjangoLog) : KeepsDjangoFailures log ↔ MarksFailures log := by
  unfold KeepsDjangoFailures MarksFailures parseLogDjango
  dsimp only
  by_cases hbroken : ∃ line ∈ split ['\n'] log.text, HeaderBroken line
  · refine iff_of_true (fun map hmap => ?_) (Or.inl hbroken)
    obtain ⟨line, hmem, hline⟩ := hbroken
    rw [foldlM_eq_none hmem hline] at hmap
    cases hmap
  · obtain ⟨s, hs, -, hspec⟩ := foldlM_djangoLine fun line hmem hline => hbroken ⟨line, hmem, hline⟩
    rw [or_iff_right hbroken, hs]
    have hmap : ∀ P : StatusMap → Prop, (∀ map, (some s).bind (fun s => some ((interruptedTests log.text).foldl
        (fun map test => note .passed (some test) map) s.testStatusMap)) = some map → P map) ↔
        P ((interruptedTests log.text).foldl (fun map test => note .passed (some test) map) s.testStatusMap) :=
      fun P => ⟨fun h => h _ rfl, fun h map hmap => Option.some.inj hmap ▸ h⟩
    refine (hmap _).trans (forall₃_congr fun report _ _ => ?_)
    rw [Ne, get?_foldl_note, hspec, not_or, LastPassed]
    refine and_congr_right fun _ => ?_
    simp only [not_exists, not_and, not_forall, not_not, exists_prop]

theorem infix_of_infix_concat {w u : List Char} {e d : Char} (hne : d ≠ e) (h : w ++ [e] <:+: u ++ [d]) :
    w ++ [e] <:+: u := by
  rcases List.infix_concat_iff.mp h with hsuffix | hinfix
  · rcases List.suffix_concat_iff.mp hsuffix with hnil | ⟨t, ht, -⟩
    · exact absurd hnil (List.append_ne_nil_of_right_ne_nil _ (List.cons_ne_nil _ _))
    · obtain ⟨-, hlast⟩ := List.append_inj' ht rfl
      exact absurd (List.singleton_inj.mp hlast).symm hne
  · exact hinfix

/-- A report that is cut right behind its separator names no test, so that an ok below it goes to the test before. -/
theorem prevTestIn_cut {name : List Char} (hclean : ¬ separator <:+: name) (hdots : ¬ " ...".toList <:+ name) :
    prevTestIn (strip (name ++ separator)) = none := by
  have hline : strip (name ++ separator) <:+: name ++ [' ', '.', '.', '.'] := by
    have hcut : name ++ separator = (name ++ [' ', '.', '.', '.']) ++ [' '] := by
      rw [List.append_assoc]
      rfl
    obtain ⟨blanks, -, hblanks⟩ := rstrip_append (lstrip (name ++ [' ', '.', '.', '.']))
    rw [hcut, strip_append_space (by decide)]
    exact (List.IsPrefix.isInfix ⟨blanks, hblanks⟩).trans (List.dropWhile_suffix isSpace).isInfix
  refine if_neg fun h => ?_
  have hdotted : [' ', '.', '.', '.'] ++ [' '] <:+: (((name ++ [' ']) ++ ['.']) ++ ['.']) ++ ['.'] := by
    rw [List.append_assoc, List.append_assoc, List.append_assoc]
    exact h.trans hline
  have hdot : '.' ≠ ' ' := by decide
  have hblank := infix_of_infix_concat hdot (infix_of_infix_concat hdot (infix_of_infix_concat hdot hdotted))
  rcases List.infix_concat_iff.mp hblank with hsuffix | hinfix
  · rcases List.suffix_concat_iff.mp hsuffix with hnil | ⟨t, ht, hname⟩
    · cases hnil
    · obtain ⟨rfl, -⟩ := List.append_inj' ht rfl
      exact hdots hname
  · exact hclean hinfix

/-- A test that fails, and one whose verdict comes two lines below its name. -/
def cutReport : DjangoLog where
  reports := [
    { name := "test_a (app.T)".toList, verdict := .fail, name_line := by decide, name_clean := by decide },
    { name := "test_b (app.T)".toList, verdict := .ok, name_line := by decide, name_clean := by decide
      interruption := some ⟨[], [], by decide, fun _ h => absurd h List.not_mem_nil⟩ }]
  distinct := by decide

theorem not_keepsDjangoFailures : ¬ KeepsDjangoFailures cutReport := by
  intro h
  have hparse : parseLogDjango cutReport.text = some [("test_a (app.T)".toList, "PASSED".toList)] := by decide
  exact h _ hparse _ List.mem_cons_self (Or.inl rfl) (by decide)

end OpenHands.LogParsers
