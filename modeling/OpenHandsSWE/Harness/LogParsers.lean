import OpenHandsSWE.Harness.Grading
import OpenHandsSWE.Lib.Lines
import OpenHandsSWE.Lib.Scan
import OpenHandsSWE.Lib.Words

/-! The parsers of pytest logs: what they record of the short summary of a test run. -/

namespace OpenHands

open Text

def TestStatus.value : TestStatus → String
  | .failed => "FAILED"
  | .passed => "PASSED"
  | .skipped => "SKIPPED"
  | .error => "ERROR"
  | .xfail => "XFAIL"

namespace LogParsers

def statuses : List TestStatus := [.failed, .passed, .skipped, .error, .xfail]

/-- `dict[str, str]`, from the name of a test case to its status. -/
abbrev StatusMap := List (List Char × List Char)

def dash : List Char := [' ', '-', ' ']

/-- The words of a line; in a line of a failure the separator of its message is none. -/
def testCase (line : List Char) : List (List Char) :=
  words (if TestStatus.failed.value.toList <+: line then replace dash [' '] line else line)

def startsWithStatus (line : List Char) : Bool := statuses.any fun status => status.value.toList <+: line

def endsWithStatus (line : List Char) : Bool := statuses.any fun status => status.value.toList <:+ line

/-- What a line adds to the map: the name of its test case, and its status. -/
def recorded (testName : List Char → List Char) (line : List Char) : Option (List Char × List Char) :=
  if startsWithStatus line then
    match testCase line with
    | status :: test :: _ => some (testName test, status)
    | _ => none
  else none

def parseLines (entry : List Char → Option (List Char × List Char)) (log : List Char) : StatusMap :=
  Assoc.ofPairs ((split ['\n'] log).filterMap entry)

/-! ## The three parsers -/

def parseLogPytest (log : List Char) : StatusMap := parseLines (recorded id) log

/-- `(.*?)\[(.*)\]`: what is before the first bracket, and what is between it and the last closing one. -/
def optionPattern (test : List Char) : Option (List Char × List Char) :=
  let main := test.takeWhile (· ≠ '[')
  let inner := (test.drop (main.length + 1)).reverse.dropWhile (· ≠ ']')
  if inner = [] then none else some (main, inner.tail.reverse)

/-- `option.split("/")[-1]`. -/
def lastComponent (option : List Char) : List Char := ((split ['/'] option).getLast?).getD []

def optionName (test : List Char) : List Char :=
  match optionPattern test with
  | some (main, option) =>
    let short := if ['/'] <+: option ∧ ¬ ['/', '/'] <+: option ∧ '*' ∉ option then '/' :: lastComponent option else option
    main ++ '[' :: (short ++ [']'])
  | none => test

def parseLogPytestOptions (log : List Char) : StatusMap := parseLines (recorded optionName) log

/-- The zeros of the scripts whose digits `\d` matches. -/
def decimalZeros : List ℕ :=
  [48, 1632, 1776, 1984, 2406, 2534, 2662, 2790, 2918, 3046, 3174, 3302, 3430, 3558, 3664, 3792, 3872, 4160, 4240, 6112,
    6160, 6470, 6608, 6784, 6800, 6992, 7088, 7232, 7248, 42528, 43216, 43264, 43472, 43504, 43600, 44016, 65296, 66720,
    68912, 69734, 69872, 69942, 70096, 70384, 70736, 70864, 71248, 71360, 71472, 71904, 72016, 72784, 73040, 73120, 92768,
    92864, 93008, 120782, 120792, 120802, 120812, 120822, 123200, 123632, 125264, 130032]

def isDecimal (c : Char) : Bool := decimalZeros.any fun first => first ≤ c.toNat && c.toNat < first + 10

/-- `\[(\d+)m` becomes nothing. -/
def colorAt : List Char → Option (List Char × ℕ)
  | '[' :: cs =>
    let digits := cs.takeWhile isDecimal
    if digits ≠ [] ∧ ['m'] <+: cs.drop digits.length then some ([], digits.length + 1) else none
  | _ => none

def isEscape (c : Char) : Bool := 1 ≤ c.toNat && c.toNat < 32

/-- A line without the colour sequences and the control characters. -/
def plain (line : List Char) : List Char := (sub colorAt 0 line).filter fun c => !isEscape c

def recordedV2 (line : List Char) : Option (List Char × List Char) :=
  let line := plain line
  if startsWithStatus line then
    match testCase line with
    | status :: test :: _ => some (test, status)
    | _ => none
  else if endsWithStatus line then
    match words line with
    | test :: status :: _ => some (test, status)
    | _ => none
  else none

/-- `[^\n]*\s*\[100%\]` at the head of a text. -/
def upToHundred : List Char → Bool
  | [] => false
  | c :: cs => "[100%]".toList <+: lstrip (c :: cs) || c ≠ '\n' && upToHundred cs

/-- `\s+\.[^\n]*\s*\[100%\]` at the head of a text. -/
def dotAfterBlank (cs : List Char) : Bool :=
  cs.head?.any isSpace && ['.'] <+: lstrip cs && upToHundred (lstrip cs).tail

/-- `([^\n]+)\s+\.[^\n]*\s*\[100%\]` at the head of a text: the longest group. -/
def groupAt : List Char → Option (List Char)
  | [] => none
  | c :: cs => if c = '\n' then none else ((groupAt cs).map (c :: ·)).or (if dotAfterBlank cs then some [c] else none)

/-- The log of a run that collected one test case, up to its end. -/
def isSingle (log : List Char) : Bool := "collected 1 item".toList <:+: log && "[100%]".toList <:+: log

def parseLogPytestV2 (log : List Char) : StatusMap :=
  if isSingle log then
    match search groupAt log with
    | some group => [(strip group, if "1 passed".toList <:+: log then "PASSED".toList else "FAILED".toList)]
    | none => []
  else parseLines recordedV2 log

/-! ## Short summaries -/

/-- The first word of an id is its path, or begins with it: it is no lone dash, and no status. -/
def StartsWithPath (test : List Char) : Prop :=
  ∃ w ws, words test = w :: ws ∧ w ≠ ['-'] ∧ ∀ status : TestStatus, w ≠ status.value.toList

structure SummaryLine where
  status : TestStatus
  test : List Char
  message : Option (List Char) := none
  test_line : '\n' ∉ test
  test_path : StartsWithPath test
  test_plain : StartsWithPath (plain test)
  message_line : ∀ text ∈ message, '\n' ∉ text
  message_failed : message.isSome → status = .failed

def SummaryLine.rest (line : SummaryLine) : List Char := line.message.elim [] fun text => dash ++ text

def SummaryLine.text (line : SummaryLine) : List Char := line.status.value.toList ++ ' ' :: (line.test ++ line.rest)

structure Summary where
  lines : List SummaryLine
  distinct : (lines.map SummaryLine.test).Nodup

def Summary.log (summary : Summary) : List Char := List.intercalate ['\n'] (summary.lines.map SummaryLine.text)

/-- What is recorded for a failed test is never that it passed. -/
def KeepsFailures (parse : List Char → StatusMap) (entry : List Char → Option (List Char × List Char)) (summary : Summary) :
    Prop :=
  ∀ line ∈ summary.lines, line.status = .failed → ∀ name status, entry line.text = some (name, status) →
    Assoc.get? name (parse summary.log) ≠ some TestStatus.passed.value.toList

def firstWord (cs : List Char) : List Char := (words cs).headD []

/-- No test that shares the name of a failed one and comes last among those that do is one that passed. -/
def NotOvertaken (name : List Char → List Char) (summary : Summary) : Prop :=
  ∀ line ∈ summary.lines, line.status = .failed →
    ((summary.lines.filter fun other => name other.test = name line.test).getLast?).map SummaryLine.status ≠ some .passed

/-! ## The entry of a line -/

section

variable {status : TestStatus} {test rest : List Char}

theorem value_clean (status : TestStatus) : ∀ c ∈ status.value.toList, isSpace c = false := by
  cases status <;> simp [TestStatus.value, isSpace]

theorem value_ne_nil (status : TestStatus) : status.value.toList ≠ [] := by
  cases status <;> decide

theorem startsWithStatus_value (status : TestStatus) (rest : List Char) :
    startsWithStatus (status.value.toList ++ rest) = true := by
  refine List.any_eq_true.mpr ⟨status, ?_, decide_eq_true (List.prefix_append _ _)⟩
  cases status <;> decide

/-- The separator is found behind the first word only. -/
theorem words_replace_dash {w : List Char} {ws : List (List Char)} {cs : List Char} (h : words cs = w :: ws)
    (hw : w ≠ ['-'] ∨ ¬ cs.head?.all isSpace = true) : ∃ ws', words (replace dash [' '] cs) = w :: ws' := by
  have hdash : dash ≠ [] := by decide
  induction cs using split_induction dash hdash generalizing w ws with
  | nil => exact absurd h (by simp [words])
  | occurrence cs ih =>
    have hwords : words (dash ++ cs) = ['-'] :: words (' ' :: cs) := rfl
    rw [hwords, List.cons.injEq] at h
    rcases hw with hw | hw
    · exact absurd h.1.symm hw
    · exact absurd rfl hw
  | letter c cs hpre ih =>
    have hhead : (replace dash [' '] cs).head?.all isSpace = cs.head?.all isSpace := by
      cases cs with
      | nil => rfl
      | cons d cs =>
        by_cases hd : dash <+: d :: cs
        · obtain ⟨rest, hrest⟩ := hd
          have hspace : d = ' ' := (List.cons.inj hrest).1.symm
          rw [← hrest, replace_append hdash, hrest, hspace]
          rfl
        · rw [replace_cons hd]
          rfl
    rw [replace_cons hpre]
    by_cases hc : isSpace c = true
    · rw [words_of_isSpace hc] at h ⊢
      exact ih h (Or.inl (hw.resolve_right fun hw => hw hc))
    · rw [Bool.not_eq_true] at hc
      by_cases hcs : cs.head?.all isSpace = true
      · rw [words_of_last hc hcs, List.cons.injEq] at h
        rw [words_of_last hc (hhead.trans hcs), h.1]
        exact ⟨_, rfl⟩
      · obtain ⟨v, vs, hv⟩ := List.exists_cons_of_ne_nil (words_ne_nil hcs)
        obtain ⟨vs', hvs'⟩ := ih hv (Or.inr hcs)
        rw [words_of_inner hc hcs, hv] at h
        rw [words_of_inner hc (hhead ▸ hcs), hvs']
        exact ⟨vs', congrArg (· :: vs') (List.cons.inj h).1⟩

/-- The second word of a line is the first of its id. -/
theorem testCase_eq (status : TestStatus) (htest : StartsWithPath test) (hrest : rest.head?.all isSpace = true) :
    ∃ ws, testCase (status.value.toList ++ ' ' :: (test ++ rest)) = status.value.toList :: firstWord test :: ws := by
  obtain ⟨w, ws, hw, hdash, -⟩ := htest
  have hfirst : firstWord test = w := by rw [firstWord, hw, List.headD_cons]
  have hwords : words (' ' :: (test ++ rest)) = w :: (ws ++ words rest) := by
    rw [words_of_isSpace (by decide), words_append test hrest, hw, List.cons_append]
  have hstatus (cs : List Char) (hcs : cs.head?.all isSpace = true) :
      words (status.value.toList ++ cs) = status.value.toList :: words cs := by
    rw [words_append _ hcs, words_of_word (value_ne_nil status) (value_clean status), List.singleton_append]
  rw [hfirst, testCase]
  split_ifs
  · obtain ⟨ws', hws'⟩ := words_replace_dash hwords (Or.inl hdash)
    have hspace : ' ' ∉ status.value.toList := fun h => absurd (value_clean status ' ' h) (by decide)
    have hhead : (replace dash [' '] (' ' :: (test ++ rest))).head?.all isSpace = true := by
      by_cases hd : dash <+: ' ' :: (test ++ rest)
      · obtain ⟨cs, hcs⟩ := hd
        rw [← hcs, replace_append (by decide)]
        rfl
      · rw [replace_cons hd]
        rfl
    have hreplace : replace dash [' '] (status.value.toList ++ ' ' :: (test ++ rest)) =
        status.value.toList ++ replace dash [' '] (' ' :: (test ++ rest)) := replace_append_of_notMem hspace _
    refine ⟨ws', ?_⟩
    rw [hreplace, hstatus _ hhead]
    exact congrArg _ hws'
  · exact ⟨ws ++ words rest, by rw [hstatus _ rfl, hwords]⟩

theorem recorded_eq (testName : List Char → List Char) (htest : StartsWithPath test) (hrest : rest.head?.all isSpace = true) :
    recorded testName (status.value.toList ++ ' ' :: (test ++ rest)) =
      some (testName (firstWord test), status.value.toList) := by
  obtain ⟨ws, hws⟩ := testCase_eq status htest hrest
  rw [recorded, if_pos (startsWithStatus_value status _), hws]

end

/-! ## The map of a summary -/

section

variable {entry : List Char → Option (List Char × List Char)} {name : List Char → List Char} {summary : Summary}

theorem SummaryLine.rest_blank (line : SummaryLine) : line.rest.head?.all isSpace = true := by
  rw [SummaryLine.rest]
  cases line.message <;> rfl

theorem SummaryLine.text_line (line : SummaryLine) : '\n' ∉ line.text := by
  intro h
  rw [SummaryLine.text, List.mem_append, List.mem_cons, List.mem_append] at h
  rcases h with h | h | h | h
  · exact absurd (value_clean line.status '\n' h) (by decide)
  · exact absurd h (by decide)
  · exact line.test_line h
  · rw [SummaryLine.rest] at h
    cases hmessage : line.message with
    | none => exact absurd (hmessage ▸ h) List.not_mem_nil
    | some text =>
      rw [hmessage, Option.elim_some, List.mem_append] at h
      exact h.elim (fun h => absurd h (by decide)) (line.message_line text hmessage)

theorem get?_parseLines (hentry : ∀ line ∈ summary.lines, entry line.text = some (name line.test, line.status.value.toList))
    (hnil : entry [] = none) (key : List Char) : Assoc.get? key (parseLines entry summary.log) =
      ((summary.lines.filter fun line => name line.test = key).getLast?).map fun line => line.status.value.toList := by
  have hlines : (split ['\n'] summary.log).filterMap entry =
      summary.lines.map fun line => (name line.test, line.status.value.toList) := by
    by_cases hempty : summary.lines = []
    · rw [Summary.log, hempty]
      exact List.filterMap_cons_none hnil
    · have hclean : ∀ text ∈ summary.lines.map SummaryLine.text, '\n' ∉ text :=
        List.forall_mem_map.mpr fun line _ => line.text_line
      rw [Summary.log, split_intercalate (mt List.map_eq_nil_iff.mp hempty) hclean, List.filterMap_map]
      rw [← List.filterMap_eq_map]
      exact List.filterMap_congr hentry
  rw [parseLines, hlines, Assoc.get?_ofPairs, List.filter_map, List.getLast?_map, Option.map_map]
  rfl

theorem value_injective : Function.Injective TestStatus.value := by
  intro a b h
  cases a <;> cases b <;> first | rfl | exact absurd h (by decide)

theorem keepsFailures_parseLines
    (hentry : ∀ line ∈ summary.lines, entry line.text = some (name line.test, line.status.value.toList))
    (hnil : entry [] = none) : KeepsFailures (parseLines entry) entry summary ↔ NotOvertaken name summary := by
  have hpassed (key : List Char) : Assoc.get? key (parseLines entry summary.log) = some TestStatus.passed.value.toList ↔
      ((summary.lines.filter fun line => name line.test = key).getLast?).map SummaryLine.status = some .passed := by
    rw [get?_parseLines hentry hnil]
    have hinj : Function.Injective fun status : TestStatus => status.value.toList :=
      fun a b h => value_injective (String.toList_injective h)
    rw [← (Option.map_injective hinj).eq_iff, Option.map_map]
    rfl
  unfold KeepsFailures NotOvertaken
  refine forall₂_congr fun line hline => forall_congr' fun _ => ?_
  rw [hentry line hline, Ne, ← hpassed]
  constructor
  · intro h
    exact h _ _ rfl
  · rintro h key status heq
    rw [Option.some.injEq, Prod.mk.injEq] at heq
    rwa [← heq.1]

end

/-! ## Lines without colours -/

section

theorem colorAt_of_ne {c : Char} (h : c ≠ '[') (cs : List Char) : colorAt (c :: cs) = none := by
  unfold colorAt
  split
  · exact absurd (by simp_all) h
  · rfl

theorem colorAt_append (c : Char) (u v : List Char) : colorAt (c :: (u ++ ' ' :: v)) = colorAt (c :: u) := by
  by_cases hc : c = '['
  · have hdigits : (u ++ ' ' :: v).takeWhile isDecimal = u.takeWhile isDecimal := by
      have hspace : (' ' :: v).takeWhile isDecimal = [] := List.takeWhile_cons_of_neg (by decide)
      rw [List.takeWhile_append, hspace, List.append_nil]
      split_ifs with hall
      · exact (List.takeWhile_prefix _).eq_of_length hall |>.symm
      · rfl
    have hle : (u.takeWhile isDecimal).length ≤ u.length := (List.takeWhile_prefix _).length_le
    have hm : ['m'] <+: (u ++ ' ' :: v).drop (u.takeWhile isDecimal).length ↔
        ['m'] <+: u.drop (u.takeWhile isDecimal).length := by
      rw [List.drop_append_of_le_length hle]
      cases u.drop (u.takeWhile isDecimal).length with
      | nil => simp
      | cons d ds => simp [List.cons_prefix_cons]
    rw [hc]
    simp only [colorAt, hdigits, hm]
  · rw [colorAt_of_ne hc, colorAt_of_ne hc]

theorem colorAt_length (c : Char) (u new : List Char) (skip : ℕ) (h : colorAt (c :: u) = some (new, skip)) :
    skip ≤ u.length := by
  by_cases hc : c = '['
  · rw [hc, colorAt] at h
    split_ifs at h with hmatch
    obtain ⟨rest, hrest⟩ := hmatch.2
    have hlength := congrArg List.length hrest
    rw [List.length_append, List.length_drop, List.length_singleton] at hlength
    rw [Option.some.injEq, Prod.mk.injEq] at h
    omega
  · rw [colorAt_of_ne hc] at h
    exact absurd h (by simp)

theorem plain_append (u v : List Char) : plain (u ++ ' ' :: v) = plain u ++ ' ' :: plain v := by
  have hsub := sub_append colorAt_append (colorAt_of_ne (by decide)) colorAt_length (Nat.zero_le u.length) v
  rw [plain, hsub, List.filter_append, List.filter_cons_of_pos (by decide), plain, plain]

theorem plain_value (status : TestStatus) : plain status.value.toList = status.value.toList := by
  cases status <;> decide

theorem recordedV2_eq (line : SummaryLine) :
    recordedV2 line.text = some (firstWord (plain line.test), line.status.value.toList) := by
  have hrest : ∃ rest, rest.head?.all isSpace = true ∧ plain (line.test ++ line.rest) = plain line.test ++ rest := by
    rw [SummaryLine.rest]
    cases line.message with
    | none => exact ⟨[], rfl, by rw [Option.elim_none, List.append_nil, List.append_nil]⟩
    | some text => exact ⟨_, rfl, plain_append line.test ('-' :: ' ' :: text)⟩
  obtain ⟨rest, hblank, hrest⟩ := hrest
  have hplain : plain line.text = line.status.value.toList ++ ' ' :: (plain line.test ++ rest) := by
    rw [SummaryLine.text, plain_append, plain_value, hrest]
  obtain ⟨ws, hws⟩ := testCase_eq line.status line.test_plain hblank
  rw [recordedV2, hplain, if_pos (startsWithStatus_value line.status _), hws]

end

/-! ## A log of a single test case -/

section

variable {cs u r group : List Char} {c : Char}

theorem groupAt_cons (hc : c ≠ '\n') (h : groupAt (c :: cs) = none) : groupAt cs = none := by
  rw [groupAt, if_neg hc, Option.or_eq_none_iff, Option.map_eq_none_iff] at h
  exact h.1

theorem groupAt_some (h : groupAt cs = some group) :
    group ≠ [] ∧ '\n' ∉ group ∧ ∃ rest, cs = group ++ rest ∧ rest.head?.any isSpace = true := by
  induction cs generalizing group with
  | nil => exact absurd h (by simp [groupAt])
  | cons c cs ih =>
    rw [groupAt] at h
    by_cases hc : c = '\n'
    · rw [if_pos hc] at h
      exact absurd h (by simp)
    rw [if_neg hc] at h
    cases hmore : groupAt cs with
    | some more =>
      rw [hmore, Option.map_some, Option.some_or, Option.some.injEq] at h
      obtain ⟨-, hline, rest, hrest, hblank⟩ := ih hmore
      rw [← h, hrest]
      exact ⟨List.cons_ne_nil _ _, List.not_mem_cons_of_ne_of_not_mem (Ne.symm hc) hline, rest, rfl, hblank⟩
    | none =>
      rw [hmore, Option.map_none, Option.none_or] at h
      split_ifs at h with hdot
      rw [Option.some.injEq] at h
      rw [← h]
      refine ⟨List.cons_ne_nil _ _, by simpa using Ne.symm hc, cs, rfl, ?_⟩
      rw [dotAfterBlank, Bool.and_eq_true, Bool.and_eq_true] at hdot
      exact hdot.1.1

theorem groupAt_suffix (hu : '\n' ∉ u) (h : groupAt (u ++ r) = none) {v : List Char} (hv : v <:+ u) :
    groupAt (v ++ r) = none := by
  induction u with
  | nil =>
    rw [List.suffix_nil.mp hv]
    exact h
  | cons c u ih =>
    obtain ⟨hne, hu⟩ := not_or.mp fun hc => hu (List.mem_cons.mpr hc)
    rcases List.suffix_cons_iff.mp hv with rfl | hv
    · exact h
    · exact ih hu (groupAt_cons (Ne.symm hne) h) hv

/-- A match in a line begins where the line does. -/
theorem search_line (hu : '\n' ∉ u) (h : search groupAt (u ++ r) = some group) :
    groupAt (u ++ r) = some group ∨ search groupAt r = some group := by
  cases hhead : groupAt (u ++ r) with
  | some first =>
    left
    obtain ⟨d, ds, hd⟩ : ∃ d ds, u ++ r = d :: ds := by
      cases hcs : u ++ r with
      | nil => exact absurd (hcs ▸ hhead) (by simp [groupAt])
      | cons d ds => exact ⟨d, ds, rfl⟩
    rw [hd] at h hhead
    rw [search_of_match hhead] at h
    exact h
  | none =>
    right
    rw [search_append r fun v hv _ => groupAt_suffix hu hhead hv] at h
    exact h

end

theorem search_groupAt {lines : List (List Char)} {group : List Char} (hlines : ∀ line ∈ lines, '\n' ∉ line)
    (h : search groupAt (List.intercalate ['\n'] lines) = some group) :
    ∃ line ∈ lines, ∃ rest, line = group ++ rest ∧ rest.head?.all isSpace = true ∧ group ≠ [] := by
  -- a group at the head of a line ends in it, at a blank or where the line ends
  have hwithin {u r : List Char} (hr : r.head?.all (· = '\n') = true) (hgroup : groupAt (u ++ r) = some group) :
      ∃ rest, u = group ++ rest ∧ rest.head?.all isSpace = true ∧ group ≠ [] := by
    obtain ⟨hne, hline, rest, hrest, hblank⟩ := groupAt_some hgroup
    rcases List.append_eq_append_iff.mp hrest with ⟨v, hv, hr'⟩ | ⟨v, hv, hrest⟩
    · cases v with
      | nil => exact ⟨[], by rw [hv, List.append_nil, List.append_nil], rfl, hne⟩
      | cons d v =>
        have hd : d = '\n' := by simpa [hr'] using hr
        exact absurd (by rw [hv, hd]; exact List.mem_append_right _ List.mem_cons_self) hline
    · refine ⟨v, hv, ?_, hne⟩
      cases v with
      | nil => rfl
      | cons d v => simpa [hrest] using hblank
  induction lines with
  | nil => exact absurd h (by simp [List.intercalate, search])
  | cons u lines ih =>
    rw [List.forall_mem_cons] at hlines
    cases lines with
    | nil =>
      have hone : List.intercalate ['\n'] [u] = u ++ [] := by simp [List.intercalate]
      rw [hone] at h
      rcases search_line hlines.1 h with h | h
      · exact ⟨u, List.mem_cons_self, hwithin rfl h⟩
      · exact absurd h (by simp [search])
    | cons v lines =>
      rw [intercalate_cons ['\n'] u (List.cons_ne_nil v lines), List.append_assoc] at h
      rcases search_line hlines.1 h with h | h
      · exact ⟨u, List.mem_cons_self, hwithin rfl h⟩
      · obtain ⟨line, hline, hmatch⟩ := ih hlines.2 h
        exact ⟨line, List.mem_cons_of_mem u hline, hmatch⟩

theorem words_group {summary : Summary} {group : List Char} (h : search groupAt summary.log = some group) :
    ∃ status : TestStatus, ∃ ws, words group = status.value.toList :: ws := by
  obtain ⟨text, htext, rest, hrest, hblank, hne⟩ := search_groupAt (List.forall_mem_map.mpr fun line _ => line.text_line) h
  obtain ⟨line, -, rfl⟩ := List.mem_map.mp htext
  have hwords : words group ++ words rest = line.status.value.toList :: words (line.test ++ line.rest) := by
    rw [← words_append group hblank, ← hrest, SummaryLine.text, words_append _ rfl,
      words_of_word (value_ne_nil line.status) (value_clean line.status)]
    rfl
  have hhead : ¬ group.head?.all isSpace = true := by
    obtain ⟨c, cs, rfl⟩ := List.exists_cons_of_ne_nil hne
    obtain ⟨d, ds, hd⟩ := List.exists_cons_of_ne_nil (value_ne_nil line.status)
    rw [SummaryLine.text, hd] at hrest
    have hc : isSpace d = false := value_clean line.status d (by rw [hd]; exact List.mem_cons_self)
    simp [← (List.cons.inj hrest).1, hc]
  obtain ⟨w, ws, hw⟩ := List.exists_cons_of_ne_nil (words_ne_nil hhead)
  rw [hw, List.cons_append, List.cons.injEq] at hwords
  exact ⟨line.status, ws, by rw [hw, hwords.1]⟩

theorem keepsFailures_pytest (summary : Summary) :
    KeepsFailures parseLogPytest (recorded id) summary ↔ NotOvertaken firstWord summary :=
  keepsFailures_parseLines (fun line _ => recorded_eq id line.test_path line.rest_blank) rfl

theorem keepsFailures_options (summary : Summary) : KeepsFailures parseLogPytestOptions (recorded optionName) summary ↔
    NotOvertaken (fun test => optionName (firstWord test)) summary :=
  keepsFailures_parseLines (fun line _ => recorded_eq optionName line.test_path line.rest_blank) rfl

/-- The status of each failed test is kept exactly when no test that passed comes last among those with its
name: the first word of the id, with a path in its brackets cut down to its end by the second parser, and
read without colours by the third one, which keeps all where it takes the log for one of a single test. -/
theorem keepsFailures_iff (summary : Summary) :
    (KeepsFailures parseLogPytest (recorded id) summary ↔ NotOvertaken firstWord summary) ∧
    (KeepsFailures parseLogPytestOptions (recorded optionName) summary ↔
      NotOvertaken (fun test => optionName (firstWord test)) summary) ∧
    (KeepsFailures parseLogPytestV2 recordedV2 summary ↔
      isSingle summary.log = true ∨ NotOvertaken (fun test => firstWord (plain test)) summary) := by
  refine ⟨keepsFailures_pytest summary, keepsFailures_options summary, ?_⟩
  · by_cases hsingle : isSingle summary.log = true
    · refine iff_of_true ?_ (Or.inl hsingle)
      intro line hline _ name status hentry hpassed
      rw [recordedV2_eq, Option.some.injEq, Prod.mk.injEq] at hentry
      obtain ⟨w, ws, hw, -, hstatus⟩ := line.test_plain
      have hname : w = name := by rw [← hentry.1, firstWord, hw, List.headD_cons]
      rw [parseLogPytestV2, if_pos hsingle] at hpassed
      cases hgroup : search groupAt summary.log with
      | none =>
        rw [hgroup] at hpassed
        exact absurd hpassed (by simp)
      | some group =>
        -- the key would be a status, as the group begins with one
        rw [hgroup] at hpassed
        dsimp only at hpassed
        rw [Assoc.get?_cons] at hpassed
        by_cases hkey : name = strip group
        · obtain ⟨status, vs, hvs⟩ := words_group hgroup
          have hword := mem_words (hw ▸ List.mem_cons_self : w ∈ words (plain line.test))
          have hself := words_of_word hword.1 hword.2
          rw [hname, hkey, words_strip, hvs, List.cons.injEq] at hself
          exact hstatus status (by rw [hname, hkey, hself.1])
        · rw [if_neg hkey] at hpassed
          exact absurd hpassed (by simp)
    · have hparse : parseLogPytestV2 summary.log = parseLines recordedV2 summary.log := by
        rw [parseLogPytestV2, if_neg hsingle]
      have hlines : KeepsFailures (parseLines recordedV2) recordedV2 summary ↔
          NotOvertaken (fun test => firstWord (plain test)) summary :=
        keepsFailures_parseLines (fun line _ => recordedV2_eq line) rfl
      rw [or_iff_right hsingle, ← hlines]
      unfold KeepsFailures
      rw [hparse]

theorem startsWithPath_test (parameter : List Char) (h : words parameter = [parameter]) :
    StartsWithPath ("t.py::t[a ".toList ++ parameter) := by
  refine ⟨"t.py::t[a".toList, [parameter], ?_, by decide, ?_⟩
  · have hsplit : "t.py::t[a ".toList ++ parameter = "t.py::t[a".toList ++ ' ' :: parameter := rfl
    rw [hsplit, words_append _ rfl, words_of_isSpace (by decide), h]
    rfl
  · intro status
    cases status <;> decide

/-- Two parameters of one test that differ behind a space: the first one failed. -/
def sharedName : Summary where
  lines := [⟨.failed, "t.py::t[a b]".toList, none, by decide, startsWithPath_test "b]".toList rfl,
      startsWithPath_test "b]".toList rfl, by simp, by simp⟩,
    ⟨.passed, "t.py::t[a c]".toList, none, by decide, startsWithPath_test "c]".toList rfl,
      startsWithPath_test "c]".toList rfl, by simp, by simp⟩]
  distinct := by decide

theorem failure_overwritten : ¬ ∀ summary : Summary, KeepsFailures parseLogPytest (recorded id) summary ∧
    KeepsFailures parseLogPytestOptions (recorded optionName) summary ∧
    KeepsFailures parseLogPytestV2 recordedV2 summary := by
  intro h
  have hkept := (keepsFailures_pytest sharedName).mp (h sharedName).1
  exact hkept _ List.mem_cons_self rfl (by decide)

end LogParsers

end OpenHands
