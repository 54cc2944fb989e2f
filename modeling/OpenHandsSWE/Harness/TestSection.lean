import OpenHandsSWE.Harness.Grading

/-! What of a log decides its grade: the section that the two marker commands enclose, as long as the
text around it has none of the markers and error codes. -/

namespace OpenHands

open Text

/-- What the shell prints, under `set -x`, before it runs `: '{marker}'`. -/
def traceLine (marker : String) : List Char := "+ : ".toList ++ '\'' :: (marker.toList ++ ['\'', '\n'])

/-- A log of the evaluation script around the section of the tests. -/
def evalLog (before tests after : List Char) : List Char :=
  before ++ traceLine START_TEST_OUTPUT ++ tests ++ traceLine END_TEST_OUTPUT ++ after

/-- The text between the two markers: the tests, with what is left of the two trace lines. -/
def betweenMarkers (tests : List Char) : List Char := ['\'', '\n'] ++ tests ++ "+ : ".toList ++ ['\'']

/-- The map is the parser applied to the section, and the log counts as found. -/
def GradedBySection (harness : Harness) (spec : TestSpec) (logParser : List Char → TestSpec → StatusMap)
    (before tests after : List Char) : Prop :=
  getLogsEval harness spec (some (evalLog before tests after)) = .ok (logParser (betweenMarkers tests) spec, true)

/-- No error code anywhere in the log. -/
def NoBadCode (log : List Char) : Prop := ∀ code ∈ BAD_CODES, ¬ code.toList <:+: log

/-- The markers are found first where the two commands print them. -/
structure MarkersOnce (before tests : List Char) : Prop where
  start_before : ¬ START_TEST_OUTPUT.toList <:+: before
  start_tests : ¬ START_TEST_OUTPUT.toList <:+: tests
  end_tests : ¬ END_TEST_OUTPUT.toList <:+: tests

section Markers

theorem start_noOverlap_opening : NoOverlap START_TEST_OUTPUT.toList "+ : ".toList :=
  .of_borders (by decide) (by decide) (by decide) (by decide)

theorem end_noOverlap_opening : NoOverlap END_TEST_OUTPUT.toList "+ : ".toList :=
  .of_borders (by decide) (by decide) (by decide) (by decide)

theorem start_noOverlap_end : NoOverlap START_TEST_OUTPUT.toList END_TEST_OUTPUT.toList :=
  .of_borders (by decide) (by decide) (by decide) (by decide)

theorem start_noOverlap_quote : NoOverlap START_TEST_OUTPUT.toList ['\''] := .of_notMem (by decide) (by decide)

theorem start_noOverlap_closing : NoOverlap START_TEST_OUTPUT.toList ['\'', '\n'] :=
  .of_borders (by decide) (by decide) (by decide) (by decide)

theorem end_noOverlap_closing : NoOverlap END_TEST_OUTPUT.toList ['\'', '\n'] :=
  .of_borders (by decide) (by decide) (by decide) (by decide)

variable {word marker u : List Char}

/-- A word that is not in a text is not in it with a marker at its end. -/
theorem clean_append (h : NoOverlap word marker) (hword : word ≠ []) (hu : ¬ word <:+: u) : ¬ word <:+: u ++ marker := by
  intro hw
  rcases h.infix_append (u := u) (v := []) (by simpa using hw) with hw | hw
  · exact hu hw
  · exact hword (List.eq_nil_of_infix_nil hw)

theorem clean_prepend (h : NoOverlap word marker) (hword : word ≠ []) (hu : ¬ word <:+: u) : ¬ word <:+: marker ++ u := by
  intro hw
  rcases h.infix_append (u := []) (v := u) (by simpa using hw) with hw | hw
  · exact hword (List.eq_nil_of_infix_nil hw)
  · exact hu hw

end Markers

theorem testContent_evalLog {before tests : List Char} (h : MarkersOnce before tests) (after : List Char) :
    testContent (evalLog before tests after) = .ok (betweenMarkers tests) := by
  have hstart : START_TEST_OUTPUT.toList ≠ [] := by decide
  have hend : END_TEST_OUTPUT.toList ≠ [] := by decide
  have hstartQuote : '\'' ∉ START_TEST_OUTPUT.toList := by decide
  have hendQuote : '\'' ∉ END_TEST_OUTPUT.toList := by decide
  have hlog : evalLog before tests after = (before ++ "+ : ".toList) ++ '\'' :: (START_TEST_OUTPUT.toList ++
      ((betweenMarkers tests ++ END_TEST_OUTPUT.toList) ++ '\'' :: ('\n' :: after))) := by
    simp [evalLog, traceLine, betweenMarkers]
  -- the first piece ends at the trace of the first command
  obtain ⟨q, qs, hq⟩ := List.exists_cons_of_ne_nil (split_ne_nil START_TEST_OUTPUT.toList ('\n' :: after))
  have hinner : ¬ START_TEST_OUTPUT.toList <:+: betweenMarkers tests ++ END_TEST_OUTPUT.toList := by
    apply clean_append start_noOverlap_end hstart
    apply clean_append start_noOverlap_quote hstart
    apply clean_append start_noOverlap_opening hstart
    exact clean_prepend start_noOverlap_closing hstart h.start_tests
  have hrest := split_before_letter hstart hstartQuote hinner hq
  have hsecond : (split START_TEST_OUTPUT.toList (evalLog before tests after))[1]? =
      some ((betweenMarkers tests ++ END_TEST_OUTPUT.toList) ++ '\'' :: q) := by
    have hfirst : ¬ START_TEST_OUTPUT.toList <:+: before ++ "+ : ".toList :=
      clean_append start_noOverlap_opening hstart h.start_before
    have hsplit := split_append START_TEST_OUTPUT.toList hstart
      ((betweenMarkers tests ++ END_TEST_OUTPUT.toList) ++ '\'' :: ('\n' :: after))
    rw [hlog, split_before_letter hstart hstartQuote hfirst hsplit, hrest]
    rfl
  -- and the second piece is cut at the trace of the second one
  have hclean : ¬ END_TEST_OUTPUT.toList <:+: ['\'', '\n'] ++ tests ++ "+ : ".toList := by
    apply clean_append end_noOverlap_opening hend
    exact clean_prepend end_noOverlap_closing hend h.end_tests
  have hcut : (split END_TEST_OUTPUT.toList ((betweenMarkers tests ++ END_TEST_OUTPUT.toList) ++ '\'' :: q))[0]? =
      some (betweenMarkers tests) := by
    have htext : (betweenMarkers tests ++ END_TEST_OUTPUT.toList) ++ '\'' :: q =
        (['\'', '\n'] ++ tests ++ "+ : ".toList) ++ '\'' :: (END_TEST_OUTPUT.toList ++ '\'' :: q) := by
      simp [betweenMarkers]
    have hsplit := split_append END_TEST_OUTPUT.toList hend ('\'' :: q)
    rw [htext, split_before_letter hend hendQuote hclean hsplit]
    rfl
  rw [testContent, hsecond]
  dsimp only
  rw [hcut]

section Graded
variable {harness : Harness} {spec : TestSpec} {logParser : List Char → TestSpec → StatusMap}
  {before tests after : List Char}

/-- A code in the log is all that counts. -/
theorem getLogsEval_badCode (hparser : harness.logParser spec.repo = some logParser)
    (hspecs : harness.hasSpecs spec.repo spec.version = true) {log : List Char} (h : ¬ NoBadCode log) :
    getLogsEval harness spec (some log) = .ok ([], false) := by
  have hbad : (BAD_CODES.any fun code => code.toList <:+: log) = true := by
    simpa [NoBadCode] using h
  unfold getLogsEval
  rw [hparser]
  simp only [hspecs, Bool.not_true, Bool.false_eq_true, if_false, hbad, if_true]

theorem getLogsEval_evalLog (hparser : harness.logParser spec.repo = some logParser)
    (hspecs : harness.hasSpecs spec.repo spec.version = true) (hgood : NoBadCode (evalLog before tests after))
    (honce : MarkersOnce before tests) :
    getLogsEval harness spec (some (evalLog before tests after)) =
      .ok (if (logParser (betweenMarkers tests) spec).isEmpty then logParser (evalLog before tests after) spec
        else logParser (betweenMarkers tests) spec, true) := by
  have hbad : (BAD_CODES.any fun code => code.toList <:+: evalLog before tests after) = false := by
    simpa [NoBadCode] using hgood
  have hmarkers : START_TEST_OUTPUT.toList <:+: evalLog before tests after ∧
      END_TEST_OUTPUT.toList <:+: evalLog before tests after :=
    ⟨⟨before ++ "+ : ".toList ++ ['\''], ['\'', '\n'] ++ tests ++ traceLine END_TEST_OUTPUT ++ after, by
        simp [evalLog, traceLine]⟩,
      ⟨before ++ traceLine START_TEST_OUTPUT ++ tests ++ "+ : ".toList ++ ['\''], ['\'', '\n'] ++ after, by
        simp [evalLog, traceLine]⟩⟩
  unfold getLogsEval
  rw [hparser]
  simp only [hspecs, Bool.not_true, Bool.false_eq_true, if_false, hbad, hmarkers, and_self, not_true,
    testContent_evalLog honce after]
  rfl

/-- No log with an error code in it is graded by its section. Where the markers stand once, a log without
one is, exactly when the section has results or the whole log has none either. -/
theorem gradedBySection_iff (hparser : harness.logParser spec.repo = some logParser)
    (hspecs : harness.hasSpecs spec.repo spec.version = true) (before tests after : List Char) :
    (GradedBySection harness spec logParser before tests after → NoBadCode (evalLog before tests after)) ∧
    (MarkersOnce before tests → (GradedBySection harness spec logParser before tests after ↔
      NoBadCode (evalLog before tests after) ∧ (logParser (betweenMarkers tests) spec ≠ [] ∨
        logParser (evalLog before tests after) spec = []))) := by
  have hnoBad : GradedBySection harness spec logParser before tests after → NoBadCode (evalLog before tests after) := by
    intro h
    by_contra hbad
    rw [GradedBySection, getLogsEval_badCode hparser hspecs hbad] at h
    injection h with h
    exact nomatch congrArg Prod.snd h
  refine ⟨hnoBad, fun honce => ?_⟩
  constructor
  · intro h
    refine ⟨hnoBad h, ?_⟩
    rw [GradedBySection, getLogsEval_evalLog hparser hspecs (hnoBad h) honce] at h
    injection h with h
    have hmap := congrArg Prod.fst h
    by_cases hempty : logParser (betweenMarkers tests) spec = []
    · right
      rwa [hempty, List.isEmpty_nil, if_pos rfl] at hmap
    · exact Or.inl hempty
  · rintro ⟨hgood, hresults⟩
    rw [GradedBySection, getLogsEval_evalLog hparser hspecs hgood honce]
    rcases hresults with hsome | hnone
    · rw [if_neg (mt List.isEmpty_iff.mp hsome)]
    · by_cases hempty : logParser (betweenMarkers tests) spec = []
      · rw [hempty, hnone, ite_self]
      · rw [if_neg (mt List.isEmpty_iff.mp hempty)]

end Graded

/-- The parser of `requestsHarness`. -/
def requestsParser (content : List Char) (_ : TestSpec) : StatusMap :=
  if "SKIPPED test_a".toList <:+: content then [("test_a", .skipped)] else [("test_a", .passed)]

def passedTests : List Char := "PASSED test_a\n".toList

/-- A diff that adds a line with an error code. -/
def codeInDiff : List Char := "+# >>>>> Tests Errored\n".toList

theorem gradedBySection_requests :
    GradedBySection requestsHarness requestsSpec requestsParser "+x = 1\n".toList passedTests [] := by
  refine ((gradedBySection_iff rfl rfl _ _ _).2 ⟨by decide, by decide, by decide⟩).mpr ⟨?_, Or.inl ?_⟩
  · unfold NoBadCode
    decide +kernel
  · unfold requestsParser
    split_ifs <;> exact nofun

theorem codeInDiff_not_graded :
    ¬ GradedBySection requestsHarness requestsSpec requestsParser codeInDiff passedTests [] := by
  intro h
  have hbad : ¬ NoBadCode (evalLog codeInDiff passedTests []) := by
    unfold NoBadCode
    decide +kernel
  rw [GradedBySection, getLogsEval_badCode rfl rfl hbad] at h
  injection h with h
  exact nomatch congrArg Prod.snd h

end OpenHands
