import OpenHandsSWE.Harness.PatchCorrection

/-! The patch that a model gives for an instance is repaired: its hunks stay as they are, under headers that are counted again. -/

namespace OpenHands.RepairPatch
open Text EditScript Patching PatchCorrection

/-- `DIFF_PATTERN`: only the first line of a text. -/
def diffPattern (patch : List Char) : Option (List Char) :=
  if "diff".toList <+: patch then some (patch.takeWhile (· ≠ '\n')) else none

def repairHunks (totalDelta : ℤ) : List HunkMatch → Except PyError (List Char)
  | [] => .ok []
  | h :: hs =>
    if isNumeric h.content then .error (.attributeError "'int' object has no attribute 'split'")
    else
      let stats := getHunkStats h.preStart h.content totalDelta
      (repairHunks stats.totalDelta hs).map (stats.text h.content ++ ·)

def repairFile (patch : List Char) : Except PyError (List Char) :=
  let diffHeader := (diffPattern patch).elim [] (· ++ ['\n'])
  match search patchFilePattern patch with
  | none => .error .indexError
  | some header =>
    (repairHunks 0 (findIter patchHunkPattern 0 patch)).map
      (diffHeader ++ (if header = [] then [] else header ++ ['\n']) ++ ·)

def repairFiles : List (List Char) → Except PyError (List Char)
  | [] => .ok []
  | patch :: patches => (repairFile patch).bind fun text => (repairFiles patches).map (text ++ ·)

def repairPatch : Option (List Char) → Except PyError (Option (List Char))
  | none => .ok none
  | some modelPatch => (repairFiles (findIter patchPattern 0 (modelPatch.dropWhile (· = '\n')))).map some

/-- The same hunks under headers that are true of them. -/
def repaired (f : FilePatch) : FilePatch := { f with hunks := exact 0 (f.hunks.map fun ch => (ch.1.heading, ch.2)) }

/-! ## The headers are right -/

theorem text_eq_of_heading (start preLen postStart postLen : ℕ) (totalDelta : ℤ) (heading content : List Char) :
    HunkStats.text ⟨start, preLen, postStart, postLen, totalDelta⟩ (heading ++ content) =
      headerLine start ⟨preLen, postStart, postLen, heading⟩ ++ content := by
  have hsplit : headerLine start ⟨preLen, postStart, postLen, heading⟩ =
      headerLine start ⟨preLen, postStart, postLen, []⟩ ++ heading := by
    rw [headerLine_def, headerLine_def, List.append_nil]
  rw [HunkStats.text_eq, hsplit, List.append_assoc]

theorem repairHunks_hunkMatches {hs : List (Claims × Hunk (List Char))} (hplain : ∀ h ∈ hs, Plain h.1 h.2) (old new : ℕ) :
    repairHunks ((new : ℤ) - old) (hunkMatches old hs) =
      .ok (ended '\n' (claimedLines old (exact new (hs.map fun ch => (ch.1.heading, ch.2)))).flatten) := by
  induction hs generalizing old new with
  | nil => rfl
  | cons ch hs ih =>
    obtain ⟨c, h⟩ := ch
    obtain ⟨hfirst, hrest⟩ := List.forall_mem_cons.mp hplain
    dsimp only at hfirst
    have hne : h.edits ≠ [] := by
      obtain ⟨e, he, _⟩ := hfirst.changed
      exact List.ne_nil_of_mem he
    have hold : h.old.length = h.gap.length + (source h.edits).length := List.length_append
    have hnew : h.new.length = h.gap.length + (target h.edits).length := List.length_append
    have hpost : ((old + h.gap.length + 1 : ℕ) : ℤ) + ((new : ℤ) - old) = ((new + h.gap.length + 1 : ℕ) : ℤ) := by
      push_cast
      ring
    have hdelta : (new : ℤ) - old + ((target h.edits).length - (source h.edits).length) =
        ((new + h.new.length : ℕ) : ℤ) - ((old + h.old.length : ℕ) : ℤ) := by
      rw [hold, hnew]
      push_cast
      ring
    have hstats := getHunkStats_edits hfirst.heading.1 hne (fun e he => (hfirst.lines e he).1)
      ((old + h.gap.length + 1 : ℕ) : ℤ) ((new : ℤ) - old)
    rw [hpost, hdelta] at hstats
    have hih := ih hrest (old + h.old.length) (new + h.new.length)
    have htext : ended '\n' (headerLine (old + h.gap.length + 1) (exactClaims new c.heading h) :: h.edits.map editText) =
        headerLine (old + h.gap.length + 1) (exactClaims new c.heading h) ++ '\n' :: ended '\n' (h.edits.map editText) := ended_cons _
    rw [hunkMatches, repairHunks, notNumeric, if_neg Bool.false_ne_true]
    dsimp only
    rw [hstats]
    dsimp only
    rw [hih]
    refine congrArg Except.ok ?_
    rw [List.map_cons, exact, claimedLines, List.flatten_cons, ended_append, htext, text_eq_of_heading]
    rfl

open FilePatch in
theorem diffPattern_text {f : FilePatch} (h : f.Plain) :
    (diffPattern f.text).elim [] (· ++ ['\n']) = ended '\n' f.commandLines := by
  have hpath : '\n' ∉ f.path := fun hmem => absurd (h.pathChar hmem).1 (by decide)
  have hline : '\n' ∉ f.commandLine := by
    change '\n' ∉ "diff --git a/".toList ++ f.path ++ " b/".toList ++ f.path
    simp only [List.mem_append, not_or]
    exact ⟨⟨⟨by decide, hpath⟩, by decide⟩, hpath⟩
  have hletters : ∀ c ∈ f.commandLine, (fun c : Char => decide (c ≠ '\n')) c = true := by
    intro c hc
    rw [decide_eq_true_eq]
    rintro rfl
    exact hline hc
  rw [text_eq, ended_commandLines, diffPattern]
  split_ifs with hcommand hpre hpre
  · rw [Option.elim_some, List.append_assoc, List.takeWhile_append_of_pos hletters, List.singleton_append,
      List.takeWhile_cons_of_neg (by decide), List.append_nil]
  · refine absurd ?_ hpre
    rw [commandLine_eq, List.append_assoc, List.append_assoc]
    exact List.prefix_append _ _
  · rw [List.nil_append, shown_eq, nameMark_eq, show "diff".toList = 'd' :: "iff".toList by decide] at hpre
    exact absurd (List.cons_prefix_cons.mp hpre).1 (by decide)
  · rfl

theorem repairFile_text {f : FilePatch} (h : f.Plain) : repairFile f.text = .ok (repaired f).text := by
  have hhunks := repairHunks_hunkMatches h.hunks 0 0
  rw [sub_self] at hhunks
  have hheader : f.header ≠ [] := by
    rw [FilePatch.header, nameMark_eq]
    exact List.cons_ne_nil _ _
  rw [repairFile, FilePatch.search_header h, FilePatch.findIter_text h, diffPattern_text h]
  dsimp only
  rw [hhunks, if_neg hheader]
  refine congrArg Except.ok ?_
  have hnames : f.header ++ ['\n'] = ended '\n' f.nameLines := by
    have htext : ended '\n' f.nameLines = ("--- a/".toList ++ f.path) ++ '\n' :: (("+++ b/".toList ++ f.path) ++ ['\n']) :=
      (ended_cons _).trans (congrArg (("--- a/".toList ++ f.path) ++ '\n' :: ·) (ended_cons _))
    rw [htext, FilePatch.header]
    simp only [List.append_assoc, List.cons_append]
  have hlines : (repaired f).lines = f.commandLines ++ f.nameLines ++ (claimedLines 0 (repaired f).hunks).flatten := rfl
  rw [hnames, FilePatch.text, hlines, ended_append, ended_append]
  rfl

end OpenHands.RepairPatch
