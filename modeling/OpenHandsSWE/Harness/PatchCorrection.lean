import OpenHandsSWE.Inference.CodeText
import OpenHandsSWE.Lib.Blanks
import OpenHandsSWE.Lib.Scan
import OpenHandsSWE.Resolver.ParsePatch

/-! The patch of a model is corrected: each hunk is cut down to its changes, and the numbers of its header are counted again. -/

namespace OpenHands.PatchCorrection
open Text EditScript Patching CodeText

/-! ## The patterns -/

/-- `\s+`; what follows it in a pattern is no white space. -/
def spaces (cs : List Char) : Option (List Char) := if cs.head?.any isSpace then some (cs.dropWhile isSpace) else none

/-- `(\d+)`. -/
def number (cs : List Char) : Option (ℕ × List Char) :=
  (natural (cs.takeWhile Char.isDigit)).map fun n => (n, cs.dropWhile Char.isDigit)

/-- `\-\-\-\s+a\/`. -/
def oldMark (cs : List Char) : Option (List Char) := ((behind? "---".toList cs).bind spaces).bind (behind? "a/".toList)

/-- `\n\+\+\+\s+b\/`. -/
def newMark (cs : List Char) : Option (List Char) := ((behind? "\n+++".toList cs).bind spaces).bind (behind? "b/".toList)

/-- As few letters as possible, up to one of the marks or the end. -/
def upToMark (marks : List (List Char)) : List Char → List Char
  | [] => []
  | c :: cs => if marks.any fun mark => mark <+: c :: cs then [] else c :: upToMark marks cs

def fileMarks : List (List Char) := ["diff ".toList, "--- a/".toList]

def hunkMarks : List (List Char) := ["diff ".toList, "--- a/".toList, "@@ -".toList]

def isPathChar (c : Char) : Bool := c.isAlphanum || decide (c ∈ ['_', '.', ' ', '/', '-'])

/-- `diff[\w\_\.\ \/\-]+\n`. -/
def commandMark (cs : List Char) : Option (List Char) :=
  (behind? "diff".toList cs).bind fun rest =>
    if rest.takeWhile isPathChar = [] then none else behind? ['\n'] (rest.dropWhile isPathChar)

/-- What stands behind the diff of a file. -/
def fileEnd (cs : List Char) : Option (List Char) :=
  (oldMark cs).bind fun rest => (search newMark rest).map fun rest => rest.drop (upToMark fileMarks rest).length

/-- `PATCH_PATTERN`. -/
def patchPattern (cs : List Char) : Option (List Char × ℕ) :=
  (((commandMark cs).bind fileEnd).or (fileEnd cs)).map fun rest =>
    (cs.take (cs.length - rest.length), cs.length - rest.length - 1)

/-- `PATCH_FILE_PATTERN`. -/
def patchFilePattern (cs : List Char) : Option (List Char) :=
  let isLetter (c : Char) : Bool := c ≠ '\n'
  (oldMark cs).bind fun old =>
    if old.takeWhile isLetter = [] then none
    else (newMark (old.dropWhile isLetter)).bind fun new =>
      if new.takeWhile isLetter = [] then none else some (cs.take (cs.length - (new.dropWhile isLetter).length))

structure HunkMatch where
  preStart : ℕ
  preLen : ℕ
  postStart : ℕ
  postLen : ℕ
  content : List Char
deriving DecidableEq, Repr

/-- `(\d+),(\d+)`. -/
def numbers (cs : List Char) : Option (ℕ × ℕ × List Char) :=
  (number cs).bind fun (start, rest) => (behind? [','] rest).bind fun rest => (number rest).map fun (len, rest) => (start, len, rest)

/-- `PATCH_HUNK_PATTERN`; its content has at least one letter. -/
def patchHunkPattern (cs : List Char) : Option (HunkMatch × ℕ) :=
  (((behind? "@@".toList cs).bind spaces).bind (behind? ['-'])).bind fun rest =>
    (numbers rest).bind fun (preStart, preLen, rest) =>
      ((spaces rest).bind (behind? ['+'])).bind fun rest =>
        (numbers rest).bind fun (postStart, postLen, rest) =>
          ((spaces rest).bind (behind? "@@".toList)).bind fun
            | [] => none
            | c :: rest =>
              let content := c :: upToMark hunkMarks rest
              some (⟨preStart, preLen, postStart, postLen, content⟩, cs.length - (rest.length + 1) + content.length - 1)

/-! ## A hunk is stripped and counted -/

def getFirstIdx (charlist : List (Option Char)) : ℕ := min (charlist.idxOf (some '-')) (charlist.idxOf (some '+'))

/-- One more than the place behind the last change. -/
def getLastIdx (charlist : List (Option Char)) : ℕ := charlist.length - getFirstIdx charlist.reverse + 1

def stripContent (hunk : List Char) : List Char × ℤ :=
  let pieces := split ['\n'] hunk
  let firstChars := pieces.map List.head?
  let newLines := ((pieces.take (getLastIdx firstChars)).drop (getFirstIdx firstChars)).map rstrip
  let newLines := newLines.map fun line => if strip line = [] then [' '] else line
  ('\n' :: (List.intercalate ['\n'] newLines ++ ['\n']), getFirstIdx firstChars - 1)

structure HunkStats where
  preStart : ℤ
  preLen : ℕ
  postStart : ℤ
  postLen : ℕ
  totalDelta : ℤ
deriving DecidableEq, Repr

def getHunkStats (preStart : ℤ) (hunk : List Char) (totalDelta : ℤ) : HunkStats :=
  let hunk := if '\n' ∈ hunk then (hunk.dropWhile (· ≠ '\n')).tail else hunk
  let lines := split ['\n'] (stripNewlines hunk)
  let subtracted := lines.countP fun line => line.head? = some '-'
  let added := lines.countP fun line => line.head? = some '+'
  let context := lines.countP fun line => line.head? ≠ some '-' ∧ line.head? ≠ some '+'
  {
    preStart
    preLen := context + subtracted
    postStart := preStart + totalDelta
    postLen := context + added
    totalDelta := totalDelta + ((context + added : ℕ) - (context + subtracted : ℕ)) }

def intText : ℤ → List Char
  | .ofNat n => Nat.toDigits 10 n
  | .negSucc n => '-' :: Nat.toDigits 10 (n + 1)

def HunkStats.text (s : HunkStats) (content : List Char) : List Char :=
  "@@ -".toList ++ intText s.preStart ++ ',' :: Nat.toDigits 10 s.preLen ++ " +".toList ++ intText s.postStart ++
    ',' :: Nat.toDigits 10 s.postLen ++ " @@".toList ++ content

/-- `x.isnumeric()`; a hunk whose text is a number becomes one. -/
def isNumeric (cs : List Char) : Bool := cs ≠ [] && cs.all Char.isDigit

def minimalHunks (totalDelta : ℤ) : List HunkMatch → Except PyError (List Char)
  | [] => .ok []
  | h :: hs =>
    if isNumeric h.content then .error (.attributeError "'int' object has no attribute 'split'")
    else
      let (content, adjustPreStart) := stripContent h.content
      let stats := getHunkStats (h.preStart + adjustPreStart) content totalDelta
      (minimalHunks stats.totalDelta hs).map (stats.text content ++ ·)

def minimalFile (patch : List Char) : Except PyError (List Char) :=
  match search patchFilePattern patch with
  | none => .error .indexError
  | some header =>
    (minimalHunks 0 (findIter patchHunkPattern 0 patch)).map ((if header = [] then [] else header ++ ['\n']) ++ ·)

def minimalFiles : List (List Char) → Except PyError (List Char)
  | [] => .ok []
  | patch :: patches => (minimalFile patch).bind fun text => (minimalFiles patches).map (text ++ ·)

def extractMinimalPatch (modelPatch : List Char) : Except PyError (List Char) :=
  minimalFiles (findIter patchPattern 0 (modelPatch.dropWhile (· = '\n')))

/-! ## The patch that is corrected -/

/-- What the header of a hunk says beside its first line, and what stands behind it. -/
structure Claims where
  preLen : ℕ
  postStart : ℕ
  postLen : ℕ
  heading : List Char

def headerLine (start : ℕ) (c : Claims) : List Char :=
  "@@ -".toList ++ Nat.toDigits 10 start ++ ',' :: Nat.toDigits 10 c.preLen ++ " +".toList ++ Nat.toDigits 10 c.postStart ++
    ',' :: Nat.toDigits 10 c.postLen ++ " @@".toList ++ c.heading

/-- The lines of hunks that say what they like about their lengths and the new file. -/
def claimedLines (old : ℕ) : List (Claims × Hunk (List Char)) → List (List (List Char))
  | [] => []
  | (c, h) :: hs =>
    (headerLine (old + h.gap.length + 1) c :: h.edits.map editText) :: claimedLines (old + h.old.length) hs

def exactClaims (new : ℕ) (heading : List Char) (h : Hunk (List Char)) : Claims where
  preLen := (source h.edits).length
  postStart := new + h.gap.length + 1
  postLen := (target h.edits).length
  heading := heading

/-- Hunks with the numbers that are true of them. -/
def exact (new : ℕ) : List (List Char × Hunk (List Char)) → List (Claims × Hunk (List Char))
  | [] => []
  | (heading, h) :: hs => (exactClaims new heading h, h) :: exact (new + h.new.length) hs

structure FilePatch where
  command : Bool
  path : List Char
  hunks : List (Claims × Hunk (List Char))

namespace FilePatch

variable (f : FilePatch)

def commandLines : List (List Char) :=
  if f.command then ["diff --git a/".toList ++ f.path ++ " b/".toList ++ f.path] else []

def nameLines : List (List Char) := ["--- a/".toList ++ f.path, "+++ b/".toList ++ f.path]

def lines : List (List Char) := f.commandLines ++ f.nameLines ++ (claimedLines 0 f.hunks).flatten

def text : List Char := ended '\n' f.lines

end FilePatch

/-- The changes of a script with one line behind them. -/
def minimalCut : Cut (List Char) where
  lead := linesBefore
  body es := core es ++ ((linesAfter es).take 1).map Edit.keep
  tail es := (linesAfter es).drop 1
  whole es := by
    rw [List.append_assoc, ← List.map_append, List.take_append_drop, core_whole]

/-- The hunks that are left, with the numbers that are true of them and nothing behind their headers. -/
def FilePatch.minimal (f : FilePatch) : FilePatch where
  command := false
  path := f.path
  hunks := exact 0 ((recut minimalCut [] (f.hunks.map Prod.snd)).1.map fun h => ([], h))

/-- No mark of the patterns in what is written; lines have no white space at their end. -/
structure Plain (c : Claims) (h : Hunk (List Char)) : Prop where
  heading : '\n' ∉ c.heading ∧ c.heading.head? ≠ some '-' ∧ c.heading.head? ≠ some '+' ∧ ∀ mark ∈ hunkMarks, ¬ mark <:+: c.heading
  lines : ∀ e ∈ h.edits, '\n' ∉ e.line ∧ rstrip e.line = e.line ∧ ∀ mark ∈ hunkMarks, ¬ mark <:+: editText e
  changed : ∃ e ∈ h.edits, e.isKeep = false

structure FilePatch.Plain (f : FilePatch) : Prop where
  path : f.path ≠ [] ∧ ∀ c ∈ f.path, isPathChar c = true ∧ c ≠ ' '
  hunks : ∀ h ∈ f.hunks, PatchCorrection.Plain h.1 h.2

/-! ## Stripping -/

theorem split_edits {heading : List Char} {es : List (Edit (List Char))} (hheading : '\n' ∉ heading)
    (hes : ∀ e ∈ es, '\n' ∉ e.line) :
    split ['\n'] (heading ++ '\n' :: ended '\n' (es.map editText)) = (heading :: es.map editText) ++ [[]] := by
  have hlines : ∀ p ∈ heading :: es.map editText, '\n' ∉ p := by
    refine List.forall_mem_cons.mpr ⟨hheading, fun p hp => ?_⟩
    obtain ⟨e, he, rfl⟩ := List.mem_map.mp hp
    cases e <;> exact List.not_mem_cons_of_ne_of_not_mem (by decide) (hes _ he)
  have hsplit := split_ended (c := '\n') (r := []) hlines List.not_mem_nil
  rwa [List.append_nil, ended_cons] at hsplit

def isChange (c : Option Char) : Prop := c = some '-' ∨ c = some '+'

theorem getFirstIdx_append {l r : List (Option Char)} {c : Option Char} (hl : ∀ x ∈ l, ¬ isChange x) (hc : isChange c) :
    getFirstIdx (l ++ c :: r) = l.length := by
  have hminus : some '-' ∉ l := fun hmem => hl _ hmem (.inl rfl)
  have hplus : some '+' ∉ l := fun hmem => hl _ hmem (.inr rfl)
  rw [getFirstIdx, List.idxOf_append_of_notMem hminus, List.idxOf_append_of_notMem hplus]
  rcases hc with rfl | rfl
  · rw [List.idxOf_cons_self, Nat.add_zero, Nat.min_eq_left (Nat.le_add_right _ _)]
  · rw [List.idxOf_cons_self, Nat.add_zero, Nat.min_eq_right (Nat.le_add_right _ _)]

theorem isChange_editText (e : Edit (List Char)) : isChange (editText e).head? ↔ e.isKeep = false := by
  cases e with
  | keep line => exact iff_of_false (by simp [isChange, editText]) (by simp [Edit.isKeep])
  | delete line => exact iff_of_true (.inl rfl) rfl
  | insert line => exact iff_of_true (.inr rfl) rfl

/-- A line that is stripped, with the mark of an empty line of context put back. -/
theorem stripped_editText {e : Edit (List Char)} (h : rstrip e.line = e.line) :
    (if strip (rstrip (editText e)) = [] then [' '] else rstrip (editText e)) = editText e := by
  have hshown (init : List Char) {c : Char} (hc : isSpace c = false) :
      (if strip (rstrip (init ++ [c])) = [] then [' '] else rstrip (init ++ [c])) = init ++ [c] := by
    have hnot : strip (init ++ [c]) ≠ [] := by
      intro hnil
      have hspace := blank_of_bare (strip_eq_nil_iff.mp hnil) c (by simp)
      rw [hc] at hspace
      cases hspace
    rw [rstrip_of_last init hc, if_neg hnot]
  rcases List.eq_nil_or_concat' e.line with hline | ⟨init, c, hline⟩
  · cases e with
    | keep line =>
      obtain rfl : line = [] := hline
      rfl
    | delete line =>
      obtain rfl : line = [] := hline
      exact hshown [] (c := '-') (by decide)
    | insert line =>
      obtain rfl : line = [] := hline
      exact hshown [] (c := '+') (by decide)
  · have hc : isSpace c = false := by
      refine getLast?_rstrip e.line c ?_
      rw [h, hline]
      simp
    have htext : ∃ mark, editText e = (mark :: init) ++ [c] := by
      cases e <;> exact ⟨_, congrArg (List.cons _) hline⟩
    obtain ⟨mark, htext⟩ := htext
    rw [htext]
    exact hshown (mark :: init) hc

theorem core_bounds {es : List (Edit (List Char))} (h : ∃ e ∈ es, e.isKeep = false) :
    ∃ first rest, core es = first :: rest ∧ first.isKeep = false ∧
      ∃ init last, core es = init ++ [last] ∧ last.isKeep = false := by
  obtain ⟨e, he, hchange⟩ := h
  have htail : es.dropWhile Edit.isKeep ≠ [] := by
    intro hnil
    have hkeep := List.dropWhile_eq_nil_iff.mp hnil e he
    rw [hchange] at hkeep
    cases hkeep
  obtain ⟨first, rest, hcons⟩ := List.exists_cons_of_ne_nil htail
  have hfirst : first.isKeep = false := by
    have hhead := List.head?_dropWhile_not Edit.isKeep es
    rw [hcons] at hhead
    simpa using hhead
  have hcore : core es ≠ [] := by
    rw [core, ne_eq, List.rdropWhile_eq_nil_iff]
    intro hall
    have hkeep := hall first (by rw [hcons]; exact List.mem_cons_self)
    rw [hfirst] at hkeep
    cases hkeep
  have hlast := List.rdropWhile_last_not Edit.isKeep (es.dropWhile Edit.isKeep) hcore
  rw [Bool.not_eq_true] at hlast
  obtain ⟨c, cs, hcs⟩ := List.exists_cons_of_ne_nil hcore
  have hprefix : core es <+: es.dropWhile Edit.isKeep := List.rdropWhile_prefix Edit.isKeep _
  rw [hcs, hcons] at hprefix
  obtain rfl : c = first := (List.cons_prefix_cons.mp hprefix).1
  exact ⟨c, cs, hcs, hfirst, (core es).dropLast, (core es).getLast hcore, (List.dropLast_append_getLast hcore).symm, hlast⟩

theorem not_isChange_keeps (lines : List (List Char)) :
    ∀ x ∈ ((lines.map Edit.keep).map editText).map List.head?, ¬ isChange x := by
  intro x hx
  obtain ⟨piece, hpiece, rfl⟩ := List.mem_map.mp hx
  obtain ⟨e, he, rfl⟩ := List.mem_map.mp hpiece
  obtain ⟨line, _, rfl⟩ := List.mem_map.mp he
  rw [isChange_editText]
  exact Bool.noConfusion

/-- The pieces from the first change to the one behind the last change. -/
theorem slice_pieces {before changes after : List (List Char)} (hbefore : ∀ x ∈ before.map List.head?, ¬ isChange x)
    (hafter : ∀ x ∈ after.map List.head?, ¬ isChange x) {first last : List Char} {rest init : List (List Char)}
    (hfirst : changes = first :: rest) (hlast : changes = init ++ [last]) (hchange : isChange first.head? ∧ isChange last.head?) :
    getFirstIdx ((before ++ (changes ++ after)).map List.head?) = before.length ∧
      ((before ++ (changes ++ after)).take (getLastIdx ((before ++ (changes ++ after)).map List.head?))).drop before.length =
        changes ++ after.take 1 := by
  constructor
  · rw [List.map_append, hfirst, List.map_append, List.map_cons, List.cons_append, getFirstIdx_append hbefore hchange.1,
      List.length_map]
  · have hreverse : getFirstIdx ((before ++ (changes ++ after)).map List.head?).reverse = after.length := by
      have hmem : ∀ x ∈ (after.map List.head?).reverse, ¬ isChange x := fun x hx => hafter x (List.mem_reverse.mp hx)
      rw [hlast]
      simp only [List.map_append, List.reverse_append, List.map_cons, List.reverse_cons,
        List.nil_append, List.append_assoc, List.cons_append]
      rw [getFirstIdx_append hmem hchange.2, List.length_reverse, List.length_map]
    have hindex : getLastIdx ((before ++ (changes ++ after)).map List.head?) = before.length + (changes.length + 1) := by
      rw [getLastIdx, hreverse, List.length_map, List.length_append, List.length_append]
      omega
    rw [hindex, List.drop_take, List.drop_left, Nat.add_sub_cancel_left, List.take_append, Nat.add_sub_cancel_left,
      List.take_of_length_le (Nat.le_succ _)]

/-- A hunk is cut down to its changes and the line behind them. -/
theorem stripContent_edits {c : Claims} {h : Hunk (List Char)} (hplain : Plain c h) (hafter : linesAfter h.edits ≠ []) :
    stripContent (c.heading ++ '\n' :: ended '\n' (h.edits.map editText)) =
      ('\n' :: ended '\n' ((minimalCut.body h.edits).map editText), ((linesBefore h.edits).length : ℤ)) := by
  obtain ⟨first, rest, hcons, hfirst, init, last, hconcat, hlast⟩ := core_bounds hplain.changed
  have hpieces := split_edits hplain.heading.1 fun e he => (hplain.lines e he).1
  obtain ⟨after, afters, hafters⟩ := List.exists_cons_of_ne_nil hafter
  have hall : (c.heading :: h.edits.map editText) ++ [[]] =
      (c.heading :: ((linesBefore h.edits).map Edit.keep).map editText) ++
        ((core h.edits).map editText ++ (((linesAfter h.edits).map Edit.keep).map editText ++ [[]])) := by
    conv_lhs => rw [← core_whole h.edits]
    simp
  have hheading : ¬ isChange c.heading.head? := by
    rintro (hminus | hplus)
    · exact hplain.heading.2.1 hminus
    · exact hplain.heading.2.2.1 hplus
  have hbeforeKeeps : ∀ x ∈ (c.heading :: ((linesBefore h.edits).map Edit.keep).map editText).map List.head?, ¬ isChange x :=
    List.forall_mem_cons.mpr ⟨hheading, not_isChange_keeps _⟩
  have hafterKeeps : ∀ x ∈ (((linesAfter h.edits).map Edit.keep).map editText ++ [[]]).map List.head?, ¬ isChange x := by
    rw [List.map_append]
    refine List.forall_mem_append.mpr ⟨not_isChange_keeps _, List.forall_mem_singleton.mpr ?_⟩
    rintro (hminus | hplus)
    · cases hminus
    · cases hplus
  obtain ⟨hfirstIdx, hslice⟩ := slice_pieces hbeforeKeeps hafterKeeps (congrArg (List.map editText) hcons)
    ((congrArg (List.map editText) hconcat).trans List.map_append) ⟨(isChange_editText first).mpr hfirst, (isChange_editText last).mpr hlast⟩
  have hbody : (core h.edits).map editText ++ (((linesAfter h.edits).map Edit.keep).map editText ++ [[]]).take 1 =
      (minimalCut.body h.edits).map editText := by
    simp [minimalCut, hafters]
  rw [← hall] at hfirstIdx hslice
  rw [hbody] at hslice
  have hstripped : (((minimalCut.body h.edits).map editText).map rstrip).map
      (fun line => if strip line = [] then [' '] else line) = (minimalCut.body h.edits).map editText := by
    rw [List.map_map, List.map_map]
    refine List.map_congr_left fun e he => stripped_editText ?_
    have hmem : e ∈ h.edits := by
      rw [← minimalCut.whole h.edits]
      exact List.mem_append_right _ (List.mem_append_left _ he)
    exact (hplain.lines e hmem).2.1
  rw [stripContent, hpieces]
  rw [hfirstIdx, hslice, hstripped]
  have hne : (minimalCut.body h.edits).map editText ≠ [] := by simp [minimalCut, hafters]
  rw [← ended_eq_intercalate hne, List.length_cons, List.length_map, List.length_map, Nat.cast_succ, add_sub_cancel_right]

/-! ## Counting -/

theorem counts (es : List (Edit (List Char))) :
    (es.map editText).countP (fun line => decide (line.head? ≠ some '-' ∧ line.head? ≠ some '+')) +
        (es.map editText).countP (fun line => line.head? = some '-') = (source es).length ∧
      (es.map editText).countP (fun line => decide (line.head? ≠ some '-' ∧ line.head? ≠ some '+')) +
        (es.map editText).countP (fun line => line.head? = some '+') = (target es).length := by
  induction es with
  | nil => exact ⟨rfl, rfl⟩
  | cons e es ih =>
    obtain ⟨hold, hnew⟩ := ih
    rw [List.map_cons, source_cons, target_cons, List.length_append, List.length_append]
    cases e with
    | keep line | delete line | insert line =>
      simp only [List.countP_cons, editText, List.head?_cons, Edit.old, Edit.new, List.length_singleton, List.length_nil,
        ← hold, ← hnew]
      constructor
      · simp <;> omega
      · simp <;> omega

theorem editText_notMem {e : Edit (List Char)} (h : '\n' ∉ e.line) : '\n' ∉ editText e := by
  cases e <;> exact List.not_mem_cons_of_ne_of_not_mem (by decide) h

theorem getHunkStats_edits {lead : List Char} (hlead : '\n' ∉ lead) {es : List (Edit (List Char))} (hne : es ≠ [])
    (hes : ∀ e ∈ es, '\n' ∉ e.line) (preStart totalDelta : ℤ) :
    getHunkStats preStart (lead ++ '\n' :: ended '\n' (es.map editText)) totalDelta =
      ⟨preStart, (source es).length, preStart + totalDelta, (target es).length,
        totalDelta + ((target es).length - (source es).length)⟩ := by
  have hlines : ∀ p ∈ es.map editText, '\n' ∉ p := by
    intro p hp
    obtain ⟨e, he, rfl⟩ := List.mem_map.mp hp
    exact editText_notMem (hes e he)
  have hbehind : ((lead ++ '\n' :: ended '\n' (es.map editText)).dropWhile (· ≠ '\n')).tail = ended '\n' (es.map editText) := by
    rw [List.dropWhile_append_of_pos, List.dropWhile_cons_of_neg (by decide), List.tail_cons]
    exact fun c hc => by simpa using fun heq : c = '\n' => hlead (heq ▸ hc)
  have hempty : ∀ p ∈ es.map editText, p ≠ [] := by
    intro p hp
    obtain ⟨e, _, rfl⟩ := List.mem_map.mp hp
    cases e <;> exact List.cons_ne_nil _ _
  have hmap : es.map editText ≠ [] := mt List.map_eq_nil_iff.mp hne
  have hhead : (ended '\n' (es.map editText)).head? ≠ some '\n' := by
    obtain ⟨e, rest, rfl⟩ := List.exists_cons_of_ne_nil hne
    cases e <;> exact fun h => absurd (Option.some.inj h) (by decide)
  have hlast : (es.map editText).rdropWhile (· = []) = es.map editText := by
    rw [List.rdropWhile_eq_self_iff]
    exact fun hl => by simpa using hempty _ (List.getLast_mem hl)
  have hsplit : split ['\n'] (stripNewlines (ended '\n' (es.map editText))) = es.map editText := by
    rw [stripNewlines_ended hlines hhead, hlast, split_intercalate hmap hlines]
  obtain ⟨hold, hnew⟩ := counts es
  rw [getHunkStats, if_pos (by simp), hbehind, hsplit]
  rw [hold, hnew]

/-! ## The patterns find the hunks -/

section Marks

variable {marks : List (List Char)}

/-- Marks that do not go over the end of a line. -/
def WithinLines (marks : List (List Char)) : Prop := ∀ mark ∈ marks, mark ≠ [] ∧ '\n' ∉ mark

theorem upToMark_line (hmarks : WithinLines marks) {line : List Char} (hline : ∀ mark ∈ marks, ¬ mark <:+: line)
    (rest : List Char) : upToMark marks (line ++ '\n' :: rest) = line ++ '\n' :: upToMark marks rest := by
  have hnone {u : List Char} (hu : u <:+ line) : ¬ (marks.any fun mark => mark <+: u ++ '\n' :: rest) = true := by
    intro hany
    obtain ⟨mark, hmark, hpre⟩ := List.any_eq_true.mp hany
    have hbegins := begins_before_letter (hmarks mark hmark).2 (of_decide_eq_true hpre)
    exact hline mark hmark (hbegins.isInfix.trans hu.isInfix)
  induction line with
  | nil =>
    have hhead := hnone (u := []) List.suffix_rfl
    rw [List.nil_append] at hhead ⊢
    rw [upToMark, if_neg hhead, List.nil_append]
  | cons c line ih =>
    have hrest : ∀ mark ∈ marks, ¬ mark <:+: line := fun mark hmark hwithin =>
      hline mark hmark (hwithin.trans (List.suffix_cons c line).isInfix)
    have hhead := hnone List.suffix_rfl
    rw [List.cons_append] at hhead ⊢
    rw [upToMark, if_neg hhead, ih hrest fun hu => hnone (hu.trans (List.suffix_cons c line)), List.cons_append]

theorem upToMark_ended (hmarks : WithinLines marks) {lines : List (List Char)} (hlines : ∀ line ∈ lines, ∀ mark ∈ marks, ¬ mark <:+: line)
    (rest : List Char) : upToMark marks (ended '\n' lines ++ rest) = ended '\n' lines ++ upToMark marks rest := by
  induction lines with
  | nil => rfl
  | cons line lines ih =>
    obtain ⟨hline, hlines⟩ := List.forall_mem_cons.mp hlines
    rw [ended_cons, List.append_assoc, List.cons_append, upToMark_line hmarks hline, ih hlines, List.append_assoc, List.cons_append]

theorem upToMark_mark {mark : List Char} (hmark : mark ∈ marks) (hne : mark ≠ []) (rest : List Char) :
    upToMark marks (mark ++ rest) = [] := by
  obtain ⟨c, cs, rfl⟩ := List.exists_cons_of_ne_nil hne
  rw [List.cons_append, upToMark, if_pos]
  exact List.any_eq_true.mpr ⟨_, hmark, decide_eq_true (List.prefix_append _ rest)⟩

end Marks

theorem withinLines_hunkMarks : WithinLines hunkMarks := by
  intro mark hmark
  rw [hunkMarks, List.mem_cons, List.mem_cons, List.mem_singleton] at hmark
  rcases hmark with rfl | rfl | rfl
  · decide
  · decide
  · decide

theorem withinLines_fileMarks : WithinLines fileMarks := by
  intro mark hmark
  rw [fileMarks, List.mem_cons, List.mem_singleton] at hmark
  rcases hmark with rfl | rfl
  · decide
  · decide

theorem spaces_cons {c : Char} (hc : isSpace c = true) {rest : List Char} (hrest : rest.head?.all fun d => !isSpace d) :
    spaces (c :: rest) = some rest := by
  have hdrop : rest.dropWhile isSpace = rest := by
    cases rest with
    | nil => rfl
    | cons d rest => exact List.dropWhile_cons_of_neg (by simpa using hrest)
  rw [spaces, if_pos (by simpa using hc), List.dropWhile_cons_of_pos hc, hdrop]

theorem numbers_toDigits (a b : ℕ) {c : Char} (hc : c.isDigit = false) (rest : List Char) :
    numbers (Nat.toDigits 10 a ++ ',' :: (Nat.toDigits 10 b ++ c :: rest)) = some (a, b, c :: rest) := by
  have hfirst := readDigits (c := ',') (by decide) a (Nat.toDigits 10 b ++ c :: rest)
  have hsecond := readDigits hc b rest
  have hcomma (cs : List Char) : behind? [','] (',' :: cs) = some cs := behind?_append [','] cs
  rw [numbers, number, hfirst.1, hfirst.2, natural_toDigits]
  dsimp only [Option.map_some, Option.bind_some]
  rw [hcomma, Option.bind_some, number, hsecond.1, hsecond.2, natural_toDigits]
  rfl

def hunkMatches (old : ℕ) : List (Claims × Hunk (List Char)) → List HunkMatch
  | [] => []
  | (c, h) :: hs =>
    ⟨old + h.gap.length + 1, c.preLen, c.postStart, c.postLen, c.heading ++ '\n' :: ended '\n' (h.edits.map editText)⟩ ::
      hunkMatches (old + h.old.length) hs

theorem headerLine_def (start : ℕ) (c : Claims) :
    headerLine start c = "@@ -".toList ++ Nat.toDigits 10 start ++ ',' :: Nat.toDigits 10 c.preLen ++ " +".toList ++
      Nat.toDigits 10 c.postStart ++ ',' :: Nat.toDigits 10 c.postLen ++ " @@".toList ++ c.heading := rfl

theorem headerLine_eq (start : ℕ) (c : Claims) (rest : List Char) :
    headerLine start c ++ rest = "@@".toList ++ (' ' :: '-' :: (Nat.toDigits 10 start ++ ',' :: (Nat.toDigits 10 c.preLen ++
      ' ' :: ('+' :: (Nat.toDigits 10 c.postStart ++ ',' :: (Nat.toDigits 10 c.postLen ++
        ' ' :: ('@' :: '@' :: (c.heading ++ rest)))))))) := by
  have hstart : "@@ -".toList = "@@".toList ++ [' ', '-'] := by decide
  have hmiddle : " +".toList = [' ', '+'] := by decide
  have hend : " @@".toList = [' ', '@', '@'] := by decide
  rw [headerLine_def, hstart, hmiddle, hend]
  generalize "@@".toList = mark
  simp only [List.append_assoc, List.cons_append, List.nil_append]

/-- What stands behind a header is read up to the next hunk. -/
theorem upToMark_content {c : Claims} {h : Hunk (List Char)} (hplain : Plain c h) {rest : List Char}
    (hrest : upToMark hunkMarks rest = []) :
    ∃ x xs, c.heading ++ '\n' :: (ended '\n' (h.edits.map editText) ++ rest) = x :: xs ∧
      x :: upToMark hunkMarks xs = c.heading ++ '\n' :: ended '\n' (h.edits.map editText) := by
  have hlines : ∀ line ∈ h.edits.map editText, ∀ mark ∈ hunkMarks, ¬ mark <:+: line := by
    intro line hline
    obtain ⟨e, he, rfl⟩ := List.mem_map.mp hline
    exact (hplain.lines e he).2.2
  have hbody : upToMark hunkMarks (ended '\n' (h.edits.map editText) ++ rest) = ended '\n' (h.edits.map editText) := by
    rw [upToMark_ended withinLines_hunkMarks hlines, hrest, List.append_nil]
  cases hheading : c.heading with
  | nil => exact ⟨_, _, rfl, congrArg (List.cons _) hbody⟩
  | cons x heading =>
    have hclean : ∀ mark ∈ hunkMarks, ¬ mark <:+: heading := by
      intro mark hmark hinfix
      refine hplain.heading.2.2.2 mark hmark ?_
      rw [hheading]
      exact hinfix.trans (List.suffix_cons x heading).isInfix
    refine ⟨x, heading ++ '\n' :: (ended '\n' (h.edits.map editText) ++ rest), rfl, ?_⟩
    rw [upToMark_line withinLines_hunkMarks hclean, hbody, List.cons_append]

theorem patchHunkPattern_block {c : Claims} {h : Hunk (List Char)} (hplain : Plain c h) (start : ℕ) {rest : List Char}
    (hrest : upToMark hunkMarks rest = []) :
    patchHunkPattern (ended '\n' (headerLine start c :: h.edits.map editText) ++ rest) =
      some (⟨start, c.preLen, c.postStart, c.postLen, c.heading ++ '\n' :: ended '\n' (h.edits.map editText)⟩,
        (ended '\n' (headerLine start c :: h.edits.map editText)).length - 1) := by
  obtain ⟨x, xs, hcons, hcontent⟩ := upToMark_content hplain hrest
  have hspace (d : Char) (cs : List Char) (hd : isSpace d = false) : spaces (' ' :: d :: cs) = some (d :: cs) :=
    spaces_cons (by decide) (by simpa using hd)
  have htext : ended '\n' (headerLine start c :: h.edits.map editText) ++ rest =
      headerLine start c ++ '\n' :: (ended '\n' (h.edits.map editText) ++ rest) := by
    rw [ended_cons, List.append_assoc, List.cons_append]
  rw [htext, patchHunkPattern, headerLine_eq, behind?_append]
  dsimp only [Option.bind_some]
  rw [hspace '-' _ (by decide)]
  dsimp only [Option.bind_some]
  rw [show ∀ cs, behind? ['-'] ('-' :: cs) = some cs from behind?_append ['-']]
  dsimp only [Option.bind_some]
  rw [numbers_toDigits _ _ (by decide)]
  dsimp only [Option.bind_some]
  rw [hspace '+' _ (by decide)]
  dsimp only [Option.bind_some]
  rw [show ∀ cs, behind? ['+'] ('+' :: cs) = some cs from behind?_append ['+']]
  dsimp only [Option.bind_some]
  rw [numbers_toDigits _ _ (by decide)]
  dsimp only [Option.bind_some]
  rw [hspace '@' _ (by decide)]
  dsimp only [Option.bind_some]
  rw [show ∀ cs, behind? "@@".toList ('@' :: '@' :: cs) = some cs from behind?_append "@@".toList, hcons]
  dsimp only [Option.bind_some]
  have hbehind : xs.length + 1 = (c.heading ++ '\n' :: ended '\n' (h.edits.map editText)).length + rest.length := by
    rw [← List.length_cons (a := x), ← hcons, ← List.length_append, List.append_assoc, List.cons_append]
  have hblock : (ended '\n' (headerLine start c :: h.edits.map editText)).length =
      (headerLine start c).length + ('\n' :: ended '\n' (h.edits.map editText)).length := by
    rw [ended_cons, List.length_append]
  rw [hcontent, hbehind, ← hcons, ← headerLine_eq, hblock]
  refine congrArg some (Prod.ext rfl ?_)
  have hheading : c.heading.length ≤ (headerLine start c).length := by
    rw [headerLine_def, List.length_append]
    exact Nat.le_add_left _ _
  simp only [List.length_append, List.length_cons]
  omega

/-- The content of a hunk ends before the next header. -/
theorem upToMark_header (start : ℕ) (c : Claims) (rest : List Char) : upToMark hunkMarks (headerLine start c ++ '\n' :: rest) = [] := by
  have htext : headerLine start c ++ '\n' :: rest = "@@ -".toList ++ (Nat.toDigits 10 start ++ (',' :: Nat.toDigits 10 c.preLen ++
      (" +".toList ++ (Nat.toDigits 10 c.postStart ++ (',' :: Nat.toDigits 10 c.postLen ++ (" @@".toList ++ (c.heading ++ '\n' :: rest))))))) := by
    simp only [headerLine_def, List.append_assoc]
  rw [htext]
  exact upToMark_mark (List.mem_cons_of_mem _ (List.mem_cons_of_mem _ List.mem_cons_self)) (by decide) _

/-- The hunks of a file are found in its text. -/
theorem findIter_claimedLines {hs : List (Claims × Hunk (List Char))} (hplain : ∀ h ∈ hs, Plain h.1 h.2) (old : ℕ) :
    findIter patchHunkPattern 0 (ended '\n' (claimedLines old hs).flatten) = hunkMatches old hs := by
  induction hs generalizing old with
  | nil => rfl
  | cons ch hs ih =>
    obtain ⟨c, h⟩ := ch
    obtain ⟨hfirst, hrest⟩ := List.forall_mem_cons.mp hplain
    have hstop : upToMark hunkMarks (ended '\n' (claimedLines (old + h.old.length) hs).flatten) = [] := by
      cases hs with
      | nil => rfl
      | cons ch hs =>
        obtain ⟨c, h⟩ := ch
        rw [claimedLines, List.flatten_cons, List.cons_append, ended_cons]
        exact upToMark_header _ c _
    rw [claimedLines, List.flatten_cons, ended_append, hunkMatches, ← ih hrest]
    refine findIter_block ?_ (patchHunkPattern_block hfirst _ hstop)
    rw [ended_cons]
    exact List.append_ne_nil_of_right_ne_nil _ (List.cons_ne_nil _ _)

theorem notNumeric {lead : List Char} (tail : List Char) : isNumeric (lead ++ '\n' :: tail) = false := by
  rw [isNumeric, Bool.and_eq_false_iff]
  refine .inr ?_
  rw [List.all_append, List.all_cons]
  simp

theorem HunkStats.text_eq (start preLen postStart postLen : ℕ) (totalDelta : ℤ) (content : List Char) :
    HunkStats.text ⟨start, preLen, postStart, postLen, totalDelta⟩ content = headerLine start ⟨preLen, postStart, postLen, []⟩ ++ content := by
  rw [headerLine_def, List.append_nil]
  rfl

/-- What is left of a hunk, counted from the lines that are known. -/
theorem minimalHunks_hunkMatches {hs : List (Claims × Hunk (List Char))} (hplain : ∀ h ∈ hs, Plain h.1 h.2)
    (hafter : ∀ h ∈ hs, linesAfter h.2.edits ≠ []) (carry : List (List Char)) (old new : ℕ) :
    minimalHunks ((new : ℤ) - old) (hunkMatches (old + carry.length) hs) =
      .ok (ended '\n' (claimedLines old (exact new ((recut minimalCut carry (hs.map Prod.snd)).1.map fun h => ([], h)))).flatten) := by
  induction hs generalizing carry old new with
  | nil => rfl
  | cons ch hs ih =>
    obtain ⟨c, h⟩ := ch
    obtain ⟨hfirst, hrest⟩ := List.forall_mem_cons.mp hplain
    obtain ⟨hafterFirst, hafterRest⟩ := List.forall_mem_cons.mp hafter
    dsimp only at hfirst hafterFirst
    have hbody : minimalCut.body h.edits ≠ [] := by
      obtain ⟨line, lines, hlines⟩ := List.exists_cons_of_ne_nil hafterFirst
      simp [minimalCut, hlines]
    have hlines : ∀ e ∈ minimalCut.body h.edits, '\n' ∉ e.line := by
      intro e he
      refine (hfirst.lines e ?_).1
      rw [← minimalCut.whole h.edits]
      exact List.mem_append_right _ (List.mem_append_left _ he)
    let trimmed : Hunk (List Char) := ⟨carry ++ h.gap ++ linesBefore h.edits, minimalCut.body h.edits⟩
    have hgap : trimmed.gap.length = carry.length + h.gap.length + (linesBefore h.edits).length := by
      rw [List.length_append, List.length_append]
    have hold : trimmed.old.length = trimmed.gap.length + (source (minimalCut.body h.edits)).length := List.length_append
    have hnew : trimmed.new.length = trimmed.gap.length + (target (minimalCut.body h.edits)).length := List.length_append
    have hwhole : h.old.length = h.gap.length + ((linesBefore h.edits).length + ((source (minimalCut.body h.edits)).length +
        (minimalCut.tail h.edits).length)) := by
      rw [Hunk.old, List.length_append, ← minimalCut.source h.edits, List.length_append, List.length_append]
      rfl
    have hplace : old + carry.length + h.old.length = old + trimmed.old.length + (minimalCut.tail h.edits).length := by
      rw [hold, hgap, hwhole]
      omega
    have hstart : ((old + carry.length + h.gap.length + 1 : ℕ) : ℤ) + (linesBefore h.edits).length =
        ((old + trimmed.gap.length + 1 : ℕ) : ℤ) := by
      rw [hgap]
      push_cast
      ring
    have hpost : ((old + trimmed.gap.length + 1 : ℕ) : ℤ) + ((new : ℤ) - old) = ((new + trimmed.gap.length + 1 : ℕ) : ℤ) := by
      push_cast
      ring
    have hdelta : (new : ℤ) - old + ((target (minimalCut.body h.edits)).length - (source (minimalCut.body h.edits)).length) =
        ((new + trimmed.new.length : ℕ) : ℤ) - ((old + trimmed.old.length : ℕ) : ℤ) := by
      rw [hold, hnew]
      push_cast
      ring
    have hstats := @getHunkStats_edits [] List.not_mem_nil _ hbody hlines ((old + trimmed.gap.length + 1 : ℕ) : ℤ) ((new : ℤ) - old)
    rw [List.nil_append, hpost, hdelta] at hstats
    have hih := ih hrest hafterRest (minimalCut.tail h.edits) (old + trimmed.old.length) (new + trimmed.new.length)
    rw [hunkMatches, minimalHunks, notNumeric, if_neg Bool.false_ne_true, stripContent_edits hfirst hafterFirst]
    dsimp only
    rw [hstart, hstats]
    dsimp only
    rw [hplace, hih]
    refine congrArg Except.ok ?_
    have hrecut : (recut minimalCut carry (((c, h) :: hs).map Prod.snd)).1 =
        trimmed :: (recut minimalCut (minimalCut.tail h.edits) (hs.map Prod.snd)).1 := rfl
    have htext : ended '\n' (headerLine (old + trimmed.gap.length + 1) (exactClaims new [] trimmed) :: trimmed.edits.map editText) =
        headerLine (old + trimmed.gap.length + 1) (exactClaims new [] trimmed) ++
          '\n' :: ended '\n' ((minimalCut.body h.edits).map editText) := ended_cons _
    rw [hrecut, List.map_cons, exact, claimedLines, List.flatten_cons, ended_append, htext, HunkStats.text_eq]
    rfl

/-! ## The patterns find the files -/

/-- What begins with a letter that does not stand before a text is in this text. -/
theorem infix_of_notMem {c : Char} {m pre v : List Char} (hc : c ∉ pre) (h : c :: m <:+: pre ++ v) : c :: m <:+: v := by
  induction pre with
  | nil => exact h
  | cons d pre ih =>
    rw [List.mem_cons, not_or] at hc
    rcases List.infix_cons_iff.mp h with hpre | hinfix
    · exact absurd (List.cons_prefix_cons.mp hpre).1 hc.1
    · exact ih hc.2 hinfix

theorem notMem_toDigits {c : Char} (hc : c.isDigit = false) (n : ℕ) : c ∉ Nat.toDigits 10 n := fun hmem =>
  absurd (isDigit_of_mem_toDigits n c hmem) (by rw [hc]; exact Bool.false_ne_true)

theorem diffMark_eq : "diff ".toList = 'd' :: "iff ".toList := by decide

theorem nameMark_eq : "--- a/".toList = '-' :: '-' :: "- a/".toList := by decide

/-- The numbers of a header are none of the marks. -/
theorem headerLine_unmarked {c : Claims} (start : ℕ) (h : ∀ mark ∈ hunkMarks, ¬ mark <:+: c.heading) :
    ∀ mark ∈ fileMarks, ¬ mark <:+: headerLine start c := by
  have hdiff : "diff ".toList ∈ hunkMarks := List.mem_cons_self
  have hname : "--- a/".toList ∈ hunkMarks := List.mem_cons_of_mem _ List.mem_cons_self
  have hnumbers {d : Char} (hd : d.isDigit = false) (hother : d ∉ [',', ' ', '+', '@']) :
      d ∉ Nat.toDigits 10 start ++ ',' :: Nat.toDigits 10 c.preLen ++ " +".toList ++
        Nat.toDigits 10 c.postStart ++ ',' :: Nat.toDigits 10 c.postLen ++ " @@".toList := by
    have hplus : " +".toList = [' ', '+'] := by decide
    have hat : " @@".toList = [' ', '@', '@'] := by decide
    simp only [List.mem_cons, List.not_mem_nil, or_false, not_or] at hother
    rw [hplus, hat]
    simp only [List.mem_append, List.mem_cons, List.not_mem_nil, or_false, not_or]
    simp only [notMem_toDigits hd, hother, not_false_eq_true, and_self]
  have htext : headerLine start c = "@@ ".toList ++ ('-' :: (Nat.toDigits 10 start ++ ',' :: Nat.toDigits 10 c.preLen ++ " +".toList ++
      Nat.toDigits 10 c.postStart ++ ',' :: Nat.toDigits 10 c.postLen ++ " @@".toList ++ c.heading)) := by
    have hstart : "@@ -".toList = "@@ ".toList ++ ['-'] := by decide
    rw [headerLine_def, hstart]
    generalize "@@ ".toList = mark
    simp only [List.append_assoc, List.cons_append, List.nil_append]
  intro mark hmark hinfix
  rw [fileMarks, List.mem_cons, List.mem_singleton] at hmark
  rw [htext] at hinfix
  rcases hmark with rfl | rfl
  · refine h _ hdiff ?_
    rw [diffMark_eq] at hinfix ⊢
    have hinner := infix_of_notMem (by decide) hinfix
    rw [← List.cons_append] at hinner
    refine infix_of_notMem ?_ hinner
    exact List.not_mem_cons_of_ne_of_not_mem (by decide) (hnumbers (by decide) (by decide))
  · refine h _ hname ?_
    rw [nameMark_eq] at hinfix ⊢
    rcases List.infix_cons_iff.mp (infix_of_notMem (by decide) hinfix) with hpre | hinner
    · exfalso
      have hhead := (List.cons_prefix_cons.mp hpre).2
      obtain ⟨d, ds, hdigits⟩ := List.exists_cons_of_ne_nil (Nat.toDigits_ne_nil (b := 10) (n := start))
      rw [hdigits] at hhead
      simp only [List.cons_append] at hhead
      have hd : d.isDigit = true := isDigit_of_mem_toDigits start d (by rw [hdigits]; exact List.mem_cons_self)
      rw [← (List.cons_prefix_cons.mp hhead).1] at hd
      exact absurd hd (by decide)
    · exact infix_of_notMem (hnumbers (by decide) (by decide)) hinner

theorem isSpace_of_isPathChar {c : Char} (h : isPathChar c = true) (hblank : c ≠ ' ') : isSpace c = false := by
  rcases Bool.or_eq_true _ _ |>.mp h with hletter | hmark
  · have hlow : 48 ≤ c.toNat ∧ c.toNat ≤ 122 := by
      simp only [Char.isAlphanum, Char.isAlpha, Char.isUpper, Char.isLower, Char.isDigit, Bool.or_eq_true, Bool.and_eq_true,
        decide_eq_true_eq, UInt32.le_iff_toNat_le, ge_iff_le] at hletter
      have hval : c.toNat = c.val.toNat := rfl
      have hbounds : 'A'.val.toNat = 65 ∧ 'Z'.val.toNat = 90 ∧ 'a'.val.toNat = 97 ∧ 'z'.val.toNat = 122 ∧
          '0'.val.toNat = 48 ∧ '9'.val.toNat = 57 := by decide
      omega
    simp only [isSpace, Bool.or_eq_false_iff, decide_eq_false_iff_not, List.mem_cons, List.not_mem_nil, or_false,
      Bool.and_eq_false_iff]
    omega
  · simp only [decide_eq_true_eq, List.mem_cons, List.not_mem_nil, or_false] at hmark
    rcases hmark with rfl | rfl | rfl | rfl | rfl
    · decide
    · decide
    · exact absurd rfl hblank
    · decide
    · decide

theorem mem_claimedLines {hs : List (Claims × Hunk (List Char))} {old : ℕ} {line : List Char}
    (h : line ∈ (claimedLines old hs).flatten) :
    ∃ ch ∈ hs, (∃ start, line = headerLine start ch.1) ∨ ∃ e ∈ ch.2.edits, line = editText e := by
  induction hs generalizing old with
  | nil => cases h
  | cons ch hs ih =>
    obtain ⟨c, hunk⟩ := ch
    rw [claimedLines, List.flatten_cons, List.mem_append, List.mem_cons] at h
    rcases h with (rfl | hline) | hline
    · exact ⟨_, List.mem_cons_self, .inl ⟨_, rfl⟩⟩
    · obtain ⟨e, he, rfl⟩ := List.mem_map.mp hline
      exact ⟨_, List.mem_cons_self, .inr ⟨e, he, rfl⟩⟩
    · obtain ⟨ch, hch, hwhere⟩ := ih hline
      exact ⟨ch, List.mem_cons_of_mem _ hch, hwhere⟩

namespace FilePatch

variable {f : FilePatch}

/-- The lines from the names of the file on. -/
def shownLines (f : FilePatch) : List (List Char) := f.nameLines ++ (claimedLines 0 f.hunks).flatten

theorem text_eq (f : FilePatch) : f.text = ended '\n' f.commandLines ++ ended '\n' f.shownLines := by
  rw [text, lines, List.append_assoc, ended_append]
  rfl

theorem shown_eq (f : FilePatch) : ended '\n' f.shownLines = "--- a/".toList ++ (f.path ++ '\n' :: ("+++ b/".toList ++
    (f.path ++ '\n' :: ended '\n' (claimedLines 0 f.hunks).flatten))) := by
  have hlines : f.shownLines = ("--- a/".toList ++ f.path) :: ("+++ b/".toList ++ f.path) :: (claimedLines 0 f.hunks).flatten := rfl
  rw [hlines, ended_cons, ended_cons, List.append_assoc, List.append_assoc]

theorem Plain.pathChar (h : f.Plain) {c : Char} (hc : c ∈ f.path) : isSpace c = false ∧ c ≠ '@' := by
  obtain ⟨hpath, hblank⟩ := h.path.2 c hc
  refine ⟨isSpace_of_isPathChar hpath hblank, ?_⟩
  rintro rfl
  exact absurd hpath (by decide)

theorem spaces_blank {c : Char} (hc : isSpace c = false) (cs : List Char) : spaces (' ' :: c :: cs) = some (c :: cs) :=
  spaces_cons (by decide) (by simpa using hc)

theorem oldMark_name (rest : List Char) : oldMark ("--- a/".toList ++ rest) = some rest := by
  have hname : "--- a/".toList = "---".toList ++ (' ' :: "a/".toList) := by decide
  have hletter : "a/".toList = 'a' :: "/".toList := by decide
  rw [oldMark, hname, List.append_assoc, behind?_append, Option.bind_some, List.cons_append, hletter, List.cons_append,
    spaces_blank (by decide), Option.bind_some, ← List.cons_append, behind?_append]

theorem newMark_name (rest : List Char) : newMark ('\n' :: ("+++ b/".toList ++ rest)) = some rest := by
  have hname : '\n' :: ("+++ b/".toList ++ rest) = "\n+++".toList ++ (' ' :: ("b/".toList ++ rest)) := rfl
  have hletter : "b/".toList = 'b' :: "/".toList := by decide
  rw [newMark, hname, behind?_append, Option.bind_some, hletter, List.cons_append, spaces_blank (by decide), Option.bind_some,
    ← List.cons_append, behind?_append]

theorem newMark_of_ne {c : Char} (h : '\n' ≠ c) (cs : List Char) : newMark (c :: cs) = none := by
  have hletter : "\n+++".toList = '\n' :: "+++".toList := by decide
  rw [newMark, hletter, behind?_of_ne h]
  rfl

theorem search_newMark (h : f.Plain) (rest : List Char) :
    search newMark (f.path ++ '\n' :: ("+++ b/".toList ++ rest)) = some rest := by
  have hlead : ∀ u, u <:+ f.path → u ≠ [] → newMark (u ++ '\n' :: ("+++ b/".toList ++ rest)) = none := by
    intro u hu hne
    obtain ⟨c, cs, rfl⟩ := List.exists_cons_of_ne_nil hne
    have hc := h.pathChar (hu.subset List.mem_cons_self)
    refine newMark_of_ne ?_ _
    rintro rfl
    exact absurd hc.1 (by decide)
  rw [search_append _ hlead, search_of_match (newMark_name rest)]

/-- The diff of a file ends where the next one begins. -/
theorem fileEnd_shown (h : f.Plain) {rest : List Char} (hrest : upToMark fileMarks rest = []) :
    fileEnd (ended '\n' f.shownLines ++ rest) = some rest := by
  have hlines : ∀ line ∈ f.path :: (claimedLines 0 f.hunks).flatten, ∀ mark ∈ fileMarks, ¬ mark <:+: line := by
    refine List.forall_mem_cons.mpr ⟨fun mark hmark hwithin => ?_, fun line hline mark hmark => ?_⟩
    · have hblank : ' ' ∈ mark := by
        rw [fileMarks, List.mem_cons, List.mem_singleton] at hmark
        rcases hmark with rfl | rfl
        · decide
        · decide
      exact (h.path.2 ' ' (hwithin.subset hblank)).2 rfl
    · obtain ⟨ch, hch, hwhere⟩ := mem_claimedLines hline
      have hplain := h.hunks ch hch
      rcases hwhere with ⟨start, rfl⟩ | ⟨e, he, rfl⟩
      · exact headerLine_unmarked start hplain.heading.2.2.2 mark hmark
      · exact (hplain.lines e he).2.2 mark (List.mem_append_left ["@@ -".toList] hmark)
  have htext : ended '\n' f.shownLines ++ rest = "--- a/".toList ++ (f.path ++ '\n' :: ("+++ b/".toList ++
      (ended '\n' (f.path :: (claimedLines 0 f.hunks).flatten) ++ rest))) := by
    rw [shown_eq, ended_cons]
    simp only [List.append_assoc, List.cons_append]
  rw [fileEnd, htext, oldMark_name, Option.bind_some, search_newMark h, Option.map_some, upToMark_ended withinLines_fileMarks hlines,
    hrest, List.append_nil, List.drop_left]

/-! ## The command before the names -/

def commandLine (f : FilePatch) : List Char := "diff --git a/".toList ++ f.path ++ " b/".toList ++ f.path

theorem commandLine_eq (f : FilePatch) : f.commandLine = "diff".toList ++ (" --git a/".toList ++ f.path ++ " b/".toList ++ f.path) := by
  have hcommand : "diff --git a/".toList = "diff".toList ++ " --git a/".toList := by decide
  change "diff --git a/".toList ++ f.path ++ " b/".toList ++ f.path = _
  rw [hcommand]
  simp only [List.append_assoc]

theorem commandMark_line (h : f.Plain) (rest : List Char) : commandMark (f.commandLine ++ '\n' :: rest) = some rest := by
  have hpath : ∀ c ∈ f.path, isPathChar c = true := fun c hc => (h.path.2 c hc).1
  have hgit : ∀ c ∈ " --git a/".toList, isPathChar c = true := by simp [isPathChar]
  have hother : ∀ c ∈ " b/".toList, isPathChar c = true := by simp [isPathChar]
  have hall : ∀ c ∈ " --git a/".toList ++ f.path ++ " b/".toList ++ f.path, isPathChar c = true :=
    List.forall_mem_append.mpr ⟨List.forall_mem_append.mpr ⟨List.forall_mem_append.mpr ⟨hgit, hpath⟩, hother⟩, hpath⟩
  have hne : (" --git a/".toList ++ f.path ++ " b/".toList ++ f.path) ≠ [] := List.append_ne_nil_of_right_ne_nil _ h.path.1
  rw [commandMark, commandLine_eq, List.append_assoc, behind?_append, Option.bind_some, List.takeWhile_append_of_pos hall,
    List.dropWhile_append_of_pos hall, List.takeWhile_cons_of_neg (by decide), List.dropWhile_cons_of_neg (by decide),
    List.append_nil, if_neg hne]
  exact behind?_append ['\n'] rest

theorem commandMark_name (rest : List Char) : commandMark ("--- a/".toList ++ rest) = none := by
  have hletter : "diff".toList = 'd' :: "iff".toList := by decide
  rw [commandMark, hletter, nameMark_eq, List.cons_append, behind?_of_ne (by decide)]
  rfl

theorem ended_commandLines (f : FilePatch) : ended '\n' f.commandLines = if f.command then f.commandLine ++ ['\n'] else [] := by
  rw [commandLines]
  split_ifs
  · exact (ended_cons _).trans rfl
  · rfl

/-- The text of a file is one match. -/
theorem patchPattern_text (h : f.Plain) {rest : List Char} (hrest : upToMark fileMarks rest = []) :
    patchPattern (f.text ++ rest) = some (f.text, f.text.length - 1) := by
  have hend := fileEnd_shown h hrest
  have hfound : ((commandMark (f.text ++ rest)).bind fileEnd).or (fileEnd (f.text ++ rest)) = some rest := by
    rw [text_eq, ended_commandLines]
    split_ifs
    · rw [List.append_assoc, List.append_assoc, List.singleton_append, commandMark_line h, Option.bind_some, hend, Option.some_or]
    · have hnone : commandMark (ended '\n' f.shownLines ++ rest) = none := by
        rw [shown_eq, List.append_assoc, commandMark_name]
      rw [List.nil_append, hnone, hend]
      rfl
  rw [patchPattern, hfound, Option.map_some, List.length_append, Nat.add_sub_cancel, List.take_left]

theorem text_ne_nil (f : FilePatch) : f.text ≠ [] := by
  rw [text_eq]
  refine List.append_ne_nil_of_right_ne_nil _ ?_
  rw [shown_eq, nameMark_eq]
  exact List.cons_ne_nil _ _

theorem upToMark_text (f : FilePatch) (rest : List Char) : upToMark fileMarks (f.text ++ rest) = [] := by
  rw [text_eq, ended_commandLines]
  split_ifs
  · have hcommand : "diff --git a/".toList = "diff ".toList ++ "--git a/".toList := by decide
    have htext : (f.commandLine ++ ['\n'] ++ ended '\n' f.shownLines) ++ rest =
        "diff ".toList ++ ("--git a/".toList ++ (f.path ++ (" b/".toList ++ (f.path ++ (['\n'] ++ (ended '\n' f.shownLines ++ rest)))))) := by
      change "diff --git a/".toList ++ f.path ++ " b/".toList ++ f.path ++ ['\n'] ++ ended '\n' f.shownLines ++ rest = _
      rw [hcommand]
      simp only [List.append_assoc]
    rw [htext]
    exact upToMark_mark List.mem_cons_self (by decide) _
  · rw [List.nil_append, shown_eq, List.append_assoc]
    exact upToMark_mark (List.mem_cons_of_mem _ List.mem_cons_self) (by decide) _

theorem findIter_texts {files : List FilePatch} (h : ∀ f ∈ files, f.Plain) :
    findIter patchPattern 0 (files.flatMap text) = files.map text := by
  induction files with
  | nil => rfl
  | cons f files ih =>
    obtain ⟨hf, hfiles⟩ := List.forall_mem_cons.mp h
    have hstop : upToMark fileMarks (files.flatMap text) = [] := by
      cases files with
      | nil => rfl
      | cons g files =>
        rw [List.flatMap_cons]
        exact g.upToMark_text _
    rw [List.flatMap_cons, List.map_cons, findIter_block f.text_ne_nil (patchPattern_text hf hstop), ih hfiles]

/-! ## The names of a file -/

def header (f : FilePatch) : List Char := "--- a/".toList ++ f.path ++ '\n' :: ("+++ b/".toList ++ f.path)

theorem patchFilePattern_shown (h : f.Plain) : patchFilePattern (ended '\n' f.shownLines) = some f.header := by
  have hline : ∀ c ∈ f.path, (fun c : Char => decide (c ≠ '\n')) c = true := by
    intro c hc
    have hspace := (h.pathChar hc).1
    rw [decide_eq_true_eq]
    rintro rfl
    exact absurd hspace (by decide)
  have htake (rest : List Char) : (f.path ++ '\n' :: rest).takeWhile (fun c => decide (c ≠ '\n')) = f.path := by
    rw [List.takeWhile_append_of_pos hline, List.takeWhile_cons_of_neg (by decide), List.append_nil]
  have hdrop (rest : List Char) : (f.path ++ '\n' :: rest).dropWhile (fun c => decide (c ≠ '\n')) = '\n' :: rest := by
    rw [List.dropWhile_append_of_pos hline, List.dropWhile_cons_of_neg (by decide)]
  have hwhole : "--- a/".toList ++ (f.path ++ '\n' :: ("+++ b/".toList ++ (f.path ++ '\n' :: ended '\n' (claimedLines 0 f.hunks).flatten))) =
      f.header ++ '\n' :: ended '\n' (claimedLines 0 f.hunks).flatten := by
    rw [header]
    simp only [List.append_assoc, List.cons_append]
  rw [shown_eq, patchFilePattern, oldMark_name, Option.bind_some, htake, if_neg h.path.1, hdrop, newMark_name, Option.bind_some,
    htake, if_neg h.path.1, hdrop, hwhole, List.length_append, Nat.add_sub_cancel, List.take_left]

/-- A word before white space is no name of an old file when another letter than its follows. -/
theorem oldMark_word {w : List Char} (hw : ∀ c ∈ w, isSpace c = false) {s d : Char} (hs : isSpace s = true) (hd : isSpace d = false)
    (ha : 'a' ≠ d) (tail : List Char) : oldMark (w ++ s :: d :: tail) = none := by
  have hletter : "a/".toList = 'a' :: "/".toList := by decide
  rw [oldMark]
  by_cases hpre : "---".toList <+: w ++ s :: d :: tail
  · have hmark : s ∉ "---".toList := by
      intro hmem
      rw [show "---".toList = ['-', '-', '-'] by decide] at hmem
      simp only [List.mem_cons, List.not_mem_nil, or_false, or_self] at hmem
      rw [hmem] at hs
      exact absurd hs (by decide)
    obtain ⟨w, rfl⟩ := begins_before_letter hmark hpre
    rw [List.append_assoc, behind?_append, Option.bind_some]
    cases w with
    | nil =>
      rw [List.nil_append, spaces_cons hs (by simpa using hd), Option.bind_some, hletter, behind?_of_ne ha]
    | cons c w =>
      have hc := hw c (List.mem_append_right _ List.mem_cons_self)
      rw [List.cons_append, spaces, if_neg (by simpa using hc)]
      rfl
  · rw [behind?, if_neg hpre]
    rfl

/-- No name of an old file begins in the command. -/
theorem search_command (h : f.Plain) (rest : List Char) :
    search patchFilePattern (f.commandLine ++ '\n' :: '-' :: rest) = search patchFilePattern ('-' :: rest) := by
  have hnone {cs : List Char} (hold : oldMark cs = none) : patchFilePattern cs = none := by
    rw [patchFilePattern, hold]
    rfl
  have hword (mark : List Char) (hmark : ∀ c ∈ mark, isSpace c = false) {u : List Char} (hu : u <:+ mark ++ f.path) :
      ∀ c ∈ u, isSpace c = false := by
    intro c hc
    rcases List.mem_append.mp (hu.subset hc) with hc | hc
    · exact hmark c hc
    · exact (h.pathChar hc).1
  have hletter {c : Char} (hc : c ≠ '-') (cs : List Char) : oldMark (c :: cs) = none := by
    rw [oldMark, show "---".toList = '-' :: "--".toList by decide, behind?_of_ne hc.symm]
    rfl
  have htext : f.commandLine ++ '\n' :: '-' :: rest = "diff --git ".toList ++ (("a/".toList ++ f.path) ++ (' ' :: 'b' :: ('/' :: f.path ++
      '\n' :: '-' :: rest))) := by
    have hcommand : "diff --git a/".toList = "diff --git ".toList ++ "a/".toList := by decide
    have hother : " b/".toList = [' ', 'b', '/'] := by decide
    change "diff --git a/".toList ++ f.path ++ " b/".toList ++ f.path ++ '\n' :: '-' :: rest = _
    rw [hcommand, hother]
    simp only [List.append_assoc, List.cons_append, List.nil_append]
  have hfirst : ∀ u, u <:+ "diff --git ".toList → u ≠ [] → ∀ v, oldMark (u ++ v) = none := by
    intro u hu hne v
    have hmem : u ∈ ["diff --git ".toList, "iff --git ".toList, "ff --git ".toList, "f --git ".toList, " --git ".toList,
        "--git ".toList, "-git ".toList, "git ".toList, "it ".toList, "t ".toList, " ".toList, []] := by
      have htails := (List.mem_tails u "diff --git ".toList).mpr hu
      have hlist : "diff --git ".toList.tails = ["diff --git ".toList, "iff --git ".toList, "ff --git ".toList, "f --git ".toList,
        " --git ".toList, "--git ".toList, "-git ".toList, "git ".toList, "it ".toList, "t ".toList, " ".toList, []] := by decide
      rwa [hlist] at htails
    have hdashes : ¬ "---".toList <+: u ++ v := by
      simp only [List.mem_cons, List.not_mem_nil, or_false, hne] at hmem
      rcases hmem with rfl | rfl | rfl | rfl | rfl | rfl | rfl | rfl | rfl | rfl | rfl <;> simp
    rw [oldMark, behind?, if_neg hdashes]
    rfl
  have hsecond : ∀ u, u <:+ "a/".toList ++ f.path → u ≠ [] → oldMark (u ++ ' ' :: 'b' :: ('/' :: f.path ++ '\n' :: '-' :: rest)) = none :=
    fun u hu _ => oldMark_word (hword _ (by simp [isSpace]) hu) (by decide) (by decide) (by decide) _
  have hthird : ∀ u, u <:+ "b/".toList ++ f.path → u ≠ [] → oldMark (u ++ '\n' :: '-' :: rest) = none :=
    fun u hu _ => oldMark_word (hword _ (by simp [isSpace]) hu) (by decide) (by decide) (by decide) _
  have hblank : ' ' :: 'b' :: ('/' :: f.path ++ '\n' :: '-' :: rest) = [' '] ++ (("b/".toList ++ f.path) ++ ('\n' :: '-' :: rest)) := rfl
  have hend : '\n' :: '-' :: rest = ['\n'] ++ '-' :: rest := rfl
  have hone {c : Char} (hc : c ≠ '-') (v : List Char) : ∀ u, u <:+ [c] → u ≠ [] → oldMark (u ++ v) = none := by
    intro u hu hne
    rcases List.suffix_cons_iff.mp hu with rfl | hu
    · exact hletter hc v
    · exact absurd (List.suffix_nil.mp hu) hne
  rw [htext, search_append _ fun u hu hne => hnone (hfirst u hu hne _), search_append _ fun u hu hne => hnone (hsecond u hu hne),
    hblank, search_append _ fun u hu hne => hnone (hone (by decide) _ u hu hne),
    search_append _ fun u hu hne => hnone (hthird u hu hne), hend,
    search_append _ fun u hu hne => hnone (hone (by decide) _ u hu hne)]

theorem search_header (h : f.Plain) : search patchFilePattern f.text = some f.header := by
  obtain ⟨cs, hcs⟩ : ∃ cs, ended '\n' f.shownLines = '-' :: cs := by
    rw [shown_eq, nameMark_eq]
    exact ⟨_, rfl⟩
  have hshown : search patchFilePattern (ended '\n' f.shownLines) = some f.header := by
    have hmatch := patchFilePattern_shown h
    rw [hcs] at hmatch ⊢
    exact search_of_match hmatch
  rw [text_eq, ended_commandLines]
  split_ifs
  · rw [List.append_assoc, List.singleton_append, hcs, search_command h, ← hcs, hshown]
  · exact hshown

/-- No hunk begins before the first one. -/
theorem findIter_text (h : f.Plain) : findIter patchHunkPattern 0 f.text = hunkMatches 0 f.hunks := by
  have hnone {c : Char} (hc : c ≠ '@') (cs : List Char) : patchHunkPattern (c :: cs) = none := by
    have hmark : "@@".toList = '@' :: "@".toList := by decide
    rw [patchHunkPattern, hmark, behind?_of_ne hc.symm]
    rfl
  have hpath : '@' ∉ f.path := fun hmem => (h.pathChar hmem).2 rfl
  have htext : f.text = (ended '\n' f.commandLines ++ ended '\n' f.nameLines) ++ ended '\n' (claimedLines 0 f.hunks).flatten := by
    rw [text_eq, shownLines, ended_append, List.append_assoc]
  have hcommand : '@' ∉ f.commandLine := by
    change '@' ∉ "diff --git a/".toList ++ f.path ++ " b/".toList ++ f.path
    simp only [List.mem_append, not_or]
    exact ⟨⟨⟨by decide, hpath⟩, by decide⟩, hpath⟩
  have hnames : ended '\n' f.nameLines = ("--- a/".toList ++ f.path) ++ '\n' :: (("+++ b/".toList ++ f.path) ++ ['\n']) :=
    (ended_cons _).trans (congrArg (("--- a/".toList ++ f.path) ++ '\n' :: ·) (ended_cons _))
  have hlead : '@' ∉ ended '\n' f.commandLines ++ ended '\n' f.nameLines := by
    rw [ended_commandLines, hnames, List.mem_append, not_or]
    constructor
    · split_ifs
      · rw [List.mem_append, not_or]
        exact ⟨hcommand, by decide⟩
      · exact List.not_mem_nil
    · simp only [List.mem_append, List.mem_cons, List.not_mem_nil, or_false, not_or]
      exact ⟨⟨by decide, hpath⟩, by decide, ⟨by decide, hpath⟩, by decide⟩
  rw [htext, findIter_lead _ fun u hu hne => ?_, findIter_claimedLines h.hunks]
  obtain ⟨c, cs, rfl⟩ := List.exists_cons_of_ne_nil hne
  refine hnone ?_ _
  rintro rfl
  exact hlead (hu.subset List.mem_cons_self)

/-- The patch of a file keeps its names and what is left of its hunks. -/
theorem minimalFile_text (h : f.Plain) (hafter : ∀ ch ∈ f.hunks, linesAfter ch.2.edits ≠ []) :
    minimalFile f.text = .ok f.minimal.text := by
  have hhunks := minimalHunks_hunkMatches h.hunks hafter [] 0 0
  rw [List.length_nil, Nat.add_zero, sub_self] at hhunks
  have hheader : f.header ≠ [] := by
    rw [header, nameMark_eq]
    exact List.cons_ne_nil _ _
  rw [minimalFile, search_header h, findIter_text h]
  dsimp only
  rw [hhunks, if_neg hheader]
  refine congrArg Except.ok ?_
  rw [text_eq, ended_commandLines, if_neg (show ¬ f.minimal.command = true from Bool.false_ne_true), List.nil_append, shown_eq, header]
  change ("--- a/".toList ++ f.path ++ '\n' :: ("+++ b/".toList ++ f.path) ++ ['\n']) ++ _ = "--- a/".toList ++ (f.path ++ '\n' ::
    ("+++ b/".toList ++ (f.path ++ '\n' :: ended '\n' (claimedLines 0 f.minimal.hunks).flatten)))
  simp only [List.append_assoc, List.cons_append, List.nil_append]
  rfl

theorem minimalFiles_texts {files : List FilePatch} (h : ∀ f ∈ files, f.Plain)
    (hafter : ∀ f ∈ files, ∀ ch ∈ f.hunks, linesAfter ch.2.edits ≠ []) :
    minimalFiles (files.map text) = .ok ((files.map minimal).flatMap text) := by
  induction files with
  | nil => rfl
  | cons f files ih =>
    obtain ⟨hf, hfiles⟩ := List.forall_mem_cons.mp h
    obtain ⟨hafterFirst, hafterRest⟩ := List.forall_mem_cons.mp hafter
    rw [List.map_cons, minimalFiles, minimalFile_text hf hafterFirst, ih hfiles hafterRest]
    rfl

theorem dropWhile_texts (files : List FilePatch) : (files.flatMap text).dropWhile (· = '\n') = files.flatMap text := by
  cases files with
  | nil => rfl
  | cons f files =>
    have hhead : ∃ c cs, f.text = c :: cs ∧ c ≠ '\n' := by
      rw [text_eq, ended_commandLines]
      split_ifs
      · rw [commandLine_eq, show "diff".toList = 'd' :: "iff".toList by decide]
        exact ⟨'d', _, rfl, by decide⟩
      · rw [shown_eq, nameMark_eq]
        exact ⟨'-', _, rfl, by decide⟩
    obtain ⟨c, cs, htext, hc⟩ := hhead
    rw [List.flatMap_cons, htext, List.cons_append]
    exact List.dropWhile_cons_of_neg (by simpa using hc)

end FilePatch

theorem map_snd_exact (new : ℕ) (hs : List (List Char × Hunk (List Char))) : (exact new hs).map Prod.snd = hs.map Prod.snd := by
  induction hs generalizing new with
  | nil => rfl
  | cons h hs ih =>
    obtain ⟨heading, h⟩ := h
    rw [exact, List.map_cons, List.map_cons, ih]

/-- A hunk whose header has the lengths wrong. -/
def miscounted : FilePatch where
  command := true
  path := ['f', '.', 'p', 'y']
  hunks := [(⟨9, 1, 3, [' ', 'd', 'e', 'f']⟩, ⟨[['x']], [.keep ['a'], .delete ['b'], .insert ['c'], .keep ['d'], .keep []]⟩)]

theorem miscounted_plain : miscounted.Plain where
  path := by simp [miscounted, isPathChar]
  hunks := List.forall_mem_singleton.mpr {
    heading := by decide
    lines := by decide
    changed := by decide }

end OpenHands.PatchCorrection
