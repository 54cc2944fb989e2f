import OpenHandsSWE.Resolver.ParsePatch

/-! The patch that git prints for files that are changed, added and deleted, and what the resolver reads in it. -/

namespace OpenHands.Patching
open Text EditScript

inductive LineEnd where
  | lf
  | crlf
deriving DecidableEq, Repr

def LineEnd.text : LineEnd → List Char
  | .lf => ['\n']
  | .crlf => ['\r', '\n']

def renameFrom : List Char := "rename from".toList

/-! ## The diffs of files -/

/-- What happens to a file; its lines have one kind of end. -/
inductive FileChange where
  | changed (path : List Char) (ending : LineEnd) (diff : Diff (List Char))
  | added (path : List Char) (lines : List (List Char))
  | deleted (path : List Char) (ending : LineEnd) (lines : List (List Char))

/-- The text of lines, each with its end. -/
def contentOf (ending : LineEnd) (lines : List (List Char)) : List Char := lines.flatMap (· ++ ending.text)

namespace FileChange

def path : FileChange → List Char
  | .changed path _ _ | .added path _ | .deleted path _ _ => path

def ending : FileChange → LineEnd
  | .changed _ ending _ | .deleted _ ending _ => ending
  | .added _ _ => .lf

def diff : FileChange → Diff (List Char)
  | .changed _ _ diff => diff
  | .added _ lines => ⟨[⟨[], lines.map .insert⟩], []⟩
  | .deleted _ _ lines => ⟨[⟨[], lines.map .delete⟩], []⟩

def isAdded : FileChange → Bool
  | .added _ _ => true
  | _ => false

/-- The content before, where there is a file. -/
def before : FileChange → Option (List Char)
  | .changed _ ending diff => some (contentOf ending diff.old)
  | .added _ _ => none
  | .deleted _ ending lines => some (contentOf ending lines)

def after : FileChange → Option (List Char)
  | .changed _ ending diff => some (contentOf ending diff.new)
  | .added _ lines => some (contentOf .lf lines)
  | .deleted _ _ _ => none

end FileChange

/-- A change with what git prints beside it. -/
structure FileDiff where
  change : FileChange
  oldVersion : List Char
  newVersion : List Char
  mode : List Char
  heading : ℕ → List Char

namespace FileDiff

variable (f : FileDiff)

def commandLine : List Char := "diff --git a/".toList ++ f.change.path ++ " b/".toList ++ f.change.path

def versions : List Char := "index ".toList ++ f.oldVersion ++ "..".toList ++ f.newVersion

theorem commandLine_eq :
    f.commandLine = "diff --git a/".toList ++ f.change.path ++ " b/".toList ++ f.change.path := rfl

theorem versions_eq : f.versions = "index ".toList ++ f.oldVersion ++ "..".toList ++ f.newVersion := rfl

def headerLines : List (List Char) :=
  match f.change with
  | .changed path _ _ =>
    [f.commandLine, f.versions ++ ' ' :: f.mode, "--- a/".toList ++ path, "+++ b/".toList ++ path]
  | .added path _ =>
    [f.commandLine, "new file mode ".toList ++ f.mode, f.versions, "--- ".toList ++ devNull, "+++ b/".toList ++ path]
  | .deleted path _ _ =>
    [f.commandLine, "deleted file mode ".toList ++ f.mode, f.versions, "--- a/".toList ++ path, "+++ ".toList ++ devNull]

def chunks : List (List (List Char)) := hunksLines f.heading 1 0 0 f.change.diff.hunks

def lines : List (List Char) := f.headerLines ++ f.chunks.flatten

/-- The lines of a file keep their ends, all others end with a newline. -/
def withEnds : List (List Char) → List (List Char × LineEnd)
  | [] => []
  | header :: body => (header, .lf) :: body.map fun line => (line, f.change.ending)

def text : List Char :=
  ((f.headerLines.map fun line => (line, LineEnd.lf)) ++ f.chunks.flatMap f.withEnds).flatMap fun line => line.1 ++ line.2.text

/-- Names and lines as git prints them without quotes, and lines that end as those of the whole file do. -/
structure Plain : Prop where
  path : f.change.path ≠ [] ∧ ∀ c ∈ f.change.path, c ≠ ' ' ∧ isLineEnd c = false
  rooted : f.change.path.head? ≠ some '/' ∧ ¬ "a/".toList <+: f.change.path ∧ ¬ "b/".toList <+: f.change.path
  versions : (f.oldVersion ≠ [] ∧ ∀ c ∈ f.oldVersion, isHex c = true) ∧ f.newVersion ≠ [] ∧ ∀ c ∈ f.newVersion, isHex c = true
  mode : ∀ c ∈ f.mode, c.isDigit = true
  heading : ∀ k, ∀ c ∈ f.heading k, isLineEnd c = false
  clean : ∀ line ∈ f.change.diff.old ++ f.change.diff.new, ∀ c ∈ line, isLineEnd c = false
  nonempty : changes f.change.diff ≠ []
  /-- An empty file has no kind of end. -/
  ended : f.change.ending = .crlf → f.change.diff.old ≠ []
  /-- These words make a rename of a change. -/
  notRenamed : f.change.isAdded = false → ¬ renameFrom <:+: List.intercalate ['\n'] f.lines ++ ['\n']

end FileDiff

def patchText (patch : List FileDiff) : List Char := patch.flatMap FileDiff.text

/-! ## The lines that are read -/

theorem barelines_withEnds {ls : List (List Char × LineEnd)} (h : ∀ l ∈ ls, ∀ c ∈ l.1, isLineEnd c = false) :
    barelines (ls.flatMap fun l => l.1 ++ l.2.text) = ls.map Prod.fst := by
  induction ls with
  | nil => rfl
  | cons l ls ih =>
    obtain ⟨hl, hls⟩ := List.forall_mem_cons.mp h
    obtain ⟨line, ending⟩ := l
    rw [List.flatMap_cons, List.map_cons, ← ih hls, List.append_assoc]
    cases ending with
    | lf => exact barelines_append hl _
    | crlf => exact barelines_append_return hl _

theorem isLineEnd_of_isDigit {c : Char} (h : c.isDigit = true) : isLineEnd c = false := by
  rw [← Bool.not_eq_true]
  intro hend
  exact absurd (isSpace_of_isLineEnd hend) (by rw [isSpace_of_isDigit h]; exact Bool.false_ne_true)

theorem isLineEnd_rangeText (before length : ℕ) : ∀ c ∈ rangeText before length, isLineEnd c = false := by
  intro c hc
  have hdigits (n : ℕ) : ∀ c ∈ Nat.toDigits 10 n, isLineEnd c = false := fun c hc =>
    isLineEnd_of_isDigit (isDigit_of_mem_toDigits n c hc)
  rcases List.mem_append.mp hc with hc | hc
  · exact hdigits _ c hc
  · split_ifs at hc with hone
    · cases hc
    · rcases List.mem_cons.mp hc with rfl | hc
      · decide
      · exact hdigits _ c hc

theorem isLineEnd_hunkHeader {a b c d : ℕ} {heading : List Char} (h : ∀ c ∈ heading, isLineEnd c = false) :
    ∀ x ∈ hunkHeader a b c d heading, isLineEnd x = false := by
  intro x hx
  simp only [hunkHeader, List.mem_append] at hx
  rcases hx with ((((hx | hx) | hx) | hx) | hx) | hx
  · revert x; simp [isLineEnd]
  · exact isLineEnd_rangeText a b x hx
  · revert x; simp [isLineEnd]
  · exact isLineEnd_rangeText c d x hx
  · revert x; simp [isLineEnd]
  · exact h x hx

theorem line_mem {e : Edit (List Char)} {es : List (Edit (List Char))} (he : e ∈ es) : e.line ∈ source es ++ target es := by
  rw [List.mem_append]
  cases e with
  | keep line => exact .inl (List.mem_flatMap.mpr ⟨_, he, List.mem_singleton_self line⟩)
  | delete line => exact .inl (List.mem_flatMap.mpr ⟨_, he, List.mem_singleton_self line⟩)
  | insert line => exact .inr (List.mem_flatMap.mpr ⟨_, he, List.mem_singleton_self line⟩)

theorem isLineEnd_editText {e : Edit (List Char)} (h : ∀ c ∈ e.line, isLineEnd c = false) :
    ∀ c ∈ editText e, isLineEnd c = false := by
  cases e <;> exact List.forall_mem_cons.mpr ⟨by decide, h⟩

/-- The printed lines of clean hunks are clean. -/
theorem isLineEnd_hunksLines {heading : ℕ → List Char} (hheading : ∀ k, ∀ c ∈ heading k, isLineEnd c = false)
    {hunk old new : ℕ} {hs : List (Hunk (List Char))}
    (hs_clean : ∀ h ∈ hs, ∀ e ∈ h.edits, ∀ c ∈ e.line, isLineEnd c = false) :
    ∀ chunk ∈ hunksLines heading hunk old new hs, ∀ line ∈ chunk, ∀ c ∈ line, isLineEnd c = false := by
  induction hs generalizing hunk old new with
  | nil => exact List.forall_mem_nil _
  | cons h hs ih =>
    obtain ⟨hh, hs_clean⟩ := List.forall_mem_cons.mp hs_clean
    refine List.forall_mem_cons.mpr ⟨List.forall_mem_cons.mpr ⟨isLineEnd_hunkHeader (hheading hunk), ?_⟩, ih hs_clean⟩
    intro line hline
    obtain ⟨e, he, rfl⟩ := List.mem_map.mp hline
    exact isLineEnd_editText (hh e he)

namespace FileDiff

variable {f : FileDiff}

theorem Plain.edits (h : f.Plain) : ∀ hunk ∈ f.change.diff.hunks, ∀ e ∈ hunk.edits, ∀ c ∈ e.line, isLineEnd c = false := by
  intro hunk hhunk e he
  refine h.clean e.line ?_
  rcases List.mem_append.mp (line_mem he) with hline | hline
  · refine List.mem_append_left _ (List.mem_append_left _ (List.mem_flatMap.mpr ⟨hunk, hhunk, ?_⟩))
    exact List.mem_append_right _ hline
  · refine List.mem_append_right _ (List.mem_append_left _ (List.mem_flatMap.mpr ⟨hunk, hhunk, ?_⟩))
    exact List.mem_append_right _ hline

theorem isLineEnd_of_isHex {c : Char} (h : isHex c = true) : isLineEnd c = false := by
  rcases Bool.or_eq_true _ _ |>.mp h with hdigit | hletter
  · exact isLineEnd_of_isDigit hdigit
  · simp only [Bool.and_eq_true, decide_eq_true_eq] at hletter
    have hlow : 97 ≤ c.toNat := hletter.1
    have hhigh : c.toNat ≤ 102 := hletter.2
    simp only [isLineEnd, decide_eq_false_iff_not, List.mem_cons, List.not_mem_nil, or_false]
    omega

theorem Plain.header (h : f.Plain) : ∀ line ∈ f.headerLines, ∀ c ∈ line, isLineEnd c = false := by
  have hpath : ∀ c ∈ f.change.path, isLineEnd c = false := fun c hc => (h.path.2 c hc).2
  have hmode : ∀ c ∈ f.mode, isLineEnd c = false := fun c hc => isLineEnd_of_isDigit (h.mode c hc)
  have hold : ∀ c ∈ f.oldVersion, isLineEnd c = false := fun c hc => isLineEnd_of_isHex (h.versions.1.2 c hc)
  have hnew : ∀ c ∈ f.newVersion, isLineEnd c = false := fun c hc => isLineEnd_of_isHex (h.versions.2.2 c hc)
  have happend {u v : List Char} (hu : ∀ c ∈ u, isLineEnd c = false) (hv : ∀ c ∈ v, isLineEnd c = false) :
      ∀ c ∈ u ++ v, isLineEnd c = false := List.forall_mem_append.mpr ⟨hu, hv⟩
  have hcommand : ∀ c ∈ f.commandLine, isLineEnd c = false :=
    happend (happend (happend (by simp [isLineEnd]) hpath) (by simp [isLineEnd])) hpath
  have hversions : ∀ c ∈ f.versions, isLineEnd c = false := happend (happend (happend (by simp [isLineEnd]) hold) (by simp [isLineEnd])) hnew
  have hnull : ∀ c ∈ "/dev/null".toList, isLineEnd c = false := by simp [isLineEnd]
  have hspace : ∀ c ∈ ' ' :: f.mode, isLineEnd c = false := List.forall_mem_cons.mpr ⟨by decide, hmode⟩
  intro line hline
  cases hchange : f.change with
  | changed path ending diff =>
    rw [hchange] at hpath
    rw [headerLines, hchange] at hline
    simp only [List.mem_cons, List.not_mem_nil, or_false] at hline
    rcases hline with rfl | rfl | rfl | rfl
    · exact hcommand
    · exact happend hversions hspace
    · exact happend (by simp [isLineEnd]) hpath
    · exact happend (by simp [isLineEnd]) hpath
  | added path lines =>
    rw [hchange] at hpath
    rw [headerLines, hchange] at hline
    simp only [List.mem_cons, List.not_mem_nil, or_false] at hline
    rcases hline with rfl | rfl | rfl | rfl | rfl
    · exact hcommand
    · exact happend (by simp [isLineEnd]) hmode
    · exact hversions
    · exact happend (by simp [isLineEnd]) hnull
    · exact happend (by simp [isLineEnd]) hpath
  | deleted path ending lines =>
    rw [hchange] at hpath
    rw [headerLines, hchange] at hline
    simp only [List.mem_cons, List.not_mem_nil, or_false] at hline
    rcases hline with rfl | rfl | rfl | rfl | rfl
    · exact hcommand
    · exact happend (by simp [isLineEnd]) hmode
    · exact hversions
    · exact happend (by simp [isLineEnd]) hpath
    · exact happend (by simp [isLineEnd]) hnull

/-- The lines of the text, whatever ends them. -/
theorem map_withEnds (f : FileDiff) (chunks : List (List (List Char))) :
    (chunks.flatMap f.withEnds).map Prod.fst = chunks.flatten := by
  induction chunks with
  | nil => rfl
  | cons chunk chunks ih =>
    rw [List.flatMap_cons, List.map_append, List.flatten_cons, ih]
    cases chunk with
    | nil => rfl
    | cons header body =>
      rw [withEnds, List.map_cons, List.map_map]
      exact congrArg (header :: · ++ _) (List.map_id body)

def printed (f : FileDiff) : List (List Char × LineEnd) :=
  (f.headerLines.map fun line => (line, LineEnd.lf)) ++ f.chunks.flatMap f.withEnds

theorem map_printed (f : FileDiff) : f.printed.map Prod.fst = f.lines := by
  rw [printed, List.map_append, map_withEnds, lines, List.map_map]
  exact congrArg (· ++ _) (List.map_id _)

theorem Plain.lines (h : f.Plain) : ∀ line ∈ f.lines, ∀ c ∈ line, isLineEnd c = false := by
  intro line hline
  rcases List.mem_append.mp hline with hline | hline
  · exact h.header line hline
  · obtain ⟨chunk, hchunk, hmem⟩ := List.mem_flatten.mp hline
    exact isLineEnd_hunksLines h.heading h.edits chunk hchunk line hmem

theorem Plain.printed (h : f.Plain) : ∀ l ∈ f.printed, ∀ c ∈ l.1, isLineEnd c = false := by
  intro l hl
  exact h.lines l.1 (map_printed f ▸ List.mem_map_of_mem hl)

end FileDiff

theorem barelines_patchText {patch : List FileDiff} (h : ∀ f ∈ patch, f.Plain) :
    barelines (patchText patch) = patch.flatMap FileDiff.lines := by
  have htext : patchText patch = (patch.flatMap FileDiff.printed).flatMap fun l => l.1 ++ l.2.text := by
    rw [List.flatMap_assoc]
    rfl
  have hclean : ∀ l ∈ patch.flatMap FileDiff.printed, ∀ c ∈ l.1, isLineEnd c = false := by
    intro l hl
    obtain ⟨f, hf, hl⟩ := List.mem_flatMap.mp hl
    exact (h f hf).printed l hl
  rw [htext, barelines_withEnds hclean, List.map_flatMap]
  simp only [FileDiff.map_printed]

/-! ## The pieces that are read -/

theorem index_eq : "index ".toList = 'i' :: "ndex ".toList := by decide

theorem otherIndex_eq : "Index: ".toList = 'I' :: "ndex: ".toList := by decide

theorem diff_eq : "diff".toList = 'd' :: "iff".toList := by decide

theorem command_eq : "diff --git a/".toList = "diff".toList ++ ' ' :: '-' :: "-git a/".toList := by decide

theorem newFile_eq : "new file mode ".toList = 'n' :: "ew file mode ".toList := by decide

theorem old_eq : "--- ".toList = '-' :: "-- ".toList := by decide

theorem new_eq : "+++ ".toList = '+' :: "++ ".toList := by decide

namespace FileDiff

variable {f : FileDiff}

/-- Behind the first line nothing looks like a command or an index of other tools. -/
def Inner (line : List Char) : Prop := unifiedHeaderIndex line = false ∧ diffcmdHeader line = false

theorem inner_of_ne {c : Char} (hI : 'I' ≠ c) (hd : 'd' ≠ c) (cs : List Char) : Inner (c :: cs) := by
  constructor
  · rw [unifiedHeaderIndex]
    rw [otherIndex_eq, behind?_of_ne hI]
    rfl
  · rw [diffcmdHeader]
    rw [diff_eq, behind?_of_ne hd]
    rfl

theorem inner_deleted (mode : List Char) : Inner ("deleted file mode ".toList ++ mode) := by
  constructor
  · have hnone : behind? "Index: ".toList ("deleted file mode ".toList ++ mode) = none := by simp [behind?]
    rw [unifiedHeaderIndex, hnone]
    rfl
  · have hnone : behind? "diff".toList ("deleted file mode ".toList ++ mode) = none := by simp [behind?]
    rw [diffcmdHeader, hnone]
    rfl

theorem inner_chunks : ∀ line ∈ f.chunks.flatten, Inner line := by
  intro line hline
  obtain ⟨chunk, hchunk, hmem⟩ := List.mem_flatten.mp hline
  obtain ⟨a, b, c, d, text, es, rfl⟩ := mem_hunksLines hchunk
  rcases List.mem_cons.mp hmem with rfl | hmem
  · exact inner_of_ne (c := '@') (by decide) (by decide) _
  · obtain ⟨e, _, rfl⟩ := List.mem_map.mp hmem
    cases e with
    | keep line => exact inner_of_ne (c := ' ') (by decide) (by decide) line
    | delete line => exact inner_of_ne (c := '-') (by decide) (by decide) line
    | insert line => exact inner_of_ne (c := '+') (by decide) (by decide) line

theorem exists_headerLines (f : FileDiff) : ∃ rest, f.headerLines = f.commandLine :: rest ∧ ∀ line ∈ rest, Inner line := by
  have hversions (tail : List Char) : Inner (f.versions ++ tail) := by
    rw [versions_eq, index_eq]
    exact inner_of_ne (by decide) (by decide) _
  have hnames (old new : List Char) : ∀ line ∈ ["--- ".toList ++ old, "+++ ".toList ++ new], Inner line := by
    intro line hline
    rcases List.mem_pair.mp hline with rfl | rfl
    · exact inner_of_ne (c := '-') (by decide) (by decide) _
    · exact inner_of_ne (c := '+') (by decide) (by decide) _
  have hnew : Inner ("new file mode ".toList ++ f.mode) := by
    rw [newFile_eq]
    exact inner_of_ne (by decide) (by decide) _
  have hplain : Inner f.versions := List.append_nil f.versions ▸ hversions []
  cases hchange : f.change with
  | changed path ending diff =>
    refine ⟨(f.versions ++ ' ' :: f.mode) :: ["--- ".toList ++ ("a/".toList ++ path), "+++ ".toList ++ ("b/".toList ++ path)], ?_,
      List.forall_mem_cons.mpr ⟨hversions _, hnames _ _⟩⟩
    simp [headerLines, hchange]
  | added path lines =>
    refine ⟨("new file mode ".toList ++ f.mode) :: f.versions :: ["--- ".toList ++ devNull, "+++ ".toList ++ ("b/".toList ++ path)], ?_,
      List.forall_mem_cons.mpr ⟨hnew, List.forall_mem_cons.mpr ⟨hplain, hnames _ _⟩⟩⟩
    simp [headerLines, hchange]
  | deleted path ending lines =>
    refine ⟨("deleted file mode ".toList ++ f.mode) :: f.versions :: ["--- ".toList ++ ("a/".toList ++ path), "+++ ".toList ++ devNull], ?_,
      List.forall_mem_cons.mpr ⟨inner_deleted f.mode, List.forall_mem_cons.mpr ⟨hplain, hnames _ _⟩⟩⟩
    simp [headerLines, hchange]

theorem unifiedHeaderIndex_commandLine (f : FileDiff) : unifiedHeaderIndex f.commandLine = false := by
  rw [unifiedHeaderIndex, commandLine_eq, otherIndex_eq, command_eq, diff_eq]
  simp only [List.cons_append]
  rw [behind?_of_ne (by decide)]
  rfl

theorem Plain.diffcmdHeader_commandLine (h : f.Plain) : diffcmdHeader f.commandLine = true := by
  have hcommand : f.commandLine = "diff".toList ++ (' ' :: '-' :: ("-git a/".toList ++ f.change.path ++ " b/".toList ++ f.change.path)) := by
    rw [commandLine_eq, command_eq]
    simp only [List.append_assoc, List.cons_append]
  have hlast : ("-git a/".toList ++ f.change.path ++ " b/".toList ++ f.change.path).dropLast =
      "-git a/".toList ++ f.change.path ++ " b/".toList ++ f.change.path.dropLast := List.dropLast_append_of_ne_nil h.path.1
  rw [diffcmdHeader, hcommand, behind?_append, Option.any_some]
  have hdrop : (' ' :: '-' :: ("-git a/".toList ++ f.change.path ++ " b/".toList ++ f.change.path)).dropWhile (· ≠ ' ') =
      ' ' :: '-' :: ("-git a/".toList ++ f.change.path ++ " b/".toList ++ f.change.path) := List.dropWhile_cons_of_neg (by decide)
  rw [hdrop, List.tail_cons, List.tail_cons, hlast]
  simp

end FileDiff

/-- The patch is cut before the command of each file. -/
theorem patchPieces_patchText {patch : List FileDiff} (hne : patch ≠ []) (h : ∀ f ∈ patch, f.Plain) :
    patchPieces (patchText patch) = [] :: patch.map FileDiff.lines := by
  have hchunks : ∀ chunk ∈ patch.map FileDiff.lines,
      ∃ x xs, chunk = x :: xs ∧ diffcmdHeader x = true ∧ ∀ y ∈ xs, diffcmdHeader y = false := by
    intro chunk hchunk
    obtain ⟨f, hf, rfl⟩ := List.mem_map.mp hchunk
    obtain ⟨rest, hheader, hrest⟩ := f.exists_headerLines
    refine ⟨f.commandLine, rest ++ f.chunks.flatten, by rw [FileDiff.lines, hheader]; rfl, (h f hf).diffcmdHeader_commandLine, ?_⟩
    exact List.forall_mem_append.mpr ⟨fun line hline => (hrest line hline).2, fun line hline => (FileDiff.inner_chunks line hline).2⟩
  have hindex : ∀ line ∈ patch.flatMap FileDiff.lines, unifiedHeaderIndex line = false := by
    intro line hline
    obtain ⟨f, _, hline⟩ := List.mem_flatMap.mp hline
    obtain ⟨rest, hheader, hrest⟩ := f.exists_headerLines
    rw [FileDiff.lines, hheader] at hline
    rcases List.mem_append.mp hline with hline | hline
    · rcases List.mem_cons.mp hline with rfl | hline
      · exact f.unifiedHeaderIndex_commandLine
      · exact (hrest line hline).1
    · exact (FileDiff.inner_chunks line hline).1
  have hcut := @splitByRegex_flatten _ diffcmdHeader [] (List.forall_mem_nil _) _ hchunks
  have hwhole : splitByRegex unifiedHeaderIndex (patch.flatMap FileDiff.lines) = (patch.flatMap FileDiff.lines, []) := by
    have happend := splitByRegex_append hindex []
    rw [List.append_nil] at happend
    rw [happend]
    exact Prod.ext (List.append_nil _) rfl
  rw [List.nil_append, ← List.flatMap_def] at hcut
  have hlength : 0 < (patch.map FileDiff.lines).length := by
    rw [List.length_map]
    exact List.length_pos_of_ne_nil hne
  rw [patchPieces, barelines_patchText h]
  rw [List.find?_cons_of_neg (by simp [hwhole]), List.find?_cons_of_pos (by simpa [hcut] using hlength)]
  change (splitByRegex diffcmdHeader _).1 :: (splitByRegex diffcmdHeader _).2 = _
  rw [hcut]

/-! ## The header that is read -/

theorem isSome_aroundLast {mark u v : List Char} (hu : u ≠ []) (hv : v ≠ []) : (aroundLast mark (u ++ (mark ++ v))).isSome = true := by
  rw [aroundLast, List.findSome?_isSome_iff]
  refine ⟨u.length, ?_, ?_⟩
  · rw [List.mem_reverse, List.mem_range, List.length_append, List.length_append]
    have := List.length_pos_of_ne_nil hv
    omega
  · have hlength : u.length ≠ 0 := fun h => hu (List.length_eq_zero_iff.mp h)
    rw [List.drop_left, behind?_append, Option.bind_some, if_pos ⟨hlength, hv⟩]
    rfl

theorem isSome_gitHeaderIndex {first second tail : List Char} (hfirst : first ≠ [] ∧ ∀ c ∈ first, isHex c = true)
    (hsecond : second ≠ [] ∧ ∀ c ∈ second, isHex c = true) (htail : tail = [] ∨ ∃ mode, tail = ' ' :: mode ∧ ∀ c ∈ mode, c.isDigit = true) :
    (gitHeaderIndex ("index ".toList ++ (first ++ (".".toList ++ (".".toList ++ (second ++ tail)))))).isSome = true := by
  have hversion : secondVersion (".".toList ++ (".".toList ++ (second ++ tail))) = some second := by
    have hstop : tail.takeWhile isHex = [] ∧ tail.dropWhile isHex = tail ∧ (if tail.head? = some ' ' then tail.tail else tail).all Char.isDigit = true := by
      rcases htail with rfl | ⟨mode, rfl, hmode⟩
      · exact ⟨rfl, rfl, rfl⟩
      · exact ⟨List.takeWhile_cons_of_neg (by decide), List.dropWhile_cons_of_neg (by decide), List.all_eq_true.mpr hmode⟩
    change secondVersion ('.' :: '.' :: (second ++ tail)) = _
    rw [secondVersion, List.drop_succ_cons, List.drop_succ_cons, List.drop_zero, List.takeWhile_append_of_pos hsecond.2,
      List.dropWhile_append_of_pos hsecond.2, hstop.1, hstop.2.1, List.append_nil]
    exact if_pos ⟨by simp, hsecond.1, hstop.2.2⟩
  have hlength : 0 < first.length := List.length_pos_of_ne_nil hfirst.1
  rw [gitHeaderIndex, behind?_append, Option.bind_some, List.findSome?_isSome_iff]
  refine ⟨first.length - 1, ?_, ?_⟩
  · rw [List.mem_reverse, List.mem_range, List.takeWhile_append_of_pos hfirst.2, List.length_append]
    omega
  · rw [Nat.sub_add_cancel hlength, List.drop_left, hversion]
    rfl

/-- Nothing is known of the names. -/
def GitHeader.Nameless (s : GitHeader) : Prop := s.oldPath = none ∧ s.newPath = none

section Header

variable {s : GitHeader} {line : List Char} {lines : List (List Char)}

theorem parseGitHeaderFrom_command (h : (gitDiffcmdHeader line).isSome = true) (hs : s.Nameless) :
    ∃ s' : GitHeader, s'.Nameless ∧ parseGitHeaderFrom s (line :: lines) = parseGitHeaderFrom s' lines := by
  obtain ⟨paths, hpaths⟩ := Option.isSome_iff_exists.mp h
  refine ⟨{ s with cmdOldPath := some paths.1, cmdNewPath := some paths.2 }, hs, ?_⟩
  rw [parseGitHeaderFrom, hpaths]

theorem parseGitHeaderFrom_index (hcommand : gitDiffcmdHeader line = none) (h : (gitHeaderIndex line).isSome = true) (hs : s.Nameless) :
    ∃ s' : GitHeader, s'.Nameless ∧ parseGitHeaderFrom s (line :: lines) = parseGitHeaderFrom s' lines := by
  obtain ⟨versions, hversions⟩ := Option.isSome_iff_exists.mp h
  refine ⟨{ s with oldVersion := some versions.1, newVersion := some versions.2 }, hs, ?_⟩
  rw [parseGitHeaderFrom, hcommand, hversions]

/-- A line without the marks of a command, of an index or of a binary file. -/
structure Unmarked (line : List Char) : Prop where
  command : gitDiffcmdHeader line = none
  index : gitHeaderIndex line = none
  binary : gitHeaderBinaryFile line = none

theorem binary_eq : "Binary files ".toList = 'B' :: "inary files ".toList := by decide

theorem unmarked_of_ne {c : Char} (hd : 'd' ≠ c) (hi : 'i' ≠ c) (hB : 'B' ≠ c) (cs : List Char) : Unmarked (c :: cs) where
  command := by
    rw [gitDiffcmdHeader, command_eq, diff_eq, List.cons_append, behind?_of_ne hd]
    rfl
  index := by
    rw [gitHeaderIndex, index_eq, behind?_of_ne hi]
    rfl
  binary := by
    rw [gitHeaderBinaryFile, binary_eq, behind?_of_ne hB]
    rfl

theorem Unmarked.step (h : Unmarked line) (s : GitHeader) (lines : List (List Char)) :
    parseGitHeaderFrom s (line :: lines) =
      match given (s.readPaths line).oldPath, given (s.readPaths line).newPath with
      | some old, some new =>
        some {
          indexPath := none
          oldPath := some (removePrefix "a/".toList old)
          oldVersion := (s.readPaths line).oldVersion
          newPath := some (removePrefix "b/".toList new)
          newVersion := (s.readPaths line).newVersion }
      | _, _ => parseGitHeaderFrom (s.readPaths line) lines := by
  rw [parseGitHeaderFrom, h.command, h.index] <;> rfl

theorem Unmarked.readPaths (h : Unmarked line) (s : GitHeader) :
    s.readPaths line =
      { s with oldPath := (gitHeaderOldLine line).or s.oldPath, newPath := (gitHeaderNewLine line).or s.newPath } := by
  rw [GitHeader.readPaths, h.binary]

theorem gitHeaderOldLine_of_ne {c : Char} (h : '-' ≠ c) (cs : List Char) : gitHeaderOldLine (c :: cs) = none := by
  rw [gitHeaderOldLine, old_eq, behind?_of_ne h]
  rfl

theorem gitHeaderNewLine_of_ne {c : Char} (h : '+' ≠ c) (cs : List Char) : gitHeaderNewLine (c :: cs) = none := by
  rw [gitHeaderNewLine, new_eq, behind?_of_ne h]
  rfl

/-- A line that names nothing is passed over. -/
theorem Unmarked.skip (h : Unmarked line) (hold : gitHeaderOldLine line = none) (hnew : gitHeaderNewLine line = none) (hs : s.Nameless) :
    parseGitHeaderFrom s (line :: lines) = parseGitHeaderFrom s lines := by
  have hread : s.readPaths line = s := by rw [h.readPaths, hold, hnew, Option.none_or, Option.none_or]
  rw [h.step, hread, hs.1, hs.2]
  rfl

theorem parseGitHeaderFrom_names (hs : s.Nameless) {old new : List Char} (hold : old ≠ []) (hnew : new ≠ []) :
    ∃ header, parseGitHeaderFrom s (("--- ".toList ++ old) :: ("+++ ".toList ++ new) :: lines) = some header ∧
      header.oldPath = some (removePrefix "a/".toList old) ∧ header.newPath = some (removePrefix "b/".toList new) := by
  have holdLine : Unmarked ("--- ".toList ++ old) := by
    rw [old_eq]
    exact unmarked_of_ne (by decide) (by decide) (by decide) _
  have hnewLine : Unmarked ("+++ ".toList ++ new) := by
    rw [new_eq]
    exact unmarked_of_ne (by decide) (by decide) (by decide) _
  have hfirst : s.readPaths ("--- ".toList ++ old) = { s with oldPath := some old } := by
    have hother : gitHeaderNewLine ("--- ".toList ++ old) = none := by
      rw [old_eq]
      exact gitHeaderNewLine_of_ne (by decide) _
    have hname : gitHeaderOldLine ("--- ".toList ++ old) = some old := by
      rw [gitHeaderOldLine, behind?_append]
      exact Option.filter_some_pos (by simpa using hold)
    rw [holdLine.readPaths, hname, hother, Option.some_or, Option.none_or]
  have hsecond (s : GitHeader) : s.readPaths ("+++ ".toList ++ new) = { s with newPath := some new } := by
    have hother : gitHeaderOldLine ("+++ ".toList ++ new) = none := by
      rw [new_eq]
      exact gitHeaderOldLine_of_ne (by decide) _
    have hname : gitHeaderNewLine ("+++ ".toList ++ new) = some new := by
      rw [gitHeaderNewLine, behind?_append]
      exact Option.filter_some_pos (by simpa using hnew)
    rw [hnewLine.readPaths, hname, hother, Option.some_or, Option.none_or]
  have hgivenOld : given (some old) = some old := Option.filter_some_pos (by simpa using hold)
  have hgivenNew : given (some new) = some new := Option.filter_some_pos (by simpa using hnew)
  have hnone : given none = none := rfl
  rw [holdLine.step, hfirst]
  dsimp only
  rw [hgivenOld, hs.2, hnone]
  dsimp only
  rw [hnewLine.step, hsecond]
  dsimp only
  rw [hgivenOld, hgivenNew]
  exact ⟨_, rfl, rfl, rfl⟩

end Header

namespace FileDiff

variable {f : FileDiff}

/-- The names in the header that is read. -/
def oldName (f : FileDiff) : List Char := if f.change.isAdded then devNull else f.change.path

def newName (f : FileDiff) : List Char := if f.change.after.isNone then devNull else f.change.path

theorem Plain.isSome_command (h : f.Plain) : (gitDiffcmdHeader f.commandLine).isSome = true := by
  rw [gitDiffcmdHeader, commandLine_eq, List.append_assoc, List.append_assoc, behind?_append]
  exact isSome_aroundLast h.path.1 h.path.1

theorem Plain.isSome_versions (h : f.Plain) {tail : List Char} (htail : tail = [] ∨ ∃ mode, tail = ' ' :: mode ∧ ∀ c ∈ mode, c.isDigit = true) :
    (gitHeaderIndex (f.versions ++ tail)).isSome = true := by
  have htext : f.versions ++ tail =
      "index ".toList ++ (f.oldVersion ++ (".".toList ++ (".".toList ++ (f.newVersion ++ tail)))) := by
    rw [versions_eq, show "..".toList = ".".toList ++ ".".toList by decide]
    simp only [List.append_assoc]
  rw [htext]
  exact isSome_gitHeaderIndex h.versions.1 h.versions.2 htail

theorem command_versions (f : FileDiff) (tail : List Char) : gitDiffcmdHeader (f.versions ++ tail) = none := by
  rw [gitDiffcmdHeader, command_eq, diff_eq, versions_eq, index_eq, List.cons_append, List.cons_append, List.cons_append,
    List.cons_append, List.cons_append, behind?_of_ne (by decide)]
  rfl

theorem removePrefix_append (pat cs : List Char) : removePrefix pat (pat ++ cs) = cs := by
  rw [removePrefix, if_pos (List.prefix_append pat cs), List.drop_left]

theorem skip_new {mode : List Char} {s : GitHeader} (hs : s.Nameless) (lines : List (List Char)) :
    parseGitHeaderFrom s (("new file mode ".toList ++ mode) :: lines) = parseGitHeaderFrom s lines := by
  rw [newFile_eq]
  exact (unmarked_of_ne (by decide) (by decide) (by decide) _).skip (gitHeaderOldLine_of_ne (by decide) _)
    (gitHeaderNewLine_of_ne (by decide) _) hs

theorem deletedFile_eq : "deleted file mode ".toList = 'd' :: 'e' :: "leted file mode ".toList := by decide

theorem skip_deleted {mode : List Char} {s : GitHeader} (hs : s.Nameless) (lines : List (List Char)) :
    parseGitHeaderFrom s (("deleted file mode ".toList ++ mode) :: lines) = parseGitHeaderFrom s lines := by
  have hunmarked : Unmarked ('d' :: 'e' :: ("leted file mode ".toList ++ mode)) := by
    refine ⟨?_, ?_, ?_⟩
    · have hnone : behind? "diff --git a/".toList ('d' :: 'e' :: ("leted file mode ".toList ++ mode)) = none := by
        rw [command_eq, diff_eq, show "iff".toList = 'i' :: "ff".toList by decide]
        exact if_neg fun hpre => absurd (List.cons_prefix_cons.mp (List.cons_prefix_cons.mp hpre).2).1 (by decide)
      rw [gitDiffcmdHeader, hnone]
      rfl
    · rw [gitHeaderIndex, index_eq, behind?_of_ne (by decide)]
      rfl
    · rw [gitHeaderBinaryFile, binary_eq, behind?_of_ne (by decide)]
      rfl
  rw [deletedFile_eq]
  exact hunmarked.skip (gitHeaderOldLine_of_ne (by decide) _) (gitHeaderNewLine_of_ne (by decide) _) hs

theorem parseGitHeader_lines (h : f.Plain) :
    ∃ header, parseGitHeader f.lines = some header ∧ header.oldPath = some f.oldName ∧ header.newPath = some f.newName := by
  have hstart : (GitHeader.Nameless {}) := ⟨rfl, rfl⟩
  obtain ⟨s₁, hs₁, hcommand⟩ := @parseGitHeaderFrom_command _ _ (f.headerLines.tail ++ f.chunks.flatten) h.isSome_command hstart
  have hnames {s : GitHeader} (hs : s.Nameless) {old new : List Char} (hold : old ≠ []) (hnew : new ≠ []) :=
    @parseGitHeaderFrom_names _ f.chunks.flatten hs _ _ hold hnew
  have hnull : removePrefix "a/".toList devNull = devNull ∧ removePrefix "b/".toList devNull = devNull ∧ devNull ≠ [] := by decide
  have hpath := h.path.1
  have hversions {tail : List Char} (htail : tail = [] ∨ ∃ mode, tail = ' ' :: mode ∧ ∀ c ∈ mode, c.isDigit = true)
      {s : GitHeader} (hs : s.Nameless) (lines : List (List Char)) :=
    @parseGitHeaderFrom_index _ _ lines (f.command_versions tail) (h.isSome_versions htail) hs
  rw [parseGitHeader, FileDiff.lines]
  cases hchange : f.change with
  | changed path ending diff =>
    rw [hchange] at hpath
    rw [headerLines, hchange] at hcommand ⊢
    obtain ⟨s₂, hs₂, hindex⟩ := hversions (.inr ⟨f.mode, rfl, h.mode⟩) hs₁
      (["--- a/".toList ++ path, "+++ b/".toList ++ path] ++ f.chunks.flatten)
    obtain ⟨header, hheader, hold, hnew⟩ := @hnames _ hs₂ ("a/".toList ++ path) ("b/".toList ++ path)
      (by simp) (by simp)
    refine ⟨header, ?_, ?_, ?_⟩
    · exact hcommand.trans (hindex.trans hheader)
    · rw [hold, removePrefix_append, oldName, hchange]
      rfl
    · rw [hnew, removePrefix_append, newName, hchange]
      rfl
  | added path lines =>
    rw [headerLines, hchange] at hcommand ⊢
    obtain ⟨s₂, hs₂, hindex⟩ := hversions (.inl rfl) hs₁
      (["--- ".toList ++ devNull, "+++ b/".toList ++ path] ++ f.chunks.flatten)
    obtain ⟨header, hheader, hold, hnew⟩ := @hnames _ hs₂ devNull ("b/".toList ++ path) hnull.2.2 (by simp)
    rw [List.append_nil] at hindex
    refine ⟨header, ?_, ?_, ?_⟩
    · exact hcommand.trans ((skip_new hs₁ _).trans (hindex.trans hheader))
    · rw [hold, hnull.1, oldName, hchange]
      rfl
    · rw [hnew, removePrefix_append, newName, hchange]
      rfl
  | deleted path ending lines =>
    rw [headerLines, hchange] at hcommand ⊢
    obtain ⟨s₂, hs₂, hindex⟩ := hversions (.inl rfl) hs₁
      (["--- a/".toList ++ path, "+++ ".toList ++ devNull] ++ f.chunks.flatten)
    obtain ⟨header, hheader, hold, hnew⟩ := @hnames _ hs₂ ("a/".toList ++ path) devNull (by simp) hnull.2.2
    rw [List.append_nil] at hindex
    refine ⟨header, ?_, ?_, ?_⟩
    · exact hcommand.trans ((skip_deleted hs₁ _).trans (hindex.trans hheader))
    · rw [hold, removePrefix_append, oldName, hchange]
      rfl
    · rw [hnew, hnull.2.1, newName, hchange]
      rfl

/-! ## The piece that is read -/

theorem unifiedHunkStart_of_ne {c : Char} (h : c ≠ '@') (cs : List Char) : unifiedHunkStart (c :: cs) = none := by
  rw [unifiedHunkStart]
  intro _ hcons
  exact h (List.cons.inj hcons).1

theorem startless_headerLines (f : FileDiff) : ∀ line ∈ f.headerLines, (unifiedHunkStart line).isSome = false := by
  have hstart {c : Char} (h : c ≠ '@') (cs : List Char) : (unifiedHunkStart (c :: cs)).isSome = false := by
    rw [unifiedHunkStart_of_ne h]
    rfl
  have hcommand : (unifiedHunkStart f.commandLine).isSome = false := by
    rw [commandLine_eq, command_eq, diff_eq]
    exact hstart (by decide) _
  have hversions (tail : List Char) : (unifiedHunkStart (f.versions ++ tail)).isSome = false := by
    rw [versions_eq, index_eq]
    exact hstart (by decide) _
  have hplain : (unifiedHunkStart f.versions).isSome = false := List.append_nil f.versions ▸ hversions []
  intro line hline
  cases hchange : f.change with
  | changed path ending diff =>
    rw [headerLines, hchange] at hline
    simp only [List.mem_cons, List.not_mem_nil, or_false] at hline
    rcases hline with rfl | rfl | rfl | rfl
    · exact hcommand
    · exact hversions _
    · exact hstart (c := '-') (by decide) _
    · exact hstart (c := '+') (by decide) _
  | added path lines =>
    rw [headerLines, hchange] at hline
    simp only [List.mem_cons, List.not_mem_nil, or_false] at hline
    rcases hline with rfl | rfl | rfl | rfl | rfl
    · exact hcommand
    · exact hstart (c := 'n') (by decide) _
    · exact hplain
    · exact hstart (c := '-') (by decide) _
    · exact hstart (c := '+') (by decide) _
  | deleted path ending lines =>
    rw [headerLines, hchange] at hline
    simp only [List.mem_cons, List.not_mem_nil, or_false] at hline
    rcases hline with rfl | rfl | rfl | rfl | rfl
    · exact hcommand
    · exact hstart (c := 'd') (by decide) _
    · exact hplain
    · exact hstart (c := '-') (by decide) _
    · exact hstart (c := '+') (by decide) _

theorem Plain.parseUnifiedDiff (h : f.Plain) : parseUnifiedDiff f.lines = some (changes f.change.diff) :=
  parseUnifiedDiff_diffLines f.startless_headerLines f.heading f.change.diff h.nonempty

/-- A diff that changes a line has a hunk. -/
theorem Plain.any_start (h : f.Plain) : (f.lines.any fun line => (unifiedHunkStart line).isSome) = true := by
  obtain ⟨chunk, hchunk⟩ : ∃ chunk, chunk ∈ f.chunks := by
    refine List.exists_mem_of_ne_nil _ fun hnil => h.nonempty ?_
    rw [changes, ← chunksChanges_hunksLines f.heading]
    exact congrArg (chunksChanges 1) hnil
  obtain ⟨a, b, c, d, text, es, rfl⟩ := mem_hunksLines hchunk
  refine List.any_eq_true.mpr ⟨hunkHeader a b c d text, ?_, by rw [unifiedHunkStart_hunkHeader]; rfl⟩
  exact List.mem_append_right _ (List.mem_flatten.mpr ⟨_, hchunk, List.mem_cons_self⟩)

theorem Plain.any_command (h : f.Plain) : (f.lines.any fun line => (gitDiffcmdHeader line).isSome) = true := by
  obtain ⟨rest, hheader, _⟩ := f.exists_headerLines
  refine List.any_eq_true.mpr ⟨f.commandLine, ?_, h.isSome_command⟩
  rw [FileDiff.lines, hheader]
  exact List.mem_cons_self

theorem Plain.any_index (h : f.Plain) : (f.lines.any fun line => (gitHeaderIndex line).isSome) = true := by
  have hplain := @FileDiff.Plain.isSome_versions f h [] (.inl rfl)
  rw [List.append_nil] at hplain
  refine List.any_eq_true.mpr ?_
  cases hchange : f.change with
  | changed path ending diff =>
    refine ⟨f.versions ++ ' ' :: f.mode, List.mem_append_left _ ?_, h.isSome_versions (.inr ⟨f.mode, rfl, h.mode⟩)⟩
    rw [headerLines, hchange]
    simp only [List.mem_cons, true_or, or_true]
  | added path lines =>
    refine ⟨f.versions, List.mem_append_left _ ?_, hplain⟩
    rw [headerLines, hchange]
    simp only [List.mem_cons, true_or, or_true]
  | deleted path ending lines =>
    refine ⟨f.versions, List.mem_append_left _ ?_, hplain⟩
    rw [headerLines, hchange]
    simp only [List.mem_cons, true_or, or_true]

theorem removePrefix_of_not {pat cs : List Char} (h : ¬ pat <+: cs) : removePrefix pat cs = cs := if_neg h

/-- The prefixes are gone after the first time. -/
theorem Plain.removePrefix_names (h : f.Plain) :
    removePrefix "a/".toList f.oldName = f.oldName ∧ removePrefix "b/".toList f.newName = f.newName := by
  have hnull : removePrefix "a/".toList devNull = devNull ∧ removePrefix "b/".toList devNull = devNull := by decide
  rw [oldName, newName]
  constructor
  · split_ifs
    · exact hnull.1
    · exact removePrefix_of_not h.rooted.2.1
  · split_ifs
    · exact hnull.2
    · exact removePrefix_of_not h.rooted.2.2

/-- The names and the changes of a file are read from what git prints for it. -/
theorem Plain.parsePiece (h : f.Plain) (others : OtherFormats) :
    ∃ header : Header, header.oldPath = some f.oldName ∧ header.newPath = some f.newName ∧
      parsePiece others f.lines =
        .ok (some ⟨some header, some (changes f.change.diff), List.intercalate ['\n'] f.lines ++ ['\n']⟩) := by
  obtain ⟨header, hheader, hold, hnew⟩ := parseGitHeader_lines h
  have hlines : f.lines ≠ [] := by
    intro hnil
    have hany := h.any_index
    rw [hnil] at hany
    cases hany
  have hscm : parseScmHeader others f.lines = .ok (some { header with
      oldPath := header.oldPath.map (removePrefix "a/".toList), newPath := header.newPath.map (removePrefix "b/".toList) }, f.lines) := by
    rw [parseScmHeader, if_pos h.any_index]
    dsimp only
    rw [if_pos h.any_command, hheader]
    rfl
  have hdiff : parseDiff others f.lines = .ok (some (changes f.change.diff)) := by
    rw [parseDiff, if_neg hlines, if_pos h.any_start, h.parseUnifiedDiff]
  refine ⟨{ header with
      oldPath := header.oldPath.map (removePrefix "a/".toList), newPath := header.newPath.map (removePrefix "b/".toList) }, ?_, ?_, ?_⟩
  · rw [hold, Option.map_some, h.removePrefix_names.1]
  · rw [hnew, Option.map_some, h.removePrefix_names.2]
  · rw [Patching.parsePiece, parseHeader, if_neg hlines, hscm]
    change (Except.map _ (parseDiff others f.lines)) = _
    rw [hdiff]
    rfl

end FileDiff

end OpenHands.Patching
