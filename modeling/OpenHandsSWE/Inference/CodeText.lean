import OpenHandsSWE.Lib.Assoc
import OpenHandsSWE.Lib.Lines
import OpenHandsSWE.Lib.Python

/-! The code that a prompt shows: the lines around the edits of a patch, with their numbers. -/

namespace OpenHands.CodeText
open Text

/-! ## The prompt -/

structure Hunk where
  sourceStart : ℕ
  sourceLength : ℕ

/-- A file of a patch, as it is parsed. -/
structure PatchedFile where
  sourceFile : List Char
  hunks : List Hunk

/-- A slice of the lines of a file. -/
structure Window where
  start : ℤ
  stop : ℤ

def Hunk.window (hunk : Hunk) : Window :=
  let start : ℤ := hunk.sourceStart - 15
  ⟨start, start + hunk.sourceLength + 15⟩

/-- `source_file.split("a/", 1)[-1]`. -/
def sourceName (sourceFile : List Char) : List Char :=
  match upTo ['a', '/'] sourceFile with
  | some before => sourceFile.drop (before.length + 2)
  | none => sourceFile

def windowsOf (patch : List PatchedFile) : List (List Char × List Window) :=
  patch.foldl (fun files file => Assoc.set (sourceName file.sourceFile) (file.hunks.map Hunk.window) files) []

def numbered (line : List Char × ℕ) : List Char := Nat.toDigits 10 line.2 ++ ' ' :: line.1

def addLinesList (content : List Char) : List (List Char) := ((split ['\n'] content).zipIdx 1).map numbered

/-- `text.strip("\n")`. -/
def stripNewlines (text : List Char) : List Char := (text.dropWhile (· = '\n')).rdropWhile (· = '\n')

def dots : List Char := ['.', '.', '.']

def windowText (lines : List (List Char)) (w : Window) : List Char :=
  (if 0 < w.start then dots ++ ['\n'] else []) ++ List.intercalate ['\n'] (Py.slice lines w.start w.stop) ++ ['\n'] ++
    (if w.stop < lines.length then dots ++ ['\n'] else [])

def startLine (filename : List Char) : List Char := "[start of ".toList ++ filename ++ [']']

def endLine (filename : List Char) : List Char := "[end of ".toList ++ filename ++ [']']

def addFile (windows : List Window) (allText filename content : List Char) : List Char :=
  let shown := windows.foldl (fun text w => text ++ windowText (addLinesList content) w)
    (allText ++ startLine filename ++ ['\n'])
  stripNewlines shown ++ '\n' :: endLine filename ++ ['\n']

def addFiles (windows : List (List Char × List Window)) : List (List Char × List Char) → List Char → Except PyError (List Char)
  | [], allText => .ok allText
  | file :: files, allText =>
    match Assoc.get? file.1 windows with
    | none => .error (.keyError (String.ofList file.1))
    | some shown => addFiles windows files (addFile shown allText file.1 file.2)

def makeCodeTextEditsOnly (filesDict : List (List Char × List Char)) (patch : List PatchedFile) :
    Except PyError (List Char) :=
  (addFiles (windowsOf patch) filesDict []).map stripNewlines

/-! ## Edits -/

/-- The file that a file of a patch is made from; a new one is made from none. -/
inductive Source where
  | file (name : List Char)
  | devNull

def Source.text : Source → List Char
  | .file name => 'a' :: '/' :: name
  | .devNull => "/dev/null".toList

def lineCount (content : List Char) : ℕ := (split ['\n'] content).length

/-- A range of lines is inside of a file. -/
def Hunk.Inside (hunk : Hunk) (content : List Char) : Prop :=
  (0 < hunk.sourceLength → 0 < hunk.sourceStart) ∧ hunk.sourceStart + hunk.sourceLength ≤ lineCount content + 1

/-- Files, and a patch that applies to them. -/
structure Edit where
  files : List (List Char × List Char)
  patch : List (Source × List Hunk)
  distinct : (files.map Prod.fst).Nodup
  found : ∀ name hunks, (Source.file name, hunks) ∈ patch →
    '\n' ∉ name ∧ ∃ content, (name, content) ∈ files ∧ ∀ hunk ∈ hunks, hunk.Inside content

def Edit.parsed (e : Edit) : List PatchedFile := e.patch.map fun file => ⟨file.1.text, file.2⟩

def Edit.prompt (e : Edit) : Except PyError (List Char) := makeCodeTextEditsOnly e.files e.parsed

/-! ## What a prompt shows -/

/-- The lines between the two that enclose a file. -/
def blockOf (filename : List Char) (lines : List (List Char)) : List (List Char) :=
  (lines.dropWhile (· ≠ startLine filename)).tail.takeWhile (· ≠ endLine filename)

inductive Item where
  | dots
  | line (number : ℕ)
  | other
deriving DecidableEq

def itemOf (line : List Char) : Item :=
  if line = dots then .dots
  else
    match natural (line.takeWhile (· ≠ ' ')) with
    | some number => .line number
    | none => .other

/-- Behind a last line that is shown, dots stand exactly where lines are left out. -/
def DottedFrom (count : ℕ) : ℕ → Bool → List Item → Prop
  | last, dotted, [] => last = 0 ∨ (dotted = true ↔ last < count)
  | last, _, .dots :: items => DottedFrom count last true items
  | last, dotted, .line number :: items => (dotted = true ↔ last + 1 < number) ∧ DottedFrom count number false items
  | last, dotted, .other :: items => DottedFrom count last dotted items

/-- A prompt shows the lines of all hunks with their numbers, and dots for what it leaves out. -/
structure ShowsFile (text filename content : List Char) (hunks : List Hunk) : Prop where
  lines : ∀ hunk ∈ hunks, ∀ line ∈ (split ['\n'] content).zipIdx 1, hunk.sourceStart ≤ line.2 →
    line.2 < hunk.sourceStart + hunk.sourceLength → numbered line ∈ blockOf filename (split ['\n'] text)
  dots : DottedFrom (lineCount content) 0 false ((blockOf filename (split ['\n'] text)).map itemOf)

def ShowsEdits (e : Edit) : Prop :=
  ∃ text, e.prompt = .ok text ∧ ∀ name hunks, (Source.file name, hunks) ∈ e.patch →
    ∀ content, (name, content) ∈ e.files → ShowsFile text name content hunks

/-! ## Windows -/

/-- The lines that a window shows, of a file with so many lines: none, when the last is before the first. -/
def Window.first (count : ℕ) (w : Window) : ℕ := (if 0 ≤ w.start then w.start.toNat else count - (-w.start).toNat) + 1

def Window.last (count : ℕ) (w : Window) : ℕ := min w.stop.toNat count

/-- Behind a last line that is shown, windows have dots between them exactly where lines are left out. -/
def Tight (count : ℕ) : ℕ → Bool → List Window → Prop
  | last, dotted, [] => last = 0 ∨ (dotted = true ↔ last < count)
  | last, dotted, w :: windows =>
    let opened := dotted || decide (0 < w.start)
    if w.last count < w.first count then Tight count last (opened || decide (w.stop < count)) windows
    else (opened = true ↔ last + 1 < w.first count) ∧ Tight count (w.last count) (decide (w.stop < count)) windows

/-- The windows of a file: those of the last of its entries in the patch. -/
def Edit.windows? (e : Edit) (name : List Char) : Option (List Window) :=
  ((e.patch.filter fun file => sourceName file.1.text = name).getLast?).map fun file => file.2.map Hunk.window

/-- Every file is one that the patch names. -/
def Edit.Patched (e : Edit) : Prop := ∀ file ∈ e.files, ∃ entry ∈ e.patch, sourceName entry.1.text = file.1

/-- Every file is one of the patch; the lines of its hunks are in its windows, with dots between these as they should
be. -/
structure Windowed (e : Edit) : Prop where
  patched : e.Patched
  shown : ∀ name hunks, (Source.file name, hunks) ∈ e.patch → ∀ content, (name, content) ∈ e.files → ∀ hunk ∈ hunks,
    ∀ k, hunk.sourceStart ≤ k → k < hunk.sourceStart + hunk.sourceLength →
    ∃ windows ∈ e.windows? name, ∃ w ∈ windows, w.first (lineCount content) ≤ k ∧ k ≤ w.last (lineCount content)
  tight : ∀ name hunks, (Source.file name, hunks) ∈ e.patch → ∀ content, (name, content) ∈ e.files →
    ∀ windows ∈ e.windows? name, Tight (lineCount content) 0 false windows

/-! ## The lines of the prompt -/

section

variable {filename content : List Char} {lines : List (List Char)} {windows : List Window}

/-- The lines that a window adds: an empty one when it shows none. -/
def windowLines (lines : List (List Char)) (w : Window) : List (List Char) :=
  (if 0 < w.start then [dots] else []) ++
    (if Py.slice lines w.start w.stop = [] then [[]] else Py.slice lines w.start w.stop) ++
    (if w.stop < lines.length then [dots] else [])

theorem windowText_eq (lines : List (List Char)) (w : Window) : windowText lines w = ended '\n' (windowLines lines w) := by
  have hslice : List.intercalate ['\n'] (Py.slice lines w.start w.stop) ++ ['\n'] =
      ended '\n' (if Py.slice lines w.start w.stop = [] then [[]] else Py.slice lines w.start w.stop) := by
    split_ifs with hnil
    · rw [hnil]
      rfl
    · obtain ⟨init, last, hlast⟩ := (List.eq_nil_or_concat' _).resolve_left hnil
      rw [hlast, ← ended_append_line, ended_append, List.append_assoc]
      simp [ended]
  have hdots (p : Prop) [Decidable p] : (if p then dots ++ ['\n'] else []) = ended '\n' (if p then [dots] else []) := by
    split_ifs <;> rfl
  rw [windowText, windowLines, ended_append, ended_append, ← hdots, ← hdots, ← hslice]
  simp only [List.append_assoc]

theorem foldl_windowText (lines : List (List Char)) (windows : List Window) (text : List Char) :
    windows.foldl (fun text w => text ++ windowText lines w) text =
      text ++ ended '\n' (windows.flatMap (windowLines lines)) := by
  induction windows generalizing text with
  | nil => simp [ended]
  | cons w windows ih => rw [List.foldl_cons, ih, windowText_eq, List.flatMap_cons, ended_append, List.append_assoc]

/-- The lines of a file: those of its windows, without empty ones at the end. -/
def shownLines (windows : List Window) (content : List Char) : List (List Char) :=
  (windows.flatMap (windowLines (addLinesList content))).rdropWhile (· = [])

def blockLines (windows : List Window) (filename content : List Char) : List (List Char) :=
  startLine filename :: (shownLines windows content ++ [endLine filename])

theorem head_startLine (filename : List Char) : ∃ cs, startLine filename = '[' :: cs := ⟨_, rfl⟩

theorem stripNewlines_ended {ps : List (List Char)} (hps : ∀ p ∈ ps, '\n' ∉ p) (hhead : (ended '\n' ps).head? ≠ some '\n') :
    stripNewlines (ended '\n' ps) = List.intercalate ['\n'] (ps.rdropWhile (· = [])) := by
  have hdrop : (ended '\n' ps).dropWhile (· = '\n') = ended '\n' ps := by
    cases hcs : ended '\n' ps with
    | nil => rfl
    | cons c cs =>
      rw [hcs] at hhead
      exact List.dropWhile_cons_of_neg (by simpa using hhead)
  rw [stripNewlines, hdrop, rdropWhile_ended hps]

/-- A line that is kept keeps what is before it. -/
theorem rdropWhile_append_cons {α : Type*} {p : α → Bool} {x : α} (hx : ¬ p x = true) (xs ys : List α) :
    (xs ++ x :: ys).rdropWhile p = xs ++ x :: ys.rdropWhile p := by
  induction ys using List.reverseRecOn with
  | nil => exact List.rdropWhile_concat_neg p xs x hx
  | append_singleton ys y ih =>
    have hassoc : xs ++ x :: (ys ++ [y]) = xs ++ x :: ys ++ [y] := by simp
    by_cases hy : p y = true
    · rw [hassoc, List.rdropWhile_concat_pos p _ y hy, List.rdropWhile_concat_pos p _ y hy, ih]
    · rw [hassoc, List.rdropWhile_concat_neg p _ y hy, List.rdropWhile_concat_neg p _ y hy, hassoc]

theorem ended_eq_intercalate {ps : List (List Char)} (h : ps ≠ []) :
    ended '\n' ps = List.intercalate ['\n'] ps ++ ['\n'] := by
  obtain ⟨init, last, rfl⟩ := (List.eq_nil_or_concat' ps).resolve_left h
  rw [← ended_append_line, ended_append, List.append_assoc]
  simp [ended]

theorem notMem_around {lead tail : List Char} (hlead : '\n' ∉ lead) (htail : '\n' ∉ tail) (h : '\n' ∉ filename) :
    '\n' ∉ lead ++ filename ++ tail := fun hmem =>
  (List.mem_append.mp hmem).elim (fun hmem => (List.mem_append.mp hmem).elim hlead h) htail

theorem notMem_startLine (h : '\n' ∉ filename) : '\n' ∉ startLine filename := notMem_around (by decide) (by decide) h

theorem notMem_endLine (h : '\n' ∉ filename) : '\n' ∉ endLine filename := notMem_around (by decide) (by decide) h

theorem notMem_numbered {line : List Char × ℕ} (h : '\n' ∉ line.1) : '\n' ∉ numbered line := by
  intro hmem
  rcases List.mem_append.mp hmem with hmem | hmem
  · exact absurd (isDigit_of_mem_toDigits line.2 _ hmem) (by decide)
  · exact (List.mem_cons.mp hmem).elim (by decide) h

theorem notMem_addLinesList (content : List Char) : ∀ line ∈ addLinesList content, '\n' ∉ line := by
  intro line hline
  obtain ⟨given, hgiven, rfl⟩ := List.mem_map.mp hline
  refine notMem_numbered (split_notMem '\n' content _ ?_)
  exact List.fst_mem_of_mem_zipIdx hgiven

theorem mem_slice {α : Type*} {xs : List α} {m n : ℤ} {x : α} (h : x ∈ Py.slice xs m n) : x ∈ xs :=
  List.mem_of_mem_take (List.mem_of_mem_drop h)

theorem notMem_windowLines (content : List Char) (w : Window) : ∀ line ∈ windowLines (addLinesList content) w, '\n' ∉ line := by
  intro line hline
  rcases List.mem_append.mp hline with hline | hline
  · rcases List.mem_append.mp hline with hline | hline
    · split_ifs at hline
      · rw [List.mem_singleton.mp hline]
        decide
      · exact absurd hline List.not_mem_nil
    · split_ifs at hline
      · rw [List.mem_singleton.mp hline]
        exact List.not_mem_nil
      · exact notMem_addLinesList content line (mem_slice hline)
  · split_ifs at hline
    · rw [List.mem_singleton.mp hline]
      decide
    · exact absurd hline List.not_mem_nil

theorem notMem_blockLines (h : '\n' ∉ filename) (windows : List Window) (content : List Char) :
    ∀ line ∈ blockLines windows filename content, '\n' ∉ line := by
  intro line hline
  rcases List.mem_cons.mp hline with rfl | hline
  · exact notMem_startLine h
  rcases List.mem_append.mp hline with hline | hline
  · obtain ⟨w, -, hw⟩ := List.mem_flatMap.mp ((List.rdropWhile_prefix _ _).subset hline)
    exact notMem_windowLines content w line hw
  · rw [List.mem_singleton.mp hline]
    exact notMem_endLine h

/-- Lines that begin with a bracket, or no lines. -/
def Bracketed (lines : List (List Char)) : Prop := ∀ line ∈ lines.head?, ∃ cs, line = '[' :: cs

theorem head?_ended {lines : List (List Char)} (h : Bracketed lines) : (ended '\n' lines).head? ≠ some '\n' := by
  cases lines with
  | nil => exact (Option.some_ne_none _).symm
  | cons line lines =>
    obtain ⟨cs, rfl⟩ := h line rfl
    rw [ended_cons]
    simp

theorem Bracketed.append (h : Bracketed lines) (filename : List Char) (others : List (List Char)) : Bracketed (lines ++ startLine filename :: others) := by
  cases lines with
  | nil =>
    intro line hline
    rw [← Option.some.inj hline]
    exact head_startLine filename
  | cons first lines => exact h

theorem addFile_ended (hlines : ∀ line ∈ lines, '\n' ∉ line) (hhead : Bracketed lines) (hname : '\n' ∉ filename)
    (windows : List Window) (content : List Char) :
    addFile windows (ended '\n' lines) filename content = ended '\n' (lines ++ blockLines windows filename content) := by
  set shown := windows.flatMap (windowLines (addLinesList content)) with hshown
  have htext : windows.foldl (fun text w => text ++ windowText (addLinesList content) w)
      (ended '\n' lines ++ startLine filename ++ ['\n']) = ended '\n' (lines ++ startLine filename :: shown) := by
    rw [foldl_windowText, ended_append, ended_cons, hshown]
    simp only [List.append_assoc, List.cons_append, List.nil_append]
  have hclean : ∀ line ∈ lines ++ startLine filename :: shown, '\n' ∉ line := by
    refine List.forall_mem_append.mpr ⟨hlines, List.forall_mem_cons.mpr ⟨notMem_startLine hname, fun line hline => ?_⟩⟩
    obtain ⟨w, -, hw⟩ := List.mem_flatMap.mp hline
    exact notMem_windowLines content w line hw
  have hstart : ¬ (fun line : List Char => decide (line = [])) (startLine filename) = true := by
    obtain ⟨cs, hcs⟩ := head_startLine filename
    rw [hcs]
    exact Bool.false_ne_true
  have htrim : (lines ++ startLine filename :: shown).rdropWhile (· = []) =
      lines ++ startLine filename :: shown.rdropWhile (· = []) :=
    rdropWhile_append_cons (p := fun line => decide (line = [])) hstart lines shown
  have hne : lines ++ startLine filename :: shown.rdropWhile (· = []) ≠ [] := by simp
  have hlast : ended '\n' (lines ++ startLine filename :: shown.rdropWhile (· = [])) =
      List.intercalate ['\n'] (lines ++ startLine filename :: shown.rdropWhile (· = [])) ++ ['\n'] := ended_eq_intercalate hne
  rw [addFile, htext, stripNewlines_ended hclean (head?_ended (hhead.append filename shown)), htrim]
  have hblock : lines ++ blockLines windows filename content =
      (lines ++ startLine filename :: shown.rdropWhile (· = [])) ++ [endLine filename] := by
    rw [blockLines, shownLines, List.append_assoc]
    rfl
  rw [hblock, ended_append, hlast]
  simp [ended]

end

/-! ## The whole prompt -/

section

variable {windows : List (List Char × List Window)} {files : List (List Char × List Char)} {lines : List (List Char)}

def blockOfFile (windows : List (List Char × List Window)) (file : List Char × List Char) : List (List Char) :=
  blockLines ((Assoc.get? file.1 windows).getD []) file.1 file.2

theorem addFiles_ended (hlines : ∀ line ∈ lines, '\n' ∉ line) (hhead : Bracketed lines)
    (hfiles : ∀ file ∈ files, '\n' ∉ file.1) (hfound : ∀ file ∈ files, Assoc.get? file.1 windows ≠ none) :
    addFiles windows files (ended '\n' lines) = .ok (ended '\n' (lines ++ files.flatMap (blockOfFile windows))) := by
  induction files generalizing lines with
  | nil => simp [addFiles]
  | cons file files ih =>
    obtain ⟨hname, hnames⟩ := List.forall_mem_cons.mp hfiles
    obtain ⟨hfile, hothers⟩ := List.forall_mem_cons.mp hfound
    obtain ⟨shown, hshown⟩ := Option.ne_none_iff_exists'.mp hfile
    have hblock : blockOfFile windows file = blockLines shown file.1 file.2 := by rw [blockOfFile, hshown]; rfl
    have hclean : ∀ line ∈ lines ++ blockLines shown file.1 file.2, '\n' ∉ line :=
      List.forall_mem_append.mpr ⟨hlines, notMem_blockLines hname shown file.2⟩
    have hadded := ih hclean (hhead.append file.1 _) hnames hothers
    rw [addFiles, hshown]
    dsimp only
    rw [addFile_ended hlines hhead hname, List.flatMap_cons, hblock, ← List.append_assoc]
    exact hadded

theorem addFiles_missing {file : List Char × List Char} (hfile : file ∈ files) (hmissing : Assoc.get? file.1 windows = none)
    (allText : List Char) : ∃ e, addFiles windows files allText = .error e := by
  induction files generalizing allText with
  | nil => exact absurd hfile List.not_mem_nil
  | cons other files ih =>
    rw [addFiles]
    cases hother : Assoc.get? other.1 windows with
    | none => exact ⟨_, rfl⟩
    | some shown =>
      refine ih ((List.mem_cons.mp hfile).resolve_left fun heq => ?_) _
      rw [heq, hother] at hmissing
      exact absurd hmissing (by simp)

theorem getLast?_flatMap_blockOfFile (windows : List (List Char × List Window)) (files : List (List Char × List Char)) :
    ∀ line ∈ (files.flatMap (blockOfFile windows)).getLast?, line ≠ [] := by
  induction files using List.reverseRecOn with
  | nil => simp
  | append_singleton files file =>
    intro line hline
    have hlast : ((files ++ [file]).flatMap (blockOfFile windows)).getLast? = some (endLine file.1) := by
      rw [List.flatMap_append, List.flatMap_singleton, blockOfFile, blockLines, ← List.cons_append, ← List.append_assoc,
        List.getLast?_concat]
    rw [hlast] at hline
    rw [← Option.some.inj hline]
    exact List.cons_ne_nil _ _

/-- The lines of the prompt are those of its files, one after the other. -/
theorem prompt_lines (hfiles : ∀ file ∈ files, '\n' ∉ file.1) (hfound : ∀ file ∈ files, Assoc.get? file.1 windows ≠ none) :
    (addFiles windows files []).map stripNewlines = .ok (List.intercalate ['\n'] (files.flatMap (blockOfFile windows))) := by
  set all := files.flatMap (blockOfFile windows) with hall
  have hadded : addFiles windows files [] = .ok (ended '\n' all) :=
    addFiles_ended (fun _ h => absurd h List.not_mem_nil) (fun _ h => absurd h (by simp)) hfiles hfound
  have hclean : ∀ line ∈ all, '\n' ∉ line := by
    intro line hline
    obtain ⟨file, hfile, hblock⟩ := List.mem_flatMap.mp hline
    exact notMem_blockLines (hfiles file hfile) _ _ line hblock
  have hhead : Bracketed all := by
    intro line hline
    cases files with
    | nil => exact absurd hline (by simp [hall])
    | cons file files =>
      rw [hall, List.flatMap_cons, blockOfFile, blockLines] at hline
      obtain rfl := Option.some.inj hline
      exact head_startLine file.1
  have hlast : all.rdropWhile (· = []) = all := by
    refine List.rdropWhile_eq_self_iff.mpr fun hne => ?_
    simpa using getLast?_flatMap_blockOfFile windows files _ (List.getLast?_eq_some_getLast hne)
  rw [hadded, Except.map, stripNewlines_ended hclean (head?_ended hhead), hlast]

end

/-! ## The lines of a window -/

section

variable {filename content : List Char} {w : Window}

/-- The lines of a file that a window shows. -/
def shownPairs (content : List Char) (w : Window) : List (List Char × ℕ) :=
  (((split ['\n'] content).zipIdx 1).take w.stop.toNat).drop (w.first (lineCount content) - 1)

theorem slice_addLinesList (hstop : 0 ≤ w.stop) (content : List Char) :
    Py.slice (addLinesList content) w.start w.stop = (shownPairs content w).map numbered := by
  have hlength : (addLinesList content).length = lineCount content := by simp [addLinesList, lineCount]
  rw [Py.slice]
  dsimp only
  rw [if_pos hstop, hlength, shownPairs, Window.first, Nat.add_sub_cancel, List.map_drop, List.map_take]
  rfl

theorem map_snd_shownPairs (content : List Char) (w : Window) :
    (shownPairs content w).map Prod.snd =
      List.range' (w.first (lineCount content)) (w.last (lineCount content) + 1 - w.first (lineCount content)) := by
  have htake : (List.range' 1 (lineCount content)).take w.stop.toNat = List.range' 1 (w.last (lineCount content)) := by
    rcases Nat.le_total (lineCount content) w.stop.toNat with hle | hle
    · rw [List.take_range'_of_length_le hle, Window.last, Nat.min_eq_right hle]
    · rw [List.take_range'_of_length_ge hle, Window.last, Nat.min_eq_left hle]
  have hfirst : 1 ≤ w.first (lineCount content) := by simp [Window.first]
  rw [shownPairs, List.map_drop, List.map_take, List.zipIdx_map_snd, ← lineCount, htake, List.drop_range']
  congr 1 <;> omega

theorem mem_shownPairs {line : List Char × ℕ} :
    line ∈ shownPairs content w ↔ line ∈ (split ['\n'] content).zipIdx 1 ∧
      w.first (lineCount content) ≤ line.2 ∧ line.2 ≤ w.last (lineCount content) := by
  constructor
  · intro hline
    have hnumber : line.2 ∈ (shownPairs content w).map Prod.snd := List.mem_map_of_mem hline
    rw [map_snd_shownPairs, List.mem_range'_1] at hnumber
    exact ⟨List.mem_of_mem_take (List.mem_of_mem_drop hline), hnumber.1, by omega⟩
  · rintro ⟨hline, hfirst, hlast⟩
    obtain ⟨i, hi⟩ := List.mem_iff_getElem?.mp hline
    obtain ⟨text, -, rfl⟩ : ∃ text, (split ['\n'] content)[i]? = some text ∧ (text, 1 + i) = line := by
      rw [List.getElem?_zipIdx] at hi
      exact Option.map_eq_some_iff.mp hi
    have hpos : 1 ≤ w.first (lineCount content) := by simp [Window.first]
    dsimp only at hfirst hlast
    rw [Window.last] at hlast
    refine List.mem_iff_getElem?.mpr ⟨i - (w.first (lineCount content) - 1), ?_⟩
    rw [shownPairs, List.getElem?_drop, Nat.add_sub_cancel' (by omega), List.getElem?_take_of_lt (by omega), hi]

theorem shownPairs_eq_nil (content : List Char) (w : Window) :
    shownPairs content w = [] ↔ w.last (lineCount content) < w.first (lineCount content) := by
  rw [← List.map_eq_nil_iff (f := Prod.snd), map_snd_shownPairs, List.range'_eq_nil_iff]
  omega

theorem windowLines_eq (hstop : 0 ≤ w.stop) (content : List Char) :
    windowLines (addLinesList content) w =
      (if 0 < w.start then [dots] else []) ++
        (if w.last (lineCount content) < w.first (lineCount content) then [[]] else (shownPairs content w).map numbered) ++
        (if w.stop < lineCount content then [dots] else []) := by
  have hlength : (addLinesList content).length = lineCount content := by simp [addLinesList, lineCount]
  rw [windowLines, slice_addLinesList hstop, hlength]
  simp only [List.map_eq_nil_iff, shownPairs_eq_nil]

/-! ## The lines of a prompt, read -/

theorem numbered_head (line : List Char × ℕ) : ∃ c cs, numbered line = c :: cs ∧ c.isDigit = true := by
  cases hdigits : Nat.toDigits 10 line.2 with
  | nil => exact absurd hdigits Nat.toDigits_ne_nil
  | cons c cs =>
    refine ⟨c, cs ++ ' ' :: line.1, by rw [numbered, hdigits]; rfl, isDigit_of_mem_toDigits line.2 c ?_⟩
    rw [hdigits]
    exact List.mem_cons_self

theorem numbered_takeWhile (line : List Char × ℕ) : (numbered line).takeWhile (· ≠ ' ') = Nat.toDigits 10 line.2 := by
  rw [numbered, List.takeWhile_append_of_pos, List.takeWhile_cons_of_neg (by decide), List.append_nil]
  intro c hc
  refine decide_eq_true fun hspace => ?_
  exact absurd (isDigit_of_mem_toDigits line.2 c hc) (by rw [hspace]; decide)

theorem numbered_ne {line : List Char × ℕ} {c : Char} (hc : c.isDigit = false) (cs : List Char) : numbered line ≠ c :: cs := by
  obtain ⟨d, ds, hline, hd⟩ := numbered_head line
  rw [hline]
  intro heq
  rw [(List.cons.inj heq).1, hc] at hd
  exact absurd hd (by decide)

theorem itemOf_numbered (line : List Char × ℕ) : itemOf (numbered line) = .line line.2 := by
  have hdots : numbered line ≠ dots := numbered_ne (by decide) ['.', '.']
  rw [itemOf, if_neg hdots, numbered_takeWhile, natural_toDigits]

@[simp] theorem itemOf_dots : itemOf dots = .dots := if_pos rfl

@[simp] theorem itemOf_nil : itemOf [] = .other := rfl

theorem numbered_injective : Function.Injective numbered := by
  intro line other h
  have hnumber : line.2 = other.2 := by
    have hitem := congrArg itemOf h
    rw [itemOf_numbered, itemOf_numbered] at hitem
    exact Item.line.inj hitem
  rw [numbered, numbered, hnumber] at h
  exact Prod.ext (List.cons.inj (List.append_cancel_left h)).2 hnumber

/-- No line of a file's own begins with a bracket. -/
theorem ne_bracket_of_mem_windowLines (hstop : 0 ≤ w.stop) {line : List Char}
    (hline : line ∈ windowLines (addLinesList content) w) (cs : List Char) : line ≠ '[' :: cs := by
  rw [windowLines_eq hstop, List.mem_append, List.mem_append] at hline
  rcases hline with (hline | hline) | hline
  · split_ifs at hline
    · rw [List.mem_singleton.mp hline]
      exact fun h => absurd (List.cons.inj h).1 (by decide)
    · exact absurd hline List.not_mem_nil
  · split_ifs at hline
    · rw [List.mem_singleton.mp hline]
      exact (List.cons_ne_nil _ _).symm
    · obtain ⟨pair, -, rfl⟩ := List.mem_map.mp hline
      exact numbered_ne (by decide) cs
  · split_ifs at hline
    · rw [List.mem_singleton.mp hline]
      exact fun h => absurd (List.cons.inj h).1 (by decide)
    · exact absurd hline List.not_mem_nil

theorem ne_bracket_of_mem_shownLines {windows : List Window} (hstop : ∀ w ∈ windows, 0 ≤ w.stop) {line : List Char}
    (hline : line ∈ shownLines windows content) (cs : List Char) : line ≠ '[' :: cs := by
  obtain ⟨w, hw, hline⟩ := List.mem_flatMap.mp ((List.rdropWhile_prefix _ _).subset hline)
  exact ne_bracket_of_mem_windowLines (hstop w hw) hline cs

/-- The numbered lines of a file are those of its windows. -/
theorem numbered_mem_shownLines {windows : List Window} (hstop : ∀ w ∈ windows, 0 ≤ w.stop) {line : List Char × ℕ}
    (hline : line ∈ (split ['\n'] content).zipIdx 1) :
    numbered line ∈ shownLines windows content ↔
      ∃ w ∈ windows, w.first (lineCount content) ≤ line.2 ∧ line.2 ≤ w.last (lineCount content) := by
  have hkept : numbered line ∈ shownLines windows content ↔
      numbered line ∈ windows.flatMap (windowLines (addLinesList content)) := by
    refine ⟨fun h => (List.rdropWhile_prefix _ _).subset h, fun h => ?_⟩
    obtain ⟨u, v, huv⟩ := List.append_of_mem h
    obtain ⟨c, cs, hcons, -⟩ := numbered_head line
    rw [shownLines, huv, rdropWhile_append_cons (p := fun line => decide (line = [])) (by rw [hcons]; exact Bool.false_ne_true)]
    exact List.mem_append_right u List.mem_cons_self
  rw [hkept, List.mem_flatMap]
  refine exists_congr fun w => and_congr_right fun hw => ?_
  rw [windowLines_eq (hstop w hw), List.mem_append, List.mem_append]
  have hdots (p : Prop) [Decidable p] : numbered line ∉ (if p then [dots] else []) := by
    split_ifs
    · exact fun h => numbered_ne (by decide) ['.', '.'] (List.mem_singleton.mp h)
    · exact List.not_mem_nil
  have hinner : numbered line ∈ (shownPairs content w).map numbered ↔
      w.first (lineCount content) ≤ line.2 ∧ line.2 ≤ w.last (lineCount content) := by
    rw [List.mem_map_of_injective numbered_injective, mem_shownPairs]
    exact and_iff_right hline
  constructor
  · rintro ((h | h) | h)
    · exact absurd h (hdots _)
    · split_ifs at h
      · obtain ⟨c, cs, hcons, -⟩ := numbered_head line
        rw [hcons] at h
        exact absurd (List.mem_singleton.mp h) (List.cons_ne_nil c cs)
      · exact hinner.mp h
    · exact absurd h (hdots _)
  · intro h
    refine Or.inl (Or.inr ?_)
    rw [if_neg (by omega)]
    exact hinner.mpr h

end

/-! ## Dots -/

section

variable {content : List Char} {count : ℕ}

theorem dottedFrom_append_other (last : ℕ) (dotted : Bool) (items : List Item) :
    DottedFrom count last dotted (items ++ [.other]) ↔ DottedFrom count last dotted items := by
  induction items generalizing last dotted with
  | nil => exact Iff.rfl
  | cons item items ih =>
    cases item with
    | dots => exact ih last true
    | line number => exact and_congr_right fun _ => ih number false
    | other => exact ih last dotted

/-- Empty lines at the end count for nothing. -/
theorem dottedFrom_rdropWhile (last : ℕ) (dotted : Bool) (lines : List (List Char)) :
    DottedFrom count last dotted ((lines.rdropWhile (· = [])).map itemOf) ↔ DottedFrom count last dotted (lines.map itemOf) := by
  induction lines using List.reverseRecOn with
  | nil => exact Iff.rfl
  | append_singleton lines line ih =>
    by_cases hline : line = []
    · rw [List.rdropWhile_concat_pos _ _ _ (by simpa using hline), ih, List.map_append, hline]
      exact (dottedFrom_append_other last dotted _).symm
    · rw [List.rdropWhile_concat_neg _ _ _ (by simpa using hline)]

theorem dottedFrom_opened (last : ℕ) (dotted : Bool) (p : Prop) [Decidable p] (items : List Item) :
    DottedFrom count last dotted ((if p then [.dots] else []) ++ items) ↔ DottedFrom count last (dotted || decide p) items := by
  by_cases hp : p
  · rw [if_pos hp, decide_eq_true hp, Bool.or_true]
    exact Iff.rfl
  · rw [if_neg hp, decide_eq_false hp, Bool.or_false]
    exact Iff.rfl

/-- Between lines that follow each other no dots are needed. -/
theorem dottedFrom_range' (last length : ℕ) (items : List Item) :
    DottedFrom count last false ((List.range' (last + 1) length).map .line ++ items) ↔
      DottedFrom count (last + length) false items := by
  induction length generalizing last with
  | zero => exact Iff.rfl
  | succ length ih =>
    rw [List.range'_succ, List.map_cons, List.cons_append, DottedFrom, ih (last + 1), Nat.add_right_comm]
    refine and_iff_right ?_
    simp

theorem map_itemOf_windowLines {w : Window} (hstop : 0 ≤ w.stop) (content : List Char) :
    (windowLines (addLinesList content) w).map itemOf =
      (if 0 < w.start then [.dots] else []) ++
        ((if w.last (lineCount content) < w.first (lineCount content) then [.other]
          else (List.range' (w.first (lineCount content)) (w.last (lineCount content) + 1 - w.first (lineCount content))).map .line) ++
        (if w.stop < lineCount content then [.dots] else [])) := by
  have hdots (p : Prop) [Decidable p] : (if p then [dots] else []).map itemOf = if p then [.dots] else [] := by
    split_ifs
    · rw [List.map_singleton, itemOf_dots]
    · rfl
  have hitems : ((shownPairs content w).map numbered).map itemOf = ((shownPairs content w).map Prod.snd).map .line := by
    rw [List.map_map, List.map_map]
    exact List.map_congr_left fun line _ => itemOf_numbered line
  rw [windowLines_eq hstop, List.map_append, List.map_append, hdots, hdots, List.append_assoc]
  by_cases hempty : w.last (lineCount content) < w.first (lineCount content)
  · rw [if_pos hempty, if_pos hempty]
    rfl
  · rw [if_neg hempty, if_neg hempty, hitems, map_snd_shownPairs]

theorem dottedFrom_windowLines {w : Window} (hstop : 0 ≤ w.stop) (last : ℕ) (dotted : Bool) (items : List Item) :
    DottedFrom (lineCount content) last dotted ((windowLines (addLinesList content) w).map itemOf ++ items) ↔
      if w.last (lineCount content) < w.first (lineCount content) then
        DottedFrom (lineCount content) last ((dotted || decide (0 < w.start)) || decide (w.stop < lineCount content)) items
      else (((dotted || decide (0 < w.start)) = true ↔ last + 1 < w.first (lineCount content)) ∧
        DottedFrom (lineCount content) (w.last (lineCount content)) (decide (w.stop < lineCount content)) items) := by
  rw [map_itemOf_windowLines hstop, List.append_assoc, List.append_assoc, dottedFrom_opened]
  by_cases hempty : w.last (lineCount content) < w.first (lineCount content)
  · rw [if_pos hempty, if_pos hempty, List.singleton_append, DottedFrom, dottedFrom_opened]
  · rw [if_neg hempty, if_neg hempty]
    obtain ⟨length, hlength⟩ := Nat.le.dest (Nat.not_lt.mp hempty)
    have hcount : w.last (lineCount content) + 1 - w.first (lineCount content) = length + 1 := by omega
    rw [hcount, List.range'_succ, List.map_cons, List.cons_append, DottedFrom, dottedFrom_range', hlength,
      dottedFrom_opened, Bool.false_or]

theorem dottedFrom_iff_tight {windows : List Window} (hstop : ∀ w ∈ windows, 0 ≤ w.stop) (last : ℕ) (dotted : Bool) :
    DottedFrom (lineCount content) last dotted ((windows.flatMap (windowLines (addLinesList content))).map itemOf) ↔
      Tight (lineCount content) last dotted windows := by
  induction windows generalizing last dotted with
  | nil => exact Iff.rfl
  | cons w windows ih =>
    obtain ⟨hw, hwindows⟩ := List.forall_mem_cons.mp hstop
    rw [List.flatMap_cons, List.map_append, dottedFrom_windowLines hw, Tight]
    by_cases hempty : w.last (lineCount content) < w.first (lineCount content)
    · rw [if_pos hempty, if_pos hempty]
      exact ih hwindows _ _
    · rw [if_neg hempty, if_neg hempty]
      exact and_congr_right fun _ => ih hwindows _ _

theorem dottedFrom_shownLines {windows : List Window} (hstop : ∀ w ∈ windows, 0 ≤ w.stop) :
    DottedFrom (lineCount content) 0 false ((shownLines windows content).map itemOf) ↔
      Tight (lineCount content) 0 false windows := by
  rw [shownLines, dottedFrom_rdropWhile, dottedFrom_iff_tight hstop]

end

/-! ## The block of a file -/

section

variable {filename : List Char} {windows : List (List Char × List Window)} {files : List (List Char × List Char)}

theorem startLine_injective : Function.Injective startLine := fun _ _ h =>
  List.append_cancel_left (List.append_cancel_right h)

theorem startLine_ne_endLine (filename other : List Char) : startLine filename ≠ endLine other := by
  intro h
  have hsecond : 's' = 'e' := (List.cons.inj (List.cons.inj h).2).1
  exact absurd hsecond (by decide)

theorem ne_startLine_of_mem_blockLines {shown : List Window} (hstop : ∀ w ∈ shown, 0 ≤ w.stop) {other content line : List Char}
    (hother : other ≠ filename) (hline : line ∈ blockLines shown other content) : line ≠ startLine filename := by
  rcases List.mem_cons.mp hline with rfl | hline
  · exact fun h => hother (startLine_injective h)
  rcases List.mem_append.mp hline with hline | hline
  · exact ne_bracket_of_mem_shownLines hstop hline _
  · rw [List.mem_singleton.mp hline]
    exact (startLine_ne_endLine filename other).symm

theorem blockOf_blockLines {shown : List Window} (hstop : ∀ w ∈ shown, 0 ≤ w.stop) {before : List (List Char)}
    (hbefore : ∀ line ∈ before, line ≠ startLine filename) (content : List Char) (after : List (List Char)) :
    blockOf filename (before ++ (blockLines shown filename content ++ after)) = shownLines shown content := by
  have hinner : ∀ line ∈ shownLines shown content, decide (line ≠ endLine filename) = true := fun line hline =>
    decide_eq_true (ne_bracket_of_mem_shownLines hstop hline _)
  rw [blockOf, List.dropWhile_append_of_pos fun line hline => decide_eq_true (hbefore line hline), blockLines, List.cons_append,
    List.dropWhile_cons_of_neg (by simp), List.tail_cons, List.append_assoc,
    List.takeWhile_append_of_pos hinner, List.singleton_append, List.takeWhile_cons_of_neg (by simp), List.append_nil]

/-- The block of a file in a prompt holds the lines that its windows show. -/
theorem blockOf_prompt (hstop : ∀ entry ∈ windows, ∀ w ∈ entry.2, 0 ≤ w.stop) (hdistinct : (files.map Prod.fst).Nodup)
    {file : List Char × List Char} (hfile : file ∈ files) :
    blockOf file.1 (files.flatMap (blockOfFile windows)) = shownLines ((Assoc.get? file.1 windows).getD []) file.2 := by
  have hshown (name : List Char) : ∀ w ∈ (Assoc.get? name windows).getD [], 0 ≤ w.stop := by
    cases hget : Assoc.get? name windows with
    | none => exact fun w hw => absurd hw List.not_mem_nil
    | some shown => exact hstop _ (Assoc.mem_of_get? hget)
  obtain ⟨before, after, rfl⟩ := List.append_of_mem hfile
  rw [List.flatMap_append, List.flatMap_cons]
  refine blockOf_blockLines (hshown file.1) (fun line hline => ?_) file.2 _
  obtain ⟨other, hother, hline⟩ := List.mem_flatMap.mp hline
  refine ne_startLine_of_mem_blockLines (hshown other.1) (fun heq => ?_) hline
  rw [List.map_append, List.map_cons] at hdistinct
  exact (List.nodup_append.mp hdistinct).2.2 other.1 (List.mem_map_of_mem hother) file.1 List.mem_cons_self heq

end

/-! ## Which prompts show the edits -/

section

variable {e : Edit}

theorem windowsOf_eq (patch : List PatchedFile) :
    windowsOf patch = Assoc.ofPairs (patch.map fun file => (sourceName file.sourceFile, file.hunks.map Hunk.window)) := by
  rw [windowsOf, Assoc.ofPairs, List.foldl_map]

theorem get?_windowsOf (e : Edit) (name : List Char) : Assoc.get? name (windowsOf e.parsed) = e.windows? name := by
  rw [windowsOf_eq, Edit.parsed, List.map_map, Assoc.get?_ofPairs, List.filter_map, List.getLast?_map, Option.map_map]
  rfl

theorem windows?_eq_none {name : List Char} : e.windows? name = none ↔ ∀ entry ∈ e.patch, sourceName entry.1.text ≠ name := by
  rw [Edit.windows?, Option.map_eq_none_iff, List.getLast?_eq_none_iff, List.filter_eq_nil_iff]
  exact forall₂_congr fun entry _ => by rw [decide_eq_true_iff]

theorem sourceName_file (name : List Char) : sourceName (Source.file name).text = name := rfl

theorem Hunk.window_stop_nonneg (hunk : Hunk) : 0 ≤ hunk.window.stop := by
  simp only [Hunk.window]
  omega

theorem windowsOf_stop_nonneg (patch : List PatchedFile) : ∀ entry ∈ windowsOf patch, ∀ w ∈ entry.2, 0 ≤ w.stop := by
  rw [windowsOf_eq]
  refine (Assoc.ofPairs_spec fun entry hentry => ?_).2
  obtain ⟨file, -, rfl⟩ := List.mem_map.mp hentry
  exact List.forall_mem_map.mpr fun hunk _ => hunk.window_stop_nonneg

/-- A patch names its files in one line. -/
theorem Edit.notMem_sourceName (e : Edit) {entry : Source × List Hunk} (hentry : entry ∈ e.patch) :
    '\n' ∉ sourceName entry.1.text := by
  obtain ⟨source, hunks⟩ := entry
  cases source with
  | file name => exact (e.found name hunks hentry).1
  | devNull =>
    have hnull : '\n' ∉ sourceName Source.devNull.text := by decide
    exact hnull

def Edit.promptLines (e : Edit) : List (List Char) := e.files.flatMap (blockOfFile (windowsOf e.parsed))

theorem prompt_eq (hpatched : e.Patched) : e.prompt = .ok (List.intercalate ['\n'] e.promptLines) := by
  refine prompt_lines (fun file hfile => ?_) fun file hfile => ?_
  · obtain ⟨entry, hentry, hname⟩ := hpatched file hfile
    rw [← hname]
    exact e.notMem_sourceName hentry
  · obtain ⟨entry, hentry, hname⟩ := hpatched file hfile
    rw [get?_windowsOf]
    exact fun hnone => windows?_eq_none.mp hnone entry hentry hname

theorem patched_of_prompt {text : List Char} (h : e.prompt = .ok text) : e.Patched := by
  intro file hfile
  by_contra hmissing
  have hnone : Assoc.get? file.1 (windowsOf e.parsed) = none := by
    rw [get?_windowsOf]
    exact windows?_eq_none.mpr fun entry hentry hname => hmissing ⟨entry, hentry, hname⟩
  obtain ⟨err, herr⟩ := addFiles_missing hfile hnone []
  rw [Edit.prompt, makeCodeTextEditsOnly, herr] at h
  cases h

/-- A line of a hunk that is inside of a file is one of its lines. -/
theorem Hunk.Inside.exists_line {hunk : Hunk} {content : List Char} (h : hunk.Inside content) {k : ℕ} (hstart : hunk.sourceStart ≤ k)
    (hend : k < hunk.sourceStart + hunk.sourceLength) : ∃ line, (line, k) ∈ (split ['\n'] content).zipIdx 1 := by
  have hpos := h.1 (by omega)
  have hcount := h.2
  rw [lineCount] at hcount
  have hlt : k - 1 < (split ['\n'] content).length := by omega
  refine ⟨(split ['\n'] content)[k - 1], List.mem_iff_getElem?.mpr ⟨k - 1, ?_⟩⟩
  rw [List.getElem?_zipIdx, List.getElem?_eq_getElem hlt, Option.map_some, Nat.add_sub_cancel' (by omega)]

/-- The window of a hunk holds its lines unless it is above line fifteen of a file that has as many. -/
theorem Hunk.Inside.window_iff {hunk : Hunk} {content : List Char} (h : hunk.Inside content) (hlength : 0 < hunk.sourceLength) :
    (∀ k, hunk.sourceStart ≤ k → k < hunk.sourceStart + hunk.sourceLength →
      hunk.window.first (lineCount content) ≤ k ∧ k ≤ hunk.window.last (lineCount content)) ↔
    15 ≤ hunk.sourceStart ∨ lineCount content < 15 := by
  have hpos := h.1 hlength
  have hcount := h.2
  have hlast : hunk.window.last (lineCount content) = min (hunk.sourceStart + hunk.sourceLength) (lineCount content) := by
    rw [Window.last, Hunk.window]
    dsimp only
    congr 1
    omega
  have hfirst : hunk.window.first (lineCount content) =
      if 15 ≤ hunk.sourceStart then hunk.sourceStart - 15 + 1 else lineCount content - (15 - hunk.sourceStart) + 1 := by
    rw [Window.first, Hunk.window]
    dsimp only
    by_cases hstart : 15 ≤ hunk.sourceStart
    · rw [if_pos hstart, if_pos (by omega)]
      omega
    · rw [if_neg hstart, if_neg (by omega)]
      omega
  rw [hfirst, hlast]
  by_cases hstart : 15 ≤ hunk.sourceStart
  · rw [if_pos hstart]
    exact ⟨fun _ => .inl hstart, fun _ k hstart hend => by omega⟩
  · rw [if_neg hstart]
    refine ⟨fun hlines => ?_, fun hcases k hstart hend => by omega⟩
    obtain ⟨hbelow, -⟩ := hlines hunk.sourceStart le_rfl (by omega)
    omega

theorem showsFile_iff {windows : List Window} {text filename content : List Char} {hunks : List Hunk}
    (hblock : blockOf filename (split ['\n'] text) = shownLines windows content) (hstop : ∀ w ∈ windows, 0 ≤ w.stop)
    (hinside : ∀ hunk ∈ hunks, hunk.Inside content) :
    ShowsFile text filename content hunks ↔
      (∀ hunk ∈ hunks, ∀ k, hunk.sourceStart ≤ k → k < hunk.sourceStart + hunk.sourceLength →
        ∃ w ∈ windows, w.first (lineCount content) ≤ k ∧ k ≤ w.last (lineCount content)) ∧
      Tight (lineCount content) 0 false windows := by
  constructor
  · intro h
    refine ⟨fun hunk hhunk k hstart hend => ?_, ?_⟩
    · obtain ⟨line, hline⟩ := (hinside hunk hhunk).exists_line hstart hend
      have hshown := h.lines hunk hhunk (line, k) hline hstart hend
      rw [hblock] at hshown
      exact (numbered_mem_shownLines hstop hline).mp hshown
    · have hdots := h.dots
      rw [hblock] at hdots
      exact (dottedFrom_shownLines hstop).mp hdots
  · rintro ⟨hlines, htight⟩
    refine ⟨fun hunk hhunk line hline hstart hend => ?_, ?_⟩
    · rw [hblock]
      exact (numbered_mem_shownLines hstop hline).mpr (hlines hunk hhunk line.2 hstart hend)
    · rw [hblock]
      exact (dottedFrom_shownLines hstop).mpr htight

theorem Edit.inside (e : Edit) {name content : List Char} {hunks : List Hunk} (hpatch : (Source.file name, hunks) ∈ e.patch)
    (hfile : (name, content) ∈ e.files) : ∀ hunk ∈ hunks, hunk.Inside content := by
  obtain ⟨-, own, hown, hinside⟩ := e.found name hunks hpatch
  have heq : own = content := by
    have hget := Assoc.get?_of_mem e.distinct hown
    rw [Assoc.get?_of_mem e.distinct hfile] at hget
    exact (Option.some.inj hget).symm
  rw [← heq]
  exact hinside

theorem split_promptLines (hpatched : e.Patched) (hne : e.files ≠ []) :
    split ['\n'] (List.intercalate ['\n'] e.promptLines) = e.promptLines := by
  obtain ⟨first, files, hfiles⟩ := List.exists_cons_of_ne_nil hne
  refine split_intercalate (fun hnil => ?_) fun line hline => ?_
  · rw [Edit.promptLines, hfiles, List.flatMap_cons] at hnil
    exact absurd (List.append_eq_nil_iff.mp hnil).1 (List.cons_ne_nil _ _)
  · obtain ⟨file, hfile, hline⟩ := List.mem_flatMap.mp hline
    obtain ⟨entry, hentry, hname⟩ := hpatched file hfile
    exact notMem_blockLines (hname ▸ e.notMem_sourceName hentry) _ _ line hline

theorem exists_windows (hpatched : e.Patched) {name content : List Char} {hunks : List Hunk}
    (hpatch : (Source.file name, hunks) ∈ e.patch) (hfile : (name, content) ∈ e.files) :
    ∃ windows, e.windows? name = some windows ∧
      (ShowsFile (List.intercalate ['\n'] e.promptLines) name content hunks ↔
        (∀ hunk ∈ hunks, ∀ k, hunk.sourceStart ≤ k → k < hunk.sourceStart + hunk.sourceLength →
          ∃ w ∈ windows, w.first (lineCount content) ≤ k ∧ k ≤ w.last (lineCount content)) ∧
        Tight (lineCount content) 0 false windows) := by
  obtain ⟨windows, hwindows⟩ := Option.ne_none_iff_exists'.mp fun hnone =>
    windows?_eq_none.mp hnone (Source.file name, hunks) hpatch (sourceName_file name)
  have hget : Assoc.get? name (windowsOf e.parsed) = some windows := by rw [get?_windowsOf, hwindows]
  have hstop : ∀ w ∈ windows, 0 ≤ w.stop := windowsOf_stop_nonneg e.parsed _ (Assoc.mem_of_get? hget)
  have hblock : blockOf name e.promptLines = shownLines windows content := by
    have hfound := blockOf_prompt (windowsOf_stop_nonneg e.parsed) e.distinct hfile
    rw [hget] at hfound
    exact hfound
  rw [← split_promptLines hpatched (List.ne_nil_of_mem hfile)] at hblock
  exact ⟨windows, hwindows, showsFile_iff hblock hstop (e.inside hpatch hfile)⟩

/-- The edits are shown exactly when the windows of each file hold its hunks and dots are where they should be. -/
theorem showsEdits_iff (e : Edit) : ShowsEdits e ↔ Windowed e := by
  constructor
  · rintro ⟨text, htext, h⟩
    have hpatched := patched_of_prompt htext
    obtain rfl := Except.ok.inj (htext.symm.trans (prompt_eq hpatched))
    refine ⟨hpatched, fun name hunks hpatch content hfile hunk hhunk k hstart hend => ?_,
      fun name hunks hpatch content hfile windows hwindows => ?_⟩
    · obtain ⟨windows, hwindows, hiff⟩ := exists_windows hpatched hpatch hfile
      exact ⟨windows, hwindows, (hiff.mp (h name hunks hpatch content hfile)).1 hunk hhunk k hstart hend⟩
    · obtain ⟨own, hown, hiff⟩ := exists_windows hpatched hpatch hfile
      obtain rfl := Option.some.inj (hown.symm.trans hwindows)
      exact (hiff.mp (h name hunks hpatch content hfile)).2
  · intro h
    refine ⟨_, prompt_eq h.patched, fun name hunks hpatch content hfile => ?_⟩
    obtain ⟨windows, hwindows, hiff⟩ := exists_windows h.patched hpatch hfile
    refine hiff.mpr ⟨fun hunk hhunk k hstart hend => ?_, h.tight name hunks hpatch content hfile windows hwindows⟩
    obtain ⟨own, hown, hw⟩ := h.shown name hunks hpatch content hfile hunk hhunk k hstart hend
    obtain rfl := Option.some.inj (hown.symm.trans hwindows)
    exact hw

end

/-- A change to the first of sixteen lines. -/
def firstLine : Edit where
  files := [(['f'], List.replicate 15 '\n')]
  patch := [(.file ['f'], [⟨1, 1⟩])]
  distinct := List.nodup_singleton _
  found := by
    intro name hunks h
    obtain ⟨rfl, rfl⟩ : name = ['f'] ∧ hunks = [⟨1, 1⟩] := by simpa using h
    refine ⟨by decide, _, List.mem_singleton_self _, List.forall_mem_singleton.mpr ⟨fun _ => ?_, ?_⟩⟩
    · decide
    · decide

theorem not_showsEdits : ¬ ∀ e, ShowsEdits e := by
  intro h
  obtain ⟨text, htext, hfiles⟩ := h firstLine
  have hprompt : firstLine.prompt = .ok "[start of f]\n\n...\n[end of f]".toList := by decide
  obtain rfl := Except.ok.inj (hprompt.symm.trans htext)
  have hshown := (hfiles ['f'] [⟨1, 1⟩] (List.mem_singleton_self _) _ (List.mem_singleton_self _)).lines ⟨1, 1⟩
    (List.mem_singleton_self _) ([], 1) (by decide) (by decide) (by decide)
  revert hshown
  decide

end OpenHands.CodeText
