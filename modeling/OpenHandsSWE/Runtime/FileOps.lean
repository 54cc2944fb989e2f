import OpenHandsSWE.Lib.JsonText
import OpenHandsSWE.Lib.Splitlines
import OpenHandsSWE.Runtime.Files

/-! Opening a file in the agent's editor and scrolling through it, window by window. -/

namespace OpenHands

open Text

namespace FileOps

def WINDOW : ℤ := 100

def clamp (value minValue maxValue : ℤ) : ℤ := max minValue (min value maxValue)

/-! ## The window -/

/-- The first and the last line that a window shows. -/
def windowRange (currentLine window totalLines : ℤ) (ignoreWindow : Bool) : ℤ × ℤ :=
  let halfWindow := max 1 (window / 2)
  let start := if ignoreWindow then max 1 currentLine else max 1 (currentLine - halfWindow)
  let stop := if ignoreWindow then min totalLines (currentLine + window) else min totalLines (currentLine + halfWindow)
  let stop := if start = 1 then min totalLines (start + window - 1) else stop
  let start := if stop = totalLines then max 1 (stop - window + 1) else start
  (start, stop)

structure Window where
  start : ℤ
  stop : ℤ
  totalLines : ℤ
deriving DecidableEq

def Window.atEnd (w : Window) : Bool := w.stop = w.totalLines

def decimal (n : ℤ) : List Char := Json.dumpsInt n

def Window.output (w : Window) (lines : List (List Char)) : List Char :=
  let head :=
    if 1 < w.start then "(".toList ++ decimal (w.start - 1) ++ " more lines above)\n".toList
    else "(this is the beginning of the file)\n".toList
  let numbered := (lines.zipIdx 1).filter fun line => w.start ≤ line.2 ∧ line.2 ≤ w.stop
  let body := numbered.flatMap fun line =>
    let newLine := decimal line.2 ++ '|' :: line.1
    if ['\n'] <:+ newLine then newLine else newLine ++ ['\n']
  let tail :=
    if w.stop < w.totalLines then "(".toList ++ decimal (w.totalLines - w.stop) ++ " more lines below)\n".toList
    else "(this is the end of the file)\n".toList
  rstrip (head ++ body ++ tail)

/-! ## The editor -/

/-- The files under their absolute paths, as they lie on the disk. -/
structure Host where
  abspath : String → String
  disk : String → Option (List Char)

/-- `CURRENT_FILE` and `CURRENT_LINE`. -/
structure Session where
  currentFile : Option String := none
  currentLine : ℤ := 1
deriving DecidableEq

inductive Shown where
  | error (message : String)
  | window (output : List Char) (w : Window)
deriving DecidableEq

def content (host : Host) (file : String) : Option (List Char) := (host.disk file).map Files.universalNewlines

/-- `max(1, sum(1 for _ in file))`. -/
def totalLines (text : List Char) : ℤ := max 1 (keepLines '\n' text).length

/-- The lines of the window: a text that does not end in a newline gets one. -/
def windowLines (text : List Char) : List (List Char) :=
  splitlines (if ['\n'] <:+ text then text else text ++ ['\n'])

def curFileHeader (file : String) (total : ℤ) : List Char :=
  "[File: ".toList ++ file.toList ++ " (".toList ++ decimal total ++ " lines total)]\n".toList

/-- The window, and the line that becomes the current one. -/
def printWindow (text : List Char) (targetedLine window : ℤ) (ignoreWindow : Bool) : ℤ × Window :=
  let total : ℤ := (windowLines text).length
  let currentLine := clamp targetedLine 1 total
  let range := windowRange currentLine window total ignoreWindow
  (currentLine, ⟨range.1, range.2, total⟩)

def openFile (host : Host) (session : Session) (path : String) (lineNumber : Option ℤ := some 1)
    (contextLines : Option ℤ := some WINDOW) : Session × Shown :=
  let file := host.abspath path
  match content host file with
  | none => (session, .error ("File " ++ path ++ " not found."))
  | some text =>
    let total := totalLines text
    match lineNumber with
    | none => ({ session with currentFile := some file }, .error ("Line number must be between 1 and " ++ toString total))
    | some line =>
      if line < 1 ∨ total < line then
        ({ session with currentFile := some file }, .error ("Line number must be between 1 and " ++ toString total))
      else
        let context := (contextLines.filter fun n => 1 ≤ n).getD WINDOW
        let printed := printWindow text line (clamp context 1 100) false
        let output := curFileHeader file total ++ printed.2.output (windowLines text)
        let hint := if "more lines below)".toList <:+ strip output then
          "\n[Use `scroll_down` to view the next 100 lines of the file!]".toList else []
        (⟨some file, printed.1⟩, .window (output ++ hint) printed.2)

/-- What `scroll_down` and `scroll_up` have in common. -/
def scroll (host : Host) (session : Session) (step : ℤ) : Session × Shown :=
  match session.currentFile.bind fun file => (content host file).map fun text => (file, text) with
  | none => (session, .error "No file open. Use the open_file function first.")
  | some (file, text) =>
    let total := totalLines text
    let printed := printWindow text (clamp (session.currentLine + step) 1 total) WINDOW true
    (⟨some file, printed.1⟩, .window (curFileHeader file total ++ printed.2.output (windowLines text)) printed.2)

def scrollDown (host : Host) (session : Session) : Session × Shown := scroll host session WINDOW

def scrollUp (host : Host) (session : Session) : Session × Shown := scroll host session (-WINDOW)

/-- What is shown first, and then by each call of `scroll_down`. -/
def views (host : Host) (opened : Session × Shown) : ℕ → Session × Shown
  | 0 => opened
  | k + 1 => scrollDown host (views host opened k).1

def Shown.window? : Shown → Option Window
  | .error _ => none
  | .window _ w => some w

/-- The end is shown after some calls, and by then every line from the first one displayed on was. -/
def ShowsAll (host : Host) (opened : Session × Shown) : Prop :=
  ∃ k first last, (views host opened 0).2.window? = some first ∧ (views host opened k).2.window? = some last ∧
    last.atEnd = true ∧ (∀ j < k, ∀ w ∈ (views host opened j).2.window?, w.atEnd = false) ∧
    ∀ i, first.start ≤ i → i ≤ last.totalLines →
      ∃ j ≤ k, ∃ w ∈ (views host opened j).2.window?, w.start ≤ i ∧ i ≤ w.stop

/-- The last line of the first window. -/
def firstStop (line context total : ℤ) : ℤ :=
  let halfWindow := max 1 (context / 2)
  if line ≤ halfWindow + 1 then min total context else min total (line + halfWindow)

/-- The first window reaches the end, or the windows get there and leave no gap behind the first one. -/
def Gapless (counted total line context : ℤ) : Prop :=
  firstStop line context total = total ∨ (total ≤ 100 ∨ 2 ≤ counted ∧ total ≤ counted + 100) ∧
    (total ≤ firstStop line context total + 100 ∨ line = 1 ∧ context = 100 ∧ 201 < total)

instance (counted total line context : ℤ) : Decidable (Gapless counted total line context) := by
  unfold Gapless
  infer_instance

/-! ## Single windows -/

section

variable {line context total counted : ℤ}

theorem windowRange_first (hline : 1 ≤ line) (hcontext : 1 ≤ context) :
    (windowRange line context total false).2 = firstStop line context total := by
  unfold windowRange firstStop
  simp only [Bool.false_eq_true, if_false]
  split_ifs <;> omega

theorem windowRange_scrolled (hline : 2 ≤ line) :
    windowRange line WINDOW total true = (if total ≤ line + 100 then max 1 (total - 99) else line, min total (line + 100)) := by
  have hstart : ¬ max 1 line = 1 := by omega
  unfold windowRange WINDOW
  simp only [if_true, if_neg hstart]
  by_cases hend : total ≤ line + 100
  · rw [if_pos (min_eq_left hend), if_pos hend, min_eq_left hend]
    exact Prod.ext (by dsimp only; omega) rfl
  · rw [if_neg (by omega), if_neg hend]
    exact Prod.ext (by dsimp only; omega) rfl

theorem windowRange_one (htotal : 1 ≤ total) : windowRange 1 WINDOW total true = (1, min total 100) := by
  unfold windowRange WINDOW
  dsimp only
  simp only [if_true, max_self]
  refine Prod.ext ?_ ?_
  · dsimp only
    split_ifs <;> omega
  · dsimp only
    omega

/-- Windows that leave no gap between them show all from the first line to the last. -/
theorem covered {start stop : ℕ → ℤ} {k : ℕ} (h : ∀ j < k, start (j + 1) ≤ stop j + 1) {i : ℤ} (hstart : start 0 ≤ i)
    (hstop : i ≤ stop k) : ∃ j ≤ k, start j ≤ i ∧ i ≤ stop j := by
  induction k with
  | zero => exact ⟨0, le_rfl, hstart, hstop⟩
  | succ k ih =>
    by_cases hi : i ≤ stop k
    · obtain ⟨j, hj, hshown⟩ := ih (fun j hj => h j (Nat.lt_succ_of_lt hj)) hi
      exact ⟨j, Nat.le_succ_of_le hj, hshown⟩
    · have hnext := h k (Nat.lt_succ_self k)
      exact ⟨k + 1, le_rfl, by omega, hstop⟩

/-- The line that is current after `k` calls of `scroll_down`. -/
def lineAfter (counted line : ℤ) (k : ℕ) : ℤ := min (line + 100 * k) counted

/-- The window after `k` calls. -/
def windowAfter (counted total line context : ℤ) : ℕ → Window
  | 0 => ⟨(windowRange line context total false).1, (windowRange line context total false).2, total⟩
  | k + 1 =>
    let range := windowRange (lineAfter counted line (k + 1)) WINDOW total true
    ⟨range.1, range.2, total⟩

end

/-! ## A run of windows -/

section

variable {counted total line context : ℤ}

theorem lineAfter_le (k : ℕ) : lineAfter counted line k ≤ counted := min_le_right _ _

theorem le_lineAfter (hline : line ≤ counted) (k : ℕ) : line ≤ lineAfter counted line k :=
  le_min (by omega) hline

theorem lineAfter_succ (k : ℕ) (hline : 1 ≤ line) :
    lineAfter counted line (k + 1) = min (lineAfter counted line k + 100) counted := by
  unfold lineAfter
  push_cast
  omega

theorem windowAfter_zero (hline : 1 ≤ line) (hcontext : 1 ≤ context) :
    (windowAfter counted total line context 0).stop = firstStop line context total :=
  windowRange_first hline hcontext

section

variable (hline : 1 ≤ line) (hcounted : line ≤ counted) (htotal : counted ≤ total)
include hline hcounted htotal

/-- A later window, by whether its line is past the first and whether it reaches the end. -/
theorem windowAfter_succ (context : ℤ) (k : ℕ) : let w := windowAfter counted total line context (k + 1)
    let l := lineAfter counted line (k + 1)
    (l = 1 ∧ counted = 1 ∧ w.start = 1 ∧ w.stop = min total 100) ∨
      (2 ≤ l ∧ total ≤ l + 100 ∧ w.start = max 1 (total - 99) ∧ w.stop = total) ∨
      (2 ≤ l ∧ l + 100 < total ∧ w.start = l ∧ w.stop = l + 100) := by
  intro w l
  have hl : line ≤ l := le_lineAfter hcounted (k + 1)
  have hw : w = ⟨(windowRange l WINDOW total true).1, (windowRange l WINDOW total true).2, total⟩ := rfl
  have hsucc : l = min (line + 100 * ((k + 1 : ℕ) : ℤ)) counted := rfl
  rcases eq_or_lt_of_le (hline.trans hl) with hone | htwo
  · left
    rw [← hone, windowRange_one (hline.trans (hcounted.trans htotal))] at hw
    rw [hw]
    exact ⟨hone.symm, by omega, rfl, rfl⟩
  · right
    rw [windowRange_scrolled htwo] at hw
    by_cases hend : total ≤ l + 100
    · left
      rw [if_pos hend] at hw
      rw [hw]
      exact ⟨htwo, hend, rfl, min_eq_left hend⟩
    · right
      rw [if_neg hend] at hw
      rw [hw]
      exact ⟨htwo, by omega, rfl, min_eq_right (by omega)⟩

theorem atEnd_iff (k : ℕ) : (windowAfter counted total line context (k + 1)).atEnd = true ↔
    (counted = 1 ∧ total ≤ 100) ∨ (2 ≤ counted ∧ total ≤ lineAfter counted line (k + 1) + 100) := by
  have hle : lineAfter counted line (k + 1) ≤ counted := lineAfter_le (k + 1)
  have hw : (windowAfter counted total line context (k + 1)).totalLines = total := rfl
  have htwo : 2 ≤ counted → 2 ≤ lineAfter counted line (k + 1) := by
    intro h
    unfold lineAfter
    omega
  rw [Window.atEnd, decide_eq_true_eq, hw]
  rcases windowAfter_succ hline hcounted htotal context k with ⟨h1, h2, -, h3⟩ | ⟨h1, h2, -, h3⟩ | ⟨h1, h2, -, h3⟩
  all_goals
    rw [h3]
    omega

/-- From one later window to the next there is no gap, as long as the end is not shown. -/
theorem start_succ_le (k : ℕ) (hnot : (windowAfter counted total line context (k + 1)).atEnd = false) :
    (windowAfter counted total line context (k + 2)).start ≤ (windowAfter counted total line context (k + 1)).stop + 1 := by
  have hsucc : lineAfter counted line (k + 1 + 1) = min (lineAfter counted line (k + 1) + 100) counted :=
    lineAfter_succ (k + 1) hline
  have hstop : (windowAfter counted total line context (k + 1)).stop ≠ total := by
    intro h
    rw [Window.atEnd, h] at hnot
    exact absurd hnot (by simp [windowAfter])
  rcases windowAfter_succ hline hcounted htotal context k with ⟨h1, h2, -, h3⟩ | ⟨h1, h2, -, h3⟩ | ⟨h1, h2, -, h3⟩
  all_goals
    rcases windowAfter_succ hline hcounted htotal context (k + 1) with ⟨h4, h5, h6, -⟩ | ⟨h4, h5, h6, -⟩ | ⟨h4, h5, h6, -⟩
  all_goals
    rw [h6, h3]
    omega

theorem firstStop_bounds (hcontext : 1 ≤ context) :
    1 ≤ firstStop line context total ∧ firstStop line context total ≤ total := by
  unfold firstStop
  dsimp only
  split_ifs <;> omega

/-- The first window begins no later than after its last line. -/
theorem start_zero_le (hcontext : 1 ≤ context) (hnot : firstStop line context total ≠ total) :
    (windowAfter counted total line context 0).start ≤ firstStop line context total + 1 := by
  rw [← windowRange_first hline hcontext] at hnot ⊢
  unfold windowAfter windowRange at *
  simp only [Bool.false_eq_true, if_false] at *
  split_ifs at * <;> omega

theorem atEnd_zero_iff (hcontext : 1 ≤ context) :
    (windowAfter counted total line context 0).atEnd = true ↔ firstStop line context total = total := by
  rw [Window.atEnd, decide_eq_true_eq, windowAfter_zero hline hcontext]
  rfl

/-- The run gets to the end when the windows can. -/
theorem exists_atEnd (hreach : total ≤ 100 ∨ 2 ≤ counted ∧ total ≤ counted + 100) :
    ∃ k, (windowAfter counted total line context k).atEnd = true := by
  refine ⟨counted.toNat + 1, (atEnd_iff hline hcounted htotal _).mpr ?_⟩
  have hlast : lineAfter counted line (counted.toNat + 1) = counted := by
    unfold lineAfter
    push_cast
    omega
  omega

/-- No later window begins before the one after the first. -/
theorem start_one_le (k : ℕ) : (windowAfter counted total line context 1).start ≤
    (windowAfter counted total line context (k + 1)).start := by
  have hone : lineAfter counted line (0 + 1) = min (line + 100) counted := by simp [lineAfter]
  have hmono : lineAfter counted line (0 + 1) ≤ lineAfter counted line (k + 1) := by
    rw [hone]
    unfold lineAfter
    push_cast
    omega
  rcases windowAfter_succ hline hcounted htotal context 0 with ⟨h1, h2, h3, -⟩ | ⟨h1, h2, h3, -⟩ | ⟨h1, h2, h3, -⟩
  all_goals
    rcases windowAfter_succ hline hcounted htotal context k with ⟨h4, h5, h6, -⟩ | ⟨h4, h5, h6, -⟩ | ⟨h4, h5, h6, -⟩
  all_goals rw [h3, h6]
  all_goals omega

/-- After the first window there is a gap unless few lines are left or it showed the first hundred. -/
theorem start_one_le_iff (hcontext : 1 ≤ context ∧ context ≤ 100)
    (hreach : total ≤ 100 ∨ 2 ≤ counted ∧ total ≤ counted + 100) :
    (windowAfter counted total line context 1).start ≤ firstStop line context total + 1 ↔
      total ≤ firstStop line context total + 100 ∨ line = 1 ∧ context = 100 ∧ 201 < total := by
  have hone : lineAfter counted line (0 + 1) = min (line + 100) counted := by simp [lineAfter]
  have hstop : firstStop line context total =
      if line ≤ max 1 (context / 2) + 1 then min total context else min total (line + max 1 (context / 2)) := rfl
  rcases windowAfter_succ hline hcounted htotal context 0 with ⟨h1, h2, h3, -⟩ | ⟨h1, h2, h3, -⟩ | ⟨h1, h2, h3, -⟩
  all_goals
    rw [h3]
    split_ifs at hstop <;> omega

/-- All is shown exactly when the run of windows leaves no gap and gets to the end. -/
theorem gapless_iff (hcontext : 1 ≤ context ∧ context ≤ 100) :
    (∃ k, (windowAfter counted total line context k).atEnd = true ∧
      (∀ j < k, (windowAfter counted total line context j).atEnd = false) ∧
      ∀ i, (windowAfter counted total line context 0).start ≤ i → i ≤ total →
        ∃ j ≤ k, (windowAfter counted total line context j).start ≤ i ∧ i ≤ (windowAfter counted total line context j).stop) ↔
      Gapless counted total line context := by
  have hzero : (windowAfter counted total line context 0).stop = firstStop line context total :=
    windowAfter_zero hline hcontext.1
  have hend : (windowAfter counted total line context 0).atEnd = true ↔ firstStop line context total = total :=
    atEnd_zero_iff hline hcounted htotal hcontext.1
  constructor
  · rintro ⟨k, hk, hbefore, hshown⟩
    by_cases hfirst : firstStop line context total = total
    · exact .inl hfirst
    right
    cases k with
    | zero => exact absurd (hend.mp hk) hfirst
    | succ k =>
      have hreach : total ≤ 100 ∨ 2 ≤ counted ∧ total ≤ counted + 100 := by
        have hle : lineAfter counted line (k + 1) ≤ counted := lineAfter_le (k + 1)
        have hlast := (atEnd_iff hline hcounted htotal k).mp hk
        omega
      refine ⟨hreach, (start_one_le_iff hline hcounted htotal hcontext hreach).mp ?_⟩
      -- the line after the first window is in a later one
      have hbounds : 1 ≤ firstStop line context total ∧ firstStop line context total ≤ total :=
        firstStop_bounds hline hcounted htotal hcontext.1
      obtain ⟨j, -, hstart, hstop⟩ := hshown (firstStop line context total + 1)
        (start_zero_le hline hcounted htotal hcontext.1 hfirst) (by omega)
      cases j with
      | zero => omega
      | succ j => exact (start_one_le hline hcounted htotal j).trans hstart
  · intro h
    obtain ⟨k, hk, hbefore⟩ : ∃ k, (windowAfter counted total line context k).atEnd = true ∧
        ∀ j < k, (windowAfter counted total line context j).atEnd = false := by
      have hexists : ∃ k, (windowAfter counted total line context k).atEnd = true := by
        rcases h with h | ⟨hreach, -⟩
        · exact ⟨0, hend.mpr h⟩
        · exact exists_atEnd hline hcounted htotal hreach
      exact ⟨Nat.find hexists, Nat.find_spec hexists, fun j hj => Bool.eq_false_iff.mpr (Nat.find_min hexists hj)⟩
    refine ⟨k, hk, hbefore, fun i hstart hstop => covered ?_ hstart ?_⟩
    · intro j hj
      cases j with
      | zero =>
        have hfirst : firstStop line context total ≠ total := fun heq => by
          have hzeroEnd := hbefore 0 hj
          rw [hend.mpr heq] at hzeroEnd
          exact absurd hzeroEnd (by decide)
        obtain ⟨hreach, hgap⟩ := h.resolve_left hfirst
        rw [hzero]
        exact (start_one_le_iff hline hcounted htotal hcontext hreach).mpr hgap
      | succ j => exact start_succ_le hline hcounted htotal j (hbefore (j + 1) hj)
    · have hlast : (windowAfter counted total line context k).totalLines = total := by cases k <;> rfl
      rw [Window.atEnd, decide_eq_true_eq, hlast] at hk
      rw [hk]
      exact hstop

end

end

section

variable {host : Host} {file : String} {text : List Char} {line : ℤ}

/-- The window counts no fewer lines than the file has newlines for. -/
theorem totalLines_le (text : List Char) : totalLines text ≤ (windowLines text).length := by
  unfold totalLines windowLines
  split_ifs with hended
  · have hne : text ≠ [] := by
      rintro rfl
      exact absurd hended (by decide)
    have hpos := length_keepLines_pos hne
    have hle := length_keepLines_le text
    omega
  · obtain ⟨ps, r, hps, hr, rfl⟩ := exists_ended '\n' text
    have hle := length_keepLines_le (ended '\n' ps ++ r ++ ['\n'])
    have hmore : ended '\n' ps ++ r ++ ['\n'] = ended '\n' (ps ++ [r]) ++ [] := by
      rw [ended_append, ended_cons]
      simp [ended]
    rw [hmore, keepLines_ended (by simpa [or_imp, forall_and] using ⟨hps, hr⟩) List.not_mem_nil] at hle
    rw [keepLines_ended hps hr, hmore]
    unfold lastLine at *
    split_ifs <;> simp at * <;> omega

theorem one_le_totalLines (text : List Char) : 1 ≤ totalLines text := le_max_left _ _

theorem clamp_of_mem {value low high : ℤ} (hlow : low ≤ value) (hhigh : value ≤ high) : clamp value low high = value := by
  unfold clamp
  omega

theorem printWindow_eq {line window : ℤ} (ignoreWindow : Bool) (hline : 1 ≤ line) (htotal : line ≤ totalLines text) :
    printWindow text line window ignoreWindow =
      (line, ⟨(windowRange line window (windowLines text).length ignoreWindow).1,
        (windowRange line window (windowLines text).length ignoreWindow).2, (windowLines text).length⟩) := by
  unfold printWindow
  dsimp only
  rw [clamp_of_mem hline (htotal.trans (totalLines_le text))]

/-- What a call of `scroll_down` leaves and shows. -/
theorem scrollDown_eq {k : ℕ} (htext : content host file = some text) (hline : 1 ≤ line) (htotal : line ≤ totalLines text)
    (context : ℤ) : (scrollDown host ⟨some file, lineAfter (totalLines text) line k⟩).1 =
        ⟨some file, lineAfter (totalLines text) line (k + 1)⟩ ∧
      (scrollDown host ⟨some file, lineAfter (totalLines text) line k⟩).2.window? =
        some (windowAfter (totalLines text) (windowLines text).length line context (k + 1)) := by
  have hnow := hline.trans (le_lineAfter htotal k)
  have hnext : clamp (lineAfter (totalLines text) line k + WINDOW) 1 (totalLines text) =
      lineAfter (totalLines text) line (k + 1) := by
    rw [lineAfter_succ k hline]
    unfold clamp WINDOW
    have hpos := one_le_totalLines text
    omega
  unfold scrollDown scroll
  simp only [Option.bind_some, htext, Option.map_some, hnext,
    printWindow_eq true (hline.trans (le_lineAfter htotal (k + 1))) (lineAfter_le (k + 1))]
  exact ⟨trivial, rfl⟩

end

/-- The number of lines that the first window is asked for. -/
def contextOf (contextLines : Option ℤ) : ℤ := clamp ((contextLines.filter fun n => 1 ≤ n).getD WINDOW) 1 100

theorem contextOf_mem (contextLines : Option ℤ) : 1 ≤ contextOf contextLines ∧ contextOf contextLines ≤ 100 := by
  unfold contextOf clamp
  omega

section

variable {host : Host} {path : String} {text : List Char} {line : ℤ} (session : Session) (contextLines : Option ℤ)
  (htext : content host (host.abspath path) = some text) (hline : 1 ≤ line) (htotal : line ≤ totalLines text)
include htext hline htotal

theorem openFile_eq : (openFile host session path (some line) contextLines).1 = ⟨some (host.abspath path), line⟩ ∧
    (openFile host session path (some line) contextLines).2.window? =
      some (windowAfter (totalLines text) (windowLines text).length line (contextOf contextLines) 0) := by
  have hvalid : ¬ (line < 1 ∨ totalLines text < line) := by omega
  unfold openFile
  simp only [htext, if_neg hvalid, printWindow_eq false hline htotal]
  exact ⟨trivial, rfl⟩

/-- All that is shown after the file was opened. -/
theorem views_eq (k : ℕ) : (views host (openFile host session path (some line) contextLines) k).1 =
      ⟨some (host.abspath path), lineAfter (totalLines text) line k⟩ ∧
    (views host (openFile host session path (some line) contextLines) k).2.window? =
      some (windowAfter (totalLines text) (windowLines text).length line (contextOf contextLines) k) := by
  induction k with
  | zero =>
    have hzero : lineAfter (totalLines text) line 0 = line := by
      unfold lineAfter
      omega
    rw [hzero]
    exact openFile_eq session contextLines htext hline htotal
  | succ k ih =>
    rw [views, ih.1]
    exact scrollDown_eq htext hline htotal (contextOf contextLines)

/-- What is shown, in terms of the windows. -/
theorem showsAll_windows : ShowsAll host (openFile host session path (some line) contextLines) ↔
    ∃ k, (windowAfter (totalLines text) (windowLines text).length line (contextOf contextLines) k).atEnd = true ∧
      (∀ j < k, (windowAfter (totalLines text) (windowLines text).length line (contextOf contextLines) j).atEnd = false) ∧
      ∀ i, (windowAfter (totalLines text) (windowLines text).length line (contextOf contextLines) 0).start ≤ i →
        i ≤ (windowLines text).length →
        ∃ j ≤ k, (windowAfter (totalLines text) (windowLines text).length line (contextOf contextLines) j).start ≤ i ∧
          i ≤ (windowAfter (totalLines text) (windowLines text).length line (contextOf contextLines) j).stop := by
  have hview (k : ℕ) : (views host (openFile host session path (some line) contextLines) k).2.window? =
      some (windowAfter (totalLines text) (windowLines text).length line (contextOf contextLines) k) :=
    (views_eq session contextLines htext hline htotal k).2
  have htotals (k : ℕ) : (windowAfter (totalLines text) (windowLines text).length line (contextOf contextLines) k).totalLines =
      (windowLines text).length := by cases k <;> rfl
  unfold ShowsAll
  simp only [hview, Option.some.injEq, Option.mem_def, exists_and_left, exists_eq_left', forall_eq']
  constructor
  · rintro ⟨k, hend, hbefore, hshown⟩
    exact ⟨k, hend, hbefore, fun i hstart hstop => hshown i hstart (by rwa [htotals k])⟩
  · rintro ⟨k, hend, hbefore, hshown⟩
    exact ⟨k, hend, hbefore, fun i hstart hstop => hshown i hstart (by rwa [htotals k] at hstop)⟩

/-- Every line is shown exactly when the first window reaches the end, or is followed by few lines, or shows
the first hundred of more than 201; and the lines that end in other characters than newlines do not keep
the windows from the end. -/
theorem showsAll_iff : ShowsAll host (openFile host session path (some line) contextLines) ↔
    Gapless (totalLines text) (windowLines text).length line (contextOf contextLines) :=
  (showsAll_windows session contextLines htext hline htotal).trans
    (gapless_iff hline htotal (totalLines_le text) (contextOf_mem contextLines))

end

/-- A disk with one file of so many lines. -/
def blankLines (n : ℕ) : Host := ⟨id, fun path => if path = "/a" then some (List.replicate n '\n') else none⟩

theorem content_blankLines (n : ℕ) : content (blankLines n) "/a" = some (List.replicate n '\n') := by
  have hclean : '\r' ∉ List.replicate n '\n' := fun h => absurd (List.eq_of_mem_replicate h) (by decide)
  exact congrArg some (Files.universalNewlines_of_notMem hclean)

theorem keepLines_replicate (n : ℕ) : (keepLines '\n' (List.replicate n '\n')).length = n := by
  induction n with
  | zero => rfl
  | succ n ih =>
    rw [List.replicate_succ, keepLines, if_pos rfl, List.length_cons, ih]

theorem splitlines_replicate (n : ℕ) : (splitlines (List.replicate n '\n')).length = n := by
  induction n with
  | zero => rfl
  | succ n ih =>
    rw [List.replicate_succ, splitlines, if_pos (by decide), List.length_cons, ih]
    simp

theorem totalLines_replicate (n : ℕ) : totalLines (List.replicate (n + 1) '\n') = n + 1 := by
  rw [totalLines, keepLines_replicate]
  omega

theorem windowLines_replicate (n : ℕ) : (windowLines (List.replicate (n + 1) '\n')).length = n + 1 := by
  have hended : ['\n'] <:+ List.replicate (n + 1) '\n' := ⟨List.replicate n '\n', (List.replicate_succ' ..).symm⟩
  rw [windowLines, if_pos hended, splitlines_replicate]

theorem showsAll_iff_short : ShowsAll (blankLines 5) (openFile (blankLines 5) {} "/a" (some 2) none) ↔
    Gapless (totalLines (List.replicate 5 '\n')) (windowLines (List.replicate 5 '\n')).length 2 (contextOf none) :=
  showsAll_iff {} none (content_blankLines 5) (by decide) (by rw [totalLines_replicate]; decide)

/-- A file of 201 lines, opened and scrolled down once, without its line 101. -/
theorem line_skipped : ¬ ∀ (host : Host) (path : String) (text : List Char) (line : ℤ) (contextLines : Option ℤ),
    content host (host.abspath path) = some text → 1 ≤ line → line ≤ totalLines text →
    totalLines text = (windowLines text).length →
    ShowsAll host (openFile host {} path (some line) contextLines) := by
  intro h
  have htotal : totalLines (List.replicate 201 '\n') = 201 := totalLines_replicate 200
  have hlines : (windowLines (List.replicate 201 '\n')).length = 201 := windowLines_replicate 200
  have hshown := h (blankLines 201) "/a" (List.replicate 201 '\n') 1 none (content_blankLines 201) (by decide)
    (by rw [htotal]; decide) (by rw [htotal, hlines]; rfl)
  have hwindows := (showsAll_windows {} none (content_blankLines 201) (by decide) (by rw [htotal]; decide)).mp hshown
  have hgapless := (gapless_iff (by decide) (by rw [htotal]; decide) (totalLines_le _) (contextOf_mem none)).mp hwindows
  rw [htotal, hlines] at hgapless
  exact absurd hgapless (by decide)

end FileOps

end OpenHands
