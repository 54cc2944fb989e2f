import OpenHandsSWE.Resolver.Patching

/-! The text of a unified diff: how the resolver reads its hunks, and that it reads what is printed. -/

namespace OpenHands.Patching
open Text EditScript

/-! ## Reading -/

/-- `split_by_regex`: the items before the first one that matches, and from each of these on. -/
def splitByRegex {α : Type*} (regex : α → Bool) : List α → List α × List (List α)
  | [] => ([], [])
  | item :: items =>
    let (lead, chunks) := splitByRegex regex items
    if regex item then ([], (item :: lead) :: chunks) else (item :: lead, chunks)

structure HunkStart where
  old : ℕ
  oldLen : ℕ
  new : ℕ
  newLen : ℕ
deriving DecidableEq, Repr

/-- `(\d+),?(\d*)`, and what follows it; a length that is not written is 1. -/
def readRange (cs : List Char) : Option (ℕ × ℕ × List Char) :=
  let rest := cs.dropWhile Char.isDigit
  let behind := match rest with
    | ',' :: tail => tail
    | tail => tail
  (natural (cs.takeWhile Char.isDigit)).map fun start =>
    (start, (natural (behind.takeWhile Char.isDigit)).getD 1, behind.dropWhile Char.isDigit)

/-- `unified_hunk_start`. -/
def unifiedHunkStart : List Char → Option HunkStart
  | '@' :: '@' :: ' ' :: '-' :: cs =>
    (readRange cs).bind fun
      | (old, oldLen, ' ' :: '+' :: rest) =>
        (readRange rest).bind fun
          | (new, newLen, ' ' :: '@' :: '@' :: _) => some ⟨old, oldLen, new, newLen⟩
          | _ => none
      | _ => none
  | _ => none

/-- The lines behind the header of a hunk. -/
def hunkChanges (start : HunkStart) (hunk : ℕ) : ℕ → ℕ → List (List Char) → List Change
  | _, _, [] => []
  | r, i, n :: ns =>
    let kind := n.headD ' '
    let line := n.tail
    if kind = '-' ∧ (r ≠ start.oldLen ∨ r = 0) then
      ⟨some (start.old + r), none, line, hunk⟩ :: hunkChanges start hunk (r + 1) i ns
    else if kind = '+' ∧ (i ≠ start.newLen ∨ i = 0) then
      ⟨none, some (start.new + i), line, hunk⟩ :: hunkChanges start hunk r (i + 1) ns
    else if kind = ' ' then
      ⟨some (start.old + r), some (start.new + i), line, hunk⟩ :: hunkChanges start hunk (r + 1) (i + 1) ns
    else hunkChanges start hunk r i ns

/-- The lines up to the header are dropped, with all of them when there is none. -/
def chunkChanges (hunk : ℕ) : List (List Char) → List Change
  | [] => []
  | n :: ns =>
    match unifiedHunkStart n with
    | some start => hunkChanges start hunk 0 0 ns
    | none => chunkChanges hunk ns

def chunksChanges (hunk : ℕ) : List (List (List Char)) → List Change
  | [] => []
  | chunk :: chunks => chunkChanges hunk chunk ++ chunksChanges (hunk + 1) chunks

def parseUnifiedDiff (lines : List (List Char)) : Option (List Change) :=
  let hunks := splitByRegex (fun line => (unifiedHunkStart line).isSome) lines
  let changes := chunksChanges 0 (hunks.1 :: hunks.2)
  if 0 < changes.length then some changes else none

/-! ## Printing -/

/-- The range of a side of a hunk; a side without lines names the line before it, a length of 1 is left out. -/
def rangeText (before length : ℕ) : List Char :=
  Nat.toDigits 10 (if length = 0 then before else before + 1) ++ if length = 1 then [] else ',' :: Nat.toDigits 10 length

def editText : Edit (List Char) → List Char
  | .keep line => ' ' :: line
  | .delete line => '-' :: line
  | .insert line => '+' :: line

def hunkHeader (old oldLength new newLength : ℕ) (heading : List Char) : List Char :=
  "@@ -".toList ++ rangeText old oldLength ++ " +".toList ++ rangeText new newLength ++ " @@".toList ++ heading

/-- A hunk behind lines of the two files; behind its header stands a text that nobody reads. -/
def hunkLines (old new : ℕ) (heading : List Char) (h : Hunk (List Char)) : List (List Char) :=
  hunkHeader (old + h.gap.length) (source h.edits).length (new + h.gap.length) (target h.edits).length heading ::
    h.edits.map editText

def hunksLines (heading : ℕ → List Char) (hunk old new : ℕ) : List (Hunk (List Char)) → List (List (List Char))
  | [] => []
  | h :: hs => hunkLines old new (heading hunk) h :: hunksLines heading (hunk + 1) (old + h.old.length) (new + h.new.length) hs

/-- The lines of a diff behind those that name its files. -/
def diffLines (heading : ℕ → List Char) (d : Diff (List Char)) : List (List Char) := (hunksLines heading 1 0 0 d.hunks).flatten

/-! ## What is printed is read -/

theorem splitByRegex_append {α : Type*} {regex : α → Bool} {lead : List α} (hlead : ∀ x ∈ lead, regex x = false) (items : List α) :
    splitByRegex regex (lead ++ items) = (lead ++ (splitByRegex regex items).1, (splitByRegex regex items).2) := by
  induction lead with
  | nil => rfl
  | cons x lead ih =>
    obtain ⟨hx, hlead⟩ := List.forall_mem_cons.mp hlead
    rw [List.cons_append, splitByRegex, ih hlead]
    dsimp only
    rw [hx, if_neg Bool.false_ne_true, List.cons_append]

/-- Chunks that begin with a match, and have no other, are found. -/
theorem splitByRegex_flatten {α : Type*} {regex : α → Bool} {lead : List α} (hlead : ∀ x ∈ lead, regex x = false)
    {chunks : List (List α)} (hchunks : ∀ chunk ∈ chunks, ∃ x xs, chunk = x :: xs ∧ regex x = true ∧ ∀ y ∈ xs, regex y = false) :
    splitByRegex regex (lead ++ chunks.flatten) = (lead, chunks) := by
  have hflatten : splitByRegex regex chunks.flatten = ([], chunks) := by
    induction chunks with
    | nil => rfl
    | cons chunk chunks ih =>
      obtain ⟨⟨x, xs, rfl, hx, hxs⟩, hrest⟩ := List.forall_mem_cons.mp hchunks
      rw [List.flatten_cons, List.cons_append, splitByRegex, splitByRegex_append hxs, ih hrest]
      dsimp only
      rw [hx, if_pos rfl, List.append_nil]
  rw [splitByRegex_append hlead, hflatten, List.append_nil]

theorem readDigits {c : Char} (hc : c.isDigit = false) (n : ℕ) (cs : List Char) :
    (Nat.toDigits 10 n ++ c :: cs).takeWhile Char.isDigit = Nat.toDigits 10 n ∧
      (Nat.toDigits 10 n ++ c :: cs).dropWhile Char.isDigit = c :: cs := by
  have hdigits := isDigit_of_mem_toDigits n
  rw [List.takeWhile_append_of_pos hdigits, List.dropWhile_append_of_pos hdigits, List.takeWhile_cons_of_neg (by simp [hc]),
    List.dropWhile_cons_of_neg (by simp [hc]), List.append_nil]
  exact ⟨rfl, rfl⟩

theorem readRange_rangeText (before length : ℕ) (cs : List Char) :
    readRange (rangeText before length ++ ' ' :: cs) =
      some (if length = 0 then before else before + 1, length, ' ' :: cs) := by
  by_cases hone : length = 1
  · have hread := readDigits (c := ' ') (by decide) (before + 1) cs
    subst hone
    rw [rangeText, if_neg one_ne_zero, if_pos rfl, List.append_nil, readRange, hread.1, hread.2, natural_toDigits]
    rfl
  · have hread := readDigits (c := ',') (by decide) (if length = 0 then before else before + 1) (Nat.toDigits 10 length ++ ' ' :: cs)
    have hlength := readDigits (c := ' ') (by decide) length cs
    rw [rangeText, if_neg hone, List.append_assoc, List.cons_append, readRange, hread.1, hread.2, natural_toDigits]
    change some (_, (natural ((Nat.toDigits 10 length ++ ' ' :: cs).takeWhile Char.isDigit)).getD 1,
      (Nat.toDigits 10 length ++ ' ' :: cs).dropWhile Char.isDigit) = _
    rw [hlength.1, hlength.2, natural_toDigits]
    rfl

theorem unifiedHunkStart_hunkHeader (old oldLength new newLength : ℕ) (heading : List Char) :
    unifiedHunkStart (hunkHeader old oldLength new newLength heading) =
      some ⟨if oldLength = 0 then old else old + 1, oldLength, if newLength = 0 then new else new + 1, newLength⟩ := by
  have htext : hunkHeader old oldLength new newLength heading = '@' :: '@' :: ' ' :: '-' ::
      (rangeText old oldLength ++ ' ' :: ('+' :: (rangeText new newLength ++ ' ' :: ('@' :: '@' :: heading)))) := by
    simp [hunkHeader, List.append_assoc]
  rw [htext, unifiedHunkStart, readRange_rangeText]
  change (readRange (rangeText new newLength ++ ' ' :: ('@' :: '@' :: heading))).bind _ = _
  rw [readRange_rangeText]
  rfl

theorem unifiedHunkStart_editText (e : Edit (List Char)) : unifiedHunkStart (editText e) = none := by
  cases e <;> rfl

/-- Without a line to take the numbers in the old file are not read. -/
theorem numbered_of_source_nil {es : List (Edit (List Char))} (h : source es = []) (hunk new old other : ℕ) :
    numbered hunk old new es = numbered hunk other new es := by
  induction es generalizing new with
  | nil => rfl
  | cons e es ih =>
    cases e with
    | keep line | delete line => cases h
    | insert line => exact congrArg (List.cons _) (ih h (new + 1))

theorem numbered_of_target_nil {es : List (Edit (List Char))} (h : target es = []) (hunk old new other : ℕ) :
    numbered hunk old new es = numbered hunk old other es := by
  induction es generalizing old with
  | nil => rfl
  | cons e es ih =>
    cases e with
    | keep line | insert line => cases h
    | delete line => exact congrArg (List.cons _) (ih h (old + 1))

/-- A script that is no longer than its header says is read line by line. -/
theorem hunkChanges_editText (start : HunkStart) (hunk : ℕ) {es : List (Edit (List Char))} {r i : ℕ}
    (hold : r + (source es).length ≤ start.oldLen) (hnew : i + (target es).length ≤ start.newLen) :
    hunkChanges start hunk r i (es.map editText) = numbered hunk (start.old + r) (start.new + i) es := by
  induction es generalizing r i with
  | nil => rfl
  | cons e es ih =>
    simp only [source_cons, target_cons, List.length_append] at hold hnew
    cases e with
    | keep line =>
      simp only [Edit.old, Edit.new, List.length_singleton] at hold hnew
      have hrest := ih (r := r + 1) (i := i + 1) (by omega) (by omega)
      exact congrArg (List.cons _) hrest
    | delete line =>
      simp only [Edit.old, Edit.new, List.length_singleton, List.length_nil] at hold hnew
      have hrest := ih (r := r + 1) (i := i) (by omega) (by omega)
      have hroom : r ≠ start.oldLen ∨ r = 0 := .inl (by omega)
      rw [List.map_cons, editText, hunkChanges, if_pos ⟨rfl, hroom⟩, numbered]
      exact congrArg (List.cons _) hrest
    | insert line =>
      simp only [Edit.old, Edit.new, List.length_singleton, List.length_nil] at hold hnew
      have hrest := ih (r := r) (i := i + 1) (by omega) (by omega)
      have hroom : i ≠ start.newLen ∨ i = 0 := .inl (by omega)
      have hkind : ¬ (('+' : Char) = '-' ∧ (r ≠ start.oldLen ∨ r = 0)) := fun h => absurd h.1 (by decide)
      rw [List.map_cons, editText, hunkChanges, List.headD_cons, if_neg hkind, if_pos ⟨rfl, hroom⟩, numbered]
      exact congrArg (List.cons _) hrest

theorem chunkChanges_hunkLines (hunk old new : ℕ) (heading : List Char) (h : Hunk (List Char)) :
    chunkChanges hunk (hunkLines old new heading h) =
      numbered hunk (old + h.gap.length + 1) (new + h.gap.length + 1) h.edits := by
  rw [hunkLines, chunkChanges, unifiedHunkStart_hunkHeader]
  dsimp only
  rw [hunkChanges_editText _ _ (by rw [Nat.zero_add]) (by rw [Nat.zero_add])]
  dsimp only [Nat.add_zero]
  have hold : numbered hunk (if (source h.edits).length = 0 then old + h.gap.length else old + h.gap.length + 1)
      (if (target h.edits).length = 0 then new + h.gap.length else new + h.gap.length + 1) h.edits =
      numbered hunk (old + h.gap.length + 1)
        (if (target h.edits).length = 0 then new + h.gap.length else new + h.gap.length + 1) h.edits := by
    split_ifs with hsource
    · exact numbered_of_source_nil (List.length_eq_zero_iff.mp hsource) _ _ _ _
    · exact numbered_of_source_nil (List.length_eq_zero_iff.mp hsource) _ _ _ _
    · rfl
    · rfl
  rw [hold]
  split_ifs with htarget
  · exact numbered_of_target_nil (List.length_eq_zero_iff.mp htarget) _ _ _ _
  · rfl

theorem chunksChanges_hunksLines (heading : ℕ → List Char) (hunk old new : ℕ) (hs : List (Hunk (List Char))) :
    chunksChanges hunk (hunksLines heading hunk old new hs) = changesFrom hunk old new hs := by
  induction hs generalizing hunk old new with
  | nil => rfl
  | cons h hs ih => rw [hunksLines, chunksChanges, changesFrom, chunkChanges_hunkLines, ih]

theorem chunkChanges_of_none (hunk : ℕ) {lines : List (List Char)} (h : ∀ line ∈ lines, (unifiedHunkStart line).isSome = false) :
    chunkChanges hunk lines = [] := by
  induction lines with
  | nil => rfl
  | cons line lines ih =>
    obtain ⟨hline, hlines⟩ := List.forall_mem_cons.mp h
    have hnone : unifiedHunkStart line = none := by simpa using hline
    rw [chunkChanges, hnone]
    exact ih hlines

theorem mem_hunksLines {heading : ℕ → List Char} {hunk old new : ℕ} {hs : List (Hunk (List Char))} {chunk : List (List Char)}
    (h : chunk ∈ hunksLines heading hunk old new hs) :
    ∃ a b c d text, ∃ es : List (Edit (List Char)), chunk = hunkHeader a b c d text :: es.map editText := by
  induction hs generalizing hunk old new with
  | nil => cases h
  | cons first hs ih =>
    rcases List.mem_cons.mp h with rfl | h
    · exact ⟨_, _, _, _, _, _, rfl⟩
    · exact ih h

/-- The changes of a diff are read from what is printed of it, behind any lines that begin no hunk. -/
theorem parseUnifiedDiff_diffLines {lead : List (List Char)} (hlead : ∀ line ∈ lead, (unifiedHunkStart line).isSome = false)
    (heading : ℕ → List Char) (d : Diff (List Char)) (hd : changes d ≠ []) :
    parseUnifiedDiff (lead ++ diffLines heading d) = some (changes d) := by
  have hchunks : ∀ chunk ∈ hunksLines heading 1 0 0 d.hunks,
      ∃ x xs, chunk = x :: xs ∧ (unifiedHunkStart x).isSome = true ∧ ∀ y ∈ xs, (unifiedHunkStart y).isSome = false := by
    intro chunk hchunk
    obtain ⟨a, b, c, d, text, es, rfl⟩ := mem_hunksLines hchunk
    refine ⟨_, _, rfl, by rw [unifiedHunkStart_hunkHeader]; rfl, fun y hy => ?_⟩
    obtain ⟨e, _, rfl⟩ := List.mem_map.mp hy
    rw [unifiedHunkStart_editText]
    rfl
  rw [parseUnifiedDiff, diffLines, splitByRegex_flatten hlead hchunks]
  dsimp only
  rw [chunksChanges, chunkChanges_of_none 0 hlead, List.nil_append, chunksChanges_hunksLines]
  exact if_pos (List.length_pos_of_ne_nil hd)

/-- A printed diff that is read takes the old lines of its file to the new ones, and reversed the new ones to the old. -/
theorem applyDiff_diffLines {lead : List (List Char)} (hlead : ∀ line ∈ lead, (unifiedHunkStart line).isSome = false)
    (heading : ℕ → List Char) (d : Diff (List Char)) (hd : changes d ≠ []) :
    ∃ cs, parseUnifiedDiff (lead ++ diffLines heading d) = some cs ∧
      applyDiff cs d.old = .ok d.new ∧ applyDiff cs d.new true = .ok d.old := by
  refine ⟨changes d, parseUnifiedDiff_diffLines hlead heading d hd, applyDiff_of_fits (Fits.refl d), ?_⟩
  have hback := applyDiff_of_fits (Fits.refl d.flip)
  rwa [Diff.old_flip, Diff.new_flip, ← applyDiff_reversed] at hback

theorem applyDiff_diffLines_oneChanged :
    ∃ cs, parseUnifiedDiff (["--- a/f".toList, "+++ b/f".toList] ++ diffLines (fun _ => " def f".toList) oneChanged) = some cs ∧
      applyDiff cs oneChanged.old = .ok oneChanged.new ∧ applyDiff cs oneChanged.new true = .ok oneChanged.old :=
  applyDiff_diffLines (by decide) _ oneChanged (by decide)

end OpenHands.Patching
