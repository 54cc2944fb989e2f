import OpenHandsSWE.Lib.EditScript
import OpenHandsSWE.Lib.Python
import OpenHandsSWE.Lib.Words

/-! The changes of a unified diff: how the resolver applies them to the lines of a file, forwards and backwards. -/

namespace OpenHands.Patching
open Text EditScript

/-- A line of a diff with its numbers in the two files, each counted from 1. -/
structure Change where
  old : Option ℕ
  new : Option ℕ
  line : List Char
  hunk : ℕ
deriving DecidableEq, Repr

inductive Raised where
  | hunkApplyException (message : List Char) (hunk : ℕ)
  | python (e : PyError)
deriving DecidableEq, Repr

/-- `lines[n]`. -/
def item (lines : List (List Char)) (n : ℤ) : Except Raised (List Char) :=
  match if 0 ≤ n then lines[n.toNat]? else if -n ≤ lines.length then lines[(lines.length + n).toNat]? else none with
  | some line => .ok line
  | none => .error (.python .indexError)

/-- `del lines[n]`. -/
def delItem (lines : List (List Char)) (n : ℤ) : Except Raised (List (List Char)) :=
  (item lines n).map fun _ => lines.eraseIdx (if 0 ≤ n then n else lines.length + n).toNat

/-- `' '.join(line.split())`. -/
def normalized (line : List Char) : List Char := List.intercalate [' '] (words line)

def reverse (changes : List Change) : List Change := changes.map fun c => { c with old := c.new, new := c.old }

def notInSource (n : ℕ) (line : List Char) : List Char :=
  "context line ".toList ++ Nat.toDigits 10 n ++ ", \"".toList ++ line ++ "\" does not exist in source".toList

def notMatching (n : ℕ) (line sourceLine : List Char) : List Char :=
  "context line ".toList ++ Nat.toDigits 10 n ++ ", \"".toList ++ line ++ "\" does not match \"".toList ++ sourceLine ++ ['"']

/-- The source text has the line of a change, up to its white space. -/
def checkChange (lines : List (List Char)) (c : Change) : Except Raised Unit :=
  match c.old with
  | none => .ok ()
  | some old =>
    if lines.length < old then .error (.hunkApplyException (notInSource old c.line) c.hunk)
    else
      (item lines (old - 1)).bind fun sourceLine =>
        if sourceLine ≠ c.line ∧ normalized c.line ≠ normalized sourceLine then
          .error (.hunkApplyException (notMatching old c.line sourceLine) c.hunk)
        else .ok ()

def checkChanges (lines : List (List Char)) (changes : List Change) : Except Raised Unit :=
  changes.forM (checkChange lines)

/-- The lines, and how many of them were removed and inserted so far. -/
structure Work where
  lines : List (List Char)
  r : ℕ := 0
  i : ℕ := 0
deriving DecidableEq, Repr

def applyChange (w : Work) (c : Change) : Except Raised Work :=
  match c.old, c.new with
  | some old, none => (delItem w.lines (old - 1 - w.r + w.i)).map fun lines => { w with lines, r := w.r + 1 }
  | none, some new => .ok { w with lines := Py.insert w.lines (new - 1) c.line, i := w.i + 1 }
  | _, _ => .ok w

def applyDiff (changes : List Change) (text : List (List Char)) (reversed : Bool := false) :
    Except Raised (List (List Char)) :=
  let changes := if reversed then reverse changes else changes
  (checkChanges text changes).bind fun _ => (changes.foldlM applyChange ⟨text, 0, 0⟩).map Work.lines

/-! ## The changes of a diff -/

/-- The lines of a hunk, numbered from the first one on. -/
def numbered (hunk old new : ℕ) : List (Edit (List Char)) → List Change
  | [] => []
  | .keep line :: es => ⟨some old, some new, line, hunk⟩ :: numbered hunk (old + 1) (new + 1) es
  | .delete line :: es => ⟨some old, none, line, hunk⟩ :: numbered hunk (old + 1) new es
  | .insert line :: es => ⟨none, some new, line, hunk⟩ :: numbered hunk old (new + 1) es

/-- The changes of hunks behind lines of the two files. -/
def changesFrom (hunk old new : ℕ) : List (Hunk (List Char)) → List Change
  | [] => []
  | h :: hs => numbered hunk (old + h.gap.length + 1) (new + h.gap.length + 1) h.edits ++
      changesFrom (hunk + 1) (old + h.old.length) (new + h.new.length) hs

/-- The header of a file is counted as a hunk. -/
def changes (d : Diff (List Char)) : List Change := changesFrom 1 0 0 d.hunks

/-- The file may have other white space in a line that stays or goes. -/
inductive Loosely : Edit (List Char) → Edit (List Char) → Prop
  | keep {line own : List Char} (h : normalized line = normalized own) : Loosely (.keep line) (.keep own)
  | delete {line own : List Char} (h : normalized line = normalized own) : Loosely (.delete line) (.delete own)
  | insert (line : List Char) : Loosely (.insert line) (.insert line)

/-- A hunk, and the same one with the lines of the file. -/
structure LooselyAt (h own : Hunk (List Char)) : Prop where
  gap : h.gap.length = own.gap.length
  edits : List.Forall₂ Loosely h.edits own.edits

def Fits (d own : Diff (List Char)) : Prop := List.Forall₂ LooselyAt d.hunks own.hunks

/-! ## The check -/

section Check

variable {lines pre post : List (List Char)} {hunk new : ℕ}

theorem item_append (line : List Char) : item (pre ++ line :: post) pre.length = .ok line := by
  have hget : (pre ++ line :: post)[pre.length]? = some line := by simp
  rw [item, if_pos (Int.natCast_nonneg _), Int.toNat_natCast, hget]

theorem checkChange_insert (line : List Char) : checkChange lines ⟨none, some new, line, hunk⟩ = .ok () := rfl

/-- Whether the line before the next is the one of a change, up to white space. -/
theorem checkChange_append (own line : List Char) (new : Option ℕ) :
    checkChange (pre ++ own :: post) ⟨some (pre.length + 1), new, line, hunk⟩ =
      if normalized line = normalized own then .ok ()
      else .error (.hunkApplyException (notMatching (pre.length + 1) line own) hunk) := by
  have hfits : ¬ (pre ++ own :: post).length < pre.length + 1 := by
    rw [List.length_append, List.length_cons]
    omega
  have hplace : ((pre.length + 1 : ℕ) : ℤ) - 1 = pre.length := by omega
  rw [checkChange]
  dsimp only
  rw [if_neg hfits, hplace, item_append]
  change (if own ≠ line ∧ normalized line ≠ normalized own then _ else _) = _
  by_cases h : normalized line = normalized own
  · rw [if_neg fun hne => hne.2 h, if_pos h]
  · have hne : own ≠ line := fun heq => h (congrArg normalized heq.symm)
    rw [if_pos ⟨hne, h⟩, if_neg h]

theorem checkChange_beyond {old : ℕ} (h : lines.length < old) (line : List Char) (new : Option ℕ) :
    checkChange lines ⟨some old, new, line, hunk⟩ = .error (.hunkApplyException (notInSource old line) hunk) := if_pos h

theorem checkChanges_cons (c : Change) (cs : List Change) :
    checkChanges lines (c :: cs) = (checkChange lines c).bind fun _ => checkChanges lines cs := rfl

theorem checkChanges_append (cs ds : List Change) :
    checkChanges lines (cs ++ ds) = (checkChanges lines cs).bind fun _ => checkChanges lines ds := by
  induction cs with
  | nil => rfl
  | cons c cs ih =>
    rw [List.cons_append, checkChanges_cons, checkChanges_cons, ih]
    cases checkChange lines c <;> rfl

/-- The lines of a hunk pass where the file has them. -/
theorem checkChanges_numbered {es own : List (Edit (List Char))} (h : List.Forall₂ Loosely es own) (pre post : List (List Char))
    (hunk new : ℕ) : checkChanges (pre ++ (source own ++ post)) (numbered hunk (pre.length + 1) new es) = .ok () := by
  induction h generalizing pre new with
  | nil => rfl
  | cons hedit _ ih =>
    cases hedit with
    | @keep line own hsame | @delete line own hsame =>
      have hrest := fun new => ih (pre ++ [own]) new
      simp only [List.append_assoc, List.length_append, List.singleton_append, List.length_singleton] at hrest
      rw [source_cons, numbered, checkChanges_cons]
      change (checkChange (pre ++ own :: _) _).bind _ = _
      rw [checkChange_append, if_pos hsame]
      exact hrest _
    | insert line =>
      rw [numbered, checkChanges_cons, checkChange_insert]
      exact ih pre (new + 1)

/-- A hunk that passes is in the file. -/
theorem exists_of_checkChanges {es : List (Edit (List Char))} {m : ℕ} (hm : m ≤ lines.length)
    (h : checkChanges lines (numbered hunk (m + 1) new es) = .ok ()) :
    ∃ own post, List.Forall₂ Loosely es own ∧ source own ++ post = lines.drop m := by
  induction es generalizing m new with
  | nil => exact ⟨[], lines.drop m, .nil, rfl⟩
  | cons e es ih =>
    have hpass {line : List Char} {number : Option ℕ} (hc : checkChange lines ⟨some (m + 1), number, line, hunk⟩ = .ok ()) :
        ∃ own, normalized line = normalized own ∧ m < lines.length ∧ lines.drop m = own :: lines.drop (m + 1) := by
      by_cases hlt : m < lines.length
      · have hlength : (lines.take m).length = m := List.length_take_of_le hm
        have hlines : lines = lines.take m ++ lines[m] :: lines.drop (m + 1) := by
          rw [List.getElem_cons_drop, List.take_append_drop]
        have hchecked := @checkChange_append (lines.take m) (lines.drop (m + 1)) hunk lines[m] line number
        rw [← hlines, hlength, hc] at hchecked
        by_cases hsame : normalized line = normalized lines[m]
        · exact ⟨lines[m], hsame, hlt, (List.getElem_cons_drop hlt).symm⟩
        · rw [if_neg hsame] at hchecked
          cases hchecked
      · rw [checkChange_beyond (by omega)] at hc
        cases hc
    cases e with
    | keep line =>
      rw [numbered, checkChanges_cons] at h
      obtain ⟨_, hc, h⟩ := Py.bind_ok h
      obtain ⟨own, hsame, hlt, hdrop⟩ := hpass hc
      obtain ⟨owns, post, howns, hpost⟩ := ih hlt h
      exact ⟨.keep own :: owns, post, .cons (.keep hsame) howns, by rw [hdrop, ← hpost]; rfl⟩
    | delete line =>
      rw [numbered, checkChanges_cons] at h
      obtain ⟨_, hc, h⟩ := Py.bind_ok h
      obtain ⟨own, hsame, hlt, hdrop⟩ := hpass hc
      obtain ⟨owns, post, howns, hpost⟩ := ih hlt h
      exact ⟨.delete own :: owns, post, .cons (.delete hsame) howns, by rw [hdrop, ← hpost]; rfl⟩
    | insert line =>
      rw [numbered, checkChanges_cons] at h
      obtain ⟨_, _, h⟩ := Py.bind_ok h
      obtain ⟨owns, post, howns, hpost⟩ := ih hm h
      exact ⟨.insert line :: owns, post, .cons (.insert line) howns, hpost⟩

/-- A hunk that passes and takes a line begins inside of the file. -/
theorem lt_of_checkChanges {es : List (Edit (List Char))} {m : ℕ} (hes : source es ≠ [])
    (h : checkChanges lines (numbered hunk (m + 1) new es) = .ok ()) : m < lines.length := by
  induction es generalizing new with
  | nil => exact absurd rfl hes
  | cons e es ih =>
    by_contra hge
    have hbeyond : lines.length < m + 1 := by omega
    cases e with
    | keep line | delete line =>
      rw [numbered, checkChanges_cons, checkChange_beyond hbeyond] at h
      cases h
    | insert line =>
      rw [numbered, checkChanges_cons, checkChange_insert] at h
      exact hge (ih hes h)

theorem Loosely.lengths {es own : List (Edit (List Char))} (h : List.Forall₂ Loosely es own) :
    (source es).length = (source own).length ∧ (target es).length = (target own).length := by
  induction h with
  | nil => exact ⟨rfl, rfl⟩
  | cons hedit _ ih =>
    simp only [source_cons, target_cons, List.length_append]
    cases hedit <;> exact ⟨congrArg (_ + ·) ih.1, congrArg (_ + ·) ih.2⟩

theorem LooselyAt.lengths {h own : Hunk (List Char)} (hown : LooselyAt h own) :
    h.old.length = own.old.length ∧ h.new.length = own.new.length := by
  have hedits := Loosely.lengths hown.edits
  simp only [Hunk.old, Hunk.new, List.length_append, hown.gap, hedits.1, hedits.2, and_self]

theorem checkChanges_changesFrom {hs owns : List (Hunk (List Char))} (h : List.Forall₂ LooselyAt hs owns)
    (pre rest : List (List Char)) (hunk new : ℕ) :
    checkChanges (pre ++ (owns.flatMap Hunk.old ++ rest)) (changesFrom hunk pre.length new hs) = .ok () := by
  induction h generalizing pre hunk new with
  | nil => rfl
  | @cons h own hs owns hown _ ih =>
    have hhere := checkChanges_numbered hown.edits (pre ++ own.gap) (owns.flatMap Hunk.old ++ rest) hunk (new + h.gap.length + 1)
    have hrest := ih (pre ++ own.old) (hunk + 1) (new + h.new.length)
    simp only [List.append_assoc, List.length_append, Hunk.old] at hhere hrest
    rw [changesFrom, checkChanges_append, List.flatMap_cons, hown.lengths.1]
    simp only [Hunk.old, List.append_assoc, List.length_append, hown.gap] at hhere ⊢
    rw [hhere]
    exact hrest

/-- Hunks that pass, each with a line to take, are in the file. -/
theorem exists_of_changesFrom {hs : List (Hunk (List Char))} (hhs : ∀ h ∈ hs, source h.edits ≠ []) {m hunk new : ℕ}
    (hm : m ≤ lines.length) (h : checkChanges lines (changesFrom hunk m new hs) = .ok ()) :
    ∃ owns rest, List.Forall₂ LooselyAt hs owns ∧ owns.flatMap Hunk.old ++ rest = lines.drop m := by
  induction hs generalizing m hunk new with
  | nil => exact ⟨[], lines.drop m, .nil, rfl⟩
  | cons first hs ih =>
    obtain ⟨hfirst, hhs⟩ := List.forall_mem_cons.mp hhs
    rw [changesFrom, checkChanges_append] at h
    obtain ⟨_, hhere, hrest⟩ := Py.bind_ok h
    have hstart := (lt_of_checkChanges hfirst hhere).le
    obtain ⟨es, post, hes, hpost⟩ := exists_of_checkChanges hstart hhere
    have hgap : ((lines.drop m).take first.gap.length).length = first.gap.length :=
      List.length_take_of_le (by rw [List.length_drop]; omega)
    have hown : LooselyAt first ⟨(lines.drop m).take first.gap.length, es⟩ := ⟨hgap.symm, hes⟩
    have hfit : m + first.old.length ≤ lines.length := by
      have hdrop := congrArg List.length hpost
      have hsource := (Loosely.lengths hes).1
      rw [List.length_append, List.length_drop] at hdrop
      rw [Hunk.old, List.length_append]
      omega
    obtain ⟨owns, rest, howns, hlines⟩ := ih hhs hfit hrest
    refine ⟨_ :: owns, rest, .cons hown howns, ?_⟩
    have hsplit : (lines.drop m).drop first.gap.length = source es ++ lines.drop (m + first.old.length) := by
      have hlast : lines.drop (m + first.old.length) = post := by
        rw [Hunk.old, List.length_append, (Loosely.lengths hes).1, ← Nat.add_assoc, ← List.drop_drop, ← hpost, List.drop_left]
      rw [hlast, hpost, List.drop_drop]
    rw [List.flatMap_cons, List.append_assoc, hlines, Hunk.old]
    dsimp only
    rw [List.append_assoc, ← hsplit, List.take_append_drop]

/-- A line counted from 1 is there, or the exception names its hunk. -/
theorem checkChange_cases {c : Change} (hc : c.old ≠ some 0) :
    checkChange lines c = .ok () ∨ ∃ message, checkChange lines c = .error (.hunkApplyException message c.hunk) := by
  obtain ⟨old, number, line, hunk⟩ := c
  cases old with
  | none => exact .inl rfl
  | some old =>
    by_cases hbeyond : lines.length < old
    · exact .inr ⟨_, checkChange_beyond hbeyond line number⟩
    · have hpos : old ≠ 0 := fun h => hc (congrArg some h)
      have hlt : old - 1 < lines.length := by omega
      have hlength : (lines.take (old - 1)).length + 1 = old := by
        rw [List.length_take_of_le hlt.le]
        omega
      have hlines : lines = lines.take (old - 1) ++ lines[old - 1] :: lines.drop (old - 1 + 1) := by
        rw [List.getElem_cons_drop, List.take_append_drop]
      have hchecked := @checkChange_append (lines.take (old - 1)) (lines.drop (old - 1 + 1)) hunk
        lines[old - 1] line number
      rw [← hlines, hlength] at hchecked
      rw [hchecked]
      split_ifs
      · exact .inl rfl
      · exact .inr ⟨_, rfl⟩

theorem checkChanges_cases {cs : List Change} (hcs : ∀ c ∈ cs, c.old ≠ some 0) :
    checkChanges lines cs = .ok () ∨
      ∃ message, ∃ c ∈ cs, checkChanges lines cs = .error (.hunkApplyException message c.hunk) := by
  induction cs with
  | nil => exact .inl rfl
  | cons c cs ih =>
    obtain ⟨hc, hcs⟩ := List.forall_mem_cons.mp hcs
    rw [checkChanges_cons]
    rcases checkChange_cases hc with hok | ⟨message, herror⟩
    · rw [hok]
      rcases ih hcs with hrest | ⟨message, d, hd, hrest⟩
      · exact .inl hrest
      · exact .inr ⟨message, d, List.mem_cons_of_mem c hd, hrest⟩
    · rw [herror]
      exact .inr ⟨message, c, List.mem_cons_self, rfl⟩

theorem old_numbered {es : List (Edit (List Char))} {m : ℕ} : ∀ c ∈ numbered hunk (m + 1) new es, c.old ≠ some 0 := by
  induction es generalizing m new with
  | nil => exact List.forall_mem_nil _
  | cons e es ih => cases e <;> exact List.forall_mem_cons.mpr ⟨by simp, ih⟩

theorem old_changesFrom {hs : List (Hunk (List Char))} {m : ℕ} : ∀ c ∈ changesFrom hunk m new hs, c.old ≠ some 0 := by
  induction hs generalizing hunk m new with
  | nil => exact List.forall_mem_nil _
  | cons h hs ih => exact List.forall_mem_append.mpr ⟨old_numbered, ih⟩

end Check

/-! ## The application -/

section Application

variable {post : List (List Char)}

theorem delItem_append (pre post : List (List Char)) (line : List Char) :
    delItem (pre ++ line :: post) pre.length = .ok (pre ++ post) := by
  rw [delItem, item_append, Except.map, if_pos (Int.natCast_nonneg _), Int.toNat_natCast, List.eraseIdx_append_of_length_le le_rfl,
    Nat.sub_self, List.eraseIdx_cons_zero]

theorem insert_append (pre post : List (List Char)) (line : List Char) :
    Py.insert (pre ++ post) pre.length line = pre ++ line :: post := by
  rw [Py.insert, Py.takeTo, Py.dropTo, if_pos (Int.natCast_nonneg _), if_pos (Int.natCast_nonneg _), Int.toNat_natCast,
    List.take_left, List.drop_left]

/-- The lines of a hunk are applied behind the lines that are done. -/
theorem foldlM_numbered {es own : List (Edit (List Char))} (h : List.Forall₂ Loosely es own) (post : List (List Char))
    (hunk : ℕ) {done : List (List Char)} {old r i : ℕ} (hcount : old + i = done.length + r) :
    ∃ r' i', (numbered hunk (old + 1) (done.length + 1) es).foldlM applyChange ⟨done ++ (source own ++ post), r, i⟩ =
        .ok ⟨done ++ (target own ++ post), r', i'⟩ ∧
      old + (source own).length + i' = done.length + (target own).length + r' := by
  induction h generalizing done old r i with
  | nil => exact ⟨r, i, rfl, hcount⟩
  | cons hedit _ ih =>
    rw [source_cons, target_cons]
    cases hedit with
    | @keep line own hsame =>
      obtain ⟨r', i', hrest, hcount'⟩ := @ih (done ++ [own]) (old + 1) r i
        (by rw [List.length_append, List.length_singleton]; omega)
      rw [List.length_append, List.length_singleton, List.append_assoc, List.append_assoc] at hrest
      refine ⟨r', i', ?_, ?_⟩
      · exact hrest
      · simp only [Edit.old, Edit.new, List.length_append, List.length_singleton] at hcount' ⊢
        omega
    | @delete line own hsame =>
      obtain ⟨r', i', hrest, hcount'⟩ := @ih done (old + 1) (r + 1) i (by omega)
      have hplace : (((old + 1 : ℕ) : ℤ) - 1 - r + i) = done.length := by omega
      refine ⟨r', i', ?_, ?_⟩
      · rw [numbered, List.foldlM_cons, applyChange]
        dsimp only
        rw [hplace]
        change (delItem (done ++ own :: _) _).map _ >>= _ = _
        rw [delItem_append]
        exact hrest
      · simp only [Edit.old, Edit.new, List.length_append, List.length_singleton, List.length_nil] at hcount' ⊢
        omega
    | insert line =>
      obtain ⟨r', i', hrest, hcount'⟩ := @ih (done ++ [line]) old r (i + 1)
        (by rw [List.length_append, List.length_singleton]; omega)
      rw [List.length_append, List.length_singleton, List.append_assoc, List.append_assoc] at hrest
      have hplace : ((done.length + 1 : ℕ) : ℤ) - 1 = done.length := by omega
      refine ⟨r', i', ?_, ?_⟩
      · rw [numbered, List.foldlM_cons, applyChange]
        dsimp only
        rw [hplace, Edit.old, List.nil_append, insert_append]
        exact hrest
      · simp only [Edit.old, Edit.new, List.length_append, List.length_singleton, List.length_nil] at hcount' ⊢
        omega

theorem foldlM_changesFrom {hs owns : List (Hunk (List Char))} (h : List.Forall₂ LooselyAt hs owns) (rest : List (List Char))
    (hunk : ℕ) {done : List (List Char)} {old r i : ℕ} (hcount : old + i = done.length + r) :
    ∃ r' i', (changesFrom hunk old done.length hs).foldlM applyChange ⟨done ++ (owns.flatMap Hunk.old ++ rest), r, i⟩ =
        .ok ⟨done ++ (owns.flatMap Hunk.new ++ rest), r', i'⟩ := by
  induction h generalizing hunk done old r i with
  | nil => exact ⟨r, i, rfl⟩
  | @cons h own hs owns hown _ ih =>
    obtain ⟨r₁, i₁, hhere, hcount₁⟩ := @foldlM_numbered _ _ hown.edits (owns.flatMap Hunk.old ++ rest) hunk (done ++ own.gap)
      (old + own.gap.length) r i (by rw [List.length_append]; omega)
    obtain ⟨r₂, i₂, hrest⟩ := @ih (hunk + 1) (done ++ own.new) (old + own.old.length) r₁ i₁
      (by simp only [Hunk.old, Hunk.new, List.length_append] at hcount₁ ⊢; omega)
    refine ⟨r₂, i₂, ?_⟩
    rw [changesFrom, List.foldlM_append, hown.gap, hown.lengths.1, hown.lengths.2]
    simp only [List.flatMap_cons, Hunk.old, Hunk.new, List.append_assoc, List.length_append] at hhere hrest ⊢
    rw [hhere]
    exact hrest

end Application

theorem applyDiff_of_fits {d own : Diff (List Char)} (h : Fits d own) : applyDiff (changes d) own.old = .ok own.new := by
  have hcheck := checkChanges_changesFrom h [] own.rest 1 0
  obtain ⟨r, i, happly⟩ := @foldlM_changesFrom _ _ h own.rest 1 [] 0 0 0 rfl
  rw [List.nil_append, List.length_nil] at hcheck happly
  rw [applyDiff, if_neg Bool.false_ne_true, changes, Diff.old, hcheck]
  change (List.foldlM applyChange _ _).map Work.lines = _
  rw [happly]
  rfl

theorem exists_fits {d : Diff (List Char)} (hd : ∀ h ∈ d.hunks, source h.edits ≠ []) {lines : List (List Char)}
    (h : checkChanges lines (changes d) = .ok ()) : ∃ own, Fits d own ∧ own.old = lines := by
  obtain ⟨owns, rest, howns, hlines⟩ := exists_of_changesFrom hd (Nat.zero_le lines.length) h
  exact ⟨⟨owns, rest⟩, howns, hlines⟩

theorem exists_of_applyDiff {d : Diff (List Char)} (hd : ∀ h ∈ d.hunks, source h.edits ≠ []) {lines out : List (List Char)}
    (h : applyDiff (changes d) lines = .ok out) : ∃ own, Fits d own ∧ own.old = lines ∧ own.new = out := by
  obtain ⟨_, hcheck, _⟩ := Py.bind_ok h
  obtain ⟨own, hown, rfl⟩ := exists_fits hd hcheck
  rw [applyDiff_of_fits hown] at h
  exact ⟨own, hown, rfl, Except.ok.inj h⟩

/-- A diff whose hunks each take a line applies to exactly the files that have these lines at their places, up to the
white space in them; the lines that stay are the file's own. Every other file is refused with the exception of a hunk. -/
theorem applyDiff_iff (d : Diff (List Char)) (hd : ∀ h ∈ d.hunks, source h.edits ≠ []) (lines : List (List Char)) :
    (∀ out, applyDiff (changes d) lines = .ok out ↔ ∃ own, Fits d own ∧ own.old = lines ∧ own.new = out) ∧
      ∀ e, applyDiff (changes d) lines = .error e →
        ∃ message, ∃ c ∈ changes d, e = .hunkApplyException message c.hunk := by
  constructor
  · intro out
    constructor
    · exact exists_of_applyDiff hd
    · rintro ⟨own, hown, rfl, rfl⟩
      exact applyDiff_of_fits hown
  · intro e he
    rcases @checkChanges_cases lines _ (@old_changesFrom 1 0 d.hunks 0) with
      hcheck | ⟨message, c, hc, hcheck⟩
    · obtain ⟨own, hown, rfl⟩ := exists_fits hd hcheck
      rw [applyDiff_of_fits hown] at he
      cases he
    · rw [applyDiff, if_neg Bool.false_ne_true, changes, hcheck] at he
      exact ⟨message, c, hc, (Except.error.inj he).symm⟩

/-- One line of a file is changed between two that stay. -/
def oneChanged : Diff (List Char) := ⟨[⟨["a".toList], [.keep "b c".toList, .delete "d".toList, .insert "e".toList]⟩], []⟩

theorem applyDiff_iff_oneChanged :
    (∀ out, applyDiff (changes oneChanged) ["a".toList, "b  c".toList, "d".toList] = .ok out ↔
      ∃ own, Fits oneChanged own ∧ own.old = ["a".toList, "b  c".toList, "d".toList] ∧ own.new = out) ∧
      ∀ e, applyDiff (changes oneChanged) ["a".toList, "b  c".toList, "d".toList] = .error e →
        ∃ message, ∃ c ∈ changes oneChanged, e = .hunkApplyException message c.hunk :=
  applyDiff_iff oneChanged (by decide) _

/-! ## The way back -/

/-- The lines differ in their white space at most. -/
def SameWords (line other : List Char) : Prop := normalized line = normalized other

theorem numbered_flip (hunk old new : ℕ) (es : List (Edit (List Char))) :
    numbered hunk new old (es.map Edit.flip) = reverse (numbered hunk old new es) := by
  induction es generalizing old new with
  | nil => rfl
  | cons e es ih =>
    cases e <;> exact congrArg (List.cons _) (ih _ _)

theorem changesFrom_flip (hunk old new : ℕ) (hs : List (Hunk (List Char))) :
    changesFrom hunk new old (hs.map Hunk.flip) = reverse (changesFrom hunk old new hs) := by
  induction hs generalizing hunk old new with
  | nil => rfl
  | cons h hs ih =>
    have hold : h.flip.old = h.new := by rw [Hunk.old, Hunk.new, Hunk.flip, source_flip]
    have hnew : h.flip.new = h.old := by rw [Hunk.old, Hunk.new, Hunk.flip, target_flip]
    rw [List.map_cons, changesFrom, changesFrom, hold, hnew, ih, reverse, reverse, List.map_append]
    exact congrArg (· ++ _) (numbered_flip _ _ _ _)

theorem applyDiff_reversed (d : Diff (List Char)) (lines : List (List Char)) :
    applyDiff (changes d) lines true = applyDiff (changes d.flip) lines := by
  have hchanges : changes d.flip = reverse (changes d) := changesFrom_flip 1 0 0 d.hunks
  rw [applyDiff, applyDiff, hchanges]
  rfl

theorem Fits.refl (d : Diff (List Char)) : Fits d d := by
  have hedit (e : Edit (List Char)) : Loosely e e := by
    cases e with
    | keep line => exact .keep rfl
    | delete line => exact .delete rfl
    | insert line => exact .insert line
  exact List.forall₂_same.mpr fun h _ => ⟨rfl, List.forall₂_same.mpr fun e _ => hedit e⟩

/-- Backwards, a hunk gives the lines that it took, with its own white space. -/
theorem exists_back {es own : List (Edit (List Char))} (h : List.Forall₂ Loosely es own) :
    ∃ back, List.Forall₂ Loosely (es.map Edit.flip) back ∧ source back = target own ∧
      List.Forall₂ SameWords (target back) (source own) := by
  induction h with
  | nil => exact ⟨[], .nil, rfl, .nil⟩
  | cons hedit _ ih =>
    obtain ⟨back, hback, hsource, htarget⟩ := ih
    cases hedit with
    | @keep line own hsame => exact ⟨.keep own :: back, .cons (.keep hsame) hback, congrArg (own :: ·) hsource, .cons rfl htarget⟩
    | @delete line own hsame => exact ⟨.insert line :: back, .cons (.insert line) hback, hsource, .cons hsame htarget⟩
    | insert line => exact ⟨.delete line :: back, .cons (.delete rfl) hback, congrArg (line :: ·) hsource, htarget⟩

theorem exists_backs {hs owns : List (Hunk (List Char))} (h : List.Forall₂ LooselyAt hs owns) :
    ∃ backs, List.Forall₂ LooselyAt (hs.map Hunk.flip) backs ∧ backs.flatMap Hunk.old = owns.flatMap Hunk.new ∧
      List.Forall₂ SameWords (backs.flatMap Hunk.new) (owns.flatMap Hunk.old) := by
  induction h with
  | nil => exact ⟨[], .nil, rfl, .nil⟩
  | @cons h own hs owns hown _ ih =>
    obtain ⟨backs, hbacks, hold, hnew⟩ := ih
    obtain ⟨back, hback, hsource, htarget⟩ := exists_back hown.edits
    have hgap : List.Forall₂ SameWords own.gap own.gap := List.forall₂_same.mpr fun _ _ => rfl
    refine ⟨⟨own.gap, back⟩ :: backs, .cons ⟨hown.gap, hback⟩ hbacks, ?_, ?_⟩
    · rw [List.flatMap_cons, List.flatMap_cons, hold, Hunk.old, Hunk.new, hsource]
    · rw [List.flatMap_cons, List.flatMap_cons, Hunk.old, Hunk.new]
      exact List.rel_append (List.rel_append hgap htarget) hnew

/-- A file with exactly the lines of a diff fits in one way. -/
theorem eq_of_loosely {es own : List (Edit (List Char))} (h : List.Forall₂ Loosely es own) (hsource : source es = source own) :
    es = own := by
  induction h with
  | nil => rfl
  | cons hedit _ ih =>
    cases hedit with
    | keep _ | delete _ =>
      obtain ⟨rfl, hrest⟩ := List.cons.inj hsource
      rw [ih hrest]
    | insert line => rw [ih hsource]

theorem eq_of_looselyAt {hs owns : List (Hunk (List Char))} (h : List.Forall₂ LooselyAt hs owns) {rest rest' : List (List Char)}
    (hold : hs.flatMap Hunk.old ++ rest = owns.flatMap Hunk.old ++ rest') : hs = owns ∧ rest = rest' := by
  induction h with
  | nil => exact ⟨rfl, hold⟩
  | @cons h own hs owns hown _ ih =>
    rw [List.flatMap_cons, List.flatMap_cons, List.append_assoc, List.append_assoc] at hold
    obtain ⟨hhere, hrest⟩ := List.append_inj hold hown.lengths.1
    obtain ⟨hgap, hedits⟩ := List.append_inj hhere hown.gap
    obtain ⟨rfl, rfl⟩ := ih hrest
    have heq : h = own := by
      obtain ⟨gap, edits⟩ := h
      obtain ⟨gap', edits'⟩ := own
      obtain rfl : gap = gap' := hgap
      obtain rfl : edits = edits' := eq_of_loosely hown.edits hedits
      rfl
    exact ⟨congrArg (· :: hs) heq, rfl⟩

end OpenHands.Patching
