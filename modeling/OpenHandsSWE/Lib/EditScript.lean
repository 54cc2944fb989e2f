import Mathlib

/-! Edits of a list of lines: what a script takes and gives, hunks between lines that stay, the same script read
backwards, and strict application of hunks that are given by their places. -/

namespace EditScript

variable {α : Type*}

inductive Edit (α : Type*) where
  | keep (line : α)
  | delete (line : α)
  | insert (line : α)
deriving DecidableEq, Repr

def Edit.old : Edit α → List α
  | .keep line | .delete line => [line]
  | .insert _ => []

def Edit.new : Edit α → List α
  | .keep line | .insert line => [line]
  | .delete _ => []

def Edit.flip : Edit α → Edit α
  | .keep line => .keep line
  | .delete line => .insert line
  | .insert line => .delete line

def Edit.line : Edit α → α
  | .keep line | .delete line | .insert line => line

/-- The lines that a script takes. -/
def source (edits : List (Edit α)) : List α := edits.flatMap Edit.old

/-- The lines that it gives. -/
def target (edits : List (Edit α)) : List α := edits.flatMap Edit.new

section Scripts

variable (e : Edit α) (es fs : List (Edit α)) (lines : List α)

@[simp] theorem source_nil : source ([] : List (Edit α)) = [] := rfl

@[simp] theorem target_nil : target ([] : List (Edit α)) = [] := rfl

@[simp] theorem source_cons : source (e :: es) = e.old ++ source es := List.flatMap_cons

@[simp] theorem target_cons : target (e :: es) = e.new ++ target es := List.flatMap_cons

@[simp] theorem source_append : source (es ++ fs) = source es ++ source fs := List.flatMap_append

@[simp] theorem target_append : target (es ++ fs) = target es ++ target fs := List.flatMap_append

@[simp] theorem source_keep : source (lines.map Edit.keep) = lines := by
  induction lines with
  | nil => rfl
  | cons line lines ih => rw [List.map_cons, source_cons, ih]; rfl

@[simp] theorem target_keep : target (lines.map Edit.keep) = lines := by
  induction lines with
  | nil => rfl
  | cons line lines ih => rw [List.map_cons, target_cons, ih]; rfl

@[simp] theorem source_insert : source (lines.map Edit.insert) = [] := by
  induction lines with
  | nil => rfl
  | cons line lines ih => rw [List.map_cons, source_cons, ih]; rfl

@[simp] theorem target_insert : target (lines.map Edit.insert) = lines := by
  induction lines with
  | nil => rfl
  | cons line lines ih => rw [List.map_cons, target_cons, ih]; rfl

theorem Edit.old_flip : e.flip.old = e.new := by cases e <;> rfl

theorem Edit.new_flip : e.flip.new = e.old := by cases e <;> rfl

@[simp] theorem source_flip : source (es.map Edit.flip) = target es := by
  induction es with
  | nil => rfl
  | cons e es ih => rw [List.map_cons, source_cons, target_cons, ih, Edit.old_flip]

@[simp] theorem target_flip : target (es.map Edit.flip) = source es := by
  induction es with
  | nil => rfl
  | cons e es ih => rw [List.map_cons, source_cons, target_cons, ih, Edit.new_flip]

end Scripts

/-! ## Hunks between lines that stay -/

structure Hunk (α : Type*) where
  /-- The lines that stay, before it. -/
  gap : List α
  edits : List (Edit α)
deriving DecidableEq, Repr

structure Diff (α : Type*) where
  hunks : List (Hunk α)
  /-- The lines that stay, after the last one. -/
  rest : List α
deriving DecidableEq, Repr

def Hunk.old (h : Hunk α) : List α := h.gap ++ source h.edits

def Hunk.new (h : Hunk α) : List α := h.gap ++ target h.edits

def Hunk.flip (h : Hunk α) : Hunk α := ⟨h.gap, h.edits.map Edit.flip⟩

namespace Diff

def old (d : Diff α) : List α := d.hunks.flatMap Hunk.old ++ d.rest

def new (d : Diff α) : List α := d.hunks.flatMap Hunk.new ++ d.rest

/-- The way back. -/
def flip (d : Diff α) : Diff α := ⟨d.hunks.map Hunk.flip, d.rest⟩

theorem old_flip (d : Diff α) : d.flip.old = d.new := by
  have hhunk (h : Hunk α) : h.flip.old = h.new := by rw [Hunk.old, Hunk.new, Hunk.flip, source_flip]
  rw [old, new, flip, List.flatMap_map]
  simp only [hhunk]

theorem new_flip (d : Diff α) : d.flip.new = d.old := by
  have hhunk (h : Hunk α) : h.flip.new = h.old := by rw [Hunk.old, Hunk.new, Hunk.flip, target_flip]
  rw [old, new, flip, List.flatMap_map]
  simp only [hhunk]

end Diff

/-! ## Strict application -/

/-- A hunk with the number of lines before it. -/
structure Placed (α : Type*) where
  before : ℕ
  edits : List (Edit α)
deriving DecidableEq, Repr

/-- The places of hunks behind `done` lines. -/
def placesFrom (done : ℕ) : List (Hunk α) → List (Placed α)
  | [] => []
  | h :: hs => ⟨done + h.gap.length, h.edits⟩ :: placesFrom (done + h.old.length) hs

section Application

variable [DecidableEq α]

/-- Every hunk at its own place, from the line after `done`; a line that differs refuses all. -/
def patchFrom (done : ℕ) : List (Placed α) → List α → Option (List α)
  | [], lines => some lines
  | h :: hs, lines =>
    let gap := lines.take (h.before - done)
    let tail := lines.drop (h.before - done)
    if done ≤ h.before ∧ h.before - done ≤ lines.length ∧ source h.edits <+: tail then
      (patchFrom (h.before + (source h.edits).length) hs (tail.drop (source h.edits).length)).map
        (gap ++ target h.edits ++ ·)
    else none

def patch (hunks : List (Placed α)) (lines : List α) : Option (List α) := patchFrom 0 hunks lines

theorem patchFrom_places (done : ℕ) (hs : List (Hunk α)) (rest : List α) :
    patchFrom done (placesFrom done hs) (hs.flatMap Hunk.old ++ rest) = some (hs.flatMap Hunk.new ++ rest) := by
  induction hs generalizing done with
  | nil => rfl
  | cons h hs ih =>
    have hlines : (h :: hs).flatMap Hunk.old ++ rest = h.gap ++ (source h.edits ++ (hs.flatMap Hunk.old ++ rest)) := by
      rw [List.flatMap_cons, Hunk.old, List.append_assoc, List.append_assoc]
    have hplace : done + h.gap.length - done = h.gap.length := Nat.add_sub_cancel_left done h.gap.length
    have hfit : done ≤ done + h.gap.length ∧ h.gap.length ≤ (h.gap ++ (source h.edits ++ (hs.flatMap Hunk.old ++ rest))).length ∧
        source h.edits <+: source h.edits ++ (hs.flatMap Hunk.old ++ rest) :=
      ⟨Nat.le_add_right _ _, List.length_append ▸ Nat.le_add_right _ _, List.prefix_append _ _⟩
    have hdone : done + h.gap.length + (source h.edits).length = done + h.old.length := by
      rw [Hunk.old, List.length_append, Nat.add_assoc]
    rw [hlines, placesFrom, patchFrom]
    simp only [hplace, List.take_left, List.drop_left]
    rw [if_pos hfit, hdone, ih, Option.map_some, List.flatMap_cons, Hunk.new, ← List.append_assoc]

/-- What is applied strictly is a diff of the two texts. -/
theorem exists_of_patchFrom {done : ℕ} {ps : List (Placed α)} {lines out : List α} (h : patchFrom done ps lines = some out) :
    ∃ hs rest, placesFrom done hs = ps ∧ hs.flatMap Hunk.old ++ rest = lines ∧ hs.flatMap Hunk.new ++ rest = out := by
  induction ps generalizing done lines out with
  | nil => exact ⟨[], lines, rfl, rfl, Option.some.inj h⟩
  | cons p ps ih =>
    rw [patchFrom] at h
    split_ifs at h with hfit
    obtain ⟨hle, hlen, tail, htail⟩ := hfit
    obtain ⟨out', hout', rfl⟩ := Option.map_eq_some_iff.mp h
    rw [← htail, List.drop_left] at hout'
    obtain ⟨hs, rest, rfl, hold, rfl⟩ := ih hout'
    have hgap : (lines.take (p.before - done)).length = p.before - done := List.length_take_of_le hlen
    refine ⟨⟨lines.take (p.before - done), p.edits⟩ :: hs, rest, ?_, ?_, ?_⟩
    · have hbefore : done + (p.before - done) = p.before := Nat.add_sub_cancel' hle
      rw [placesFrom, Hunk.old, List.length_append, hgap, ← Nat.add_assoc, hbefore]
    · rw [List.flatMap_cons, Hunk.old, List.append_assoc, List.append_assoc, hold, htail, List.take_append_drop]
    · rw [List.flatMap_cons, Hunk.new, List.append_assoc]

theorem patchFrom_eq_some_iff {done : ℕ} {ps : List (Placed α)} {lines out : List α} :
    patchFrom done ps lines = some out ↔
      ∃ hs rest, placesFrom done hs = ps ∧ hs.flatMap Hunk.old ++ rest = lines ∧ hs.flatMap Hunk.new ++ rest = out := by
  constructor
  · exact exists_of_patchFrom
  · rintro ⟨hs, rest, rfl, rfl, rfl⟩
    exact patchFrom_places done hs rest

theorem patch_diff (d : Diff α) : patch (placesFrom 0 d.hunks) d.old = some d.new := patchFrom_places 0 d.hunks d.rest

end Application

/-! ## Trimming -/

section Trimming

/-- A way to cut a script: lines that stay, the script between, lines that stay. -/
structure Cut (α : Type*) where
  lead : List (Edit α) → List α
  body : List (Edit α) → List (Edit α)
  tail : List (Edit α) → List α
  whole : ∀ es, (lead es).map Edit.keep ++ (body es ++ (tail es).map Edit.keep) = es

variable (cut : Cut α)

def Placed.trim (p : Placed α) : Placed α := ⟨p.before + (cut.lead p.edits).length, cut.body p.edits⟩

/-- What is cut off goes to the gaps; the lines behind the last hunk are left over. -/
def recut (carry : List α) : List (Hunk α) → List (Hunk α) × List α
  | [] => ([], carry)
  | h :: hs =>
    (⟨carry ++ h.gap ++ cut.lead h.edits, cut.body h.edits⟩ :: (recut (cut.tail h.edits) hs).1, (recut (cut.tail h.edits) hs).2)

theorem Cut.source (es : List (Edit α)) : cut.lead es ++ (source (cut.body es) ++ cut.tail es) = source es := by
  conv_rhs => rw [← cut.whole es, source_append, source_append, source_keep, source_keep]

theorem Cut.target (es : List (Edit α)) : cut.lead es ++ (target (cut.body es) ++ cut.tail es) = target es := by
  conv_rhs => rw [← cut.whole es, target_append, target_append, target_keep, target_keep]

theorem old_recut (carry rest : List α) (hs : List (Hunk α)) :
    (recut cut carry hs).1.flatMap Hunk.old ++ ((recut cut carry hs).2 ++ rest) = carry ++ (hs.flatMap Hunk.old ++ rest) := by
  induction hs generalizing carry with
  | nil => rfl
  | cons h hs ih =>
    have hold : h.old = h.gap ++ (cut.lead h.edits ++ (source (cut.body h.edits) ++ cut.tail h.edits)) := by
      rw [Hunk.old, cut.source]
    rw [recut, List.flatMap_cons, List.append_assoc, ih, List.flatMap_cons, hold, Hunk.old]
    simp only [List.append_assoc]

theorem new_recut (carry rest : List α) (hs : List (Hunk α)) :
    (recut cut carry hs).1.flatMap Hunk.new ++ ((recut cut carry hs).2 ++ rest) = carry ++ (hs.flatMap Hunk.new ++ rest) := by
  induction hs generalizing carry with
  | nil => rfl
  | cons h hs ih =>
    have hnew : h.new = h.gap ++ (cut.lead h.edits ++ (target (cut.body h.edits) ++ cut.tail h.edits)) := by
      rw [Hunk.new, cut.target]
    rw [recut, List.flatMap_cons, List.append_assoc, ih, List.flatMap_cons, hnew, Hunk.new]
    simp only [List.append_assoc]

theorem placesFrom_recut (done : ℕ) (carry : List α) (hs : List (Hunk α)) :
    placesFrom done (recut cut carry hs).1 = (placesFrom (done + carry.length) hs).map (Placed.trim cut) := by
  induction hs generalizing done carry with
  | nil => rfl
  | cons h hs ih =>
    have hlength : (source h.edits).length =
        (cut.lead h.edits).length + ((source (cut.body h.edits)).length + (cut.tail h.edits).length) := by
      rw [← cut.source h.edits, List.length_append, List.length_append]
    rw [recut, placesFrom, ih, placesFrom, List.map_cons, Placed.trim]
    simp only [Hunk.old, List.length_append, hlength, Nat.add_assoc]

variable [DecidableEq α]

/-- A patch that applies does the same when its hunks are trimmed. -/
theorem patch_trim {ps : List (Placed α)} {lines out : List α} (h : patch ps lines = some out) :
    patch (ps.map (Placed.trim cut)) lines = some out := by
  obtain ⟨hs, rest, rfl, rfl, rfl⟩ := exists_of_patchFrom h
  have hplaces := placesFrom_recut cut 0 [] hs
  have happly := patchFrom_places 0 (recut cut [] hs).1 ((recut cut [] hs).2 ++ rest)
  rw [old_recut, new_recut, hplaces] at happly
  exact happly

end Trimming

/-! ## The changed lines of a script -/

section Changed

def Edit.isKeep : Edit α → Bool
  | .keep _ => true
  | .delete _ | .insert _ => false

theorem exists_keep {es : List (Edit α)} (h : ∀ e ∈ es, e.isKeep = true) : (es.map Edit.line).map Edit.keep = es := by
  rw [List.map_map]
  refine (List.map_congr_left fun e he => ?_).trans (List.map_id es)
  cases e with
  | keep line => rfl
  | delete line | insert line => cases h _ he

/-- From the first change to the last one. -/
def core (es : List (Edit α)) : List (Edit α) := (es.dropWhile Edit.isKeep).rdropWhile Edit.isKeep

def linesBefore (es : List (Edit α)) : List α := (es.takeWhile Edit.isKeep).map Edit.line

def linesAfter (es : List (Edit α)) : List α := ((es.dropWhile Edit.isKeep).rtakeWhile Edit.isKeep).map Edit.line

theorem core_whole (es : List (Edit α)) : (linesBefore es).map Edit.keep ++ (core es ++ (linesAfter es).map Edit.keep) = es := by
  have hbefore : (linesBefore es).map Edit.keep = es.takeWhile Edit.isKeep :=
    exists_keep fun e he => List.mem_takeWhile_imp he
  have hafter : (linesAfter es).map Edit.keep = (es.dropWhile Edit.isKeep).rtakeWhile Edit.isKeep :=
    exists_keep fun e he => List.mem_rtakeWhile_imp he
  rw [hbefore, hafter, core, List.rdropWhile_append_rtakeWhile, List.takeWhile_append_dropWhile]

end Changed

end EditScript
