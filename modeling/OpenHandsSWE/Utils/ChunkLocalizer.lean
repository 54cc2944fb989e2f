import OpenHandsSWE.Lib.Binary64
import OpenHandsSWE.Lib.Lines
import OpenHandsSWE.Lib.Python

/-! The chunks of a file: how it is cut, and which chunks match a draft best. -/

namespace OpenHands.ChunkLocalizer
open Text

structure Chunk where
  text : List Char
  /-- The first and the last line, counted from 1. -/
  lineRange : ℕ × ℕ
  normalizedLcs : Option ℚ := none

def Chunk.visualize (chunk : Chunk) : Except PyError (List Char) :=
  let lines := split ['\n'] chunk.text
  if (lines.length : ℤ) = chunk.lineRange.2 - chunk.lineRange.1 + 1 then
    .ok (lines.zipIdx.flatMap fun line => (toString (chunk.lineRange.1 + line.2)).toList ++ '|' :: line.1 ++ ['\n'])
  else .error (.assertionError "")

/-- `range(0, length, size)`. -/
def pyRange (length size : ℕ) : List ℕ := (List.range ((length + size - 1) / size)).map (· * size)

def chunkAt (lines : List (List Char)) (size i : ℕ) : Chunk :=
  let curLines := (lines.drop i).take size
  { text := List.intercalate ['\n'] curLines, lineRange := (i + 1, i + curLines.length) }

def createChunksFromRawString (content : List Char) (size : ℤ) : Except PyError (List Chunk) :=
  let lines := split ['\n'] content
  if size = 0 then .error (.valueError "range() arg 3 must not be zero")
  else if size < 0 then .ok []
  else .ok ((pyRange lines.length size.toNat).map (chunkAt lines size.toNat))

inductive Raised where
  | notImplementedError (message : String)
  | python (e : PyError)
deriving DecidableEq, Repr

/-- `getParser` finds the parser of a language, or raises. -/
def createChunks (getParser : String → Except PyError Unit) (text : List Char) (size : ℤ) (language : Option String) :
    Except Raised (List Chunk) :=
  match language.map getParser with
  | none | some (.error (.attributeError _)) => (createChunksFromRawString text size).mapError .python
  | some (.error e) => .error (.python e)
  | some (.ok _) => .error (.notImplementedError "Tree-sitter chunking not implemented yet.")

section Matches

variable (getParser : String → Except PyError Unit) (similarity : List Char → List Char → ℕ)

/-- The quotient of two numbers, of which the first is the smaller one, is a double. -/
def normalizedLcs (chunk query : List Char) : ℚ :=
  if chunk.length = 0 then 0 else (Binary64.nearest (similarity chunk query / chunk.length)).getD 0

def scored (query : List Char) (chunk : Chunk) : Chunk :=
  { chunk with normalizedLcs := some (normalizedLcs similarity chunk.text query) }

def getTopKChunkMatches (text query : List Char) (k maxChunkSize : ℤ) : Except Raised (List Chunk) :=
  (createChunks getParser text maxChunkSize none).map fun rawChunks =>
    Py.takeTo ((rawChunks.map (scored similarity query)).mergeSort fun a b =>
      decide (b.normalizedLcs.getD 0 ≤ a.normalizedLcs.getD 0)) k

end Matches

/-! ## The tiles of a text -/

/-- The ranges follow on each other, from a first line to a last one. -/
def Covers : ℕ → ℕ → List (ℕ × ℕ) → Prop
  | first, last, [] => first = last + 1
  | first, last, range :: ranges => range.1 = first ∧ range.1 ≤ range.2 ∧ Covers (range.2 + 1) last ranges

structure Tiles (text : List Char) (size : ℕ) (chunks : List Chunk) : Prop where
  joined : List.intercalate ['\n'] (chunks.map Chunk.text) = text
  covers : Covers 1 (split ['\n'] text).length (chunks.map Chunk.lineRange)
  short : ∀ chunk ∈ chunks, (split ['\n'] chunk.text).length ≤ size

theorem Covers.append {first middle last : ℕ} {ranges others : List (ℕ × ℕ)} (h : Covers first middle ranges)
    (hothers : Covers (middle + 1) last others) : Covers first last (ranges ++ others) := by
  induction ranges generalizing first with
  | nil =>
    obtain rfl : first = middle + 1 := h
    exact hothers
  | cons range ranges ih => exact ⟨h.1, h.2.1, ih h.2.2⟩

section Cut

variable {lines : List (List Char)} {size : ℕ}

/-- The lines of the chunk that begins with the `i`-th. -/
def linesAt (lines : List (List Char)) (size i : ℕ) : List (List Char) := (lines.drop i).take size

theorem lineRange_chunkAt (i : ℕ) : (chunkAt lines size i).lineRange = (i + 1, i + (linesAt lines size i).length) := rfl

theorem mem_pyRange {length i : ℕ} (hsize : 0 < size) (h : i ∈ pyRange length size) : i < length := by
  obtain ⟨j, hj, rfl⟩ := List.mem_map.mp h
  have hlast : (j + 1) * size ≤ length + size - 1 :=
    (Nat.le_div_iff_mul_le hsize).mp (Nat.succ_le_of_lt (List.mem_range.mp hj))
  rw [Nat.succ_mul] at hlast
  omega

theorem le_count_mul (length : ℕ) (hsize : 0 < size) : length ≤ (length + size - 1) / size * size := by
  have hrest := Nat.div_add_mod (length + size - 1) size
  have hsmall := Nat.mod_lt (length + size - 1) hsize
  rw [Nat.mul_comm] at hrest
  omega

theorem linesAt_ne_nil (hsize : 0 < size) {i : ℕ} (hi : i < lines.length) : linesAt lines size i ≠ [] := by
  intro hnil
  have hlength := congrArg List.length hnil
  rw [linesAt, List.length_take, List.length_drop, List.length_nil] at hlength
  omega

theorem flatten_linesAt (count : ℕ) :
    ((List.range count).map fun j => linesAt lines size (j * size)).flatten = lines.take (count * size) := by
  induction count with
  | zero => simp
  | succ count ih =>
    rw [List.range_succ, List.map_append, List.flatten_append, ih, List.map_singleton, List.flatten_singleton, linesAt,
      Nat.succ_mul, List.take_add]

theorem covers_linesAt (hsize : 0 < size) {count : ℕ} (hcount : ∀ j < count, j * size < lines.length) :
    Covers 1 (min (count * size) lines.length)
      ((List.range count).map fun j => (chunkAt lines size (j * size)).lineRange) := by
  induction count with
  | zero => simp [Covers]
  | succ count ih =>
    have hstart : count * size < lines.length := hcount count (Nat.lt_succ_self count)
    rw [List.range_succ, List.map_append, List.map_singleton]
    refine (ih fun j hj => hcount j (hj.trans (Nat.lt_succ_self count))).append ?_
    rw [Nat.min_eq_left hstart.le, lineRange_chunkAt, linesAt, List.length_take, List.length_drop, Nat.succ_mul]
    refine ⟨rfl, ?_, ?_⟩
    · dsimp only
      omega
    · change _ + 1 = _ + 1
      omega

theorem pyRange_lt (hsize : 0 < size) (length : ℕ) : ∀ j < (length + size - 1) / size, j * size < length :=
  fun _ hj => mem_pyRange hsize (List.mem_map_of_mem (List.mem_range.mpr hj))

/-- The text of a chunk has its lines again. -/
theorem split_chunkAt (hlines : ∀ line ∈ lines, '\n' ∉ line) (hsize : 0 < size) {i : ℕ} (hi : i < lines.length) :
    split ['\n'] (chunkAt lines size i).text = linesAt lines size i := by
  refine split_intercalate (linesAt_ne_nil hsize hi) fun line hline => hlines line ?_
  exact List.mem_of_mem_drop (List.mem_of_mem_take hline)

end Cut

section Results

variable {getParser : String → Except PyError Unit} {text : List Char} {size : ℕ}

/-- The chunks of a text. -/
def chunksOf (text : List Char) (size : ℕ) : List Chunk :=
  (pyRange (split ['\n'] text).length size).map (chunkAt (split ['\n'] text) size)

theorem createChunks_eq (hsize : 0 < size) : createChunks getParser text size none = .ok (chunksOf text size) := by
  have hne : (size : ℤ) ≠ 0 := by omega
  have hpos : ¬ (size : ℤ) < 0 := by omega
  change (createChunksFromRawString text size).mapError Raised.python = _
  rw [createChunksFromRawString, if_neg hne, if_neg hpos]
  rfl

/-- A chunk has as many lines as its range says, and no more than its size. -/
theorem split_of_mem (hsize : 0 < size) {chunk : Chunk} (h : chunk ∈ chunksOf text size) :
    (split ['\n'] chunk.text).length ≤ size ∧
      (chunk.lineRange.2 : ℤ) - chunk.lineRange.1 + 1 = (split ['\n'] chunk.text).length := by
  obtain ⟨i, hi, rfl⟩ := List.mem_map.mp h
  have hlines := split_chunkAt (split_notMem '\n' text) hsize (mem_pyRange hsize hi)
  rw [hlines, lineRange_chunkAt]
  refine ⟨List.length_take_le _ _, ?_⟩
  push_cast
  ring

theorem tiles_chunksOf (hsize : 0 < size) : Tiles text size (chunksOf text size) where
  joined := by
    have hblocks : ∀ block ∈ (List.range (((split ['\n'] text).length + size - 1) / size)).map
        fun j => linesAt (split ['\n'] text) size (j * size), block ≠ [] := by
      intro block hblock
      obtain ⟨j, hj, rfl⟩ := List.mem_map.mp hblock
      exact linesAt_ne_nil hsize (pyRange_lt hsize _ j (List.mem_range.mp hj))
    have hjoin := intercalate_flatten ['\n'] hblocks
    rw [flatten_linesAt, List.take_of_length_le (le_count_mul _ hsize), intercalate_split _ (List.cons_ne_nil _ _)] at hjoin
    refine Eq.trans ?_ hjoin
    rw [chunksOf, pyRange, List.map_map, List.map_map, List.map_map]
    rfl
  covers := by
    have hcovers := covers_linesAt hsize (pyRange_lt hsize (split ['\n'] text).length)
    rw [Nat.min_eq_right (le_count_mul _ hsize)] at hcovers
    rw [chunksOf, pyRange, List.map_map, List.map_map]
    exact hcovers
  short chunk hchunk := (split_of_mem hsize hchunk).1

/-- The assertion looks at the text and the range alone. -/
theorem exists_visualize {chunk : Chunk}
    (h : (chunk.lineRange.2 : ℤ) - chunk.lineRange.1 + 1 = (split ['\n'] chunk.text).length) :
    ∃ shown, chunk.visualize = .ok shown := by
  rw [Chunk.visualize, if_pos h.symm]
  exact ⟨_, rfl⟩

theorem getTopKChunkMatches_visualize (similarity : List Char → List Char → ℕ) (hsize : 0 < size) (query : List Char)
    (k : ℤ) : ∃ found, getTopKChunkMatches getParser similarity text query k size = .ok found ∧
      ∀ chunk ∈ found, ∃ shown, chunk.visualize = .ok shown := by
  rw [getTopKChunkMatches, createChunks_eq hsize]
  refine ⟨_, rfl, fun chunk hchunk => ?_⟩
  have hsorted : chunk ∈ (chunksOf text size).map (scored similarity query) :=
    List.mem_mergeSort.mp (Py.mem_of_mem_takeTo hchunk)
  obtain ⟨raw, hraw, rfl⟩ := List.mem_map.mp hsorted
  exact exists_visualize (split_of_mem hsize hraw).2

end Results

/-- The chunks tile the text, and every match can be shown. -/
theorem chunks_tile (getParser : String → Except PyError Unit) (similarity : List Char → List Char → ℕ)
    (text : List Char) (size : ℕ) (hsize : 1 ≤ size) :
    ∃ chunks, createChunks getParser text size none = .ok chunks ∧ Tiles text size chunks ∧
      ∀ query k, ∃ found, getTopKChunkMatches getParser similarity text query k size = .ok found ∧
        ∀ chunk ∈ found, ∃ shown, chunk.visualize = .ok shown :=
  ⟨chunksOf text size, createChunks_eq hsize, tiles_chunksOf hsize, getTopKChunkMatches_visualize similarity hsize⟩

/-- Three lines in chunks of two, of which the last is empty. -/
theorem chunks_tile_two : 1 ≤ 2 ∧ ∃ chunks,
    createChunks (fun _ => .error (.attributeError "language")) "a\nb\n".toList (2 : ℕ) none = .ok chunks ∧
      Tiles "a\nb\n".toList 2 chunks ∧
      ∀ query k, ∃ found, getTopKChunkMatches (fun _ => .error (.attributeError "language"))
          (fun chunk query => (chunk.filter (· ∈ query)).length) "a\nb\n".toList query k (2 : ℕ) = .ok found ∧
        ∀ chunk ∈ found, ∃ shown, chunk.visualize = .ok shown :=
  ⟨by decide, chunks_tile _ _ _ 2 (by decide)⟩

end OpenHands.ChunkLocalizer
