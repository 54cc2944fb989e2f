import Mathlib.Data.List.Perm.Subperm
import OpenHandsSWE.Lib.JsonCodec
import OpenHandsSWE.Lib.JsonPrefix
import OpenHandsSWE.Lib.Lines
import OpenHandsSWE.Lib.Runs

/-! The evaluation of a dataset: runs that are killed, and taken up again from the output file. -/

namespace OpenHands.Evaluation
open Text

/-! ## The output file -/

/-- `str` of what stands under the id; nothing but texts and numbers is written there. -/
def pyStr : Json → Option String
  | .str s => some s
  | .int n => some (toString n)
  | _ => none

def recordId (line : List Char) : Option String :=
  match Json.loads line with
  | some (.obj kvs) => (Assoc.get? "instance_id" kvs).bind pyStr
  | _ => none

/-- The ids of the lines of a file; a line that is no record raises. -/
def readIds (file : List Char) : Option (List String) := (keepLines '\n' file).mapM recordId

structure EvalOutput where
  instanceId : String
  testResult : List (String × Json) := []
  instruction : Option String := none
  metadata : Json := .null
  history : Json := .null
  metrics : Json := .null
  error : Option String := none
  testInstance : Json := .null
  wellFormed : ∀ j ∈ [.obj testResult, metadata, history, metrics, testInstance], j.WellFormed

def orNull (text : Option String) : Json := text.elim .null .str

def EvalOutput.modelDump (result : EvalOutput) : Json := .obj [
  ("instance_id", .str result.instanceId), ("test_result", .obj result.testResult),
  ("instruction", orNull result.instruction), ("metadata", result.metadata), ("history", result.history),
  ("metrics", result.metrics), ("error", orNull result.error), ("instance", result.testInstance)]

/-- `model_dump_json`: the text of a value. Its control characters are escaped, so that it stands on one line. -/
structure Dumper where
  dumps : Json → List Char
  loads_dumps : ∀ j : Json, j.WellFormed → Json.loads (dumps j) = some j
  printed : ∀ j, Json.Printed (dumps j)
  braces : ∀ kvs, ∃ body, dumps (.obj kvs) = '{' :: (body ++ ['}'])

def EvalOutput.record (dumper : Dumper) (result : EvalOutput) : List Char := dumper.dumps result.modelDump

/-- What `update_progress` writes for one result after the other. -/
def progress (dumper : Dumper) (results : List EvalOutput) : List Char :=
  ended '\n' (results.map (EvalOutput.record dumper))

/-! ## The dataset -/

/-- A dataset, with what its ids are: texts, or numbers. -/
structure Dataset (ρ α : Type*) where
  rows : List ρ
  instanceId : ρ → α
  str : α → String
  convert : String → α
  distinct : (rows.map instanceId).Nodup
  str_injective : Function.Injective str

/-- The arguments of `prepare_dataset`; `sample` is that of the seed. -/
structure Choice (ρ : Type*) where
  evalIds : List String := []
  skipNum : Option Int := none
  evalNLimit : Int := 0
  filterFunc : Option (List ρ → List ρ) := none
  sample : ℕ → List ρ → List ρ
  filterFunc_rows : ∀ f ∈ filterFunc, ∀ rows, (f rows).Subperm rows
  sample_rows : ∀ n rows, (sample n rows).Subperm rows

section Prepare

variable {ρ α : Type*} [DecidableEq α] (d : Dataset ρ α) (choice : Choice ρ)

def Dataset.id (row : ρ) : String := d.str (d.instanceId row)

def Choice.limited (rows : List ρ) : List ρ :=
  if 0 < choice.evalNLimit then choice.sample (min choice.evalNLimit.toNat rows.length) rows else rows

def Choice.picked : List ρ :=
  if choice.evalIds ≠ [] then d.rows.filter fun row => d.instanceId row ∈ choice.evalIds.map d.convert
  else
    match choice.skipNum.filter (0 < ·) with
    | some n => choice.limited (d.rows.drop (min n.toNat d.rows.length))
    | none => choice.limited d.rows

/-- The instances that are chosen, finished or not. -/
def Choice.selected : List ρ := choice.filterFunc.elim (choice.picked d) (· (choice.picked d))

/-- `none` when a line of the file is no record. -/
def prepareDataset (file : List Char) : Option (List ρ) :=
  (readIds file).map fun finished => (choice.selected d).filter fun row => d.id row ∉ finished

end Prepare

/-! ## Runs -/

/-- How the instances of a run are evaluated: what comes out, and in which order it comes out of the pool. -/
structure Worker {ρ α : Type*} (d : Dataset ρ α) where
  numWorkers : ℕ
  evaluate : ρ → EvalOutput
  schedule : List EvalOutput → List EvalOutput
  evaluate_id : ∀ row, (evaluate row).instanceId = d.id row
  schedule_perm : ∀ results, (schedule results).Perm results
  schedule_single : numWorkers ≤ 1 → ∀ results, schedule results = results

section Run

variable {ρ α : Type*} [DecidableEq α] {d : Dataset ρ α} (dumper : Dumper) (choice : Choice ρ)

def Worker.results (w : Worker d) (rows : List ρ) : List EvalOutput := w.schedule (rows.map w.evaluate)

/-- A run that completes. -/
def runEvaluation (w : Worker d) (file : List Char) : Option (List Char) :=
  (prepareDataset d choice file).map fun rows => file ++ progress dumper (w.results rows)

/-- A run that is killed when `n` characters are written. -/
def killedRun (w : Worker d) (n : ℕ) (file : List Char) : Option (List Char) :=
  (prepareDataset d choice file).map fun rows => file ++ (progress dumper (w.results rows)).take n

def killedRuns (killed : List (Worker d × ℕ)) (file : List Char) : Option (List Char) :=
  killed.foldlM (fun file run => killedRun dumper choice run.1 run.2 file) file

/-- The file is that of the results; the end of its last line can be missing. -/
def IsFileOf (file : List Char) (results : List EvalOutput) : Prop :=
  file = progress dumper results ∨ file ++ ['\n'] = progress dumper results

/-- No run fails, and in the end there is one record for each instance that is chosen. -/
def Resumes (killed : List (Worker d × ℕ)) (last : Worker d) : Prop :=
  ∃ file results, (killedRuns dumper choice killed []).bind (runEvaluation dumper choice last) = some file ∧
    IsFileOf dumper file results ∧ (results.map EvalOutput.instanceId).Perm ((choice.selected d).map d.id)

/-- A run is killed behind the line of a result, or when all is written but the end of the last line at most. -/
def StopsBetween (file : List Char) (run : Worker d × ℕ) : Prop :=
  ∀ rows, prepareDataset d choice file = some rows →
    (∃ k, (progress dumper ((run.1.results rows).take k)).length = run.2) ∨
      (progress dumper (run.1.results rows)).length ≤ run.2 + 1

/-- The file after a run, if it does not fail. -/
def afterRun (file : List Char) (run : Worker d × ℕ) : List Char :=
  (killedRun dumper choice run.1 run.2 file).getD file

end Run

/-! ## What is read from a file -/

section Records

variable {dumper : Dumper} {results : List EvalOutput} {result : EvalOutput}

theorem EvalOutput.wellFormed_modelDump (result : EvalOutput) : result.modelDump.WellFormed := by
  have hnull : ∀ text, (orNull text).WellFormed := fun text => by cases text <;> trivial
  have hall := result.wellFormed
  simp only [List.forall_mem_cons] at hall
  obtain ⟨htest, hmetadata, hhistory, hmetrics, hinstance, -⟩ := hall
  refine Json.wellFormed_obj (by decide : ["instance_id", "test_result", "instruction", "metadata", "history", "metrics",
    "error", "instance"].Nodup) ?_
  have hid : (Json.str result.instanceId).WellFormed := trivial
  intro j hj
  simp only [List.map_cons, List.map_nil, List.mem_cons, List.not_mem_nil, or_false] at hj
  rcases hj with rfl | rfl | rfl | rfl | rfl | rfl | rfl | rfl
  · exact hid
  · exact htest
  · exact hnull _
  · exact hmetadata
  · exact hhistory
  · exact hmetrics
  · exact hnull _
  · exact hinstance

theorem EvalOutput.loads_record (dumper : Dumper) (result : EvalOutput) : Json.loads (result.record dumper) = some result.modelDump :=
  dumper.loads_dumps _ result.wellFormed_modelDump

theorem EvalOutput.record_braces (dumper : Dumper) (result : EvalOutput) :
    ∃ body, result.record dumper = '{' :: (body ++ ['}']) := dumper.braces _

theorem EvalOutput.record_oneLine : '\n' ∉ result.record dumper := (dumper.printed _).newline_notMem

/-- A record with more behind it is read only if that is white space. -/
theorem recordId_append (dumper : Dumper) (result : EvalOutput) (s : List Char) :
    recordId (result.record dumper ++ s) = if Json.skipSpace s = [] then some result.instanceId else none := by
  obtain ⟨body, hbody⟩ := result.record_braces dumper
  have hloads := result.loads_record dumper
  rw [hbody] at hloads
  rw [recordId, hbody, Json.loads_append hloads]
  split_ifs
  · rfl
  · rfl

/-- A record that is cut off is not read. -/
theorem recordId_cut {r : List Char} (hr : r ≠ []) (hbegins : r <+: result.record dumper) (hne : r ≠ result.record dumper) :
    recordId r = none := by
  obtain ⟨s, hs⟩ := hbegins
  obtain ⟨body, hbody⟩ := result.record_braces dumper
  have hloads := result.loads_record dumper
  obtain ⟨c, r, rfl⟩ := List.exists_cons_of_ne_nil hr
  have hc : c = '{' := by
    rw [hbody] at hs
    exact (List.cons.inj hs).1
  subst hc
  have hsne : s ≠ [] := by
    rintro rfl
    exact hne (by rw [← hs, List.append_nil])
  have hblank : Json.skipSpace s ≠ [] := by
    intro hall
    obtain ⟨init, last, rfl⟩ := (List.eq_nil_or_concat' s).resolve_left hsne
    have hlast : last = '}' := by
      have heq : ('{' :: r ++ init) ++ [last] = ('{' :: body) ++ ['}'] := by
        rw [List.append_assoc, hs, hbody]
        rfl
      exact List.singleton_inj.mp (List.append_inj' heq rfl).2
    have hspace := List.dropWhile_eq_nil_iff.mp hall last (by simp)
    rw [hlast] at hspace
    exact absurd hspace (by decide)
  rw [← hs] at hloads
  rw [recordId, Json.loads_prefix_eq_none hloads hblank]

theorem mapM_eq_none {line : List Char} {lines : List (List Char)} (hmem : line ∈ lines) (hline : recordId line = none) :
    lines.mapM recordId = none := by
  induction lines with
  | nil => cases hmem
  | cons l lines ih =>
    rw [List.mapM_cons]
    rcases List.mem_cons.mp hmem with rfl | hmem
    · rw [hline]
      rfl
    · cases recordId l with
      | none => rfl
      | some id => rw [ih hmem]; rfl

theorem mapM_lines (results : List EvalOutput) (lines : List (List Char)) :
    ((results.map (EvalOutput.record dumper)).map (· ++ ['\n']) ++ lines).mapM recordId =
      (lines.mapM recordId).map (results.map EvalOutput.instanceId ++ ·) := by
  induction results with
  | nil =>
    rw [List.map_nil, List.map_nil, List.map_nil, List.nil_append]
    exact (congrFun Option.map_id _).symm
  | cons result results ih =>
    rw [List.map_cons, List.map_cons, List.cons_append, List.mapM_cons, recordId_append, if_pos (by decide), ih]
    cases lines.mapM recordId <;> rfl

theorem keepLines_progress (results : List EvalOutput) (r : List Char) :
    keepLines '\n' (progress dumper results ++ r) =
      (results.map (EvalOutput.record dumper)).map (· ++ ['\n']) ++ keepLines '\n' r := by
  induction results with
  | nil => rfl
  | cons result results ih =>
    rw [progress, List.map_cons, ended_cons, List.append_assoc, List.cons_append, keepLines_append_letter
      result.record_oneLine]
    exact congrArg _ ih

/-- What is read of the records, and of what follows them. -/
theorem readIds_append (dumper : Dumper) (results : List EvalOutput) (r : List Char) :
    readIds (progress dumper results ++ r) = (readIds r).map (results.map EvalOutput.instanceId ++ ·) := by
  rw [readIds, keepLines_progress, mapM_lines]
  rfl

theorem readIds_progress (results : List EvalOutput) :
    readIds (progress dumper results) = some (results.map EvalOutput.instanceId) := by
  have h := readIds_append dumper results []
  have hnil : readIds [] = some [] := rfl
  rwa [List.append_nil, hnil, Option.map_some, List.append_nil] at h

theorem readIds_line {r : List Char} (hr : r ≠ []) (hline : '\n' ∉ r) : readIds r = (recordId r).map fun id => [id] := by
  rw [readIds, keepLines_of_notMem hline, lastLine, if_neg hr, List.mapM_cons, List.mapM_nil]
  cases recordId r <;> rfl

theorem progress_append (results others : List EvalOutput) :
    progress dumper (results ++ others) = progress dumper results ++ progress dumper others := by
  rw [progress, List.map_append, ended_append]
  rfl

theorem progress_nil : progress dumper [] = [] := rfl

theorem progress_singleton (result : EvalOutput) : progress dumper [result] = result.record dumper ++ ['\n'] := by
  rw [progress, List.map_singleton, ended, List.flatMap_singleton]

/-- What is written when only the end of the last line is missing. -/
theorem take_unended {n : ℕ} (hlong : (progress dumper results).length ≤ n + 1) (hshort : n < (progress dumper results).length) :
    (progress dumper results).take n ++ ['\n'] = progress dumper results := by
  rcases List.eq_nil_or_concat' results with rfl | ⟨init, last, rfl⟩
  · exact absurd hshort (Nat.not_lt_zero n)
  · rw [progress_append, progress_singleton, ← List.append_assoc] at hlong hshort ⊢
    rw [List.length_append, List.length_singleton] at hlong hshort
    rw [List.take_left' (by omega)]

/-- What is written when the writing stops within a line: the lines before, and some of the record. -/
theorem take_within {n : ℕ} (hends : ∀ k, (progress dumper (results.take k)).length ≠ n)
    (hshort : n < (progress dumper results).length) :
    ∃ done output later r, results = done ++ output :: later ∧ r ≠ [] ∧ r <+: output.record dumper ∧
      (progress dumper results).take n = progress dumper done ++ r ∧ n = (progress dumper done ++ r).length := by
  rcases take_ended '\n' (results.map (EvalOutput.record dumper)) n with
    ⟨k, -, hk⟩ | ⟨before, p, after, r, hsplit, hr, hbegins, htake, hn⟩
  · rw [← List.map_take] at hk
    rcases hk with hk | hk
    · exact absurd hk (hends k)
    · exact absurd hk (Nat.not_le_of_lt hshort)
  · obtain ⟨done, rest, rfl, rfl, hrest⟩ := List.map_eq_append_iff.mp hsplit
    obtain ⟨output, later, rfl, rfl, rfl⟩ := List.map_eq_cons_iff.mp hrest
    refine ⟨done, output, later, r, rfl, hr, hbegins, htake, ?_⟩
    rw [List.length_append]
    exact hn

/-- The file whose last line has no end is that of the results but one, and the record of this one. -/
theorem exists_of_unended {file : List Char} (h : file ++ ['\n'] = progress dumper results) :
    ∃ init last, results = init ++ [last] ∧ file = progress dumper init ++ last.record dumper := by
  rcases List.eq_nil_or_concat' results with rfl | ⟨init, last, rfl⟩
  · exact absurd h (List.append_ne_nil_of_right_ne_nil _ (List.cons_ne_nil _ _))
  · rw [progress_append, progress_singleton, ← List.append_assoc] at h
    exact ⟨init, last, rfl, (List.append_inj' h rfl).1⟩

theorem readIds_isFileOf {file : List Char} (h : IsFileOf dumper file results) :
    readIds file = some (results.map EvalOutput.instanceId) := by
  rcases h with rfl | hended
  · exact readIds_progress results
  · obtain ⟨init, last, rfl, rfl⟩ := exists_of_unended hended
    have hne : last.record dumper ≠ [] := by
      obtain ⟨body, hbody⟩ := last.record_braces dumper
      rw [hbody]
      exact List.cons_ne_nil _ _
    have hid := recordId_append dumper last []
    rw [List.append_nil, if_pos (by decide)] at hid
    rw [readIds_append, readIds_line hne last.record_oneLine, hid]
    simp

/-- The first line of a text begins with what has no line end. -/
theorem exists_firstLine {u : List Char} (hu : u ≠ []) (hline : '\n' ∉ u) (v : List Char) :
    ∃ tail lines, keepLines '\n' (u ++ v) = (u ++ tail) :: lines := by
  induction u with
  | nil => exact absurd rfl hu
  | cons c u ih =>
    obtain ⟨hc, hline⟩ := not_or.mp fun h => hline (List.mem_cons.mpr h)
    rw [List.cons_append, keepLines, if_neg (Ne.symm hc)]
    by_cases hu : u = []
    · subst hu
      cases keepLines '\n' ([] ++ v) with
      | nil => exact ⟨[], [], rfl⟩
      | cons line lines => exact ⟨line, lines, rfl⟩
    · obtain ⟨tail, lines, htail⟩ := ih hu hline
      rw [htail]
      exact ⟨tail, lines, rfl⟩

/-- A record that goes on with another on its line is not read. -/
theorem readIds_glued (results : List EvalOutput) (result : EvalOutput) (s : List Char) :
    readIds (progress dumper results ++ (result.record dumper ++ '{' :: s)) = none := by
  have hopen : '\n' ∉ result.record dumper ++ ['{'] := fun h =>
    (List.mem_append.mp h).elim result.record_oneLine (by decide)
  obtain ⟨tail, lines, hlines⟩ := exists_firstLine (List.append_ne_nil_of_right_ne_nil _ (List.cons_ne_nil _ _)) hopen s
  have hnone : recordId (result.record dumper ++ ['{'] ++ tail) = none := by
    rw [List.append_assoc, recordId_append, if_neg]
    exact List.cons_ne_nil _ _
  have heq : result.record dumper ++ '{' :: s = result.record dumper ++ ['{'] ++ s := by simp
  rw [readIds_append, heq, readIds, hlines, mapM_eq_none List.mem_cons_self hnone]
  rfl

end Records

/-! ## What a run leaves -/

section Runs

variable {ρ α : Type*} [DecidableEq α] {d : Dataset ρ α} {dumper : Dumper} {choice : Choice ρ}
  {file : List Char} {results : List EvalOutput}

theorem Choice.limited_subperm (choice : Choice ρ) (rows : List ρ) : (choice.limited rows).Subperm rows := by
  unfold Choice.limited
  split_ifs
  · exact choice.sample_rows _ rows
  · exact List.Subperm.refl rows

theorem Choice.selected_subperm (choice : Choice ρ) : (choice.selected d).Subperm d.rows := by
  have hpicked : (choice.picked d).Subperm d.rows := by
    unfold Choice.picked
    split_ifs
    · exact List.filter_sublist.subperm
    · split
      · exact (choice.limited_subperm _).trans (List.drop_sublist _ _).subperm
      · exact choice.limited_subperm _
  rw [Choice.selected]
  cases hfilter : choice.filterFunc with
  | none => exact hpicked
  | some f => exact (choice.filterFunc_rows f hfilter _).trans hpicked

theorem Choice.nodup_selected (choice : Choice ρ) : ((choice.selected d).map d.id).Nodup := by
  obtain ⟨rows, hperm, hsub⟩ := choice.selected_subperm (d := d)
  have hrows : (d.rows.map d.id).Nodup := by
    have hmap := d.distinct.map d.str_injective
    rwa [List.map_map] at hmap
  exact (hperm.map d.id).nodup_iff.mp ((hsub.map d.id).nodup hrows)

variable (d choice) in
/-- The instances that have no result yet. -/
def remaining (results : List EvalOutput) : List ρ :=
  (choice.selected d).filter fun row => d.id row ∉ results.map EvalOutput.instanceId

variable (d dumper choice) in
/-- The file holds results of chosen instances, and only after the last of them the end of the line can be missing. -/
structure Holds (file : List Char) (results : List EvalOutput) : Prop where
  nodup : (results.map EvalOutput.instanceId).Nodup
  chosen : ∀ i ∈ results.map EvalOutput.instanceId, i ∈ (choice.selected d).map d.id
  text : file = progress dumper results ∨
    file ++ ['\n'] = progress dumper results ∧ ∀ i ∈ (choice.selected d).map d.id, i ∈ results.map EvalOutput.instanceId

variable (d dumper choice) in
/-- The file cannot be read, or will not be once another result is written. -/
def Broken (file : List Char) : Prop :=
  readIds file = none ∨ ∃ results, file ++ ['\n'] = progress dumper results ∧
    ∃ i ∈ (choice.selected d).map d.id, i ∉ results.map EvalOutput.instanceId

theorem Worker.results_perm (w : Worker d) (rows : List ρ) :
    ((w.results rows).map EvalOutput.instanceId).Perm (rows.map d.id) := by
  have hids : (rows.map w.evaluate).map EvalOutput.instanceId = rows.map d.id := by
    rw [List.map_map]
    exact List.map_congr_left fun row _ => w.evaluate_id row
  exact hids ▸ (w.schedule_perm (rows.map w.evaluate)).map EvalOutput.instanceId

/-- What is written and what a run adds are together the chosen instances. -/
theorem Holds.perm (h : Holds d dumper choice file results) (w : Worker d) :
    ((results ++ w.results (remaining d choice results)).map EvalOutput.instanceId).Perm
      ((choice.selected d).map d.id) := by
  rw [List.map_append]
  refine ((w.results_perm _).append_left _).trans ?_
  have hremaining : ∀ i, i ∈ (remaining d choice results).map d.id ↔
      i ∈ (choice.selected d).map d.id ∧ i ∉ results.map EvalOutput.instanceId := by
    intro i
    constructor
    · intro hi
      obtain ⟨row, hrow, rfl⟩ := List.mem_map.mp hi
      obtain ⟨hselected, hnew⟩ := List.mem_filter.mp hrow
      exact ⟨List.mem_map_of_mem hselected, of_decide_eq_true hnew⟩
    · rintro ⟨hi, hnew⟩
      obtain ⟨row, hrow, rfl⟩ := List.mem_map.mp hi
      exact List.mem_map_of_mem (List.mem_filter.mpr ⟨hrow, decide_eq_true hnew⟩)
  have hnodup : (results.map EvalOutput.instanceId ++ (remaining d choice results).map d.id).Nodup := by
    refine List.nodup_append'.mpr ⟨h.nodup, ?_, fun i hi hj => ((hremaining i).mp hj).2 hi⟩
    exact (List.filter_sublist.map d.id).nodup choice.nodup_selected
  refine (List.perm_ext_iff_of_nodup hnodup choice.nodup_selected).mpr fun i => ?_
  rw [List.mem_append, hremaining]
  constructor
  · rintro (hi | ⟨hi, -⟩)
    · exact h.chosen i hi
    · exact hi
  · intro hi
    by_cases hmem : i ∈ results.map EvalOutput.instanceId
    · exact Or.inl hmem
    · exact Or.inr ⟨hi, hmem⟩

theorem Holds.isFileOf (h : Holds d dumper choice file results) : IsFileOf dumper file results := h.text.imp_right And.left

theorem Holds.prepareDataset_eq (h : Holds d dumper choice file results) :
    prepareDataset d choice file = some (remaining d choice results) := by
  rw [prepareDataset, readIds_isFileOf h.isFileOf]
  rfl

/-- After the end of a line that is missing, there is nothing left to do. -/
theorem Holds.results_eq_nil (h : ∀ i ∈ (choice.selected d).map d.id, i ∈ results.map EvalOutput.instanceId)
    (w : Worker d) : w.results (remaining d choice results) = [] := by
  have hnone : remaining d choice results = [] := by
    refine List.filter_eq_nil_iff.mpr fun row hrow hnew => ?_
    exact of_decide_eq_true hnew (h _ (List.mem_map_of_mem hrow))
  have hperm := w.results_perm (remaining d choice results)
  rw [hnone, List.map_nil] at hperm
  rw [hnone]
  exact List.map_eq_nil_iff.mp hperm.eq_nil

theorem Holds.run (h : Holds d dumper choice file results) (w : Worker d) :
    ∃ after, runEvaluation dumper choice w file = some after ∧
      IsFileOf dumper after (results ++ w.results (remaining d choice results)) := by
  refine ⟨file ++ progress dumper (w.results (remaining d choice results)), ?_, ?_⟩
  · rw [runEvaluation, h.prepareDataset_eq]
    rfl
  · rcases h.text with rfl | ⟨htext, hall⟩
    · exact Or.inl (progress_append _ _).symm
    · rw [Holds.results_eq_nil hall w, List.append_nil, progress_nil, List.append_nil]
      exact Or.inr htext

theorem Holds.killedRun_eq (h : Holds d dumper choice file results) (run : Worker d × ℕ) :
    killedRun dumper choice run.1 run.2 file =
      some (file ++ (progress dumper (run.1.results (remaining d choice results))).take run.2) := by
  rw [killedRun, h.prepareDataset_eq]
  rfl

theorem Holds.afterRun_eq (h : Holds d dumper choice file results) (run : Worker d × ℕ) :
    afterRun dumper choice file run =
      file ++ (progress dumper (run.1.results (remaining d choice results))).take run.2 := by
  rw [afterRun, h.killedRun_eq]
  rfl

/-- Some of the results that a run adds are results of chosen instances, each of another. -/
theorem Holds.extend (h : Holds d dumper choice file results) {w : Worker d} {outputs : List EvalOutput}
    (hbegins : outputs <+: w.results (remaining d choice results)) :
    ((results ++ outputs).map EvalOutput.instanceId).Nodup ∧
      ∀ i ∈ (results ++ outputs).map EvalOutput.instanceId, i ∈ (choice.selected d).map d.id := by
  have hsub := (((List.prefix_append_right_inj results).mpr hbegins).sublist).map EvalOutput.instanceId
  have hperm := h.perm w
  exact ⟨hsub.nodup (hperm.nodup_iff.mpr choice.nodup_selected), fun i hi => hperm.mem_iff.mp (hsub.subset hi)⟩

theorem Holds.killed (h : Holds d dumper choice file results) {run : Worker d × ℕ}
    (hstops : StopsBetween dumper choice file run) :
    ∃ results, Holds d dumper choice (afterRun dumper choice file run) results := by
  obtain ⟨w, n⟩ := run
  rw [h.afterRun_eq]
  dsimp only
  rcases h.text with rfl | ⟨htext, hall⟩
  · rcases hstops _ h.prepareDataset_eq with ⟨k, hk⟩ | hn
    · have hsplit : progress dumper (w.results (remaining d choice results)) =
          progress dumper ((w.results (remaining d choice results)).take k) ++
            progress dumper ((w.results (remaining d choice results)).drop k) := by
        rw [← progress_append, List.take_append_drop]
      obtain ⟨hnodup, hchosen⟩ := h.extend (List.take_prefix k (w.results (remaining d choice results)))
      refine ⟨_, hnodup, hchosen, Or.inl ?_⟩
      rw [hsplit, List.take_left' hk, progress_append]
    · obtain ⟨hnodup, hchosen⟩ := h.extend (List.prefix_refl (w.results (remaining d choice results)))
      refine ⟨_, hnodup, hchosen, ?_⟩
      dsimp only at hn
      rcases Nat.lt_or_ge n (progress dumper (w.results (remaining d choice results))).length with hlt | hge
      · -- only the end of the last line is missing
        refine Or.inr ⟨?_, fun i hi => (h.perm w).mem_iff.mpr hi⟩
        rw [List.append_assoc, take_unended hn hlt, progress_append]
      · rw [List.take_of_length_le hge]
        exact Or.inl (progress_append _ _).symm
  · rw [Holds.results_eq_nil hall w, progress_nil, List.take_nil, List.append_nil]
    exact ⟨results, h⟩

theorem exists_output (dumper : Dumper) {outputs : List EvalOutput} (hne : outputs ≠ []) :
    ∃ s, progress dumper outputs = '{' :: s := by
  obtain ⟨output, outputs, rfl⟩ := List.exists_cons_of_ne_nil hne
  obtain ⟨body, hbody⟩ := output.record_braces dumper
  rw [progress, List.map_cons, ended_cons, hbody]
  exact ⟨_, rfl⟩

theorem Holds.within (h : Holds d dumper choice file results) {w : Worker d} {n : ℕ}
    (hstops : ¬ StopsBetween dumper choice file (w, n)) :
    (∀ k, (progress dumper ((w.results (remaining d choice results)).take k)).length ≠ n) ∧
      n + 1 < (progress dumper (w.results (remaining d choice results))).length := by
  have hnot : ¬ ((∃ k, (progress dumper ((w.results (remaining d choice results)).take k)).length = n) ∨
      (progress dumper (w.results (remaining d choice results))).length ≤ n + 1) := by
    refine fun hor => hstops fun rows hrows => ?_
    obtain rfl := Option.some.inj (h.prepareDataset_eq.symm.trans hrows)
    exact hor
  rw [not_or, not_exists, not_le] at hnot
  exact hnot

/-- A run adds more only to a file all of whose lines are ended. -/
theorem Holds.text_of_adds (h : Holds d dumper choice file results) {w : Worker d}
    (hadds : 0 < (progress dumper (w.results (remaining d choice results))).length) : file = progress dumper results := by
  refine h.text.resolve_right fun hunended => ?_
  rw [Holds.results_eq_nil hunended.2 w, progress_nil] at hadds
  exact absurd hadds (Nat.not_lt_zero _)

/-- A whole record, whose line another record will follow. -/
theorem Holds.broken_of_whole (h : Holds d dumper choice file results) {w : Worker d} {done later : List EvalOutput}
    {output : EvalOutput} (hresults : w.results (remaining d choice results) = done ++ output :: later)
    (hlater : later ≠ []) :
    Broken d dumper choice (progress dumper (results ++ done) ++ output.record dumper) := by
  refine Or.inr ⟨results ++ done ++ [output], ?_, ?_⟩
  · rw [progress_append _ [output], progress_singleton, List.append_assoc]
  · obtain ⟨next, later, rfl⟩ := List.exists_cons_of_ne_nil hlater
    obtain ⟨hnodup, hchosen⟩ := h.extend (List.prefix_refl (w.results (remaining d choice results)))
    have heq : results ++ (done ++ output :: next :: later) = (results ++ done ++ [output]) ++ next :: later := by simp
    rw [hresults, heq, List.map_append] at hnodup hchosen
    refine ⟨next.instanceId, hchosen _ (List.mem_append_right _ List.mem_cons_self), fun hmem => ?_⟩
    exact (List.nodup_append'.mp hnodup).2.2 hmem List.mem_cons_self

/-- A run that is killed inside the line of a result breaks the file. -/
theorem Holds.broken (h : Holds d dumper choice file results) {run : Worker d × ℕ}
    (hstops : ¬ StopsBetween dumper choice file run) : Broken d dumper choice (afterRun dumper choice file run) := by
  obtain ⟨w, n⟩ := run
  obtain ⟨hends, hlong⟩ := h.within hstops
  obtain ⟨done, output, later, r, hresults, hr, hbegins, htake, hn⟩ := take_within hends ((Nat.lt_succ_self n).trans hlong)
  have htext := h.text_of_adds ((Nat.zero_le _).trans_lt hlong)
  have hfile : afterRun dumper choice file (w, n) = progress dumper (results ++ done) ++ r := by
    rw [h.afterRun_eq, progress_append, List.append_assoc, htext]
    exact congrArg _ htake
  rw [hfile]
  by_cases hwhole : r = output.record dumper
  · rw [hwhole] at hn ⊢
    refine h.broken_of_whole hresults ?_
    rintro rfl
    rw [hresults, progress_append, progress_singleton, ← List.append_assoc, List.length_append, ← hn] at hlong
    exact absurd hlong (Nat.lt_irrefl _)
  · refine Or.inl ?_
    have hline : '\n' ∉ r := fun hmem => output.record_oneLine (hbegins.subset hmem)
    rw [readIds_append, readIds_line hr hline, recordId_cut hr hbegins hwhole]
    rfl

/-- What a run on a broken file writes is not on a line of its own. -/
theorem Broken.glued (h : Broken d dumper choice file) {rows : List ρ} (hrows : prepareDataset d choice file = some rows)
    (w : Worker d) : ∃ s, progress dumper (w.results rows) = '{' :: s ∧ ∀ tail, readIds (file ++ '{' :: tail) = none := by
  obtain ⟨finished, hread, rfl⟩ := Option.map_eq_some_iff.mp hrows
  rcases h with hnone | ⟨results, htext, i, hi, hmissing⟩
  · rw [hnone] at hread
    cases hread
  · have hfinished := readIds_isFileOf (Or.inr htext : IsFileOf dumper file results)
    rw [hread] at hfinished
    obtain rfl := Option.some.inj hfinished
    obtain ⟨init, last, rfl, rfl⟩ := exists_of_unended htext
    obtain ⟨row, hrow, rfl⟩ := List.mem_map.mp hi
    have hremaining : d.id row ∈ (w.results (remaining d choice (init ++ [last]))).map EvalOutput.instanceId :=
      (w.results_perm _).mem_iff.mpr
        (List.mem_map_of_mem (List.mem_filter.mpr ⟨hrow, decide_eq_true hmissing⟩))
    obtain ⟨s, hs⟩ := exists_output dumper (List.ne_nil_of_mem hremaining ∘ List.map_eq_nil_iff.mpr)
    refine ⟨s, hs, fun tail => ?_⟩
    rw [List.append_assoc]
    exact readIds_glued init last tail

theorem Broken.killed (h : Broken d dumper choice file) {run : Worker d × ℕ} {after : List Char}
    (hrun : killedRun dumper choice run.1 run.2 file = some after) : Broken d dumper choice after := by
  obtain ⟨rows, hrows, rfl⟩ := Option.map_eq_some_iff.mp hrun
  obtain ⟨s, hs, hglued⟩ := h.glued hrows run.1
  rw [hs]
  cases run.2 with
  | zero => rwa [List.take_zero, List.append_nil]
  | succ n => exact Or.inl (hglued _)

theorem Broken.run (h : Broken d dumper choice file) {w : Worker d} {after : List Char}
    (hrun : runEvaluation dumper choice w file = some after) (results : List EvalOutput) : ¬ IsFileOf dumper after results := by
  obtain ⟨rows, hrows, rfl⟩ := Option.map_eq_some_iff.mp hrun
  obtain ⟨s, hs, hglued⟩ := h.glued hrows w
  intro hfile
  have hread := readIds_isFileOf hfile
  rw [hs, hglued] at hread
  cases hread

theorem Broken.killedRuns (h : Broken d dumper choice file) (killed : List (Worker d × ℕ)) (last : Worker d) :
    ¬ ∃ after results, (killedRuns dumper choice killed file).bind (runEvaluation dumper choice last) = some after ∧
      IsFileOf dumper after results ∧ (results.map EvalOutput.instanceId).Perm ((choice.selected d).map d.id) := by
  induction killed generalizing file with
  | nil =>
    rintro ⟨after, results, hrun, hfile, -⟩
    exact h.run hrun results hfile
  | cons run killed ih =>
    rintro ⟨after, results, hrun, hrest⟩
    rw [Evaluation.killedRuns, List.foldlM_cons] at hrun
    cases hkilled : killedRun dumper choice run.1 run.2 file with
    | none =>
      rw [hkilled] at hrun
      cases hrun
    | some next =>
      rw [hkilled] at hrun
      exact ih (h.killed hkilled) ⟨after, results, hrun, hrest⟩

/-- From a file of results, the evaluation resumes exactly when every run is killed between two results. -/
theorem Holds.resumesFrom_iff (h : Holds d dumper choice file results) (killed : List (Worker d × ℕ)) (last : Worker d) :
    (∃ after results, (killedRuns dumper choice killed file).bind (runEvaluation dumper choice last) = some after ∧
      IsFileOf dumper after results ∧ (results.map EvalOutput.instanceId).Perm ((choice.selected d).map d.id)) ↔
      Runs.EachStep (afterRun dumper choice) file (StopsBetween dumper choice) killed := by
  induction killed generalizing file results with
  | nil =>
    obtain ⟨after, hrun, hfile⟩ := h.run last
    exact iff_of_true ⟨after, _, hrun, hfile, h.perm last⟩ Runs.eachStep_nil
  | cons run killed ih =>
    have hnext : killedRuns dumper choice (run :: killed) file =
        killedRuns dumper choice killed (afterRun dumper choice file run) := by
      rw [killedRuns, List.foldlM_cons, h.killedRun_eq, h.afterRun_eq]
      rfl
    rw [hnext, Runs.eachStep_cons]
    by_cases hstops : StopsBetween dumper choice file run
    · obtain ⟨results, hafter⟩ := h.killed hstops
      rw [ih hafter, and_iff_right hstops]
    · exact iff_of_false ((h.broken hstops).killedRuns killed last) fun hand => hstops hand.1

end Runs

theorem resumes_iff_stopsBetween {ρ α : Type*} [DecidableEq α] {d : Dataset ρ α} (dumper : Dumper) (choice : Choice ρ)
    (killed : List (Worker d × ℕ)) (last : Worker d) :
    Resumes dumper choice killed last ↔
      Runs.EachStep (afterRun dumper choice) [] (StopsBetween dumper choice) killed := by
  have hstart : Holds d dumper choice [] [] :=
    ⟨List.nodup_nil, fun _ h => absurd h List.not_mem_nil, Or.inl rfl⟩
  exact hstart.resumesFrom_iff killed last

def jsonDumper : Dumper := ⟨Json.dumps, fun _ h => Json.loads_dumps h, Json.printed_dumps, Json.dumps_obj_braces⟩

def oneInstance : Dataset String String where
  rows := ["a"]
  instanceId row := row
  str i := i
  convert text := text
  distinct := List.nodup_singleton "a"
  str_injective := Function.injective_id

def wholeDataset : Choice String where
  sample n rows := rows.take n
  filterFunc_rows _ hf := absurd hf.symm (Option.some_ne_none _)
  sample_rows n rows := (List.take_sublist n rows).subperm

def oneWorker : Worker oneInstance where
  numWorkers := 1
  evaluate row := ⟨row, [], none, .null, .null, .null, none, .null, by
    simp [Json.WellFormed, Json.WellFormedMembers]⟩
  schedule results := results
  evaluate_id _ := rfl
  schedule_perm := List.Perm.refl
  schedule_single _ _ := rfl

/-- A run that is killed behind the first character of its record. -/
theorem not_resumes : ¬ Resumes jsonDumper wholeDataset [(oneWorker, 1)] oneWorker := by
  have hstart : Holds oneInstance jsonDumper wholeDataset [] [] :=
    ⟨List.nodup_nil, fun _ h => absurd h List.not_mem_nil, Or.inl rfl⟩
  intro h
  have hstops : StopsBetween jsonDumper wholeDataset [] (oneWorker, 1) :=
    (Runs.eachStep_cons.mp ((hstart.resumesFrom_iff _ _).mp h)).1
  obtain ⟨text, htext⟩ : ∃ text, progress jsonDumper (oneWorker.results ["a"]) = '{' :: '"' :: 'i' :: text := ⟨_, rfl⟩
  have hlength : 2 < (progress jsonDumper (oneWorker.results ["a"])).length := by
    rw [htext]
    simp
  rcases hstops ["a"] (by decide) with ⟨k, hk⟩ | hlong
  · cases k with
    | zero => cases hk
    | succ k =>
      have htake : (oneWorker.results ["a"]).take (k + 1) = oneWorker.results ["a"] :=
        List.take_of_length_le (Nat.le_add_left 1 k)
      rw [htake] at hk
      exact absurd (hk ▸ hlength) (by decide)
  · exact Nat.not_le_of_lt hlength hlong

end OpenHands.Evaluation
