import Mathlib.Data.Finset.Sort
import Mathlib.Data.String.Basic
import OpenHandsSWE.Lib.Binary64
import OpenHandsSWE.Lib.JsonText
import OpenHandsSWE.Lib.JsonRoundTrip
import OpenHandsSWE.Lib.Python
import OpenHandsSWE.Lib.Text

/-! The report over a dataset: each instance is put into the sets of those that were run, resolved, and so on. -/

namespace OpenHands

namespace Reporting

/-- A prediction, whose other keys may be missing. -/
structure Prediction where
  instanceId : String
  modelNameOrPath : Option String
  modelPatch : Option String

/-- A file by the parts of its path. -/
abbrev Files := List String → Option (List Char)

def reportFile (runId model instanceId : String) : List String :=
  ["logs", "run_evaluation", runId, .ofList (Text.replace ['/'] ['_', '_'] model.toList), instanceId, "report.json"]

/-- `v[key]`. -/
def subscript (v : Json) (key : String) : Except PyError Json :=
  match v with
  | .obj kvs => (Assoc.get? key kvs).elim (.error (.keyError key)) .ok
  | .arr _ => .error (.typeError "list indices must be integers or slices, not str")
  | .str _ => .error (.typeError "string indices must be integers, not 'str'")
  | v => .error (.typeError ("'" ++ v.typeName ++ "' object is not subscriptable"))

def truthy : Json → Bool
  | .null => false
  | .bool b => b
  | .int n => n ≠ 0
  | .float x =>
    match Binary64.parse (Json.dumpsFloat x) with
    | some (.finite _ q) => q ≠ 0
    | _ => true
  | .str s => s ≠ ""
  | .arr xs => xs ≠ []
  | .obj kvs => kvs ≠ []

def readResolved (content : List Char) (instanceId : String) : Except PyError Bool :=
  match Json.loads content with
  | none => .error (.valueError "JSONDecodeError")
  | some report => do
    let entry ← subscript report instanceId
    let resolved ← subscript entry "resolved"
    .ok (truthy resolved)

structure Classes where
  completed : Finset String := ∅
  resolved : Finset String := ∅
  error : Finset String := ∅
  unresolved : Finset String := ∅
  incomplete : Finset String := ∅
  emptyPatch : Finset String := ∅

section

variable (predictions : List (String × Prediction)) (runId : String) (files : Files)

/-- The body of the loop over the dataset. -/
def classify (c : Classes) (instanceId : String) : Except PyError Classes :=
  match Assoc.get? instanceId predictions with
  | none => .ok { c with incomplete := insert instanceId c.incomplete }
  | some prediction =>
    if prediction.modelPatch = some "" ∨ prediction.modelPatch = none then
      .ok { c with emptyPatch := insert instanceId c.emptyPatch }
    else
      match prediction.modelNameOrPath with
      | none => .error (.keyError "model_name_or_path")
      | some model =>
        match files (reportFile runId model prediction.instanceId) with
        | none => .ok { c with error := insert instanceId c.error }
        | some text =>
          let c := { c with completed := insert instanceId c.completed }
          let content := Text.strip text
          if content = [] then .ok { c with error := insert instanceId c.error }
          else
            match readResolved content instanceId with
            | .ok true => .ok { c with resolved := insert instanceId c.resolved }
            | .ok false => .ok { c with unresolved := insert instanceId c.unresolved }
            | .error (.keyError _) => .ok { c with error := insert instanceId c.error }
            | .error (.valueError _) => .ok { c with error := insert instanceId c.error }
            | .error e => .error e

def classifyAll (fullDataset : List String) : Except PyError Classes :=
  fullDataset.foldlM (classify predictions runId files) {}

structure Report where
  totalInstances : ℕ
  submittedInstances : ℕ
  completedInstances : ℕ
  resolvedInstances : ℕ
  unresolvedInstances : ℕ
  emptyPatchInstances : ℕ
  errorInstances : ℕ
  completedIds : List String
  incompleteIds : List String
  emptyPatchIds : List String
  submittedIds : List String
  resolvedIds : List String
  unresolvedIds : List String
  errorIds : List String
  schemaVersion : ℕ := 2
  unstoppedInstances : ℕ := 0
  unstoppedContainers : List String := []
  unremovedImages : List String := []

/-- Without a client for the containers; the name of the file is that of the first prediction's model. -/
def makeRunReport (fullDataset : List String) : Except PyError (String × Report) := do
  let c ← classifyAll predictions runId files fullDataset
  let report : Report := {
    totalInstances := fullDataset.length
    submittedInstances := predictions.length
    completedInstances := c.completed.card
    resolvedInstances := c.resolved.card
    unresolvedInstances := c.unresolved.card
    emptyPatchInstances := c.emptyPatch.card
    errorInstances := c.error.card
    completedIds := c.completed.sort (· ≤ ·)
    incompleteIds := c.incomplete.sort (· ≤ ·)
    emptyPatchIds := c.emptyPatch.sort (· ≤ ·)
    submittedIds := (predictions.map Prod.fst).mergeSort (· ≤ ·)
    resolvedIds := c.resolved.sort (· ≤ ·)
    unresolvedIds := c.unresolved.sort (· ≤ ·)
    errorIds := c.error.sort (· ≤ ·) }
  match predictions with
  | [] => .error .indexError
  | first :: _ =>
    match first.2.modelNameOrPath with
    | none => .error (.keyError "model_name_or_path")
    | some model => .ok (.ofList (Text.replace ['/'] ['_', '_'] model.toList) ++ "." ++ runId ++ ".json", report)

end

/-! ## What is asked of it -/

/-- The sets of which each instance is to be in one. -/
def Classes.outcomes (c : Classes) : List (Finset String) :=
  [c.incomplete, c.emptyPatch, c.resolved, c.unresolved, c.error]

structure Partitions (fullDataset : List String) (c : Classes) : Prop where
  one : ∀ instanceId ∈ fullDataset, (c.outcomes.countP fun ids => instanceId ∈ ids) = 1
  completed : c.completed = c.resolved ∪ c.unresolved

/-- A report that says whether the instance is resolved. -/
def Tells (text : List Char) (instanceId : String) : Prop :=
  ∃ report entry resolved, Json.loads (Text.strip text) = some (.obj report) ∧
    Assoc.get? instanceId report = some (.obj entry) ∧ Assoc.get? "resolved" entry = some resolved

/-! ## One instance -/

/-- Where an instance goes; a broken report is one that does not tell. -/
inductive Outcome where
  | incomplete
  | emptyPatch
  | missing
  | broken
  | resolved
  | unresolved
deriving DecidableEq

def Classes.put (c : Classes) (instanceId : String) : Outcome → Classes
  | .incomplete => { c with incomplete := insert instanceId c.incomplete }
  | .emptyPatch => { c with emptyPatch := insert instanceId c.emptyPatch }
  | .missing => { c with error := insert instanceId c.error }
  | .broken => { c with completed := insert instanceId c.completed, error := insert instanceId c.error }
  | .resolved => { c with completed := insert instanceId c.completed, resolved := insert instanceId c.resolved }
  | .unresolved => { c with completed := insert instanceId c.completed, unresolved := insert instanceId c.unresolved }

def readOutcome (text : List Char) (instanceId : String) : Except PyError Outcome :=
  if Text.strip text = [] then .ok .broken
  else
    match readResolved (Text.strip text) instanceId with
    | .ok true => .ok .resolved
    | .ok false => .ok .unresolved
    | .error (.keyError _) => .ok .broken
    | .error (.valueError _) => .ok .broken
    | .error e => .error e

section

variable (predictions : List (String × Prediction)) (runId : String) (files : Files)

def outcome (instanceId : String) : Except PyError Outcome :=
  match Assoc.get? instanceId predictions with
  | none => .ok .incomplete
  | some prediction =>
    if prediction.modelPatch = some "" ∨ prediction.modelPatch = none then .ok .emptyPatch
    else
      match prediction.modelNameOrPath with
      | none => .error (.keyError "model_name_or_path")
      | some model =>
        match files (reportFile runId model prediction.instanceId) with
        | none => .ok .missing
        | some text => readOutcome text instanceId

theorem classify_eq (c : Classes) (instanceId : String) :
    classify predictions runId files c instanceId = (outcome predictions runId files instanceId).map (c.put instanceId) := by
  unfold classify outcome
  cases Assoc.get? instanceId predictions with
  | none => rfl
  | some prediction =>
    dsimp only
    split_ifs with hempty
    · rfl
    · cases prediction.modelNameOrPath with
      | none => rfl
      | some model =>
        dsimp only
        cases files (reportFile runId model prediction.instanceId) with
        | none => rfl
        | some text =>
          dsimp only [readOutcome]
          split_ifs with hcontent
          · rfl
          · cases readResolved (Text.strip text) instanceId with
            | ok b => cases b <;> rfl
            | error e => cases e <;> rfl

end

theorem subscript_obj (kvs : List (String × Json)) (key : String) :
    subscript (.obj kvs) key = (Assoc.get? key kvs).elim (.error (.keyError key)) .ok := rfl

theorem subscript_ok {v w : Json} {key : String} (h : subscript v key = .ok w) :
    ∃ kvs, v = .obj kvs ∧ Assoc.get? key kvs = some w := by
  cases v with
  | obj kvs =>
    refine ⟨kvs, rfl, ?_⟩
    rw [subscript_obj] at h
    cases hget : Assoc.get? key kvs with
    | none =>
      rw [hget] at h
      cases h
    | some w' =>
      rw [hget] at h
      exact congrArg some (Except.ok.inj h)
  | _ => cases h

theorem tells_of_readResolved {text : List Char} {instanceId : String} {b : Bool}
    (h : readResolved (Text.strip text) instanceId = .ok b) : Tells text instanceId := by
  unfold readResolved at h
  split at h
  · cases h
  next report hreport =>
    obtain ⟨entry, hentry, h⟩ := Py.bind_ok h
    obtain ⟨resolved, hresolved, -⟩ := Py.bind_ok h
    obtain ⟨kvs, rfl, hkvs⟩ := subscript_ok hentry
    obtain ⟨fields, rfl, hfields⟩ := subscript_ok hresolved
    exact ⟨kvs, fields, resolved, hreport, hkvs, hfields⟩

theorem readResolved_of_tells {text : List Char} {instanceId : String} (h : Tells text instanceId) :
    ∃ b, readResolved (Text.strip text) instanceId = .ok b := by
  obtain ⟨report, entry, resolved, hreport, hentry, hresolved⟩ := h
  have hentry' : subscript (.obj report) instanceId = .ok (.obj entry) := by rw [subscript_obj, hentry]; rfl
  have hresolved' : subscript (.obj entry) "resolved" = .ok resolved := by rw [subscript_obj, hresolved]; rfl
  refine ⟨truthy resolved, ?_⟩
  rw [readResolved, hreport]
  show (subscript (.obj report) instanceId).bind _ = _
  rw [hentry']
  show (subscript (.obj entry) "resolved").bind _ = _
  rw [hresolved']
  rfl

theorem tells_ne_nil {text : List Char} {instanceId : String} (h : Tells text instanceId) : Text.strip text ≠ [] := by
  obtain ⟨report, entry, resolved, hreport, -⟩ := h
  intro hnil
  rw [hnil] at hreport
  cases hreport

/-- A report that is neither refused nor broken is one that tells. -/
theorem readOutcome_iff {text : List Char} {instanceId : String} :
    (∃ o, readOutcome text instanceId = .ok o ∧ o ≠ .broken) ↔ Tells text instanceId := by
  constructor
  · rintro ⟨o, ho, hbroken⟩
    unfold readOutcome at ho
    split_ifs at ho with hcontent
    · exact absurd (Except.ok.inj ho).symm hbroken
    · split at ho
      next hread => exact tells_of_readResolved hread
      next hread => exact tells_of_readResolved hread
      · exact absurd (Except.ok.inj ho).symm hbroken
      · exact absurd (Except.ok.inj ho).symm hbroken
      · cases ho
  · intro h
    obtain ⟨b, hread⟩ := readResolved_of_tells h
    rw [readOutcome, if_neg (tells_ne_nil h), hread]
    cases b with
    | true => exact ⟨.resolved, rfl, by decide⟩
    | false => exact ⟨.unresolved, rfl, by decide⟩

/-! ## The whole dataset -/

section

variable {predictions : List (String × Prediction)} {runId : String} {files : Files}

/-- Every set holds the instances with its outcomes, of those that the loop has seen. -/
structure Sorted (predictions : List (String × Prediction)) (runId : String) (files : Files) (seen : List String)
    (c : Classes) : Prop where
  raised : ∀ id ∈ seen, ∃ o, outcome predictions runId files id = .ok o
  incomplete : ∀ id, id ∈ c.incomplete ↔ id ∈ seen ∧ outcome predictions runId files id = .ok .incomplete
  emptyPatch : ∀ id, id ∈ c.emptyPatch ↔ id ∈ seen ∧ outcome predictions runId files id = .ok .emptyPatch
  resolved : ∀ id, id ∈ c.resolved ↔ id ∈ seen ∧ outcome predictions runId files id = .ok .resolved
  unresolved : ∀ id, id ∈ c.unresolved ↔ id ∈ seen ∧ outcome predictions runId files id = .ok .unresolved
  error : ∀ id, id ∈ c.error ↔ id ∈ seen ∧
    (outcome predictions runId files id = .ok .missing ∨ outcome predictions runId files id = .ok .broken)
  completed : ∀ id, id ∈ c.completed ↔ id ∈ seen ∧ (outcome predictions runId files id = .ok .broken ∨
    outcome predictions runId files id = .ok .resolved ∨ outcome predictions runId files id = .ok .unresolved)

theorem sorted_nil : Sorted predictions runId files [] {} := by
  constructor <;> simp

theorem Sorted.put {seen : List String} {c : Classes} {instanceId : String} {o : Outcome}
    (h : Sorted predictions runId files seen c) (ho : outcome predictions runId files instanceId = .ok o) :
    Sorted predictions runId files (seen ++ [instanceId]) (c.put instanceId o) := by
  have hraised : ∀ id ∈ seen ++ [instanceId], ∃ o, outcome predictions runId files id = .ok o := by
    intro id hid
    rcases List.mem_append.mp hid with hid | hid
    · exact h.raised id hid
    · exact ⟨o, List.mem_singleton.mp hid ▸ ho⟩
  constructor
  · exact hraised
  all_goals
    intro id
    by_cases hid : id = instanceId
    · subst hid
      cases o <;> simp [Classes.put, ho, h.incomplete, h.emptyPatch, h.resolved, h.unresolved, h.error, h.completed]
    · cases o <;>
        simp [Classes.put, hid, h.incomplete, h.emptyPatch, h.resolved, h.unresolved, h.error, h.completed]

theorem sorted_foldlM {fullDataset seen : List String} {c c' : Classes} (h : Sorted predictions runId files seen c)
    (hfold : fullDataset.foldlM (classify predictions runId files) c = .ok c') :
    Sorted predictions runId files (seen ++ fullDataset) c' := by
  induction fullDataset generalizing seen c with
  | nil =>
    obtain rfl := Except.ok.inj hfold
    rwa [List.append_nil]
  | cons id fullDataset ih =>
    rw [List.foldlM_cons] at hfold
    obtain ⟨next, hclassify, hfold⟩ := Py.bind_ok hfold
    rw [classify_eq] at hclassify
    obtain ⟨o, ho, rfl⟩ := Py.map_ok hclassify
    have hrest := ih (h.put ho) hfold
    rwa [List.append_assoc, List.singleton_append] at hrest

theorem exists_classifyAll {fullDataset : List String} (h : ∀ id ∈ fullDataset, ∃ o, outcome predictions runId files id = .ok o)
    (c : Classes) : ∃ c', fullDataset.foldlM (classify predictions runId files) c = .ok c' := by
  induction fullDataset generalizing c with
  | nil => exact ⟨c, rfl⟩
  | cons id fullDataset ih =>
    obtain ⟨o, ho⟩ := h id List.mem_cons_self
    obtain ⟨c', hc'⟩ := ih (fun id hid => h id (List.mem_cons_of_mem _ hid)) (c.put id o)
    refine ⟨c', ?_⟩
    rw [List.foldlM_cons, classify_eq, ho]
    exact hc'

theorem Sorted.one {seen : List String} {c : Classes} (h : Sorted predictions runId files seen c) {instanceId : String}
    (hid : instanceId ∈ seen) : (c.outcomes.countP fun ids => instanceId ∈ ids) = 1 := by
  obtain ⟨o, ho⟩ := h.raised instanceId hid
  cases o <;>
    simp [Classes.outcomes, h.incomplete, h.emptyPatch, h.resolved, h.unresolved, h.error, hid, ho]

theorem Sorted.partitions_iff_outcome {fullDataset : List String} {c : Classes} (h : Sorted predictions runId files fullDataset c) :
    Partitions fullDataset c ↔ ∀ id ∈ fullDataset, outcome predictions runId files id ≠ .ok .broken := by
  constructor
  · intro hpartitions id hid hbroken
    have hcompleted : id ∈ c.completed := (h.completed id).mpr ⟨hid, .inl hbroken⟩
    rw [hpartitions.completed, Finset.mem_union, h.resolved, h.unresolved, hbroken] at hcompleted
    simp at hcompleted
  · intro hbroken
    refine ⟨fun id hid => h.one hid, Finset.ext fun id => ?_⟩
    rw [Finset.mem_union, h.completed, h.resolved, h.unresolved]
    constructor
    · rintro ⟨hid, hout | hout | hout⟩
      · exact absurd hout (hbroken id hid)
      · exact .inl ⟨hid, hout⟩
      · exact .inr ⟨hid, hout⟩
    · rintro (⟨hid, hout⟩ | ⟨hid, hout⟩)
      · exact ⟨hid, .inr (.inl hout)⟩
      · exact ⟨hid, .inr (.inr hout)⟩

end

/-- A prediction with a patch names its model, and its report, where there is one, tells. -/
def Told (predictions : List (String × Prediction)) (runId : String) (files : Files) (instanceId : String) : Prop :=
  ∀ prediction ∈ Assoc.get? instanceId predictions, prediction.modelPatch ≠ some "" → prediction.modelPatch ≠ none →
    ∃ model, prediction.modelNameOrPath = some model ∧
      ∀ text ∈ files (reportFile runId model prediction.instanceId), Tells text instanceId

theorem outcome_iff {predictions : List (String × Prediction)} {runId : String} {files : Files} {instanceId : String} :
    (∃ o, outcome predictions runId files instanceId = .ok o ∧ o ≠ .broken) ↔ Told predictions runId files instanceId := by
  unfold outcome Told
  cases Assoc.get? instanceId predictions with
  | none => simp
  | some prediction =>
    dsimp only
    by_cases hempty : prediction.modelPatch = some "" ∨ prediction.modelPatch = none
    · rw [if_pos hempty]
      refine iff_of_true ⟨.emptyPatch, rfl, by decide⟩ fun p hp hne hnone => ?_
      obtain rfl := Option.some.inj hp
      exact absurd hempty (not_or.mpr ⟨hne, hnone⟩)
    · rw [if_neg hempty]
      obtain ⟨hne, hnone⟩ := not_or.mp hempty
      cases hmodel : prediction.modelNameOrPath with
      | none => simp [hmodel, hne, hnone]
      | some model =>
        cases hfile : files (reportFile runId model prediction.instanceId) with
        | none => simp [hmodel, hne, hnone, hfile]
        | some text => simp [hmodel, hne, hnone, hfile, readOutcome_iff]

theorem told_of_partitions {predictions : List (String × Prediction)} {runId : String} {files : Files}
    {fullDataset : List String} {c : Classes} (hc : classifyAll predictions runId files fullDataset = .ok c)
    (hpartitions : Partitions fullDataset c) : ∀ id ∈ fullDataset, Told predictions runId files id := by
  intro id hid
  have hsorted := sorted_foldlM sorted_nil hc
  rw [List.nil_append] at hsorted
  obtain ⟨o, ho⟩ := hsorted.raised id hid
  refine outcome_iff.mp ⟨o, ho, fun hbroken => ?_⟩
  rw [hbroken] at ho
  exact hsorted.partitions_iff_outcome.mp hpartitions id hid ho

/-- The report partitions the dataset exactly when every prediction with a patch names its model and every
report that is there is an object with the instance's own object, which has the key. -/
theorem reportPartitions_iff (predictions : List (String × Prediction)) (runId : String) (files : Files)
    (fullDataset : List String) :
    (∃ c, classifyAll predictions runId files fullDataset = .ok c ∧ Partitions fullDataset c) ↔
      ∀ id ∈ fullDataset, Told predictions runId files id := by
  constructor
  · rintro ⟨c, hc, hpartitions⟩
    exact told_of_partitions hc hpartitions
  · intro htold
    have hout (id : String) (hid : id ∈ fullDataset) := outcome_iff.mpr (htold id hid)
    obtain ⟨c, hc⟩ := exists_classifyAll (fun id hid => (hout id hid).imp fun _ ho => ho.1) {}
    have hsorted := sorted_foldlM sorted_nil hc
    rw [List.nil_append] at hsorted
    refine ⟨c, hc, hsorted.partitions_iff_outcome.mpr fun id hid hbroken => ?_⟩
    obtain ⟨o, ho, hne⟩ := hout id hid
    rw [hbroken] at ho
    exact hne (Except.ok.inj ho).symm

/-- The report lists the sets, and its numbers are those of its lists. -/
structure Publishes (report : Report) (c : Classes) : Prop where
  incomplete : report.incompleteIds.toFinset = c.incomplete
  completed : report.completedIds.toFinset = c.completed ∧ report.completedIds.length = report.completedInstances
  resolved : report.resolvedIds.toFinset = c.resolved ∧ report.resolvedIds.length = report.resolvedInstances
  unresolved : report.unresolvedIds.toFinset = c.unresolved ∧ report.unresolvedIds.length = report.unresolvedInstances
  emptyPatch : report.emptyPatchIds.toFinset = c.emptyPatch ∧ report.emptyPatchIds.length = report.emptyPatchInstances
  error : report.errorIds.toFinset = c.error ∧ report.errorIds.length = report.errorInstances

theorem publishes {predictions : List (String × Prediction)} {runId : String} {files : Files} {fullDataset : List String}
    {file : String} {report : Report} (h : makeRunReport predictions runId files fullDataset = .ok (file, report)) :
    ∃ c, classifyAll predictions runId files fullDataset = .ok c ∧ Publishes report c := by
  unfold makeRunReport at h
  obtain ⟨c, hc, h⟩ := Py.bind_ok h
  refine ⟨c, hc, ?_⟩
  cases predictions with
  | nil => cases h
  | cons first predictions =>
    dsimp only at h
    cases hmodel : first.2.modelNameOrPath with
    | none =>
      rw [hmodel] at h
      cases h
    | some model =>
      rw [hmodel] at h
      obtain ⟨-, rfl⟩ := Prod.mk.inj (Except.ok.inj h)
      constructor <;> simp

/-- One instance with a patch, whose report file is empty. -/
def emptyReport : Files := fun path => if path = reportFile "run" "model" "a" then some [] else none

theorem empty_completed : ¬ ∀ (predictions : List (String × Prediction)) (runId : String) (files : Files)
    (fullDataset : List String), fullDataset.Nodup → predictions ≠ [] →
    (∀ entry ∈ predictions, entry.2.modelNameOrPath ≠ none) →
    ∃ c, classifyAll predictions runId files fullDataset = .ok c ∧ Partitions fullDataset c := by
  intro h
  obtain ⟨c, hc, hpartitions⟩ := h [("a", ⟨"a", some "model", some "patch"⟩)] "run" emptyReport ["a"] (by simp) (by simp)
    (by simp)
  obtain ⟨model, hmodel, htells⟩ := told_of_partitions hc hpartitions "a" (by simp) ⟨"a", some "model", some "patch"⟩ rfl
    (by simp) (by simp)
  obtain rfl := Option.some.inj hmodel
  exact tells_ne_nil (htells [] (if_pos rfl)) rfl

end Reporting

end OpenHands
