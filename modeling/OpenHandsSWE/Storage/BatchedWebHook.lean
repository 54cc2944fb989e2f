import OpenHandsSWE.Lib.AssocSum
import OpenHandsSWE.Lib.SubtreeStore

/-! A file store that sends its updates in batches, and a replica that applies them. -/

namespace OpenHands

open SubtreeStore

inductive FileContents where
  | text (s : String)
  | bytes (b : List UInt8)
deriving DecidableEq, Repr

def FileContents.size : FileContents → Int
  | .text s => s.utf8ByteSize
  | .bytes b => b.length

abbrev FileOperation := Operation FileContents

/-- The size an operation counts with; a deletion has no contents. -/
def contentSize : FileOperation → Int
  | .write contents => contents.size
  | .delete => 0

abbrev Batch := List (String × FileOperation)

/-- The store with the batch it gathers, the batches being sent, and the replica behind the
webhook. A dictionary keeps the place of a path that is queued again. -/
structure BatchedWebHookFileStore where
  fileStore : String → Option FileContents
  replica : String → Option FileContents
  batch : Batch := []
  batchSize : Int := 0
  sending : List Batch := []

inductive HookStep where
  | write (path : String) (contents : FileContents)
  | delete (path : String)
  | timer
  | flush
  | complete (k : Nat)

namespace BatchedWebHookFileStore

variable (tree : Subtrees String) (batchSizeLimitBytes : Int)

/-- A batch that is handed to the executor. -/
def enqueueBatch (s : BatchedWebHookFileStore) : BatchedWebHookFileStore :=
  { s with batch := [], batchSize := 0, sending := s.sending ++ [s.batch] }

def queueUpdate (s : BatchedWebHookFileStore) (path : String) (operation : FileOperation) :
    BatchedWebHookFileStore :=
  let previous := ((Assoc.get? path s.batch).map contentSize).getD 0
  let queued := { s with batch := Assoc.set path operation s.batch
                         batchSize := s.batchSize - previous + contentSize operation }
  if batchSizeLimitBytes ≤ queued.batchSize then queued.enqueueBatch else queued

def write (s : BatchedWebHookFileStore) (path : String) (contents : FileContents) :
    BatchedWebHookFileStore :=
  { s with fileStore := apply tree s.fileStore (path, .write contents) }.queueUpdate
    batchSizeLimitBytes path (.write contents)

def delete (s : BatchedWebHookFileStore) (path : String) : BatchedWebHookFileStore :=
  { s with fileStore := apply tree s.fileStore (path, .delete) }.queueUpdate
    batchSizeLimitBytes path .delete

/-- The batch is sent by the caller, who holds the lock until it has arrived. -/
def flush (s : BatchedWebHookFileStore) : BatchedWebHookFileStore :=
  { s with batch := [], batchSize := 0, replica := applyAll tree s.replica s.batch }

/-- A batch being sent arrives. -/
def complete (s : BatchedWebHookFileStore) (k : Nat) : BatchedWebHookFileStore :=
  match s.sending[k]? with
  | none => s
  | some batch =>
    { s with sending := s.sending.eraseIdx k, replica := applyAll tree s.replica batch }

def step (s : BatchedWebHookFileStore) : HookStep → BatchedWebHookFileStore
  | .write path contents => s.write tree batchSizeLimitBytes path contents
  | .delete path => s.delete tree batchSizeLimitBytes path
  | .timer => s.enqueueBatch
  | .flush => s.flush tree
  | .complete k => s.complete tree k

def run (s : BatchedWebHookFileStore) (steps : List HookStep) : BatchedWebHookFileStore :=
  steps.foldl (step tree batchSizeLimitBytes) s

/-- With what is being sent, in its order, and what is queued, the replica is the store. -/
def InSync (s : BatchedWebHookFileStore) : Prop :=
  applyAll tree s.replica (s.sending.flatten ++ s.batch) = s.fileStore

/-- A path that is queued already is queued again only where it may take its old place. -/
def QueueOk (s : BatchedWebHookFileStore) (path : String) (operation : FileOperation) : Prop :=
  ∀ earlier old between, s.batch = earlier ++ (path, old) :: between →
    ReplaceOk tree (applyAll tree s.replica (s.sending.flatten ++ earlier)) path old between operation

/-- What arrives overtakes only batches it has nothing to do with. -/
def StepOk (s : BatchedWebHookFileStore) : HookStep → Prop
  | .write path contents => s.QueueOk tree path (.write contents)
  | .delete path => s.QueueOk tree path .delete
  | .timer => True
  | .flush => OvertakeOk tree s.sending.flatten s.batch []
  | .complete k => ∀ batch, s.sending[k]? = some batch →
      OvertakeOk tree (s.sending.take k).flatten batch ((s.sending.drop (k + 1)).flatten ++ s.batch)

def StepsOk (s : BatchedWebHookFileStore) : List HookStep → Prop
  | [] => True
  | next :: steps => s.StepOk tree next ∧ StepsOk (s.step tree batchSizeLimitBytes next) steps

/-! ## What each step keeps -/

variable {tree batchSizeLimitBytes} {s : BatchedWebHookFileStore}

theorem set_in_place {β : Type} {earlier between : List (String × β)} {path : String} (old new : β)
    (h : path ∉ earlier.map Prod.fst) :
    Assoc.set path new (earlier ++ (path, old) :: between) = earlier ++ (path, new) :: between := by
  induction earlier with
  | nil => exact if_pos rfl
  | cons kv earlier ih =>
    have hne : kv.1 ≠ path := fun heq => h (heq ▸ List.mem_cons_self)
    show (if kv.1 = path then _ else kv :: Assoc.set path new (earlier ++ (path, old) :: between)) = _
    rw [if_neg hne, ih fun hmem => h (List.mem_cons_of_mem _ hmem)]
    rfl

/-- The path of an item stands nowhere else in a batch. -/
theorem notMem_of_nodup {earlier between : Batch} {path : String} {old : FileOperation}
    (h : ((earlier ++ (path, old) :: between).map Prod.fst).Nodup) :
    path ∉ earlier.map Prod.fst ∧ path ∉ between.map Prod.fst := by
  rw [List.map_append, List.map_cons, List.nodup_append] at h
  refine ⟨fun hmem => h.2.2 _ hmem _ List.mem_cons_self rfl, (List.nodup_cons.mp h.2.1).1⟩

theorem set_keeps_iff (hkeys : (s.batch.map Prod.fst).Nodup) (hsync : s.InSync tree) (path : String)
    (operation : FileOperation) :
    applyAll tree s.replica (s.sending.flatten ++ Assoc.set path operation s.batch) =
      apply tree s.fileStore (path, operation) ↔ s.QueueOk tree path operation := by
  have hstore : apply tree s.fileStore (path, operation) =
      applyAll tree s.replica (s.sending.flatten ++ s.batch ++ [(path, operation)]) := by
    rw [applyAll_append _ (s.sending.flatten ++ s.batch), hsync]
    rfl
  have hplace (earlier between : Batch) (old : FileOperation)
      (hbatch : s.batch = earlier ++ (path, old) :: between) :
      applyAll tree s.replica (s.sending.flatten ++ Assoc.set path operation s.batch) =
        apply tree s.fileStore (path, operation) ↔
      ReplaceOk tree (applyAll tree s.replica (s.sending.flatten ++ earlier)) path old between
        operation := by
    rw [hbatch] at hkeys
    obtain ⟨hearlier, hbetween⟩ := notMem_of_nodup hkeys
    rw [← replace_iff hbetween, ← applyAll_append, ← applyAll_append, hstore, hbatch,
      set_in_place old operation hearlier]
    simp only [List.append_assoc, List.cons_append]
  constructor
  · intro heq earlier old between hbatch
    exact (hplace earlier between old hbatch).mp heq
  · intro hok
    by_cases hmem : path ∈ s.batch.map Prod.fst
    · obtain ⟨⟨path', old⟩, hitem, rfl⟩ := List.mem_map.mp hmem
      obtain ⟨earlier, between, hbatch⟩ := List.append_of_mem hitem
      exact (hplace earlier between old hbatch).mpr (hok earlier old between hbatch)
    · rw [hstore, Assoc.set_of_notMem _ hmem, List.append_assoc]

/-- Whether or not the batch is then sent, the update is queued. -/
theorem queueUpdate_inSync (path : String) (operation : FileOperation) :
    (s.queueUpdate batchSizeLimitBytes path operation).InSync tree ↔
      applyAll tree s.replica (s.sending.flatten ++ Assoc.set path operation s.batch) = s.fileStore := by
  unfold queueUpdate
  dsimp only
  split_ifs
  · unfold InSync enqueueBatch
    dsimp only
    rw [List.flatten_append, List.flatten_singleton, List.append_nil]
  · exact Iff.rfl

theorem queueUpdate_keys (hkeys : (s.batch.map Prod.fst).Nodup) (path : String)
    (operation : FileOperation) :
    ((s.queueUpdate batchSizeLimitBytes path operation).batch.map Prod.fst).Nodup := by
  unfold queueUpdate
  dsimp only
  split_ifs
  · exact List.nodup_nil
  · exact Assoc.nodup_set _ hkeys

theorem step_keys (hkeys : (s.batch.map Prod.fst).Nodup) (next : HookStep) :
    ((s.step tree batchSizeLimitBytes next).batch.map Prod.fst).Nodup := by
  cases next with
  | write path contents =>
    exact queueUpdate_keys (s := { s with fileStore := apply tree s.fileStore (path, .write contents) })
      hkeys path (.write contents)
  | delete path =>
    exact queueUpdate_keys (s := { s with fileStore := apply tree s.fileStore (path, .delete) })
      hkeys path .delete
  | timer => exact List.nodup_nil
  | flush => exact List.nodup_nil
  | complete k =>
    show ((s.complete tree k).batch.map Prod.fst).Nodup
    unfold complete
    split <;> exact hkeys

/-- What is being sent, around the batch of an index. -/
theorem sending_split {k : Nat} {batch : Batch} (hk : s.sending[k]? = some batch) :
    s.sending.flatten = (s.sending.take k).flatten ++ (batch ++ (s.sending.drop (k + 1)).flatten) := by
  obtain ⟨hlt, rfl⟩ := List.getElem?_eq_some_iff.mp hk
  conv_lhs => rw [← List.take_append_drop k s.sending, List.drop_eq_getElem_cons hlt]
  rw [List.flatten_append, List.flatten_cons]

theorem step_inSync_iff (hkeys : (s.batch.map Prod.fst).Nodup) (hsync : s.InSync tree)
    (next : HookStep) : (s.step tree batchSizeLimitBytes next).InSync tree ↔ s.StepOk tree next := by
  cases next with
  | write path contents => exact (queueUpdate_inSync path _).trans (set_keeps_iff hkeys hsync path _)
  | delete path => exact (queueUpdate_inSync path _).trans (set_keeps_iff hkeys hsync path _)
  | timer =>
    refine iff_of_true ?_ trivial
    show applyAll tree s.replica ((s.sending ++ [s.batch]).flatten ++ []) = s.fileStore
    rw [List.flatten_append, List.flatten_singleton, List.append_nil]
    exact hsync
  | flush =>
    have hovertake := overtake_iff tree s.replica s.sending.flatten s.batch []
    rw [List.append_nil, List.append_nil] at hovertake
    show applyAll tree (applyAll tree s.replica s.batch) (s.sending.flatten ++ []) = s.fileStore ↔ _
    rw [List.append_nil, ← applyAll_append, ← hsync]
    exact hovertake
  | complete k =>
    show (s.complete tree k).InSync tree ↔ _
    cases hk : s.sending[k]? with
    | none =>
      unfold complete
      rw [hk]
      refine iff_of_true hsync fun batch hbatch => ?_
      rw [hk] at hbatch
      cases hbatch
    | some batch =>
      have hovertake := overtake_iff tree s.replica (s.sending.take k).flatten batch
        ((s.sending.drop (k + 1)).flatten ++ s.batch)
      have hstore : s.fileStore = applyAll tree s.replica ((s.sending.take k).flatten ++
          (batch ++ ((s.sending.drop (k + 1)).flatten ++ s.batch))) := by
        rw [← hsync, sending_split hk]
        simp only [List.append_assoc]
      have harrived : (s.complete tree k).InSync tree ↔
          applyAll tree s.replica (batch ++ ((s.sending.take k).flatten ++
            ((s.sending.drop (k + 1)).flatten ++ s.batch))) = s.fileStore := by
        unfold complete InSync
        rw [hk]
        dsimp only
        rw [← applyAll_append, List.eraseIdx_eq_take_drop_succ, List.flatten_append,
          List.append_assoc]
      rw [harrived, hstore, hovertake]
      constructor
      · intro hok batch' hbatch'
        rw [hk] at hbatch'
        cases hbatch'
        exact hok
      · intro hok
        exact hok batch hk

/-! ## Runs -/

theorem run_inSync (hkeys : (s.batch.map Prod.fst).Nodup) (hsync : s.InSync tree)
    {steps : List HookStep} (hok : s.StepsOk tree batchSizeLimitBytes steps) :
    ((s.run tree batchSizeLimitBytes steps).batch.map Prod.fst).Nodup ∧
      (s.run tree batchSizeLimitBytes steps).InSync tree := by
  induction steps generalizing s with
  | nil => exact ⟨hkeys, hsync⟩
  | cons next steps ih =>
    exact ih (step_keys hkeys next) ((step_inSync_iff hkeys hsync next).mpr hok.1) hok.2

/-- In a run whose steps may do what they do, the replica is the store once everything is sent and
has arrived; and a step that comes next keeps it so exactly when it may. -/
theorem replica_converges (tree : Subtrees String) (batchSizeLimitBytes : Int)
    (files : String → Option FileContents) (steps : List HookStep)
    (hok : StepsOk tree batchSizeLimitBytes { fileStore := files, replica := files } steps) :
    let s := run tree batchSizeLimitBytes { fileStore := files, replica := files } steps
    (s.batch = [] → s.sending = [] → s.replica = s.fileStore) ∧
    s.InSync tree ∧
    ∀ next, (s.step tree batchSizeLimitBytes next).InSync tree ↔ s.StepOk tree next := by
  have hstart : InSync tree { fileStore := files, replica := files } := rfl
  obtain ⟨hkeys, hsync⟩ := run_inSync (s := { fileStore := files, replica := files })
    List.nodup_nil hstart hok
  refine ⟨fun hbatch hsending => ?_, hsync, step_inSync_iff hkeys hsync⟩
  unfold InSync at hsync
  rw [hbatch, hsending] at hsync
  exact hsync

/-! Paths of names between slashes, as an object store deletes them. -/

def slashTree : Subtrees String where
  under path key := key = path || (path ++ "/").toList <+: key.toList
  under_self path := by simp

def text (s : String) : FileContents := .text s

def emptyHook : BatchedWebHookFileStore := { fileStore := fun _ => none, replica := fun _ => none }

def writeTwice : List HookStep :=
  [.write "a" (text "1"), .write "a" (text "2"), .timer, .complete 0]

/-- A file written again after its directory was deleted, in one batch. -/
def deleteBetween : List HookStep :=
  [.write "a/x" (text "1"), .delete "a", .write "a/x" (text "2"), .timer, .complete 0]

/-- Two batches that arrive the other way round. -/
def overtaken : List HookStep :=
  [.write "a" (text "1"), .timer, .write "a" (text "2"), .timer, .complete 1, .complete 0]

/-- A file in the place of a directory that was deleted in the same batch. -/
def directoryReplaced : List HookStep :=
  [.write "a/x" (text "1"), .timer, .complete 0, .delete "a", .write "a" (text "2"), .timer, .complete 0]

theorem writeTwice_ok : StepsOk slashTree 1048576 emptyHook writeTwice := by
  refine ⟨?_, ?_, trivial, ?_, trivial⟩
  · intro earlier old between hbatch
    exact absurd hbatch.symm (by simp [emptyHook])
  · intro earlier old between hbatch
    have hone : [("a", Operation.write (text "1"))] = earlier ++ ("a", old) :: between := hbatch
    cases earlier with
    | nil =>
      obtain ⟨hitem, rfl⟩ := List.cons.inj hone
      cases hitem
      exact ⟨rfl, nofun⟩
    | cons item earlier => simp at hone
  · intro batch _ key _
    exact .inl rfl

theorem replica_converges_writeTwice :
    StepsOk slashTree 1048576 emptyHook writeTwice ∧
    let s := run slashTree 1048576 emptyHook writeTwice
    (s.batch = [] → s.sending = [] → s.replica = s.fileStore) ∧
    s.InSync slashTree ∧
    ∀ next, (s.step slashTree 1048576 next).InSync slashTree ↔ s.StepOk slashTree next :=
  ⟨writeTwice_ok, replica_converges slashTree 1048576 (fun _ => none) writeTwice writeTwice_ok⟩

/-- Everything is sent and has arrived, and a path differs. -/
def Diverges (s : BatchedWebHookFileStore) (path : String) : Prop :=
  s.batch.length = 0 ∧ s.sending.length = 0 ∧ s.replica path ≠ s.fileStore path

instance (s : BatchedWebHookFileStore) (path : String) : Decidable (s.Diverges path) :=
  inferInstanceAs (Decidable (_ ∧ _ ∧ _))

theorem replica_diverges :
    (run slashTree 1048576 emptyHook deleteBetween).Diverges "a/x" ∧
    (run slashTree 1048576 emptyHook overtaken).Diverges "a" ∧
    (run slashTree 1048576 emptyHook directoryReplaced).Diverges "a/x" := by
  refine ⟨?_, ?_, ?_⟩
  · decide +kernel
  · decide +kernel
  · decide +kernel

end BatchedWebHookFileStore

end OpenHands
