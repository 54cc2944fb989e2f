import OpenHandsSWE.Controller.State
import OpenHandsSWE.Memory.ConversationMemory
import OpenHandsSWE.Memory.View

/-! The view that a state keeps of its history, and the agent steps that work on it in place. -/

namespace OpenHands

open ConversationMemory

/-- `_truncate_memory_to_point`. -/
def State.truncateMemoryToPoint (s : State) (recoveryPoint : Int) : State :=
  if s.history.length ≤ recoveryPoint then s
  else
    let eventsToKeep := Py.takeTo s.history recoveryPoint
    { s with history := eventsToKeep
             endId := (eventsToKeep.getLast?.map fun e => e.id).getD (-1) }

/-- A state with its cached view and the length the view was computed at. Beside them stand the
history it was computed from, and whether an event has been put into it since. -/
structure ViewedState where
  state : State
  cache : Option (Nat × View) := none
  computedFrom : List Event := []
  inserted : Bool := false

/-- What the condenser makes of a view: it hands it on, makes a new one, or asks to condense. -/
inductive CondenserAnswer where
  | handsOn
  | fresh
  | condensation
deriving DecidableEq, Repr

inductive ViewOp where
  | append (e : Event)
  | truncate (recoveryPoint : Int)
  | read
  | step (pendingActions : Bool) (condense : View → CondenserAnswer)

namespace ViewedState

def compute (s : ViewedState) : ViewedState :=
  { s with cache := some (s.state.history.length, View.fromEvents s.state.history)
           computedFrom := s.state.history
           inserted := false }

/-- The state after `State.view` was read. -/
def recompute (s : ViewedState) : ViewedState :=
  match s.cache with
  | some (checksum, _) => if s.state.history.length = checksum then s else s.compute
  | none => s.compute

def view (s : ViewedState) : View :=
  match s.recompute.cache with
  | some (_, v) => v
  | none => { events := [] }

def lastUserMessage (v : View) : Option MessageAction :=
  v.events.reverse.findSome? fun e =>
    match e.body with
    | .action (.message a) => if e.source = some .user then some a else none
    | _ => none

def isExit (a : MessageAction) : Bool := Text.strip a.content.toList = "/exit".toList

/-- The first user message of the whole history. -/
def initialUserMessage (history : List Event) : Option MessageEvent :=
  history.findSome? fun e =>
    if h : e.cls = some (.action .message) then
      if e.source = some .user then some ⟨e, h⟩ else none
    else none

variable (config : AgentConfig) (renderer : Renderer)

/-- `process_events` finds the messages it would put in already there. -/
def insertsNothing (events : List Event) : Bool :=
  (events.any isSystemMessage || renderer.getSystemMessage config.cliMode = "") &&
    match events with
    | [] => true
    | [_] => false
    | _ :: e :: _ => isUserMessage e

/-- The list of the cached view is the list that `process_events` puts messages into. What it
changes inside an event it changes for view and history alike, and is left out. -/
def processView (s : ViewedState) (initialUserAction : MessageEvent) : ViewedState :=
  match s.cache with
  | some (checksum, v) =>
    { s with cache := some (checksum, { v with events := prepareEvents config renderer v.events initialUserAction })
             inserted := s.inserted || !insertsNothing config renderer v.events }
  | none => s

/-- A step of the agent up to its request to the LLM. -/
def agentStep (s : ViewedState) (pendingActions : Bool) (condense : View → CondenserAnswer) : ViewedState :=
  if pendingActions then s
  else if (lastUserMessage s.view).any isExit then s.recompute
  else
    match condense s.recompute.view with
    | .condensation | .fresh => s.recompute
    | .handsOn =>
      match initialUserMessage s.state.history with
      | none => s.recompute
      | some initialUserAction => s.recompute.processView config renderer initialUserAction

def apply (s : ViewedState) : ViewOp → ViewedState
  | .append e => { s with state := { s.state with history := s.state.history ++ [e] } }
  | .truncate recoveryPoint => { s with state := s.state.truncateMemoryToPoint recoveryPoint }
  | .read => s.recompute
  | .step pendingActions condense => s.agentStep config renderer pendingActions condense

def run (s : ViewedState) (ops : List ViewOp) : ViewedState := ops.foldl (apply config renderer) s

/-- The views an operation reads: a step reads one for the last user message and, unless that is
the end of it, one to condense. -/
def reads (s : ViewedState) : ViewOp → List View
  | .append _ | .truncate _ => []
  | .read => [s.view]
  | .step pendingActions _ =>
    if pendingActions then []
    else if (lastUserMessage s.view).any isExit then [s.view]
    else [s.view, s.recompute.view]

def ReadsFresh (s : ViewedState) : List ViewOp → Prop
  | [] => True
  | op :: ops =>
    (∀ v ∈ s.reads op, v = View.fromEvents s.state.history) ∧ ReadsFresh (s.apply config renderer op) ops

/-- At the length it was computed at, the view is still that of the history, and nothing was put
into it. -/
def CacheOk (s : ViewedState) : Prop :=
  ∀ checksum v, s.cache = some (checksum, v) → s.state.history.length = checksum →
    s.computedFrom = s.state.history ∧ s.inserted = false

def ReadOk (s : ViewedState) (op : ViewOp) : Prop := s.reads op ≠ [] → s.CacheOk

def ReadsOk (s : ViewedState) : List ViewOp → Prop
  | [] => True
  | op :: ops => s.ReadOk op ∧ ReadsOk (s.apply config renderer op) ops

/-! ## What is put into a view -/

section Inserting

variable {config renderer} {events : List Event}

theorem ensureSystemMessage_length (events : List Event) :
    events.length ≤ (ensureSystemMessage config renderer events).length := by
  unfold ensureSystemMessage
  split_ifs
  · exact le_rfl
  · exact le_rfl
  · exact Nat.le_succ _

theorem ensureInitialUserMessage_length (initial : Event) (events : List Event) :
    events.length ≤ (ensureInitialUserMessage initial events).length := by
  unfold ensureInitialUserMessage
  split
  · exact le_rfl
  · exact Nat.le_succ _
  · split_ifs
    · exact le_rfl
    · exact Nat.le_succ _

theorem prepareEvents_of_insertsNothing (h : insertsNothing config renderer events = true)
    (initial : MessageEvent) : prepareEvents config renderer events initial = events := by
  obtain ⟨hsystem, huser⟩ := Bool.and_eq_true_iff.mp h
  have hsame : ensureSystemMessage config renderer events = events := by
    unfold ensureSystemMessage
    split_ifs with h1 h2
    · rfl
    · rfl
    · simp [h1, h2] at hsystem
  unfold prepareEvents
  rw [hsame]
  unfold ensureInitialUserMessage
  split
  · rfl
  · cases huser
  · exact if_pos huser

/-- Otherwise the list gets longer. -/
theorem length_lt_prepareEvents (h : insertsNothing config renderer events = false)
    (initial : MessageEvent) : events.length < (prepareEvents config renderer events initial).length := by
  unfold prepareEvents
  by_cases hsystem : events.any isSystemMessage || renderer.getSystemMessage config.cliMode = ""
  · have hsame : ensureSystemMessage config renderer events = events := by
      unfold ensureSystemMessage
      split_ifs with h1 h2
      · rfl
      · rfl
      · simp [h1, h2] at hsystem
    unfold insertsNothing at h
    rw [hsystem, Bool.true_and] at h
    rw [hsame]
    unfold ensureInitialUserMessage
    split
    · cases h
    · exact Nat.lt_succ_self _
    · rw [if_neg (by simpa using h)]
      exact Nat.lt_succ_self _
  · have hlonger : events.length < (ensureSystemMessage config renderer events).length := by
      unfold ensureSystemMessage
      split_ifs with h1 h2
      · simp [h1] at hsystem
      · simp [h2] at hsystem
      · exact Nat.lt_succ_self _
    exact hlonger.trans_le (ensureInitialUserMessage_length initial.val _)

end Inserting

/-! ## What the cache holds -/

/-- The cached view is that of the history it was computed from, with what was put into it. -/
structure Traced (s : ViewedState) : Prop where
  cache : ∀ checksum v, s.cache = some (checksum, v) → checksum = s.computedFrom.length ∧
    (s.inserted = false → v = View.fromEvents s.computedFrom) ∧
    (s.inserted = true → (View.fromEvents s.computedFrom).events.length < v.events.length)

variable {config renderer} {s : ViewedState}

/-- The cached view is of the length of the history, or the view is computed. -/
theorem recompute_cases (s : ViewedState) :
    (∃ v, s.cache = some (s.state.history.length, v) ∧ s.recompute = s) ∨ s.recompute = s.compute := by
  unfold recompute
  split
  · next checksum v hcache =>
    split_ifs with hlen
    · exact .inl ⟨v, by rw [hcache, hlen], rfl⟩
    · exact .inr rfl
  · exact .inr rfl

theorem recompute_hit {v : View} (h : s.cache = some (s.state.history.length, v)) :
    s.recompute = s := by
  unfold recompute
  rw [h]
  exact if_pos rfl

theorem recompute_recompute (s : ViewedState) : s.recompute.recompute = s.recompute := by
  rcases recompute_cases s with ⟨v, hcache, hsame⟩ | hnew
  · rw [hsame, hsame]
  · rw [hnew]
    exact recompute_hit rfl

theorem view_recompute (s : ViewedState) : s.recompute.view = s.view := by
  unfold view
  rw [recompute_recompute]

namespace Traced

theorem start (state : State) : Traced { state } := ⟨nofun⟩

theorem recompute (h : Traced s) : Traced s.recompute := by
  rcases recompute_cases s with ⟨v, hcache, hsame⟩ | hnew
  · rw [hsame]
    exact h
  · rw [hnew]
    refine ⟨fun checksum v hcache => ?_⟩
    cases hcache
    exact ⟨rfl, fun _ => rfl, nofun⟩

theorem processView (h : Traced s) (initial : MessageEvent) :
    Traced (s.processView config renderer initial) := by
  unfold ViewedState.processView
  split
  · next checksum v hcache =>
    obtain ⟨hlen, hclean, hdirty⟩ := h.cache checksum v hcache
    refine ⟨fun checksum' v' hcache' => ?_⟩
    cases hcache'
    refine ⟨hlen, fun hno => ?_, fun hyes => ?_⟩
    · obtain ⟨hold, hnothing⟩ := Bool.or_eq_false_iff.mp hno
      have hsame := prepareEvents_of_insertsNothing (by simpa using hnothing) initial
      rw [hsame]
      exact hclean hold
    · cases hinserted : s.inserted with
      | true => 
        have hgrows : v.events.length ≤ (prepareEvents config renderer v.events initial).length :=
          (ensureSystemMessage_length _).trans (ensureInitialUserMessage_length _ _)
        exact (hdirty hinserted).trans_le hgrows
      | false =>
        rw [hinserted, Bool.false_or, Bool.not_eq_true'] at hyes
        rw [← hclean hinserted]
        exact length_lt_prepareEvents hyes initial
  · exact h

theorem apply (h : Traced s) (op : ViewOp) : Traced (s.apply config renderer op) := by
  cases op with
  | append e => exact ⟨h.cache⟩
  | truncate recoveryPoint => exact ⟨h.cache⟩
  | read => exact h.recompute
  | step pendingActions condense =>
    unfold ViewedState.apply agentStep
    dsimp only
    split_ifs
    · exact h
    · exact h.recompute
    · split
      · exact h.recompute
      · exact h.recompute
      · split
        · exact h.recompute
        · exact h.recompute.processView _

theorem run (h : Traced s) (ops : List ViewOp) : Traced (s.run config renderer ops) := by
  induction ops generalizing s with
  | nil => exact h
  | cons op ops ih => exact ih (h.apply op)

/-- What is read is computed from the history, or the cached view. -/
theorem view_eq (h : Traced s) (hok : s.CacheOk) : s.view = View.fromEvents s.state.history := by
  unfold view
  rcases recompute_cases s with ⟨v, hcache, hsame⟩ | hnew
  · rw [hsame, hcache]
    obtain ⟨hfrom, hclean⟩ := hok _ v hcache rfl
    have hview := (h.cache _ v hcache).2.1 hclean
    rw [hfrom] at hview
    exact hview
  · rw [hnew]
    rfl

/-- A view computed from the history at hand is right as long as nothing was put into it. -/
theorem view_eq_iff (h : Traced s) (hfrom : s.computedFrom = s.state.history) {checksum : Nat}
    {v : View} (hcache : s.cache = some (checksum, v)) :
    s.view = View.fromEvents s.state.history ↔ s.inserted = false := by
  obtain ⟨hlen, hclean, hdirty⟩ := h.cache checksum v hcache
  have hview : s.view = v := by
    unfold view
    rw [hlen, hfrom] at hcache
    rw [recompute_hit hcache, hcache]
  rw [hview, ← hfrom]
  refine ⟨fun heq => ?_, hclean⟩
  by_contra hinserted
  have hlt := hdirty (Bool.of_not_eq_false hinserted)
  rw [heq] at hlt
  exact lt_irrefl _ hlt

end Traced

theorem reads_eq {op : ViewOp} {v : View} (hv : v ∈ s.reads op) : v = s.view := by
  unfold reads at hv
  split at hv
  · cases hv
  · cases hv
  · exact List.mem_singleton.mp hv
  · split_ifs at hv
    · cases hv
    · exact List.mem_singleton.mp hv
    · rw [view_recompute] at hv
      simpa using hv

theorem readsFresh_of_ok (h : Traced s) {ops : List ViewOp} (hok : s.ReadsOk config renderer ops) :
    s.ReadsFresh config renderer ops := by
  induction ops generalizing s with
  | nil => trivial
  | cons op ops ih =>
    refine ⟨fun v hv => ?_, ih (h.apply op) hok.2⟩
    rw [reads_eq hv]
    exact h.view_eq (hok.1 (List.ne_nil_of_mem hv))

/-! ## Histories that only grow -/

/-- The cached view was computed from the history as it was earlier. -/
def Grown (s : ViewedState) : Prop := ∀ cached, s.cache = some cached → s.computedFrom <+: s.state.history

theorem Grown.recompute (h : Grown s) : Grown s.recompute := by
  rcases recompute_cases s with ⟨v, hcache, hsame⟩ | hnew
  · rw [hsame]
    exact h
  · rw [hnew]
    exact fun cached hcache => List.prefix_refl _

theorem Grown.processView (h : Grown s) (initial : MessageEvent) :
    Grown (s.processView config renderer initial) := by
  unfold ViewedState.processView
  split
  · next checksum v hcache => exact fun cached _ => h _ hcache
  · exact h

theorem Grown.apply (h : Grown s) {op : ViewOp} (hop : ∀ recoveryPoint, op ≠ .truncate recoveryPoint) :
    Grown (s.apply config renderer op) := by
  cases op with
  | append e => exact fun cached hcache => (h cached hcache).trans (List.prefix_append _ _)
  | truncate recoveryPoint => exact absurd rfl (hop recoveryPoint)
  | read => exact h.recompute
  | step pendingActions condense =>
    unfold ViewedState.apply agentStep
    dsimp only
    split_ifs
    · exact h
    · exact h.recompute
    · split
      · exact h.recompute
      · exact h.recompute
      · split
        · exact h.recompute
        · exact h.recompute.processView _

theorem mem_reads {op : ViewOp} (h : s.reads op ≠ []) : s.view ∈ s.reads op := by
  obtain ⟨v, hv⟩ := List.exists_mem_of_ne_nil _ h
  have heq := reads_eq hv
  rwa [heq] at hv

theorem readsOk_of_fresh (h : Traced s) (hgrown : Grown s) {ops : List ViewOp}
    (hops : ∀ recoveryPoint, ViewOp.truncate recoveryPoint ∉ ops)
    (hfresh : s.ReadsFresh config renderer ops) : s.ReadsOk config renderer ops := by
  induction ops generalizing s with
  | nil => trivial
  | cons op ops ih =>
    have hop : ∀ recoveryPoint, op ≠ .truncate recoveryPoint := by
      rintro recoveryPoint rfl
      exact hops recoveryPoint List.mem_cons_self
    refine ⟨fun hreads checksum v hcache hlen => ?_, ?_⟩
    · have hview := hfresh.1 _ (mem_reads hreads)
      have hcomputed := (h.cache checksum v hcache).1
      have hfrom : s.computedFrom = s.state.history := by
        apply (hgrown _ hcache).eq_of_length
        rw [← hcomputed, hlen]
      exact ⟨hfrom, (h.view_eq_iff hfrom hcache).mp hview⟩
    · exact ih (h.apply op) (hgrown.apply hop)
        (fun recoveryPoint hmem => hops recoveryPoint (List.mem_cons_of_mem _ hmem)) hfresh.2

/-- Every view that is read is that of the history, when each read at the length the view was
computed at finds the same history and a view nothing was put into. Where the history is never
truncated, only then. -/
theorem readsFresh_iff (config : AgentConfig) (renderer : Renderer) (state : State)
    (ops : List ViewOp) :
    (ReadsOk config renderer { state } ops → ReadsFresh config renderer { state } ops) ∧
    ((∀ recoveryPoint, ViewOp.truncate recoveryPoint ∉ ops) →
      (ReadsFresh config renderer { state } ops ↔ ReadsOk config renderer { state } ops)) := by
  have hstart := Traced.start state
  refine ⟨fun hok => readsFresh_of_ok hstart hok, fun hops => ⟨fun hfresh => ?_, fun hok => ?_⟩⟩
  · exact readsOk_of_fresh hstart nofun hops hfresh
  · exact readsFresh_of_ok hstart hok

/-! A history that is cut and grows again to the same length, and one without a system message. -/

def said (id : Int) (content : String) : Event :=
  { body := .action (.message { content }), id, source := some .user }

def promptRenderer : Renderer where
  getSystemMessage _ := "You are an agent."
  buildWorkspaceContext _ _ _ _ := ""
  buildMicroagentInfo _ := ""
  actionStr _ := ""
  visualizeDiff _ := ""

def regrown : List ViewOp :=
  [.append (said 0 "a"), .append (said 1 "b"), .read, .truncate 1, .append (said 2 "c"), .read]

def withoutSystemMessage : List ViewOp :=
  [.append (said 0 "a"), .step false fun _ => .handsOn, .read]

theorem readsFresh_regrown :
    ¬ ReadsFresh {} promptRenderer { state := {} } regrown ∧
    ¬ ReadsFresh {} promptRenderer { state := {} } withoutSystemMessage := by
  constructor
  · intro hfresh
    have hlast := hfresh.2.2.2.2.2.1 _ List.mem_cons_self
    have hids := congrArg (fun v => v.events.map fun e => e.id) hlast
    revert hids
    decide +kernel
  · intro hfresh
    have hlast := hfresh.2.2.1 _ List.mem_cons_self
    have hids := congrArg (fun v => v.events.map fun e => e.id) hlast
    revert hids
    decide +kernel

end ViewedState

end OpenHands
