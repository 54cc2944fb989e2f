import OpenHandsSWE.AppServer.Webhooks

/-! All columns of the table of the conversations, and what the updates of a conversation do to them. -/

namespace OpenHands.ConversationUpdates

open SQLAppConversationInfoService Webhooks

/-- A row with the columns that no record has. -/
structure MetadataRow extends StoredConversationMetadata where
  githubUserId : Option String := none
  totalTokens : Option Int := some 0
  reasoningTokens : Option Int := some 0
deriving DecidableEq

abbrev Table := List (Uuid × MetadataRow)

def plainRows (table : Table) : Rows := table.map fun kv => (kv.1, kv.2.toStoredConversationMetadata)

/-- `merge` of the row that `save_app_conversation_info` gives, which sets all columns but one. -/
def merge (given : StoredConversationMetadata) (existing : Option MetadataRow) : MetadataRow where
  toStoredConversationMetadata := given
  githubUserId := none
  totalTokens := some 0
  reasoningTokens := (existing.map MetadataRow.reasoningTokens).getD (some 0)

def save (column : TimeColumn) (user : Option UserId) (info : AppConversationInfo) (table : Table) :
    Except PyError AppConversationInfo × Table :=
  match user, Assoc.get? info.id table with
  | some _, some _ =>
    (.error (.attributeError "'StoredConversationMetadata' object has no attribute 'created_by_user_id'"), table)
  | _, existing => (.ok info, Assoc.set info.id (merge (toRow column info) existing) table)

variable {ε : Type}

structure State (ε : Type) where
  table : Table
  events : List (Uuid × ε)

/-- The state without the other columns. -/
def State.plain (s : State ε) : Webhooks.State ε := ⟨plainRows s.table, s.events⟩

/-- The record that an update saves. -/
def updatedInfo (existing : AppConversationInfo) (id : Uuid) (llmModel : String) (sandbox : SandboxInfo)
    (now : Timestamp) : AppConversationInfo where
  id := id
  title := some (if existing.title.getD "" = "" then "Conversation " ++ hex id else existing.title.getD "")
  sandboxId := sandbox.id
  createdByUserId := sandbox.createdByUserId
  llmModel := some llmModel
  selectedRepository := existing.selectedRepository
  selectedBranch := existing.selectedBranch
  gitProvider := existing.gitProvider
  trigger := existing.trigger
  prNumber := existing.prNumber
  createdAt := now
  updatedAt := now

def onConversationUpdate (column : TimeColumn) (s : State ε) (id : Uuid) (llmModel : String) (sandbox : SandboxInfo)
    (now : Timestamp) : Except HttpError (State ε) :=
  (validConversation id sandbox now (plainRows s.table)).bind fun existing =>
    match save column none (updatedInfo existing id llmModel sandbox now) s.table with
    | (.ok _, table) => .ok { s with table := table }
    | (.error err, _) => .error (.internal err)

/-- Events are saved beside the table. -/
def handle (column : TimeColumn) (s : State ε) (call : Webhooks.Call ε) : Except HttpError (State ε) :=
  (validSandbox call.sandboxes call.sandboxId call.header).bind fun sandbox =>
    match call.request with
    | .conversationUpdate id llmModel => onConversationUpdate column s id llmModel sandbox call.now
    | .events conversationId events =>
      (onEvent s.plain conversationId events sandbox call.now).map fun saved => { s with events := saved.events }

def step (column : TimeColumn) (s : State ε) (call : Webhooks.Call ε) : State ε := (handle column s call).toOption.getD s

/-! ## What an update may write -/

/-- The rows differ in what an update carries, and in a title that was empty. -/
structure Carried (before after : MetadataRow) : Prop where
  rest : after = { before with
    title := after.title, lastUpdatedAt := after.lastUpdatedAt, llmModel := after.llmModel, sandboxId := after.sandboxId }
  title : before.title.getD "" ≠ "" → after.title = before.title

/-- Each conversation of the new server is still there, with at most that changed. -/
def Kept (s s' : State ε) : Prop :=
  ∀ id before, Assoc.get? id s.table = some before → before.conversationVersion = "V1" →
    ∃ after, Assoc.get? id s'.table = some after ∧ Carried before after

/-- The updates that are accepted, and the calls as a whole, keep the rest of every row. -/
structure KeepRest (column : TimeColumn) (s : State ε) (calls : List (Webhooks.Call ε)) : Prop where
  each : Runs.EachStep (step column) s (fun s call => ∀ id llmModel s', call.request = .conversationUpdate id llmModel →
    handle column s call = .ok s' → Kept s s') calls
  whole : Kept s (calls.foldl (step column) s)

/-- The columns that an update does not carry hold what it writes there. -/
structure Unset (column : TimeColumn) (now : Timestamp) (row : MetadataRow) : Prop where
  createdAt : row.createdAt = column now
  accumulatedCost : row.accumulatedCost = .zero
  promptTokens : row.promptTokens = 0
  completionTokens : row.completionTokens = 0
  totalTokens : row.totalTokens = some 0
  maxBudgetPerTask : row.maxBudgetPerTask = none
  cacheReadTokens : row.cacheReadTokens = 0
  cacheWriteTokens : row.cacheWriteTokens = 0
  contextWindow : row.contextWindow = 0
  perTurnToken : row.perTurnToken = 0
  githubUserId : row.githubUserId = none
  gitProvider : row.gitProvider ≠ some ""
  trigger : row.trigger ≠ some ""

/-- An update that is let in, by a sandbox of the conversation's user, finds the columns so. -/
def FindsUnset (column : TimeColumn) (s : State ε) (call : Webhooks.Call ε) : Prop :=
  ∀ id llmModel sandbox existing row, call.request = .conversationUpdate id llmModel →
    validSandbox call.sandboxes call.sandboxId call.header = .ok sandbox →
    validConversation id sandbox call.now (plainRows s.table) = .ok existing →
    Assoc.get? id s.table = some row → row.conversationVersion = "V1" → Unset column call.now row

section Updates

variable {column : TimeColumn} {s s' : State ε} {call : Webhooks.Call ε} {sandbox : SandboxInfo} {id : Uuid} {now : Timestamp}
  {existing : AppConversationInfo} {row before after : MetadataRow} {table : Table}

theorem get?_plainRows (id : Uuid) (table : Table) :
    Assoc.get? id (plainRows table) = (Assoc.get? id table).map MetadataRow.toStoredConversationMetadata :=
  Assoc.get?_map Function.injective_id MetadataRow.toStoredConversationMetadata id table

/-- The row that an update writes. -/
def updatedRow (column : TimeColumn) (existing : AppConversationInfo) (id : Uuid) (llmModel : String)
    (sandbox : SandboxInfo) (now : Timestamp) (table : Table) : MetadataRow :=
  merge (toRow column (updatedInfo existing id llmModel sandbox now)) (Assoc.get? id table)

theorem onConversationUpdate_ok {llmModel : String}
    (h : validConversation id sandbox now (plainRows s.table) = .ok existing) :
    onConversationUpdate column s id llmModel sandbox now =
      .ok { s with table := Assoc.set id (updatedRow column existing id llmModel sandbox now s.table) s.table } := by
  rw [onConversationUpdate, h]
  rfl

/-- Without the other columns the updates are those of the webhooks. -/
theorem onConversationUpdate_plain (llmModel : String) :
    (onConversationUpdate column s id llmModel sandbox now).map State.plain =
      Webhooks.onConversationUpdate column s.plain id llmModel sandbox now := by
  unfold Webhooks.onConversationUpdate
  cases h : validConversation id sandbox now (plainRows s.table) with
  | error err =>
    rw [onConversationUpdate, h, show s.plain.rows = plainRows s.table from rfl, h]
    rfl
  | ok existing =>
    rw [onConversationUpdate_ok h, show s.plain.rows = plainRows s.table from rfl, h]
    have hset := Assoc.map_set Function.injective_id MetadataRow.toStoredConversationMetadata id
      (updatedRow column existing id llmModel sandbox now s.table) s.table
    exact congrArg (fun rows => Except.ok (⟨rows, s.events⟩ : Webhooks.State ε)) hset

theorem handle_plain (column : TimeColumn) (s : State ε) (call : Webhooks.Call ε) :
    (handle column s call).map State.plain = Webhooks.handle column s.plain call := by
  unfold handle Webhooks.handle
  cases validSandbox call.sandboxes call.sandboxId call.header with
  | error err => rfl
  | ok sandbox =>
    cases call.request with
    | conversationUpdate id llmModel => exact onConversationUpdate_plain llmModel
    | events conversationId events =>
      change ((onEvent s.plain conversationId events sandbox call.now).map _).map State.plain =
        onEvent s.plain conversationId events sandbox call.now
      unfold onEvent
      cases validConversation conversationId sandbox call.now s.plain.rows with
      | error err => rfl
      | ok existing =>
        -- the events of a call leave the rows alone
        rcases foldl_saveEvent s.plain conversationId events with hsame | ⟨-, hsaved⟩
        · simp only [Except.map, hsame]
          rfl
        · simp only [Except.map, hsaved]
          rfl

/-! ## The row of an update -/

/-- A row with the columns as an update that does not carry them leaves them. -/
def reset (column : TimeColumn) (now : Timestamp) (row : MetadataRow) : MetadataRow :=
  { row with
    createdAt := column now
    accumulatedCost := .zero
    promptTokens := 0
    completionTokens := 0
    totalTokens := some 0
    maxBudgetPerTask := none
    cacheReadTokens := 0
    cacheWriteTokens := 0
    contextWindow := 0
    perTurnToken := 0
    githubUserId := none
    gitProvider := row.gitProvider.filter (· ≠ "")
    trigger := row.trigger.filter (· ≠ "") }

theorem filter_eq_self_iff {text : Option String} : text.filter (· ≠ "") = text ↔ text ≠ some "" := by
  cases text with
  | none => exact iff_of_true rfl (fun h => by cases h)
  | some text => simp

theorem reset_eq_self_iff : reset column now row = row ↔ Unset column now row := by
  obtain ⟨⟨userId, repository, branch, provider, title, updatedAt, createdAt, trigger, prNumber, cost, prompt, completion,
    budget, cacheRead, cacheWrite, window, turn, model, version, sandboxId⟩, github, total, reasoning⟩ := row
  constructor
  · intro h
    simp only [reset, MetadataRow.mk.injEq, StoredConversationMetadata.mk.injEq, true_and] at h
    obtain ⟨⟨hprovider, hcreated, htrigger, hcost, hprompt, hcompletion, hbudget, hread, hwrite, hwindow, hturn, -⟩,
      hgithub, htotal, -⟩ := h
    exact ⟨hcreated.symm, hcost.symm, hprompt.symm, hcompletion.symm, htotal.symm, hbudget.symm, hread.symm, hwrite.symm,
      hwindow.symm, hturn.symm, hgithub.symm, filter_eq_self_iff.mp hprovider, filter_eq_self_iff.mp htrigger⟩
  · intro h
    simp only [reset, MetadataRow.mk.injEq, StoredConversationMetadata.mk.injEq, true_and, and_true]
    exact ⟨⟨filter_eq_self_iff.mpr h.gitProvider, h.createdAt.symm, filter_eq_self_iff.mpr h.trigger,
      h.accumulatedCost.symm, h.promptTokens.symm, h.completionTokens.symm, h.maxBudgetPerTask.symm,
      h.cacheReadTokens.symm, h.cacheWriteTokens.symm, h.contextWindow.symm, h.perTurnToken.symm⟩, h.githubUserId.symm,
      h.totalTokens.symm⟩

theorem readEnum_ok {α : Type} {value : α → String} {all : List α} {text : Option String} {a : Option α}
    (h : readEnum value all text = .ok a) : a.map value = text.filter (· ≠ "") := by
  unfold readEnum at h
  split at h
  next => rw [← Except.ok.inj h]; rfl
  next => rw [← Except.ok.inj h]; rfl
  next text hempty =>
    split at h
    next found hfound =>
      have hvalue : value found = text := by simpa using List.find?_some hfound
      rw [← Except.ok.inj h, Option.map_some, hvalue]
      have hne : text ≠ "" := hempty
      rw [Option.filter_some, if_pos (decide_eq_true hne)]
    next => cases h

theorem validConversation_ok (h : validConversation id sandbox now (plainRows table) = .ok existing)
    (hrow : Assoc.get? id table = some row) (hversion : row.conversationVersion = "V1") :
    toInfo id row.toStoredConversationMetadata = .ok existing ∧ existing.createdByUserId = sandbox.createdByUserId := by
  have hplain : Assoc.get? id (plainRows table) = some row.toStoredConversationMetadata := by
    rw [get?_plainRows, hrow]
    rfl
  rw [validConversation, getInfo_admin hplain, if_pos hversion] at h
  cases hinfo : toInfo id row.toStoredConversationMetadata with
  | error err =>
    rw [hinfo] at h
    cases h
  | ok found =>
    rw [hinfo] at h
    dsimp only [Except.map] at h
    split_ifs at h with hother
    rw [← Except.ok.inj h]
    exact ⟨rfl, not_not.mp hother⟩

/-- Besides what it carries an update resets the row. -/
theorem updatedRow_eq (hinfo : toInfo id row.toStoredConversationMetadata = .ok existing)
    (howner : existing.createdByUserId = sandbox.createdByUserId) (hrow : Assoc.get? id table = some row)
    (hversion : row.conversationVersion = "V1") (llmModel : String) :
    updatedRow column existing id llmModel sandbox now table = { reset column now row with
      title := some (if row.title.getD "" = "" then "Conversation " ++ hex id else row.title.getD "")
      lastUpdatedAt := column now
      llmModel := some llmModel
      sandboxId := some sandbox.id } := by
  -- the user of the record is that of the sandbox, which the update writes
  have huser : row.userId = SQLAppConversationInfoService.userText sandbox.createdByUserId :=
    (toInfo_owner hinfo).trans (congrArg _ howner)
  rw [toInfo] at hinfo
  cases hsandbox : row.sandboxId with
  | none =>
    rw [hsandbox] at hinfo
    cases hinfo
  | some sandboxId =>
    rw [hsandbox] at hinfo
    obtain ⟨provider, hprovider, hinfo⟩ := Py.bind_ok hinfo
    obtain ⟨trigger, htrigger, hinfo⟩ := Py.bind_ok hinfo
    obtain rfl := Except.ok.inj hinfo
    have hproviderText := readEnum_ok hprovider
    have htriggerText := readEnum_ok htrigger
    rw [updatedRow, hrow, merge, toRow]
    dsimp only [updatedInfo]
    rw [← huser, hproviderText, htriggerText, ← hversion]
    rfl

theorem Carried.refl (row : MetadataRow) : Carried row row := ⟨rfl, fun _ => rfl⟩

theorem Carried.trans {between : MetadataRow} (h : Carried before between) (h' : Carried between after) :
    Carried before after := by
  refine ⟨?_, fun htitle => ?_⟩
  · rw [h'.rest, h.rest]
  · have hbetween := h.title htitle
    exact (h'.title (hbetween ▸ htitle)).trans hbetween

theorem carried_updatedRow_iff (hvalid : validConversation id sandbox now (plainRows table) = .ok existing)
    (hrow : Assoc.get? id table = some row) (hversion : row.conversationVersion = "V1") (llmModel : String) :
    Carried row (updatedRow column existing id llmModel sandbox now table) ↔ Unset column now row := by
  obtain ⟨hinfo, howner⟩ := validConversation_ok hvalid hrow hversion
  rw [updatedRow_eq hinfo howner hrow hversion, ← reset_eq_self_iff]
  constructor
  · intro h
    have hrest := congrArg (fun after : MetadataRow => { after with
      title := row.title, lastUpdatedAt := row.lastUpdatedAt, llmModel := row.llmModel, sandboxId := row.sandboxId }) h.rest
    exact hrest
  · intro h
    rw [h]
    refine ⟨rfl, fun htitle => ?_⟩
    dsimp only
    rw [if_neg htitle]
    cases hold : row.title with
    | none => exact absurd (by rw [hold]; rfl) htitle
    | some title => rfl

/-! ## Runs of calls -/

theorem handle_update {llmModel : String} (hrequest : call.request = .conversationUpdate id llmModel) :
    handle column s call = .ok s' ↔ ∃ sandbox existing,
      validSandbox call.sandboxes call.sandboxId call.header = .ok sandbox ∧
        validConversation id sandbox call.now (plainRows s.table) = .ok existing ∧
          s' = { s with table := Assoc.set id (updatedRow column existing id llmModel sandbox call.now s.table) s.table } := by
  unfold handle
  rw [hrequest]
  constructor
  · intro h
    obtain ⟨sandbox, hsandbox, hupdate⟩ := Py.bind_ok h
    obtain ⟨existing, hvalid, -⟩ := Py.bind_ok hupdate
    dsimp only at hupdate
    rw [onConversationUpdate_ok hvalid] at hupdate
    exact ⟨sandbox, existing, hsandbox, hvalid, (Except.ok.inj hupdate).symm⟩
  · rintro ⟨sandbox, existing, hsandbox, hvalid, rfl⟩
    rw [hsandbox]
    exact onConversationUpdate_ok hvalid

theorem kept_set_iff : Kept s { s with table := Assoc.set id after s.table } ↔
    ∀ before, Assoc.get? id s.table = some before → before.conversationVersion = "V1" → Carried before after := by
  constructor
  · intro h before hbefore hversion
    obtain ⟨found, hfound, hcarried⟩ := h id before hbefore hversion
    rw [Assoc.get?_set_self] at hfound
    rwa [Option.some.inj hfound]
  · intro h other before hbefore hversion
    by_cases hid : other = id
    · subst hid
      exact ⟨after, Assoc.get?_set_self _ _ _, h before hbefore hversion⟩
    · exact ⟨before, (Assoc.get?_set_of_ne hid _ _).trans hbefore, Carried.refl before⟩

/-- One accepted update keeps the rest of its row exactly when it finds it unset. -/
theorem kept_iff_findsUnset (column : TimeColumn) (s : State ε) (call : Webhooks.Call ε) :
    (∀ id llmModel s', call.request = .conversationUpdate id llmModel → handle column s call = .ok s' → Kept s s') ↔
      FindsUnset column s call := by
  constructor
  · intro h id llmModel sandbox existing row hrequest hsandbox hvalid hrow hversion
    have hkept := h id llmModel _ hrequest ((handle_update hrequest).mpr ⟨sandbox, existing, hsandbox, hvalid, rfl⟩)
    exact (carried_updatedRow_iff hvalid hrow hversion llmModel).mp (kept_set_iff.mp hkept row hrow hversion)
  · intro h id llmModel s' hrequest hhandle
    obtain ⟨sandbox, existing, hsandbox, hvalid, rfl⟩ := (handle_update hrequest).mp hhandle
    refine kept_set_iff.mpr fun row hrow hversion => ?_
    have hunset := h id llmModel sandbox existing row hrequest hsandbox hvalid hrow hversion
    exact (carried_updatedRow_iff hvalid hrow hversion llmModel).mpr hunset

theorem Kept.refl (s : State ε) : Kept s s := fun _ before hbefore _ => ⟨before, hbefore, Carried.refl before⟩

theorem Kept.trans {t u : State ε} (h : Kept s t) (h' : Kept t u) : Kept s u := by
  intro id before hbefore hversion
  obtain ⟨between, hbetween, hcarried⟩ := h id before hbefore hversion
  have hsame : between.conversationVersion = "V1" := by rw [hcarried.rest]; exact hversion
  obtain ⟨after, hafter, hcarried'⟩ := h' id between hbetween hsame
  exact ⟨after, hafter, hcarried.trans hcarried'⟩

theorem kept_step (h : FindsUnset column s call) : Kept s (step column s call) := by
  cases hhandle : handle column s call with
  | error err =>
    rw [step, hhandle]
    exact Kept.refl s
  | ok s' =>
    rw [step, hhandle]
    cases hrequest : call.request with
    | conversationUpdate id llmModel => exact (kept_iff_findsUnset column s call).mpr h id llmModel s' hrequest hhandle
    | events conversationId events =>
      -- events are saved beside the table
      unfold handle at hhandle
      rw [hrequest] at hhandle
      obtain ⟨sandbox, -, hevents⟩ := Py.bind_ok hhandle
      obtain ⟨saved, -, rfl⟩ := Py.map_ok hevents
      exact Kept.refl s

theorem kept_run {calls : List (Webhooks.Call ε)} (h : Runs.EachStep (step column) s (FindsUnset column) calls) :
    Kept s (calls.foldl (step column) s) := by
  induction calls generalizing s with
  | nil => exact Kept.refl s
  | cons call calls ih =>
    obtain ⟨hcall, hcalls⟩ := Runs.eachStep_cons.mp h
    exact (kept_step hcall).trans (ih hcalls)

/-- From any table, the updates of a run keep the rest of every row exactly when each finds it unset. -/
theorem keepRest_iff (column : TimeColumn) (s : State ε) (calls : List (Webhooks.Call ε)) :
    KeepRest column s calls ↔ Runs.EachStep (step column) s (FindsUnset column) calls := by
  have heach := @Runs.eachStep_iff _ _ (step column) s _ _ (fun _ => True) trivial (fun _ _ _ _ => trivial)
    (fun s call _ => kept_iff_findsUnset column s call) calls
  constructor
  · intro h
    exact heach.mp h.each
  · intro h
    exact ⟨heach.mpr h, kept_run h⟩

/-- Alice's conversation, which has cost 1. -/
def costly : MetadataRow :=
  { toRow sqlite { ofAlice with metrics := some { accumulatedCost := FloatLit.ofInt 1 } } with }

def runningSandbox : Sandbox := .process ⟨some alice, "secret", .running, some 200⟩

/-- The update a microsecond after the conversation was created. -/
def resumed : Webhooks.Call Nat where
  sandboxes := [("sandbox", runningSandbox)]
  sandboxId := "sandbox"
  header := some "secret"
  request := .conversationUpdate 1 "model"
  now := ⟨1, some 0⟩

theorem update_resets : ¬ ∀ column s (calls : List (Webhooks.Call Nat)), KeepRest column s calls := by
  intro h
  obtain ⟨after, hafter, hcarried⟩ := (h sqlite ⟨[(1, costly)], []⟩ [resumed]).whole 1 costly rfl rfl
  have hrest := congrArg (fun row => row.createdAt.clock) hcarried.rest
  obtain rfl := Option.some.inj hafter
  exact absurd hrest (by decide)

end Updates

end OpenHands.ConversationUpdates
