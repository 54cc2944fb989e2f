import OpenHandsSWE.Events.Metrics
import OpenHandsSWE.Lib.Assoc
import OpenHandsSWE.Lib.Python
import OpenHandsSWE.Lib.Runs

/-! The records of the conversations, as the app server keeps them in a table that it shares with the
conversations of the old server. -/

namespace OpenHands

abbrev Uuid := Nat

/-- An id of a user is never empty. -/
structure UserId where
  text : String
  nonempty : text ≠ ""
deriving DecidableEq

/-- Microseconds on the clock of a timezone, which lies an offset from UTC; some times have no timezone. -/
structure Timestamp where
  clock : Int
  offset : Option Int
deriving DecidableEq, Repr

namespace Timestamp

/-- Two times with a timezone are equal when they are the same moment. -/
def same (t u : Timestamp) : Bool :=
  match t.offset, u.offset with
  | some o, some p => t.clock - o = u.clock - p
  | none, none => t.clock = u.clock
  | _, _ => false

end Timestamp

inductive ProviderType where
  | github
  | gitlab
  | bitbucket
  | enterpriseSso
deriving DecidableEq, Repr

namespace ProviderType

def value : ProviderType → String
  | github => "github"
  | gitlab => "gitlab"
  | bitbucket => "bitbucket"
  | enterpriseSso => "enterprise_sso"

def all : List ProviderType := [github, gitlab, bitbucket, enterpriseSso]

end ProviderType

inductive ConversationTrigger where
  | resolver
  | gui
  | suggestedTask
  | remoteApiKey
  | slack
  | microagentManagement
  | jira
  | jiraDc
  | linear
  | bitbucket
deriving DecidableEq, Repr

namespace ConversationTrigger

def value : ConversationTrigger → String
  | resolver => "resolver"
  | gui => "gui"
  | suggestedTask => "suggested_task"
  | remoteApiKey => "openhands_api"
  | slack => "slack"
  | microagentManagement => "microagent_management"
  | jira => "jira"
  | jiraDc => "jira_dc"
  | linear => "linear"
  | bitbucket => "bitbucket"

def all : List ConversationTrigger :=
  [resolver, gui, suggestedTask, remoteApiKey, slack, microagentManagement, jira, jiraDc, linear, bitbucket]

end ConversationTrigger

/-- The counts of the agent's own metrics. -/
structure SdkTokenUsage where
  promptTokens : Int := 0
  completionTokens : Int := 0
  cacheReadTokens : Int := 0
  cacheWriteTokens : Int := 0
  reasoningTokens : Int := 0
  contextWindow : Int := 0
  perTurnToken : Int := 0
deriving DecidableEq, Repr

structure MetricsSnapshot where
  accumulatedCost : FloatLit := .zero
  maxBudgetPerTask : Option FloatLit := none
  accumulatedTokenUsage : Option SdkTokenUsage := none
deriving DecidableEq, Repr

structure AppConversationInfo where
  id : Uuid
  createdByUserId : Option UserId
  sandboxId : String
  selectedRepository : Option String := none
  selectedBranch : Option String := none
  gitProvider : Option ProviderType := none
  title : Option String := none
  trigger : Option ConversationTrigger := none
  prNumber : List Int := []
  llmModel : Option String := none
  metrics : Option MetricsSnapshot := none
  createdAt : Timestamp
  updatedAt : Timestamp
deriving DecidableEq

namespace AppConversationInfo

def snapshot (info : AppConversationInfo) : MetricsSnapshot := info.metrics.getD {}

def usage (info : AppConversationInfo) : SdkTokenUsage := info.snapshot.accumulatedTokenUsage.getD {}

end AppConversationInfo

/-- A row of the table. -/
structure StoredConversationMetadata where
  userId : String
  selectedRepository : Option String
  selectedBranch : Option String
  gitProvider : Option String
  title : Option String
  lastUpdatedAt : Timestamp
  createdAt : Timestamp
  trigger : Option String
  prNumber : List Int
  accumulatedCost : FloatLit
  promptTokens : Int
  completionTokens : Int
  maxBudgetPerTask : Option FloatLit
  cacheReadTokens : Int
  cacheWriteTokens : Int
  contextWindow : Int
  perTurnToken : Int
  llmModel : Option String
  conversationVersion : String
  sandboxId : Option String
deriving DecidableEq

namespace SQLAppConversationInfoService

abbrev Rows := List (Uuid × StoredConversationMetadata)

/-- What comes back from a time column; SQLite drops the timezone. -/
abbrev TimeColumn := Timestamp → Timestamp

def sqlite : TimeColumn := fun t => { t with offset := none }

def userText (user : Option UserId) : String := (user.map UserId.text).getD ""

def toRow (column : TimeColumn) (info : AppConversationInfo) : StoredConversationMetadata where
  userId := userText info.createdByUserId
  selectedRepository := info.selectedRepository
  selectedBranch := info.selectedBranch
  gitProvider := info.gitProvider.map ProviderType.value
  title := info.title
  lastUpdatedAt := column info.updatedAt
  createdAt := column info.createdAt
  trigger := info.trigger.map ConversationTrigger.value
  prNumber := info.prNumber
  accumulatedCost := info.snapshot.accumulatedCost
  promptTokens := info.usage.promptTokens
  completionTokens := info.usage.completionTokens
  maxBudgetPerTask := info.snapshot.maxBudgetPerTask
  cacheReadTokens := info.usage.cacheReadTokens
  cacheWriteTokens := info.usage.cacheWriteTokens
  contextWindow := info.usage.contextWindow
  perTurnToken := info.usage.perTurnToken
  llmModel := info.llmModel
  conversationVersion := "V1"
  sandboxId := some info.sandboxId

/-- `save_app_conversation_info` by a user or, without one, by the admin context, with the table it leaves. -/
def save (column : TimeColumn) (user : Option UserId) (info : AppConversationInfo) (rows : Rows) :
    Except PyError AppConversationInfo × Rows :=
  match user, Assoc.get? info.id rows with
  | some _, some _ =>
    -- the row is asked for a field of the other model
    (.error (.attributeError "'StoredConversationMetadata' object has no attribute 'created_by_user_id'"), rows)
  | _, _ => (.ok info, Assoc.set info.id (toRow column info) rows)

/-- SQLite's times are taken for UTC. -/
def fixTimezone (t : Timestamp) : Timestamp := if t.offset.isNone then { t with offset := some 0 } else t

def readUser (text : String) : Option UserId := if h : text = "" then none else some ⟨text, h⟩

def readEnum {α : Type} (value : α → String) (all : List α) (text : Option String) : Except PyError (Option α) :=
  match text with
  | none | some "" => .ok none
  | some text =>
    match all.find? fun a => value a = text with
    | some a => .ok (some a)
    | none => .error (.valueError text)

def toInfo (id : Uuid) (stored : StoredConversationMetadata) : Except PyError AppConversationInfo :=
  match stored.sandboxId with
  | none => .error (.assertionError "")
  | some sandboxId => do
    let gitProvider ← readEnum ProviderType.value ProviderType.all stored.gitProvider
    let trigger ← readEnum ConversationTrigger.value ConversationTrigger.all stored.trigger
    return {
      id := id
      createdByUserId := readUser stored.userId
      sandboxId := sandboxId
      selectedRepository := stored.selectedRepository
      selectedBranch := stored.selectedBranch
      gitProvider := gitProvider
      title := stored.title
      trigger := trigger
      prNumber := stored.prNumber
      llmModel := stored.llmModel
      metrics := some {
        accumulatedCost := stored.accumulatedCost
        maxBudgetPerTask := stored.maxBudgetPerTask
        accumulatedTokenUsage := some {
          promptTokens := stored.promptTokens
          completionTokens := stored.completionTokens
          cacheReadTokens := stored.cacheReadTokens
          cacheWriteTokens := stored.cacheWriteTokens
          contextWindow := stored.contextWindow
          perTurnToken := stored.perTurnToken } }
      createdAt := fixTimezone stored.createdAt
      updatedAt := fixTimezone stored.lastUpdatedAt }

/-- `_secure_select`: the rows of the new server, for a user only the user's own. -/
def visible (user : Option UserId) (stored : StoredConversationMetadata) : Bool :=
  stored.conversationVersion = "V1" && (user.map fun u => decide (stored.userId = u.text)).getD true

def getInfo (user : Option UserId) (id : Uuid) (rows : Rows) : Except PyError (Option AppConversationInfo) :=
  match (Assoc.get? id rows).filter (visible user) with
  | some stored => (toInfo id stored).map some
  | none => .ok none

/-! ## A row read back -/

/-- The two agree in what a record is for; without metrics all counts are 0. -/
structure Agrees (a b : AppConversationInfo) : Prop where
  id : a.id = b.id
  owner : a.createdByUserId = b.createdByUserId
  sandbox : a.sandboxId = b.sandboxId
  repository : a.selectedRepository = b.selectedRepository
  branch : a.selectedBranch = b.selectedBranch
  provider : a.gitProvider = b.gitProvider
  title : a.title = b.title
  trigger : a.trigger = b.trigger
  prNumber : a.prNumber = b.prNumber
  model : a.llmModel = b.llmModel
  createdAt : a.createdAt.same b.createdAt = true
  updatedAt : a.updatedAt.same b.updatedAt = true
  cost : a.snapshot.accumulatedCost = b.snapshot.accumulatedCost
  budget : a.snapshot.maxBudgetPerTask = b.snapshot.maxBudgetPerTask
  usage : a.usage = b.usage

/-- No reasoning tokens, for which no column is written, and times that come back from their columns. -/
structure Restorable (column : TimeColumn) (info : AppConversationInfo) : Prop where
  reasoning : info.usage.reasoningTokens = 0
  createdAt : (fixTimezone (column info.createdAt)).same info.createdAt = true
  updatedAt : (fixTimezone (column info.updatedAt)).same info.updatedAt = true

section ReadBack

variable {column : TimeColumn} {info : AppConversationInfo}

theorem readUser_userText (user : Option UserId) : readUser (userText user) = user := by
  cases user with
  | none => rfl
  | some u => exact dif_neg u.nonempty

theorem readEnum_value {α : Type} [DecidableEq α] {value : α → String} {all : List α} (a : Option α)
    (h : ∀ a, value a ≠ "" ∧ all.find? (fun b => value b = value a) = some a) :
    readEnum value all (a.map value) = .ok a := by
  cases a with
  | none => rfl
  | some a =>
    obtain ⟨hne, hfind⟩ := h a
    unfold readEnum
    split
    next heq => cases heq
    next heq => exact absurd (Option.some.inj heq) hne
    next text _ heq =>
      rw [← Option.some.inj heq, hfind]

/-- What a saved record comes back as. -/
def restored (column : TimeColumn) (info : AppConversationInfo) : AppConversationInfo :=
  { info with
    metrics := some { info.snapshot with accumulatedTokenUsage := some { info.usage with reasoningTokens := 0 } }
    createdAt := fixTimezone (column info.createdAt)
    updatedAt := fixTimezone (column info.updatedAt) }

theorem toInfo_toRow (column : TimeColumn) (info : AppConversationInfo) :
    toInfo info.id (toRow column info) = .ok (restored column info) := by
  have hprovider : readEnum ProviderType.value ProviderType.all (info.gitProvider.map ProviderType.value) =
      .ok info.gitProvider := readEnum_value _ fun p => by cases p <;> exact ⟨by decide, by decide⟩
  have htrigger : readEnum ConversationTrigger.value ConversationTrigger.all
      (info.trigger.map ConversationTrigger.value) = .ok info.trigger :=
    readEnum_value _ fun t => by cases t <;> exact ⟨by decide, by decide⟩
  simp only [toInfo, toRow, hprovider, htrigger, readUser_userText]
  rfl

theorem getInfo_owner (column : TimeColumn) {rows : Rows} (h : Assoc.get? info.id rows = some (toRow column info)) :
    getInfo info.createdByUserId info.id rows = .ok (some (restored column info)) := by
  have hvisible : visible info.createdByUserId (toRow column info) = true := by
    cases huser : info.createdByUserId with
    | none => rfl
    | some u => simp [visible, toRow, userText, huser]
  rw [getInfo, h, Option.filter_some, if_pos hvisible]
  dsimp only
  rw [toInfo_toRow]
  rfl

theorem agrees_restored_iff : Agrees (restored column info) info ↔ Restorable column info := by
  constructor
  · intro h
    have husage := congrArg SdkTokenUsage.reasoningTokens h.usage
    exact ⟨husage.symm, h.createdAt, h.updatedAt⟩
  · intro h
    have husage : (restored column info).usage = info.usage := by
      have hsame : ({ info.usage with reasoningTokens := 0 } : SdkTokenUsage) = info.usage := by
        rw [← h.reasoning]
      exact hsame
    exact ⟨rfl, rfl, rfl, rfl, rfl, rfl, rfl, rfl, rfl, rfl, h.createdAt, h.updatedAt, rfl, rfl, husage⟩

/-- SQLite keeps the moment of the times in UTC. -/
theorem restorable_sqlite_iff : Restorable sqlite info ↔
    info.usage.reasoningTokens = 0 ∧ info.createdAt.offset = some 0 ∧ info.updatedAt.offset = some 0 := by
  have hsame (t : Timestamp) : (fixTimezone (sqlite t)).same t = true ↔ t.offset = some 0 := by
    have hfix : fixTimezone (sqlite t) = { t with offset := some 0 } := rfl
    rw [hfix, Timestamp.same]
    cases t.offset with
    | none => exact iff_of_false Bool.false_ne_true nofun
    | some o =>
      simp only [decide_eq_true_eq, Option.some.injEq]
      omega
  rw [← hsame, ← hsame]
  exact ⟨fun h => ⟨h.reasoning, h.createdAt, h.updatedAt⟩, fun h => ⟨h.1, h.2.1, h.2.2⟩⟩

end ReadBack

/-! ## Every run -/

/-- The table, and the record of the last save of each id. -/
structure State where
  rows : Rows := []
  saved : List (Uuid × AppConversationInfo) := []

/-- The caller is the user whose record is saved. -/
def step (column : TimeColumn) (s : State) (info : AppConversationInfo) : State :=
  match save column info.createdByUserId info s.rows with
  | (.ok info, rows) => { rows := rows, saved := Assoc.set info.id info s.saved }
  | (.error _, rows) => { s with rows := rows }

def raises (column : TimeColumn) (s : State) (info : AppConversationInfo) : Prop :=
  ∃ err, (save column info.createdByUserId info s.rows).1 = .error err

/-- A row of another user; the admin context is none. -/
def Foreign (s : State) (info : AppConversationInfo) : Prop :=
  ∃ stored u, Assoc.get? info.id s.rows = some stored ∧ info.createdByUserId = some u ∧ stored.userId ≠ u.text

/-- The owner of each record reads its last save. -/
def ReadsLastSaves (s : State) : Prop :=
  ∀ id last, Assoc.get? id s.saved = some last →
    ∃ found, getInfo last.createdByUserId id s.rows = .ok (some found) ∧ Agrees found last

/-- What a save promises. -/
structure Meets (column : TimeColumn) (s : State) (info : AppConversationInfo) : Prop where
  raises_iff : raises column s info ↔ Foreign s info
  unchanged : raises column s info → (step column s info).rows = s.rows
  reads : ReadsLastSaves (step column s info)

/-- No user saves a record of their own again, and what is saved can be restored. -/
structure Storable (column : TimeColumn) (s : State) (info : AppConversationInfo) : Prop where
  once : ∀ stored u, Assoc.get? info.id s.rows = some stored → info.createdByUserId = some u → stored.userId ≠ u.text
  restorable : info.createdByUserId = none ∨ Assoc.get? info.id s.rows = none → Restorable column info

/-- The rows are those of the last saves. -/
structure Valid (column : TimeColumn) (s : State) : Prop where
  rows : ∀ id, Assoc.get? id s.rows = (Assoc.get? id s.saved).map (toRow column)
  saved : ∀ id last, Assoc.get? id s.saved = some last → last.id = id ∧ Restorable column last

section Runs

variable {column : TimeColumn} {s : State} {info : AppConversationInfo}

theorem save_existing {u : UserId} {stored : StoredConversationMetadata} (huser : info.createdByUserId = some u)
    (hrow : Assoc.get? info.id s.rows = some stored) : raises column s info ∧ step column s info = s := by
  have hsave : save column info.createdByUserId info s.rows =
      (.error (.attributeError "'StoredConversationMetadata' object has no attribute 'created_by_user_id'"), s.rows) := by
    unfold save
    rw [huser, hrow]
  refine ⟨⟨_, congrArg Prod.fst hsave⟩, ?_⟩
  rw [step, hsave]

theorem save_other (h : info.createdByUserId = none ∨ Assoc.get? info.id s.rows = none) :
    ¬ raises column s info ∧ step column s info =
      { rows := Assoc.set info.id (toRow column info) s.rows, saved := Assoc.set info.id info s.saved } := by
  have hsave : save column info.createdByUserId info s.rows =
      (.ok info, Assoc.set info.id (toRow column info) s.rows) := by
    unfold save
    split
    next huser hrow => rcases h with h | h <;> simp_all
    next => rfl
  rw [raises, step, hsave]
  refine ⟨fun hraises => ?_, rfl⟩
  obtain ⟨err, herr⟩ := hraises
  cases herr

theorem Valid.readsLastSaves (h : Valid column s) : ReadsLastSaves s := by
  intro id last hlast
  obtain ⟨rfl, hrestorable⟩ := h.saved id last hlast
  have hrow : Assoc.get? last.id s.rows = some (toRow column last) := by
    rw [h.rows, hlast]
    rfl
  exact ⟨_, getInfo_owner column hrow, agrees_restored_iff.mpr hrestorable⟩

/-- A save that is read back keeps the rows those of the last saves. -/
theorem Valid.set (h : Valid column s) (hrestorable : Restorable column info) :
    Valid column { rows := Assoc.set info.id (toRow column info) s.rows, saved := Assoc.set info.id info s.saved } := by
  constructor
  · intro id
    by_cases hid : id = info.id
    · rw [hid, Assoc.get?_set_self, Assoc.get?_set_self]
      rfl
    · rw [Assoc.get?_set_of_ne hid, Assoc.get?_set_of_ne hid]
      exact h.rows id
  · intro id last hlast
    by_cases hid : id = info.id
    · rw [hid, Assoc.get?_set_self] at hlast
      rw [← Option.some.inj hlast]
      exact ⟨hid.symm, hrestorable⟩
    · rw [Assoc.get?_set_of_ne hid] at hlast
      exact h.saved id last hlast

theorem meets_iff (hvalid : Valid column s) : Meets column s info ↔ Storable column s info := by
  by_cases hother : info.createdByUserId = none ∨ Assoc.get? info.id s.rows = none
  · obtain ⟨hraises, hstep⟩ := @save_other column s info hother
    have hnot : ¬ Foreign s info := by
      rintro ⟨stored, u, hrow, huser, -⟩
      rcases hother with h | h
      · cases h.symm.trans huser
      · cases h.symm.trans hrow
    constructor
    · intro hmeets
      have hreads := hmeets.reads
      rw [hstep] at hreads
      obtain ⟨found, hfound, hagrees⟩ := hreads info.id info (Assoc.get?_set_self _ _ _)
      rw [getInfo_owner column (Assoc.get?_set_self _ _ _)] at hfound
      obtain rfl := Option.some.inj (Except.ok.inj hfound)
      refine ⟨fun stored u hrow huser _ => ?_, fun _ => agrees_restored_iff.mp hagrees⟩
      rcases hother with h | h
      · cases h.symm.trans huser
      · cases h.symm.trans hrow
    · intro hstorable
      refine ⟨iff_of_false hraises hnot, fun h => absurd h hraises, ?_⟩
      rw [hstep]
      exact (hvalid.set (hstorable.restorable hother)).readsLastSaves
  · obtain ⟨hadmin, hnew⟩ := not_or.mp hother
    obtain ⟨u, huser⟩ := Option.ne_none_iff_exists'.mp hadmin
    obtain ⟨stored, hrow⟩ := Option.ne_none_iff_exists'.mp hnew
    obtain ⟨hraises, hstep⟩ := @save_existing column s info u stored huser hrow
    constructor
    · intro hmeets
      obtain ⟨stored', u', hrow', huser', hne⟩ := hmeets.raises_iff.mp hraises
      refine ⟨fun stored'' u'' hrow'' huser'' => ?_, fun h => absurd h hother⟩
      obtain rfl := Option.some.inj (hrow'.symm.trans hrow'')
      obtain rfl := Option.some.inj (huser'.symm.trans huser'')
      exact hne
    · intro hstorable
      have hforeign : Foreign s info := ⟨stored, u, hrow, huser, hstorable.once stored u hrow huser⟩
      refine ⟨iff_of_true hraises hforeign, fun _ => by rw [hstep], ?_⟩
      rw [hstep]
      exact hvalid.readsLastSaves

theorem step_valid (hvalid : Valid column s) (hmeets : Meets column s info) : Valid column (step column s info) := by
  have hstorable := (meets_iff hvalid).mp hmeets
  by_cases hother : info.createdByUserId = none ∨ Assoc.get? info.id s.rows = none
  · rw [(save_other hother).2]
    exact hvalid.set (hstorable.restorable hother)
  · obtain ⟨hadmin, hnew⟩ := not_or.mp hother
    obtain ⟨u, huser⟩ := Option.ne_none_iff_exists'.mp hadmin
    obtain ⟨stored, hrow⟩ := Option.ne_none_iff_exists'.mp hnew
    rw [(save_existing huser hrow).2]
    exact hvalid

def alice : UserId := ⟨"alice", by decide⟩

def ofAlice : AppConversationInfo :=
  { id := 1, createdByUserId := some alice, sandboxId := "sandbox", createdAt := ⟨0, some 0⟩, updatedAt := ⟨0, some 0⟩ }

end Runs

end SQLAppConversationInfoService

end OpenHands
