import OpenHandsSWE.AppServer.ConversationInfo
import OpenHandsSWE.Utils.SearchUtils

/-! Searching the conversations of the table page by page, and counting them. -/

namespace OpenHands.SearchConversations

open SQLAppConversationInfoService

/-- A row as the table can hold it, where most columns may be NULL. -/
structure TableRow where
  conversationId : String
  userId : String
  selectedRepository : Option String := none
  selectedBranch : Option String := none
  gitProvider : Option String := none
  title : Option String := none
  lastUpdatedAt : Option Timestamp
  createdAt : Option Timestamp
  trigger : Option String := none
  prNumber : Option (List Int) := some []
  accumulatedCost : Option FloatLit := some .zero
  promptTokens : Option Int := some 0
  completionTokens : Option Int := some 0
  maxBudgetPerTask : Option FloatLit := none
  cacheReadTokens : Option Int := some 0
  cacheWriteTokens : Option Int := some 0
  contextWindow : Option Int := some 0
  perTurnToken : Option Int := some 0
  llmModel : Option String := none
  conversationVersion : String := "V0"
  sandboxId : Option String := none
deriving DecidableEq

/-- The id is the primary key. -/
structure Table where
  rows : List TableRow
  nodup : (rows.map TableRow.conversationId).Nodup

/-- What stands around the queries: how a text is read as an id, and how the database matches a pattern,
orders times and texts and places NULL. -/
structure Surroundings where
  uuid : String → Option Uuid
  like : String → String → Bool
  moment : Timestamp → Int
  collate : String → String → Bool
  collate_total : ∀ a b, collate a b = true ∨ collate b a = true
  collate_trans : ∀ a b c, collate a b = true → collate b c = true → collate a c = true
  nullsFirst : Bool

structure Filters where
  titleContains : Option String := none
  createdAtGte : Option Timestamp := none
  createdAtLt : Option Timestamp := none
  updatedAtGte : Option Timestamp := none
  updatedAtLt : Option Timestamp := none

inductive AppConversationSortOrder where
  | createdAt
  | createdAtDesc
  | updatedAt
  | updatedAtDesc
  | title
  | titleDesc
deriving DecidableEq, Repr

def column {β : Type} (name : String) : Option β → Except PyError β
  | some value => .ok value
  | none => .error (.valueError name)

def timeColumn : Option Timestamp → Except PyError Timestamp
  | some t => .ok t
  | none => .error (.attributeError "'NoneType' object has no attribute 'tzinfo'")

variable (env : Surroundings)

/-- `_to_info` of a row; the records do not take NULL for a count, a cost or a list. -/
def toInfo (row : TableRow) : Except PyError AppConversationInfo :=
  match row.sandboxId with
  | none => .error (.assertionError "")
  | some sandboxId => do
    let promptTokens ← column "prompt_tokens" row.promptTokens
    let completionTokens ← column "completion_tokens" row.completionTokens
    let cacheReadTokens ← column "cache_read_tokens" row.cacheReadTokens
    let cacheWriteTokens ← column "cache_write_tokens" row.cacheWriteTokens
    let contextWindow ← column "context_window" row.contextWindow
    let perTurnToken ← column "per_turn_token" row.perTurnToken
    let accumulatedCost ← column "accumulated_cost" row.accumulatedCost
    let createdAt ← timeColumn row.createdAt
    let lastUpdatedAt ← timeColumn row.lastUpdatedAt
    let id ← column "badly formed hexadecimal UUID string" (env.uuid row.conversationId)
    let info ← SQLAppConversationInfoService.toInfo id {
      userId := row.userId
      selectedRepository := row.selectedRepository
      selectedBranch := row.selectedBranch
      gitProvider := row.gitProvider
      title := row.title
      lastUpdatedAt := lastUpdatedAt
      createdAt := createdAt
      trigger := row.trigger
      prNumber := row.prNumber.getD []
      accumulatedCost := accumulatedCost
      promptTokens := promptTokens
      completionTokens := completionTokens
      maxBudgetPerTask := row.maxBudgetPerTask
      cacheReadTokens := cacheReadTokens
      cacheWriteTokens := cacheWriteTokens
      contextWindow := contextWindow
      perTurnToken := perTurnToken
      llmModel := row.llmModel
      conversationVersion := row.conversationVersion
      sandboxId := some sandboxId }
    let _ ← column "pr_number" row.prNumber
    return info

/-! ## The queries -/

/-- The rows of a user; without one all rows. -/
def owned (user : Option UserId) (row : TableRow) : Bool := (user.map fun u => decide (row.userId = u.text)).getD true

def secureSelect (user : Option UserId) (row : TableRow) : Bool :=
  decide (row.conversationVersion = "V1") && owned user row

/-- A condition on a column, when it is asked for; NULL does not meet it. -/
def condition {β γ : Type} (test : β → γ → Bool) (asked : Option β) (value : Option γ) : Bool :=
  (asked.map fun b => (value.map (test b)).getD false).getD true

def applyFilters (filters : Filters) (row : TableRow) : Bool :=
  condition (fun text title => env.like ("%" ++ text ++ "%") title) filters.titleContains row.title &&
  condition (fun t created => decide (env.moment t ≤ env.moment created)) filters.createdAtGte row.createdAt &&
  condition (fun t created => decide (env.moment created < env.moment t)) filters.createdAtLt row.createdAt &&
  condition (fun t updated => decide (env.moment t ≤ env.moment updated)) filters.updatedAtGte row.lastUpdatedAt &&
  condition (fun t updated => decide (env.moment updated < env.moment t)) filters.updatedAtLt row.lastUpdatedAt

/-- The order of a column that may be NULL. -/
def nullsLE {β : Type} (nullsFirst : Bool) (le : β → β → Bool) : Option β → Option β → Bool
  | none, none => true
  | none, some _ => nullsFirst
  | some _, none => !nullsFirst
  | some a, some b => le a b

def momentLE (t u : Option Timestamp) : Bool := nullsLE env.nullsFirst (fun t u => decide (env.moment t ≤ env.moment u)) t u

def titleLE (a b : Option String) : Bool := nullsLE env.nullsFirst env.collate a b

def orderBy : AppConversationSortOrder → TableRow → TableRow → Bool
  | .createdAt, a, b => momentLE env a.createdAt b.createdAt
  | .createdAtDesc, a, b => momentLE env b.createdAt a.createdAt
  | .updatedAt, a, b => momentLE env a.lastUpdatedAt b.lastUpdatedAt
  | .updatedAtDesc, a, b => momentLE env b.lastUpdatedAt a.lastUpdatedAt
  | .title, a, b => titleLE env a.title b.title
  | .titleDesc, a, b => titleLE env b.title a.title

/-- `int(page_id)`, or 0. -/
def pageOffset (pageId : Option (List Char)) : Int := (pageId.bind Text.parseInt).getD 0

def strInt (n : Int) : List Char := (if n < 0 then ['-'] else []) ++ Nat.toDigits 10 n.natAbs

/-- The page of sorted rows; one row more is asked for, and a negative offset is none. -/
def page (rows : List TableRow) (pageId : Option (List Char)) (limit : Nat) : Except PyError (ResultSet AppConversationInfo) :=
  let found := (rows.drop (pageOffset pageId).toNat).take (limit + 1)
  let hasMore := limit < found.length
  ((if hasMore then found.take limit else found).mapM (toInfo env)).map fun items =>
    { results := items, nextPageId := if hasMore then some (strInt (pageOffset pageId + limit)) else none }

/-- Rows with one key stay in the order of the table. -/
def sortedRows (user : Option UserId) (filters : Filters) (order : AppConversationSortOrder) (table : Table) :
    List TableRow :=
  (table.rows.filter fun row => secureSelect user row && applyFilters env filters row).insertionSort
    fun a b => orderBy env order a b

def searchAppConversationInfo (user : Option UserId) (filters : Filters) (order : AppConversationSortOrder)
    (table : Table) (pageId : Option (List Char)) (limit : Nat) : Except PyError (ResultSet AppConversationInfo) :=
  page env (sortedRows env user filters order table) pageId limit

def countAppConversationInfo (user : Option UserId) (filters : Filters) (table : Table) : Nat :=
  (table.rows.filter fun row => owned user row && applyFilters env filters row).length

/-! ## What counting and searching promise -/

/-- The search yields the records of these rows, page after page. -/
def Yields (user : Option UserId) (filters : Filters) (order : AppConversationSortOrder) (table : Table) (limit : Nat)
    (items : List AppConversationInfo) : Prop :=
  ∃ fuel, iterate (fun pageId => searchAppConversationInfo env user filters order table pageId limit) fuel none =
    some (items, none)

/-- The pages end, with each conversation that matches once and in order, and the count is their number. -/
def Agrees (user : Option UserId) (filters : Filters) (order : AppConversationSortOrder) (table : Table)
    (limit : Nat) : Prop :=
  ∃ (items : List AppConversationInfo) (sorted : List TableRow), Yields env user filters order table limit items ∧
    sorted.Perm (table.rows.filter fun row => secureSelect user row && applyFilters env filters row) ∧
    sorted.Pairwise (fun a b => orderBy env order a b = true) ∧ sorted.map (toInfo env) = items.map .ok ∧
    countAppConversationInfo env user filters table = items.length

/-- A row that can be read. -/
structure Readable (row : TableRow) : Prop where
  id : env.uuid row.conversationId ≠ none
  sandboxId : row.sandboxId ≠ none
  promptTokens : row.promptTokens ≠ none
  completionTokens : row.completionTokens ≠ none
  cacheReadTokens : row.cacheReadTokens ≠ none
  cacheWriteTokens : row.cacheWriteTokens ≠ none
  contextWindow : row.contextWindow ≠ none
  perTurnToken : row.perTurnToken ≠ none
  accumulatedCost : row.accumulatedCost ≠ none
  createdAt : row.createdAt ≠ none
  lastUpdatedAt : row.lastUpdatedAt ≠ none
  prNumber : row.prNumber ≠ none
  gitProvider : ∀ text, row.gitProvider = some text → text = "" ∨ ∃ p, ProviderType.value p = text
  trigger : ∀ text, row.trigger = some text → text = "" ∨ ∃ t, ConversationTrigger.value t = text

/-- The rows that the filters leave of the user's are of the new server, and can be read. -/
structure Uniform (user : Option UserId) (filters : Filters) (table : Table) : Prop where
  version : ∀ row ∈ table.rows, owned user row = true → applyFilters env filters row = true →
    row.conversationVersion = "V1"
  readable : ∀ row ∈ table.rows, secureSelect user row = true → applyFilters env filters row = true → Readable env row

/-! ## Rows that can be read -/

section Rows

variable {env} {row : TableRow}

theorem column_ok {β : Type} {name : String} {value : Option β} {b : β} : column name value = .ok b ↔ value = some b := by
  cases value with
  | none => exact iff_of_false (fun h => by cases h) (fun h => by cases h)
  | some a => exact ⟨fun h => congrArg some (Except.ok.inj h), fun h => congrArg Except.ok (Option.some.inj h)⟩

theorem timeColumn_ok {value : Option Timestamp} {t : Timestamp} : timeColumn value = .ok t ↔ value = some t := by
  cases value with
  | none => exact iff_of_false (fun h => by cases h) (fun h => by cases h)
  | some u => exact ⟨fun h => congrArg some (Except.ok.inj h), fun h => congrArg Except.ok (Option.some.inj h)⟩

theorem readEnum_ok_iff {α : Type} {value : α → String} {all : List α} (hall : ∀ a, a ∈ all) {text : Option String} :
    (∃ a, readEnum value all text = .ok a) ↔ ∀ t, text = some t → t = "" ∨ ∃ a, value a = t := by
  unfold readEnum
  split
  next => exact iff_of_true ⟨none, rfl⟩ fun t ht => by cases ht
  next => exact iff_of_true ⟨none, rfl⟩ fun t ht => .inl (Option.some.inj ht).symm
  next text hempty =>
    split
    next a hfound =>
      have ha : value a = text := by simpa using List.find?_some hfound
      exact iff_of_true ⟨some a, rfl⟩ fun t ht => .inr ⟨a, ha.trans (Option.some.inj ht)⟩
    next hnone =>
      refine iff_of_false (fun ⟨a, h⟩ => by cases h) fun h => ?_
      rcases h text rfl with rfl | ⟨a, rfl⟩
      · exact hempty rfl
      · have hfound := List.find?_eq_none.mp hnone a (hall a)
        exact hfound (decide_eq_true rfl)

theorem ProviderType.mem_all (p : ProviderType) : p ∈ ProviderType.all := by
  cases p <;> decide

theorem ConversationTrigger.mem_all (t : ConversationTrigger) : t ∈ ConversationTrigger.all := by
  cases t <;> decide

theorem toInfo_stored_ok_iff {id : Uuid} {stored : StoredConversationMetadata} {sandboxId : String}
    (hsandbox : stored.sandboxId = some sandboxId) : (∃ info, SQLAppConversationInfoService.toInfo id stored = .ok info) ↔
      (∀ t, stored.gitProvider = some t → t = "" ∨ ∃ p, ProviderType.value p = t) ∧
        ∀ t, stored.trigger = some t → t = "" ∨ ∃ t', ConversationTrigger.value t' = t := by
  rw [← readEnum_ok_iff ProviderType.mem_all, ← readEnum_ok_iff ConversationTrigger.mem_all,
    SQLAppConversationInfoService.toInfo, hsandbox]
  constructor
  · rintro ⟨info, h⟩
    obtain ⟨provider, hprovider, h⟩ := Py.bind_ok h
    obtain ⟨trigger, htrigger, -⟩ := Py.bind_ok h
    exact ⟨⟨provider, hprovider⟩, trigger, htrigger⟩
  · rintro ⟨⟨provider, hprovider⟩, trigger, htrigger⟩
    dsimp only
    rw [hprovider, htrigger]
    exact ⟨_, rfl⟩

/-- A record is read exactly of such a row. -/
theorem toInfo_ok_iff : (∃ info, toInfo env row = .ok info) ↔ Readable env row := by
  constructor
  · rintro ⟨info, h⟩
    unfold toInfo at h
    cases hsandbox : row.sandboxId with
    | none =>
      rw [hsandbox] at h
      cases h
    | some sandboxId =>
      rw [hsandbox] at h
      obtain ⟨prompt, hprompt, h⟩ := Py.bind_ok h
      obtain ⟨completion, hcompletion, h⟩ := Py.bind_ok h
      obtain ⟨cacheRead, hcacheRead, h⟩ := Py.bind_ok h
      obtain ⟨cacheWrite, hcacheWrite, h⟩ := Py.bind_ok h
      obtain ⟨window, hwindow, h⟩ := Py.bind_ok h
      obtain ⟨turn, hturn, h⟩ := Py.bind_ok h
      obtain ⟨cost, hcost, h⟩ := Py.bind_ok h
      obtain ⟨created, hcreated, h⟩ := Py.bind_ok h
      obtain ⟨updated, hupdated, h⟩ := Py.bind_ok h
      obtain ⟨id, hid, h⟩ := Py.bind_ok h
      obtain ⟨read, hread, h⟩ := Py.bind_ok h
      obtain ⟨numbers, hnumbers, -⟩ := Py.bind_ok h
      obtain ⟨hprovider, htrigger⟩ := (toInfo_stored_ok_iff rfl).mp ⟨read, hread⟩
      have hne {β : Type} {name : String} {value : Option β} {b : β} (h : column name value = .ok b) : value ≠ none := by
        rw [column_ok.mp h]
        exact Option.some_ne_none b
      refine ⟨hne hid, by rw [hsandbox]; exact Option.some_ne_none _, hne hprompt, hne hcompletion, hne hcacheRead,
        hne hcacheWrite, hne hwindow, hne hturn, hne hcost, ?_, ?_, hne hnumbers, hprovider, htrigger⟩
      · rw [timeColumn_ok.mp hcreated]
        exact Option.some_ne_none _
      · rw [timeColumn_ok.mp hupdated]
        exact Option.some_ne_none _
  · intro h
    have hcolumn {β γ : Type} {name : String} {value : Option β} {f : β → Except PyError γ} (hvalue : value ≠ none)
        (hf : ∀ b, ∃ c, f b = .ok c) : ∃ c, (column name value).bind f = .ok c := by
      obtain ⟨b, rfl⟩ := Option.ne_none_iff_exists'.mp hvalue
      exact hf b
    have htime {γ : Type} {value : Option Timestamp} {f : Timestamp → Except PyError γ} (hvalue : value ≠ none)
        (hf : ∀ t, ∃ c, f t = .ok c) : ∃ c, (timeColumn value).bind f = .ok c := by
      obtain ⟨t, rfl⟩ := Option.ne_none_iff_exists'.mp hvalue
      exact hf t
    obtain ⟨sandboxId, hsandbox⟩ := Option.ne_none_iff_exists'.mp h.sandboxId
    unfold toInfo
    rw [hsandbox]
    refine hcolumn h.promptTokens fun prompt => hcolumn h.completionTokens fun completion => ?_
    refine hcolumn h.cacheReadTokens fun cacheRead => hcolumn h.cacheWriteTokens fun cacheWrite => ?_
    refine hcolumn h.contextWindow fun window => hcolumn h.perTurnToken fun turn => hcolumn h.accumulatedCost fun cost => ?_
    refine htime h.createdAt fun created => htime h.lastUpdatedAt fun updated => hcolumn h.id fun id => ?_
    refine Py.exists_bind_ok ((toInfo_stored_ok_iff rfl).mpr ⟨h.gitProvider, h.trigger⟩) fun read => ?_
    exact hcolumn h.prNumber fun numbers => ⟨read, rfl⟩

end Rows

/-! ## Page after page -/

section Pages

variable {env} {rows : List TableRow} {limit : Nat}

theorem map_take_append_drop {α β : Type} {read : α → Except PyError β} {xs : List α} {ys zs : List β} {n : Nat}
    (htake : (xs.take n).map read = ys.map .ok) (hdrop : (xs.drop n).map read = zs.map .ok) :
    xs.map read = (ys ++ zs).map .ok := by
  rw [List.map_append, ← htake, ← hdrop, ← List.map_append, List.take_append_drop]

theorem pageOffset_strInt (n : Nat) : pageOffset (some (strInt n)) = n := by
  rw [pageOffset, strInt, if_neg (Int.natCast_nonneg n).not_gt, List.nil_append, Int.natAbs_natCast, Option.bind_some,
    Text.parseInt_toDigits]
  rfl

/-- A page from an offset on: all that is left, or as many rows as asked for and the next offset. -/
theorem page_eq {pageId : Option (List Char)} {start : Nat} (hstart : pageOffset pageId = start) :
    page env rows pageId limit =
      if limit < (rows.drop start).length then
        (((rows.drop start).take limit).mapM (toInfo env)).map fun items =>
          { results := items, nextPageId := some (strInt (start + limit : Nat)) }
      else ((rows.drop start).mapM (toInfo env)).map fun items => { results := items } := by
  unfold page
  rw [hstart, Int.toNat_natCast]
  dsimp only
  rw [List.length_take]
  by_cases hmore : limit < (rows.drop start).length
  · have hmin : limit < min (limit + 1) (rows.drop start).length := by omega
    rw [if_pos hmin, if_pos hmin, if_pos hmore, List.take_take, Nat.min_eq_left (Nat.le_succ limit)]
    rfl
  · have hmin : ¬ limit < min (limit + 1) (rows.drop start).length := by omega
    rw [if_neg hmin, if_neg hmin, if_neg hmore, List.take_of_length_le (by omega)]

/-- What the pages yield from an offset on is what the rows from there on are read as. -/
theorem iterate_page_iff (hlimit : 1 ≤ limit) {items : List AppConversationInfo} {pageId : Option (List Char)} {start : Nat}
    (hstart : pageOffset pageId = start) : (∃ fuel, iterate (fun pageId => page env rows pageId limit) fuel pageId =
      some (items, none)) ↔ (rows.drop start).map (toInfo env) = items.map .ok := by
  induction hn : rows.length - start using Nat.strong_induction_on generalizing pageId start items with
  | _ n ih =>
    have hpage := @page_eq env rows limit pageId start hstart
    have hlength : (rows.drop start).length = rows.length - start := List.length_drop
    by_cases hmore : limit < (rows.drop start).length
    · -- the next offset is further on, since a page is not empty
      rw [if_pos hmore] at hpage
      have hrest (later : List AppConversationInfo) := @ih (rows.length - (start + limit)) (by omega) later
        (some (strInt (start + limit : Nat))) (start + limit) (pageOffset_strInt _) rfl
      constructor
      · rintro ⟨fuel, h⟩
        cases fuel with
        | zero => cases h
        | succ fuel =>
          rw [iterate, hpage] at h
          cases hfirst : ((rows.drop start).take limit).mapM (toInfo env) with
          | error err =>
            rw [hfirst] at h
            cases h
          | ok first =>
            rw [hfirst] at h
            obtain ⟨⟨later, raised⟩, hlater, heq⟩ := Option.map_eq_some_iff.mp h
            obtain ⟨rfl, rfl⟩ := Prod.mk.inj heq
            have htail := (hrest later).mp ⟨fuel, hlater⟩
            rw [← List.drop_drop] at htail
            exact map_take_append_drop (Py.mapM_ok_iff.mp hfirst) htail
      · intro h
        have hfirst : ((rows.drop start).take limit).mapM (toInfo env) = .ok (items.take limit) := by
          rw [Py.mapM_ok_iff, List.map_take, h, ← List.map_take]
        have htail : (rows.drop (start + limit)).map (toInfo env) = (items.drop limit).map .ok := by
          rw [← List.drop_drop, List.map_drop, h, ← List.map_drop]
        obtain ⟨fuel, hfuel⟩ := (hrest (items.drop limit)).mpr htail
        refine ⟨fuel + 1, ?_⟩
        rw [iterate, hpage, hfirst]
        dsimp only [Except.map]
        rw [hfuel, Option.map_some, List.take_append_drop]
    · rw [if_neg hmore] at hpage
      rw [← Py.mapM_ok_iff]
      constructor
      · rintro ⟨fuel, h⟩
        cases fuel with
        | zero => cases h
        | succ fuel =>
          rw [iterate, hpage] at h
          cases hall : (rows.drop start).mapM (toInfo env) with
          | error err =>
            rw [hall] at h
            cases h
          | ok all =>
            rw [hall] at h
            exact congrArg Except.ok (Prod.mk.inj (Option.some.inj h)).1
      · intro h
        refine ⟨1, ?_⟩
        rw [iterate, hpage, h]
        rfl

end Pages

/-! ## The order of the rows -/

section Order

variable {env}

theorem nullsLE_total {β : Type} {nullsFirst : Bool} {le : β → β → Bool} (h : ∀ a b, le a b = true ∨ le b a = true)
    (a b : Option β) : nullsLE nullsFirst le a b = true ∨ nullsLE nullsFirst le b a = true := by
  cases a with
  | none => cases b <;> cases nullsFirst <;> simp [nullsLE]
  | some a =>
    cases b with
    | none => cases nullsFirst <;> simp [nullsLE]
    | some b => exact h a b

theorem nullsLE_trans {β : Type} {nullsFirst : Bool} {le : β → β → Bool}
    (h : ∀ a b c, le a b = true → le b c = true → le a c = true) (a b c : Option β)
    (hab : nullsLE nullsFirst le a b = true) (hbc : nullsLE nullsFirst le b c = true) : nullsLE nullsFirst le a c = true := by
  cases a <;> cases b <;> cases c <;> cases nullsFirst <;> simp_all [nullsLE]
  all_goals exact h _ _ _ hab hbc

theorem orderBy_total (order : AppConversationSortOrder) (a b : TableRow) :
    orderBy env order a b = true ∨ orderBy env order b a = true := by
  have hmoment (t u : Option Timestamp) : momentLE env t u = true ∨ momentLE env u t = true :=
    nullsLE_total (fun t u => by simpa using le_total (env.moment t) (env.moment u)) t u
  have htitle (a b : Option String) : titleLE env a b = true ∨ titleLE env b a = true :=
    nullsLE_total env.collate_total a b
  cases order with
  | createdAt => exact hmoment _ _
  | createdAtDesc => exact hmoment _ _
  | updatedAt => exact hmoment _ _
  | updatedAtDesc => exact hmoment _ _
  | title => exact htitle _ _
  | titleDesc => exact htitle _ _

theorem orderBy_trans (order : AppConversationSortOrder) (a b c : TableRow) (hab : orderBy env order a b = true)
    (hbc : orderBy env order b c = true) : orderBy env order a c = true := by
  have hmoment {t u v : Option Timestamp} (htu : momentLE env t u = true) (huv : momentLE env u v = true) :
      momentLE env t v = true :=
    nullsLE_trans (fun t u v htu huv => decide_eq_true ((of_decide_eq_true htu).trans (of_decide_eq_true huv))) t u v htu huv
  have htitle {a b c : Option String} (hab : titleLE env a b = true) (hbc : titleLE env b c = true) :
      titleLE env a c = true := nullsLE_trans env.collate_trans a b c hab hbc
  cases order with
  | createdAt => exact hmoment hab hbc
  | createdAtDesc => exact hmoment hbc hab
  | updatedAt => exact hmoment hab hbc
  | updatedAtDesc => exact hmoment hbc hab
  | title => exact htitle hab hbc
  | titleDesc => exact htitle hbc hab

end Order

/-! ## Counting and searching -/

section Agreement

variable {env} {user : Option UserId} {filters : Filters} {order : AppConversationSortOrder} {table : Table} {limit : Nat}

theorem sortedRows_perm : (sortedRows env user filters order table).Perm
    (table.rows.filter fun row => secureSelect user row && applyFilters env filters row) := List.perm_insertionSort _ _

theorem sortedRows_pairwise :
    (sortedRows env user filters order table).Pairwise fun a b => orderBy env order a b = true := by
  have htotal : Std.Total fun a b => orderBy env order a b = true := ⟨orderBy_total order⟩
  have htrans : IsTrans TableRow fun a b => orderBy env order a b = true := ⟨orderBy_trans order⟩
  exact List.pairwise_insertionSort _ _

/-- The pages yield the records of the sorted rows, and nothing when one of them cannot be read. -/
theorem yields_iff (hlimit : 1 ≤ limit) {items : List AppConversationInfo} :
    Yields env user filters order table limit items ↔
      (sortedRows env user filters order table).map (toInfo env) = items.map .ok :=
  @iterate_page_iff env _ limit hlimit items none 0 rfl

theorem count_eq_iff : countAppConversationInfo env user filters table =
    (table.rows.filter fun row => secureSelect user row && applyFilters env filters row).length ↔
      ∀ row ∈ table.rows, owned user row = true → applyFilters env filters row = true → row.conversationVersion = "V1" := by
  have hsplit : (table.rows.filter fun row => secureSelect user row && applyFilters env filters row) =
      (table.rows.filter fun row => owned user row && applyFilters env filters row).filter
        fun row => decide (row.conversationVersion = "V1") := by
    rw [List.filter_filter]
    exact List.filter_congr fun row _ => Bool.and_assoc _ _ _
  -- the search leaves out the rows of the old server, the count does not
  rw [hsplit, countAppConversationInfo, eq_comm, List.length_filter_eq_length_iff]
  constructor
  · intro h row hrow howned hfilters
    have hboth : (owned user row && applyFilters env filters row) = true := by rw [howned, hfilters]; rfl
    exact of_decide_eq_true (h row (List.mem_filter.mpr ⟨hrow, hboth⟩))
  · intro h row hrow
    obtain ⟨hmem, hboth⟩ := List.mem_filter.mp hrow
    obtain ⟨howned, hfilters⟩ := Bool.and_eq_true_iff.mp hboth
    exact decide_eq_true (h row hmem howned hfilters)

/-- Counting and searching agree exactly when the rows that the filters leave of the user's are all of the new
server, and all can be read. -/
theorem countsAsSearched_iff (env : Surroundings) (user : Option UserId) (filters : Filters) (order : AppConversationSortOrder)
    (table : Table) (limit : Nat) (hlimit : 1 ≤ limit) :
    Agrees env user filters order table limit ↔ Uniform env user filters table := by
  have hmem {row : TableRow} : row ∈ sortedRows env user filters order table ↔
      row ∈ table.rows ∧ secureSelect user row = true ∧ applyFilters env filters row = true := by
    rw [sortedRows_perm.mem_iff, List.mem_filter, Bool.and_eq_true]
  constructor
  · rintro ⟨items, sorted, hyields, hperm, -, hmap, hcount⟩
    have hlength : items.length = sorted.length := by
      rw [← List.length_map (f := toInfo env), hmap, List.length_map]
    refine ⟨count_eq_iff.mp (hcount.trans (hlength.trans hperm.length_eq)), fun row hrow hsecure hfilters => ?_⟩
    have hread := Py.exists_map_ok_iff.mp ⟨items, (yields_iff hlimit).mp hyields⟩
    exact toInfo_ok_iff.mp (hread row (hmem.mpr ⟨hrow, hsecure, hfilters⟩))
  · intro h
    have hread : ∀ row ∈ sortedRows env user filters order table, ∃ info, toInfo env row = .ok info := by
      intro row hrow
      obtain ⟨hrow, hsecure, hfilters⟩ := hmem.mp hrow
      exact toInfo_ok_iff.mpr (h.readable row hrow hsecure hfilters)
    obtain ⟨items, hitems⟩ := Py.exists_map_ok_iff.mpr hread
    refine ⟨items, _, (yields_iff hlimit).mpr hitems, sortedRows_perm, sortedRows_pairwise, hitems, ?_⟩
    rw [count_eq_iff.mpr h.version, ← sortedRows_perm.length_eq, ← List.length_map (f := toInfo env), hitems,
      List.length_map]

/-- The hexadecimal digits of an id, with hyphens between them. -/
def readUuid (text : String) : Option Uuid :=
  let digits := text.toList.filter (· != '-')
  if digits.length = 32 ∧ digits.all (fun c => c.isDigit || ('a' ≤ c && c ≤ 'f')) = true then
    some (digits.foldl (fun n c => 16 * n + if c.isDigit then c.toNat - 48 else c.toNat - 87) 0)
  else none

/-- SQLite, asked without a pattern. -/
def sqliteSurroundings : Surroundings where
  uuid := readUuid
  like := fun _ _ => false
  moment := Timestamp.clock
  collate := fun a b => decide (a ≤ b)
  collate_total := fun a b => by simpa using le_total a b
  collate_trans := fun a b c hab hbc => decide_eq_true ((of_decide_eq_true hab).trans (of_decide_eq_true hbc))
  nullsFirst := true

def rowOfAlice (conversationId version : String) : TableRow where
  conversationId := conversationId
  userId := "alice"
  lastUpdatedAt := some ⟨0, none⟩
  createdAt := some ⟨0, none⟩
  conversationVersion := version
  sandboxId := some "sandbox"

def newRow : TableRow := rowOfAlice "00000000-0000-0000-0000-000000000001" "V1"

def onlyNew : Table := ⟨[newRow], List.nodup_singleton _⟩

theorem countsAsSearched_onlyNew : Agrees sqliteSurroundings none {} .createdAtDesc onlyNew 1 := by
  refine (countsAsSearched_iff sqliteSurroundings none {} .createdAtDesc onlyNew 1 le_rfl).mpr ⟨?_, ?_⟩
  · intro row hrow _ _
    rw [List.mem_singleton.mp hrow]
    rfl
  · intro row hrow _ _
    rw [List.mem_singleton.mp hrow]
    have hid : readUuid newRow.conversationId ≠ none := by
      have hread : readUuid newRow.conversationId = some 1 := by rfl
      rw [hread]
      exact Option.some_ne_none 1
    have hsome {β : Type} (b : β) : some b ≠ none := Option.some_ne_none b
    exact ⟨hid, hsome _, hsome _, hsome _, hsome _, hsome _, hsome _, hsome _, hsome _, hsome _, hsome _, hsome _,
      fun _ htext => (by cases htext), fun _ htext => (by cases htext)⟩

/-- A conversation of the old server beside one of the new. -/
def oneOfEach : Table := ⟨[rowOfAlice "00000000000000000000000000000002" "V0", newRow], by decide⟩

theorem count_takes_old : ¬ ∀ env user filters order table limit, 1 ≤ limit → Agrees env user filters order table limit := by
  intro h
  obtain ⟨items, sorted, -, hperm, -, hmap, hcount⟩ := h sqliteSurroundings none {} .createdAtDesc oneOfEach 1 le_rfl
  have hlength : items.length = sorted.length := by
    rw [← List.length_map (f := toInfo sqliteSurroundings), hmap, List.length_map]
  have hversion := count_eq_iff.mp (hcount.trans (hlength.trans hperm.length_eq)) _ List.mem_cons_self rfl rfl
  exact absurd hversion (by decide)

end Agreement

end OpenHands.SearchConversations
