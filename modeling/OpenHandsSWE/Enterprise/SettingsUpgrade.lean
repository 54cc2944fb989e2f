import Mathlib.Algebra.Order.Field.Rat
import Mathlib.Data.List.TakeWhile
import Mathlib.Data.Rat.Defs
import OpenHandsSWE.Lib.Runs

/-! The upgrade of a user's settings to the current version, and what it does to the budget that LiteLLM
keeps for the user. A request that fails has done nothing. -/

namespace OpenHands.SettingsUpgrade

/-- `CURRENT_USER_SETTINGS_VERSION`. -/
def currentVersion : Int := 4

/-- The settings of the server and the user: the user has logged in, has a payment method where one is asked
for, and has an account at LiteLLM. -/
structure Deployment where
  userId : String
  requirePayment : Bool
  hasPaymentMethod : Bool
  liteLlmApiKey : Option String
  liteLlmApiUrl : Option String
  localDeployment : Option String
  defaultInitialBudget : ℚ
  defaultBillingMargin : ℚ
  loggedIn : userId ≠ ""
  pays : requirePayment → hasPaymentMethod
  connected : liteLlmApiKey ≠ none ∧ liteLlmApiUrl ≠ none
  hosted : localDeployment.filter (· ≠ "") = none

/-- A row of `UserSettings`. -/
structure UserSettings where
  userVersion : Int
  billingMargin : Option ℚ
deriving DecidableEq

/-- A user of LiteLLM. -/
structure LiteLlmUser where
  maxBudget : Option ℚ
  spend : ℚ
deriving DecidableEq

structure State where
  settings : Option UserSettings
  user : Option LiteLlmUser
deriving DecidableEq

inductive Answer where
  | raises
  | unsuccessful
  | success
deriving DecidableEq, Repr

/-- What the requests of a call of `load` meet with, where the call comes to them. -/
structure Requests where
  info : Answer
  delete : Answer
  create : Answer
  createWithoutEmail : Answer
deriving DecidableEq, Repr

inductive Outcome where
  | raised
  | nothing
  | settings
deriving DecidableEq, Repr

def deleteUser (s : State) (answer : Answer) : State := if answer = .success then { s with user := none } else s

def createUser (s : State) (maxBudget spend : ℚ) (answer : Answer) : State :=
  if answer = .success then { s with user := some ⟨some maxBudget, spend⟩ } else s

/-- `x or default`. -/
def orDefault (x : Option ℚ) (default : ℚ) : ℚ := (x.filter (· ≠ 0)).getD default

/-- The margin that the budget is multiplied with. -/
def marginToApply (settings : Option UserSettings) : Option ℚ :=
  match settings with
  | some row => if row.userVersion < 4 then row.billingMargin.filter fun margin => margin ≠ 0 ∧ margin ≠ 1 else none
  | none => none

/-- The margin is committed as 1 before any other request. -/
def resetMargin (s : State) : State :=
  if (marginToApply s.settings).isSome then
    { s with settings := s.settings.map fun row => { row with billingMargin := some 1 } }
  else s

/-- The second half of the update: the user is deleted and created again. -/
def recreateUser (s : State) (maxBudget spend : ℚ) (requests : Requests) : State × Outcome :=
  if requests.delete = .raises then (s, .raised)
  else
    let s := deleteUser s requests.delete
    match requests.create with
    | .raises => (s, .raised)
    | .success => (createUser s maxBudget spend .success, .settings)
    | .unsuccessful =>
      match requests.createWithoutEmail with
      | .raises => (s, .raised)
      | .success => (createUser s maxBudget spend .success, .settings)
      | .unsuccessful => (s, .nothing)

def updateSettingsWithLitellmDefault (d : Deployment) (s : State) (requests : Requests) : State × Outcome :=
  if d.liteLlmApiKey = none ∨ d.liteLlmApiUrl = none then (s, .nothing)
  else if (d.localDeployment.filter (· ≠ "")).isSome then (s, .settings)
  else if requests.info = .success then
    let maxBudget := orDefault (s.user.bind LiteLlmUser.maxBudget) d.defaultInitialBudget
    let spend := (s.user.map LiteLlmUser.spend).getD 0
    let margin := (marginToApply s.settings).getD 1
    recreateUser (resetMargin s) (maxBudget * margin) (spend * margin) requests
  else (s, .raised)

def storedRow (d : Deployment) (settings : Option UserSettings) : UserSettings :=
  match settings with
  | some row => { row with userVersion := currentVersion }
  | none => ⟨currentVersion, some d.defaultBillingMargin⟩

def store (d : Deployment) (s : State) : State := { s with settings := some (storedRow d s.settings) }

def createDefaultSettings (d : Deployment) (s : State) (requests : Requests) : State × Outcome :=
  if d.userId = "" then (s, .nothing)
  else if d.requirePayment ∧ ¬ d.hasPaymentMethod then (s, .nothing)
  else
    let updated := updateSettingsWithLitellmDefault d s requests
    if updated.2 = .settings then (store d updated.1, .settings) else updated

def load (d : Deployment) (s : State) (requests : Requests) : State × Outcome :=
  if d.userId = "" then (s, .nothing)
  else if s.settings.map UserSettings.userVersion ≠ some currentVersion then createDefaultSettings d s requests
  else (s, .settings)

def step (d : Deployment) (s : State) (requests : Requests) : State := (load d s requests).1

/-! ## What is asked of a run -/

/-- A user before the upgrade. -/
structure Account where
  version : Int
  margin : Option ℚ
  budget : Option ℚ
  spend : ℚ
  outdated : version < currentVersion

namespace Account

def row (a : Account) : UserSettings := ⟨a.version, a.margin⟩

def start (a : Account) : State := ⟨some a.row, some ⟨a.budget, a.spend⟩⟩

/-- What the upgrade multiplies budget and spend with. -/
def factor (a : Account) : ℚ :=
  match a.margin with
  | some margin => if a.version < 4 ∧ margin ≠ 1 then margin else 1
  | none => 1

/-- The budget before the upgrade, where a budget of 0 is one. -/
def givenBudget (a : Account) (d : Deployment) : ℚ := a.budget.getD d.defaultInitialBudget

/-- The user that LiteLLM has after the upgrade. -/
def upgraded (a : Account) (d : Deployment) : LiteLlmUser :=
  ⟨some (a.givenBudget d * a.factor), a.spend * a.factor⟩

end Account

def allSucceed : Requests := ⟨.success, .success, .success, .success⟩

/-- After calls in which any request may fail, and a last one in which none does, the user has what the
upgrade gives. -/
def KeepsBudget (d : Deployment) (a : Account) (calls : List Requests) : Prop :=
  ((calls ++ [allSucceed]).foldl (step d) a.start).user = some (a.upgraded d)

namespace Requests

/-- The call gets as far as the margin. -/
def Reads (requests : Requests) : Prop := requests.info = .success

def Deletes (requests : Requests) : Prop := requests.Reads ∧ requests.delete = .success

/-- The user is created in the end. -/
def Completes (requests : Requests) : Prop :=
  requests.Reads ∧ requests.delete ≠ .raises ∧
    (requests.create = .success ∨ requests.create = .unsuccessful ∧ requests.createWithoutEmail = .success)

instance (requests : Requests) : Decidable requests.Reads := inferInstanceAs (Decidable (_ = _))

instance (requests : Requests) : Decidable requests.Deletes := inferInstanceAs (Decidable (_ ∧ _))

instance (requests : Requests) : Decidable requests.Completes := inferInstanceAs (Decidable (_ ∧ _ ∧ _))

end Requests

/-- The calls before the first that completes. -/
def failing (calls : List Requests) : List Requests := calls.takeWhile fun requests => ¬ requests.Completes

/-- No call has failed after it deleted the user, or the default is what the upgrade gives anyway; a budget of 0
is the default; and where a margin applies, it is not 0 and no call has failed after it read the budget, or there
is nothing to multiply. -/
def FailsEarly (d : Deployment) (a : Account) (calls : List Requests) : Prop :=
  if ∃ requests ∈ failing calls, requests.Deletes then
    a.givenBudget d * a.factor = d.defaultInitialBudget ∧ a.spend * a.factor = 0
  else
    (a.budget = some 0 → d.defaultInitialBudget = 0) ∧
      (((∃ requests ∈ failing calls, requests.Reads) ∨ a.factor = 0) → a.factor ≠ 1 →
        a.givenBudget d = 0 ∧ a.spend = 0)

/-! ## One call -/

section Call

variable {d : Deployment} {s : State} {requests : Requests} {row : UserSettings}

theorem raised_ne_settings : Outcome.raised ≠ .settings := by decide

theorem nothing_ne_settings : Outcome.nothing ≠ .settings := by decide

/-- What is created does not depend on what the deletion has left. -/
theorem createUser_deleteUser (s : State) (maxBudget spend : ℚ) (answer : Answer) :
    createUser (deleteUser s answer) maxBudget spend .success = { s with user := some ⟨some maxBudget, spend⟩ } := by
  rw [createUser, if_pos rfl, deleteUser]
  split <;> rfl

theorem recreateUser_completes (maxBudget spend : ℚ) (h : requests.Completes) :
    (recreateUser s maxBudget spend requests).2 = .settings ∧
      (recreateUser s maxBudget spend requests).1 = { s with user := some ⟨some maxBudget, spend⟩ } := by
  obtain ⟨-, hdelete, hcreate⟩ := h
  rw [recreateUser, if_neg hdelete]
  rcases hcreate with hcreate | ⟨hcreate, hagain⟩
  · rw [hcreate]
    exact ⟨rfl, createUser_deleteUser s maxBudget spend _⟩
  · rw [hcreate, hagain]
    exact ⟨rfl, createUser_deleteUser s maxBudget spend _⟩

/-- A call that gets past the margin and fails has deleted the user or not. -/
theorem recreateUser_fails (maxBudget spend : ℚ) (hreads : requests.Reads) (h : ¬ requests.Completes) :
    (recreateUser s maxBudget spend requests).2 ≠ .settings ∧
      (recreateUser s maxBudget spend requests).1 = deleteUser s requests.delete := by
  rw [recreateUser]
  by_cases hdelete : requests.delete = .raises
  · rw [if_pos hdelete, deleteUser, hdelete]
    exact ⟨raised_ne_settings, rfl⟩
  · rw [if_neg hdelete]
    cases hcreate : requests.create with
    | raises => exact ⟨raised_ne_settings, rfl⟩
    | success => exact absurd ⟨hreads, hdelete, Or.inl hcreate⟩ h
    | unsuccessful =>
      cases hagain : requests.createWithoutEmail with
      | raises => exact ⟨raised_ne_settings, rfl⟩
      | success => exact absurd ⟨hreads, hdelete, Or.inr ⟨hcreate, hagain⟩⟩ h
      | unsuccessful => exact ⟨nothing_ne_settings, rfl⟩

/-- Nothing but LiteLLM keeps a call from the upgrade. -/
theorem updateSettings_eq (d : Deployment) (s : State) (requests : Requests) :
    updateSettingsWithLitellmDefault d s requests =
      if requests.info = .success then
        recreateUser (resetMargin s)
          (orDefault (s.user.bind LiteLlmUser.maxBudget) d.defaultInitialBudget * (marginToApply s.settings).getD 1)
          ((s.user.map LiteLlmUser.spend).getD 0 * (marginToApply s.settings).getD 1) requests
      else (s, .raised) := by
  have hconnected : ¬ (d.liteLlmApiKey = none ∨ d.liteLlmApiUrl = none) := by
    rintro (hkey | hurl)
    · exact d.connected.1 hkey
    · exact d.connected.2 hurl
  have hhosted : ¬ (d.localDeployment.filter (· ≠ "")).isSome = true := by
    rw [d.hosted]
    exact Bool.false_ne_true
  rw [updateSettingsWithLitellmDefault, if_neg hconnected, if_neg hhosted]

theorem load_outdated (hrow : s.settings = some row) (hversion : row.userVersion < currentVersion) :
    load d s requests =
      if (updateSettingsWithLitellmDefault d s requests).2 = .settings then
        (store d (updateSettingsWithLitellmDefault d s requests).1, .settings)
      else updateSettingsWithLitellmDefault d s requests := by
  have hpays : ¬ (d.requirePayment = true ∧ ¬ d.hasPaymentMethod = true) := fun h => h.2 (d.pays h.1)
  have hold : s.settings.map UserSettings.userVersion ≠ some currentVersion := by
    rw [hrow]
    exact fun h => ne_of_lt hversion (Option.some.inj h)
  rw [load, if_neg d.loggedIn, if_pos hold, createDefaultSettings, if_neg d.loggedIn, if_neg hpays]

theorem step_current (hrow : s.settings.map UserSettings.userVersion = some currentVersion) : step d s requests = s := by
  rw [step, load, if_neg d.loggedIn, if_neg (not_not.mpr hrow)]

theorem step_fails (hrow : s.settings = some row) (hversion : row.userVersion < currentVersion)
    (h : ¬ requests.Completes) :
    step d s requests = if requests.Reads then deleteUser (resetMargin s) requests.delete else s := by
  rw [step, load_outdated hrow hversion, updateSettings_eq]
  by_cases hreads : requests.Reads
  · obtain ⟨houtcome, hstate⟩ := recreateUser_fails (s := resetMargin s)
      (orDefault (s.user.bind LiteLlmUser.maxBudget) d.defaultInitialBudget * (marginToApply s.settings).getD 1)
      ((s.user.map LiteLlmUser.spend).getD 0 * (marginToApply s.settings).getD 1) hreads h
    have hinfo : requests.info = .success := hreads
    rw [if_pos hreads, if_pos hinfo, if_neg houtcome, hstate]
  · have hinfo : ¬ requests.info = .success := hreads
    rw [if_neg hreads, if_neg hinfo]
    rfl

theorem resetMargin_settings (hrow : s.settings = some row) :
    ∃ margin, (resetMargin s).settings = some { row with billingMargin := margin } := by
  rw [resetMargin]
  split
  · exact ⟨some 1, by rw [hrow]; rfl⟩
  · exact ⟨row.billingMargin, hrow⟩

theorem step_completes (hrow : s.settings = some row) (hversion : row.userVersion < currentVersion)
    (h : requests.Completes) :
    (step d s requests).user = some
      ⟨some (orDefault (s.user.bind LiteLlmUser.maxBudget) d.defaultInitialBudget * (marginToApply s.settings).getD 1),
        (s.user.map LiteLlmUser.spend).getD 0 * (marginToApply s.settings).getD 1⟩ ∧
      (step d s requests).settings.map UserSettings.userVersion = some currentVersion := by
  have hinfo : requests.info = .success := h.1
  obtain ⟨houtcome, hstate⟩ := recreateUser_completes (s := resetMargin s)
    (orDefault (s.user.bind LiteLlmUser.maxBudget) d.defaultInitialBudget * (marginToApply s.settings).getD 1)
    ((s.user.map LiteLlmUser.spend).getD 0 * (marginToApply s.settings).getD 1) h
  obtain ⟨margin, hsettings⟩ := resetMargin_settings hrow
  rw [step, load_outdated hrow hversion, updateSettings_eq, if_pos hinfo, if_pos houtcome, hstate, store]
  refine ⟨rfl, ?_⟩
  dsimp only
  rw [hsettings]
  rfl

end Call

/-! ## The calls that fail -/

namespace Account

variable {d : Deployment} {a : Account}

def appliedMargin (a : Account) : Option ℚ := marginToApply (some a.row)

/-- The row after a call has read the budget. -/
def rowRead (a : Account) : UserSettings := ⟨a.version, if a.appliedMargin.isSome then some 1 else a.margin⟩

/-- Where calls that fail leave the user. -/
def left (a : Account) (calls : List Requests) : State :=
  if ∃ requests ∈ calls, requests.Deletes then ⟨some a.rowRead, none⟩
  else if ∃ requests ∈ calls, requests.Reads then ⟨some a.rowRead, some ⟨a.budget, a.spend⟩⟩
  else a.start

theorem resetMargin_start (user : Option LiteLlmUser) :
    resetMargin ⟨some a.row, user⟩ = ⟨some a.rowRead, user⟩ := by
  rw [resetMargin, rowRead, appliedMargin]
  cases (marginToApply (some a.row)).isSome <;> rfl

/-- No margin applies to a row twice. -/
theorem marginToApply_rowRead : marginToApply (some a.rowRead) = none := by
  rw [rowRead, appliedMargin]
  cases h : marginToApply (some a.row) with
  | some margin => simp [marginToApply]
  | none => exact h

theorem resetMargin_rowRead (user : Option LiteLlmUser) :
    resetMargin ⟨some a.rowRead, user⟩ = ⟨some a.rowRead, user⟩ := by
  rw [resetMargin, marginToApply_rowRead]
  rfl

theorem left_settings (calls : List Requests) :
    ∃ row, (a.left calls).settings = some row ∧ row.userVersion = a.version := by
  rw [left]
  split_ifs
  · exact ⟨a.rowRead, rfl, rfl⟩
  · exact ⟨a.rowRead, rfl, rfl⟩
  · exact ⟨a.row, rfl, rfl⟩

theorem foldl_left {calls : List Requests} (h : ∀ requests ∈ calls, ¬ requests.Completes) :
    calls.foldl (step d) a.start = a.left calls := by
  induction calls using List.reverseRecOn with
  | nil => simp [left]
  | append_singleton calls last ih =>
    obtain ⟨kept, hkept, hversion⟩ := left_settings (a := a) calls
    have houtdated : kept.userVersion < currentVersion := by
      rw [hversion]
      exact a.outdated
    rw [List.foldl_append, ih fun r hr => h r (List.mem_append_left _ hr), List.foldl_cons, List.foldl_nil,
      step_fails hkept houtdated (h last (List.mem_append_right _ (List.mem_singleton_self _)))]
    simp only [left, List.mem_append, or_and_right, exists_or, List.mem_singleton, exists_eq_left]
    by_cases hreads : last.Reads
    · by_cases hdelete : last.delete = .success
      · have hdeletes : last.Deletes := ⟨hreads, hdelete⟩
        simp only [hdeletes, hreads, or_true, if_true, deleteUser, hdelete]
        split_ifs <;> simp only [resetMargin_rowRead, resetMargin_start, start]
      · have hdeletes : ¬ last.Deletes := fun h => hdelete h.2
        simp only [hdeletes, hreads, or_true, or_false, if_true, deleteUser, hdelete, if_false]
        split_ifs <;> simp only [resetMargin_rowRead, resetMargin_start, start]
    · have hdeletes : ¬ last.Deletes := fun h => hreads h.1
      simp only [hdeletes, hreads, or_false, if_false]

/-- The margin that the code applies is the one of the upgrade, except for 0. -/
theorem appliedMargin_getD : a.appliedMargin.getD 1 = if a.factor = 0 then 1 else a.factor := by
  rw [appliedMargin, marginToApply, factor, row]
  dsimp only
  cases a.margin with
  | none => by_cases hversion : a.version < 4 <;> simp [hversion]
  | some margin =>
    by_cases hversion : a.version < 4
    · by_cases hzero : margin = 0
      · simp [hversion, hzero, Option.filter]
      · by_cases hone : margin = 1
        · simp [hversion, hone, Option.filter]
        · simp [hversion, hzero, hone, Option.filter]
    · simp [hversion]

theorem orDefault_budget (d : Deployment) :
    orDefault a.budget d.defaultInitialBudget =
      if a.budget = some 0 then d.defaultInitialBudget else a.givenBudget d := by
  rw [orDefault, givenBudget]
  cases a.budget with
  | none => simp
  | some budget =>
    by_cases hzero : budget = 0
    · simp [hzero, Option.filter]
    · simp [hzero, Option.filter]

end Account

/-- The user that a call creates in a state. -/
def created (d : Deployment) (s : State) : LiteLlmUser :=
  ⟨some (orDefault (s.user.bind LiteLlmUser.maxBudget) d.defaultInitialBudget * (marginToApply s.settings).getD 1),
    (s.user.map LiteLlmUser.spend).getD 0 * (marginToApply s.settings).getD 1⟩

theorem foldl_current {d : Deployment} {s : State} (calls : List Requests)
    (h : s.settings.map UserSettings.userVersion = some currentVersion) : calls.foldl (step d) s = s := by
  induction calls with
  | nil => rfl
  | cons requests calls ih => rw [List.foldl_cons, step_current h, ih]

/-- The first call that completes decides what the user has in the end. -/
theorem foldl_user (d : Deployment) (a : Account) (calls : List Requests) :
    ((calls ++ [allSucceed]).foldl (step d) a.start).user = some (created d (a.left (failing calls))) := by
  have hfail : ∀ requests ∈ failing calls, ¬ requests.Completes := by
    intro requests hmem
    have hholds := List.mem_takeWhile_imp (p := fun r : Requests => decide (¬ r.Completes)) hmem
    exact of_decide_eq_true hholds
  obtain ⟨first, later, hsplit, hfirst⟩ : ∃ first later,
      calls ++ [allSucceed] = failing calls ++ first :: later ∧ first.Completes := by
    have hwhole : failing calls ++ calls.dropWhile (fun requests => ¬ requests.Completes) = calls :=
      List.takeWhile_append_dropWhile
    cases hdrop : calls.dropWhile (fun requests => ¬ requests.Completes) with
    | nil =>
      rw [hdrop, List.append_nil] at hwhole
      exact ⟨allSucceed, [], by rw [hwhole], by decide⟩
    | cons first later =>
      refine ⟨first, later ++ [allSucceed], ?_, ?_⟩
      · rw [← List.cons_append, ← List.append_assoc, ← hdrop, hwhole]
      · have hstop := List.head_dropWhile_not (fun r : Requests => decide (¬ r.Completes)) (l := calls)
          (by rw [hdrop]; exact List.cons_ne_nil _ _)
        simp only [hdrop, List.head_cons] at hstop
        simpa using hstop
  obtain ⟨row, hrow, hversion⟩ := a.left_settings (failing calls)
  have houtdated : row.userVersion < currentVersion := by
    rw [hversion]
    exact a.outdated
  obtain ⟨huser, hcurrent⟩ := step_completes (d := d) hrow houtdated hfirst
  rw [hsplit, List.foldl_append, Account.foldl_left hfail, List.foldl_cons, foldl_current later hcurrent, huser]
  rfl

section Numbers

variable {d : Deployment} {a : Account} {calls : List Requests}

theorem eq_mul_iff (x f : ℚ) : x = x * f ↔ (f ≠ 1 → x = 0) := by
  constructor
  · intro h hf
    by_contra hx
    exact hf (mul_left_cancel₀ hx (h.symm.trans (mul_one x).symm))
  · intro h
    by_cases hf : f = 1
    · rw [hf, mul_one]
    · rw [h hf, zero_mul]

theorem givenBudget_of_zero (h : a.budget = some 0) : a.givenBudget d = 0 := by
  rw [Account.givenBudget, h, Option.getD_some]

/-- The budget is read as it was given unless it is 0. -/
theorem orDefault_eq_given_iff :
    orDefault a.budget d.defaultInitialBudget = a.givenBudget d ↔ (a.budget = some 0 → d.defaultInitialBudget = 0) := by
  rw [Account.orDefault_budget]
  by_cases hzero : a.budget = some 0
  · rw [if_pos hzero, givenBudget_of_zero hzero]
    exact ⟨fun h _ => h, fun h => h hzero⟩
  · rw [if_neg hzero]
    exact ⟨fun _ h => absurd h hzero, fun _ => rfl⟩

/-- What is left when nothing is multiplied although it should be. -/
theorem unscaled_iff (f : ℚ) :
    (orDefault a.budget d.defaultInitialBudget = a.givenBudget d * f ∧ a.spend = a.spend * f) ↔
      (a.budget = some 0 → d.defaultInitialBudget = 0) ∧ (f ≠ 1 → a.givenBudget d = 0 ∧ a.spend = 0) := by
  rw [eq_mul_iff a.spend]
  by_cases hzero : a.budget = some 0
  · rw [Account.orDefault_budget, if_pos hzero, givenBudget_of_zero hzero, zero_mul]
    exact ⟨fun h => ⟨fun _ => h.1, fun hf => ⟨rfl, h.2 hf⟩⟩, fun h => ⟨h.1 hzero, fun hf => (h.2 hf).2⟩⟩
  · rw [Account.orDefault_budget, if_neg hzero, eq_mul_iff]
    exact ⟨fun h => ⟨fun hb => absurd hb hzero, fun hf => ⟨h.1 hf, h.2 hf⟩⟩,
      fun h => ⟨fun hf => (h.2 hf).1, fun hf => (h.2 hf).2⟩⟩

theorem user_eq_iff (budget spend : ℚ) :
    (⟨some budget, spend⟩ : LiteLlmUser) = a.upgraded d ↔
      budget = a.givenBudget d * a.factor ∧ spend = a.spend * a.factor := by
  rw [Account.upgraded, LiteLlmUser.mk.injEq, Option.some_inj]

/-- The user is gone, and the default takes the place of the budget. -/
theorem created_none : created d ⟨some a.rowRead, none⟩ = ⟨some d.defaultInitialBudget, 0⟩ := by
  rw [created, Account.marginToApply_rowRead]
  simp [orDefault]

/-- The user is still there, and the margin is not. -/
theorem created_read : created d ⟨some a.rowRead, some ⟨a.budget, a.spend⟩⟩ =
    ⟨some (orDefault a.budget d.defaultInitialBudget), a.spend⟩ := by
  rw [created, Account.marginToApply_rowRead]
  simp

theorem created_start : created d a.start =
    ⟨some (orDefault a.budget d.defaultInitialBudget * a.appliedMargin.getD 1), a.spend * a.appliedMargin.getD 1⟩ := rfl

theorem created_left_iff : created d (a.left (failing calls)) = a.upgraded d ↔ FailsEarly d a calls := by
  rw [Account.left, FailsEarly]
  by_cases hgone : ∃ requests ∈ failing calls, requests.Deletes
  · rw [if_pos hgone, if_pos hgone, created_none, user_eq_iff]
    exact and_congr eq_comm eq_comm
  · rw [if_neg hgone, if_neg hgone]
    by_cases hread : ∃ requests ∈ failing calls, requests.Reads
    · rw [if_pos hread, created_read, user_eq_iff, unscaled_iff]
      exact and_congr_right fun _ => ⟨fun h _ => h, fun h => h (Or.inl hread)⟩
    · rw [if_neg hread, created_start, Account.appliedMargin_getD, user_eq_iff]
      by_cases hzero : a.factor = 0
      · rw [if_pos hzero, mul_one, mul_one, unscaled_iff]
        exact and_congr_right fun _ => ⟨fun h _ => h, fun h => h (Or.inr hzero)⟩
      · rw [if_neg hzero, mul_left_inj' hzero, orDefault_eq_given_iff]
        refine and_congr_right fun _ => iff_of_true rfl ?_
        rintro (hcalls | hfactor)
        · exact absurd hcalls hread
        · exact absurd hfactor hzero

end Numbers

theorem keepsBudget_iff (d : Deployment) (a : Account) (calls : List Requests) :
    KeepsBudget d a calls ↔ FailsEarly d a calls := by
  rw [KeepsBudget, foldl_user, Option.some_inj]
  exact created_left_iff

/-- A server with the default budget of 10. -/
def exampleDeployment : Deployment where
  userId := "user"
  requirePayment := false
  hasPaymentMethod := false
  liteLlmApiKey := some "key"
  liteLlmApiUrl := some "http://localhost:4000"
  localDeployment := none
  defaultInitialBudget := 10
  defaultBillingMargin := 1
  loggedIn := by decide
  pays := by decide
  connected := by decide
  hosted := rfl

/-- A user of version 3 with a margin of 2, whose creation fails once. -/
theorem not_keepsBudget :
    ¬ KeepsBudget exampleDeployment ⟨3, some 2, some 50, 20, by decide⟩
      [⟨.success, .success, .raises, .success⟩] := by
  intro h
  have hbudget := congrArg (Option.map LiteLlmUser.spend) h
  revert hbudget
  decide +kernel

end OpenHands.SettingsUpgrade
