import Mathlib.Algebra.BigOperators.Group.Finset.Basic
import Mathlib.Data.Rat.Init
import Mathlib.Logic.Function.Basic
import Mathlib.Algebra.Order.Field.Rat
import OpenHandsSWE.Lib.Runs

/-! The payments of a user: callbacks that raise the budget kept by LiteLLM and record it in the database. -/

namespace OpenHands.Billing

inductive BillingSessionStatus where
  | inProgress
  | completed
  | cancelled
  | error
deriving DecidableEq, Repr

/-- What Stripe says of the sessions. -/
structure Stripe where
  complete : Nat → Bool
  amountSubtotal : Nat → Option Int

namespace Stripe

def amount (stripe : Stripe) (x : Nat) : Int := (stripe.amountSubtotal x).getD 0

def credits (stripe : Stripe) (x : Nat) : Rat := stripe.amount x / 100

end Stripe

/-- Where a callback stands, with its session; one that has read the budget remembers it, and how many
updates of the budget there had been. -/
inductive Callback where
  | none
  | found (x : Nat)
  | read (x : Nat) (maxBudget : Rat) (updates : Nat)
  | upserted (x : Nat)
  | committed (x : Nat)
  | cancelling (x : Nat)
  | finished
deriving DecidableEq

def Callback.running : Callback → Bool
  | .none | .finished => false
  | _ => true

/-- The sessions credited are those of the updates of the budget, in their order. -/
structure State where
  status : Nat → BillingSessionStatus
  price : Nat → Option Int
  maxBudget : Option Rat
  callbacks : Nat → Callback := fun _ => .none
  credited : List Nat := []
  redirected : List Nat := []

inductive Step where
  | success (c x : Nat)
  | getUser (c : Nat)
  | upsert (c : Nat)
  | commit (c : Nat)
  | redirect (c : Nat)
  | cancel (c x : Nat)
  | commitCancel (c : Nat)
  | crash (c : Nat)

namespace State

def budget (s : State) : Rat := s.maxBudget.getD 0

def setCallback (s : State) (c : Nat) (callback : Callback) : State :=
  { s with callbacks := Function.update s.callbacks c callback }

end State

section Model

variable (stripe : Stripe) (sessions : Finset Nat)

/-- The start of `success_callback`, up to the status at Stripe. -/
def success (s : State) (c x : Nat) : State :=
  if s.callbacks c = .none then
    if x ∈ sessions ∧ s.status x = .inProgress then
      if stripe.complete x then s.setCallback c (.found x) else s.setCallback c .finished
    else s.setCallback c .finished
  else s

/-- `_get_litellm_user`. -/
def getUser (s : State) (c : Nat) : State :=
  match s.callbacks c with
  | .found x => s.setCallback c (.read x s.budget s.credited.length)
  | _ => s

/-- `_upsert_litellm_user`, with the sum of what was read before. -/
def upsert (s : State) (c : Nat) : State :=
  match s.callbacks c with
  | .read x maxBudget _ =>
    { s with maxBudget := some (maxBudget + stripe.credits x), credited := s.credited ++ [x] }.setCallback c (.upserted x)
  | _ => s

def commit (s : State) (c : Nat) : State :=
  match s.callbacks c with
  | .upserted x =>
    { s with
      status := Function.update s.status x .completed
      price := Function.update s.price x (some (stripe.amount x)) }.setCallback c (.committed x)
  | _ => s

def redirect (s : State) (c : Nat) : State :=
  match s.callbacks c with
  | .committed x => { s with redirected := x :: s.redirected }.setCallback c .finished
  | _ => s

/-- The start of `cancel_callback`. -/
def cancel (s : State) (c x : Nat) : State :=
  if s.callbacks c = .none then
    if x ∈ sessions ∧ s.status x = .inProgress then s.setCallback c (.cancelling x) else s.setCallback c .finished
  else s

def commitCancel (s : State) (c : Nat) : State :=
  match s.callbacks c with
  | .cancelling x => { s with status := Function.update s.status x .cancelled }.setCallback c .finished
  | _ => s

/-- The database forgets what was not committed; the budget stays as it is. -/
def crash (s : State) (c : Nat) : State := s.setCallback c .finished

def step (s : State) : Step → State
  | .success c x => success stripe sessions s c x
  | .getUser c => getUser s c
  | .upsert c => upsert stripe s c
  | .commit c => commit stripe s c
  | .redirect c => redirect s c
  | .cancel c x => cancel sessions s c x
  | .commitCancel c => commitCancel s c
  | .crash c => crash s c

/-- Once all is done the budget has grown by exactly the complete payments. -/
def CreditedOnce (initial : Rat) (s : State) : Prop :=
  (∀ c, (s.callbacks c).running = false) → (∀ x ∈ sessions, stripe.complete x → x ∈ s.redirected) →
    s.budget = initial + ∑ x ∈ sessions with stripe.complete x, stripe.credits x

/-- The budget is updated for the first time for its session, and none was between its reading and this update. -/
def InOrder (s : State) : Step → Prop
  | .upsert c =>
    match s.callbacks c with
    | .read x _ updates => x ∉ s.credited ∧ updates = s.credited.length
    | _ => True
  | _ => True

instance (s : State) (next : Step) : Decidable (InOrder s next) := by
  unfold InOrder
  split
  · split <;> infer_instance
  · infer_instance

/-! ## What every step in order keeps -/

def Due (x : Nat) : Prop := x ∈ sessions ∧ stripe.complete x = true

/-- What a callback has seen is right as long as nothing has come between. -/
def Sane (s : State) : Callback → Prop
  | .found x => Due stripe sessions x
  | .read x maxBudget updates => Due stripe sessions x ∧ updates ≤ s.credited.length ∧
    (updates = s.credited.length → maxBudget = s.budget)
  | .upserted x | .committed x => x ∈ s.credited
  | _ => True

structure Sound (initial : Rat) (s : State) : Prop where
  nodup : s.credited.Nodup
  due : ∀ x ∈ s.credited, Due stripe sessions x
  budget : s.budget = initial + (s.credited.map stripe.credits).sum
  sane : ∀ c, Sane stripe sessions s (s.callbacks c)
  redirected : ∀ x ∈ s.redirected, x ∈ s.credited

end Model

section Keeping

variable {stripe : Stripe} {sessions : Finset Nat} {initial : Rat} {s : State} {c x : Nat}

theorem Sound.setCallback (h : Sound stripe sessions initial s) {callback : Callback}
    (hsane : Sane stripe sessions s callback) : Sound stripe sessions initial (s.setCallback c callback) := by
  refine ⟨h.nodup, h.due, h.budget, fun d => ?_, h.redirected⟩
  by_cases hd : d = c
  · have hcallback : (s.setCallback c callback).callbacks d = callback := hd ▸ Function.update_self ..
    rw [hcallback]
    exact hsane
  · have hcallback : (s.setCallback c callback).callbacks d = s.callbacks d := Function.update_of_ne hd ..
    rw [hcallback]
    exact h.sane d

/-- Neither the status nor the price of a session says what has been credited. -/
theorem Sound.setStatus (h : Sound stripe sessions initial s) (status : Nat → BillingSessionStatus)
    (price : Nat → Option Int) : Sound stripe sessions initial { s with status := status, price := price } :=
  ⟨h.nodup, h.due, h.budget, h.sane, h.redirected⟩

theorem sound_success (h : Sound stripe sessions initial s) (c x : Nat) :
    Sound stripe sessions initial (success stripe sessions s c x) := by
  unfold success
  split_ifs with hnone hfound hcomplete
  · exact h.setCallback ⟨hfound.1, hcomplete⟩
  · exact h.setCallback trivial
  · exact h.setCallback trivial
  · exact h

theorem sound_getUser (h : Sound stripe sessions initial s) (c : Nat) :
    Sound stripe sessions initial (getUser s c) := by
  unfold getUser
  split
  next x hfound =>
    have hsane := h.sane c
    rw [hfound] at hsane
    exact h.setCallback ⟨hsane, le_rfl, fun _ => rfl⟩
  next => exact h

theorem sound_upsert (h : Sound stripe sessions initial s) {c : Nat} (horder : InOrder s (.upsert c)) :
    Sound stripe sessions initial (upsert stripe s c) := by
  unfold upsert
  split
  next x maxBudget updates hread =>
    rw [InOrder, hread] at horder
    obtain ⟨hnew, hupdates⟩ := horder
    have hsane := h.sane c
    rw [hread] at hsane
    obtain ⟨hdue, -, hbudget⟩ := hsane
    refine Sound.setCallback ⟨?_, ?_, ?_, ?_, ?_⟩ (List.mem_append_right _ (List.mem_singleton.mpr rfl))
    · exact List.nodup_append.mpr ⟨h.nodup, List.nodup_singleton x, fun y hy z hz heq =>
        hnew (List.mem_singleton.mp hz ▸ heq ▸ hy)⟩
    · intro y hy
      rcases List.mem_append.mp hy with hy | hy
      · exact h.due y hy
      · exact List.mem_singleton.mp hy ▸ hdue
    · have hsum := h.budget
      rw [← hbudget hupdates] at hsum
      simp [State.budget, hsum, add_assoc]
    · -- the other callbacks that have read the budget can no longer update it in order
      intro d
      have hother := h.sane d
      dsimp only
      cases hcallback : s.callbacks d with
      | found y => rwa [hcallback] at hother
      | read y read n =>
        rw [hcallback] at hother
        obtain ⟨hdue, hle, -⟩ := hother
        refine ⟨hdue, ?_, fun heq => ?_⟩
        · rw [List.length_append]
          exact hle.trans (Nat.le_add_right _ _)
        · rw [heq, List.length_append, List.length_singleton] at hle
          exact absurd hle (Nat.not_succ_le_self _)
      | upserted y =>
        rw [hcallback] at hother
        exact List.mem_append_left _ hother
      | committed y =>
        rw [hcallback] at hother
        exact List.mem_append_left _ hother
      | none => trivial
      | cancelling y => trivial
      | finished => trivial
    · exact fun y hy => List.mem_append_left _ (h.redirected y hy)
  next => exact h

theorem sound_commit (h : Sound stripe sessions initial s) (c : Nat) :
    Sound stripe sessions initial (commit stripe s c) := by
  unfold commit
  split
  next x hupserted =>
    have hsane := h.sane c
    rw [hupserted] at hsane
    exact (h.setStatus _ _).setCallback hsane
  next => exact h

theorem sound_redirect (h : Sound stripe sessions initial s) (c : Nat) :
    Sound stripe sessions initial (redirect s c) := by
  unfold redirect
  split
  next x hcommitted =>
    have hsane := h.sane c
    rw [hcommitted] at hsane
    have hredirected : ∀ y ∈ x :: s.redirected, y ∈ s.credited := by
      intro y hy
      rcases List.mem_cons.mp hy with rfl | hy
      · exact hsane
      · exact h.redirected y hy
    have hsound : Sound stripe sessions initial { s with redirected := x :: s.redirected } :=
      ⟨h.nodup, h.due, h.budget, h.sane, hredirected⟩
    exact hsound.setCallback trivial
  next => exact h

theorem sound_cancel (h : Sound stripe sessions initial s) (c x : Nat) :
    Sound stripe sessions initial (cancel sessions s c x) := by
  unfold cancel
  split_ifs
  · exact h.setCallback trivial
  · exact h.setCallback trivial
  · exact h

theorem sound_commitCancel (h : Sound stripe sessions initial s) (c : Nat) :
    Sound stripe sessions initial (commitCancel s c) := by
  unfold commitCancel
  split
  · exact (h.setStatus _ s.price).setCallback trivial
  · exact h

theorem sound_step (h : Sound stripe sessions initial s) (next : Step) (horder : InOrder s next) :
    Sound stripe sessions initial (step stripe sessions s next) := by
  cases next with
  | success c x => exact sound_success h c x
  | getUser c => exact sound_getUser h c
  | upsert c => exact sound_upsert h horder
  | commit c => exact sound_commit h c
  | redirect c => exact sound_redirect h c
  | cancel c x => exact sound_cancel h c x
  | commitCancel c => exact sound_commitCancel h c
  | crash c => exact h.setCallback trivial

theorem Sound.creditedOnce (h : Sound stripe sessions initial s) : CreditedOnce stripe sessions initial s := by
  intro _ hredirected
  have hcredited : s.credited.toFinset = sessions.filter fun x => stripe.complete x := by
    ext x
    rw [List.mem_toFinset, Finset.mem_filter]
    exact ⟨h.due x, fun hx => h.redirected x (hredirected x hx.1 hx.2)⟩
  rw [h.budget, ← hcredited, List.sum_toFinset _ h.nodup]

end Keeping

/-- From any table and budget: after steps in order, every completed payment is credited exactly once. -/
theorem creditedOnce_run (stripe : Stripe) (sessions : Finset Nat) (status : Nat → BillingSessionStatus)
    (price : Nat → Option Int) (maxBudget : Option Rat) {steps : List Step}
    (horder : Runs.EachStep (step stripe sessions) { status, price, maxBudget } InOrder steps) {before : List Step}
    (hbefore : before <+: steps) : CreditedOnce stripe sessions (maxBudget.getD 0)
      (before.foldl (step stripe sessions) { status, price, maxBudget }) := by
  have hrun : Runs.EachStep (step stripe sessions) { status, price, maxBudget } InOrder before :=
    fun front next hfront => horder front next (hfront.trans hbefore)
  have hstart : Sound stripe sessions (maxBudget.getD 0) { status, price, maxBudget } :=
    ⟨List.nodup_nil, nofun, (add_zero _).symm, fun _ => trivial, nofun⟩
  exact (hrun.invariant hstart fun s next hsound hnext => sound_step hsound next hnext).creditedOnce

/-! Two payments of a dollar each. -/

def twoPayments : Stripe where
  complete _ := true
  amountSubtotal _ := some 100

def inTurn : List Step :=
  [.success 0 0, .getUser 0, .upsert 0, .commit 0, .redirect 0, .success 1 1, .getUser 1, .upsert 1, .commit 1, .redirect 1]

theorem creditedOnce_inTurn : CreditedOnce twoPayments {0, 1} 0
    (inTurn.foldl (step twoPayments {0, 1}) ⟨fun _ => .inProgress, fun _ => none, none, fun _ => .none, [], []⟩) := by
  refine creditedOnce_run twoPayments {0, 1} _ _ _ ?_ List.prefix_rfl
  rw [inTurn]
  iterate 10 rw [Runs.eachStep_cons]
  exact ⟨trivial, trivial, by decide +kernel, trivial, trivial, trivial, trivial, by decide +kernel, trivial, trivial,
    Runs.eachStep_nil⟩

/-- Both callbacks read the budget before either updates it. -/
def together : List Step :=
  [.success 0 0, .success 1 1, .getUser 0, .getUser 1, .upsert 0, .upsert 1, .commit 0, .commit 1, .redirect 0, .redirect 1]

theorem together_not_creditedOnce : ¬ ∀ stripe sessions status price maxBudget (steps : List Step),
    CreditedOnce stripe sessions (maxBudget.getD 0)
      (steps.foldl (step stripe sessions) { status, price, maxBudget }) := by
  intro h
  have hcredited := h twoPayments {0, 1} (fun _ => .inProgress) (fun _ => none) none together ?_ ?_
  · exact absurd hcredited (by decide +kernel)
  · intro c
    rcases c with _ | _ | c <;> rfl
  · decide +kernel

end OpenHands.Billing
