import Mathlib.Algebra.BigOperators.Group.List.Basic
import Mathlib.Tactic.Ring
import Mathlib.Tactic.Linarith

/-! A queue whose items are handed to every subscriber, each with a pool that works in order. -/

namespace Fanout

structure Subscriber (α : Type*) where
  pool : List α := []
  received : List α := []

variable {α : Type*}

/-- The next item of the queue goes to every pool. -/
def dispatch (queue : List α) (subs : List (Subscriber α)) : List α × List (Subscriber α) :=
  match queue with
  | [] => ([], subs)
  | a :: queue => (queue, subs.map fun sub => { sub with pool := sub.pool ++ [a] })

def Subscriber.work (sub : Subscriber α) : Subscriber α :=
  match sub.pool with
  | [] => sub
  | a :: pool => { pool, received := sub.received ++ [a] }

/-- Every subscriber has received, has in its pool or has still to be handed what was put. -/
def Delivers (queue : List α) (subs : List (Subscriber α)) (put : List α) : Prop :=
  ∀ sub ∈ subs, sub.received ++ sub.pool ++ queue = put

theorem Subscriber.work_total (sub : Subscriber α) :
    sub.work.received ++ sub.work.pool = sub.received ++ sub.pool := by
  unfold Subscriber.work
  split
  · rfl
  · next a pool hpool =>
    show sub.received ++ [a] ++ pool = _
    rw [hpool, List.append_assoc, List.singleton_append]

namespace Delivers

variable {queue put : List α} {subs : List (Subscriber α)}

theorem start (n : Nat) : Delivers ([] : List α) (List.replicate n {}) [] := by
  intro sub hsub
  rw [List.eq_of_mem_replicate hsub]
  rfl

theorem append (h : Delivers queue subs put) (a : α) : Delivers (queue ++ [a]) subs (put ++ [a]) := by
  intro sub hsub
  rw [← h sub hsub, List.append_assoc _ queue]

theorem dispatch (h : Delivers queue subs put) :
    Delivers (dispatch queue subs).1 (dispatch queue subs).2 put := by
  cases queue with
  | nil => exact h
  | cons a queue =>
    intro sub hsub
    obtain ⟨old, hold, rfl⟩ := List.mem_map.mp hsub
    have hput := h old hold
    show old.received ++ (old.pool ++ [a]) ++ queue = put
    simpa only [List.append_assoc, List.singleton_append] using hput

theorem work (h : Delivers queue subs put) (j : Nat) :
    Delivers queue (subs.modify j Subscriber.work) put := by
  intro sub hsub
  obtain ⟨i, hi, hget⟩ := List.mem_iff_getElem.mp hsub
  rw [List.getElem_modify] at hget
  have hold := h _ (List.getElem_mem (by simpa using hi : i < subs.length))
  split_ifs at hget
  · rw [← hget, Subscriber.work_total]
    exact hold
  · rw [← hget]
    exact hold

theorem received_sublist (h : Delivers queue subs put) {sub : Subscriber α} (hsub : sub ∈ subs) :
    sub.received.Sublist put := by
  rw [← h sub hsub, List.append_assoc]
  exact List.sublist_append_left _ _

theorem received_eq (h : Delivers queue subs put) (hqueue : queue = []) {sub : Subscriber α}
    (hsub : sub ∈ subs) (hpool : sub.pool = []) : sub.received = put := by
  have hput := h sub hsub
  rwa [hqueue, hpool, List.append_nil, List.append_nil] at hput

end Delivers

/-! ## Progress -/

/-- How often the queue has still to be dispatched and a pool to be worked on. -/
def pending (queue : List α) (subs : List (Subscriber α)) : ℕ :=
  queue.length * (subs.length + 1) + (subs.map fun sub => sub.pool.length).sum

theorem pending_dispatch (a : α) (queue : List α) (subs : List (Subscriber α)) :
    pending (dispatch (a :: queue) subs).1 (dispatch (a :: queue) subs).2 < pending (a :: queue) subs := by
  have hpools : (subs.map fun sub => sub.pool.length + 1).sum =
      (subs.map fun sub => sub.pool.length).sum + subs.length := by
    rw [List.sum_map_add, List.map_const', List.sum_replicate, nsmul_one]
    rfl
  have hmap : ((dispatch (a :: queue) subs).2.map fun sub => sub.pool.length) =
      subs.map fun sub => sub.pool.length + 1 := by
    simp [dispatch]
  show queue.length * ((subs.map _).length + 1) + _ < (queue.length + 1) * (subs.length + 1) + _
  rw [hmap, hpools, List.length_map]
  nlinarith

theorem pending_work (queue : List α) {subs : List (Subscriber α)} {sub : Subscriber α} (hsub : sub ∈ subs)
    (hpool : sub.pool ≠ []) :
    ∃ j, pending queue (subs.modify j Subscriber.work) < pending queue subs := by
  suffices h : ∃ j, ((subs.modify j Subscriber.work).map fun sub => sub.pool.length).sum <
      (subs.map fun sub => sub.pool.length).sum by
    obtain ⟨j, hj⟩ := h
    refine ⟨j, ?_⟩
    unfold pending
    rw [List.length_modify]
    exact Nat.add_lt_add_left hj _
  induction hsub with
  | head subs =>
    refine ⟨0, ?_⟩
    obtain ⟨a, pool, hcons⟩ := List.exists_cons_of_ne_nil hpool
    simp [Subscriber.work, hcons]
  | tail other _ ih =>
    obtain ⟨j, hj⟩ := ih
    exact ⟨j + 1, by simpa using hj⟩

end Fanout
