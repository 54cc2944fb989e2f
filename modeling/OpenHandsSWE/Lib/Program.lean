import Mathlib.Logic.Relation

/-! Programs over a state that may raise, where what was done to the state before stays done; and
what a run can do to a part of the state, as a chain of single effects. -/

abbrev Program (ε σ α : Type) := ExceptT ε (StateM σ) α

namespace Program

section Runs

variable {ε σ α β : Type}

def result (m : Program ε σ α) (s : σ) : Except ε α := (m.run.run s).1

/-- The state in which a run ends, whether it returned or raised. -/
def after (m : Program ε σ α) (s : σ) : σ := (m.run.run s).2

theorem run_get_bind (k : σ → Program ε σ α) (s : σ) : (get >>= k).run.run s = (k s).run.run s := rfl

theorem after_bind (m : Program ε σ α) (k : α → Program ε σ β) (s : σ) :
    after (m >>= k) s =
      match result m s with
      | .ok a => after (k a) (after m s)
      | .error _ => after m s := by
  have h : (m >>= k).run.run s =
      match m.run.run s with
      | (.ok a, s') => (k a).run.run s'
      | (.error e, s') => (.error e, s') := by
    rw [ExceptT.run_bind, StateT.run_bind]
    show (match (m.run.run s).1 with
        | .ok a => (k a).run
        | .error e => pure (.error e) : StateM σ (Except ε β)).run (m.run.run s).2 = _
    rcases m.run.run s with ⟨_ | _, _⟩ <;> rfl
  unfold after result
  rw [h]
  rcases m.run.run s with ⟨_ | _, _⟩ <;> rfl

theorem result_bind (m : Program ε σ α) (k : α → Program ε σ β) (s : σ) :
    result (m >>= k) s =
      match result m s with
      | .ok a => result (k a) (after m s)
      | .error e => .error e := by
  unfold after result
  rw [ExceptT.run_bind, StateT.run_bind]
  show ((match (m.run.run s).1 with
      | .ok a => (k a).run
      | .error e => pure (.error e) : StateM σ (Except ε β)).run (m.run.run s).2).1 = _
  rcases m.run.run s with ⟨_ | _, _⟩ <;> rfl

theorem after_tryCatch (m : Program ε σ α) (handle : ε → Program ε σ α) (s : σ) :
    after (tryCatch m handle) s =
      match result m s with
      | .ok _ => after m s
      | .error e => after (handle e) (after m s) := by
  have h : (tryCatch m handle).run.run s =
      match m.run.run s with
      | (.ok a, s') => (.ok a, s')
      | (.error e, s') => (handle e).run.run s' := by
    show (m.run >>= fun r => _ : StateM σ (Except ε α)).run s = _
    rw [StateT.run_bind]
    show (match (m.run.run s).1 with
        | .ok a => pure (.ok a)
        | .error e => (handle e).run : StateM σ (Except ε α)).run (m.run.run s).2 = _
    rcases m.run.run s with ⟨_ | _, _⟩ <;> rfl
  unfold after result
  rw [h]
  rcases m.run.run s with ⟨_ | _, _⟩ <;> rfl

theorem result_tryCatch (m : Program ε σ α) (handle : ε → Program ε σ α) (s : σ) :
    result (tryCatch m handle) s =
      match result m s with
      | .ok a => .ok a
      | .error e => result (handle e) (after m s) := by
  unfold after result
  show ((m.run >>= fun r => _ : StateM σ (Except ε α)).run s).1 = _
  rw [StateT.run_bind]
  show ((match (m.run.run s).1 with
      | .ok a => pure (.ok a)
      | .error e => (handle e).run : StateM σ (Except ε α)).run (m.run.run s).2).1 = _
  rcases m.run.run s with ⟨_ | _, _⟩ <;> rfl

/-- A program on a part of the state. -/
def zoom {τ : Type} (view : σ → τ) (put : τ → σ → σ) (m : Program ε τ α) : Program ε σ α :=
  ExceptT.mk (modifyGet fun s => (result m (view s), put (after m (view s)) s))

end Runs

/-! ## What a run leaves -/

section Keeping

variable {ε σ τ α β : Type} {view : σ → τ} {s : σ}

/-- A run from the state leaves the part in view as it is. -/
def Keeps (view : σ → τ) (m : Program ε σ α) (s : σ) : Prop := view (after m s) = view s

theorem Keeps.bind {m : Program ε σ α} {k : α → Program ε σ β} (hm : Keeps view m s)
    (hk : ∀ a, result m s = .ok a → Keeps view (k a) (after m s)) : Keeps view (m >>= k) s := by
  unfold Keeps at *
  rw [after_bind]
  split
  next a ha => exact (hk a ha).trans hm
  · exact hm

end Keeping

/-! ## Chains of effects -/

section Effects

variable {ε σ τ α β : Type} {view : σ → τ} {effect : τ → τ → Prop}

/-- What a run from the state does to the part in view is a chain of effects, whatever its outcome. -/
def Leads (view : σ → τ) (effect : τ → τ → Prop) (m : Program ε σ α) (s : σ) : Prop :=
  Relation.ReflTransGen effect (view s) (view (after m s))

namespace Leads

variable {m : Program ε σ α} {k : α → Program ε σ β} {s : σ}

theorem unseen (h : view (after m s) = view s) : Leads view effect m s := by
  unfold Leads
  rw [h]

theorem single (h : effect (view s) (view (after m s))) : Leads view effect m s :=
  Relation.ReflTransGen.single h

theorem pure (a : α) (s : σ) : Leads view effect (Pure.pure a : Program ε σ α) s := unseen rfl

theorem throw (e : ε) (s : σ) : Leads view effect (MonadExcept.throw e : Program ε σ α) s := unseen rfl

theorem bind (hm : Leads view effect m s)
    (hk : ∀ a, result m s = .ok a → Leads view effect (k a) (after m s)) :
    Leads view effect (m >>= k) s := by
  unfold Leads
  rw [after_bind]
  split
  next a ha => exact Relation.ReflTransGen.trans hm (hk a ha)
  · exact hm

theorem catch' {handle : ε → Program ε σ α} (hm : Leads view effect m s)
    (hhandle : ∀ e, result m s = .error e → Leads view effect (handle e) (after m s)) :
    Leads view effect (tryCatch m handle) s := by
  unfold Leads
  rw [after_tryCatch]
  split
  · exact hm
  next e he => exact Relation.ReflTransGen.trans hm (hhandle e he)

/-- What every effect preserves, a run preserves. -/
theorem keeps {P : τ → Prop} (hP : ∀ t t', effect t t' → P t → P t') (hm : Leads view effect m s)
    (h : P (view s)) : P (view (after m s)) := by
  have hchain : ∀ {t t'}, Relation.ReflTransGen effect t t' → P t → P t' := by
    intro t t' hchain ht
    induction hchain with
    | refl => exact ht
    | tail _ hlast ih => exact hP _ _ hlast ih
  exact hchain hm h

end Leads

end Effects

end Program
