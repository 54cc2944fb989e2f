import Mathlib.Data.List.Infix

/-! Runs of a system that takes one step after the other: what every step does, as long as every
step before it did what it should. -/

namespace Runs

variable {σ ι : Type*} (step : σ → ι → σ) (start : σ)

/-- Every step of the run, with the state it is taken in. -/
def EachStep (P : σ → ι → Prop) (steps : List ι) : Prop :=
  ∀ before i, before ++ [i] <+: steps → P (before.foldl step start) i

variable {step start} {P Q : σ → ι → Prop}

theorem eachStep_nil : EachStep step start P [] := by
  intro before i hbegins
  simp at hbegins

theorem eachStep_concat {steps : List ι} {i : ι} :
    EachStep step start P (steps ++ [i]) ↔ EachStep step start P steps ∧ P (steps.foldl step start) i := by
  constructor
  · intro h
    exact ⟨fun before j hbegins => h before j (hbegins.trans (List.prefix_append steps [i])),
      h steps i List.prefix_rfl⟩
  · rintro ⟨hsteps, hlast⟩ before j hbegins
    rcases List.prefix_concat_iff.mp hbegins with heq | hbegins
    · obtain ⟨rfl, hj⟩ := List.append_inj' heq rfl
      rw [List.singleton_inj.mp hj]
      exact hlast
    · exact hsteps before j hbegins

theorem eachStep_cons {i : ι} {steps : List ι} :
    EachStep step start P (i :: steps) ↔ P start i ∧ EachStep step (step start i) P steps := by
  constructor
  · intro h
    refine ⟨h [] i (List.prefix_append [i] steps), fun before j hbegins => ?_⟩
    exact h (i :: before) j ((List.prefix_cons_inj i).mpr hbegins)
  · rintro ⟨hfirst, hrest⟩ before j hbegins
    cases before with
    | nil =>
      obtain ⟨rfl, -⟩ := List.cons_prefix_cons.mp hbegins
      exact hfirst
    | cons k before =>
      obtain ⟨rfl, hlater⟩ := List.cons_prefix_cons.mp hbegins
      exact hrest before j hlater

theorem eachStep_append {steps later : List ι} : EachStep step start P (steps ++ later) ↔
    EachStep step start P steps ∧ EachStep step (steps.foldl step start) P later := by
  induction steps generalizing start with
  | nil => exact (and_iff_right eachStep_nil).symm
  | cons i steps ih => rw [List.cons_append, eachStep_cons, ih, eachStep_cons, List.foldl_cons, and_assoc]

instance decidableEachStep [∀ s i, Decidable (P s i)] : ∀ (start : σ) (steps : List ι), Decidable (EachStep step start P steps)
  | _, [] => isTrue eachStep_nil
  | start, i :: steps =>
    have : Decidable (EachStep step (step start i) P steps) := decidableEachStep (step start i) steps
    decidable_of_iff' _ eachStep_cons

/-- An invariant that the good steps keep holds after a run of good steps. -/
theorem EachStep.invariant {I : σ → Prop} (hstart : I start) (hstep : ∀ s i, I s → P s i → I (step s i))
    {steps : List ι} (h : EachStep step start P steps) : I (steps.foldl step start) := by
  induction steps using List.reverseRecOn with
  | nil => exact hstart
  | append_singleton steps i ih =>
    obtain ⟨hsteps, hlast⟩ := eachStep_concat.mp h
    rw [List.foldl_append]
    exact hstep _ i (ih hsteps) hlast

/-- What good steps do under an invariant that they keep, every step of a run of good steps does. -/
theorem EachStep.imp_of_invariant {I : σ → Prop} (hstart : I start) (hstep : ∀ s i, I s → P s i → I (step s i))
    (himp : ∀ s i, I s → P s i → Q s i) {steps : List ι} (h : EachStep step start P steps) :
    EachStep step start Q steps := by
  intro before i hbegins
  have hbefore : EachStep step start P before := fun earlier j hj =>
    h earlier j (hj.trans ((List.prefix_append before [i]).trans hbegins))
  exact himp _ i (hbefore.invariant hstart hstep) (h before i hbegins)

/-- Two properties of steps that say the same under an invariant, which both keep, say the same of runs. -/
theorem eachStep_iff {I : σ → Prop} (hstart : I start) (hstep : ∀ s i, I s → P s i → I (step s i))
    (hiff : ∀ s i, I s → (P s i ↔ Q s i)) (steps : List ι) :
    EachStep step start P steps ↔ EachStep step start Q steps := by
  induction steps using List.reverseRecOn with
  | nil => exact iff_of_true eachStep_nil eachStep_nil
  | append_singleton steps i ih =>
    rw [eachStep_concat, eachStep_concat, ← ih]
    exact and_congr_right fun hsteps => hiff _ i (hsteps.invariant hstart hstep)

end Runs
