import OpenHandsSWE.Lib.Lines

/-! The lines of a text as `str.splitlines` counts them: many characters end a line there. -/

namespace Text

def isLineEnd (c : Char) : Bool := c.toNat ∈ [10, 11, 12, 13, 28, 29, 30, 133, 8232, 8233]

theorem isSpace_of_isLineEnd {c : Char} (h : isLineEnd c = true) : isSpace c = true := by
  simp only [isLineEnd, isSpace, decide_eq_true_eq, Bool.or_eq_true, List.mem_cons, List.not_mem_nil, or_false] at h ⊢
  omega

/-- `cs.splitlines(True)`. -/
def splitlines : List Char → List (List Char)
  | [] => []
  | '\r' :: '\n' :: cs => ['\r', '\n'] :: splitlines cs
  | c :: cs => if isLineEnd c then [c] :: splitlines cs else consHead c (splitlines cs)

/-- `cs.splitlines()`. -/
def barelines (cs : List Char) : List (List Char) := (splitlines cs).map fun line => line.filter fun c => !isLineEnd c

theorem length_consHead {α : Type*} (c : α) (ps : List (List α)) : (consHead c ps).length = max 1 ps.length := by
  cases ps with
  | nil => rfl
  | cons p ps =>
    rw [consHead, List.length_cons, List.length_cons]
    omega

/-- Every line that a newline ends is one of these lines, or several. -/
theorem length_keepLines_le (cs : List Char) : (keepLines '\n' cs).length ≤ (splitlines cs).length := by
  fun_induction splitlines cs with
  | case1 => exact le_rfl
  | case2 cs ih =>
    have hkeep : keepLines '\n' ('\r' :: '\n' :: cs) = ['\r', '\n'] :: keepLines '\n' cs := rfl
    rw [hkeep, List.length_cons, List.length_cons]
    omega
  | case3 c cs _ _ ih =>
    rw [keepLines, List.length_cons]
    split_ifs
    · rw [List.length_cons]
      omega
    · rw [length_consHead]
      omega
  | case4 c cs _ hend ih =>
    have hne : c ≠ '\n' := by
      rintro rfl
      exact hend (by decide)
    rw [keepLines, if_neg hne, length_consHead, length_consHead]
    omega

/-- The bare lines have all the letters that end none. -/
theorem sum_length_barelines (cs : List Char) :
    ((barelines cs).map List.length).sum = cs.countP fun c => !isLineEnd c := by
  have hflatten (cs : List Char) : (splitlines cs).flatten = cs := by
    fun_induction splitlines cs with
    | case1 => rfl
    | case2 cs ih => exact congrArg (fun cs => '\r' :: '\n' :: cs) ih
    | case3 c cs _ _ ih => exact congrArg (c :: ·) ih
    | case4 c cs _ _ ih =>
      have hcons (ps : List (List Char)) : (consHead c ps).flatten = c :: ps.flatten := by cases ps <;> rfl
      rw [hcons, ih]
  have hlength : List.length ∘ (fun line : List Char => line.filter fun c => !isLineEnd c) =
      List.countP fun c => !isLineEnd c := funext fun line => List.countP_eq_length_filter.symm
  rw [barelines, List.map_map, hlength, ← List.countP_flatten, hflatten]

/-- A line without ends, before a newline. -/
theorem barelines_append {p : List Char} (hp : ∀ c ∈ p, isLineEnd c = false) (cs : List Char) :
    barelines (p ++ '\n' :: cs) = p :: barelines cs := by
  have hsplit : splitlines (p ++ '\n' :: cs) = (p ++ ['\n']) :: splitlines cs := by
    induction p with
    | nil => rfl
    | cons c p ih =>
      rw [List.forall_mem_cons] at hp
      have hreturn : c ≠ '\r' := fun h => absurd (h ▸ hp.1) (by decide)
      rw [List.cons_append, splitlines.eq_3 c _ fun _ h => absurd h hreturn, if_neg (by simp [hp.1]), ih hp.2]
      rfl
  have hfilter : p.filter (fun c => !isLineEnd c) = p := List.filter_eq_self.mpr fun c hc => by simp [hp c hc]
  rw [barelines, hsplit, List.map_cons, List.filter_append, hfilter]
  exact congrArg (· :: barelines cs) (List.append_nil p)

/-- The same before a carriage return and a newline. -/
theorem barelines_append_return {p : List Char} (hp : ∀ c ∈ p, isLineEnd c = false) (cs : List Char) :
    barelines (p ++ '\r' :: '\n' :: cs) = p :: barelines cs := by
  have hsplit : splitlines (p ++ '\r' :: '\n' :: cs) = (p ++ ['\r', '\n']) :: splitlines cs := by
    induction p with
    | nil => rfl
    | cons c p ih =>
      rw [List.forall_mem_cons] at hp
      have hreturn : c ≠ '\r' := fun h => absurd (h ▸ hp.1) (by decide)
      rw [List.cons_append, splitlines.eq_3 c _ fun _ h => absurd h hreturn, if_neg (by simp [hp.1]), ih hp.2]
      rfl
  have hfilter : p.filter (fun c => !isLineEnd c) = p := List.filter_eq_self.mpr fun c hc => by simp [hp c hc]
  rw [barelines, hsplit, List.map_cons, List.filter_append, hfilter]
  exact congrArg (· :: barelines cs) (List.append_nil p)

theorem barelines_of_clean {p : List Char} (hp : ∀ c ∈ p, isLineEnd c = false) : barelines p = lastLine p := by
  induction p with
  | nil => rfl
  | cons c p ih =>
    rw [List.forall_mem_cons] at hp
    have hreturn : c ≠ '\r' := fun h => absurd (h ▸ hp.1) (by decide)
    rw [barelines, splitlines.eq_3 c _ fun _ h => absurd h hreturn, if_neg (by simp [hp.1])]
    have hrest := ih hp.2
    cases hp' : splitlines p with
    | nil =>
      rw [barelines, hp'] at hrest
      cases p with
      | nil => simp [consHead, lastLine, hp.1]
      | cons d p => exact absurd hrest (by simp [lastLine])
    | cons q qs =>
      rw [barelines, hp', List.map_cons] at hrest
      cases p with
      | nil => exact absurd hrest (by simp [lastLine])
      | cons d p =>
        obtain ⟨hq, hqs⟩ := List.cons.inj hrest
        rw [consHead, List.map_cons, List.filter_cons_of_pos (by simp [hp.1]), hq, hqs]
        rfl

theorem barelines_ended {ps : List (List Char)} {r : List Char} (hps : ∀ p ∈ ps, ∀ c ∈ p, isLineEnd c = false)
    (hr : ∀ c ∈ r, isLineEnd c = false) : barelines (ended '\n' ps ++ r) = ps ++ lastLine r := by
  induction ps with
  | nil => exact barelines_of_clean hr
  | cons p ps ih =>
    rw [List.forall_mem_cons] at hps
    rw [ended_cons, List.append_assoc, List.cons_append, barelines_append hps.1, ih hps.2, List.cons_append]

theorem length_keepLines_pos {cs : List Char} (h : cs ≠ []) : 0 < (keepLines '\n' cs).length := by
  cases cs with
  | nil => exact absurd rfl h
  | cons c cs =>
    rw [keepLines]
    split_ifs
    · exact Nat.succ_pos _
    · rw [length_consHead]
      omega

end Text
