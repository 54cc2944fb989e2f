import OpenHandsSWE.Lib.JsonBraces

/-! Reading the JSON object in a response of a language model, with other text around it. -/

namespace OpenHands

open BracketKind

namespace JsonIo

structure LLMResponseError where
  message : String
deriving DecidableEq

/-- `json.loads` with the arguments of the call, and `repair_json`: the one accepts at least JSON, and the
other keeps its value. -/
structure Libraries (α : Type*) where
  jsonLoads : List Char → Option α
  repairJson : List Char → List Char
  accepts : ∀ text, (Json.loads text).isSome → (jsonLoads text).isSome
  keeps : ∀ text, (Json.loads text).isSome → jsonLoads (repairJson text) = jsonLoads text

/-- The loop over the characters; `response` is the text from `start` on, once there is a start. -/
def firstResponse : ℤ → Option (List Char) → List Char → Option (List Char)
  | _, _, [] => none
  | depth, response, c :: cs =>
    if c = '{' then firstResponse (depth + 1) (if depth = 0 then some ['{'] else response.map (· ++ ['{'])) cs
    else if c = '}' then
      if depth - 1 = 0 ∧ response.isSome then response.map (· ++ ['}'])
      else firstResponse (depth - 1) (response.map (· ++ ['}'])) cs
    else firstResponse depth (response.map (· ++ [c])) cs

def loads {α : Type*} (libs : Libraries α) (jsonStr : List Char) : Except LLMResponseError α :=
  match libs.jsonLoads jsonStr with
  | some value => .ok value
  | none =>
    match firstResponse 0 none jsonStr with
    | none => .error ⟨"No valid JSON object found in response."⟩
    | some response =>
      match libs.jsonLoads (libs.repairJson response) with
      | some value => .ok value
      | none => .error ⟨"Invalid JSON in response. Please make sure the response is a valid JSON object."⟩

/-! ## Groups of braces -/

def depth (text : List Char) : ℤ := text.count '{' - text.count '}'

/-- The first group of braces that opens behind `level` others. -/
def NestedAt (level : ℤ) (text group : List Char) : Prop :=
  ∃ before inner after, text = before ++ (group ++ after) ∧ group = '{' :: (inner ++ ['}']) ∧
    Balanced Json.braceKind inner ∧ depth before = level ∧
    ∀ earlier, earlier ++ ['{'] <+: before → depth earlier ≠ level

section

variable {text group rest response : List Char} {d : ℤ}

theorem depth_cons (c : Char) (text : List Char) :
    depth (c :: text) = (if c = '{' then 1 else if c = '}' then -1 else 0) + depth text := by
  have hne : ¬ '{' = '}' := by decide
  unfold depth
  rw [List.count_cons, List.count_cons]
  simp only [beq_iff_eq]
  push_cast
  split_ifs with h1 h2 h2 <;> first | exact absurd (h1.symm.trans h2) hne | ring

/-- Nothing begins where no brace opens at depth 0. -/
theorem firstResponse_skip (hnone : ∀ earlier, earlier ++ ['{'] <+: text → d + depth earlier ≠ 0) (rest : List Char) :
    firstResponse d none (text ++ rest) = firstResponse (d + depth text) none rest := by
  induction text generalizing d with
  | nil => rw [List.nil_append]; simp [depth]
  | cons c text ih =>
    have hlater (e : ℤ) (he : e = (if c = '{' then 1 else if c = '}' then -1 else 0)) :
        firstResponse (d + e) none (text ++ rest) = firstResponse (d + depth (c :: text)) none rest := by
      rw [ih, depth_cons, ← he, add_assoc]
      intro earlier hearlier
      have hdepth := hnone (c :: earlier) ((List.prefix_cons_inj c).mpr hearlier)
      rwa [depth_cons, ← he, ← add_assoc] at hdepth
    rw [List.cons_append, firstResponse]
    by_cases hopen : c = '{'
    · have hd : d ≠ 0 := by
        have hzero := hnone [] (by rw [hopen]; exact List.prefix_append ['{'] text)
        simpa [depth] using hzero
      rw [if_pos hopen, if_neg hd]
      exact hlater 1 (by rw [if_pos hopen])
    · rw [if_neg hopen]
      by_cases hclose : c = '}'
      · rw [if_pos hclose, if_neg (by simp)]
        exact hlater (-1) (by rw [if_neg hopen, if_pos hclose])
      · rw [if_neg hclose]
        have hsame := hlater 0 (by rw [if_neg hopen, if_neg hclose])
        rwa [add_zero] at hsame

theorem neither_iff {c : Char} : Json.braceKind c = .neither ↔ c ≠ '{' ∧ c ≠ '}' := by
  unfold Json.braceKind
  split_ifs <;> simp_all

/-- Within a group balanced text is collected. -/
theorem firstResponse_balanced (h : Balanced Json.braceKind text) (hd : 0 < d) (response rest : List Char) :
    firstResponse d (some response) (text ++ rest) = firstResponse d (some (response ++ text)) rest := by
  induction h generalizing d response rest with
  | nil => rw [List.append_nil, List.nil_append]
  | @neither c text hc _ ih =>
    obtain ⟨hopen, hclose⟩ := neither_iff.mp hc
    rw [List.cons_append, firstResponse, if_neg hopen, if_neg hclose, Option.map_some, ih hd, List.append_assoc]
    rfl
  | @wrap a o u v ha _ ho _ ihu ihv =>
    have ha' : a = '{' := by
      unfold Json.braceKind at ha
      split_ifs at ha with h
      exact h
    have ho' : o = '}' ∧ o ≠ '{' := by
      unfold Json.braceKind at ho
      split_ifs at ho with h1 h2
      exact ⟨h2, h1⟩
    have hdone : ¬ (d + 1 - 1 = 0 ∧ (some (response ++ ['{'] ++ u)).isSome) := by omega
    rw [List.cons_append, List.append_assoc, List.cons_append, firstResponse, if_pos ha', if_neg hd.ne', Option.map_some,
      ihu (by omega), firstResponse, if_neg ho'.2, if_pos ho'.1, if_neg hdone, add_sub_cancel_right, Option.map_some,
      ihv hd, ha', ho'.1]
    simp

theorem firstResponse_group (h : Balanced Json.braceKind text) (rest : List Char) :
    firstResponse 0 none ('{' :: (text ++ '}' :: rest)) = some ('{' :: (text ++ ['}'])) := by
  rw [firstResponse, if_pos rfl, if_pos rfl, firstResponse_balanced h (by omega), firstResponse, if_neg (by decide),
    if_pos rfl, if_pos ⟨rfl, rfl⟩]
  rfl

/-- What the loop finds in balanced text, behind `level` closing braces too many. -/
theorem firstResponse_iff {level : ℤ} (htext : Balanced Json.braceKind text) (hrest : '{' ∉ rest) :
    firstResponse (-level) none (text ++ rest) = some group ↔ NestedAt level text group := by
  have hfound {group : List Char} (h : NestedAt level text group) :
      firstResponse (-level) none (text ++ rest) = some group := by
    obtain ⟨before, inner, after, htext, rfl, hinner, hdepth, hnone⟩ := h
    rw [htext, List.append_assoc, firstResponse_skip, hdepth, neg_add_cancel]
    · have hgroup : ('{' :: (inner ++ ['}']) ++ after) ++ rest = '{' :: (inner ++ '}' :: (after ++ rest)) := by simp
      rw [hgroup]
      exact firstResponse_group hinner _
    · intro earlier hearlier heq
      exact hnone earlier hearlier (by omega)
  refine ⟨fun h => ?_, hfound⟩
  by_cases hsome : ∃ n before, before.length = n ∧ before ++ ['{'] <+: text ∧ depth before = level
  · -- the shortest text before a brace at this level
    classical
    obtain ⟨before, hlength, ⟨after, hafter⟩, hdepth⟩ := Nat.find_spec hsome
    have hsplit : text = before ++ '{' :: after := by simpa using hafter.symm
    obtain ⟨inner, o, tail, htail, ho, hinner⟩ := Balanced.closes (hsplit ▸ htext) rfl
    obtain rfl : o = '}' := by
      unfold Json.braceKind at ho
      split_ifs at ho with h1 h2
      exact h2
    have hnested : NestedAt level text ('{' :: (inner ++ ['}'])) := by
      refine ⟨before, inner, tail, ?_, rfl, hinner, hdepth, ?_⟩
      · rw [hsplit, htail]
        simp
      · intro earlier hearlier heq
        have hlt : earlier.length < Nat.find hsome := by
          have hle := hearlier.length_le
          rw [List.length_append, List.length_singleton] at hle
          omega
        exact Nat.find_min hsome hlt ⟨earlier, rfl, hearlier.trans ⟨'{' :: after, hsplit.symm⟩, heq⟩
    rwa [Option.some.inj (h.symm.trans (hfound hnested))]
  · have hnone : ∀ earlier, earlier ++ ['{'] <+: text ++ rest → -level + depth earlier ≠ 0 := by
      intro earlier hearlier heq
      refine hsome ⟨_, earlier, rfl, ?_, by omega⟩
      obtain ⟨x, hx⟩ := hearlier
      rcases List.append_eq_append_iff.mp hx with ⟨y, hy, -⟩ | ⟨y, hy, hrest'⟩
      · exact ⟨y, hy.symm⟩
      · rcases List.eq_nil_or_concat' y with rfl | ⟨z, c, rfl⟩
        · rw [hy, List.append_nil]
        · rw [← List.append_assoc] at hy
          have hc := List.singleton_injective (List.append_inj_right' hy rfl)
          exact absurd (by rw [hrest', ← hc]; simp) hrest
    have hskip := firstResponse_skip hnone []
    rw [List.append_nil, h, firstResponse] at hskip
    exact absurd hskip (by simp)

end

/-! ## Objects in other text -/

/-- The text of a JSON object without braces in its strings. -/
structure ObjectText where
  body : List Char
  valid : (Json.loads ('{' :: (body ++ ['}']))).isSome
  braceless : Json.bracelessStrings .outside ('{' :: (body ++ ['}'])) = true

def ObjectText.text (object : ObjectText) : List Char := '{' :: (object.body ++ ['}'])

/-- The object is read out of the text around it. -/
def FindsObject {α : Type*} (libs : Libraries α) (object : ObjectText) (before after : List Char) : Prop :=
  ∃ value, libs.jsonLoads object.text = some value ∧ loads libs (before ++ (object.text ++ after)) = .ok value

section

variable {α : Type*} (libs : Libraries α) (object : ObjectText) {before after : List Char}

theorem ObjectText.body_balanced : Balanced Json.braceKind object.body := by
  obtain ⟨value, hvalue⟩ := Option.isSome_iff_exists.mp object.valid
  exact Json.loads_group hvalue object.braceless

theorem ObjectText.nestedAt : NestedAt 0 object.text object.text :=
  ⟨[], object.body, [], by simp, rfl, object.body_balanced, rfl, fun earlier h => absurd h (by simp)⟩

theorem firstResponse_around (hbefore : '{' ∉ before) (hafter : '{' ∉ after) {group : List Char} :
    firstResponse 0 none (before ++ (object.text ++ after)) = some group ↔
      NestedAt (before.count '}') object.text group := by
  have htext : Balanced Json.braceKind object.text := .wrap rfl object.body_balanced rfl .nil
  have hdepth : 0 + depth before = -(before.count '}' : ℤ) := by
    rw [depth, List.count_eq_zero.mpr hbefore]
    simp
  rw [firstResponse_skip, hdepth, firstResponse_iff htext hafter]
  intro earlier hearlier
  exact absurd (hearlier.subset (by simp)) hbefore

/-- An object is read out of the text around it exactly when the whole is no other JSON, and no closing brace
comes before it; or the group of braces found in their place has its value. -/
theorem findsObject_iff (hbefore : '{' ∉ before) (hafter : '{' ∉ after) : FindsObject libs object before after ↔
    libs.jsonLoads (before ++ (object.text ++ after)) = libs.jsonLoads object.text ∨
      libs.jsonLoads (before ++ (object.text ++ after)) = none ∧ ('}' ∉ before ∨
        ∃ group, NestedAt (before.count '}') object.text group ∧
          libs.jsonLoads (libs.repairJson group) = libs.jsonLoads object.text) := by
  obtain ⟨value, hvalue⟩ := Option.isSome_iff_exists.mp (libs.accepts object.text object.valid)
  have hfound : FindsObject libs object before after ↔ loads libs (before ++ (object.text ++ after)) = .ok value := by
    unfold FindsObject
    simp only [hvalue, Option.some.injEq, exists_eq_left']
  rw [hfound, hvalue]
  cases hwhole : libs.jsonLoads (before ++ (object.text ++ after)) with
  | some other =>
    rw [loads, hwhole]
    simp
  | none =>
    have hgroup : loads libs (before ++ (object.text ++ after)) = .ok value ↔
        ∃ group, NestedAt (before.count '}') object.text group ∧ libs.jsonLoads (libs.repairJson group) = some value := by
      simp only [← firstResponse_around object hbefore hafter]
      rw [loads, hwhole]
      dsimp only
      cases firstResponse 0 none (before ++ (object.text ++ after)) with
      | none => simp
      | some response =>
        dsimp only
        cases hresponse : libs.jsonLoads (libs.repairJson response) with
        | none => simp [hresponse]
        | some other => simp [hresponse]
    rw [hgroup]
    constructor
    · intro h
      exact .inr ⟨rfl, .inr h⟩
    · rintro (h | ⟨-, hclosed | h⟩)
      · exact absurd h (by simp)
      · refine ⟨object.text, ?_, ?_⟩
        · rw [List.count_eq_zero.mpr hclosed]
          exact object.nestedAt
        · rw [libs.keeps object.text object.valid, hvalue]
      · exact h

end

/-- JSON itself, where there is nothing to repair. -/
def plainLibraries : Libraries Json := ⟨Json.loads, id, fun _ h => h, fun _ _ => rfl⟩

def emptyObject : ObjectText := ⟨[], by decide, by decide⟩

theorem findsObject_iff_empty : FindsObject plainLibraries emptyObject ['a'] ['b', '}'] ↔
    Json.loads ['a', '{', '}', 'b', '}'] = Json.loads ['{', '}'] ∨ Json.loads ['a', '{', '}', 'b', '}'] = none ∧
      ('}' ∉ ['a'] ∨ ∃ group, NestedAt (['a'].count '}') ['{', '}'] group ∧ Json.loads group = Json.loads ['{', '}']) :=
  findsObject_iff plainLibraries emptyObject (by decide) (by decide)

/-- An object behind a closing brace. -/
theorem object_missed : ¬ ∀ (libs : Libraries Json) (object : ObjectText) (before after : List Char), '{' ∉ before →
    '{' ∉ after → FindsObject libs object before after := by
  intro h
  obtain ⟨value, -, hloads⟩ := h plainLibraries emptyObject ['}'] [] (by decide) (by decide)
  have herror : loads plainLibraries (['}'] ++ (emptyObject.text ++ [])) =
      .error ⟨"No valid JSON object found in response."⟩ := rfl
  rw [herror] at hloads
  cases hloads

end JsonIo

end OpenHands
