import OpenHandsSWE.Lib.Blanks
import OpenHandsSWE.Lib.JsonCodec
import OpenHandsSWE.Lib.JsonRoundTrip
import OpenHandsSWE.Lib.Scan

/-! A tool call written as text for a model without tool calls, and read back from it. -/

namespace OpenHands.FnCallConverter
open Text

/-! ## The tools -/

/-- The schema of a parameter. -/
structure Property where
  type : Option String := none
  enum : Option (List Json) := none

structure Parameters where
  properties : List (String × Property) := []
  required : List String := []

structure Function where
  name : String
  parameters : Option Parameters := none

/-- The arguments are JSON text. -/
structure ToolCall where
  id : String
  name : String
  arguments : List Char

structure AssistantMessage where
  content : List Char
  toolCalls : List ToolCall

/-- What the conversions raise; the texts of the messages are left out. -/
inductive FnCallError where
  | badArguments (arguments : List Char)
  | functionNotFound (name : String)
  | notAllowed (param fn : String)
  | notInteger (param : String)
  | notArray (param : String)
  | notInEnum (param : String)
  | missingParams (params : List String) (fn : String)
  | keyError (key : String)
deriving DecidableEq

/-! ## Writing -/

def functionMark : List Char := "<function=".toList

def functionEnd : List Char := "</function>".toList

def parameterMark : List Char := "<parameter=".toList

def parameterEnd : List Char := "</parameter>".toList

def isMultiline : Json → Bool
  | .str s => s.toList.contains '\n'
  | _ => false

/-- A value in an f-string, but lists and dictionaries as JSON. -/
def valueText : Json → List Char
  | .str s => s.toList
  | .null => "None".toList
  | .bool b => if b then "True".toList else "False".toList
  | v => v.dumps

def paramValue (v : Json) : List Char :=
  if isMultiline v then '\n' :: (valueText v ++ ['\n']) else valueText v

def paramText (name : String) (v : Json) : List Char :=
  parameterMark ++ (name.toList ++ '>' :: (paramValue v ++ (parameterEnd ++ ['\n'])))

def convertToolCallToString (call : ToolCall) : Except FnCallError (List Char) :=
  match Json.loads call.arguments with
  | some (.obj args) =>
    .ok (functionMark ++ (call.name.toList ++ '>' :: '\n' :: (args.flatMap (fun kv => paramText kv.1 kv.2) ++ functionEnd)))
  | _ => .error (.badArguments call.arguments)

/-- The content of the assistant message in text. -/
def toText (content : List Char) (call : ToolCall) : Except FnCallError (List Char) :=
  (convertToolCallToString call).map fun text => lstrip (content ++ ('\n' :: '\n' :: text))

/-! ## Reading -/

def fixStopword (content : List Char) : List Char :=
  if (split functionMark content).length = 2 then
    if "</".toList <:+ content then rstrip content ++ "function>".toList else content ++ '\n' :: functionEnd
  else content

def matchFunction (cs : List Char) : Option (List Char × List Char) :=
  if functionMark <+: cs then
    let rest := cs.drop functionMark.length
    let name := rest.takeWhile (· != '>')
    match rest.dropWhile (· != '>') with
    | '>' :: '\n' :: after => if name = [] then none else (upTo functionEnd after).map (name, ·)
    | _ => none
  else none

def matchParameter (cs : List Char) : Option ((List Char × List Char) × Nat) :=
  if parameterMark <+: cs then
    let rest := cs.drop parameterMark.length
    let name := rest.takeWhile (· != '>')
    match rest.dropWhile (· != '>') with
    | '>' :: after =>
      if name = [] then none
      else (upTo parameterEnd after).map fun value =>
        ((name, value), parameterMark.length + name.length + value.length + parameterEnd.length)
    | _ => none
  else none

def isWord (c : Char) : Bool := c.isAlphanum || c == '_'

/-- `<parameter=name=value</parameter>`. -/
def matchMalformed (cs : List Char) : Option (List Char × Nat) :=
  if parameterMark <+: cs then
    let rest := cs.drop parameterMark.length
    let name := rest.takeWhile isWord
    match rest.dropWhile isWord with
    | '=' :: after =>
      let value := after.takeWhile (· != '<')
      if name ≠ [] ∧ parameterEnd <+: after.dropWhile (· != '<') then
        some (parameterMark ++ (name ++ '>' :: (value ++ parameterEnd)),
          parameterMark.length + name.length + value.length + parameterEnd.length)
      else none
    | _ => none
  else none

def normalizeParameterTags (body : List Char) : List Char := sub matchMalformed 0 body

def convertText (type name : String) (text : List Char) : Except FnCallError Json :=
  match type with
  | "integer" => (parseInt text).elim (.error (.notInteger name)) fun n => .ok (.int n)
  | "array" => (Json.loads text).elim (.error (.notArray name)) .ok
  | _ => .ok (.str (String.ofList text))

def convertParam (f : Function) (name : String) (text : List Char) : Except FnCallError Json :=
  let properties := (f.parameters.map Parameters.properties).getD []
  if properties ≠ [] ∧ Assoc.get? name properties = none then .error (.notAllowed name f.name)
  else
    match Assoc.get? name properties with
    | none => .error (.keyError name)
    | some p => do
      let value ← convertText (p.type.getD "string") name text
      match p.enum with
      | some allowed => if value ∈ allowed then .ok value else .error (.notInEnum name)
      | none => .ok value

/-- The parameters that are read, in their order. -/
def readParams (f : Function) (found : List (List Char × List Char)) (params : List (String × Json)) :
    Except FnCallError (List (String × Json)) :=
  found.foldlM (fun params nv => do
    let value ← convertParam f (String.ofList nv.1) nv.2
    pure (Assoc.set (String.ofList nv.1) value params)) params

def extractAndValidateParams (f : Function) (found : List (List Char × List Char)) :
    Except FnCallError (List (String × Json)) := do
  let params ← readParams f found []
  let missing := ((f.parameters.map Parameters.required).getD []).filter fun k => k ∉ params.map Prod.fst
  if missing = [] then .ok params else .error (.missingParams missing f.name)

def toolCallId (counter : Nat) : String :=
  if counter < 10 then "toolu_0" ++ toString counter else "toolu_" ++ toString counter

def fromText (tools : List Function) (counter : Nat) (content : List Char) : Except FnCallError AssistantMessage :=
  let content := fixStopword content
  match search matchFunction content with
  | none => .ok ⟨content, []⟩
  | some (name, body) =>
    match tools.find? fun f => f.name == String.ofList name with
    | none => .error (.functionNotFound (String.ofList name))
    | some f => do
      let params ← extractAndValidateParams f (findIter matchParameter 0 (normalizeParameterTags body))
      .ok ⟨strip ((split functionMark content).headD []),
        [⟨toolCallId counter, String.ofList name, (Json.obj params).dumps⟩]⟩

/-! ## What is asked of it -/

def Clean (marks : List (List Char)) (text : List Char) : Prop := ∀ mark ∈ marks, ¬ mark <:+: text

instance (marks : List (List Char)) (text : List Char) : Decidable (Clean marks text) :=
  inferInstanceAs (Decidable (∀ mark ∈ marks, ¬ mark <:+: text))

/-- A value of the type of its parameter; texts have none of the marks. -/
def Typed (type : String) (v : Json) : Prop :=
  match type with
  | "integer" => ∃ n, v = .int n
  | "array" => ∃ xs, v = .arr xs
  | _ => ∃ s : String, v = .str s ∧ Clean [functionMark, parameterMark, parameterEnd, functionEnd] s.toList

/-- A call that its tool allows. -/
structure Fits (f : Function) (args : List (String × Json)) : Prop where
  declared : ∀ kv ∈ args, ∃ p, Assoc.get? kv.1 ((f.parameters.map Parameters.properties).getD []) = some p ∧
    Typed (p.type.getD "string") kv.2 ∧ ∀ allowed ∈ p.enum, kv.2 ∈ allowed
  names : ∀ kv ∈ args, '>' ∉ kv.1.toList
  required : ∀ k ∈ (f.parameters.map Parameters.required).getD [], k ∈ args.map Prod.fst

/-- No mark in what is written for a list, and a name that no tag can be mistaken at. -/
structure Legible (name : String) (v : Json) : Prop where
  unmarked : Clean [parameterEnd, functionEnd] (valueText v)
  nonempty : name ≠ ""
  unended : ¬ "</function".toList <:+ name.toList
  canonical : ∀ s, s <:+ paramText name v → matchMalformed s = none

/-- The call that comes back has the name and the arguments of the one that was written. -/
def RoundTrips (tools : List Function) (counter : Nat) (content : List Char) (call : ToolCall)
    (args : List (String × Json)) : Prop :=
  ∃ text message arguments, toText content call = .ok text ∧ fromText tools counter text = .ok message ∧
    message.toolCalls = [⟨toolCallId counter, call.name, arguments⟩] ∧ Json.loads arguments = some (.obj args)

/-! ## Each pattern on what is written -/

section
variable {name value body : List Char}

theorem takeWhile_stop {p : Char → Bool} {us : List Char} (vs : List Char) {c : Char} (hus : ∀ u ∈ us, p u = true) (hc : p c = false) :
    (us ++ c :: vs).takeWhile p = us ∧ (us ++ c :: vs).dropWhile p = c :: vs := by
  rw [List.takeWhile_append_of_pos hus, List.dropWhile_append_of_pos hus]
  simp [hc]

theorem ne_stop (h : '>' ∉ name) : ∀ c ∈ name, (c != '>') = true := fun c hc => bne_iff_ne.mpr fun heq => h (heq ▸ hc)

theorem matchFunction_eq (after : List Char) (hname : name ≠ []) (hstop : '>' ∉ name) (hbody : ¬ functionEnd <:+: body) :
    matchFunction (functionMark ++ (name ++ '>' :: '\n' :: (body ++ (functionEnd ++ after)))) = some (name, body) := by
  obtain ⟨htake, hdrop⟩ := takeWhile_stop ('\n' :: (body ++ (functionEnd ++ after))) (ne_stop hstop) (c := '>') rfl
  have hupTo : upTo functionEnd (body ++ (functionEnd ++ after)) = some body := upTo_first after (by decide) hbody
  rw [matchFunction, if_pos (List.prefix_append _ _), List.drop_left]
  dsimp only
  rw [htake, hdrop]
  refine (if_neg hname).trans ?_
  rw [hupTo]
  rfl

theorem matchParameter_eq (after : List Char) (hname : name ≠ []) (hstop : '>' ∉ name) (hvalue : ¬ parameterEnd <:+: value) :
    matchParameter (parameterMark ++ (name ++ '>' :: (value ++ (parameterEnd ++ after)))) =
      some ((name, value), parameterMark.length + name.length + value.length + parameterEnd.length) := by
  obtain ⟨htake, hdrop⟩ := takeWhile_stop (value ++ (parameterEnd ++ after)) (ne_stop hstop) (c := '>') rfl
  have hupTo : upTo parameterEnd (value ++ (parameterEnd ++ after)) = some value := upTo_first after (by decide) hvalue
  rw [matchParameter, if_pos (List.prefix_append _ _), List.drop_left]
  dsimp only
  rw [htake, hdrop]
  refine (if_neg hname).trans ?_
  rw [hupTo]
  rfl

/-- The tags that are taken for malformed ones. -/
theorem matchMalformed_isSome {cs : List Char} : (matchMalformed cs).isSome = true ↔
    ∃ word value after, cs = parameterMark ++ (word ++ '=' :: (value ++ (parameterEnd ++ after))) ∧ word ≠ [] ∧
      (∀ c ∈ word, isWord c = true) ∧ '<' ∉ value := by
  constructor
  · intro h
    unfold matchMalformed at h
    split at h
    · next hmark =>
      obtain ⟨rest, rfl⟩ := hmark
      rw [List.drop_left] at h
      dsimp only at h
      split at h
      · next tail hdrop =>
        split at h
        · next hword =>
          obtain ⟨hne, after, hend⟩ := hword
          refine ⟨rest.takeWhile isWord, tail.takeWhile (· != '<'), after, ?_, hne, fun c hc => List.mem_takeWhile_imp hc,
            fun hmem => by simpa using List.mem_takeWhile_imp hmem⟩
          rw [hend, List.takeWhile_append_dropWhile, ← hdrop, List.takeWhile_append_dropWhile]
        · exact absurd h Bool.false_ne_true
      · exact absurd h Bool.false_ne_true
    · exact absurd h Bool.false_ne_true
  · rintro ⟨word, value, after, rfl, hne, hword, hvalue⟩
    obtain ⟨htake, hdrop⟩ := takeWhile_stop (value ++ (parameterEnd ++ after)) hword (c := '=') (by decide)
    have hopen : ∀ c ∈ value, (c != '<') = true := fun c hc => bne_iff_ne.mpr fun heq => hvalue (heq ▸ hc)
    obtain ⟨-, hrest⟩ := takeWhile_stop ("/parameter>".toList ++ after) hopen (c := '<') rfl
    rw [matchMalformed, if_pos (List.prefix_append _ _), List.drop_left]
    dsimp only
    rw [htake, hdrop]
    have hend : parameterEnd <+: (value ++ (parameterEnd ++ after)).dropWhile (· != '<') := by
      show parameterEnd <+: (value ++ '<' :: ("/parameter>".toList ++ after)).dropWhile (· != '<')
      rw [hrest]
      exact List.prefix_append parameterEnd after
    exact congrArg Option.isSome (if_pos ⟨hne, hend⟩)

end

/-! ## What is written has no malformed tag -/

section
variable {word value b z : List Char}

theorem parameterMark_eq : parameterMark = '<' :: "parameter=".toList := by decide

theorem parameterEnd_eq : parameterEnd = '<' :: "/parameter>".toList := by decide

/-- Between its two angle brackets a malformed tag has no other. -/
theorem bracket_once (hword : ∀ c ∈ word, isWord c = true) (hvalue : '<' ∉ value) :
    '<' ∉ "parameter=".toList ++ (word ++ '=' :: value) := by
  have hword' : '<' ∉ word := fun h => absurd (hword '<' h) (by decide)
  simp [hword', hvalue]

/-- A malformed tag does not go on after the end of an argument. -/
theorem malformed_ends {a : List Char} (hword : ∀ c ∈ word, isWord c = true) (hvalue : '<' ∉ value)
    (ha : a <:+ z ++ (parameterEnd ++ ['\n'])) (hne : a ≠ [])
    (h : parameterMark ++ (word ++ '=' :: (value ++ parameterEnd)) = a ++ b) : False := by
  have honce := bracket_once hword hvalue
  have htag : parameterMark ++ (word ++ '=' :: (value ++ parameterEnd)) =
      '<' :: ("parameter=".toList ++ (word ++ '=' :: value) ++ '<' :: "/parameter>".toList) := by
    rw [parameterMark_eq, parameterEnd_eq]
    simp only [List.cons_append, List.append_assoc]
  obtain ⟨c, a, rfl⟩ := List.exists_cons_of_ne_nil hne
  rw [htag, List.cons_append] at h
  obtain ⟨rfl, hinner⟩ := List.cons.inj h
  obtain ⟨t, ht⟩ := ha
  rcases List.append_eq_append_iff.mp ht with ⟨a', rfl, ha'⟩ | ⟨b', rfl, hb'⟩
  · -- the argument's own end is in the tag, and a line break after it
    have hrest : ∃ a'', a = a'' ++ '<' :: ("/parameter>".toList ++ ['\n']) ∨
        a = "/parameter>".toList ++ ['\n'] := by
      cases a' with
      | nil => exact ⟨[], .inr (List.cons.inj ha').2⟩
      | cons d a' => exact ⟨a', .inl (List.cons.inj ha').2⟩
    obtain ⟨a'', rfl | rfl⟩ := hrest
    · rw [List.append_assoc a'', List.cons_append] at hinner
      by_cases ha'' : '<' ∈ a''
      · obtain ⟨a₁, a₂, rfl, ha₁⟩ := List.eq_append_cons_of_mem ha''
        rw [List.append_assoc a₁, List.cons_append] at hinner
        have hend := (append_stop_inj honce ha₁ hinner).2
        exact absurd (hend ▸ by simp) (show '<' ∉ "/parameter>".toList by decide)
      · have hend := congrArg List.length (append_stop_inj honce ha'' hinner).2
        simp at hend
    · exact absurd (List.cons.inj hinner).1 (by decide)
  · -- the tag begins in the end of the argument
    cases b' with
    | nil =>
      have hhead := (List.cons.inj hb').2
      rw [← show "/parameter>".toList ++ ['\n'] = a from hhead] at hinner
      exact absurd (List.cons.inj hinner).1 (by decide)
    | cons d b' =>
      have hmem : '<' ∈ "/parameter>".toList ++ ['\n'] := by
        rw [show "/parameter>".toList ++ ['\n'] = b' ++ '<' :: a from (List.cons.inj hb').2]
        simp
      exact absurd hmem (by decide)

theorem canonical_append {x y : List Char} (hx : x = z ++ (parameterEnd ++ ['\n']))
    (hxs : ∀ s, s <:+ x → matchMalformed s = none) (hys : ∀ s, s <:+ y → matchMalformed s = none) :
    ∀ s, s <:+ x ++ y → matchMalformed s = none := by
  rintro s ⟨t, ht⟩
  rcases List.append_eq_append_iff.mp ht with ⟨a, hxa, rfl⟩ | ⟨b, rfl, rfl⟩
  · by_contra hsome
    obtain ⟨word, value, after, hcs, hne, hword, hvalue⟩ := matchMalformed_isSome.mp (Option.isSome_iff_ne_none.mpr hsome)
    have ha : a <:+ x := ⟨t, hxa.symm⟩
    have hcs' : a ++ y = parameterMark ++ (word ++ '=' :: (value ++ parameterEnd)) ++ after := by
      rw [hcs]
      simp
    rcases List.append_eq_append_iff.mp hcs' with ⟨b, htag, -⟩ | ⟨b, hab, -⟩
    · rcases eq_or_ne a [] with rfl | hne'
      · exact hsome (hys y List.suffix_rfl)
      · exact malformed_ends hword hvalue (hx ▸ ha) hne' htag
    · have hmatch : (matchMalformed a).isSome = true :=
        matchMalformed_isSome.mpr ⟨word, value, b, by rw [hab]; simp, hne, hword, hvalue⟩
      rw [hxs a ha] at hmatch
      exact absurd hmatch Bool.false_ne_true
  · exact hys s (List.suffix_append b s)

end

/-! ## Arguments read back -/

section
variable {name : String} {v : Json} {rest : List Char} {f : Function} {args : List (String × Json)}

/-- The line breaks around a text of several lines are no part of a mark. -/
theorem Legible.unmarked_value {m : List Char} (h : Legible name v) (hmem : '<' :: m ∈ [parameterEnd, functionEnd])
    (hm : '\n' ∉ '<' :: m) : ¬ '<' :: m <:+: paramValue v := by
  have hclean := h.unmarked _ hmem
  unfold paramValue
  split
  · intro hwithin
    rcases List.infix_cons_iff.mp hwithin with hprefix | hwithin
    · exact absurd (List.cons_prefix_cons.mp hprefix).1 (by decide)
    · rcases infix_at_letter (List.cons_ne_nil _ _) hm hwithin with hwithin | hnil
      · exact hclean hwithin
      · exact absurd (List.eq_nil_of_infix_nil hnil) (List.cons_ne_nil _ _)
  · exact hclean

theorem paramText_append : paramText name v ++ rest =
    parameterMark ++ (name.toList ++ '>' :: (paramValue v ++ (parameterEnd ++ '\n' :: rest))) := by
  simp [paramText]

theorem unended (h : Legible name v) (hstop : '>' ∉ name.toList) (hrest : ¬ functionEnd <:+: rest) :
    ¬ functionEnd <:+: paramText name v ++ rest := by
  have hend : functionEnd = "</function".toList ++ ['>'] := by decide
  intro hwithin
  rw [paramText_append, ← List.append_assoc, hend] at hwithin
  have hname : '>' ∉ parameterMark ++ name.toList := by
    rw [List.mem_append, not_or]
    exact ⟨by decide, hstop⟩
  rcases infix_at_stop (by decide) hname hwithin with hsuffix | hwithin
  · -- the end would have to be in the name
    obtain ⟨t, ht⟩ := hsuffix
    rcases List.append_eq_append_iff.mp ht with ⟨a, hmark, hword⟩ | ⟨b, -, hb⟩
    · rcases List.eq_nil_or_concat a with rfl | ⟨a, c, rfl⟩
      · exact h.unended ⟨[], hword⟩
      · have hlast := congrArg List.getLast? hmark
        rw [List.concat_eq_append, ← List.append_assoc, List.getLast?_concat] at hlast
        obtain rfl : '=' = c := Option.some.inj hlast
        exact absurd (by rw [hword]; simp) (show '=' ∉ "</function".toList by decide)
    · exact h.unended ⟨b, hb.symm⟩
  · have hfirst : parameterEnd ++ '\n' :: rest = '<' :: ("/parameter>".toList ++ '\n' :: rest) := by
      rw [parameterEnd_eq, List.cons_append]
    rw [← hend, show functionEnd = '<' :: "/function>".toList by decide, hfirst] at hwithin
    rcases infix_at_first (by decide) hwithin with hvalue | hwithin
    · exact h.unmarked_value (by decide) (by decide) hvalue
    · have hstop' : '<' :: ("/parameter>".toList ++ '\n' :: rest) = "</parameter".toList ++ '>' :: '\n' :: rest := rfl
      rw [hstop', show '<' :: "/function>".toList = "</function".toList ++ ['>'] by decide] at hwithin
      rcases infix_at_stop (by decide) (by decide) hwithin with hword | hwithin
      · exact absurd hword (by decide)
      · rcases List.infix_cons_iff.mp hwithin with hprefix | hwithin
        · exact absurd (List.cons_prefix_cons.mp hprefix).1 (by decide)
        · exact hrest (hend ▸ hwithin)

theorem findIter_param (h : Legible name v) (hstop : '>' ∉ name.toList) :
    findIter matchParameter 0 (paramText name v ++ rest) =
      (name.toList, paramValue v) :: findIter matchParameter 0 rest := by
  have hvalue : ¬ parameterEnd <:+: paramValue v := h.unmarked_value (m := "/parameter>".toList) (by decide) (by decide)
  have hne : name.toList ≠ [] := fun heq => h.nonempty (String.toList_eq_nil_iff.mp heq)
  have hmatch := matchParameter_eq ('\n' :: rest) hne hstop hvalue
  have hform : parameterMark ++ (name.toList ++ '>' :: (paramValue v ++ (parameterEnd ++ '\n' :: rest))) =
      '<' :: ("parameter=".toList ++ (name.toList ++ '>' :: (paramValue v ++ parameterEnd)) ++ '\n' :: rest) := by
    rw [parameterMark_eq]
    simp only [List.cons_append, List.append_assoc]
  have hlength : parameterMark.length + name.toList.length + (paramValue v).length + parameterEnd.length =
      ("parameter=".toList ++ (name.toList ++ '>' :: (paramValue v ++ parameterEnd))).length := by
    have hmark : parameterMark.length = "parameter=".toList.length + 1 := by decide
    rw [hmark]
    simp only [List.length_append, List.length_cons]
    omega
  rw [hform, hlength] at hmatch
  rw [paramText_append, hform, findIter_of_match hmatch, findIter_of_none rfl]

theorem body_spec (hlegible : ∀ kv ∈ args, Legible kv.1 kv.2) (hnames : ∀ kv ∈ args, '>' ∉ kv.1.toList) :
    (∀ s, s <:+ args.flatMap (fun kv => paramText kv.1 kv.2) → matchMalformed s = none) ∧
    ¬ functionEnd <:+: args.flatMap (fun kv => paramText kv.1 kv.2) ∧
    findIter matchParameter 0 (args.flatMap fun kv => paramText kv.1 kv.2) =
      args.map fun kv => (kv.1.toList, paramValue kv.2) := by
  induction args with
  | nil =>
    refine ⟨fun s hs => ?_, fun h => absurd (List.eq_nil_of_infix_nil h) (by decide), rfl⟩
    rw [List.suffix_nil.mp hs]
    rfl
  | cons kv args ih =>
    have hkv := hlegible kv List.mem_cons_self
    have hname := hnames kv List.mem_cons_self
    obtain ⟨hcanonical, hunended, hfound⟩ := ih (fun kv hkv => hlegible kv (List.mem_cons_of_mem _ hkv))
      fun kv hkv => hnames kv (List.mem_cons_of_mem _ hkv)
    rw [List.flatMap_cons]
    refine ⟨?_, unended hkv hname hunended, ?_⟩
    · apply canonical_append (z := parameterMark ++ (kv.1.toList ++ '>' :: paramValue kv.2)) ?_ hkv.canonical hcanonical
      simp [paramText]
    · rw [findIter_param hkv hname, hfound, List.map_cons]

theorem convertText_eq {type : String} (h : Typed type v) (hwf : v.WellFormed) :
    convertText type name (valueText v) = .ok v := by
  unfold Typed at h
  split at h
  · obtain ⟨n, rfl⟩ := h
    have hparse : parseInt (Json.dumpsInt n) = some n := by
      unfold Json.dumpsInt
      split
      · next hneg =>
        rw [parseInt_negative]
        exact congrArg some (by omega)
      · next hpos =>
        rw [parseInt_toDigits]
        exact congrArg some (by omega)
    show (parseInt (Json.dumpsInt n)).elim _ _ = _
    rw [hparse]
    rfl
  · obtain ⟨xs, rfl⟩ := h
    show (Json.loads (Json.dumps (.arr xs))).elim _ _ = _
    rw [Json.loads_dumps hwf]
    rfl
  · next hint harray =>
    obtain ⟨s, rfl, -⟩ := h
    unfold convertText
    split
    · exact absurd rfl hint
    · exact absurd rfl harray
    · rw [valueText, String.ofList_toList]

/-- A value as it is read: the line breaks around a text of several lines are taken for part of it. -/
def readBack (v : Json) : Json := if isMultiline v then .str (String.ofList (paramValue v)) else v

theorem readBack_eq_iff : readBack v = v ↔ isMultiline v = false := by
  unfold readBack
  constructor
  · intro h
    by_contra hmultiline
    rw [Bool.not_eq_false] at hmultiline
    rw [if_pos hmultiline] at h
    cases v with
    | str s =>
      have htext := congrArg List.length (congrArg String.toList (Json.str.inj h))
      rw [String.toList_ofList, paramValue, if_pos hmultiline] at htext
      simp [valueText] at htext
      omega
    | _ => exact absurd hmultiline Bool.false_ne_true
  · intro h
    rw [h]
    rfl

theorem convertText_readBack {type : String} (h : Typed type v) (hwf : v.WellFormed) :
    convertText type name (paramValue v) = .ok (readBack v) := by
  cases hmultiline : isMultiline v with
  | false =>
    rw [paramValue, readBack, hmultiline]
    exact convertText_eq h hwf
  | true =>
    rw [readBack, if_pos hmultiline]
    unfold Typed at h
    split at h
    · obtain ⟨n, rfl⟩ := h
      exact absurd hmultiline Bool.false_ne_true
    · obtain ⟨xs, rfl⟩ := h
      exact absurd hmultiline Bool.false_ne_true
    · next hint harray =>
      unfold convertText
      split
      · exact absurd rfl hint
      · exact absurd rfl harray
      · rfl

section
variable {p : Property} (hp : Assoc.get? name ((f.parameters.map Parameters.properties).getD []) = some p)
  (htyped : Typed (p.type.getD "string") v) (hallowed : ∀ allowed ∈ p.enum, v ∈ allowed) (hwf : v.WellFormed)
include hp htyped hwf

theorem convertParam_eq : convertParam f name (paramValue v) =
    match p.enum with
    | some allowed => if readBack v ∈ allowed then Except.ok (readBack v) else .error (FnCallError.notInEnum name)
    | none => .ok (readBack v) := by
  unfold convertParam
  dsimp only
  rw [hp, if_neg (fun h => absurd h.2 (Option.some_ne_none p))]
  dsimp only
  rw [convertText_readBack htyped hwf]
  rfl

/-- A value that is read at all is the one that was written, but for its line breaks. -/
theorem readBack_of_convertParam {w : Json} (h : convertParam f name (paramValue v) = .ok w) : w = readBack v := by
  rw [convertParam_eq hp htyped hwf] at h
  split at h
  · split at h
    · exact (Except.ok.inj h).symm
    · exact absurd h (nomatch ·)
  · exact (Except.ok.inj h).symm

include hallowed

theorem convertParam_of_oneLine (hline : isMultiline v = false) : convertParam f name (paramValue v) = .ok v := by
  rw [convertParam_eq hp htyped hwf, readBack_eq_iff.mpr hline]
  cases henum : p.enum with
  | none => rfl
  | some allowed => exact if_pos (hallowed allowed henum)

end

theorem readParams_cons (kv : String × Json) (found : List (List Char × List Char)) (params : List (String × Json)) :
    readParams f ((kv.1.toList, paramValue kv.2) :: found) params =
      (convertParam f kv.1 (paramValue kv.2)).bind fun value => readParams f found (Assoc.set kv.1 value params) := by
  rw [readParams, List.foldlM_cons, String.ofList_toList]
  cases convertParam f kv.1 (paramValue kv.2) <;> rfl

section
variable (hdeclared : ∀ kv ∈ args, ∃ p, Assoc.get? kv.1 ((f.parameters.map Parameters.properties).getD []) = some p ∧
  Typed (p.type.getD "string") kv.2 ∧ ∀ allowed ∈ p.enum, kv.2 ∈ allowed) (hwf : ∀ kv ∈ args, kv.2.WellFormed)
include hdeclared hwf

theorem readParams_of_oneLine (hline : ∀ kv ∈ args, isMultiline kv.2 = false) (params : List (String × Json))
    (hkeys : ((params ++ args).map Prod.fst).Nodup) :
    readParams f (args.map fun kv => (kv.1.toList, paramValue kv.2)) params = .ok (params ++ args) := by
  induction args generalizing params with
  | nil =>
    rw [List.append_nil]
    rfl
  | cons kv args ih =>
    obtain ⟨p, hp, htyped, hallowed⟩ := hdeclared kv List.mem_cons_self
    have hconvert := convertParam_of_oneLine hp htyped hallowed (hwf kv List.mem_cons_self) (hline kv List.mem_cons_self)
    have hnew : kv.1 ∉ params.map Prod.fst := by
      rw [List.map_append, List.map_cons] at hkeys
      exact fun hmem => (List.nodup_append.mp hkeys).2.2 _ hmem _ List.mem_cons_self rfl
    rw [List.map_cons, readParams_cons, hconvert]
    show readParams f _ (Assoc.set kv.1 kv.2 params) = _
    rw [Assoc.set_of_notMem kv.2 hnew, ih (fun kv hkv => hdeclared kv (List.mem_cons_of_mem _ hkv))
      (fun kv hkv => hwf kv (List.mem_cons_of_mem _ hkv)) (fun kv hkv => hline kv (List.mem_cons_of_mem _ hkv))
      (params ++ [kv]) (by simpa using hkeys)]
    simp

theorem readParams_ok {params result : List (String × Json)}
    (h : readParams f (args.map fun kv => (kv.1.toList, paramValue kv.2)) params = .ok result)
    (hkeys : ((params ++ args).map Prod.fst).Nodup) :
    result = params ++ args.map fun kv => (kv.1, readBack kv.2) := by
  induction args generalizing params with
  | nil =>
    rw [List.map_nil, List.append_nil]
    exact (Except.ok.inj h).symm
  | cons kv args ih =>
    obtain ⟨p, hp, htyped, -⟩ := hdeclared kv List.mem_cons_self
    have hnew : kv.1 ∉ params.map Prod.fst := by
      rw [List.map_append, List.map_cons] at hkeys
      exact fun hmem => (List.nodup_append.mp hkeys).2.2 _ hmem _ List.mem_cons_self rfl
    rw [List.map_cons, readParams_cons] at h
    cases hconvert : convertParam f kv.1 (paramValue kv.2) with
    | error e =>
      rw [hconvert] at h
      exact absurd h (nomatch ·)
    | ok w =>
      obtain rfl := readBack_of_convertParam hp htyped (hwf kv List.mem_cons_self) hconvert
      rw [hconvert] at h
      have hrest := ih (fun kv hkv => hdeclared kv (List.mem_cons_of_mem _ hkv))
        (fun kv hkv => hwf kv (List.mem_cons_of_mem _ hkv)) h
      rw [Assoc.set_of_notMem _ hnew] at hrest
      rw [hrest (by simpa using hkeys), List.map_cons, List.append_assoc, List.singleton_append]

end

/-! ## The message -/

/-- A call that ends with its mark at most gets the mark again. -/
theorem fixStopword_end (cs : List Char) :
    ∃ tail, fixStopword (cs ++ functionEnd) = cs ++ (functionEnd ++ tail) := by
  unfold fixStopword
  split
  · have hend : ¬ "</".toList <:+ cs ++ functionEnd := by
      intro h
      have hword := List.suffix_of_suffix_length_le h (List.suffix_append cs functionEnd) (by decide)
      exact absurd hword (by decide)
    rw [if_neg hend]
    exact ⟨'\n' :: functionEnd, by simp⟩
  · exact ⟨[], by simp⟩

section
variable {tools : List Function} (counter : Nat) {content : List Char} {call : ToolCall}
  (hargs : Json.loads call.arguments = some (.obj args)) (htool : tools.find? (fun f => f.name == call.name) = some f)
  (hfits : Fits f args) (hcontent : ¬ functionMark <:+: content) (hname : call.name ≠ "")
  (hstop : '>' ∉ call.name.toList) (hlegible : ∀ kv ∈ args, Legible kv.1 kv.2)
include hargs htool hfits hcontent hname hstop hlegible

/-- What is read from the text of a call is what its arguments read as. -/
theorem fromText_toText : ∃ text content', toText content call = .ok text ∧ fromText tools counter text =
    (extractAndValidateParams f (args.map fun kv => (kv.1.toList, paramValue kv.2))).bind fun params =>
      .ok ⟨content', [⟨toolCallId counter, call.name, (Json.obj params).dumps⟩]⟩ := by
  obtain ⟨hcanonical, hunended, hfound⟩ := body_spec hlegible hfits.names
  let lead := lstrip (content ++ ['\n', '\n'])
  let inner := call.name.toList ++ '>' :: '\n' :: args.flatMap fun kv => paramText kv.1 kv.2
  have htext : toText content call = .ok (lead ++ functionMark ++ inner ++ functionEnd) := by
    unfold toText convertToolCallToString
    rw [hargs]
    have hstrip := lstrip_append (c := '<') (by decide) (content ++ ['\n', '\n'])
      ("function=".toList ++ inner ++ functionEnd)
    refine congrArg Except.ok (Eq.trans ?_ (hstrip.trans ?_))
    · congr 1
      rw [show functionMark = '<' :: "function=".toList by decide]
      simp [inner]
    · rw [show functionMark = '<' :: "function=".toList by decide]
      simp [lead]
  obtain ⟨tail, hfix⟩ := fixStopword_end (lead ++ functionMark ++ inner)
  have hmatch : search matchFunction (lead ++ functionMark ++ inner ++ (functionEnd ++ tail)) =
      some (call.name.toList, args.flatMap fun kv => paramText kv.1 kv.2) := by
    have hne : call.name.toList ≠ [] := fun h => hname (String.toList_eq_nil_iff.mp h)
    have hhead := matchFunction_eq tail hne hstop hunended
    have hform : lead ++ functionMark ++ inner ++ (functionEnd ++ tail) = lead ++ (functionMark ++ (call.name.toList ++
        '>' :: '\n' :: (args.flatMap (fun kv => paramText kv.1 kv.2) ++ (functionEnd ++ tail)))) := by
      simp [inner]
    rw [hform, search_append]
    · rw [show functionMark = '<' :: "function=".toList by decide] at hhead ⊢
      exact search_of_match hhead
    · -- the text before the call has no mark
      intro u hu hne'
      have hclean : ¬ functionMark <:+: content ++ ['\n', '\n'] := by
        intro h
        rcases infix_at_letter (by decide) (by decide) h with h | h
        · exact hcontent h
        · exact absurd h (by decide)
      have hmark : ¬ functionMark <+: u ++ functionMark ++ (call.name.toList ++
          '>' :: '\n' :: (args.flatMap (fun kv => paramText kv.1 kv.2) ++ (functionEnd ++ tail))) := by
        intro h
        rw [show functionMark = '<' :: "function=".toList by decide, List.append_assoc, List.cons_append] at h
        have hin := (begins_before_first (by decide) hne' h).isInfix
        rw [← show functionMark = '<' :: "function=".toList by decide] at hin
        exact hclean (hin.trans (hu.isInfix.trans (List.dropWhile_suffix _).isInfix))
      rw [← List.append_assoc, matchFunction, if_neg hmark]
  refine ⟨_, strip ((split functionMark (lead ++ functionMark ++ inner ++ (functionEnd ++ tail))).headD []), htext, ?_⟩
  unfold fromText
  dsimp only
  rw [hfix, hmatch]
  dsimp only
  rw [String.ofList_toList, htool]
  dsimp only
  rw [normalizeParameterTags, sub_of_none fun u hu _ => hcanonical u hu, hfound]
  rfl

omit hargs htool hfits hcontent hname hstop hlegible in
theorem extractAndValidateParams_eq {found : List (List Char × List Char)} {params : List (String × Json)}
    (h : readParams f found [] = .ok params) : extractAndValidateParams f found =
      let missing := ((f.parameters.map Parameters.required).getD []).filter fun k => k ∉ params.map Prod.fst
      if missing = [] then .ok params else .error (.missingParams missing f.name) := by
  unfold extractAndValidateParams
  rw [h]
  rfl

omit hargs htool hfits hcontent hname hstop hlegible in
theorem wellFormed_readBack (h : v.WellFormed) : (readBack v).WellFormed := by
  unfold readBack
  split
  · trivial
  · exact h

theorem oneLine_of_roundTrips (hwf : (Json.obj args).WellFormed) (h : RoundTrips tools counter content call args) :
    ∀ kv ∈ args, isMultiline kv.2 = false := by
  obtain ⟨text, content', htext, hread⟩ := fromText_toText counter hargs htool hfits hcontent hname hstop hlegible
  have hvalues : ∀ kv ∈ args, kv.2.WellFormed := (Json.wellFormedMembers_iff args).mp hwf.2
  have hkeys : (([] ++ args).map Prod.fst).Nodup := hwf.1
  obtain ⟨text', message, arguments, htext', hmessage, hcalls, harguments⟩ := h
  rw [htext] at htext'
  obtain rfl := Except.ok.inj htext'
  rw [hread] at hmessage
  cases hparams : readParams f (args.map fun kv => (kv.1.toList, paramValue kv.2)) [] with
  | error e =>
    unfold extractAndValidateParams at hmessage
    rw [hparams] at hmessage
    exact absurd hmessage (nomatch ·)
  | ok params =>
    have hresult := readParams_ok hfits.declared hvalues hparams hkeys
    rw [List.nil_append] at hresult
    rw [extractAndValidateParams_eq hparams] at hmessage
    dsimp only at hmessage
    split at hmessage
    · rw [← Except.ok.inj hmessage] at hcalls
      obtain rfl := congrArg ToolCall.arguments (List.singleton_inj.mp hcalls)
      have hparamsWf : (Json.obj params).WellFormed := by
        rw [hresult]
        refine Json.wellFormed_obj ?_ ?_
        · rw [List.map_map]
          exact hwf.1
        · intro j hj
          obtain ⟨_, hread, rfl⟩ := List.mem_map.mp hj
          obtain ⟨kv, hkv, rfl⟩ := List.mem_map.mp hread
          exact wellFormed_readBack (hvalues kv hkv)
      rw [Json.loads_dumps hparamsWf] at harguments
      have hsame : args.map (fun kv => (kv.1, readBack kv.2)) = args.map id := by
        rw [← hresult, List.map_id]
        exact Json.obj.inj (Option.some.inj harguments)
      exact fun kv hkv => readBack_eq_iff.mp (congrArg Prod.snd (List.map_inj_left.mp hsame kv hkv))
    · exact absurd hmessage (nomatch ·)

theorem roundTrips_of_oneLine (hwf : (Json.obj args).WellFormed) (hline : ∀ kv ∈ args, isMultiline kv.2 = false) :
    RoundTrips tools counter content call args := by
  obtain ⟨text, content', htext, hread⟩ := fromText_toText counter hargs htool hfits hcontent hname hstop hlegible
  have hvalues : ∀ kv ∈ args, kv.2.WellFormed := (Json.wellFormedMembers_iff args).mp hwf.2
  have hkeys : (([] ++ args).map Prod.fst).Nodup := hwf.1
  have hparams := readParams_of_oneLine hfits.declared hvalues hline [] hkeys
  have hmissing : ((f.parameters.map Parameters.required).getD []).filter (fun k => k ∉ args.map Prod.fst) = [] :=
    List.filter_eq_nil_iff.mpr fun k hk => by simpa using hfits.required k hk
  refine ⟨text, ⟨content', [⟨toolCallId counter, call.name, (Json.obj args).dumps⟩]⟩, _, htext, ?_, rfl,
    Json.loads_dumps hwf⟩
  rw [hread, extractAndValidateParams_eq hparams]
  dsimp only
  rw [List.nil_append, if_pos hmissing]
  rfl

/-- A call whose tags are legible comes back exactly when no text of it has several lines. -/
theorem roundTrips_iff (hwf : (Json.obj args).WellFormed) :
    RoundTrips tools counter content call args ↔ ∀ kv ∈ args, isMultiline kv.2 = false :=
  ⟨oneLine_of_roundTrips counter hargs htool hfits hcontent hname hstop hlegible hwf,
    roundTrips_of_oneLine counter hargs htool hfits hcontent hname hstop hlegible hwf⟩

end

end

/-! ## A tool with one text -/

def finish : Function := ⟨"finish", some ⟨[("message", { type := some "string" })], ["message"]⟩⟩

def finishArgs (message : String) : List (String × Json) := [("message", .str message)]

def finishCall (message : String) : ToolCall := ⟨"call_1", "finish", (Json.obj (finishArgs message)).dumps⟩

theorem wellFormed_finishArgs (message : String) : (Json.obj (finishArgs message)).WellFormed :=
  Json.wellFormed_obj (by simp [finishArgs]) fun j hj => by
    rw [List.mem_singleton.mp hj]
    trivial

theorem fits_finish {message : String} (h : Clean [functionMark, parameterMark, parameterEnd, functionEnd] message.toList) :
    Fits finish (finishArgs message) where
  declared kv hkv := by
    rw [List.mem_singleton.mp hkv]
    exact ⟨_, rfl, ⟨message, rfl, h⟩, nofun⟩
  names kv hkv := by
    rw [List.mem_singleton.mp hkv]
    exact show '>' ∉ "message".toList by decide
  required k hk := hk

theorem legible_finish {message : String} (h : Clean [parameterEnd, functionEnd] message.toList)
    (hcanonical : ∀ s ∈ (paramText "message" (.str message)).tails, matchMalformed s = none) :
    ∀ kv ∈ finishArgs message, Legible kv.1 kv.2 := by
  intro kv hkv
  rw [List.mem_singleton.mp hkv]
  exact ⟨h, show "message" ≠ "" by decide, show ¬ "</function".toList <:+ "message".toList by decide, fun s hs => hcanonical s ((List.mem_tails s _).mpr hs)⟩

theorem roundTrips_iff_done : RoundTrips [finish] 1 "I am done.".toList (finishCall "All tests pass") (finishArgs "All tests pass") ↔
    ∀ kv ∈ finishArgs "All tests pass", isMultiline kv.2 = false :=
  roundTrips_iff 1 (Json.loads_dumps (wellFormed_finishArgs _)) rfl (fits_finish (by decide)) (by decide) (by decide)
    (by decide) (legible_finish (by decide) (by decide)) (wellFormed_finishArgs _)

/-- A text of two lines comes back with a line break before and after it. -/
theorem roundTrips_counterexample : ¬ ∀ (tools : List Function) (counter : Nat) (content : List Char) (call : ToolCall)
    (f : Function) (args : List (String × Json)), Json.loads call.arguments = some (.obj args) →
    (Json.obj args).WellFormed → tools.find? (fun f => f.name == call.name) = some f → Fits f args →
    ¬ functionMark <:+: content → RoundTrips tools counter content call args := by
  intro h
  have hloads := Json.loads_dumps (wellFormed_finishArgs "a\nb")
  have hfits : Fits finish (finishArgs "a\nb") := fits_finish (by decide)
  have hclean : ¬ functionMark <:+: ([] : List Char) := by decide
  have hback := h [finish] 1 [] (finishCall "a\nb") finish (finishArgs "a\nb") hloads (wellFormed_finishArgs _) rfl hfits hclean
  have hline := oneLine_of_roundTrips 1 hloads rfl hfits hclean (by decide) (by decide)
    (legible_finish (by decide) (by decide)) (wellFormed_finishArgs _) hback
  exact absurd (hline ("message", .str "a\nb") (by simp [finishArgs])) (by decide)

end OpenHands.FnCallConverter
