import OpenHandsSWE.Events.Serialization.Event

/-! The trace that the security monitor reads: each action as a call of a tool, each observation as the output of one. -/

namespace OpenHands.Invariant

structure Function where
  name : String
  arguments : Dict
deriving DecidableEq

/-- The elements that are ever made; none has metadata. -/
inductive TraceElement where
  | message (role : String) (content : Option String)
  | toolCall (id type : String) (function : Function)
  | toolOutput (role content : String) (toolCallId : Option String)
deriving DecidableEq

namespace TraceElement

def callId? : TraceElement → Option String
  | toolCall id _ _ => some id
  | _ => none

/-- `el.model_dump(exclude_none=True)`. -/
def modelDump : TraceElement → Json
  | message role content => .obj ([("metadata", .obj []), ("role", .str role)] ++ entry "content" .str content)
  | toolCall id type function =>
    .obj [("metadata", .obj []), ("id", .str id), ("type", .str type),
      ("function", .obj [("name", .str function.name), ("arguments", .obj function.arguments)])]
  | toolOutput role content toolCallId =>
    .obj ([("metadata", .obj []), ("role", .str role), ("content", .str content)] ++ entry "tool_call_id" .str toolCallId)

end TraceElement

open TraceElement

def callIds (trace : List TraceElement) : List String := trace.filterMap callId?

def getNextId (trace : List TraceElement) : String :=
  match (List.range ((callIds trace).length + 1)).find? fun i => decide (toString (i + 1) ∉ callIds trace) with
  | some i => toString (i + 1)
  | none => "1"

def getLastId (trace : List TraceElement) : Option String := trace.reverse.findSome? callId?

/-- What an action is in the trace, when its call gets the id. -/
def actionElements (out : Outside) (nextId : String) (e : Event) (a : Action) : Except PyError (List TraceElement) :=
  match a with
  | .message a => .ok [.message (if e.source = some .user then "user" else "assistant") (some a.content)]
  | .null | .changeAgentState _ => .ok []
  | a =>
    (eventToDict out e).map fun d =>
      let args := ((Assoc.get? "args" d).bind Json.obj?).getD []
      let call : TraceElement := .toolCall nextId "function" ⟨a.cls.type, Assoc.erase "thought" args⟩
      match (Assoc.get? "thought" args).bind Json.str? with
      | some thought => [.message "assistant" (some thought), call]
      | none => [call]

def parseAction (out : Outside) (trace : List TraceElement) (e : Event) (a : Action) : Except PyError (List TraceElement) :=
  actionElements out (getNextId trace) e a

def observationElements (lastId : Option String) : Observation → List TraceElement
  | .null _ | .agentStateChanged _ => []
  | o => [.toolOutput "tool" o.content lastId]

def parseObservation (trace : List TraceElement) (o : Observation) : List TraceElement := observationElements (getLastId trace) o

def parseElement (out : Outside) (trace : List TraceElement) (e : Event) : Except PyError (List TraceElement) :=
  match e.body with
  | .action a => parseAction out trace e a
  | .observation o => .ok (parseObservation trace o)
  | .plain => .ok []

/-- `add_action` and `add_observation`; an event that cannot be written down changes nothing. -/
def add (out : Outside) (trace : List TraceElement) (e : Event) : List TraceElement :=
  match parseElement out trace e with
  | .ok elements => trace ++ elements
  | .error _ => trace

/-! ## The analyzer -/

/-- The first word that stands behind `risk=`. -/
def wordAfterMark (isWord : Char → Bool) : List Char → Option (List Char)
  | [] => none
  | c :: cs =>
    if "risk=".toList <+: c :: cs ∧ ((c :: cs).drop 5).takeWhile isWord ≠ [] then some (((c :: cs).drop 5).takeWhile isWord)
    else wordAfterMark isWord cs

def riskNamed (isWord : Char → Bool) (result : String) : Option ActionSecurityRisk :=
  (wordAfterMark isWord result.toList).bind fun word =>
    if word = "high".toList then some .high
    else if word = "medium".toList then some .medium
    else if word = "low".toList then some .low
    else none

/-- The greater of two risks, as the numbers they are. -/
def higher (r s : ActionSecurityRisk) : ActionSecurityRisk := if r.value < s.value then s else r

def getRisk (isWord : Char → Bool) (results : List String) : ActionSecurityRisk :=
  match results.filterMap (riskNamed isWord) with
  | risk :: risks => risks.foldl higher risk
  | [] => .low

structure InvariantAnalyzer where
  trace : List TraceElement := []
  input : List Json := []

/-- What the monitor says of new elements behind those that it was given before. -/
abbrev Check := List Json → List Json → Except String (List String)

def riskOf (isWord : Char → Bool) (check : Check) (input inputData : List Json) : ActionSecurityRisk :=
  match check input inputData with
  | .error _ => .unknown
  | .ok result => getRisk isWord result

def securityRisk (out : Outside) (isWord : Char → Bool) (check : Check) (analyzer : InvariantAnalyzer) (action : Event) :
    Except PyError ActionSecurityRisk × InvariantAnalyzer :=
  match parseElement out analyzer.trace action with
  | .error e => (.error e, analyzer)
  | .ok newElements =>
    let inputData := newElements.map modelDump
    (.ok (riskOf isWord check analyzer.input inputData),
      { trace := analyzer.trace ++ newElements, input := analyzer.input ++ inputData })

def analyze (out : Outside) (isWord : Char → Bool) (check : Check) (analyzer : InvariantAnalyzer) :
    List Event → List (Except PyError ActionSecurityRisk)
  | [] => []
  | e :: es =>
    (securityRisk out isWord check analyzer e).1 :: analyze out isWord check (securityRisk out isWord check analyzer e).2 es

/-! ## The trace by counting -/

section Numbered

variable (out : Outside) (isWord : Char → Bool) (check : Check)

/-- What an event is in the trace behind a number of calls. -/
def numbered (calls : ℕ) (e : Event) : Except PyError (List TraceElement) :=
  match e.body with
  | .action a => actionElements out (toString (calls + 1)) e a
  | .observation o => .ok (observationElements (if calls = 0 then none else some (toString calls)) o)
  | .plain => .ok []

def numberedTrace (calls : ℕ) : List Event → List TraceElement
  | [] => []
  | e :: es =>
    match numbered out calls e with
    | .ok elements => elements ++ numberedTrace (calls + (callIds elements).length) es
    | .error _ => numberedTrace calls es

/-- The risks, where the monitor is always given the whole trace before. -/
def numberedRisks (before : List TraceElement) : List Event → List (Except PyError ActionSecurityRisk)
  | [] => []
  | e :: es =>
    match numbered out (callIds before).length e with
    | .ok elements =>
      .ok (riskOf isWord check (before.map modelDump) (elements.map modelDump)) :: numberedRisks (before ++ elements) es
    | .error err => .error err :: numberedRisks before es

end Numbered

/-! ## Ids -/

theorem toString_injective : Function.Injective (toString : ℕ → String) := by
  intro m n h
  rw [Nat.toString_eq_ofList_toDigits, Nat.toString_eq_ofList_toDigits] at h
  have hdigits : Nat.toDigits 10 m = Nat.toDigits 10 n := by simpa using congrArg String.toList h
  rw [← @Nat.ofDigitChars_ten_toDigits m, hdigits, Nat.ofDigitChars_ten_toDigits]

@[simp] theorem callIds_append (trace elements : List TraceElement) : callIds (trace ++ elements) = callIds trace ++ callIds elements :=
  List.filterMap_append

/-- The next id is the least number that no call has: one more number than calls cannot all be taken. -/
theorem getNextId_spec (trace : List TraceElement) :
    getNextId trace ∉ callIds trace ∧ ∃ n, getNextId trace = toString (n + 1) ∧ ∀ i < n, toString (i + 1) ∈ callIds trace := by
  have hexists : ∃ i ∈ List.range ((callIds trace).length + 1), toString (i + 1) ∉ callIds trace := by
    by_contra hall
    push Not at hall
    have hsubset : (List.range ((callIds trace).length + 1)).map (fun i => toString (i + 1)) ⊆ callIds trace := by
      intro id hid
      obtain ⟨i, hi, rfl⟩ := List.mem_map.mp hid
      exact hall i hi
    have hnodup : ((List.range ((callIds trace).length + 1)).map fun i => toString (i + 1)).Nodup :=
      List.nodup_range.map fun i j h => Nat.succ_injective (toString_injective h)
    have hlength := (List.subperm_of_subset hnodup hsubset).length_le
    rw [List.length_map, List.length_range] at hlength
    exact Nat.not_succ_le_self _ hlength
  obtain ⟨i, hi, hfree⟩ := hexists
  rw [getNextId]
  cases hfound : (List.range ((callIds trace).length + 1)).find? fun i => decide (toString (i + 1) ∉ callIds trace) with
  | none => exact absurd (decide_eq_true hfree) (List.find?_eq_none.mp hfound i hi)
  | some n =>
    obtain ⟨hn, -, hbefore⟩ := List.find?_range_eq_some.mp hfound
    refine ⟨of_decide_eq_true hn, n, rfl, fun j hj => ?_⟩
    have hused := hbefore j hj
    rwa [Bool.not_eq_true', decide_eq_false_iff_not, not_not] at hused

/-- The calls have the numbers from one on. -/
def Counted (trace : List TraceElement) : Prop :=
  callIds trace = (List.range (callIds trace).length).map fun i => toString (i + 1)

theorem Counted.getNextId {trace : List TraceElement} (h : Counted trace) :
    getNextId trace = toString ((callIds trace).length + 1) := by
  obtain ⟨hfree, n, hn, hbefore⟩ := getNextId_spec trace
  have hmem : ∀ i, toString (i + 1) ∈ callIds trace ↔ i < (callIds trace).length := by
    intro i
    constructor
    · intro hi
      rw [h] at hi
      obtain ⟨j, hj, heq⟩ := List.mem_map.mp hi
      rw [← Nat.succ_injective (toString_injective heq)]
      exact List.mem_range.mp hj
    · intro hi
      rw [h]
      exact List.mem_map.mpr ⟨i, List.mem_range.mpr hi, rfl⟩
  rw [hn, hmem] at hfree
  rw [hn]
  rcases Nat.lt_trichotomy n (callIds trace).length with hlt | heq | hgt
  · exact absurd hlt hfree
  · rw [heq]
  · exact absurd ((hmem _).mp (hbefore _ hgt)) (Nat.lt_irrefl _)

theorem getLastId_eq (trace : List TraceElement) : getLastId trace = (callIds trace).getLast? := by
  rw [getLastId, callIds]
  induction trace using List.reverseRecOn with
  | nil => rfl
  | append_singleton trace el ih =>
    rw [List.reverse_append, List.reverse_singleton, List.singleton_append, List.findSome?_cons, List.filterMap_append]
    cases hid : el.callId? with
    | some id => simp [hid]
    | none =>
      rw [ih]
      simp [hid]

theorem Counted.getLastId {trace : List TraceElement} (h : Counted trace) :
    getLastId trace = if (callIds trace).length = 0 then none else some (toString (callIds trace).length) := by
  rw [getLastId_eq]
  generalize hn : (callIds trace).length = n at h ⊢
  rw [Counted, hn] at h
  rw [h]
  cases n with
  | zero => rfl
  | succ n => rw [List.range_succ, List.map_append, List.map_singleton, List.getLast?_concat, if_neg n.succ_ne_zero]

theorem Counted.parseElement {trace : List TraceElement} (h : Counted trace) (out : Outside) (e : Event) :
    parseElement out trace e = numbered out (callIds trace).length e := by
  rw [Invariant.parseElement, numbered]
  cases e.body with
  | action a =>
    dsimp only
    rw [parseAction, h.getNextId]
  | observation o =>
    dsimp only
    rw [parseObservation, h.getLastId]
  | plain => rfl

/-- An event makes no call, or one with the id that it was given. -/
theorem callIds_numbered {out : Outside} {calls : ℕ} {e : Event} {elements : List TraceElement} (h : numbered out calls e = .ok elements) :
    callIds elements = [] ∨ callIds elements = [toString (calls + 1)] := by
  rw [numbered] at h
  cases hbody : e.body with
  | action a =>
    rw [hbody] at h
    dsimp only at h
    unfold actionElements at h
    split at h
    · cases h
      exact .inl rfl
    · cases h
      exact .inl rfl
    · cases h
      exact .inl rfl
    · cases hd : eventToDict out e with
      | error err =>
        rw [hd] at h
        cases h
      | ok d =>
        rw [hd] at h
        cases h
        refine .inr ?_
        dsimp only
        split
        · rfl
        · rfl
  | observation o =>
    rw [hbody] at h
    cases h
    refine .inl ?_
    cases o <;> rfl
  | plain =>
    rw [hbody] at h
    cases h
    exact .inl rfl

theorem Counted.append {trace elements : List TraceElement} (h : Counted trace) {out : Outside} {e : Event}
    (helements : numbered out (callIds trace).length e = .ok elements) : Counted (trace ++ elements) := by
  rw [Counted, callIds_append]
  rcases callIds_numbered helements with hnone | hone
  · rw [hnone, List.append_nil]
    exact h
  · rw [hone, List.length_append, List.length_singleton, List.range_succ, List.map_append, ← h]
    rfl

theorem counted_foldl {out : Outside} {trace : List TraceElement} (h : Counted trace) (events : List Event) :
    events.foldl (add out) trace = trace ++ numberedTrace out (callIds trace).length events ∧ Counted (events.foldl (add out) trace) := by
  induction events generalizing trace with
  | nil => exact ⟨(List.append_nil trace).symm, h⟩
  | cons e es ih =>
    rw [List.foldl_cons, add, h.parseElement, numberedTrace]
    cases helements : numbered out (callIds trace).length e with
    | error err => exact ih h
    | ok elements =>
      obtain ⟨htrace, hcounted⟩ := ih (h.append helements)
      rw [callIds_append, List.length_append, List.append_assoc] at htrace
      exact ⟨htrace, hcounted⟩

theorem analyze_eq {out : Outside} (isWord : Char → Bool) (check : Check) {analyzer : InvariantAnalyzer} (h : Counted analyzer.trace)
    (hinput : analyzer.input = analyzer.trace.map modelDump) (events : List Event) :
    analyze out isWord check analyzer events = numberedRisks out isWord check analyzer.trace events := by
  induction events generalizing analyzer with
  | nil => rfl
  | cons e es ih =>
    rw [analyze, securityRisk, h.parseElement, numberedRisks]
    cases helements : numbered out (callIds analyzer.trace).length e with
    | error err => exact congrArg (List.cons _) (ih h hinput)
    | ok elements =>
      dsimp only
      rw [hinput, ih (h.append helements) (by rw [List.map_append])]

/-! ## The risk -/

theorem le_higher (r s : ActionSecurityRisk) : r.value ≤ (higher r s).value ∧ s.value ≤ (higher r s).value ∧ (higher r s = r ∨ higher r s = s) := by
  rw [higher]
  split_ifs with h
  · exact ⟨h.le, le_rfl, .inr rfl⟩
  · exact ⟨le_rfl, le_of_not_gt h, .inl rfl⟩

theorem foldl_higher (risk : ActionSecurityRisk) (risks : List ActionSecurityRisk) :
    risks.foldl higher risk ∈ risk :: risks ∧ ∀ r ∈ risk :: risks, r.value ≤ (risks.foldl higher risk).value := by
  induction risks generalizing risk with
  | nil => exact ⟨List.mem_cons_self, fun r hr => by rw [List.mem_singleton.mp hr]; rfl⟩
  | cons s risks ih =>
    obtain ⟨hmem, hmax⟩ := ih (higher risk s)
    obtain ⟨hrisk, hs, hone⟩ := le_higher risk s
    have hhead := hmax _ List.mem_cons_self
    refine ⟨?_, fun r hr => ?_⟩
    · rcases List.mem_cons.mp hmem with heq | hrest
      · rw [List.foldl_cons, heq]
        rcases hone with hone | hone
        · rw [hone]
          exact List.mem_cons_self
        · rw [hone]
          exact List.mem_cons_of_mem _ List.mem_cons_self
      · exact List.mem_cons_of_mem _ (List.mem_cons_of_mem _ hrest)
    · rcases List.mem_cons.mp hr with rfl | hr
      · exact hrisk.trans hhead
      · rcases List.mem_cons.mp hr with rfl | hr
        · exact hs.trans hhead
        · exact hmax r (List.mem_cons_of_mem _ hr)

/-- The risk is the highest that is named, and low when none is. -/
theorem getRisk_spec (isWord : Char → Bool) (results : List String) :
    (∀ result ∈ results, ∀ r, riskNamed isWord result = some r → r.value ≤ (getRisk isWord results).value) ∧
      (getRisk isWord results = .low ∨ ∃ result ∈ results, riskNamed isWord result = some (getRisk isWord results)) := by
  have hnamed : ∀ r, r ∈ results.filterMap (riskNamed isWord) ↔ ∃ result ∈ results, riskNamed isWord result = some r :=
    fun r => List.mem_filterMap
  rw [getRisk]
  cases hrisks : results.filterMap (riskNamed isWord) with
  | nil =>
    rw [hrisks] at hnamed
    exact ⟨fun result hresult r hr => absurd ((hnamed r).mpr ⟨result, hresult, hr⟩) List.not_mem_nil, .inl rfl⟩
  | cons risk risks =>
    rw [hrisks] at hnamed
    obtain ⟨hmem, hmax⟩ := foldl_higher risk risks
    exact ⟨fun result hresult r hr => hmax r ((hnamed r).mpr ⟨result, hresult, hr⟩), .inr ((hnamed _).mp hmem)⟩

/-- Every call gets the least number that no call of the trace has. A trace that is built event by event is the one that
counts its calls, each output naming the call before it; and the analyzer shows the monitor all of it before the new
elements, whose risk is the highest one named. -/
theorem trace_numbered (out : Outside) (isWord : Char → Bool) (check : Check) :
    (∀ trace, getNextId trace ∉ callIds trace ∧
      ∃ n, getNextId trace = toString (n + 1) ∧ ∀ i < n, toString (i + 1) ∈ callIds trace) ∧
    (∀ events, events.foldl (add out) [] = numberedTrace out 0 events ∧ Counted (numberedTrace out 0 events)) ∧
    (∀ events, analyze out isWord check {} events = numberedRisks out isWord check [] events) ∧
    ∀ results, (∀ result ∈ results, ∀ r, riskNamed isWord result = some r → r.value ≤ (getRisk isWord results).value) ∧
      (getRisk isWord results = .low ∨ ∃ result ∈ results, riskNamed isWord result = some (getRisk isWord results)) := by
  have hempty : Counted [] := rfl
  refine ⟨getNextId_spec, fun events => ?_, fun events => analyze_eq isWord check hempty rfl events, getRisk_spec isWord⟩
  obtain ⟨htrace, hcounted⟩ := @counted_foldl out [] hempty events
  rw [htrace] at hcounted
  exact ⟨htrace, hcounted⟩

end OpenHands.Invariant
