import OpenHandsSWE.Lib.Python
import OpenHandsSWE.Lib.Words
import OpenHandsSWE.Llm.FnCallConverter

/-! A whole conversation for a model without tool calls: the messages are written as text, and read back from it. -/

namespace OpenHands.FnCallConversation
open Text FnCallConverter

/-! ## Messages -/

inductive Item where
  | text (text : List Char) (cached : Bool)
  | image (url : List Char) (cached : Bool)
deriving DecidableEq

inductive Content where
  | str (text : List Char)
  | items (items : List Item)
deriving DecidableEq

inductive Message where
  | system (content : Content)
  | user (content : Content)
  | assistant (content : Content) (toolCalls : Option (List FnCallConverter.ToolCall))
  | tool (content : Content) (name : Option String) (toolCallId : String) (cacheControl : Bool)

/-- What the conversions raise beside the errors of a call. -/
inductive ConversationError where
  | call (e : FnCallError)
  | callCount (count : ℕ)
  | typeError
  | callNotLast
  | badRole
deriving DecidableEq

def Item.text? : Item → Option (List Char)
  | .text t _ => some t
  | .image _ _ => none

def Content.texts : Content → List (List Char)
  | .str t => [t]
  | .items is => is.filterMap Item.text?

/-- The text of the last item; without a text at the end another item is added. -/
def editLast (f : List Char → List Char) (alone : List Char) (items : List Item) : List Item :=
  match items.getLast? with
  | some (.text text cached) => items.dropLast ++ [.text (f text) cached]
  | _ => items ++ [.text alone false]

/-- The first item with a text. -/
def editFirst (f : List Char → List Char) : List Item → List Item
  | [] => []
  | .text text cached :: items => .text (f text) cached :: items
  | item :: items => item :: editFirst f items

/-! ## Writing -/

def accessLine : List Char := "You have access to the following functions:".toList

/-- `SYSTEM_PROMPT_SUFFIX_TEMPLATE.format(description=description)`. -/
def systemPromptSuffix (description : List Char) : List Char :=
  '\n' :: (accessLine ++ '\n' :: ('\n' :: description ++ "

If you choose to call a function ONLY reply in the following format with NO suffix:

<function=example_function_name>
<parameter=example_parameter_1>value_1</parameter>
<parameter=example_parameter_2>
This is the value for the second parameter
that can span
multiple lines
</parameter>
</function>

<IMPORTANT>
Reminder:
- Function calls MUST follow the specified format, start with <function= and end with </function>
- Required parameters MUST be specified
- Only call one function at a time
- You may provide optional reasoning for your function call in natural language BEFORE the function call, but NOT after.
- If there is no function call available, answer the question like normal with your current knowledge and do not tell the user about function calls
</IMPORTANT>
".toList))

def endLine : List Char := "--------------------- END OF NEW TASK DESCRIPTION ---------------------".toList

/-- `IN_CONTEXT_LEARNING_EXAMPLE_SUFFIX`. -/
def exampleSuffix : List Char :=
  '\n' :: (endLine ++ '\n' :: "
PLEASE follow the format strictly! PLEASE EMIT ONE AND ONLY ONE FUNCTION CALL PER MESSAGE.
".toList)

def resultMark : List Char := "EXECUTION RESULT of [".toList

def resultEnd : List Char := "]:\n".toList

section Writing

-- the description of the tools, and the example for them
variable (description exampleText : List Char) (addExample : Bool)

def withSuffix : Content → Content
  | .str text => .str (text ++ systemPromptSuffix description)
  | .items items => .items (editLast (· ++ systemPromptSuffix description) (systemPromptSuffix description) items)

def withExample : Content → Content
  | .str text => .str (exampleText ++ text ++ exampleSuffix)
  | .items (.text text cached :: items) => .items (.text (exampleText ++ text ++ exampleSuffix) cached :: items)
  | .items items => .items (.text exampleText false :: items ++ [.text exampleSuffix false])

def withCall (call : List Char) : Content → Content
  | .str text => .str (lstrip (text ++ '\n' :: '\n' :: call))
  | .items items => .items (editLast (fun text => lstrip (text ++ '\n' :: '\n' :: call)) call items)

def resultPrefix (name : Option String) : List Char := resultMark ++ ((name.getD "function").toList ++ resultEnd)

def withResult (name : Option String) : Content → Content
  | .str text => .str (resultPrefix name ++ text)
  | .items items =>
    if items.any fun item => item.text?.isSome then .items (editFirst (resultPrefix name ++ ·) items)
    else .items (.text (resultPrefix name) false :: items)

/-- `content[-1]['cache_control'] = ...`. -/
def withCache : Content → Except ConversationError Content
  | .str _ => .error .typeError
  | .items items => .ok (.items (items.dropLast ++ items.getLast?.toList.map fun
      | .text text _ => .text text true
      | .image url _ => .image url true))

/-- `seen` says that there was a message of the user before. -/
def encodeMessage (seen : Bool) : Message → Except ConversationError Message
  | .system content => .ok (.system (withSuffix description content))
  | .user content => .ok (.user (if !seen && addExample && exampleText ≠ [] then withExample exampleText content else content))
  | .assistant content none => .ok (.assistant content none)
  | .assistant content (some [call]) =>
    ((convertToolCallToString call).mapError .call).map fun text => .assistant (withCall text content) none
  | .assistant _ (some calls) => .error (.callCount calls.length)
  | .tool content name _ cacheControl =>
    (if cacheControl then withCache (withResult name content) else .ok (withResult name content)).map .user

def Message.isUser : Message → Bool
  | .user _ => true
  | _ => false

def encodeFrom (seen : Bool) : List Message → Except ConversationError (List Message)
  | [] => .ok []
  | m :: ms =>
    (encodeMessage description exampleText addExample seen m).bind fun text =>
      (encodeFrom (seen || m.isUser) ms).map (text :: ·)

/-- `convert_fncall_messages_to_non_fncall_messages`. -/
def encode (messages : List Message) : Except ConversationError (List Message) :=
  encodeFrom description exampleText addExample false messages

end Writing

/-! ## Reading -/

/-- `text.replace(pat, '', 1)`. -/
def removeFirst (pat text : List Char) : List Char :=
  match upTo pat text with
  | some before => before ++ text.drop (before.length + pat.length)
  | none => text

/-- `content or ''`. -/
def orEmpty : Content → Content
  | .items [] => .str []
  | content => content

/-- `EXECUTION RESULT of \[(.*?)\]:\n(.*)`. -/
def matchResult (cs : List Char) : Option (List Char × List Char) :=
  if resultMark <+: cs then
    (upTo resultEnd (cs.drop resultMark.length)).map fun name =>
      (name, cs.drop (resultMark.length + name.length + resultEnd.length))
  else none

section Reading

variable (tools : List Function) (description exampleText : List Char)

def cutSuffix (text : List Char) : List Char := (split (systemPromptSuffix description) text).headD []

def withoutSuffix : Content → Content
  | .str text => .str (cutSuffix description text)
  | .items items =>
    match items.getLast? with
    | some (.text text cached) => .items (items.dropLast ++ [.text (cutSuffix description text) cached])
    | _ => .items items

def cutExample (text : List Char) : List Char :=
  let text := if exampleText <+: text then removeFirst exampleText text else text
  if exampleSuffix <:+ text then removeFirst exampleSuffix text else text

def withoutExample : Content → Content
  | .str text => .str (cutExample exampleText text)
  | .items items => .items (items.map fun
    | .text text cached => .text (cutExample exampleText text) cached
    | item => item)

def toolResult? : Content → Option (List Char × List Char)
  | .str text => search matchResult text
  | .items items => items.findSome? fun item => item.text?.bind (search matchResult)

/-- `seen` says that there was a message of the user before, `counter` is the number of the next call. -/
def decodeUser (seen : Bool) (counter : ℕ) (content : Content) : Message :=
  let content := if seen then content else withoutExample exampleText content
  match toolResult? content with
  | some (name, result) =>
    .tool (match content with
      | .str _ => .str (strip result)
      | .items _ => .items [.text (strip result) false]) (some (String.ofList name)) (toolCallId (counter - 1)) false
  | none => .user content

/-- A text with a call, as the text before the call and the call. -/
def decodeCall (counter : ℕ) (text : List Char) : Except FnCallError (Option (List Char × FnCallConverter.ToolCall)) :=
  (fromText tools counter text).map fun m => m.toolCalls.head?.map fun call => (m.content, call)

def hasCall (text : List Char) : Bool := (search matchFunction text).isSome

/-- The content without a call is the one that was there, where the last text has got its stop word. -/
def decodeAssistant (counter : ℕ) (content : Content) : Except ConversationError (Content × Option FnCallConverter.ToolCall) :=
  match content with
  | .str text => ((decodeCall tools counter text).mapError .call).map fun
    | some (before, call) => (.str before, some call)
    | none => (content, none)
  | .items items =>
    match items.getLast? with
    | some (.text text cached) =>
      let fixed := items.dropLast ++ [.text (fixStopword text) cached]
      ((decodeCall tools counter text).mapError .call).bind fun
        | some (before, call) => .ok (.items (items.dropLast ++ [.text before cached]), some call)
        | none => if (Content.items fixed).texts.any hasCall then .error .callNotLast else .ok (.items fixed, none)
    | _ => if content.texts.any hasCall then .error .callNotLast else .ok (content, none)

/-- The message, and the number of the next call. -/
def decodeMessage (seen : Bool) (counter : ℕ) : Message → Except ConversationError (Message × ℕ)
  | .system content => .ok (.system (withoutSuffix description (orEmpty content)), counter)
  | .user content => .ok (decodeUser exampleText seen counter (orEmpty content), counter)
  | .assistant content calls => (decodeAssistant tools counter content).map fun
    | (content, some call) => (.assistant content (some [call]), counter + 1)
    | (content, none) => (.assistant content calls, counter)
  | .tool _ _ _ _ => .error .badRole

def decodeFrom (seen : Bool) (counter : ℕ) : List Message → Except ConversationError (List Message)
  | [] => .ok []
  | m :: ms =>
    (decodeMessage tools description exampleText seen counter m).bind fun (back, next) =>
      (decodeFrom (seen || m.isUser) next ms).map (back :: ·)

/-- `convert_non_fncall_messages_to_fncall_messages`. -/
def decode (messages : List Message) : Except ConversationError (List Message) :=
  decodeFrom tools description exampleText false 1 messages

end Reading

/-! ## What comes back -/

section Back

variable (tools : List Function) (exampleText : List Char) (addExample : Bool)

def systemBack : Content → Content
  | .str text => .str text
  | .items items => .items (editLast id [] items)

/-- Where the example got items of its own, these stay behind without a text. -/
def firstBack : Content → Content
  | .str text => .str text
  | .items (.text text cached :: items) => .items (.text text cached :: items)
  | .items items => .items (.text [] false :: items ++ [.text [] false])

def calledBack : Content → Content
  | .str text => .str (strip text)
  | .items items => .items (editLast strip [] items)

/-- Of a result the first text comes back. -/
def resultBack : Content → Content
  | .str text => .str (strip text)
  | .items items => .items [.text (strip ((Content.items items).texts.headD [])) false]

def argumentsBack (call : FnCallConverter.ToolCall) : List Char := ((Json.loads call.arguments).map Json.dumps).getD call.arguments

/-- The messages behind `count` calls. -/
def backFrom (seen : Bool) (count : ℕ) : List Message → List Message
  | [] => []
  | .system content :: ms => .system (systemBack content) :: backFrom seen count ms
  | .user content :: ms =>
    .user (if !seen && addExample && exampleText ≠ [] then firstBack content else orEmpty content) :: backFrom true count ms
  | .assistant content (some (call :: _)) :: ms =>
    .assistant (calledBack content) (some [⟨toolCallId (count + 1), call.name, argumentsBack call⟩]) :: backFrom seen (count + 1) ms
  | .assistant content calls :: ms => .assistant content calls :: backFrom seen count ms
  | .tool content name _ _ :: ms =>
    .tool (resultBack content) (some (name.getD "function")) (toolCallId count) false :: backFrom seen count ms

/-- A call that its tool allows, whose arguments have one line each. -/
def Decodable (call : FnCallConverter.ToolCall) : Prop :=
  ∃ f args, Json.loads call.arguments = some (.obj args) ∧ (Json.obj args).WellFormed ∧
    tools.find? (fun f => f.name == call.name) = some f ∧ Fits f args ∧ call.name ≠ "" ∧ '>' ∉ call.name.toList ∧
    (∀ kv ∈ args, Legible kv.1 kv.2) ∧ ∀ kv ∈ args, isMultiline kv.2 = false

/-- No text has a mark of the conversion; what tools say is arbitrary. -/
def Admissible : Message → Prop
  | .system content => ∀ text ∈ content.texts, ¬ accessLine <:+: text
  | .user content => ∀ text ∈ content.texts, ¬ resultMark <:+: text ∧ ¬ endLine <:+: text ∧ (exampleText ≠ [] → ¬ exampleText <+: text)
  | .assistant content calls =>
    (∀ text ∈ content.texts, ¬ functionMark <:+: text) ∧ ∀ cs ∈ calls, ∃ call, cs = [call] ∧ Decodable tools call
  | .tool content name _ cacheControl =>
    ']' ∉ (name.getD "function").toList ∧ (cacheControl = true → ∃ items, content = .items items)

/-- The user speaks before the first tool. -/
def Ordered (seen : Bool) : List Message → Prop
  | [] => True
  | .tool _ _ _ _ :: ms => seen = true ∧ Ordered seen ms
  | m :: ms => Ordered (seen || m.isUser) ms

end Back

/-! ## Texts -/

section Texts

variable {text rest : List Char}

/-- A mark of a line of its own is nowhere before it. -/
theorem line_first {line r u v : List Char} (hline : '\n' ∉ line) (htext : ¬ line <:+: text) (hu : u <:+ text) (hne : u ≠ []) :
    ¬ '\n' :: (line ++ r) <+: u ++ '\n' :: v := by
  intro hpre
  obtain ⟨c, u, rfl⟩ := List.exists_cons_of_ne_nil hne
  have htail := (List.cons_prefix_cons.mp hpre).2
  have hbegins := begins_before_letter hline ((List.prefix_append line r).trans htail)
  exact htext ((hbegins.isInfix.trans (List.suffix_cons c u).isInfix).trans hu.isInfix)

theorem headD_split {pat : List Char} (hpat : pat ≠ []) (hfirst : ∀ u, u <:+ text → u ≠ [] → ¬ pat <+: u ++ (pat ++ rest)) :
    (split pat (text ++ (pat ++ rest))).headD [] = text := by
  induction text with
  | nil => rw [List.nil_append, split_append pat hpat, List.headD_cons]
  | cons c text ih =>
    have hhead := hfirst (c :: text) List.suffix_rfl (List.cons_ne_nil c text)
    have hrest := ih fun u hu hne => hfirst u (hu.trans (List.suffix_cons c text)) hne
    obtain ⟨p, ps, hps, hcons⟩ := consHead_eq c (split_ne_nil pat (text ++ (pat ++ rest)))
    rw [hps, List.headD_cons] at hrest
    rw [List.cons_append] at hhead ⊢
    rw [split_cons pat hhead, hcons, List.headD_cons, hrest]

theorem upTo_before {pat : List Char} (hpat : pat ≠ []) (hfirst : ∀ u, u <:+ text → u ≠ [] → ¬ pat <+: u ++ (pat ++ rest)) :
    upTo pat (text ++ (pat ++ rest)) = some text := by
  induction text with
  | nil => rw [List.nil_append, upTo_append_self hpat]
  | cons c text ih =>
    have hhead := hfirst (c :: text) List.suffix_rfl (List.cons_ne_nil c text)
    have hrest := ih fun u hu hne => hfirst u (hu.trans (List.suffix_cons c text)) hne
    rw [List.cons_append] at hhead ⊢
    rw [upTo, if_neg hhead, hrest]
    rfl

theorem cutSuffix_append (description : List Char) (htext : ¬ accessLine <:+: text) :
    cutSuffix description (text ++ systemPromptSuffix description) = text := by
  have hne : systemPromptSuffix description ≠ [] := List.cons_ne_nil _ _
  have hfirst (u : List Char) (hu : u <:+ text) (hne : u ≠ []) :
      ¬ systemPromptSuffix description <+: u ++ (systemPromptSuffix description ++ []) := by
    rw [List.append_nil, systemPromptSuffix]
    exact line_first (by decide) htext hu hne
  have hsplit := @headD_split _ [] _ hne hfirst
  rwa [List.append_nil] at hsplit

theorem removeFirst_suffix (htext : ¬ endLine <:+: text) : removeFirst exampleSuffix (text ++ exampleSuffix) = text := by
  have hne : exampleSuffix ≠ [] := List.cons_ne_nil _ _
  have hfirst (u : List Char) (hu : u <:+ text) (hne : u ≠ []) : ¬ exampleSuffix <+: u ++ (exampleSuffix ++ []) := by
    rw [List.append_nil, exampleSuffix]
    exact line_first (by decide) htext hu hne
  have hupTo := @upTo_before _ [] _ hne hfirst
  rw [List.append_nil] at hupTo
  rw [removeFirst, hupTo]
  dsimp only
  rw [← List.length_append, List.drop_length, List.append_nil]

theorem exampleSuffix_eq : exampleSuffix = '\n' :: (endLine ++ '\n' :: "
PLEASE follow the format strictly! PLEASE EMIT ONE AND ONLY ONE FUNCTION CALL PER MESSAGE.
".toList) := rfl

theorem endLine_in_suffix : endLine <:+: exampleSuffix := by
  rw [exampleSuffix_eq]
  exact ⟨['\n'], _, rfl⟩

theorem removeFirst_append {pat : List Char} (hpat : pat ≠ []) (text : List Char) : removeFirst pat (pat ++ text) = text := by
  rw [removeFirst, upTo_append_self hpat]
  dsimp only
  rw [List.nil_append, List.length_nil, Nat.zero_add, List.drop_left]

theorem removeFirst_nil (text : List Char) : removeFirst [] text = text := by
  cases text <;> rfl

/-- Only the suffix is left behind the example. -/
theorem cut_example {exampleText : List Char} (hexample : exampleText ≠ []) (htext : ¬ endLine <:+: text) :
    cutExample exampleText (exampleText ++ text ++ exampleSuffix) = text := by
  rw [cutExample, List.append_assoc, if_pos (List.prefix_append _ _), removeFirst_append hexample,
    if_pos (List.suffix_append _ _), removeFirst_suffix htext]

/-- A text that has neither stays. -/
theorem cutExample_clean {exampleText : List Char} (hexample : exampleText ≠ [] → ¬ exampleText <+: text) (htext : ¬ endLine <:+: text) :
    cutExample exampleText text = text := by
  have hstart : (if exampleText <+: text then removeFirst exampleText text else text) = text := by
    split_ifs with hpre
    · obtain rfl : exampleText = [] := by
        by_contra hne
        exact hexample hne hpre
      exact removeFirst_nil text
    · rfl
  rw [cutExample, hstart]
  exact if_neg fun hsuffix => htext (endLine_in_suffix.trans hsuffix.isInfix)

theorem cutExample_example {exampleText : List Char} (hexample : exampleText ≠ []) : cutExample exampleText exampleText = [] := by
  have hremove := removeFirst_append hexample []
  rw [List.append_nil] at hremove
  rw [cutExample, if_pos (List.prefix_refl _), hremove]
  rfl

theorem cutExample_suffix {exampleText : List Char} (hexample : ¬ exampleText <+: exampleSuffix) :
    cutExample exampleText exampleSuffix = [] := by
  have hremove := @removeFirst_append exampleSuffix (List.cons_ne_nil _ _) []
  rw [List.append_nil] at hremove
  rw [cutExample, if_neg hexample, if_pos (List.suffix_refl _), hremove]

theorem search_clean (htext : ¬ resultMark <:+: text) : search matchResult text = none := by
  refine search_of_none fun u hu _ => ?_
  exact if_neg fun hpre => htext (hpre.isInfix.trans hu.isInfix)

/-- A result is found with its name at the head of its text. -/
theorem search_result {name : Option String} (hname : ']' ∉ (name.getD "function").toList) (text : List Char) :
    search matchResult (resultPrefix name ++ text) = some ((name.getD "function").toList, text) := by
  have hend : resultEnd = ']' :: ":\n".toList := by decide
  have hclean : ¬ resultEnd <:+: (name.getD "function").toList := fun hwithin => by
    rw [hend] at hwithin
    exact hname (hwithin.subset List.mem_cons_self)
  have hupTo : upTo resultEnd ((name.getD "function").toList ++ (resultEnd ++ text)) = some (name.getD "function").toList := by
    rw [hend] at hclean ⊢
    exact upTo_first text (by decide) hclean
  have htext : resultPrefix name ++ text = resultMark ++ ((name.getD "function").toList ++ (resultEnd ++ text)) := by
    rw [resultPrefix, List.append_assoc, List.append_assoc]
  have hmatch : matchResult (resultPrefix name ++ text) = some ((name.getD "function").toList, text) := by
    have hlength : resultMark.length + (name.getD "function").toList.length + resultEnd.length = (resultPrefix name).length := by
      rw [resultPrefix, List.length_append, List.length_append, Nat.add_assoc]
    rw [htext, matchResult, if_pos (List.prefix_append _ _), List.drop_left, hupTo, Option.map_some, hlength, ← htext, List.drop_left]
  have hmark : resultMark = 'E' :: "XECUTION RESULT of [".toList := by decide
  rw [resultPrefix, hmark] at hmatch ⊢
  exact search_of_match hmatch

end Texts

/-! ## Calls -/

section Calls

variable {tools : List Function} {text : List Char}

theorem hasCall_clean (htext : ¬ functionMark <:+: text) : hasCall text = false := by
  have hnone : search matchFunction text = none := by
    refine search_of_none fun u hu _ => ?_
    rw [matchFunction, if_neg fun hpre => htext (hpre.isInfix.trans hu.isInfix)]
  rw [hasCall, hnone]
  rfl

theorem fixStopword_clean (htext : ¬ functionMark <:+: text) : fixStopword text = text := by
  rw [fixStopword, split_of_clean functionMark htext]
  rfl

theorem decodeCall_clean (counter : ℕ) (htext : ¬ functionMark <:+: text) : decodeCall tools counter text = .ok none := by
  have hnone : search matchFunction text = none := by
    have hcall := hasCall_clean htext
    rwa [hasCall, Option.isSome_eq_false_iff, Option.isNone_iff_eq_none] at hcall
  rw [decodeCall, fromText, fixStopword_clean htext, hnone]
  rfl

/-- What is read beside a call is the text before its mark. -/
theorem content_of_fromText {counter : ℕ} {m : FnCallConverter.AssistantMessage} (h : fromText tools counter text = .ok m) (hcalls : m.toolCalls ≠ []) :
    m.content = strip ((split functionMark (fixStopword text)).headD []) := by
  rw [fromText] at h
  split at h
  · obtain rfl := Except.ok.inj h
    exact absurd rfl hcalls
  · split at h
    · cases h
    · obtain ⟨params, _, hm⟩ := Py.bind_ok h
      obtain rfl := Except.ok.inj hm
      rfl

theorem written_begins {call : FnCallConverter.ToolCall} {written : List Char} (h : convertToolCallToString call = .ok written) :
    ∃ cs, written = '<' :: cs := by
  rw [convertToolCallToString] at h
  split at h
  · rw [← Except.ok.inj h, show functionMark = '<' :: "function=".toList by decide]
    exact ⟨_, rfl⟩
  · cases h

theorem strip_lead (content : List Char) : strip (lstrip (content ++ ['\n', '\n'])) = strip content := by
  have hlstrip : strip (lstrip (content ++ ['\n', '\n'])) = strip (content ++ ['\n', '\n']) := by
    rw [strip, strip, lstrip, lstrip, List.dropWhile_idempotent]
  have hend : content ++ ['\n', '\n'] = (content ++ ['\n']) ++ ['\n'] := by rw [List.append_assoc]; rfl
  rw [hlstrip, hend, strip_append_space (by decide), strip_append_space (by decide)]

/-- A call that is written behind a text is read, and the text before it without white space around it. -/
theorem decodeCall_written {call : FnCallConverter.ToolCall} (counter : ℕ) (hcall : Decodable tools call) (htext : ¬ functionMark <:+: text) :
    ∃ written, convertToolCallToString call = .ok written ∧
      decodeCall tools counter (lstrip (text ++ '\n' :: '\n' :: written)) =
        .ok (some (strip text, ⟨toolCallId counter, call.name, argumentsBack call⟩)) := by
  obtain ⟨f, args, hargs, hwf, htool, hfits, hname, hstop, hlegible, hline⟩ := hcall
  obtain ⟨whole, content', htoText, hread⟩ := fromText_toText counter hargs htool hfits htext hname hstop hlegible
  have hvalues : ∀ kv ∈ args, kv.2.WellFormed := (Json.wellFormedMembers_iff args).mp hwf.2
  have hkeys : (([] ++ args).map Prod.fst).Nodup := hwf.1
  have hparams := readParams_of_oneLine hfits.declared hvalues hline [] hkeys
  have hmissing : ((f.parameters.map Parameters.required).getD []).filter (fun k => k ∉ args.map Prod.fst) = [] :=
    List.filter_eq_nil_iff.mpr fun k hk => by simpa using hfits.required k hk
  rw [extractAndValidateParams_eq hparams] at hread
  dsimp only at hread
  rw [List.nil_append, if_pos hmissing] at hread
  obtain ⟨written, hwritten, hwhole⟩ : ∃ written, convertToolCallToString call = .ok written ∧
      lstrip (text ++ '\n' :: '\n' :: written) = whole := by
    rw [toText] at htoText
    cases hconvert : convertToolCallToString call with
    | error e =>
      rw [hconvert] at htoText
      cases htoText
    | ok written =>
      rw [hconvert] at htoText
      exact ⟨written, rfl, Except.ok.inj htoText⟩
  have hcontent : content' = strip ((split functionMark (fixStopword whole)).headD []) :=
    content_of_fromText hread (List.cons_ne_nil _ _)
  have hlead : (split functionMark (fixStopword whole)).headD [] = lstrip (text ++ ['\n', '\n']) := by
    have hmark : functionMark = '<' :: "function=".toList := by decide
    obtain ⟨body, hbody⟩ : ∃ body, written = functionMark ++ (body ++ functionEnd) := by
      rw [convertToolCallToString, hargs] at hwritten
      refine ⟨call.name.toList ++ '>' :: '\n' :: args.flatMap fun kv => paramText kv.1 kv.2, ?_⟩
      rw [← Except.ok.inj hwritten, List.append_assoc, List.cons_append, List.cons_append]
    have hstrip : whole = lstrip (text ++ ['\n', '\n']) ++ (functionMark ++ body) ++ functionEnd := by
      rw [← hwhole, hbody, hmark]
      have happend := lstrip_append (c := '<') (by decide) (text ++ ['\n', '\n']) ("function=".toList ++ (body ++ functionEnd))
      rw [List.append_assoc] at happend
      simpa only [List.append_assoc, List.cons_append, List.nil_append] using happend
    obtain ⟨tail, hfix⟩ := fixStopword_end (lstrip (text ++ ['\n', '\n']) ++ (functionMark ++ body))
    have hclean : ¬ functionMark <:+: text ++ ['\n', '\n'] := by
      intro hinfix
      rcases infix_at_letter (by decide) (by decide) hinfix with hinfix | hinfix
      · exact htext hinfix
      · exact absurd hinfix (by decide)
    rw [hstrip, hfix, List.append_assoc, List.append_assoc]
    refine headD_split (by decide) fun u hu hne hpre => hclean ?_
    rw [hmark, List.cons_append] at hpre
    have hbegins := begins_before_first (by decide) hne hpre
    rw [← hmark] at hbegins
    exact (hbegins.isInfix.trans hu.isInfix).trans (List.dropWhile_suffix _).isInfix
  have harguments : argumentsBack call = (Json.obj args).dumps := by rw [argumentsBack, hargs]; rfl
  refine ⟨written, hwritten, ?_⟩
  rw [decodeCall, hwhole, hread, hcontent, hlead, strip_lead, harguments]
  rfl

end Calls

/-! ## Each message -/

section Messages

variable {tools : List Function} {description exampleText : List Char} {items : List Item}

/-- The items end with a text, or the text is put behind them. -/
theorem editLast_cases (f : List Char → List Char) (alone : List Char) (items : List Item) :
    (∃ init text cached, items = init ++ [.text text cached] ∧ editLast f alone items = init ++ [.text (f text) cached]) ∨
      (∀ text cached, items.getLast? ≠ some (.text text cached)) ∧ editLast f alone items = items ++ [.text alone false] := by
  rw [editLast]
  cases hlast : items.getLast? with
  | none => exact .inr ⟨nofun, rfl⟩
  | some item =>
    cases item with
    | text text cached =>
      obtain ⟨init, hinit⟩ := List.getLast?_eq_some_iff.mp hlast
      exact .inl ⟨init, text, cached, hinit, by rw [hinit, List.dropLast_concat]⟩
    | image url cached => exact .inr ⟨nofun, rfl⟩

theorem mem_texts {init : List Item} {text : List Char} {cached : Bool} :
    text ∈ (Content.items (init ++ [.text text cached])).texts :=
  List.mem_filterMap.mpr ⟨_, List.mem_append_right _ (List.mem_singleton_self _), rfl⟩

theorem editLast_concat (f : List Char → List Char) (alone : List Char) (init : List Item) (text : List Char) (cached : Bool) :
    editLast f alone (init ++ [.text text cached]) = init ++ [.text (f text) cached] := by
  rw [editLast, List.getLast?_concat]
  dsimp only
  rw [List.dropLast_concat]

theorem editLast_other {f g : List Char → List Char} {alone : List Char} (hlast : ∀ text cached, items.getLast? ≠ some (.text text cached)) :
    editLast f alone items = items ++ [.text alone false] ∧ editLast g [] items = items ++ [.text [] false] := by
  rw [editLast, editLast]
  cases h : items.getLast? with
  | none => exact ⟨rfl, rfl⟩
  | some item =>
    cases item with
    | text text cached => exact absurd h (hlast text cached)
    | image url cached => exact ⟨rfl, rfl⟩

theorem system_back {content : Content} (h : ∀ text ∈ content.texts, ¬ accessLine <:+: text) :
    withoutSuffix description (orEmpty (withSuffix description content)) = systemBack content := by
  cases content with
  | str text =>
    have htext := cutSuffix_append description (h text (List.mem_singleton_self text))
    exact congrArg Content.str htext
  | items items =>
    have hempty (init : List Item) (text : List Char) (cached : Bool) :
        withoutSuffix description (orEmpty (.items (init ++ [.text text cached]))) =
          .items (init ++ [.text (cutSuffix description text) cached]) := by
      have hor : orEmpty (.items (init ++ [.text text cached])) = .items (init ++ [.text text cached]) := by
        cases init <;> rfl
      rw [hor, withoutSuffix, List.getLast?_concat]
      dsimp only
      rw [List.dropLast_concat]
    rw [withSuffix, systemBack]
    rcases editLast_cases id [] items with ⟨init, text, cached, rfl, hback⟩ | ⟨hlast, hback⟩
    · rw [editLast_concat, hempty, cutSuffix_append description (h text mem_texts), hback]
      rfl
    · have hsuffix := @cutSuffix_append [] description (by decide)
      rw [List.nil_append] at hsuffix
      rw [(editLast_other (g := id) hlast).1, hempty, hsuffix, hback]

/-- A call that is written is read, whatever kind of content it stands in. -/
theorem called_back {content : Content} {call : FnCallConverter.ToolCall} (counter : ℕ) (hcall : Decodable tools call)
    (h : ∀ text ∈ content.texts, ¬ functionMark <:+: text) :
    ∃ written, convertToolCallToString call = .ok written ∧
      decodeAssistant tools counter (withCall written content) =
        .ok (calledBack content, some ⟨toolCallId counter, call.name, argumentsBack call⟩) := by
  cases content with
  | str text =>
    obtain ⟨written, hwritten, hread⟩ := decodeCall_written counter hcall (h text (List.mem_singleton_self text))
    refine ⟨written, hwritten, ?_⟩
    rw [withCall, decodeAssistant, hread]
    rfl
  | items items =>
    have hdecode (init : List Item) (text before : List Char) (cached : Bool) (back : FnCallConverter.ToolCall)
        (hread : decodeCall tools counter text = .ok (some (before, back))) :
        decodeAssistant tools counter (.items (init ++ [.text text cached])) = .ok (.items (init ++ [.text before cached]), some back) := by
      rw [decodeAssistant, List.getLast?_concat]
      dsimp only
      rw [hread, List.dropLast_concat]
      rfl
    rw [calledBack]
    rcases editLast_cases strip [] items with ⟨init, text, cached, rfl, hback⟩ | ⟨hlast, hback⟩
    · obtain ⟨written, hwritten, hread⟩ := decodeCall_written counter hcall (h text mem_texts)
      refine ⟨written, hwritten, ?_⟩
      rw [withCall, editLast_concat, hdecode init _ _ cached _ hread, hback]
    · obtain ⟨written, hwritten, hread⟩ := @decodeCall_written _ [] _ counter hcall (by decide)
      refine ⟨written, hwritten, ?_⟩
      have hhead : lstrip ([] ++ '\n' :: '\n' :: written) = written := by
        obtain ⟨cs, rfl⟩ := written_begins hwritten
        rfl
      rw [hhead] at hread
      rw [withCall, (editLast_other (g := strip) hlast).1, hdecode items _ _ false _ hread, hback]
      rfl

theorem assistant_back {content : Content} (counter : ℕ) (h : ∀ text ∈ content.texts, ¬ functionMark <:+: text) :
    decodeAssistant tools counter content = .ok (content, none) := by
  cases content with
  | str text =>
    rw [decodeAssistant, decodeCall_clean counter (h text (List.mem_singleton_self text))]
    rfl
  | items items =>
    have hnone : (Content.items items).texts.any hasCall = false := by
      rw [List.any_eq_false]
      exact fun text htext => by simpa using hasCall_clean (h text htext)
    rcases editLast_cases id [] items with ⟨init, text, cached, rfl, _⟩ | ⟨hlast, _⟩
    · have htext := h text mem_texts
      rw [decodeAssistant, List.getLast?_concat]
      dsimp only
      rw [decodeCall_clean counter htext, fixStopword_clean htext, List.dropLast_concat]
      change (if (Content.items (init ++ [.text text cached])).texts.any hasCall then _ else _) = _
      rw [hnone]
      rfl
    · rw [decodeAssistant]
      split
      · next text cached hsome => exact absurd hsome (hlast text cached)
      · rw [hnone]
        rfl

theorem toolResult?_items (items : List Item) :
    toolResult? (.items items) = (Content.items items).texts.findSome? (search matchResult) := by
  rw [toolResult?, Content.texts]
  induction items with
  | nil => rfl
  | cons item items ih =>
    cases item with
    | text text cached =>
      have hfilter : (Item.text text cached :: items).filterMap Item.text? = text :: items.filterMap Item.text? := rfl
      rw [hfilter, List.findSome?_cons, List.findSome?_cons, ih]
      rfl
    | image url cached => exact ih

theorem toolResult?_clean {content : Content} (h : ∀ text ∈ content.texts, ¬ resultMark <:+: text) : toolResult? content = none := by
  cases content with
  | str text => exact search_clean (h text (List.mem_singleton_self text))
  | items items =>
    rw [toolResult?_items, List.findSome?_eq_none_iff]
    exact fun text htext => search_clean (h text htext)

theorem orEmpty_texts {content : Content} {text : List Char} (h : text ∈ (orEmpty content).texts) : text ∈ content.texts ∨ text = [] := by
  cases content with
  | str text' => exact .inl h
  | items items =>
    cases items with
    | nil => exact .inr (List.mem_singleton.mp h)
    | cons item items => exact .inl h

theorem firstBack_texts {content : Content} {text : List Char} (h : text ∈ (firstBack content).texts) : text ∈ content.texts ∨ text = [] := by
  cases content with
  | str text' => exact .inl h
  | items items =>
    have hframed : text ∈ (Content.items (.text [] false :: items ++ [.text [] false])).texts → text ∈ (Content.items items).texts ∨ text = [] := by
      intro hmem
      obtain ⟨item, hitem, htext⟩ := List.mem_filterMap.mp hmem
      rcases List.mem_append.mp hitem with hitem | hitem
      · rcases List.mem_cons.mp hitem with rfl | hitem
        · exact .inr (Option.some.inj htext).symm
        · exact .inl (List.mem_filterMap.mpr ⟨item, hitem, htext⟩)
      · obtain rfl := List.mem_singleton.mp hitem
        exact .inr (Option.some.inj htext).symm
    cases items with
    | nil => exact hframed h
    | cons item items =>
      cases item with
      | text text' cached => exact .inl h
      | image url cached => exact hframed h

theorem withoutExample_items (h : ∀ text ∈ (Content.items items).texts, cutExample exampleText text = text) :
    withoutExample exampleText (.items items) = .items items := by
  refine congrArg Content.items ((List.map_congr_left fun item hitem => ?_).trans (List.map_id items))
  cases item with
  | text text cached => exact congrArg (Item.text · cached) (h text (List.mem_filterMap.mpr ⟨_, hitem, rfl⟩))
  | image url cached => rfl

theorem withoutExample_clean {content : Content}
    (h : ∀ text ∈ content.texts, ¬ endLine <:+: text ∧ (exampleText ≠ [] → ¬ exampleText <+: text)) :
    withoutExample exampleText content = content := by
  cases content with
  | str text =>
    obtain ⟨hline, hexample⟩ := h text (List.mem_singleton_self text)
    exact congrArg Content.str (cutExample_clean hexample hline)
  | items items => exact withoutExample_items fun text htext => cutExample_clean (h text htext).2 (h text htext).1

/-- The example is taken away; items of its own keep no text. -/
theorem withoutExample_withExample {content : Content} (hexample : exampleText ≠ []) (hsuffix : ¬ exampleText <+: exampleSuffix)
    (h : ∀ text ∈ content.texts, ¬ endLine <:+: text ∧ (exampleText ≠ [] → ¬ exampleText <+: text)) :
    withoutExample exampleText (orEmpty (withExample exampleText content)) = firstBack content := by
  cases content with
  | str text => exact congrArg Content.str (cut_example hexample (h text (List.mem_singleton_self text)).1)
  | items items =>
    have hframed (hclean : ∀ text ∈ (Content.items items).texts, ¬ endLine <:+: text ∧ (exampleText ≠ [] → ¬ exampleText <+: text)) :
        withoutExample exampleText (.items (.text exampleText false :: items ++ [.text exampleSuffix false])) =
          .items (.text [] false :: items ++ [.text [] false]) := by
      have hitems := Content.items.inj (withoutExample_clean hclean)
      rw [withoutExample, List.map_append, List.map_cons, hitems, List.map_singleton]
      dsimp only
      rw [cutExample_example hexample, cutExample_suffix hsuffix]
    cases items with
    | nil => exact hframed h
    | cons item items =>
      cases item with
      | text text cached =>
        have hrest : ∀ t ∈ (Content.items items).texts, ¬ endLine <:+: t ∧ (exampleText ≠ [] → ¬ exampleText <+: t) := fun t ht =>
          h t (List.mem_cons_of_mem _ ht)
        have hitems := Content.items.inj (withoutExample_clean hrest)
        have hfirst := cut_example hexample (h text List.mem_cons_self).1
        change Content.items (.text (cutExample exampleText (exampleText ++ text ++ exampleSuffix)) cached :: items.map _) = _
        rw [hfirst, hitems]
        rfl
      | image url cached => exact hframed h

theorem user_back {content : Content} {seen addExample : Bool} (counter : ℕ) (hsuffix : exampleText ≠ [] → ¬ exampleText <+: exampleSuffix)
    (h : ∀ text ∈ content.texts, ¬ resultMark <:+: text ∧ ¬ endLine <:+: text ∧ (exampleText ≠ [] → ¬ exampleText <+: text)) :
    decodeUser exampleText seen counter
        (orEmpty (if !seen && addExample && exampleText ≠ [] then withExample exampleText content else content)) =
      .user (if !seen && addExample && exampleText ≠ [] then firstBack content else orEmpty content) := by
  have hmark {texts : List (List Char)} (htexts : ∀ text ∈ texts, text ∈ content.texts ∨ text = []) : ∀ text ∈ texts, ¬ resultMark <:+: text := by
    intro text htext
    rcases htexts text htext with hmem | rfl
    · exact (h text hmem).1
    · decide
  split_ifs with hadd
  · simp only [Bool.and_eq_true, Bool.not_eq_true', decide_eq_true_eq] at hadd
    obtain ⟨⟨rfl, _⟩, hexample⟩ := hadd
    rw [decodeUser, if_neg Bool.false_ne_true, withoutExample_withExample hexample (hsuffix hexample) fun text htext => (h text htext).2,
      toolResult?_clean (hmark fun text htext => firstBack_texts htext)]
  · have hclean : (if seen then orEmpty content else withoutExample exampleText (orEmpty content)) = orEmpty content := by
      split_ifs
      · rfl
      · refine withoutExample_clean fun text htext => ?_
        rcases orEmpty_texts htext with hmem | rfl
        · exact (h text hmem).2
        · refine ⟨by decide, fun hne hpre => hne (List.prefix_nil.mp hpre)⟩
    rw [decodeUser, hclean, toolResult?_clean (hmark fun text htext => orEmpty_texts htext)]

theorem texts_editFirst (f : List Char → List Char) (items : List Item) :
    (Content.items (editFirst f items)).texts = match (Content.items items).texts with
      | [] => []
      | text :: texts => f text :: texts := by
  induction items with
  | nil => rfl
  | cons item items ih =>
    cases item with
    | text text cached => rfl
    | image url cached => exact ih

theorem editFirst_ne_nil (f : List Char → List Char) (hne : items ≠ []) : editFirst f items ≠ [] := by
  cases items with
  | nil => exact absurd rfl hne
  | cons item items => cases item <;> exact List.cons_ne_nil _ _

/-- The first text of a result has the name before it. -/
theorem exists_withResult (name : Option String) (items : List Item) :
    ∃ written, withResult name (.items items) = .items written ∧ written ≠ [] ∧
      ∃ rest, (Content.items written).texts = (resultPrefix name ++ (Content.items items).texts.headD []) :: rest := by
  rw [withResult]
  split_ifs with hany
  · obtain ⟨item, hitem, htext⟩ := List.any_eq_true.mp hany
    obtain ⟨text, htext⟩ := Option.isSome_iff_exists.mp htext
    obtain ⟨first, rest, hfirst⟩ : ∃ first rest, (Content.items items).texts = first :: rest :=
      List.exists_cons_of_ne_nil (List.ne_nil_of_mem (List.mem_filterMap.mpr ⟨item, hitem, htext⟩))
    refine ⟨_, rfl, editFirst_ne_nil _ (List.ne_nil_of_mem hitem), rest, ?_⟩
    rw [texts_editFirst, hfirst]
    rfl
  · have hnone : (Content.items items).texts = [] := by
      refine List.filterMap_eq_nil_iff.mpr fun item hitem => ?_
      by_contra hsome
      exact hany (List.any_eq_true.mpr ⟨item, hitem, Option.isSome_iff_ne_none.mpr hsome⟩)
    refine ⟨_, rfl, List.cons_ne_nil _ _, [], ?_⟩
    change resultPrefix name :: (Content.items items).texts = _
    rw [hnone, List.headD_nil, List.append_nil]

theorem exists_withCache {written : List Item} (hne : written ≠ []) :
    ∃ cached, withCache (.items written) = .ok (.items cached) ∧ cached ≠ [] ∧ (Content.items cached).texts = (Content.items written).texts := by
  obtain ⟨init, last, rfl⟩ := (List.eq_nil_or_concat' written).resolve_left hne
  rw [withCache, List.getLast?_concat, List.dropLast_concat]
  refine ⟨_, rfl, List.append_ne_nil_of_right_ne_nil _ (List.cons_ne_nil _ _), ?_⟩
  cases last with
  | text text cached | image url cached =>
    rw [Content.texts, Content.texts, List.filterMap_append, List.filterMap_append]
    rfl

/-- A result comes back as its first text, with the name and the number of the last call. -/
theorem tool_back {content : Content} {name : Option String} {cacheControl : Bool} (counter : ℕ)
    (hname : ']' ∉ (name.getD "function").toList) (hcache : cacheControl = true → ∃ items, content = .items items) :
    ∃ written, (if cacheControl then withCache (withResult name content) else .ok (withResult name content)) = .ok written ∧
      decodeUser exampleText true counter (orEmpty written) =
        .tool (resultBack content) (some (name.getD "function")) (toolCallId (counter - 1)) false := by
  cases content with
  | str text =>
    have hnot : ¬ cacheControl = true := fun h => by
      obtain ⟨items, hitems⟩ := hcache h
      cases hitems
    refine ⟨.str (resultPrefix name ++ text), if_neg hnot, ?_⟩
    rw [orEmpty, decodeUser, if_pos rfl, toolResult?, search_result hname]
    · dsimp only
      rw [String.ofList_toList]
      rfl
    · exact nofun
  | items items =>
    have hread {written : List Item} {texts : List (List Char)} (hne : written ≠ [])
        (htexts : (Content.items written).texts = (resultPrefix name ++ (Content.items items).texts.headD []) :: texts) :
        decodeUser exampleText true counter (orEmpty (.items written)) =
          .tool (resultBack (.items items)) (some (name.getD "function")) (toolCallId (counter - 1)) false := by
      have hor : orEmpty (.items written) = .items written := by
        obtain ⟨item, rest, rfl⟩ := List.exists_cons_of_ne_nil hne
        rfl
      rw [hor, decodeUser, if_pos rfl, toolResult?_items, htexts, List.findSome?_cons, search_result hname]
      dsimp only
      rw [String.ofList_toList]
      rfl
    obtain ⟨written, hwritten, hne, rest, htexts⟩ := exists_withResult name items
    cases cacheControl with
    | false =>
      refine ⟨.items written, ?_, hread hne htexts⟩
      rw [if_neg Bool.false_ne_true, hwritten]
    | true =>
      obtain ⟨cached, hcached, hneCached, htextsCached⟩ := exists_withCache hne
      refine ⟨.items cached, ?_, hread hneCached (htextsCached.trans htexts)⟩
      rw [if_pos rfl, hwritten, hcached]

end Messages

/-! ## The whole conversation -/

section Run

variable {tools : List Function} {description exampleText : List Char} {addExample : Bool}

/-- One message is written and read, then the others are. -/
theorem run_cons {m w back : Message} {ms backs : List Message} {seen : Bool} {counter next : ℕ}
    (hencode : encodeMessage description exampleText addExample seen m = .ok w)
    (hdecode : decodeMessage tools description exampleText seen counter w = .ok (back, next))
    (hseen : (seen || w.isUser) = (seen || m.isUser))
    (hrest : ∃ texts, encodeFrom description exampleText addExample (seen || m.isUser) ms = .ok texts ∧
      decodeFrom tools description exampleText (seen || m.isUser) next texts = .ok backs) :
    ∃ texts, encodeFrom description exampleText addExample seen (m :: ms) = .ok texts ∧
      decodeFrom tools description exampleText seen counter texts = .ok (back :: backs) := by
  obtain ⟨texts, hencodeRest, hdecodeRest⟩ := hrest
  refine ⟨w :: texts, ?_, ?_⟩
  · rw [encodeFrom, hencode]
    change Except.map _ (encodeFrom description exampleText addExample (seen || m.isUser) ms) = _
    rw [hencodeRest]
    rfl
  · rw [decodeFrom, hdecode]
    change Except.map _ (decodeFrom tools description exampleText (seen || w.isUser) next texts) = _
    rw [hseen, hdecodeRest]
    rfl

theorem decodeFrom_encodeFrom (hsuffix : exampleText ≠ [] → ¬ exampleText <+: exampleSuffix) {messages : List Message}
    (h : ∀ m ∈ messages, Admissible tools exampleText m) {seen : Bool} (hordered : Ordered seen messages) (count : ℕ) :
    ∃ texts, encodeFrom description exampleText addExample seen messages = .ok texts ∧
      decodeFrom tools description exampleText seen (count + 1) texts = .ok (backFrom exampleText addExample seen count messages) := by
  induction messages generalizing seen count with
  | nil => exact ⟨[], rfl, rfl⟩
  | cons m ms ih =>
    obtain ⟨hm, hms⟩ := List.forall_mem_cons.mp h
    cases m with
    | system content =>
      rw [Ordered] at hordered
      · have hdecode : decodeMessage tools description exampleText seen (count + 1) (.system (withSuffix description content)) =
            .ok (.system (systemBack content), count + 1) := by
          rw [decodeMessage, system_back hm]
        have hnext : (seen || (Message.system content).isUser) = seen := Bool.or_false seen
        rw [hnext] at hordered
        refine run_cons rfl hdecode rfl ?_
        rw [hnext]
        exact ih hms hordered count
      · exact nofun
    | user content =>
      rw [Ordered] at hordered
      · have hback := @user_back _ _ seen addExample (count + 1) hsuffix hm
        have hdecode : decodeMessage tools description exampleText seen (count + 1)
            (.user (if !seen && addExample && exampleText ≠ [] then withExample exampleText content else content)) =
            .ok (.user (if !seen && addExample && exampleText ≠ [] then firstBack content else orEmpty content), count + 1) := by
          rw [decodeMessage, hback]
        have hall : (seen || (Message.user content).isUser) = true := Bool.or_true seen
        have hrest := ih hms hordered count
        rw [hall] at hrest
        refine run_cons rfl hdecode rfl ?_
        rwa [hall]
      · exact nofun
    | assistant content calls =>
      rw [Ordered] at hordered
      · obtain ⟨htext, hcalls⟩ := hm
        have hnext : (seen || (Message.assistant content calls).isUser) = seen := Bool.or_false seen
        rw [hnext] at hordered
        cases calls with
        | none =>
          have hdecode : decodeMessage tools description exampleText seen (count + 1) (.assistant content none) =
              .ok (.assistant content none, count + 1) := by
            rw [decodeMessage, assistant_back (count + 1) htext]
            rfl
          refine run_cons rfl hdecode rfl ?_
          rw [hnext]
          exact ih hms hordered count
        | some calls =>
          obtain ⟨call, rfl, hcall⟩ := hcalls calls rfl
          obtain ⟨written, hwritten, hread⟩ := called_back (count + 1) hcall htext
          have hencode : encodeMessage description exampleText addExample seen (.assistant content (some [call])) =
              .ok (.assistant (withCall written content) none) := by
            rw [encodeMessage, hwritten]
            rfl
          have hdecode : decodeMessage tools description exampleText seen (count + 1) (.assistant (withCall written content) none) =
              .ok (.assistant (calledBack content) (some [⟨toolCallId (count + 1), call.name, argumentsBack call⟩]), count + 1 + 1) := by
            rw [decodeMessage, hread]
            rfl
          refine run_cons hencode hdecode rfl ?_
          rw [hnext]
          exact ih hms hordered (count + 1)
      · exact nofun
    | tool content name id cacheControl =>
      rw [Ordered] at hordered
      obtain ⟨rfl, hordered⟩ := hordered
      obtain ⟨hname, hcache⟩ := hm
      obtain ⟨written, hwritten, hback⟩ := @tool_back exampleText content _ _ (count + 1) hname hcache
      have hencode : encodeMessage description exampleText addExample true (.tool content name id cacheControl) = .ok (.user written) := by
        rw [encodeMessage, hwritten]
        rfl
      have hdecode : decodeMessage tools description exampleText true (count + 1) (.user written) =
          .ok (.tool (resultBack content) (some (name.getD "function")) (toolCallId count) false, count + 1) := by
        rw [decodeMessage, hback, Nat.add_sub_cancel]
      exact run_cons hencode hdecode rfl (ih hms hordered count)

end Run

/-! ## A conversation with a call -/

def sampleConversation : List Message := [
  .system (.str "S".toList),
  .user (.items [.image "u".toList false]),
  .assistant (.str " I finish. ".toList) (some [finishCall "Done"]),
  .tool (.items [.image "v".toList false, .text "ok\n".toList false]) (some "finish") "call_1" true]

theorem admissible_sample : ∀ m ∈ sampleConversation, Admissible [finish] "Example:".toList m := by
  have hcall : Decodable [finish] (finishCall "Done") :=
    ⟨finish, finishArgs "Done", Json.loads_dumps (wellFormed_finishArgs _), wellFormed_finishArgs _, rfl, fits_finish (by decide),
      by decide, by decide, legible_finish (by decide) (by decide), by decide⟩
  refine List.forall_mem_cons.mpr ⟨?_, List.forall_mem_cons.mpr ⟨?_, List.forall_mem_cons.mpr ⟨⟨?_, ?_⟩, List.forall_mem_singleton.mpr ⟨?_, ?_⟩⟩⟩⟩
  · exact List.forall_mem_singleton.mpr (by decide)
  · exact List.forall_mem_nil _
  · exact List.forall_mem_singleton.mpr (by decide)
  · rintro cs ⟨⟩
    exact ⟨_, rfl, hcall⟩
  · decide
  · exact fun _ => ⟨_, rfl⟩

end OpenHands.FnCallConversation
