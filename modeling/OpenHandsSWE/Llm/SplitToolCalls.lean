import OpenHandsSWE.Llm.ChatMessage

/-! Messages with several tool calls, split so that each call stands before its result. -/

namespace OpenHands

namespace Chat

/-- Every call of a message waits as a message of its own; the first one keeps the content. -/
def pendToolCalls : Content → List ToolCall → List (String × Message) → Except PyError (List (String × Message))
  | _, [], pending => .ok pending
  | content, call :: calls, pending =>
    match call.id with
    | none => .error (.keyError "id")
    | some id => pendToolCalls (.str "") calls (Assoc.set id (.assistant content (some [call])) pending)

def splitToolCalls (ignoreFinalToolResult : Bool) : List (String × Message) → List Message → Except PyError (List Message)
  | pending, [] =>
    if !ignoreFinalToolResult && pending ≠ [] then
      .error (.functionCallConversion "Found pending tool calls but no tool result")
    else .ok []
  | pending, .assistant content toolCalls :: messages =>
    if 1 < (toolCalls.getD []).length then
      (pendToolCalls content (toolCalls.getD []) pending).bind fun pending =>
        splitToolCalls ignoreFinalToolResult pending messages
    else (splitToolCalls ignoreFinalToolResult pending messages).map (.assistant content toolCalls :: ·)
  | pending, .tool content id name cacheControl :: messages =>
    match Assoc.get? id pending with
    | some call =>
      (splitToolCalls ignoreFinalToolResult (Assoc.erase id pending) messages).map
        ([call, .tool content id name cacheControl] ++ ·)
    | none =>
      if pending = [] then
        (splitToolCalls ignoreFinalToolResult pending messages).map (.tool content id name cacheControl :: ·)
      else .error (.assertionError "Found pending tool calls but not found in pending list")
  | pending, message :: messages =>
    if pending = [] then (splitToolCalls ignoreFinalToolResult pending messages).map (message :: ·)
    else .error (.assertionError "Found pending tool calls but not expect to handle it")

def convertFromMultipleToolCallsToSingleToolCallMessages (messages : List Message) (ignoreFinalToolResult : Bool) :
    Except PyError (List Message) := splitToolCalls ignoreFinalToolResult [] messages

/-! ## What is asked of it -/

/-- The results of all calls follow the calls at once, in any order. -/
def Answered (messages : List Message) : Prop :=
  ∀ before m after, messages = before ++ m :: after → m.toolCalls ≠ [] →
    ∃ results rest, after = results ++ rest ∧ (∀ t ∈ results, t.isTool = true) ∧
      (results.map Message.toolCallId).Perm (m.toolCalls.map ToolCall.id)

def DistinctIds (messages : List Message) : Prop :=
  ∃ ids : List String, (messages.flatMap Message.toolCalls).map ToolCall.id = ids.map some ∧ ids.Nodup

/-- One message for each call, the first with the content and the others without. -/
def singles : Content → List ToolCall → List Message
  | _, [] => []
  | content, call :: calls => .assistant content (some [call]) :: singles (.str "") calls

/-- What a message becomes, wherever its parts go. -/
def Message.parts (m : Message) : List Message :=
  match m with
  | .assistant content (some calls) => if 1 < calls.length then singles content calls else [m]
  | m => [m]

/-- A message has at most one call, and its result comes next. -/
def Adjacent (messages : List Message) : Prop :=
  ∀ before m after, messages = before ++ m :: after →
    m.toolCalls.length ≤ 1 ∧ ∀ call ∈ m.toolCalls, ∃ t rest, after = t :: rest ∧ t.isTool = true ∧ t.toolCallId = call.id

/-- Nothing is lost or doubled, every call stands before its result, and the other messages keep
their order. -/
structure Splits (messages converted : List Message) : Prop where
  perm : converted.Perm (messages.flatMap Message.parts)
  adjacent : Adjacent converted
  order : converted.filter (fun m => !m.isAssistant) = messages.filter fun m => !m.isAssistant

/-! ## Calls before their results -/

section Blocks

variable {messages converted : List Message} {m : Message}

theorem adjacent_nil : Adjacent [] := fun before m after h => by simp at h

theorem adjacent_cons : Adjacent (m :: messages) ↔
    (m.toolCalls.length ≤ 1 ∧
      ∀ call ∈ m.toolCalls, ∃ t rest, messages = t :: rest ∧ t.isTool = true ∧ t.toolCallId = call.id) ∧
    Adjacent messages := by
  constructor
  · intro h
    exact ⟨h [] m messages rfl, fun before m' after heq => h (m :: before) m' after (by rw [heq, List.cons_append])⟩
  · rintro ⟨hhead, htail⟩ before m' after heq
    cases before with
    | nil =>
      obtain ⟨rfl, rfl⟩ := List.cons.inj heq
      exact hhead
    | cons first before =>
      obtain ⟨-, heq⟩ := List.cons.inj heq
      exact htail before m' after heq

theorem Adjacent.append {others : List Message} (h : Adjacent messages) (hothers : Adjacent others) :
    Adjacent (messages ++ others) := by
  induction messages with
  | nil => exact hothers
  | cons m messages ih =>
    obtain ⟨⟨hone, hnext⟩, htail⟩ := adjacent_cons.mp h
    refine adjacent_cons.mpr ⟨⟨hone, fun call hcall => ?_⟩, ih htail⟩
    obtain ⟨t, rest, heq, htool, hid⟩ := hnext call hcall
    exact ⟨t, rest ++ others, by rw [heq]; rfl, htool, hid⟩

/-- Parts of the messages are split on their own. -/
theorem Splits.append {others converted' : List Message} (h : Splits messages converted)
    (hothers : Splits others converted') : Splits (messages ++ others) (converted ++ converted') := by
  refine ⟨?_, h.adjacent.append hothers.adjacent, ?_⟩
  · rw [List.flatMap_append]
    exact h.perm.append hothers.perm
  · rw [List.filter_append, List.filter_append, h.order, hothers.order]

theorem parts_of_le (h : m.toolCalls.length ≤ 1) : m.parts = [m] := by
  unfold Message.parts
  split
  next content calls => exact if_neg (Nat.not_lt.mpr h)
  · rfl

theorem toolCalls_of_tool {t : Message} (h : t.isTool = true) : t.toolCalls = [] := by
  cases t with
  | tool => rfl
  | system | user | assistant => cases h

theorem not_assistant_of_tool {t : Message} (h : t.isTool = true) : t.isAssistant = false := by
  cases t with
  | tool => rfl
  | system | user | assistant => cases h

theorem flatMap_parts_tools {results : List Message} (h : ∀ t ∈ results, t.isTool = true) :
    results.flatMap Message.parts = results := by
  induction results with
  | nil => rfl
  | cons t results ih =>
    have hcalls := toolCalls_of_tool (h t List.mem_cons_self)
    have hparts : t.parts = [t] := parts_of_le (by rw [hcalls]; exact Nat.zero_le 1)
    rw [List.flatMap_cons, hparts, ih fun t' ht' => h t' (List.mem_cons_of_mem t ht'), List.singleton_append]

theorem filter_tools {results : List Message} (h : ∀ t ∈ results, t.isTool = true) :
    results.filter (fun m => !m.isAssistant) = results := by
  refine List.filter_eq_self.mpr fun t ht => ?_
  rw [not_assistant_of_tool (h t ht)]
  rfl

/-- A message without calls stays where it is. -/
theorem splits_plain (h : m.toolCalls = []) : Splits [m] [m] := by
  have hle : m.toolCalls.length ≤ 1 := by rw [h]; exact Nat.zero_le 1
  refine ⟨?_, adjacent_cons.mpr ⟨⟨hle, fun call hcall => ?_⟩, adjacent_nil⟩, rfl⟩
  · rw [List.flatMap_singleton, parts_of_le hle]
  · rw [h] at hcall
    cases hcall

end Blocks

/-! ## The pending calls -/

/-- Calls that wait under their ids. -/
def Waits (pending : List (String × Message)) : Prop :=
  ∀ kv ∈ pending, kv.2.isAssistant = true ∧ ∃ call, kv.2.toolCalls = [call] ∧ call.id = some kv.1

theorem pendToolCalls_eq {calls : List ToolCall} {ids : List String} (content : Content)
    (pending : List (String × Message)) (hids : calls.map ToolCall.id = ids.map some)
    (hnodup : (pending.map Prod.fst ++ ids).Nodup) :
    pendToolCalls content calls pending = .ok (pending ++ ids.zip (singles content calls)) := by
  induction calls generalizing content ids pending with
  | nil =>
    obtain rfl : ids = [] := by simpa using hids.symm
    rw [pendToolCalls, List.zip_nil_left, List.append_nil]
  | cons call calls ih =>
    cases ids with
    | nil => cases hids
    | cons id ids =>
      obtain ⟨hid, hids⟩ := List.cons.inj hids
      have hnew : id ∉ pending.map Prod.fst := fun hmem =>
        (List.disjoint_of_nodup_append hnodup) hmem List.mem_cons_self
      have hnext : ((pending ++ [(id, Message.assistant content (some [call]))]).map Prod.fst ++ ids).Nodup := by
        rwa [List.map_append, List.append_assoc]
      rw [pendToolCalls, hid]
      dsimp only
      rw [Assoc.set_of_notMem _ hnew, ih _ _ hids hnext, List.append_assoc]
      rfl

theorem waits_zip {calls : List ToolCall} {ids : List String} (content : Content)
    (hids : calls.map ToolCall.id = ids.map some) : Waits (ids.zip (singles content calls)) := by
  induction calls generalizing content ids with
  | nil =>
    rw [singles, List.zip_nil_right]
    exact fun kv hkv => by cases hkv
  | cons call calls ih =>
    cases ids with
    | nil => cases hids
    | cons id ids =>
      obtain ⟨hid, hids⟩ := List.cons.inj hids
      rw [singles, List.zip_cons_cons]
      exact List.forall_mem_cons.mpr ⟨⟨rfl, call, rfl, hid⟩, ih _ hids⟩

theorem length_singles (content : Content) (calls : List ToolCall) : (singles content calls).length = calls.length := by
  induction calls generalizing content with
  | nil => rfl
  | cons call calls ih => rw [singles, List.length_cons, ih, List.length_cons]

/-- The results of the pending calls take these out, one after the other. -/
theorem split_results (ignore : Bool) (rest : List Message) {results : List Message} {pending : List (String × Message)}
    (hnodup : (pending.map Prod.fst).Nodup) (hwaits : Waits pending) (htools : ∀ t ∈ results, t.isTool = true)
    (hids : (results.map Message.toolCallId).Perm (pending.map fun kv => some kv.1)) :
    ∃ drained, splitToolCalls ignore pending (results ++ rest) = (splitToolCalls ignore [] rest).map (drained ++ ·) ∧
      drained.Perm (pending.map Prod.snd ++ results) ∧ Adjacent drained ∧
      drained.filter (fun m => !m.isAssistant) = results := by
  induction results generalizing pending with
  | nil =>
    obtain rfl : pending = [] := by simpa using hids.symm.eq_nil
    refine ⟨[], ?_, List.Perm.refl _, adjacent_nil, rfl⟩
    rw [List.nil_append]
    cases splitToolCalls ignore [] rest <;> rfl
  | cons t results ih =>
    obtain ⟨htool, hrest⟩ := List.forall_mem_cons.mp htools
    obtain ⟨content, id, name, cacheControl, rfl⟩ :
        ∃ content id name cacheControl, t = .tool content id name cacheControl := by
      cases t with
      | tool content id name cacheControl => exact ⟨_, _, _, _, rfl⟩
      | system | user | assistant => cases htool
    have hmem : some id ∈ pending.map fun kv => some kv.1 := hids.subset List.mem_cons_self
    obtain ⟨⟨id', call⟩, hcall, heq⟩ := List.mem_map.mp hmem
    obtain rfl : id' = id := Option.some.inj heq
    have hget : Assoc.get? id' pending = some call := Assoc.get?_of_mem hnodup hcall
    have hperm := Assoc.perm_erase hnodup hget
    have hleft : (results.map Message.toolCallId).Perm ((Assoc.erase id' pending).map fun kv => some kv.1) :=
      (hids.trans (hperm.map _)).cons_inv
    have hwaits' : Waits (Assoc.erase id' pending) := fun kv hkv => hwaits kv (Assoc.mem_erase hkv)
    obtain ⟨drained, hsplit, hdrained, hadjacent, horder⟩ := ih (Assoc.nodup_erase hnodup) hwaits' hrest hleft
    obtain ⟨hassistant, c, hc, hid⟩ := hwaits _ hcall
    refine ⟨call :: .tool content id' name cacheControl :: drained, ?_, ?_, ?_, ?_⟩
    · rw [List.cons_append, splitToolCalls, hget]
      dsimp only
      rw [hsplit]
      cases splitToolCalls ignore [] rest <;> rfl
    · have hall := (hdrained.cons (.tool content id' name cacheControl)).cons call
      refine hall.trans (List.Perm.trans (List.Perm.cons call List.perm_middle.symm) ?_)
      exact (hperm.map Prod.snd).symm.append_right _
    · refine adjacent_cons.mpr ⟨⟨by rw [hc]; exact le_rfl, fun c' hc' => ?_⟩,
        adjacent_cons.mpr ⟨⟨Nat.zero_le 1, nofun⟩, hadjacent⟩⟩
      rw [hc] at hc'
      rw [List.mem_singleton.mp hc']
      exact ⟨_, drained, rfl, rfl, hid.symm⟩
    · rw [List.filter_cons_of_neg (by rw [hassistant]; decide), List.filter_cons_of_pos rfl, horder]

/-! ## The conversion -/

theorem Answered.of_suffix {earlier messages : List Message} (h : Answered (earlier ++ messages)) : Answered messages :=
  fun before m after heq => h (earlier ++ before) m after (by rw [heq, List.append_assoc])

theorem DistinctIds.of_suffix {earlier messages : List Message} (h : DistinctIds (earlier ++ messages)) :
    DistinctIds messages := by
  obtain ⟨ids, hids, hnodup⟩ := h
  rw [List.flatMap_append, List.map_append] at hids
  obtain ⟨ids₁, ids₂, rfl, -, hlast⟩ := List.map_eq_append_iff.mp hids.symm
  exact ⟨ids₂, hlast.symm, hnodup.of_append_right⟩

theorem split_plain (ignore : Bool) {m : Message} (h : m.toolCalls.length ≤ 1) (messages : List Message) :
    splitToolCalls ignore [] (m :: messages) = (splitToolCalls ignore [] messages).map (m :: ·) := by
  cases m with
  | system | user => rw [splitToolCalls.eq_def]; exact if_pos rfl
  | tool => rfl
  | assistant content toolCalls =>
    rw [splitToolCalls]
    cases toolCalls with
    | none => rfl
    | some calls => exact if_neg (Nat.not_lt.mpr h)

theorem DistinctIds.head {m : Message} {messages : List Message} (h : DistinctIds (m :: messages)) :
    ∃ ids : List String, m.toolCalls.map ToolCall.id = ids.map some ∧ ids.Nodup := by
  obtain ⟨ids, hids, hnodup⟩ := h
  rw [List.flatMap_cons, List.map_append] at hids
  obtain ⟨ids₁, ids₂, rfl, hfirst, -⟩ := List.map_eq_append_iff.mp hids.symm
  exact ⟨ids₁, hfirst.symm, hnodup.of_append_left⟩

/-- A message with one call and its result. -/
theorem splits_answered {m t : Message} {call : ToolCall} (hcall : m.toolCalls = [call]) (htool : t.isTool = true)
    (hid : t.toolCallId = call.id) : Splits [m, t] [m, t] := by
  have hm : m.toolCalls.length ≤ 1 := by rw [hcall]; exact le_rfl
  have ht : t.toolCalls.length ≤ 1 := by rw [toolCalls_of_tool htool]; exact Nat.zero_le 1
  refine ⟨?_, adjacent_cons.mpr ⟨⟨hm, fun call' hcall' => ?_⟩, (splits_plain (toolCalls_of_tool htool)).adjacent⟩, rfl⟩
  · rw [List.flatMap_cons, List.flatMap_singleton, parts_of_le hm, parts_of_le ht]
    exact List.Perm.refl _
  · rw [hcall] at hcall'
    rw [List.mem_singleton.mp hcall']
    exact ⟨t, [], rfl, htool, hid⟩

/-- A message with several calls and their results. -/
theorem splits_several (ignore : Bool) {content : Content} {calls : List ToolCall} {results : List Message}
    (rest : List Message) (hseveral : 1 < calls.length) (htools : ∀ t ∈ results, t.isTool = true)
    (hresults : (results.map Message.toolCallId).Perm (calls.map ToolCall.id))
    (hids : ∃ ids : List String, calls.map ToolCall.id = ids.map some ∧ ids.Nodup) :
    ∃ drained, splitToolCalls ignore [] (.assistant content (some calls) :: (results ++ rest)) =
        (splitToolCalls ignore [] rest).map (drained ++ ·) ∧
      Splits (.assistant content (some calls) :: results) drained := by
  obtain ⟨ids, hids, hnodup⟩ := hids
  have hlength : ids.length = (singles content calls).length := by
    have hsame := congrArg List.length hids
    rw [List.length_map, List.length_map] at hsame
    rw [length_singles, hsame]
  have hkeys : (ids.zip (singles content calls)).map Prod.fst = ids := List.map_fst_zip hlength.le
  have hvalues : (ids.zip (singles content calls)).map Prod.snd = singles content calls := List.map_snd_zip hlength.ge
  have hpend := pendToolCalls_eq content [] hids (by simpa using hnodup)
  have hnamed : (results.map Message.toolCallId).Perm
      ((ids.zip (singles content calls)).map fun kv => some kv.1) := by
    have hsome : ((ids.zip (singles content calls)).map fun kv => some kv.1) = ids.map some := by
      conv_rhs => rw [← hkeys, List.map_map]
      rfl
    rwa [hsome, ← hids]
  obtain ⟨drained, hsplit, hperm, hadjacent, horder⟩ :=
    split_results ignore rest (by rwa [hkeys]) (waits_zip content hids) htools hnamed
  refine ⟨drained, ?_, ?_, hadjacent, ?_⟩
  · rw [splitToolCalls, Option.getD_some, if_pos hseveral, hpend]
    exact hsplit
  · rw [hvalues] at hperm
    rw [List.flatMap_cons, flatMap_parts_tools htools, Message.parts, if_pos hseveral]
    exact hperm
  · rw [List.filter_cons_of_neg Bool.false_ne_true, filter_tools htools]
    exact horder

/-- Where every call is answered at once, the conversion returns, and every call stands before its
result. -/
theorem convert_splits (messages : List Message) (ignore : Bool) (hanswered : Answered messages)
    (hdistinct : DistinctIds messages) :
    ∃ converted, convertFromMultipleToolCallsToSingleToolCallMessages messages ignore = .ok converted ∧
      Splits messages converted := by
  unfold convertFromMultipleToolCallsToSingleToolCallMessages
  induction hlength : messages.length using Nat.strong_induction_on generalizing messages with
  | _ n ih =>
    cases messages with
    | nil =>
      refine ⟨[], ?_, List.Perm.refl _, adjacent_nil, rfl⟩
      rw [splitToolCalls]
      simp
    | cons m messages =>
      by_cases hcalls : m.toolCalls = []
      · -- the message is no call
        have hle : m.toolCalls.length ≤ 1 := by rw [hcalls]; exact Nat.zero_le 1
        obtain ⟨converted, hok, hsplits⟩ := ih messages.length (by rw [← hlength]; exact Nat.lt_succ_self _) messages
          (Answered.of_suffix (show Answered ([m] ++ messages) from hanswered))
          (DistinctIds.of_suffix (show DistinctIds ([m] ++ messages) from hdistinct)) rfl
        exact ⟨m :: converted, by rw [split_plain ignore hle, hok]; rfl, (splits_plain hcalls).append hsplits⟩
      · obtain ⟨results, rest, rfl, htools, hresults⟩ := hanswered [] m messages rfl hcalls
        obtain ⟨converted, hok, hsplits⟩ := ih rest.length (by simp [← hlength]) rest
          (Answered.of_suffix (show Answered ((m :: results) ++ rest) from hanswered))
          (DistinctIds.of_suffix (show DistinctIds ((m :: results) ++ rest) from hdistinct)) rfl
        by_cases hseveral : 1 < m.toolCalls.length
        · obtain ⟨content, calls, rfl⟩ : ∃ content calls, m = .assistant content (some calls) := by
            unfold Message.toolCalls at hcalls
            split at hcalls
            next content calls => exact ⟨content, calls, rfl⟩
            · exact absurd rfl hcalls
          have hperm : (results.map Message.toolCallId).Perm (calls.map ToolCall.id) := hresults
          have hids : ∃ ids : List String, calls.map ToolCall.id = ids.map some ∧ ids.Nodup := hdistinct.head
          have hlong : 1 < calls.length := hseveral
          obtain ⟨drained, hsplit, hdrained⟩ := splits_several ignore rest hlong htools hperm hids
          exact ⟨drained ++ converted, by rw [hsplit, hok]; rfl, hdrained.append hsplits⟩
        · -- one call and its result are taken as they are
          obtain ⟨call, hcall⟩ : ∃ call, m.toolCalls = [call] := by
            refine List.length_eq_one_iff.mp ?_
            have hpos := List.length_pos_of_ne_nil hcalls
            omega
          rw [hcall] at hresults
          obtain ⟨t, rfl⟩ : ∃ t, results = [t] := by
            refine List.length_eq_one_iff.mp ?_
            simpa using hresults.length_eq
          have htool := htools t List.mem_cons_self
          have hid : t.toolCallId = call.id := by simpa using hresults
          have ht : t.toolCalls = [] := toolCalls_of_tool htool
          refine ⟨[m, t] ++ converted, ?_, (splits_answered hcall htool hid).append hsplits⟩
          rw [split_plain ignore (by rw [hcall]; exact le_rfl), List.singleton_append,
            split_plain ignore (by rw [ht]; exact Nat.zero_le 1), hok]
          rfl

section Example

/-- Two files are read at once, and the second answer comes first. -/
def twoReads : List Message :=
  [.user (.str "compare a and b"),
   .assistant (.str "I read both")
     (some [⟨none, some "call_a", some "function", some ⟨"read", "\x7b\x7d"⟩⟩,
       ⟨none, some "call_b", some "function", some ⟨"read", "\x7b\x7d"⟩⟩]),
   .tool (.str "text of b") "call_b" (some "read") false, .tool (.str "text of a") "call_a" (some "read") false,
   .user (.str "thanks")]

theorem answered_cons {m : Message} {messages : List Message}
    (h : m.toolCalls ≠ [] → ∃ results rest, messages = results ++ rest ∧ (∀ t ∈ results, t.isTool = true) ∧
      (results.map Message.toolCallId).Perm (m.toolCalls.map ToolCall.id))
    (hmessages : Answered messages) : Answered (m :: messages) := by
  intro before m' after heq hcalls
  cases before with
  | nil =>
    obtain ⟨rfl, rfl⟩ := List.cons.inj heq
    exact h hcalls
  | cons first before => exact hmessages before m' after (List.cons.inj heq).2 hcalls

theorem answered_nil : Answered [] := fun before m after heq => by simp at heq

theorem twoReads_answered : Answered twoReads := by
  refine answered_cons (absurd rfl) (answered_cons (fun _ => ?_) ?_)
  · exact ⟨[.tool (.str "text of b") "call_b" (some "read") false, .tool (.str "text of a") "call_a" (some "read") false],
      [.user (.str "thanks")], rfl, by decide, by decide⟩
  · exact answered_cons (absurd rfl) (answered_cons (absurd rfl) (answered_cons (absurd rfl) answered_nil))

theorem convert_splits_twoReads : Answered twoReads ∧ DistinctIds twoReads ∧
    ∃ converted, convertFromMultipleToolCallsToSingleToolCallMessages twoReads false = .ok converted ∧
      Splits twoReads converted :=
  have hids : DistinctIds twoReads := ⟨["call_a", "call_b"], rfl, by decide⟩
  ⟨twoReads_answered, hids, convert_splits twoReads false twoReads_answered hids⟩

end Example

end Chat

end OpenHands
