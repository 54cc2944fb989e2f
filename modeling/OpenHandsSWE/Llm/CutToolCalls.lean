import OpenHandsSWE.Llm.FnCallConverter

/-! A reply that the model ends at the stop word: the text of a call without a part of its closing tag is
read as the whole text is. -/

namespace OpenHands.FnCallConverter
open Text

/-! ## What the patterns match -/

section Patterns

variable {cs name value body : List Char}

theorem functionEnd_eq : functionEnd = "</function".toList ++ ['>'] := by decide

theorem parameterEnd_stop : parameterEnd = "</parameter".toList ++ ['>'] := by decide

/-- The letters before and after the first stop. -/
theorem takeWhile_split {p : Char → Bool} {c : Char} {after : List Char} (h : cs.dropWhile p = c :: after) :
    cs = cs.takeWhile p ++ c :: after := by
  rw [← h, List.takeWhile_append_dropWhile]

theorem notMem_takeWhile (c : Char) : c ∉ cs.takeWhile (· != c) := by
  intro h
  simpa using List.mem_takeWhile_imp h

theorem matchParameter_some {m : (List Char × List Char) × Nat} (h : matchParameter cs = some m) :
    ∃ after, cs = parameterMark ++ (m.1.1 ++ '>' :: (m.1.2 ++ (parameterEnd ++ after))) ∧ m.1.1 ≠ [] ∧ '>' ∉ m.1.1 ∧
      ¬ parameterEnd <:+: m.1.2 := by
  unfold matchParameter at h
  split at h
  · next hmark =>
    obtain ⟨rest, rfl⟩ := hmark
    rw [List.drop_left] at h
    dsimp only at h
    split at h
    · next after hdrop =>
      split at h
      · cases h
      · next hne =>
        obtain ⟨value, hvalue, rfl⟩ := Option.map_eq_some_iff.mp h
        obtain ⟨rest', hrest⟩ := upTo_occurs hvalue
        refine ⟨rest', ?_, hne, notMem_takeWhile '>', upTo_clean (by decide) hvalue⟩
        rw [← List.append_assoc value, hrest, ← takeWhile_split hdrop]
    · cases h
  · cases h

theorem matchMalformed_eq (after : List Char) (hname : name ≠ []) (hword : ∀ c ∈ name, isWord c = true) (hvalue : '<' ∉ value) :
    matchMalformed (parameterMark ++ (name ++ '=' :: (value ++ (parameterEnd ++ after)))) =
      some (parameterMark ++ (name ++ '>' :: (value ++ parameterEnd)),
        parameterMark.length + name.length + value.length + parameterEnd.length) := by
  obtain ⟨htake, hdrop⟩ := takeWhile_stop (value ++ (parameterEnd ++ after)) hword (c := '=') (by decide)
  have hopen : ∀ c ∈ value, (c != '<') = true := fun c hc => bne_iff_ne.mpr fun heq => hvalue (heq ▸ hc)
  have hend : parameterEnd ++ after = '<' :: ("/parameter>".toList ++ after) := by rw [parameterEnd_eq, List.cons_append]
  have hvalueEnd : (value ++ (parameterEnd ++ after)).takeWhile (· != '<') = value ∧
      parameterEnd <+: (value ++ (parameterEnd ++ after)).dropWhile (· != '<') := by
    obtain ⟨htake', hdrop'⟩ := takeWhile_stop ("/parameter>".toList ++ after) hopen (c := '<') rfl
    rw [hend]
    refine ⟨htake', ?_⟩
    rw [hdrop', ← hend]
    exact List.prefix_append parameterEnd after
  rw [matchMalformed, if_pos (List.prefix_append _ _), List.drop_left]
  dsimp only
  rw [htake, hdrop]
  refine (if_pos ⟨hname, hvalueEnd.2⟩).trans ?_
  exact congrArg (fun v => some (parameterMark ++ (name ++ '>' :: (v ++ parameterEnd)),
    parameterMark.length + name.length + v.length + parameterEnd.length)) hvalueEnd.1

theorem matchMalformed_some {m : List Char × Nat} (h : matchMalformed cs = some m) :
    ∃ name value after, cs = parameterMark ++ (name ++ '=' :: (value ++ (parameterEnd ++ after))) ∧ name ≠ [] ∧
      (∀ c ∈ name, isWord c = true) ∧ '<' ∉ value := by
  obtain ⟨name, value, after, hcs, hne, hword, hvalue⟩ := matchMalformed_isSome.mp (Option.isSome_of_mem h)
  exact ⟨name, value, after, hcs, hne, hword, hvalue⟩

/-! ### Behind the last tag -/

variable {tail : List Char}

/-- A tag ends before a tail without its last letter. -/
theorem tag_before_tail {u tag mark : List Char} (after : List Char) (htail : '>' ∉ tail)
    (h : u ++ tail = tag ++ (mark ++ ['>'] ++ after)) : ∃ after', u = tag ++ (mark ++ ['>'] ++ after') := by
  have hbegins : (tag ++ mark) ++ ['>'] <+: u := by
    apply begins_before_rest htail
    exact ⟨after, by rw [h]; simp⟩
  obtain ⟨after', rfl⟩ := hbegins
  exact ⟨after', by simp⟩

theorem ignores_matchParameter (htail : '>' ∉ tail) : Ignores matchParameter tail := by
  intro u t ht
  have ht : '>' ∉ t := fun hmem => htail (ht.subset hmem)
  refine Option.ext fun m => ⟨fun h => ?_, fun h => ?_⟩
  · obtain ⟨after, hcs, hne, hstop, hvalue⟩ := matchParameter_some h
    have hform : u ++ t = (parameterMark ++ (m.1.1 ++ '>' :: m.1.2)) ++ ("</parameter".toList ++ ['>'] ++ after) := by
      rw [hcs, parameterEnd_stop]
      simp
    obtain ⟨after', rfl⟩ := tag_before_tail after ht hform
    rw [hcs, matchParameter_eq after hne hstop hvalue] at h
    rw [← h, ← matchParameter_eq after' hne hstop hvalue, parameterEnd_stop]
    simp
  · obtain ⟨after, rfl, hne, hstop, hvalue⟩ := matchParameter_some h
    rw [matchParameter_eq after hne hstop hvalue] at h
    rw [← h, ← matchParameter_eq (after ++ t) hne hstop hvalue]
    simp

theorem ignores_matchMalformed (htail : '>' ∉ tail) : Ignores matchMalformed tail := by
  intro u t ht
  have ht : '>' ∉ t := fun hmem => htail (ht.subset hmem)
  refine Option.ext fun m => ⟨fun h => ?_, fun h => ?_⟩
  · obtain ⟨name, value, after, hcs, hne, hword, hvalue⟩ := matchMalformed_some h
    have hform : u ++ t = (parameterMark ++ (name ++ '=' :: value)) ++ ("</parameter".toList ++ ['>'] ++ after) := by
      rw [hcs, parameterEnd_stop]
      simp
    obtain ⟨after', rfl⟩ := tag_before_tail after ht hform
    rw [hcs, matchMalformed_eq after hne hword hvalue] at h
    rw [← h, ← matchMalformed_eq after' hne hword hvalue, parameterEnd_stop]
    simp
  · obtain ⟨name, value, after, rfl, hne, hword, hvalue⟩ := matchMalformed_some h
    rw [matchMalformed_eq after hne hword hvalue] at h
    rw [← h, ← matchMalformed_eq (after ++ t) hne hword hvalue]
    simp

/-- What is left of a closing tag adds no argument. -/
theorem arguments_append (htail : '>' ∉ tail) (body : List Char) :
    findIter matchParameter 0 (normalizeParameterTags (body ++ tail)) =
      findIter matchParameter 0 (normalizeParameterTags body) := by
  obtain ⟨t, ht, hsub⟩ := sub_append_tail (ignores_matchMalformed htail) (by decide) 0 body
  -- what the repair makes of the tail is a tail of the tail
  rw [normalizeParameterTags, hsub]
  exact findIter_append ((ignores_matchParameter htail).suffix ht) (by decide) 0 _

end Patterns

/-! ## The call in the text -/

section Calls

variable {name rest body lead left after : List Char}

theorem matchFunction_tag (hname : '>' ∉ name) (c : Char) (after : List Char) :
    matchFunction (functionMark ++ (name ++ '>' :: c :: after)) =
      if c = '\n' ∧ name ≠ [] then (upTo functionEnd after).map (name, ·) else none := by
  obtain ⟨htake, hdrop⟩ := takeWhile_stop (c :: after) (ne_stop hname) (c := '>') rfl
  rw [matchFunction, if_pos (List.prefix_append _ _), List.drop_left]
  dsimp only
  rw [htake, hdrop]
  by_cases hc : c = '\n'
  · subst hc
    by_cases hne : name = []
    · rw [if_neg fun h => h.2 hne]
      exact if_pos hne
    · rw [if_pos ⟨rfl, hne⟩]
      exact if_neg hne
  · rw [if_neg fun h => hc h.1]
    split
    · next heq => exact absurd (List.cons.inj (List.cons.inj heq).2).1 hc
    · rfl

/-- Behind the body the first closing tag is found, if the body has none. -/
theorem upTo_left (body : List Char) :
    ∃ found, ∀ left after, '>' ∉ left → ∃ tail, '>' ∉ tail ∧
      upTo functionEnd (body ++ (left ++ (functionEnd ++ after))) = some (found ++ tail) := by
  by_cases hbody : functionEnd <:+: body
  · obtain ⟨found, hfound⟩ := exists_upTo hbody
    refine ⟨found, fun left after _ => ⟨[], List.not_mem_nil, ?_⟩⟩
    rw [upTo_append hfound, List.append_nil]
  · refine ⟨body, fun left after hleft => ⟨left, hleft, ?_⟩⟩
    have hclean : ¬ functionEnd <:+: body ++ left := by
      rintro ⟨u, v, huv⟩
      rw [functionEnd_eq, ← List.append_assoc] at huv
      obtain ⟨v', hv'⟩ := begins_before_rest hleft ⟨v, huv⟩
      exact hbody ⟨u, v', by rw [functionEnd_eq, ← List.append_assoc, hv']⟩
    rw [← List.append_assoc body]
    exact upTo_first after (by decide) hclean

/-- The tag of the function with the closing tag wherever it is: the bodies differ at most by what is left of
a cut tag. -/
theorem matchFunction_left (hname : '>' ∉ name) (c : Char) (rest : List Char) :
    (∀ left after, matchFunction (functionMark ++ (name ++ '>' :: c :: (rest ++ (left ++ (functionEnd ++ after))))) = none) ∨
      ∃ body, ∀ left after, '>' ∉ left → ∃ tail, '>' ∉ tail ∧
        matchFunction (functionMark ++ (name ++ '>' :: c :: (rest ++ (left ++ (functionEnd ++ after))))) =
          some (name, body ++ tail) := by
  by_cases hc : c = '\n' ∧ name ≠ []
  · obtain ⟨body, hbody⟩ := upTo_left rest
    refine .inr ⟨body, fun left after hleft => ?_⟩
    obtain ⟨tail, htail, hfound⟩ := hbody left after hleft
    refine ⟨tail, htail, ?_⟩
    rw [matchFunction_tag hname, if_pos hc, hfound]
    rfl
  · refine .inl fun left after => ?_
    rw [matchFunction_tag hname, if_neg hc]

theorem functionMark_eq : functionMark = '<' :: "function=".toList := by decide

/-- The only mark of a function is behind the lead. -/
theorem search_once (hlead : ¬ functionMark <:+: lead) (hrest : ¬ functionMark <:+: rest) :
    search matchFunction (lead ++ (functionMark ++ rest)) = matchFunction (functionMark ++ rest) := by
  have hnone {u : List Char} (h : ¬ functionMark <+: u) : matchFunction u = none := by rw [matchFunction, if_neg h]
  rw [search_append]
  · have htail : search matchFunction ("function=".toList ++ rest) = none := by
      apply search_of_none
      intro u hu _
      apply hnone
      intro h
      have hin := h.isInfix.trans hu.isInfix
      rw [functionMark_eq] at hin
      exact hrest (functionMark_eq ▸ infix_past (by decide) hin)
    rw [functionMark_eq, List.cons_append, search, htail, Option.or_none]
  · intro u hu hne
    apply hnone
    intro h
    rw [functionMark_eq, List.cons_append] at h
    have hin := (begins_before_first (by decide) hne h).isInfix
    rw [← functionMark_eq] at hin
    exact hlead (hin.trans hu.isInfix)

/-! ## The mark of a function in the arguments -/

theorem infix_paramText {n : String} {v : Json} (h : functionMark <:+: paramText n v) :
    functionMark <:+: n.toList ∨ functionMark <:+: valueText v := by
  have hmark : NoOverlap functionMark parameterMark :=
    .of_borders (by decide) (by decide) (by decide) (by decide)
  have hend : NoOverlap functionMark parameterEnd :=
    .of_borders (by decide) (by decide) (by decide) (by decide)
  have hnil : ¬ functionMark <:+: [] := by decide
  have hline : ¬ functionMark <:+: ['\n'] := by decide
  rcases hmark.infix_append (u := []) h with h | h
  · exact absurd h hnil
  · rcases infix_at_letter (by decide) (by decide) h with h | h
    · exact .inl h
    · refine .inr ?_
      have hvalue := (hend.infix_append h).resolve_right hline
      unfold paramValue at hvalue
      split_ifs at hvalue
      · -- a text of several lines is on lines of its own
        have hinner := (infix_at_letter (u := []) (by decide) (by decide) hvalue).resolve_left hnil
        exact (infix_at_letter (by decide) (by decide) hinner).resolve_right hnil
      · exact hvalue

theorem unmarked_arguments {args : List (String × Json)} {more : List Char}
    (hkeys : ∀ kv ∈ args, ¬ functionMark <:+: kv.1.toList) (hvalues : ∀ kv ∈ args, ¬ functionMark <:+: valueText kv.2)
    (hmore : ¬ functionMark <:+: more) : ¬ functionMark <:+: args.flatMap (fun kv => paramText kv.1 kv.2) ++ more := by
  induction args with
  | nil => exact hmore
  | cons kv args ih =>
    obtain ⟨hkey, hkeys⟩ := List.forall_mem_cons.mp hkeys
    obtain ⟨hvalue, hvalues⟩ := List.forall_mem_cons.mp hvalues
    intro h
    have hsplit : ((kv :: args).flatMap fun kv => paramText kv.1 kv.2) ++ more =
        (parameterMark ++ (kv.1.toList ++ '>' :: (paramValue kv.2 ++ parameterEnd))) ++
          '\n' :: (args.flatMap (fun kv => paramText kv.1 kv.2) ++ more) := by
      simp [paramText]
    rw [hsplit] at h
    rcases infix_at_letter (by decide) (by decide) h with h | h
    · have hin : functionMark <:+: paramText kv.1 kv.2 := by
        refine h.trans ⟨[], ['\n'], ?_⟩
        simp [paramText]
      exact (infix_paramText hin).elim hkey hvalue
    · exact ih hkeys hvalues h

/-- No other mark in what stands behind the mark of the call. -/
theorem unmarked_inner {call : ToolCall} {args : List (String × Json)} {more : List Char}
    (hname : ¬ functionMark <:+: call.name.toList) (hkeys : ∀ kv ∈ args, ¬ functionMark <:+: kv.1.toList)
    (hvalues : ∀ kv ∈ args, ¬ functionMark <:+: valueText kv.2) (hmore : ¬ functionMark <:+: more) :
    ¬ functionMark <:+: call.name.toList ++ '>' :: '\n' :: (args.flatMap (fun kv => paramText kv.1 kv.2) ++ more) := by
  intro h
  rcases infix_at_letter (by decide) (by decide) h with h | h
  · exact hname h
  · rcases infix_at_letter (u := []) (by decide) (by decide) h with h | h
    · exact absurd h (by decide)
    · exact unmarked_arguments hkeys hvalues hmore h

end Calls

/-! ## The reply -/

/-- What is done with the name and the body of a call. -/
def readCall (tools : List Function) (counter : Nat) (name body : List Char) : Except FnCallError (List ToolCall) :=
  match tools.find? fun f => f.name == String.ofList name with
  | none => .error (.functionNotFound (String.ofList name))
  | some f =>
    (extractAndValidateParams f (findIter matchParameter 0 (normalizeParameterTags body))).map fun params =>
      [⟨toolCallId counter, String.ofList name, (Json.obj params).dumps⟩]

section Replies

variable {tools : List Function} {counter : Nat} {text name body tail : List Char}

theorem fromText_none (h : search matchFunction (fixStopword text) = none) :
    (fromText tools counter text).map AssistantMessage.toolCalls = .ok [] := by
  rw [fromText, h]
  rfl

theorem fromText_some (h : search matchFunction (fixStopword text) = some (name, body)) :
    (fromText tools counter text).map AssistantMessage.toolCalls = readCall tools counter name body := by
  rw [fromText, readCall, h]
  dsimp only
  cases tools.find? fun f => f.name == String.ofList name with
  | none => rfl
  | some f =>
    dsimp only
    cases extractAndValidateParams f (findIter matchParameter 0 (normalizeParameterTags body)) <;> rfl

theorem readCall_append (htail : '>' ∉ tail) :
    readCall tools counter name (body ++ tail) = readCall tools counter name body := by
  unfold readCall
  rw [arguments_append htail]

/-- However the closing tag of a call is completed, the same call is read. -/
theorem fromText_completed (tools : List Function) (counter : Nat) {lead inner : List Char}
    (hinner : ∃ name c rest, '>' ∉ name ∧ inner = name ++ '>' :: c :: rest) (hlead : ¬ functionMark <:+: lead) :
    ∃ calls, ∀ text left after, '>' ∉ left →
      fixStopword text = lead ++ (functionMark ++ (inner ++ (left ++ (functionEnd ++ after)))) →
      ¬ functionMark <:+: inner ++ (left ++ (functionEnd ++ after)) →
      (fromText tools counter text).map AssistantMessage.toolCalls = calls := by
  obtain ⟨name, c, rest, hname, rfl⟩ := hinner
  have hform (more : List Char) : name ++ '>' :: c :: rest ++ more = name ++ '>' :: c :: (rest ++ more) := by
    rw [List.append_assoc, List.cons_append, List.cons_append]
  -- whether the first tag opens a call does not depend on what is behind it
  rcases matchFunction_left hname c rest with hnone | ⟨body, hbody⟩
  · refine ⟨.ok [], fun text left after _ htext hclean => fromText_none ?_⟩
    rw [htext, search_once hlead hclean, hform, hnone]
  · refine ⟨readCall tools counter name body, fun text left after hleft htext hclean => ?_⟩
    obtain ⟨tail, htail, hmatch⟩ := hbody left after hleft
    rw [fromText_some (by rw [htext, search_once hlead hclean, hform, hmatch]), readCall_append htail]

/-- The first tag is closed somewhere, and the text goes on behind it. -/
theorem exists_name (name rest : List Char) (c : Char) :
    ∃ name' c' rest', '>' ∉ name' ∧ name ++ '>' :: c :: rest = name' ++ '>' :: c' :: rest' := by
  by_cases hname : '>' ∈ name
  · obtain ⟨name', rest', rfl, hname'⟩ := List.eq_append_cons_of_mem hname
    cases rest' with
    | nil => exact ⟨name', '>', c :: rest, hname', by simp⟩
    | cons d rest' => exact ⟨name', d, rest' ++ '>' :: c :: rest, hname', by simp⟩
  · exact ⟨name, c, rest, hname, rfl⟩

/-- A call without the rest of its closing tag, or with all of it, is completed. -/
theorem fixStopword_cut {lead inner : List Char} (hlead : ¬ functionMark <:+: lead)
    (hinner : ∀ more, ¬ functionMark <:+: more → ¬ functionMark <:+: inner ++ more)
    (hend : ∃ start, inner = start ++ ['>', '\n']) {k : Nat} (hk : k ≤ functionEnd.length) :
    ∃ left after, '>' ∉ left ∧ ¬ functionMark <:+: inner ++ (left ++ (functionEnd ++ after)) ∧
      fixStopword (lead ++ (functionMark ++ (inner ++ functionEnd.take k))) =
        lead ++ (functionMark ++ (inner ++ (left ++ (functionEnd ++ after)))) := by
  have hcut : ∀ k ≤ functionEnd.length, ¬ functionMark <:+: functionEnd.take k := by decide
  have honce : (split functionMark (lead ++ (functionMark ++ (inner ++ functionEnd.take k)))).length = 2 := by
    have hparts := split_once (m := "function=".toList) (by decide) (functionMark_eq ▸ hlead)
      (functionMark_eq ▸ hinner _ (hcut k hk))
    rw [functionMark_eq, hparts]
    rfl
  obtain ⟨start, hstart⟩ := hend
  have hform : lead ++ (functionMark ++ (inner ++ functionEnd.take k)) =
      (lead ++ functionMark ++ start) ++ (['>', '\n'] ++ functionEnd.take k) := by
    rw [hstart]
    simp only [List.append_assoc]
  unfold fixStopword
  rw [if_pos honce]
  by_cases htwo : k = 2
  · -- the tag is completed where it was cut
    subst htwo
    have htag : functionEnd.take 2 = ['<'] ++ ['/'] := by decide
    have hslash : "</".toList <:+ lead ++ (functionMark ++ (inner ++ functionEnd.take 2)) :=
      ⟨lead ++ (functionMark ++ inner), by rw [htag]; simp⟩
    have hlast : lead ++ (functionMark ++ (inner ++ functionEnd.take 2)) =
        (lead ++ (functionMark ++ (inner ++ ['<']))) ++ ['/'] := by rw [htag]; simp
    have hclean : ¬ functionMark <:+: [] ++ (functionEnd ++ []) := by decide
    have htag' : ['<'] ++ (['/'] ++ "function>".toList) = functionEnd := by decide
    refine ⟨[], [], List.not_mem_nil, hinner _ hclean, ?_⟩
    rw [if_pos hslash, hlast, rstrip_of_last _ (by decide), List.nil_append, List.append_nil, ← htag']
    simp only [List.append_assoc]
  · have hslash : ¬ "</".toList <:+ lead ++ (functionMark ++ (inner ++ functionEnd.take k)) := by
      intro h
      rw [hform] at h
      have hshort := List.suffix_of_suffix_length_le h (List.suffix_append _ _) (by simp)
      have hends : ∀ k ≤ functionEnd.length, k ≠ 2 → ¬ "</".toList <:+ ['>', '\n'] ++ functionEnd.take k := by decide
      exact hends k hk htwo hshort
    rw [if_neg hslash]
    by_cases hall : k = functionEnd.length
    · refine ⟨[], '\n' :: functionEnd, List.not_mem_nil, hinner _ (by decide), ?_⟩
      rw [hall, List.take_length]
      simp
    · have hleft : ∀ k < functionEnd.length, '>' ∉ functionEnd.take k ++ ['\n'] ∧
          ¬ functionMark <:+: functionEnd.take k ++ ['\n'] ++ (functionEnd ++ []) := by decide
      obtain ⟨hstop, hclean⟩ := hleft k (lt_of_le_of_ne hk hall)
      exact ⟨functionEnd.take k ++ ['\n'], [], hstop, hinner _ hclean, by simp⟩

theorem arguments_end (name : List Char) (args : List (String × Json)) :
    ∃ start, name ++ '>' :: '\n' :: args.flatMap (fun kv => paramText kv.1 kv.2) = start ++ ['>', '\n'] := by
  rcases List.eq_nil_or_concat args with rfl | ⟨args, kv, rfl⟩
  · exact ⟨name, rfl⟩
  · refine ⟨name ++ '>' :: '\n' :: (args.flatMap (fun kv => paramText kv.1 kv.2) ++
      (parameterMark ++ (kv.1.toList ++ '>' :: (paramValue kv.2 ++ "</parameter".toList)))), ?_⟩
    simp [paramText, parameterEnd_stop]

/-- A call whose closing tag is cut is read as if it were not, when no name has the mark of a function. -/
theorem fromText_cut (tools : List Function) (counter : Nat) {lead written : List Char} {call : ToolCall}
    {args : List (String × Json)} (hargs : Json.loads call.arguments = some (.obj args))
    (hwritten : convertToolCallToString call = .ok written) (hlead : ¬ functionMark <:+: lead)
    (hname : ¬ functionMark <:+: call.name.toList) (hkeys : ∀ kv ∈ args, ¬ functionMark <:+: kv.1.toList)
    (hvalues : ∀ kv ∈ args, ¬ functionMark <:+: valueText kv.2) {cut : Nat} (hcut : cut ≤ functionEnd.length) :
    (fromText tools counter ((lead ++ written).rdrop cut)).map AssistantMessage.toolCalls =
      (fromText tools counter (lead ++ written)).map AssistantMessage.toolCalls := by
  let inner := call.name.toList ++ '>' :: '\n' :: args.flatMap fun kv => paramText kv.1 kv.2
  have hform : lead ++ written = lead ++ (functionMark ++ (inner ++ functionEnd)) := by
    unfold convertToolCallToString at hwritten
    rw [hargs] at hwritten
    rw [← Except.ok.inj hwritten]
    simp [inner]
  have hrest : (lead ++ written).rdrop cut =
      lead ++ (functionMark ++ (inner ++ functionEnd.take (functionEnd.length - cut))) := by
    have hlength : (lead ++ (functionMark ++ (inner ++ functionEnd))).length - cut =
        (lead ++ functionMark ++ inner).length + (functionEnd.length - cut) := by
      simp only [List.length_append]
      omega
    rw [List.rdrop, hform, hlength, ← List.append_assoc functionMark, ← List.append_assoc lead, ← List.append_assoc lead,
      List.take_length_add_append]
    simp only [List.append_assoc]
  have hclean : ∀ more, ¬ functionMark <:+: more → ¬ functionMark <:+: inner ++ more := by
    intro more hmore
    have hinner : inner ++ more =
        call.name.toList ++ '>' :: '\n' :: (args.flatMap (fun kv => paramText kv.1 kv.2) ++ more) := by
      simp [inner]
    rw [hinner]
    exact unmarked_inner hname hkeys hvalues hmore
  obtain ⟨calls, hcalls⟩ := fromText_completed tools counter (exists_name call.name.toList _ '\n') hlead
  have hread {k : Nat} (hk : k ≤ functionEnd.length) :
      (fromText tools counter (lead ++ (functionMark ++ (inner ++ functionEnd.take k)))).map AssistantMessage.toolCalls =
        calls := by
    obtain ⟨left, after, hleft, hunmarked, hfix⟩ := fixStopword_cut hlead hclean (arguments_end _ _) hk
    exact hcalls _ left after hleft hfix hunmarked
  have hwhole := hread le_rfl
  rw [List.take_length] at hwhole
  rw [hrest, hform, hwhole]
  exact hread (Nat.sub_le _ _)

theorem fromText_cut_done : ¬ functionMark <:+: "I am done.\n\n".toList ∧ ∃ written,
    convertToolCallToString (finishCall "All tests pass") = .ok written ∧
    (fromText [finish] 1 (("I am done.\n\n".toList ++ written).rdrop 4)).map AssistantMessage.toolCalls =
      (fromText [finish] 1 ("I am done.\n\n".toList ++ written)).map AssistantMessage.toolCalls := by
  have hloads := Json.loads_dumps (wellFormed_finishArgs "All tests pass")
  have hlead : ¬ functionMark <:+: "I am done.\n\n".toList := by decide
  have hwritten : ∃ written, convertToolCallToString (finishCall "All tests pass") = .ok written := by
    unfold convertToolCallToString finishCall
    rw [hloads]
    exact ⟨_, rfl⟩
  obtain ⟨written, hwritten⟩ := hwritten
  exact ⟨hlead, written, hwritten, fromText_cut [finish] 1 hloads hwritten hlead (by decide)
    (fun kv hkv => by rw [List.mem_singleton.mp hkv]; decide) (fun kv hkv => by rw [List.mem_singleton.mp hkv]; decide)
    (by decide)⟩

/-! ### A name with the mark of a function -/

def markedName : String := "a<function=b"

def markedCall : ToolCall := ⟨"call_1", markedName, (Json.obj []).dumps⟩

/-- The mark is there twice, so that nothing is repaired. -/
theorem cut_marked_name : ¬ ∀ (tools : List Function) (counter : Nat) (lead written : List Char) (call : ToolCall)
    (args : List (String × Json)) (cut : Nat), Json.loads call.arguments = some (.obj args) →
    convertToolCallToString call = .ok written → ¬ functionMark <:+: lead →
    (∀ kv ∈ args, Clean [functionMark, parameterMark, parameterEnd, functionEnd] (valueText kv.2)) →
    1 ≤ cut → cut ≤ functionEnd.length →
      (fromText tools counter ((lead ++ written).rdrop cut)).map AssistantMessage.toolCalls =
        (fromText tools counter (lead ++ written)).map AssistantMessage.toolCalls := by
  intro h
  have hloads : Json.loads markedCall.arguments = some (.obj []) :=
    Json.loads_dumps (Json.wellFormed_obj List.nodup_nil fun j hj => absurd hj List.not_mem_nil)
  have hwritten : convertToolCallToString markedCall = .ok ("<function=a<function=b>\n</function>".toList) := by
    unfold convertToolCallToString
    rw [hloads]
    decide
  have heq := h [⟨markedName, none⟩] 1 [] _ markedCall [] 1 hloads hwritten (by decide)
    (fun kv hkv => absurd hkv List.not_mem_nil) le_rfl (by decide)
  have hfound : search matchFunction (fixStopword ([] ++ "<function=a<function=b>\n</function>".toList)) =
      some ("a<function=b".toList, []) := by decide
  rw [fromText_none (by decide), fromText_some hfound] at heq
  unfold readCall at heq
  rw [List.find?_cons_of_pos (by rw [String.ofList_toList]; exact beq_self_eq_true markedName)] at heq
  cases heq

end Replies

end OpenHands.FnCallConverter
