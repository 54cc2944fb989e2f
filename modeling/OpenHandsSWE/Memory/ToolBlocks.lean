import OpenHandsSWE.Memory.ConversationMemory

/-! Requests and results in blocks: what every prompt looks like, and whose results it shows. -/

namespace OpenHands

namespace ConversationMemory

/-! ## Blocks -/

/-- Neither a result nor a request. -/
def Plain (m : Message) : Prop := m.role ≠ .tool ∧ (m.role = .assistant → m.toolCalls.getD [] = [])

/-- Requests directly followed by their results; `block` says what the two have to do with each
other. -/
inductive InBlocks (block : Message → List Message → Prop) : List Message → Prop where
  | nil : InBlocks block []
  | plain {m : Message} {ms : List Message} (hm : Plain m) (h : InBlocks block ms) :
      InBlocks block (m :: ms)
  | request {m : Message} {tools ms : List Message} (hm : block m tools) (h : InBlocks block ms) :
      InBlocks block (m :: (tools ++ ms))

/-- One result for each call, in the order of the calls, with the same id. -/
def ToolBlock (m : Message) (tools : List Message) : Prop :=
  m.role = .assistant ∧ ∃ calls, m.toolCalls = some calls ∧ calls ≠ [] ∧
    List.Forall₂ (fun tc t => t.role = .tool ∧ t.toolCallId = tc.id) calls tools

namespace InBlocks

variable {block block' : Message → List Message → Prop}

theorem append {ms ns : List Message} (hm : InBlocks block ms) (hn : InBlocks block ns) :
    InBlocks block (ms ++ ns) := by
  induction hm with
  | nil => exact hn
  | plain hm _ ih => exact .plain hm ih
  | request hm _ ih => simpa only [List.cons_append, List.append_assoc] using InBlocks.request hm ih

theorem mono (hb : ∀ m tools, block m tools → block' m tools) {ms : List Message}
    (h : InBlocks block ms) : InBlocks block' ms := by
  induction h with
  | nil => exact .nil
  | plain hm _ ih => exact .plain hm ih
  | request hm _ ih => exact .request (hb _ _ hm) ih

/-- What a list in blocks begins with. -/
theorem head {m : Message} {ms : List Message} (h : InBlocks block (m :: ms)) :
    (Plain m ∧ InBlocks block ms) ∨
      ∃ tools rest, block m tools ∧ ms = tools ++ rest ∧ InBlocks block rest := by
  generalize hl : m :: ms = l at h
  cases h with
  | nil => cases hl
  | plain hm h =>
    cases hl
    exact .inl ⟨hm, h⟩
  | request hm h =>
    cases hl
    exact .inr ⟨_, _, hm, rfl, h⟩

/-- A message that is no request stands alone. -/
theorem tail {m : Message} {ms : List Message} (hblock : ∀ m tools, block m tools → m.role = .assistant)
    (h : InBlocks block (m :: ms)) (hm : m.role ≠ .assistant) : Plain m ∧ InBlocks block ms := by
  rcases h.head with h | ⟨tools, rest, hb, _⟩
  · exact h
  · exact absurd (hblock m tools hb) hm

theorem of_plain {ms : List Message} (h : ∀ m ∈ ms, Plain m) : InBlocks block ms := by
  induction ms with
  | nil => exact .nil
  | cons m ms ih =>
    rw [List.forall_mem_cons] at h
    exact .plain h.1 (ih h.2)

end InBlocks

/-! ## The final passes keep the blocks -/

/-- A block in which every call has an id, and not the empty one. -/
def IdentifiedBlock (m : Message) (tools : List Message) : Prop :=
  ToolBlock m tools ∧ ∀ tc ∈ m.toolCalls.getD [], ∃ id, tc.id = some id ∧ id ≠ ""

theorem mem_toolCallIds {ms : List Message} {m : Message} (hm : m ∈ ms) (hrole : m.role = .assistant)
    {tc : ToolCall} (htc : tc ∈ m.toolCalls.getD []) {id : String} (hid : tc.id = some id)
    (hne : id ≠ "") : id ∈ toolCallIds ms := by
  refine List.mem_flatMap.mpr ⟨m, hm, ?_⟩
  rw [if_pos hrole]
  exact List.mem_filterMap.mpr ⟨tc, htc, by simp [hid, hne]⟩

theorem mem_toolResponseIds {ms : List Message} {m : Message} (hm : m ∈ ms) (hrole : m.role = .tool)
    {id : String} (hid : m.toolCallId = some id) (hne : id ≠ "") : id ∈ toolResponseIds ms :=
  List.mem_filterMap.mpr ⟨m, hm, by simp [hrole, hid, hne]⟩

theorem filterMessage_plain {m : Message} (hm : Plain m) (callIds responseIds : List String) :
    filterMessage callIds responseIds m = some m := by
  obtain ⟨hrole, hcalls⟩ := hm
  rw [filterMessage, if_neg (fun h => hrole h.1), if_neg]
  rintro ⟨ha, hne⟩
  exact hne (hcalls ha)

theorem filterMessage_tool {m : Message} (hrole : m.role = .tool) {id : String}
    (hid : m.toolCallId = some id) (hne : id ≠ "") {callIds : List String} (hmem : id ∈ callIds)
    (responseIds : List String) : filterMessage callIds responseIds m = some m := by
  simp [filterMessage, hrole, hid, hne, hmem]

theorem filterMessage_request {m : Message} (hrole : m.role = .assistant) {calls : List ToolCall}
    (hcalls : m.toolCalls = some calls) {responseIds : List String}
    (hall : ∀ tc ∈ calls, ∃ id, tc.id = some id ∧ id ∈ responseIds) (callIds : List String) :
    filterMessage callIds responseIds m = some m := by
  have hmatched : calls.all (matched responseIds) = true := by
    rw [List.all_eq_true]
    intro tc htc
    obtain ⟨id, hid, hmem⟩ := hall tc htc
    simp [matched, hid, hmem]
  rw [filterMessage, hcalls, Option.getD_some, hmatched]
  simp [hrole]

theorem Forall₂_mem_right {α β : Type*} {R : α → β → Prop} {xs : List α} {ys : List β}
    (h : List.Forall₂ R xs ys) {y : β} (hy : y ∈ ys) : ∃ x ∈ xs, R x y := by
  induction h with
  | nil => simp at hy
  | cons hr _ ih =>
    rcases List.mem_cons.mp hy with rfl | hy
    · exact ⟨_, List.mem_cons_self .., hr⟩
    · obtain ⟨x, hx, hxy⟩ := ih hy
      exact ⟨x, List.mem_cons_of_mem _ hx, hxy⟩

theorem Forall₂_mem_left {α β : Type*} {R : α → β → Prop} {xs : List α} {ys : List β}
    (h : List.Forall₂ R xs ys) {x : α} (hx : x ∈ xs) : ∃ y ∈ ys, R x y :=
  Forall₂_mem_right h.flip hx

/-- Every message of a list in blocks survives the filter of a list that contains it. -/
theorem filterMap_blocks {all ms : List Message} (h : InBlocks IdentifiedBlock ms) (hsub : ms ⊆ all) :
    ms.filterMap (filterMessage (toolCallIds all) (toolResponseIds all)) = ms := by
  induction h with
  | nil => rfl
  | @plain m ms hm _ ih =>
    rw [List.filterMap_cons, filterMessage_plain hm, ih fun x hx => hsub (List.mem_cons_of_mem _ hx)]
  | @request m tools ms hm _ ih =>
    obtain ⟨⟨hrole, calls, hcalls, _, hforall⟩, hids⟩ := hm
    rw [hcalls, Option.getD_some] at hids
    have hm_all : m ∈ all := hsub (List.mem_cons_self ..)
    have htools : ∀ t ∈ tools, t ∈ all := fun t ht =>
      hsub (List.mem_cons_of_mem _ (List.mem_append_left _ ht))
    have hrequest : filterMessage (toolCallIds all) (toolResponseIds all) m = some m := by
      refine filterMessage_request hrole hcalls (fun tc htc => ?_) _
      obtain ⟨id, hid, hne⟩ := hids tc htc
      obtain ⟨t, ht, htrole, htid⟩ := Forall₂_mem_left hforall htc
      exact ⟨id, hid, mem_toolResponseIds (htools t ht) htrole (htid.trans hid) hne⟩
    have hresults : tools.filterMap (filterMessage (toolCallIds all) (toolResponseIds all)) = tools := by
      have hsome : ∀ t ∈ tools, filterMessage (toolCallIds all) (toolResponseIds all) t = some t := by
        intro t ht
        obtain ⟨tc, htc, htrole, htid⟩ := Forall₂_mem_right hforall ht
        obtain ⟨id, hid, hne⟩ := hids tc htc
        have hcall : id ∈ toolCallIds all :=
          mem_toolCallIds hm_all hrole (by rw [hcalls]; exact htc) hid hne
        exact filterMessage_tool htrole (htid.trans hid) hne hcall _
      calc tools.filterMap (filterMessage (toolCallIds all) (toolResponseIds all))
          = tools.filterMap some := List.filterMap_congr hsome
        _ = tools := List.filterMap_some
    have hrest := ih fun x hx => hsub (List.mem_cons_of_mem _ (List.mem_append_right _ hx))
    rw [List.filterMap_cons, hrequest, List.filterMap_append, hresults, hrest]

/-- Nothing is unmatched in a list in blocks with ids. -/
theorem filterUnmatchedToolCalls_blocks {ms : List Message} (h : InBlocks IdentifiedBlock ms) :
    filterUnmatchedToolCalls ms = ms :=
  filterMap_blocks h (List.Subset.refl ms)

theorem applyUserMessageFormatting_append (prevRole : Option Role) (ms ns : List Message) :
    ∃ lastRole, applyUserMessageFormatting prevRole (ms ++ ns) =
      applyUserMessageFormatting prevRole ms ++ applyUserMessageFormatting lastRole ns := by
  induction ms generalizing prevRole with
  | nil => exact ⟨prevRole, rfl⟩
  | cons m ms ih =>
    obtain ⟨lastRole, h⟩ := ih (some m.role)
    exact ⟨lastRole, by rw [List.cons_append, applyUserMessageFormatting, h]; rfl⟩

theorem applyUserMessageFormatting_of_ne_user (prevRole : Option Role) {ms : List Message}
    (h : ∀ m ∈ ms, m.role ≠ .user) : applyUserMessageFormatting prevRole ms = ms := by
  induction ms generalizing prevRole with
  | nil => rfl
  | cons m ms ih =>
    rw [List.forall_mem_cons] at h
    rw [applyUserMessageFormatting, if_neg (fun hu => h.1 hu.1), ih _ h.2]

/-- Only texts of user messages are changed, and those are in no block. -/
theorem applyUserMessageFormatting_blocks {block : Message → List Message → Prop}
    (hblock : ∀ m tools, block m tools → ToolBlock m tools) (prevRole : Option Role)
    {ms : List Message} (h : InBlocks block ms) :
    InBlocks block (applyUserMessageFormatting prevRole ms) := by
  induction h generalizing prevRole with
  | nil => exact .nil
  | @plain m ms hm _ ih =>
    rw [applyUserMessageFormatting]
    refine .plain ?_ (ih _)
    split_ifs
    · exact hm
    · exact hm
  | @request m tools ms hm _ ih =>
    have hne : ∀ x ∈ m :: tools, x.role ≠ .user := by
      obtain ⟨hrole, calls, _, _, hforall⟩ := hblock m tools hm
      refine List.forall_mem_cons.mpr ⟨by rw [hrole]; decide, fun t ht => ?_⟩
      obtain ⟨_, _, htrole, _⟩ := Forall₂_mem_right hforall ht
      rw [htrole]
      decide
    obtain ⟨lastRole, hsplit⟩ := applyUserMessageFormatting_append prevRole (m :: tools) ms
    rw [List.cons_append] at hsplit
    rw [hsplit, applyUserMessageFormatting_of_ne_user prevRole hne]
    exact .request hm (ih lastRole)

end ConversationMemory

end OpenHands
