import OpenHandsSWE.Memory.PromptBlocks

/-! How every prompt begins: the missing system message and the missing message of the user are put
in front of the history. -/

namespace OpenHands

namespace ConversationMemory

/-- The agent takes the initial user action from the messages of the user. -/
abbrev InitialUserAction := { a : MessageEvent // a.val.source = some .user }

variable {config : AgentConfig} {renderer : Renderer}

/-- What the two repairs promise of the events they leave. -/
structure PrefixRepaired (config : AgentConfig) (renderer : Renderer) (initialUserAction : InitialUserAction)
    (history : List Event) : Prop where
  system : ((prepareEvents config renderer history initialUserAction.val)[0]?).any isSystemMessage = true
  user : ((prepareEvents config renderer history initialUserAction.val)[1]?).any isUserMessage = true
  originals : history.Sublist (prepareEvents config renderer history initialUserAction.val)
  again : prepareEvents config renderer (prepareEvents config renderer history initialUserAction.val)
    initialUserAction.val = prepareEvents config renderer history initialUserAction.val

theorem InitialUserAction.isUserMessage (a : InitialUserAction) : isUserMessage a.val.val = true := by
  have hcls := a.val.property
  cases hbody : a.val.val.body with
  | action act =>
    rw [Event.cls, hbody] at hcls
    cases act <;> simp_all [Action.cls, ConversationMemory.isUserMessage, a.property]
  | observation o => simp [Event.cls, hbody] at hcls
  | plain => simp [Event.cls, hbody] at hcls

/-! ## One repair after the other -/

section Repairs

variable {e u : Event} {events : List Event}

theorem ensureInitialUserMessage_of_user (a : Event) (hu : isUserMessage u = true) :
    ensureInitialUserMessage a (e :: u :: events) = e :: u :: events := by
  rw [ensureInitialUserMessage, if_pos hu]

/-- The second event is a message of the user afterwards, and the first one stays. -/
theorem ensureInitialUserMessage_spec (a : InitialUserAction) (e : Event) (events : List Event) :
    ∃ u rest, ensureInitialUserMessage a.val.val (e :: events) = e :: u :: rest ∧ isUserMessage u = true ∧
      events.Sublist (u :: rest) := by
  cases events with
  | nil => exact ⟨a.val.val, [], rfl, a.isUserMessage, List.nil_sublist _⟩
  | cons f events =>
    by_cases hf : isUserMessage f = true
    · exact ⟨f, events, ensureInitialUserMessage_of_user _ hf, hf, List.Sublist.refl _⟩
    · refine ⟨a.val.val, f :: events, ?_, a.isUserMessage, List.sublist_cons_self _ _⟩
      rw [ensureInitialUserMessage, if_neg hf]

theorem ensureSystemMessage_of_any (h : events.any isSystemMessage = true) :
    ensureSystemMessage config renderer events = events := if_pos h

/-- With a prompt to insert there is a system message afterwards; it is the first event if it was missing. -/
theorem ensureSystemMessage_cases (hprompt : renderer.getSystemMessage config.cliMode ≠ "") (events : List Event) :
    (events.any isSystemMessage = true ∧ ensureSystemMessage config renderer events = events) ∨
      events.any isSystemMessage = false ∧
        ∃ s, ensureSystemMessage config renderer events = s :: events ∧ isSystemMessage s = true := by
  cases hany : events.any isSystemMessage with
  | true => exact .inl ⟨rfl, ensureSystemMessage_of_any hany⟩
  | false =>
    refine .inr ⟨rfl, { body := .action (.systemMessage { content := renderer.getSystemMessage config.cliMode }) }, ?_, rfl⟩
    rw [ensureSystemMessage, hany, if_neg Bool.false_ne_true, if_neg hprompt]

theorem prepareEvents_of_repaired (a : MessageEvent) (hany : (e :: u :: events).any isSystemMessage = true)
    (hu : isUserMessage u = true) : prepareEvents config renderer (e :: u :: events) a = e :: u :: events := by
  rw [prepareEvents, ensureSystemMessage_of_any hany, ensureInitialUserMessage_of_user _ hu]

end Repairs

/-- The prefix is repaired exactly when a system message that is there already is the first event. -/
theorem prefixRepaired_iff (hprompt : renderer.getSystemMessage config.cliMode ≠ "")
    (initialUserAction : InitialUserAction) (history : List Event) :
    PrefixRepaired config renderer initialUserAction history ↔
      (history.any isSystemMessage = true → history.head?.any isSystemMessage = true) := by
  have hprepare : prepareEvents config renderer history initialUserAction.val =
      ensureInitialUserMessage initialUserAction.val.val (ensureSystemMessage config renderer history) := rfl
  rcases ensureSystemMessage_cases hprompt history with ⟨hany, hsystem⟩ | ⟨hnone, s, hsystem, hs⟩
  · -- nothing is put in front, so the first event stays
    cases history with
    | nil => exact absurd hany Bool.false_ne_true
    | cons e events =>
      obtain ⟨u, rest, hrest, hu, hsub⟩ := ensureInitialUserMessage_spec initialUserAction e events
      rw [hsystem, hrest] at hprepare
      have horiginals : (e :: events).Sublist (e :: u :: rest) := hsub.cons_cons e
      constructor
      · intro h _
        have hfirst := h.system
        rw [hprepare] at hfirst
        exact hfirst
      · intro h
        obtain ⟨f, hf, hsystemf⟩ := List.any_eq_true.mp hany
        have hany' : (e :: u :: rest).any isSystemMessage = true :=
          List.any_eq_true.mpr ⟨f, horiginals.subset hf, hsystemf⟩
        constructor
        · rw [hprepare]
          exact h hany
        · rw [hprepare]
          exact hu
        · rw [hprepare]
          exact horiginals
        · rw [hprepare]
          exact prepareEvents_of_repaired _ hany' hu
  · obtain ⟨u, rest, hrest, hu, hsub⟩ := ensureInitialUserMessage_spec initialUserAction s history
    rw [hsystem, hrest] at hprepare
    have hany' : (s :: u :: rest).any isSystemMessage = true := by rw [List.any_cons, hs, Bool.true_or]
    refine iff_of_true ⟨?_, ?_, ?_, ?_⟩ fun h => absurd (hnone.symm.trans h) Bool.false_ne_true
    · rw [hprepare]
      exact hs
    · rw [hprepare]
      exact hu
    · rw [hprepare]
      exact (hsub.cons s)
    · rw [hprepare]
      exact prepareEvents_of_repaired _ hany' hu

/-! A history that a legacy conversation left, and one with the system message after the user's. -/

def promptRenderer : Renderer := { bareRenderer with getSystemMessage := fun _ => "You are an agent" }

def userAction : InitialUserAction := ⟨userMessage, rfl⟩

theorem prefixRepaired_iff_legacy : PrefixRepaired {} promptRenderer userAction [userMessage] ↔
    ([userMessage.val].any isSystemMessage = true → [userMessage.val].head?.any isSystemMessage = true) :=
  prefixRepaired_iff (by decide) userAction [userMessage]

/-- The system message is found, and stays behind the message of the user. -/
theorem systemMessage_stays_second : ¬ ∀ (config : AgentConfig) (renderer : Renderer) (initialUserAction : InitialUserAction)
    (history : List Event), renderer.getSystemMessage config.cliMode ≠ "" →
      PrefixRepaired config renderer initialUserAction history := by
  intro h
  have hfirst := (h {} promptRenderer userAction [userMessage, systemMessage] (by decide)).system
  exact absurd hfirst (by decide)

end ConversationMemory

end OpenHands
