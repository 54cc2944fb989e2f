import OpenHandsSWE.Controller.Session
import OpenHandsSWE.Events.Delivered

/-! What the controller can do to the objects it keeps, to the runtime's pool and to the record of a
run: every handler is a chain of a few effects. -/

namespace OpenHands

open Program

/-- What a turn leaves to see: the pending object of the controller, and its part of the desk. -/
structure Ledger where
  isDelegate : Bool
  pending : Option Nat
  heap : List Obj
  toRuntime : List Delivery
  trace : List Entry

def Turn.ledger (t : Turn) : Ledger :=
  ⟨t.isDelegate, t.self.pending, t.desk.heap, t.desk.toRuntime, t.desk.trace⟩

/-- The same object but for what neither its class nor its confirmation depends on. -/
structure Obj.Alike (o o' : Obj) : Prop where
  body : o'.event.body = o.event.body
  adHoc : o'.adHoc = o.adHoc

namespace Ledger

def note (l : Ledger) (m : Mark) : Ledger := { l with trace := l.trace ++ [⟨l.isDelegate, m⟩] }

/-- The pending object with its number. -/
def current (l : Ledger) : Option (Nat × Obj) :=
  l.pending.bind fun k => (l.heap[k]?).map fun o => (k, o)

def hold (l : Ledger) (o : Obj) : Ledger :=
  let l' :=
    match l.current with
    | some (k, before) => l.note (.overwritten k before)
    | none => l
  { l' with heap := l.heap ++ [o], pending := some l.heap.length }

def launch (l : Ledger) (o : Obj) : Ledger :=
  { l.note (.returned l.heap.length) with
    heap := l.heap ++ [o]
    pending := if o.event.runnable then some l.heap.length else l.pending }

/-- The object is given an id to go into the stream; a copy of it reaches the pools unless the call
raises. -/
def Sends (out : Outside) (l : Ledger) (byStep : Bool) (k : Nat) (o : Obj) (l' : Ledger) : Prop :=
  ∃ stamped secrets toRuntime, o.Alike stamped ∧
    (toRuntime = l.toRuntime ∨
      ∃ delivered, Copy out secrets o.event.body delivered ∧
        toRuntime = Desk.arrive 0 ⟨delivered, some k⟩ l.toRuntime) ∧
    l' = { l.note (.emitted k byStep stamped.event.id o secrets) with
           heap := l.heap.set k stamped, toRuntime }

end Ledger

/-- What a controller does in its turn. -/
inductive Effect (out : Outside) (l : Ledger) : Ledger → Prop where
  | post (place : Nat) (e : Event) :
      Effect out l { l with toRuntime := Desk.arrive place ⟨e, none⟩ l.toRuntime }
  | observe (cause : Option Int) : Effect out l (l.note (.observed cause))
  | settle (k : Nat) (o : Obj) (hpending : l.pending = some k) (ho : l.heap[k]? = some o)
      (hseen : l.trace.getLast? = some ⟨l.isDelegate, .observed (some o.event.id)⟩) :
      Effect out l { l with pending := none }
  | reset : Effect out l { l.note .reset with pending := none }
  | hold (o : Obj) (hrunnable : o.event.runnable = false) : Effect out l (l.hold o)
  | launch (o : Obj) (hpending : l.pending = none) : Effect out l (l.launch o)
  | touch (k : Nat) (o o' : Obj) (ho : l.heap[k]? = some o) (halike : o.Alike o')
      (hid : o'.event.id = o.event.id) : Effect out l { l with heap := l.heap.set k o' }
  | trigger (k : Nat) (o : Obj) (ho : l.heap[k]? = some o) (hrunnable : o.event.runnable = false)
      (l' : Ledger) (hsends : l.Sends out false k o l') : Effect out l l'
  | act (k : Nat) (o : Obj) (ho : l.heap[k]? = some o)
      (hlast : l.trace.getLast? = some ⟨l.isDelegate, .returned k⟩)
      (hpending : o.event.runnable = true → l.pending = some k)
      (l' : Ledger) (hsends : l.Sends out true k o l') : Effect out l l'
  | command (k : Nat) (o : Obj) (status : ActionConfirmationStatus) (old : Unchecked AgentState)
      (hstatus : status ≠ .awaitingConfirmation) (hpending : l.pending = some k)
      (ho : l.heap[k]? = some o) (l' : Ledger)
      (hsends : Ledger.Sends out { l.note (.commanded k status old o) with
        heap := l.heap.set k (o.commanded status) } false k (o.commanded status) l') :
      Effect out l l'

/-- An effect of the controller itself, or of a delegate in its turn. -/
inductive Move (out : Outside) (l l' : Ledger) : Prop where
  | own (h : Effect out l l')
  | ofDelegate (pending pending' : Option Nat)
      (h : Effect out { l with isDelegate := true, pending } { l' with isDelegate := true, pending := pending' })
      (hpending : l'.pending = l.pending) (hdelegate : l'.isDelegate = l.isDelegate)

theorem Effect.isDelegate {out : Outside} {l l' : Ledger} (h : Effect out l l') : l'.isDelegate = l.isDelegate := by
  cases h with
  | hold o =>
    unfold Ledger.hold
    cases l.current <;> rfl
  | trigger _ _ _ _ _ hsends | act _ _ _ _ _ _ hsends | command _ _ _ _ _ _ _ _ hsends =>
    obtain ⟨_, _, _, -, -, rfl⟩ := hsends
    rfl
  | _ => rfl

/-- The record of a run only grows, by marks of the one whose turn it is. -/
theorem Effect.trace_marks {out : Outside} {l l' : Ledger} (h : Effect out l l') :
    ∃ marks : List Mark, l'.trace = l.trace ++ marks.map (Entry.mk l.isDelegate) := by
  cases h with
  | post | settle | touch => exact ⟨[], (List.append_nil _).symm⟩
  | observe cause => exact ⟨[.observed cause], rfl⟩
  | reset => exact ⟨[.reset], rfl⟩
  | launch o => exact ⟨[.returned l.heap.length], rfl⟩
  | hold o =>
    unfold Ledger.hold
    cases l.current with
    | none => exact ⟨[], (List.append_nil _).symm⟩
    | some held => exact ⟨[.overwritten held.1 held.2], rfl⟩
  | trigger k o _ _ _ hsends =>
    obtain ⟨stamped, secrets, _, -, -, rfl⟩ := hsends
    exact ⟨[.emitted k false stamped.event.id o secrets], rfl⟩
  | act k o _ _ _ _ hsends =>
    obtain ⟨stamped, secrets, _, -, -, rfl⟩ := hsends
    exact ⟨[.emitted k true stamped.event.id o secrets], rfl⟩
  | command k o status old _ _ _ _ hsends =>
    obtain ⟨stamped, secrets, _, -, -, rfl⟩ := hsends
    refine ⟨[.commanded k status old o, .emitted k false stamped.event.id (o.commanded status) secrets], ?_⟩
    exact List.append_assoc _ _ _

theorem Effect.trace_grows {out : Outside} {l l' : Ledger} (h : Effect out l l') : l.trace <+: l'.trace := by
  obtain ⟨marks, heq⟩ := h.trace_marks
  rw [heq]
  exact List.prefix_append _ _

/-- What is done in a delegate's turn is done to the desk, and leaves its parent as it is. -/
theorem moves_ofDelegate {out : Outside} {l l' : Ledger} (h : Relation.ReflTransGen (Move out) l l')
    (hdelegate : l.isDelegate = true) (isDelegate : Bool) (pending : Option Nat) :
    l'.isDelegate = true ∧
      Relation.ReflTransGen (Move out) { l with isDelegate, pending } { l' with isDelegate, pending } := by
  induction h with
  | refl => exact ⟨hdelegate, .refl⟩
  | @tail l₁ l₂ _ hlast ih =>
    obtain ⟨hmid, ih⟩ := ih
    cases hlast with
    | own heffect =>
      have hlater := heffect.isDelegate.trans hmid
      refine ⟨hlater, ih.tail (.ofDelegate l₁.pending l₂.pending ?_ rfl rfl)⟩
      convert heffect using 1
      · rw [← hmid]
      · rw [← hlater]
    | ofDelegate p p' heffect hpending hsame =>
      exact ⟨hsame.trans hmid, ih.tail (.ofDelegate p p' heffect rfl rfl)⟩

/-! ## Adding events -/

section Adding

variable (out : Outside) (clock : Int → String) (d : Desk)

/-- A call of `add_event` leaves the objects and the record, and puts at most one copy in the pool. -/
theorem Desk.add_ledger (place : Nat) (object : Option Nat) (e : Event) (source : EventSource) :
    (d.add out clock place object e source).2.heap = d.heap ∧
    (d.add out clock place object e source).2.trace = d.trace ∧
    ((d.add out clock place object e source).2.toRuntime = d.toRuntime ∨
      ∃ delivered, Copy out (d.stream.secrets.map Prod.snd) e.body delivered ∧
        (d.add out clock place object e source).2.toRuntime =
          arrive place ⟨delivered, object⟩ d.toRuntime) := by
  unfold Desk.add
  split_ifs
  · exact ⟨rfl, rfl, .inl rfl⟩
  · dsimp only
    split
    · exact ⟨rfl, rfl, .inl rfl⟩
    next data delivered hprep =>
      obtain ⟨raw, hraw, rfl, hread⟩ := EventStream.prepare_ok hprep
      have hcopy : Copy out (d.stream.secrets.map Prod.snd) e.body delivered :=
        ⟨EventStream.stamp e source (clock d.stream.curId) d.stream.curId, raw, rfl, hraw, hread⟩
      exact ⟨rfl, rfl, .inr ⟨delivered, hcopy, rfl⟩⟩

/-- An object without an id is sent. -/
theorem Desk.addObject_sends (isDelegate byStep : Bool) (k : Nat) {o : Obj} (source : EventSource)
    (pending : Option Nat) (hid : o.event.id = INVALID_ID) :
    Ledger.Sends out ⟨isDelegate, pending, d.heap, d.toRuntime, d.trace⟩ byStep k o
      ⟨isDelegate, pending, (d.addObject out clock isDelegate byStep k o source).2.heap,
        (d.addObject out clock isDelegate byStep k o source).2.toRuntime,
        (d.addObject out clock isDelegate byStep k o source).2.trace⟩ := by
  let stamped : Obj :=
    { o with event := EventStream.stamp o.event source (clock d.stream.curId) d.stream.curId }
  let noted := { d with heap := d.heap.set k stamped }.note isDelegate
    (.emitted k byStep d.stream.curId o (d.stream.secrets.map Prod.snd))
  have hadd : d.addObject out clock isDelegate byStep k o source =
      noted.add out clock 0 (some k) o.event source := by
    unfold Desk.addObject
    rw [if_neg (not_not.mpr hid)]
  obtain ⟨hheap, htrace, hpool⟩ :=
    noted.add_ledger out clock 0 (some k) o.event source
  rw [hadd, hheap, htrace]
  exact ⟨stamped, _, _, ⟨rfl, rfl⟩, hpool, rfl⟩

end Adding

/-- What an action still has to find when it goes into the stream. -/
def Turn.unsent (t : Turn) : Bool × Option Nat × List Obj × List Entry :=
  (t.isDelegate, t.self.pending, t.desk.heap, t.desk.trace)

namespace Controller

def Acts (out : Outside) {α : Type} (m : Ctl α) (t : Turn) : Prop :=
  Leads Turn.ledger (Move out) m t

variable {out : Outside} {clock : Int → String} {α : Type}

/-! ## The steps at the desk -/

theorem after_atDesk (f : Turn → Except PyError Unit × Desk) (t : Turn) :
    after (atDesk f) t = { t with desk := (f t).2 } := by
  unfold atDesk
  rw [after_bind]
  show after _ t = _
  rw [after_bind]
  show after _ { t with desk := (f t).2 } = _
  cases (f t).1 <;> rfl

theorem addEvent_acts (e : Event) (source : EventSource) (t : Turn) :
    Acts out (addEvent out clock e source) t := by
  obtain ⟨hheap, htrace, hpool⟩ := t.desk.add_ledger out clock 0 none e source
  unfold Acts addEvent Leads
  rw [after_atDesk]
  unfold Turn.ledger
  rw [hheap, htrace]
  rcases hpool with hpool | ⟨delivered, -, hpool⟩
  · rw [hpool]
  · rw [hpool]
    exact Relation.ReflTransGen.single (.own (.post 0 delivered))

theorem modifySelf_acts {f : Controller → Controller} {t : Turn}
    (h : (f t.self).pending = t.self.pending) : Acts out (modifySelf f) t := by
  refine Leads.unseen ?_
  show Turn.ledger { t with self := f t.self } = t.ledger
  unfold Turn.ledger
  rw [h]

theorem Acts.get_bind {k : Turn → Ctl α} {t : Turn} (h : Acts out (k t) t) : Acts out (get >>= k) t :=
  Leads.bind (.unseen rfl) fun a ha => by
    obtain rfl : t = a := Except.ok.inj ha
    exact h

theorem provided_acts {p : Prop} [Decidable p] {m : Ctl Unit} {t : Turn} (h : p → Acts out m t) :
    Acts out (provided p m) t := by
  unfold provided
  split
  next hp => exact h hp
  · exact .pure _ _

theorem current_eq_some {t : Turn} {k : Nat} {o : Obj} (h : t.current = some (k, o)) :
    t.self.pending = some k ∧ t.desk.heap[k]? = some o := by
  obtain ⟨k', hpending, h⟩ := Option.bind_eq_some_iff.mp h
  obtain ⟨o', ho, heq⟩ := Option.map_eq_some_iff.mp h
  cases heq
  exact ⟨hpending, ho⟩

theorem withPending_acts {f : Nat → Obj → Ctl Unit} {t : Turn}
    (h : ∀ k o, t.self.pending = some k → t.desk.heap[k]? = some o → Acts out (f k o) t) :
    Acts out (withPending f) t := by
  unfold withPending
  refine Acts.get_bind ?_
  split
  next k o hcurrent =>
    obtain ⟨hpending, ho⟩ := current_eq_some hcurrent
    exact h k o hpending ho
  · exact .pure _ _

theorem reset_acts (t : Turn) : Acts out (reset out clock) t := by
  unfold reset
  refine Leads.bind (withPending_acts fun k o _ _ => ?_) fun _ _ => Leads.single (.own .reset)
  exact Acts.get_bind (provided_acts fun _ => addEvent_acts ..)

theorem command_acts {status : ActionConfirmationStatus} (hstatus : status ≠ .awaitingConfirmation)
    (old : Unchecked AgentState) (t : Turn) :
    Acts out (command out clock status old) t := by
  unfold command
  refine withPending_acts fun k o hpending ho => Leads.single (.own (.command k o status old hstatus hpending ho _ ?_))
  let noted := t.desk.note t.isDelegate (.commanded k status old o)
  let commanded : Desk := { noted with heap := t.desk.heap.set k (o.commanded status) }
  have hk := (List.getElem?_eq_some_iff.mp ho).1
  have hget : commanded.heap[k]? = some (o.commanded status) := List.getElem?_set_self hk
  have hid : (o.commanded status).event.id = INVALID_ID := rfl
  have hafter : after (do
      mark (.commanded k status old o)
      setObject k (o.commanded status)
      addObject out clock false k .agent) t =
      { t with desk := (commanded.addObject out clock t.isDelegate false k (o.commanded status) .agent).2 } := by
    rw [after_bind]
    show after (addObject out clock false k .agent) { t with desk := commanded } = _
    unfold addObject
    rw [after_atDesk]
    dsimp only
    rw [hget]
  rw [hafter]
  exact commanded.addObject_sends out clock t.isDelegate false k .agent t.self.pending hid

theorem setAgentStateTo_acts (new : Unchecked AgentState) (t : Turn) :
    Acts out (setAgentStateTo out clock new) t := by
  unfold setAgentStateTo
  refine Acts.get_bind ?_
  dsimp only
  split
  · exact .pure _ _
  · refine Leads.bind (modifySelf_acts rfl) fun _ _ => ?_
    refine Leads.bind (provided_acts fun _ => reset_acts ..) fun _ _ => ?_
    refine Leads.bind (provided_acts fun _ => modifySelf_acts rfl) fun _ _ => ?_
    refine Leads.bind (provided_acts fun _ => command_acts (by decide) ..) fun _ _ => ?_
    refine Leads.bind (provided_acts fun _ => command_acts (by decide) ..) fun _ _ => ?_
    exact Acts.get_bind (addEvent_acts ..)

theorem reactToException_acts (e : Raised) (t : Turn) : Acts out (reactToException out clock e) t := by
  unfold reactToException
  refine Leads.bind (modifySelf_acts rfl) fun _ _ => Acts.get_bind ?_
  split
  · split
    · exact Leads.bind (modifySelf_acts rfl) fun _ _ => setAgentStateTo_acts ..
    · exact setAgentStateTo_acts ..
    · exact Leads.bind (modifySelf_acts rfl) fun _ _ => setAgentStateTo_acts ..
    · exact setAgentStateTo_acts ..
  · exact setAgentStateTo_acts ..

/-! ## Observations and messages -/

theorem handleObservation_acts (e : Event) (t : Turn) : Acts out (handleObservation out clock e) t := by
  unfold handleObservation
  refine Leads.bind (Leads.single (.own (.observe e.cause))) fun _ _ => ?_
  refine withPending_acts fun k o hpending ho => Acts.get_bind (provided_acts fun hmatch => ?_)
  have hseen : (after (mark (.observed e.cause)) t).ledger.trace.getLast? =
      some ⟨t.isDelegate, .observed (some o.event.id)⟩ := by
    rw [hmatch.1]
    exact List.getLast?_concat
  refine Leads.bind (Leads.single (.own (.settle k o hpending ho hseen))) fun _ _ => ?_
  refine Leads.bind (provided_acts fun _ => setAgentStateTo_acts ..) fun _ _ => ?_
  exact provided_acts fun _ => setAgentStateTo_acts ..

theorem searchFirst_acts (filter : Event → Bool) (t : Turn) : Acts out (searchFirst out filter) t := by
  unfold searchFirst
  refine Acts.get_bind ?_
  split
  · exact .pure _ _
  · exact .throw _ _

theorem firstUserMessage_acts (t : Turn) : Acts out (firstUserMessage out) t := by
  unfold firstUserMessage
  refine Acts.get_bind ?_
  split
  · exact .pure _ _
  · refine Leads.bind (searchFirst_acts ..) fun _ _ => ?_
    exact Leads.bind (modifySelf_acts rfl) fun _ _ => .pure _ _

/-- An object that is not runnable is sent, or the call raises before it has an id. -/
theorem addObject_trigger {k : Nat} {o : Obj} {t : Turn} (ho : t.desk.heap[k]? = some o)
    (hrunnable : o.event.runnable = false) (source : EventSource) :
    Acts out (addObject out clock false k source) t := by
  unfold Acts Leads addObject
  rw [after_atDesk, ho]
  by_cases hid : o.event.id = INVALID_ID
  · exact Relation.ReflTransGen.single
      (.own (.trigger k o ho hrunnable _ (t.desk.addObject_sends out clock t.isDelegate false k source t.self.pending hid)))
  · dsimp only
    rw [Desk.addObject, if_pos hid]

theorem after_hold (o : Obj) (t : Turn) : (after (hold o) t).ledger = t.ledger.hold o := by
  have hcurrent : t.ledger.current = t.current := rfl
  have hafter : after (hold o) t =
      { t with
        self := { t.self with pending := some t.desk.heap.length }
        desk := { (match t.current with
          | some (k, before) => t.desk.note t.isDelegate (.overwritten k before)
          | none => t.desk : Desk) with heap := t.desk.heap ++ [o] } } := rfl
  rw [hafter, Ledger.hold, hcurrent]
  cases t.current <;> rfl

theorem hold_acts {o : Obj} {t : Turn} (hrunnable : o.event.runnable = false) (source : EventSource) :
    Acts out (hold o >>= fun k => addObject out clock false k source) t := by
  refine Leads.bind ?_ fun k hk => ?_
  · unfold Leads
    rw [after_hold]
    exact Relation.ReflTransGen.single (.own (.hold o hrunnable))
  · obtain rfl : t.desk.heap.length = k := Except.ok.inj hk
    refine addObject_trigger ?_ hrunnable _
    show (t.desk.heap ++ [o])[t.desk.heap.length]? = some o
    exact List.getElem?_concat_length

theorem recallContent_acts (id : Int) (content : String) (t : Turn) :
    Acts out (recallContent out clock id content) t := by
  unfold recallContent
  exact Leads.bind (firstUserMessage_acts ..) fun _ _ => hold_acts rfl _

theorem handleMessageAction_acts (e : Event) (a : MessageAction) (t : Turn) :
    Acts out (handleMessageAction out clock e a) t := by
  unfold handleMessageAction
  split
  · refine Leads.bind (recallContent_acts ..) fun _ _ => Acts.get_bind ?_
    exact provided_acts fun _ => setAgentStateTo_acts ..
  · split
    · exact setAgentStateTo_acts ..
    · exact .pure _ _

/-! ## Loop recovery -/

theorem truncateMemoryToPoint_acts (recoveryPoint : Int) (t : Turn) :
    Acts out (truncateMemoryToPoint recoveryPoint) t := by
  refine modifySelf_acts ?_
  split_ifs <;> rfl

theorem performLoopRecovery_acts (recoveryPoint : Int) (t : Turn) :
    Acts out (performLoopRecovery out clock recoveryPoint) t := by
  unfold performLoopRecovery
  refine Leads.bind (truncateMemoryToPoint_acts ..) fun _ _ => ?_
  exact Leads.bind (setAgentStateTo_acts ..) fun _ _ => addEvent_acts ..

theorem restartWithLastUserMessage_acts (recoveryPoint : Int) (t : Turn) :
    Acts out (restartWithLastUserMessage out clock recoveryPoint) t := by
  unfold restartWithLastUserMessage
  refine Acts.get_bind ?_
  split
  · refine Leads.bind (truncateMemoryToPoint_acts ..) fun _ _ => ?_
    refine Leads.bind (setAgentStateTo_acts ..) fun _ _ => ?_
    exact Leads.bind (addEvent_acts ..) fun _ _ => handleMessageAction_acts ..
  · exact performLoopRecovery_acts ..

theorem handleLoopRecoveryAction_acts (option : Int) (t : Turn) :
    Acts out (handleLoopRecoveryAction out clock option) t := by
  unfold handleLoopRecoveryAction
  refine Acts.get_bind ?_
  split
  · exact .pure _ _
  · split_ifs
    · exact performLoopRecovery_acts ..
    · exact restartWithLastUserMessage_acts ..
    · exact setAgentStateTo_acts ..
    · exact .pure _ _

/-! ## Delegates -/

theorem onDelegate_acts {m : Ctl Unit} {t : Turn}
    (h : Acts out m { t with self := t.self.delegate.getD {}, isDelegate := true }) :
    Acts out (onDelegate m) t :=
  (moves_ofDelegate h rfl t.isDelegate t.self.pending).2

theorem addSystemMessage_acts (message : Option SystemMessageAction) (t : Turn) :
    Acts out (addSystemMessage out clock message) t := by
  unfold addSystemMessage
  refine Leads.bind (searchFirst_acts ..) fun _ _ => ?_
  split
  · exact provided_acts fun _ => addEvent_acts ..
  · exact .pure _ _

theorem startDelegate_acts (answers : Answers) (t : Turn) :
    Acts out (startDelegate out clock answers) t := by
  unfold startDelegate
  refine Acts.get_bind ?_
  split
  · exact .throw _ _
  next agent _ =>
    refine Leads.bind ?_ fun _ _ => modifySelf_acts rfl
    let t' : Turn := { t with self := newDelegate t.self (t.desk.stream.curId - 1) agent, isDelegate := true }
    have hacts : Acts out (addSystemMessage out clock agent.systemMessage) t' := addSystemMessage_acts ..
    exact (moves_ofDelegate hacts rfl t.isDelegate t.self.pending).2

theorem handleDelegateAction_acts (answers : Answers) (a : AgentDelegateAction) (t : Turn) :
    Acts out (handleDelegateAction out clock answers a) t := by
  unfold handleDelegateAction
  refine Leads.bind (startDelegate_acts ..) fun _ _ => ?_
  split
  · exact .pure _ _
  · exact Leads.bind (addEvent_acts ..) fun _ _ => onDelegate_acts (setAgentStateTo_acts ..)
  · exact .throw _ _

theorem endDelegate_acts (t : Turn) : Acts out (endDelegate out clock) t := by
  unfold endDelegate
  refine Acts.get_bind ?_
  split
  · exact .pure _ _
  · refine Leads.bind (onDelegate_acts (setAgentStateTo_acts ..)) fun _ _ => ?_
    refine Leads.bind (modifySelf_acts rfl) fun _ _ => ?_
    exact Leads.bind (addEvent_acts ..) fun _ _ => modifySelf_acts rfl

/-! ## Steps -/

theorem handleAction_acts (answers : Answers) (e : Event) (a : Action) (t : Turn) :
    Acts out (handleAction out clock answers e a) t := by
  unfold handleAction
  split
  · exact setAgentStateTo_acts ..
  · exact handleMessageAction_acts ..
  · exact handleDelegateAction_acts ..
  · exact Leads.bind (modifySelf_acts rfl) fun _ _ => setAgentStateTo_acts ..
  · exact Leads.bind (modifySelf_acts rfl) fun _ _ => setAgentStateTo_acts ..
  · exact handleLoopRecoveryAction_acts ..
  · exact .pure _ _

/-- The run leaves the pending object, the objects and the record. -/
def Quiet (m : Ctl α) (t : Turn) : Prop := Leads Turn.unsent (fun _ _ => False) m t

theorem Quiet.unsent {m : Ctl α} {t : Turn} (h : Quiet m t) : (after m t).unsent = t.unsent :=
  Leads.keeps (P := fun u => u = t.unsent) (fun _ _ hfalse => hfalse.elim) h rfl

theorem Quiet.get_bind {k : Turn → Ctl α} {t : Turn} (h : Quiet (k t) t) : Quiet (get >>= k) t :=
  Leads.bind (.unseen rfl) fun a ha => by
    obtain rfl : t = a := Except.ok.inj ha
    exact h

theorem addEvent_quiet (e : Event) (source : EventSource) (t : Turn) :
    Quiet (addEvent out clock e source) t := by
  obtain ⟨hheap, htrace, -⟩ := t.desk.add_ledger out clock 0 none e source
  refine Leads.unseen ?_
  unfold addEvent Turn.unsent
  rw [after_atDesk, hheap, htrace]

theorem modifySelf_quiet {f : Controller → Controller} {t : Turn}
    (h : (f t.self).pending = t.self.pending) : Quiet (modifySelf f) t := by
  refine Leads.unseen ?_
  show Turn.unsent { t with self := f t.self } = t.unsent
  unfold Turn.unsent
  rw [h]

theorem provided_quiet {p : Prop} [Decidable p] {m : Ctl Unit} {t : Turn} (h : p → Quiet m t) :
    Quiet (provided p m) t := by
  unfold provided
  split
  next hp => exact h hp
  · exact .pure _ _

theorem awaitConfirmation_quiet (t : Turn) :
    Quiet (setAgentStateTo out clock (.known .awaitingUserConfirmation)) t := by
  unfold setAgentStateTo
  refine Quiet.get_bind ?_
  dsimp only
  split
  · exact .pure _ _
  · refine Leads.bind (modifySelf_quiet rfl) fun _ _ => ?_
    refine Leads.bind (provided_quiet (by simp)) fun _ _ => ?_
    refine Leads.bind (provided_quiet fun _ => modifySelf_quiet rfl) fun _ _ => ?_
    refine Leads.bind (provided_quiet (by simp)) fun _ _ => ?_
    refine Leads.bind (provided_quiet (by simp)) fun _ _ => ?_
    exact Quiet.get_bind (addEvent_quiet ..)

/-- An object that the agent has returned, and that nothing was done with since. -/
structure Returned (k : Nat) (o : Obj) (t : Turn) : Prop where
  heap : t.desk.heap[k]? = some o
  last : t.desk.trace.getLast? = some ⟨t.isDelegate, .returned k⟩
  pending : o.event.runnable = true → t.self.pending = some k

theorem Returned.quiet {k : Nat} {o : Obj} {t t' : Turn} (h : Returned k o t) (hunsent : t'.unsent = t.unsent) :
    Returned k o t' := by
  obtain ⟨hdelegate, hpending, hheap, htrace⟩ : t'.isDelegate = t.isDelegate ∧
      t'.self.pending = t.self.pending ∧ t'.desk.heap = t.desk.heap ∧ t'.desk.trace = t.desk.trace := by
    simpa [Turn.unsent] using hunsent
  refine ⟨?_, ?_, ?_⟩
  · rw [hheap]
    exact h.heap
  · rw [htrace, hdelegate]
    exact h.last
  · rw [hpending]
    exact h.pending

theorem addObject_act {k : Nat} {o : Obj} {t : Turn} (h : Returned k o t) (source : EventSource) :
    Acts out (addObject out clock true k source) t := by
  unfold Acts Leads addObject
  rw [after_atDesk, h.heap]
  by_cases hid : o.event.id = INVALID_ID
  · have hsends := t.desk.addObject_sends out clock t.isDelegate true k source t.self.pending hid
    exact Relation.ReflTransGen.single (.own (.act k o h.heap h.last h.pending _ hsends))
  · dsimp only
    rw [Desk.addObject, if_pos hid]

theorem sendReturned_acts (metrics : Metrics) (source : Option EventSource) {k : Nat} {o : Obj} {t : Turn}
    (h : Returned k o t) :
    Acts out (do
      setObject k { o with event := { o.event with llmMetrics := some metrics } }
      match source with
      | some source => addObject out clock true k source
      | none => throw (PyError.attributeError "object has no attribute '_source'").raised) t := by
  generalize hobj : ({ o with event := { o.event with llmMetrics := some metrics } } : Obj) = o'
  have halike : o.Alike o' := hobj ▸ ⟨rfl, rfl⟩
  have hid : o'.event.id = o.event.id := hobj ▸ rfl
  have hrunnable : o'.event.runnable = o.event.runnable := hobj ▸ rfl
  have hk := (List.getElem?_eq_some_iff.mp h.heap).1
  have hreturned : Returned k o' { t with desk := { t.desk with heap := t.desk.heap.set k o' } } :=
    ⟨List.getElem?_set_self hk, h.last, fun hrun => h.pending (hrunnable ▸ hrun)⟩
  refine Leads.bind (Leads.single (.own (.touch k o o' h.heap halike hid))) fun _ _ => ?_
  split
  next source => exact addObject_act hreturned source
  · exact .throw _ _

theorem launch_returned (out : Outside) (o : Obj) {t : Turn} (hnone : t.self.pending = none) :
    Acts out (launch o) t ∧ Returned t.desk.heap.length o (after (launch o) t) := by
  have hafter : after (launch o) t =
      { t with
        self := if o.event.runnable then { t.self with pending := some t.desk.heap.length } else t.self
        desk := { t.desk.note t.isDelegate (.returned t.desk.heap.length) with
          heap := t.desk.heap ++ [o] } } := rfl
  have hledger : (after (launch o) t).ledger = t.ledger.launch o := by
    rw [hafter]
    unfold Turn.ledger Ledger.launch
    cases o.event.runnable <;> rfl
  constructor
  · unfold Acts Leads
    rw [hledger]
    exact Relation.ReflTransGen.single (.own (.launch o hnone))
  · rw [hafter]
    refine ⟨List.getElem?_concat_length, List.getLast?_concat, fun hrun => ?_⟩
    dsimp only
    rw [if_pos hrun]

theorem take_acts (answers : Answers) (e : Event) {t : Turn} (hnone : t.self.pending = none) :
    Acts out (take out clock answers e) t := by
  unfold take
  refine Acts.get_bind ?_
  dsimp only
  generalize (if e.runnable = true then _ else _ : Obj) = o
  obtain ⟨hlaunch, hreturned⟩ := launch_returned out o hnone
  refine Leads.bind hlaunch fun k hk => ?_
  obtain rfl : t.desk.heap.length = k := Except.ok.inj hk
  split
  · exact .pure _ _
  · refine Leads.bind (provided_acts fun _ => setAgentStateTo_acts ..) fun _ _ => ?_
    have hquiet : Quiet (provided (o.confirmationState = some (.known .awaitingConfirmation))
        (setAgentStateTo out clock (.known .awaitingUserConfirmation))) (after (launch o) t) :=
      provided_quiet fun _ => awaitConfirmation_quiet _
    exact sendReturned_acts answers.frontendMetrics e.source (hreturned.quiet hquiet.unsent)

theorem nextAction_acts (answers : Answers) (t : Turn) : Acts out (nextAction out clock answers) t := by
  unfold nextAction
  refine Acts.get_bind ?_
  split
  · exact Leads.bind (modifySelf_acts rfl) fun _ _ => .pure _ _
  · split
    · exact .pure _ _
    · exact Leads.bind (addEvent_acts ..) fun _ _ => .pure _ _
    · exact Leads.bind (addEvent_acts ..) fun _ _ => .pure _ _
    · split
      · exact Leads.bind (addEvent_acts ..) fun _ _ => .pure _ _
      · exact .throw _ _
    · exact .throw _ _

theorem nextAction_quiet (answers : Answers) (t : Turn) : Quiet (nextAction out clock answers) t := by
  unfold nextAction
  refine Quiet.get_bind ?_
  split
  · exact Leads.bind (modifySelf_quiet rfl) fun _ _ => .pure _ _
  · split
    · exact .pure _ _
    · exact Leads.bind (addEvent_quiet ..) fun _ _ => .pure _ _
    · exact Leads.bind (addEvent_quiet ..) fun _ _ => .pure _ _
    · split
      · exact Leads.bind (addEvent_quiet ..) fun _ _ => .pure _ _
      · exact .throw _ _
    · exact .throw _ _

theorem act_acts (answers : Answers) {t : Turn} (hnone : t.self.pending = none) :
    Acts out (act out clock answers) t := by
  unfold act
  refine Leads.bind (nextAction_acts ..) fun next _ => ?_
  split
  · have hquiet : (after (nextAction out clock answers) t).unsent = t.unsent :=
      (nextAction_quiet answers t).unsent
    have hpending : (after (nextAction out clock answers) t).self.pending = t.self.pending :=
      congrArg (fun u => u.2.1) hquiet
    exact take_acts _ _ (hpending.trans hnone)
  · exact .pure _ _

theorem step_acts (answers : Answers) (t : Turn) : Acts out (step out clock answers) t := by
  unfold step
  refine Acts.get_bind ?_
  split
  · exact .pure _ _
  next hready =>
    push Not at hready
    have hnone : t.self.pending = none := by simpa using hready.2
    refine Leads.bind (modifySelf_acts rfl) fun _ _ => ?_
    split
    · exact reactToException_acts ..
    · refine Acts.get_bind (Leads.bind (modifySelf_acts rfl) fun _ _ => ?_)
      split
      · exact reactToException_acts ..
      · exact act_acts answers hnone

theorem stepWithExceptionHandling_acts (answers : Answers) (t : Turn) :
    Acts out (stepWithExceptionHandling out clock answers) t :=
  Leads.catch' (step_acts answers t) fun _ _ => reactToException_acts ..

/-! ## Events -/

theorem onOwnEvent_acts (answers : Answers) (e : Event) (t : Turn) :
    Acts out (onOwnEvent out clock answers e) t := by
  unfold onOwnEvent
  split
  · exact .pure _ _
  · refine Leads.bind (modifySelf_acts rfl) fun _ _ => Leads.bind ?_ fun _ _ => Acts.get_bind ?_
    · unfold handleEvent
      split
      · exact handleAction_acts ..
      · exact handleObservation_acts ..
      · exact .pure _ _
    · exact provided_acts fun _ => stepWithExceptionHandling_acts ..

/-- Whatever event comes next, handling it is a chain of effects. -/
theorem onEvent_acts (answers : Answers) (e : Event) (t : Turn) :
    Acts out (onEvent out clock answers e) t := by
  unfold onEvent
  refine Acts.get_bind ?_
  split
  · split
    · exact onDelegate_acts (onOwnEvent_acts ..)
    · exact endDelegate_acts ..
  · exact onOwnEvent_acts ..

end Controller

end OpenHands
