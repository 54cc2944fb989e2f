import OpenHandsSWE.Lib.AssocSum
import OpenHandsSWE.Lib.Parties
import OpenHandsSWE.Lib.Runs

/-! The conversations that `StandaloneConversationManager` hands out: a count of their users, and a
sweep that disconnects what nobody uses. Both work under one lock, over steps that may suspend. -/

namespace OpenHands.AttachedConversations

/-- A `ServerConversation`, and which object it is. -/
structure Conversation where
  sid : String
  object : Nat
deriving DecidableEq, Repr

/-- What a caller of `attach_to_conversation` waits for or has. -/
inductive Caller where
  | looking (sid : String)
  | attaching (sid : String)
  | connecting (c : Conversation)
  | unavailable (c : Conversation)
  | using (c : Conversation)
  | detaching (c : Conversation)
  | gone
deriving DecidableEq, Repr

/-- Where the task of `_cleanup_stale` is. -/
inductive Cleaner where
  | away
  | waiting
  | sweeping (sid : String) (c : Conversation) (items : List (String × Conversation))
  | cancelled
  | clearing (c : Conversation) (values : List Conversation)
  | ended
deriving DecidableEq, Repr

inductive Owner where
  | caller (i : Nat)
  | cleaner
deriving DecidableEq, Repr

/-- What happened to the use of a conversation. -/
inductive Use where
  | activated
  | attached
  | detached
deriving DecidableEq, Repr

structure State where
  active : List (String × Conversation × Nat) := []
  detached : List (String × Conversation) := []
  lock : Option Owner := none
  objects : Nat := 0
  callers : List Caller := []
  cleaner : Cleaner := .away
  uses : List (String × Use) := []
deriving DecidableEq, Repr

inductive Step where
  | attach (sid : String)
  | looked (i : Nat) (found : Bool)
  | enter (i : Nat)
  | connected (i : Nat)
  | connectUnavailable (i : Nat)
  | connectRaised (i : Nat)
  | disconnected (i : Nat)
  | detach (i : Nat)
  | sweep
  | enterSweep
  | swept (raised : Bool)
  | cancel
  | enterClear
  | cleared (raised : Bool)

def Caller.holding : Caller → Option Conversation
  | .using c | .detaching c => some c
  | _ => none

/-- The conversation that an attach makes, inside the lock. -/
def Caller.making : Caller → Option Conversation
  | .connecting c | .unavailable c => some c
  | _ => none

def Caller.holds (sid : String) (p : Caller) : Bool := p.holding.any fun c => c.sid == sid

/-- The conversation whose disconnect is in progress, and those that come after it. -/
def Cleaner.toDisconnect : Cleaner → List Conversation
  | .sweeping _ c items => c :: items.map Prod.snd
  | .clearing c values => c :: values
  | _ => []

namespace State

def setCaller (s : State) (i : Nat) (p : Caller) : State := { s with callers := s.callers.set i p }

def holders (s : State) (sid : String) : Nat := s.callers.countP (Caller.holds sid)

/-- The uses of a conversation since it became active, the last one first. -/
def usesOf (s : State) (sid : String) : List Use :=
  ((s.uses.filter fun u => u.1 == sid).map Prod.snd).takeWhile (· != .activated)

def attaches (s : State) (sid : String) : Nat := (s.usesOf sid).count .attached

def detaches (s : State) (sid : String) : Nat := (s.usesOf sid).count .detached

/-- `disconnect` has been called on the conversation and has not ended. -/
def Disconnecting (s : State) (c : Conversation) : Prop :=
  .unavailable c ∈ s.callers ∨ s.cleaner.toDisconnect.head? = some c

end State

/-- The first part of `attach_to_conversation` under the lock; only a new conversation makes it wait. -/
def attachLocked (s : State) (i : Nat) (sid : String) : State :=
  match Assoc.get? sid s.active with
  | some (c, count) =>
    { s with
      active := Assoc.set sid (c, count + 1) s.active
      uses := (sid, .attached) :: s.uses }.setCaller i (.using c)
  | none =>
    match Assoc.get? sid s.detached with
    | some c =>
      { s with
        detached := Assoc.erase sid s.detached
        active := Assoc.set sid (c, 1) s.active
        uses := (sid, .attached) :: (sid, .activated) :: s.uses }.setCaller i (.using c)
    | none =>
      { s with objects := s.objects + 1, lock := some (.caller i) }.setCaller i (.connecting ⟨sid, s.objects⟩)

def detachLocked (s : State) (i : Nat) (c : Conversation) : State :=
  match Assoc.get? c.sid s.active with
  | some (conv, count) =>
    if 1 < count then
      { s with
        active := Assoc.set c.sid (conv, count - 1) s.active
        uses := (c.sid, .detached) :: s.uses }.setCaller i .gone
    else
      { s with
        active := Assoc.erase c.sid s.active
        detached := Assoc.set c.sid c s.detached
        uses := (c.sid, .detached) :: s.uses }.setCaller i .gone
  | none => { s with uses := (c.sid, .detached) :: s.uses }.setCaller i .gone

def connected (s : State) (i : Nat) (c : Conversation) : State :=
  { s with
    active := Assoc.set c.sid (c, 1) s.active
    lock := none
    uses := (c.sid, .attached) :: (c.sid, .activated) :: s.uses }.setCaller i (.using c)

/-- An attach that gives back no conversation leaves the lock. -/
def giveUp (s : State) (i : Nat) : State := { s with lock := none }.setCaller i .gone

/-- The loop of the sweep over the items it listed under the lock. -/
def sweepNext (s : State) : List (String × Conversation) → State
  | [] => { s with lock := none, cleaner := .away }
  | (sid, c) :: items => { s with lock := some .cleaner, cleaner := .sweeping sid c items }

/-- The loop after a cancellation; only its end empties the map. -/
def clearNext (s : State) : List Conversation → State
  | [] => { s with detached := [], lock := none, cleaner := .ended }
  | c :: values => { s with lock := some .cleaner, cleaner := .clearing c values }

def cancel (s : State) : State :=
  match s.cleaner with
  | .away | .waiting => { s with cleaner := .cancelled }
  | .sweeping .. => { s with lock := none, cleaner := .cancelled }
  | .clearing .. => { s with lock := none, cleaner := .ended } -- the handler itself is not guarded
  | .cancelled => { s with cleaner := .ended }
  | .ended => s

/-- A step that does not come next for its task changes nothing. -/
def step (s : State) : Step → State
  | .attach sid => { s with callers := s.callers ++ [.looking sid] }
  | .looked i found =>
    match s.callers[i]? with
    | some (.looking sid) => s.setCaller i (if found then .attaching sid else .gone)
    | _ => s
  | .enter i =>
    match s.callers[i]?, s.lock with
    | some (.attaching sid), none => attachLocked s i sid
    | some (.detaching c), none => detachLocked s i c
    | _, _ => s
  | .connected i =>
    match s.callers[i]? with
    | some (.connecting c) => connected s i c
    | _ => s
  | .connectUnavailable i =>
    match s.callers[i]? with
    | some (.connecting c) => s.setCaller i (.unavailable c)
    | _ => s
  | .connectRaised i =>
    match s.callers[i]? with
    | some (.connecting _) => giveUp s i
    | _ => s
  | .disconnected i =>
    match s.callers[i]? with
    | some (.unavailable _) => giveUp s i
    | _ => s
  | .detach i =>
    match s.callers[i]? with
    | some (.using c) => s.setCaller i (.detaching c)
    | _ => s
  | .sweep => if s.cleaner = .away then { s with cleaner := .waiting } else s
  | .enterSweep => if s.cleaner = .waiting ∧ s.lock = none then sweepNext s s.detached else s
  | .swept raised =>
    match s.cleaner with
    | .sweeping sid _ items =>
      if raised then { s with lock := none, cleaner := .away }
      else sweepNext { s with detached := Assoc.erase sid s.detached } items
    | _ => s
  | .cancel => cancel s
  | .enterClear =>
    if s.cleaner = .cancelled ∧ s.lock = none then clearNext s (s.detached.map Prod.snd) else s
  | .cleared raised =>
    match s.cleaner with
    | .clearing _ values =>
      if raised then { s with lock := none, cleaner := .ended } else clearNext s values
    | _ => s

/-- What the lock protects. -/
structure Sound (s : State) : Prop where
  counted : ∀ sid c n, Assoc.get? sid s.active = some (c, n) →
    c.sid = sid ∧ s.holders sid = n ∧ s.attaches sid = s.detaches sid + n
  used : ∀ p ∈ s.callers, ∀ c, p.holding = some c → ∃ n, Assoc.get? c.sid s.active = some (c, n)
  idle : ∀ kv ∈ s.detached, kv.2.sid = kv.1 ∧ Assoc.get? kv.1 s.active = none
  made : ∀ i p c, s.callers[i]? = some p → p.making = some c →
    s.lock = some (.caller i) ∧ Assoc.get? c.sid s.active = none ∧ Assoc.get? c.sid s.detached = none
  swept : ∀ c ∈ s.cleaner.toDisconnect, s.lock = some .cleaner ∧ Assoc.get? c.sid s.active = none

section Uses
variable {s : State} {sid : String} {u : Use}

@[simp] theorem setCaller_active (i : Nat) (p : Caller) : (s.setCaller i p).active = s.active := rfl
@[simp] theorem setCaller_detached (i : Nat) (p : Caller) : (s.setCaller i p).detached = s.detached := rfl
@[simp] theorem setCaller_lock (i : Nat) (p : Caller) : (s.setCaller i p).lock = s.lock := rfl
@[simp] theorem setCaller_cleaner (i : Nat) (p : Caller) : (s.setCaller i p).cleaner = s.cleaner := rfl
@[simp] theorem setCaller_attaches (i : Nat) (p : Caller) : (s.setCaller i p).attaches sid = s.attaches sid := rfl
@[simp] theorem setCaller_detaches (i : Nat) (p : Caller) : (s.setCaller i p).detaches sid = s.detaches sid := rfl
@[simp] theorem setCaller_callers (i : Nat) (p : Caller) : (s.setCaller i p).callers = s.callers.set i p := rfl

theorem usesOf_cons {s s' : State} (h : s'.uses = (sid, u) :: s.uses) (other : String) :
    s'.usesOf other =
      if sid = other then (if u = .activated then [] else u :: s.usesOf other) else s.usesOf other := by
  by_cases hsid : sid = other
  · by_cases hu : u = .activated <;> simp [State.usesOf, h, hsid, hu]
  · simp [State.usesOf, h, hsid]

/-- What a caller that moves on changes in the number of holders. -/
theorem holders_setCaller {i : Nat} {p : Caller} (hp : s.callers[i]? = some p) (q : Caller) (sid : String) :
    (s.setCaller i q).holders sid + (if p.holds sid then 1 else 0) =
      s.holders sid + (if q.holds sid then 1 else 0) := by
  obtain ⟨hi, hget⟩ := List.getElem?_eq_some_iff.mp hp
  have hcount := List.countP_set (p := Caller.holds sid) (a := q) hi
  have hle : (if p.holds sid then 1 else 0) ≤ s.callers.countP (Caller.holds sid) := by
    split_ifs with h
    · exact List.countP_pos_iff.mpr ⟨p, List.mem_of_getElem? hp, h⟩
    · exact Nat.zero_le _
  rw [hget] at hcount
  simp only [State.holders, setCaller_callers]
  omega

/-- Only the uses of one conversation grow. -/
theorem usesOf_of_ne {s' : State} {other : String} (hne : other ≠ sid) (h : s'.uses = (sid, u) :: s.uses) :
    s'.usesOf other = s.usesOf other := by
  rw [usesOf_cons h, if_neg hne.symm]

end Uses

section Moves
variable {s s' : State} {sid : String} {i : Nat} {p q : Caller}

theorem Caller.holds_iff : p.holds sid = true ↔ ∃ c, p.holding = some c ∧ c.sid = sid := by
  simp [Caller.holds, Option.any_eq_true]

/-- While the lock is free nobody is inside. -/
theorem Sound.free (h : Sound s) (hlock : s.lock = none) :
    (∀ (j : Nat) (p : Caller) c, s.callers[j]? = some p → p.making ≠ some c) ∧ s.cleaner.toDisconnect = [] := by
  constructor
  · intro j p c hp hmaking
    have howner := (h.made j p c hp hmaking).1
    rw [hlock] at howner
    exact nomatch howner
  · apply List.eq_nil_iff_forall_not_mem.mpr
    intro c hc
    have howner := (h.swept c hc).1
    rw [hlock] at howner
    exact nomatch howner

/-- A caller inside the lock is there alone. -/
theorem Sound.alone (h : Sound s) (hlock : s.lock = some (.caller i)) :
    (∀ (j : Nat) (p : Caller) c, s.callers[j]? = some p → p.making = some c → j = i) ∧
      s.cleaner.toDisconnect = [] := by
  constructor
  · intro j p c hp hmaking
    have howner := (h.made j p c hp hmaking).1
    rw [hlock] at howner
    injection howner with howner
    injection howner with howner
    exact howner.symm
  · apply List.eq_nil_iff_forall_not_mem.mpr
    intro c hc
    have howner := (h.swept c hc).1
    rw [hlock] at howner
    injection howner with howner
    exact nomatch howner

theorem getElem?_setCaller {j : Nat} {r : Caller} (h : (s.setCaller i q).callers[j]? = some r) :
    (j = i ∧ r = q) ∨ (j ≠ i ∧ s.callers[j]? = some r) := by
  rw [setCaller_callers] at h
  exact Parties.set_cases h

theorem mem_setCaller {r : Caller} (h : r ∈ (s.setCaller i q).callers) : r = q ∨ r ∈ s.callers := by
  have hmem := List.mem_or_eq_of_mem_set (by simpa using h)
  exact hmem.symm

theorem holders_of_ne {other : String} (hp : s.callers[i]? = some p) (hpholds : p.holds other = false)
    (hqholds : q.holds other = false) : (s.setCaller i q).holders other = s.holders other := by
  have hcount := holders_setCaller hp q other
  simpa [hpholds, hqholds] using hcount

theorem holders_of_holding (hp : s.callers[i]? = some p) (hheld : q.holding = p.holding) (other : String) :
    (s.setCaller i q).holders other = s.holders other := by
  have hcount := holders_setCaller hp q other
  have hholds : q.holds other = p.holds other := by rw [Caller.holds, Caller.holds, hheld]
  rw [hholds] at hcount
  exact Nat.add_right_cancel hcount

/-- A step that changes the use of one conversation keeps the counts of the others. -/
theorem Sound.counted_of (h : Sound s) (hactive : ∀ other, other ≠ sid → Assoc.get? other s'.active = Assoc.get? other s.active)
    (huses : ∀ other, other ≠ sid → s'.usesOf other = s.usesOf other)
    (hholders : ∀ other, other ≠ sid → s'.holders other = s.holders other)
    (hsid : ∀ c n, Assoc.get? sid s'.active = some (c, n) →
      c.sid = sid ∧ s'.holders sid = n ∧ s'.attaches sid = s'.detaches sid + n) :
    ∀ other c n, Assoc.get? other s'.active = some (c, n) →
      c.sid = other ∧ s'.holders other = n ∧ s'.attaches other = s'.detaches other + n := by
  intro other c n hget
  by_cases hne : other = sid
  · subst hne
    exact hsid c n hget
  · rw [hactive other hne] at hget
    rw [State.attaches, State.detaches, huses other hne, hholders other hne]
    exact h.counted other c n hget

/-- A caller moves on without a change to what it holds. -/
theorem Sound.setCaller (h : Sound s) (hp : s.callers[i]? = some p) (hheld : q.holding = p.holding)
    (hmade : ∀ c, q.making = some c → p.making = some c) : Sound (s.setCaller i q) := by
  refine ⟨fun sid c n hget => ?_, fun r hr c hc => ?_, h.idle, fun j r c hr hc => ?_, h.swept⟩
  · rw [holders_of_holding hp hheld]
    exact h.counted sid c n hget
  · rcases mem_setCaller hr with rfl | hr
    · exact h.used p (List.mem_of_getElem? hp) c (hheld ▸ hc)
    · exact h.used r hr c hc
  · rcases getElem?_setCaller hr with ⟨rfl, rfl⟩ | ⟨-, hr⟩
    · exact h.made j p c hp (hmade c hc)
    · exact h.made j r c hr hc

/-- A caller without a conversation leaves the lock. -/
theorem Sound.giveUp (h : Sound s) {c : Conversation} (hp : s.callers[i]? = some p) (hmaking : p.making = some c)
    (hheld : p.holding = none) : Sound (giveUp s i) := by
  obtain ⟨halone, hcleaner⟩ := h.alone (h.made i p c hp hmaking).1
  refine ⟨fun sid d n hget => ?_, fun r hr d hd => ?_, h.idle, fun j r d hr hd => ?_, fun d hd => ?_⟩
  · have hholders : (AttachedConversations.giveUp s i).holders sid = s.holders sid :=
      holders_of_holding hp (by rw [hheld]; rfl) sid
    rw [hholders]
    exact h.counted sid d n hget
  · rcases mem_setCaller hr with rfl | hr
    · exact nomatch hd
    · exact h.used r hr d hd
  · rcases getElem?_setCaller hr with ⟨rfl, rfl⟩ | ⟨hne, hr⟩
    · exact nomatch hd
    · exact absurd (halone j r d hr hd) hne
  · have hnone : d ∈ s.cleaner.toDisconnect := hd
    rw [hcleaner] at hnone
    exact nomatch hnone

/-- A caller gets a conversation that nobody else is at work on. -/
theorem Sound.take (h : Sound s) {c : Conversation} {n : Nat} (hp : s.callers[i]? = some p) (hheld : p.holding = none)
    (hothers : ∀ (j : Nat) (r : Caller) d, s.callers[j]? = some r → r.making = some d → j = i)
    (hcleaner : s.cleaner.toDisconnect = []) (hn : s.holders c.sid = n)
    (hsame : ∀ r ∈ s.callers, ∀ d, r.holding = some d → d.sid = c.sid → d = c)
    (hactive : s'.active = Assoc.set c.sid (c, n + 1) s.active)
    (hdetached : ∀ kv ∈ s'.detached, kv ∈ s.detached ∧ kv.1 ≠ c.sid)
    (hcallers : s'.callers = s.callers.set i (.using c)) (hcleans : s'.cleaner = s.cleaner)
    (huses : ∀ other, other ≠ c.sid → s'.usesOf other = s.usesOf other)
    (hcount : s'.attaches c.sid = s'.detaches c.sid + (n + 1)) : Sound s' := by
  have hholders : ∀ other, s'.holders other = (s.setCaller i (.using c)).holders other := by
    intro other
    rw [State.holders, State.holders, hcallers, setCaller_callers]
  have hpholds : ∀ other, p.holds other = false := fun other => by rw [Caller.holds, hheld]; rfl
  have hget : Assoc.get? c.sid s'.active = some (c, n + 1) := by rw [hactive, Assoc.get?_set_self]
  have hother : ∀ other, other ≠ c.sid → Assoc.get? other s'.active = Assoc.get? other s.active := by
    intro other hne
    rw [hactive, Assoc.get?_set_of_ne hne]
  refine ⟨h.counted_of hother huses (fun other hne => ?_) (fun d m hd => ?_), fun r hr d hd => ?_, fun kv hkv => ?_,
    fun j r d hr hd => ?_, fun d hd => ?_⟩
  · rw [hholders]
    exact holders_of_ne hp (hpholds other) (by simpa [Caller.holds, Caller.holding] using hne.symm)
  · rw [hget] at hd
    obtain ⟨rfl, rfl⟩ := Prod.mk.inj (Option.some.inj hd)
    have hmore := holders_setCaller hp (.using c) c.sid
    refine ⟨rfl, ?_, hcount⟩
    rw [hpholds, hn] at hmore
    rw [hholders]
    simpa [Caller.holds, Caller.holding] using hmore
  · rcases List.mem_or_eq_of_mem_set (hcallers ▸ hr) with hr | rfl
    · by_cases hsid : d.sid = c.sid
      · rw [hsame r hr d hd hsid]
        exact ⟨n + 1, hget⟩
      · rw [hother d.sid hsid]
        exact h.used r hr d hd
    · obtain rfl := Option.some.inj hd
      exact ⟨n + 1, hget⟩
  · obtain ⟨hmem, hne⟩ := hdetached kv hkv
    rw [hother kv.1 hne]
    exact h.idle kv hmem
  · rcases getElem?_setCaller (q := .using c) (by rw [setCaller_callers, ← hcallers]; exact hr) with ⟨-, rfl⟩ | ⟨hne, hr⟩
    · exact nomatch hd
    · exact absurd (hothers j r d hr hd) hne
  · rw [hcleans, hcleaner] at hd
    exact nomatch hd

end Moves

section Locked
variable {s : State} {i : Nat}

/-- Nobody holds a conversation that is not active. -/
theorem Sound.unused (h : Sound s) {sid : String} (hget : Assoc.get? sid s.active = none) :
    (∀ r ∈ s.callers, ∀ d, r.holding = some d → d.sid ≠ sid) ∧ s.holders sid = 0 := by
  have hnone : ∀ r ∈ s.callers, ∀ d, r.holding = some d → d.sid ≠ sid := by
    rintro r hr d hd rfl
    obtain ⟨n, hn⟩ := h.used r hr d hd
    rw [hget] at hn
    exact nomatch hn
  refine ⟨hnone, List.countP_eq_zero.mpr fun r hr hholds => ?_⟩
  obtain ⟨d, hd, hsid⟩ := Caller.holds_iff.mp hholds
  exact hnone r hr d hd hsid

theorem usesOf_activated {s' : State} {sid : String}
    (h : s'.uses = (sid, .attached) :: (sid, .activated) :: s.uses) :
    s'.usesOf sid = [.attached] ∧ ∀ other, other ≠ sid → s'.usesOf other = s.usesOf other := by
  let mid : State := { s with uses := (sid, .activated) :: s.uses }
  have hmid : ∀ other, mid.usesOf other = if sid = other then [] else s.usesOf other := by
    intro other
    rw [usesOf_cons (show mid.uses = (sid, .activated) :: s.uses from rfl) other, if_pos rfl]
  constructor
  · rw [usesOf_cons (s := mid) h sid, hmid]
    simp
  · intro other hne
    rw [usesOf_cons (s := mid) h other, if_neg hne.symm, hmid, if_neg hne.symm]

theorem balance_activated {s' : State} {sid : String}
    (h : s'.uses = (sid, .attached) :: (sid, .activated) :: s.uses) :
    s'.attaches sid = s'.detaches sid + (0 + 1) := by
  rw [State.attaches, State.detaches, (usesOf_activated h).1]
  rfl

theorem balance_attached {s' : State} {sid : String} {n : Nat} (h : s'.uses = (sid, .attached) :: s.uses)
    (hbalance : s.attaches sid = s.detaches sid + n) : s'.attaches sid = s'.detaches sid + (n + 1) := by
  simp only [State.attaches, State.detaches] at hbalance
  simp [State.attaches, State.detaches, usesOf_cons h, hbalance, Nat.add_assoc]

theorem balance_detached {s' : State} {sid : String} {n : Nat} (h : s'.uses = (sid, .detached) :: s.uses)
    (hbalance : s.attaches sid = s.detaches sid + (n + 1)) : s'.attaches sid = s'.detaches sid + n := by
  simp only [State.attaches, State.detaches] at hbalance
  simp [State.attaches, State.detaches, usesOf_cons h, hbalance, Nat.add_right_comm, Nat.add_assoc]

theorem sound_attachLocked (h : Sound s) {sid : String} (hp : s.callers[i]? = some (.attaching sid))
    (hlock : s.lock = none) : Sound (attachLocked s i sid) := by
  obtain ⟨hnone, hcleaner⟩ := h.free hlock
  have hothers : ∀ (j : Nat) (r : Caller) d, s.callers[j]? = some r → r.making = some d → j = i :=
    fun j r d hr hd => absurd hd (hnone j r d hr)
  unfold attachLocked
  split
  · next c count hget =>
    obtain ⟨rfl, hcount, hbalance⟩ := h.counted sid c count hget
    refine h.take hp rfl hothers hcleaner hcount (fun r hr d hd hsid => ?_) rfl (fun kv hkv => ⟨hkv, fun hsid => ?_⟩)
      rfl rfl (fun other hne => usesOf_of_ne hne rfl) (balance_attached rfl hbalance)
    · obtain ⟨n, hn⟩ := h.used r hr d hd
      rw [hsid, hget] at hn
      exact (congrArg Prod.fst (Option.some.inj hn)).symm
    · have hidle := (h.idle kv hkv).2
      rw [hsid, hget] at hidle
      exact nomatch hidle
  · next hget =>
    obtain ⟨hunused, hzero⟩ := h.unused hget
    split
    · next c hdetached =>
      obtain ⟨hsid, -⟩ := h.idle (sid, c) (Assoc.mem_of_get? hdetached)
      have hsid : c.sid = sid := hsid
      subst hsid
      refine h.take hp rfl hothers hcleaner hzero (fun r hr d hd hsid => absurd hsid (hunused r hr d hd)) rfl
        (fun kv hkv => ⟨Assoc.mem_erase hkv, fun hsid => ?_⟩) rfl rfl (usesOf_activated rfl).2 (balance_activated rfl)
      apply Assoc.notMem_keys_erase c.sid s.detached
      exact List.mem_map.mpr ⟨kv, hkv, hsid⟩
    · next hdetached =>
      -- from here on the lock is kept until `connect` is over
      refine ⟨fun other d n hd => ?_, fun r hr d hd => ?_, h.idle, fun j r d hr hd => ?_, fun d hd => ?_⟩
      · have hholders := holders_of_holding (q := .connecting ⟨sid, s.objects⟩) hp rfl other
        exact ⟨(h.counted other d n hd).1, hholders.trans (h.counted other d n hd).2.1, (h.counted other d n hd).2.2⟩
      · rcases mem_setCaller hr with rfl | hr
        · exact nomatch hd
        · exact h.used r hr d hd
      · rcases getElem?_setCaller hr with ⟨rfl, rfl⟩ | ⟨-, hr⟩
        · obtain rfl := Option.some.inj hd
          exact ⟨rfl, hget, hdetached⟩
        · exact absurd hd (hnone j r d hr)
      · have hmem : d ∈ s.cleaner.toDisconnect := hd
        rw [hcleaner] at hmem
        exact nomatch hmem

theorem sound_connected (h : Sound s) {c : Conversation} (hp : s.callers[i]? = some (.connecting c)) :
    Sound (connected s i c) := by
  obtain ⟨hlock, hget, hdetached⟩ := h.made i _ c hp rfl
  obtain ⟨halone, hcleaner⟩ := h.alone hlock
  obtain ⟨hunused, hzero⟩ := h.unused hget
  refine h.take hp rfl halone hcleaner hzero (fun r hr d hd hsid => absurd hsid (hunused r hr d hd)) rfl
    (fun kv hkv => ⟨hkv, fun hsid => ?_⟩) rfl rfl (usesOf_activated rfl).2 (balance_activated rfl)
  apply Assoc.get?_eq_none_iff.mp hdetached
  exact List.mem_map.mpr ⟨kv, hkv, hsid⟩

theorem sound_detachLocked (h : Sound s) {c : Conversation} (hp : s.callers[i]? = some (.detaching c))
    (hlock : s.lock = none) : Sound (detachLocked s i c) := by
  obtain ⟨hnone, hcleaner⟩ := h.free hlock
  obtain ⟨n, hget⟩ := h.used _ (List.mem_of_getElem? hp) c rfl
  obtain ⟨-, hcount, hbalance⟩ := h.counted c.sid c n hget
  have hless : ∀ other, (s.setCaller i .gone).holders other + (if c.sid = other then 1 else 0) = s.holders other := by
    intro other
    simpa [Caller.holds, Caller.holding] using holders_setCaller hp .gone other
  have hothers : ∀ other, other ≠ c.sid → (s.setCaller i .gone).holders other = s.holders other := by
    intro other hne
    have hother := hless other
    rwa [if_neg hne.symm] at hother
  have hown : (s.setCaller i .gone).holders c.sid + 1 = n := by
    have hc := hless c.sid
    rwa [if_pos rfl, hcount] at hc
  have hmem : ∀ r ∈ (s.setCaller i .gone).callers, ∀ d, r.holding = some d → r ∈ s.callers := by
    intro r hr d hd
    rcases mem_setCaller hr with rfl | hr
    · exact nomatch hd
    · exact hr
  have hmade : ∀ (j : Nat) (r : Caller) d, (s.setCaller i .gone).callers[j]? = some r → r.making ≠ some d := by
    intro j r d hr
    rcases getElem?_setCaller hr with ⟨-, rfl⟩ | ⟨-, hr⟩
    · exact nofun
    · exact hnone j r d hr
  have hswept : ∀ d ∈ s.cleaner.toDisconnect, False := by
    intro d hd
    rw [hcleaner] at hd
    exact nomatch hd
  unfold detachLocked
  rw [hget]
  dsimp only
  split
  · next hmany =>
    have hget' : Assoc.get? c.sid (Assoc.set c.sid (c, n - 1) s.active) = some (c, n - 1) := Assoc.get?_set_self ..
    have hother : ∀ other, other ≠ c.sid →
        Assoc.get? other (Assoc.set c.sid (c, n - 1) s.active) = Assoc.get? other s.active :=
      fun other hne => Assoc.get?_set_of_ne hne ..
    refine ⟨h.counted_of hother (fun other hne => usesOf_of_ne hne rfl) hothers fun d m hd => ?_, fun r hr d hd => ?_,
      fun kv hkv => ?_, fun j r d hr hd => absurd hd (hmade j r d hr), fun d hd => (hswept d hd).elim⟩
    · obtain ⟨rfl, rfl⟩ := Prod.mk.inj (Option.some.inj (hget'.symm.trans hd))
      refine ⟨rfl, ?_, balance_detached rfl (by omega)⟩
      exact Nat.eq_sub_of_add_eq hown
    · obtain ⟨m, hm⟩ := h.used r (hmem r hr d hd) d hd
      by_cases hsid : d.sid = c.sid
      · rw [hsid, hget] at hm
        obtain rfl := congrArg Prod.fst (Option.some.inj hm)
        exact ⟨n - 1, hget'⟩
      · exact ⟨m, (hother d.sid hsid).trans hm⟩
    · obtain ⟨hkey, hidle⟩ := h.idle kv hkv
      refine ⟨hkey, (hother kv.1 fun hsid => ?_).trans hidle⟩
      rw [hsid, hget] at hidle
      exact nomatch hidle
  · next hlast =>
    have hnone' : Assoc.get? c.sid (Assoc.erase c.sid s.active) = none :=
      Assoc.get?_eq_none_iff.mpr (Assoc.notMem_keys_erase c.sid s.active)
    have hother : ∀ other, other ≠ c.sid → Assoc.get? other (Assoc.erase c.sid s.active) = Assoc.get? other s.active :=
      fun other hne => (Assoc.get?_filter (· != c.sid) other s.active).trans (if_pos (bne_iff_ne.mpr hne))
    have hzero : (s.setCaller i .gone).holders c.sid = 0 := by omega
    refine ⟨h.counted_of hother (fun other hne => usesOf_of_ne hne rfl) hothers fun d m hd => ?_, fun r hr d hd => ?_,
      fun kv hkv => ?_, fun j r d hr hd => absurd hd (hmade j r d hr), fun d hd => (hswept d hd).elim⟩
    · exact nomatch hnone'.symm.trans hd
    · have hsid : d.sid ≠ c.sid := by
        intro hsid
        apply List.countP_eq_zero.mp hzero r hr
        exact Caller.holds_iff.mpr ⟨d, hd, hsid⟩
      obtain ⟨m, hm⟩ := h.used r (hmem r hr d hd) d hd
      exact ⟨m, (hother d.sid hsid).trans hm⟩
    · rcases Assoc.mem_set hkv with rfl | hkv
      · exact ⟨rfl, hnone'⟩
      · obtain ⟨hkey, hidle⟩ := h.idle kv hkv
        refine ⟨hkey, (hother kv.1 fun hsid => ?_).trans hidle⟩
        rw [hsid, hget] at hidle
        exact nomatch hidle

/-- The cleaner goes on with conversations that are not in use. -/
theorem Sound.setCleaner (h : Sound s) {detached : List (String × Conversation)} {lock : Option Owner}
    {cleaner : Cleaner} (hdetached : ∀ kv ∈ detached, kv ∈ s.detached)
    (hmade : ∀ (j : Nat) (r : Caller) d, s.callers[j]? = some r → r.making = some d → lock = s.lock)
    (hswept : ∀ c ∈ cleaner.toDisconnect, lock = some .cleaner ∧ Assoc.get? c.sid s.active = none) :
    Sound { s with detached := detached, lock := lock, cleaner := cleaner } := by
  refine ⟨h.counted, h.used, fun kv hkv => h.idle kv (hdetached kv hkv), fun j r d hr hd => ?_, hswept⟩
  obtain ⟨hlock, hactive, hnone⟩ := h.made j r d hr hd
  refine ⟨(hmade j r d hr hd).trans hlock, hactive, ?_⟩
  apply Assoc.get?_eq_none_iff.mpr
  intro hmem
  obtain ⟨kv, hkv, hkey⟩ := List.mem_map.mp hmem
  exact Assoc.get?_eq_none_iff.mp hnone (List.mem_map.mpr ⟨kv, hdetached kv hkv, hkey⟩)

/-- While the cleaner is inside, no caller is. -/
theorem Sound.noMaker (h : Sound s) {lock : Option Owner} (hlock : s.lock = none ∨ s.lock = some .cleaner) :
    ∀ (j : Nat) (r : Caller) d, s.callers[j]? = some r → r.making = some d → lock = s.lock := by
  intro j r d hr hd
  have howner := (h.made j r d hr hd).1
  rcases hlock with hlock | hlock
  · rw [hlock] at howner
    exact nomatch howner
  · rw [hlock] at howner
    injection howner with howner
    exact nomatch howner

theorem sound_sweepNext (h : Sound s) {detached items : List (String × Conversation)}
    (hlock : s.lock = none ∨ s.lock = some .cleaner) (hdetached : ∀ kv ∈ detached, kv ∈ s.detached)
    (hitems : ∀ c ∈ items.map Prod.snd, Assoc.get? c.sid s.active = none) :
    Sound (sweepNext { s with detached := detached } items) := by
  cases items with
  | nil => exact h.setCleaner hdetached (h.noMaker hlock) (nofun)
  | cons kv items => exact h.setCleaner hdetached (h.noMaker hlock) fun c hc => ⟨rfl, hitems c hc⟩

theorem sound_clearNext (h : Sound s) {values : List Conversation}
    (hlock : s.lock = none ∨ s.lock = some .cleaner)
    (hvalues : ∀ c ∈ values, Assoc.get? c.sid s.active = none) : Sound (clearNext s values) := by
  cases values with
  | nil => exact h.setCleaner (nofun) (h.noMaker hlock) (nofun)
  | cons c values => exact h.setCleaner (fun _ hkv => hkv) (h.noMaker hlock) fun d hd => ⟨rfl, hvalues d hd⟩

/-- Where a task stands at the head of its list, it has the lock. -/
theorem Sound.cleaning (h : Sound s) {c : Conversation} (hc : c ∈ s.cleaner.toDisconnect) :
    s.lock = none ∨ s.lock = some .cleaner := Or.inr (h.swept c hc).1

theorem sound_cancel (h : Sound s) : Sound (cancel s) := by
  unfold cancel
  cases hcleaner : s.cleaner with
  | away | waiting | cancelled => exact h.setCleaner (fun _ hkv => hkv) (fun _ _ _ _ _ => rfl) (nofun)
  | ended => exact h
  | sweeping sid c items =>
    have hlock := h.cleaning (c := c) (by rw [hcleaner]; exact List.mem_cons_self ..)
    exact h.setCleaner (fun _ hkv => hkv) (h.noMaker hlock) (nofun)
  | clearing c values =>
    have hlock := h.cleaning (c := c) (by rw [hcleaner]; exact List.mem_cons_self ..)
    exact h.setCleaner (fun _ hkv => hkv) (h.noMaker hlock) (nofun)

/-- What is detached is not active. -/
theorem Sound.detached_unused (h : Sound s) :
    ∀ c ∈ s.detached.map Prod.snd, Assoc.get? c.sid s.active = none := by
  intro c hc
  obtain ⟨kv, hkv, rfl⟩ := List.mem_map.mp hc
  obtain ⟨hkey, hnone⟩ := h.idle kv hkv
  rw [hkey]
  exact hnone

theorem sound_step (h : Sound s) (t : Step) : Sound (step s t) := by
  cases t with
  | attach sid =>
    refine ⟨fun other d n hd => ?_, fun r hr d hd => ?_, h.idle, fun j r d hr hd => ?_, h.swept⟩
    · have hholders : (step s (.attach sid)).holders other = s.holders other := by
        simp [State.holders, step, Caller.holds, Caller.holding]
      rw [hholders]
      exact h.counted other d n hd
    · rcases List.mem_append.mp hr with hr | hr
      · exact h.used r hr d hd
      · obtain rfl := List.mem_singleton.mp hr
        exact nomatch hd
    · have hr : (s.callers ++ [Caller.looking sid])[j]? = some r := hr
      rcases Parties.append_cases hr with hr | ⟨-, rfl⟩
      · exact h.made j r d hr hd
      · exact nomatch hd
  | looked i found =>
    simp only [step]
    split
    · next sid hp => cases found <;> exact h.setCaller hp rfl (nofun)
    · exact h
  | enter i =>
    simp only [step]
    split
    · next sid hp hlock => exact sound_attachLocked h hp hlock
    · next c hp hlock => exact sound_detachLocked h hp hlock
    · exact h
  | connected i =>
    simp only [step]
    split
    · next c hp => exact sound_connected h hp
    · exact h
  | connectUnavailable i =>
    simp only [step]
    split
    · next c hp => exact h.setCaller hp rfl fun d hd => hd
    · exact h
  | connectRaised i =>
    simp only [step]
    split
    · next c hp => exact h.giveUp hp rfl rfl
    · exact h
  | disconnected i =>
    simp only [step]
    split
    · next c hp => exact h.giveUp hp rfl rfl
    · exact h
  | detach i =>
    simp only [step]
    split
    · next c hp => exact h.setCaller hp rfl (nofun)
    · exact h
  | sweep =>
    simp only [step]
    split
    · exact h.setCleaner (fun _ hkv => hkv) (fun _ _ _ _ _ => rfl) (nofun)
    · exact h
  | enterSweep =>
    simp only [step]
    split
    · next hfree => exact sound_sweepNext h (Or.inl hfree.2) (fun _ hkv => hkv) h.detached_unused
    · exact h
  | swept raised =>
    simp only [step]
    split
    · next sid c items hcleaner =>
      have hswept : ∀ d ∈ c :: items.map Prod.snd, d ∈ s.cleaner.toDisconnect := by
        intro d hd
        rw [hcleaner]
        exact hd
      have hlock := h.cleaning (hswept c (List.mem_cons_self ..))
      split
      · exact h.setCleaner (fun _ hkv => hkv) (h.noMaker hlock) (nofun)
      · apply sound_sweepNext h hlock fun _ hkv => Assoc.mem_erase hkv
        exact fun d hd => (h.swept d (hswept d (List.mem_cons_of_mem c hd))).2
    · exact h
  | cancel => exact sound_cancel h
  | enterClear =>
    simp only [step]
    split
    · next hfree => exact sound_clearNext h (Or.inl hfree.2) h.detached_unused
    · exact h
  | cleared raised =>
    simp only [step]
    split
    · next c values hcleaner =>
      have hswept : ∀ d ∈ c :: values, d ∈ s.cleaner.toDisconnect := by
        intro d hd
        rw [hcleaner]
        exact hd
      have hlock := h.cleaning (hswept c (List.mem_cons_self ..))
      split
      · exact h.setCleaner (fun _ hkv => hkv) (h.noMaker hlock) (nofun)
      · apply sound_clearNext h hlock
        exact fun d hd => (h.swept d (hswept d (List.mem_cons_of_mem c hd))).2
    · exact h

theorem sound_init : Sound {} where
  counted _ _ _ h := nomatch h
  used _ h := nomatch h
  idle _ h := nomatch h
  made _ _ _ h := nomatch h
  swept _ h := nomatch h

theorem sound_run (steps : List Step) : Sound (steps.foldl step {}) := by
  induction steps using List.reverseRecOn with
  | nil => exact sound_init
  | append_singleton steps t ih =>
    rw [List.foldl_append]
    exact sound_step ih t

/-- What is being disconnected is not active. -/
theorem Sound.disconnecting (h : Sound s) {c : Conversation} (hc : s.Disconnecting c) :
    Assoc.get? c.sid s.active = none := by
  rcases hc with hc | hc
  · obtain ⟨j, hj⟩ := List.mem_iff_getElem?.mp hc
    exact (h.made j _ c hj rfl).2.1
  · exact (h.swept c (List.mem_of_head? hc)).2

end Locked

end OpenHands.AttachedConversations
