import Mathlib.Data.List.Perm.Basic
import OpenHandsSWE.Lib.AssocSum
import OpenHandsSWE.Lib.Runs

/-! The agent loops of `StandaloneConversationManager`: starts and closings interleave wherever they
wait, while what a start checked before it waited is not checked again. -/

namespace OpenHands.AgentLoops

/-- A `Session`, and which object it is. -/
structure Session where
  sid : String
  userId : Option String
  object : Nat
deriving DecidableEq, Repr

/-- A `_start_agent_loop` that makes room first; `since` counts the sessions made before its check. -/
structure Start where
  sid : String
  userId : Option String
  since : Nat
  conversations : List String
deriving DecidableEq, Repr

/-- What a call waits for; a closing on behalf of a start goes back to it. -/
inductive Task where
  | metadata (st : Start)
  | emitting (st : Start) (oldest : String)
  | disconnecting (sid connection : String) (connections : List String) (back : Option Start)
  | closing (object : Nat) (back : Option Start)
  | done
deriving DecidableEq, Repr

/-- A session that was made, and the loops its user had then. -/
structure Created where
  session : Session
  running : Nat
deriving DecidableEq, Repr

structure State where
  loops : List (String × Session) := []
  connections : List (String × String) := []
  objects : Nat := 0
  tasks : List Task := []
  created : List Created := []
  closeCalled : List Nat := []
deriving DecidableEq, Repr

inductive Step where
  | maybeStart (sid : String) (userId : Option String)
  | gotMetadata (i : Nat) (metadata : List (String × Option Int))
  | emitted (i : Nat)
  | disconnected (i : Nat)
  | closed (i : Nat)
  | raised (i : Nat)
  | close (sid : String)
  | closeStale (sid : String)
  | connect (connection sid : String)
  | leave (connection : String)

namespace State

def setTask (s : State) (i : Nat) (task : Task) : State := { s with tasks := s.tasks.set i task }

/-- The agent loops of one user. -/
def running (s : State) (userId : Option String) : Nat := s.loops.countP fun kv => kv.2.userId == userId

end State

/-- Without a user the loops of all of them. -/
def getRunningAgentLoops (s : State) (userId : Option String) : List String :=
  (if userId.any (· ≠ "") then s.loops.filter fun kv => kv.2.userId == userId else s.loops).map Prod.fst

/-- The end of `_start_agent_loop`, which nothing interrupts. -/
def createSession (s : State) (sid : String) (userId : Option String) : State :=
  let session : Session := ⟨sid, userId, s.objects⟩
  let loops := Assoc.set sid session s.loops
  { s with
    loops := loops
    objects := s.objects + 1
    created := s.created ++ [⟨session, loops.countP fun kv => kv.2.userId == userId⟩] }

def lastUpdatedAtKey (lastUpdatedAt : Option Int) : Int := lastUpdatedAt.getD 0

/-- The newest conversation first. -/
def sortConversations (metadata : List (String × Option Int)) : List String :=
  (metadata.mergeSort fun a b => decide (lastUpdatedAtKey b.2 ≤ lastUpdatedAtKey a.2)).map Prod.fst

section
variable (max : Int)

/-- The head of the loop that closes the oldest conversations. -/
def makeRoom (s : State) (i : Nat) (st : Start) : State :=
  if max ≤ st.conversations.length then
    match st.conversations.getLast? with
    | some oldest => s.setTask i (.emitting { st with conversations := st.conversations.dropLast } oldest)
    | none => s.setTask i .done -- `pop` from an empty list raises
  else (createSession s st.sid st.userId).setTask i .done

def goBack (s : State) (i : Nat) : Option Start → State
  | some st => makeRoom max s i st
  | none => s.setTask i .done

/-- `_close_session` from the connections it has still to disconnect. -/
def closeConnections (s : State) (i : Nat) (sid : String) (connections : List String) (back : Option Start) : State :=
  match connections with
  | connection :: connections => s.setTask i (.disconnecting sid connection connections back)
  | [] =>
    match Assoc.get? sid s.loops with
    | some session =>
      { s with
        loops := Assoc.erase sid s.loops
        closeCalled := session.object :: s.closeCalled }.setTask i (.closing session.object back)
    | none => goBack max s i back

def closeSession_ (s : State) (i : Nat) (sid : String) (back : Option Start) : State :=
  closeConnections max s i sid ((s.connections.filter fun kv => kv.2 == sid).map Prod.fst) back

def closeSession (s : State) (i : Nat) (sid : String) (back : Option Start) : State :=
  if (Assoc.get? sid s.loops).isSome then closeSession_ max s i sid back else goBack max s i back

def maybeStartAgentLoop (s : State) (i : Nat) (sid : String) (userId : Option String) : State :=
  if (Assoc.get? sid s.loops).isSome then s.setTask i .done
  else if max ≤ (getRunningAgentLoops s userId).length then
    s.setTask i (.metadata ⟨sid, userId, s.objects, getRunningAgentLoops s userId⟩)
  else (createSession s sid userId).setTask i .done

/-- A step that does not come next for its call changes nothing. -/
def step (s : State) : Step → State
  | .maybeStart sid userId => maybeStartAgentLoop max { s with tasks := s.tasks ++ [.done] } s.tasks.length sid userId
  | .gotMetadata i metadata =>
    match s.tasks[i]? with
    | some (.metadata st) =>
      -- the metadata of every conversation is there
      if (metadata.map Prod.fst).Perm st.conversations then
        makeRoom max s i { st with conversations := sortConversations metadata }
      else s
    | _ => s
  | .emitted i =>
    match s.tasks[i]? with
    | some (.emitting st oldest) => closeSession max s i oldest (some st)
    | _ => s
  | .disconnected i =>
    match s.tasks[i]? with
    | some (.disconnecting sid connection connections back) =>
      closeConnections max { s with connections := Assoc.erase connection s.connections } i sid connections back
    | _ => s
  | .closed i =>
    match s.tasks[i]? with
    | some (.closing _ back) => goBack max s i back
    | _ => s
  | .raised i => s.setTask i .done
  | .close sid => closeSession max { s with tasks := s.tasks ++ [.done] } s.tasks.length sid none
  | .closeStale sid => closeSession_ max { s with tasks := s.tasks ++ [.done] } s.tasks.length sid none
  | .connect connection sid => { s with connections := Assoc.set connection sid s.connections }
  | .leave connection => { s with connections := Assoc.erase connection s.connections }

/-- The start that the step brings back from its last wait: it has no room left to make. -/
def Step.arriving (s : State) : Step → Option Start
  | .emitted i =>
    match s.tasks[i]? with
    | some (.emitting st oldest) => if (Assoc.get? oldest s.loops).isSome then none else some st
    | _ => none
  | .disconnected i =>
    match s.tasks[i]? with
    | some (.disconnecting sid _ [] back) => if (Assoc.get? sid s.loops).isSome then none else back
    | _ => none
  | .closed i =>
    match s.tasks[i]? with
    | some (.closing _ back) => back
    | _ => none
  | _ => none

/-- The user's loops that began while the start waited. -/
def newcomers (s : State) (st : Start) : Nat :=
  s.loops.countP fun kv => kv.2.userId == st.userId && decide (st.since ≤ kv.2.object)

/-- Of the conversations that the start left open, those that are no loop of the user any more. -/
def leavers (s : State) (st : Start) : Nat :=
  st.conversations.countP fun sid =>
    !(Assoc.get? sid s.loops).any fun session => session.userId == st.userId && decide (session.object < st.since)

/-- While a start waited nobody else has started its conversation, and those who came in for its user
took the place of others who left. -/
def InTurn (s : State) (t : Step) : Prop :=
  ∀ st, t.arriving s = some st → (st.conversations.length : Int) < max →
    Assoc.get? st.sid s.loops = none ∧ newcomers s st ≤ leavers s st

instance (s : State) (t : Step) : Decidable (InTurn max s t) :=
  match h : t.arriving s with
  | none => isTrue fun _ hst => nomatch h.symm.trans hst
  | some st =>
    decidable_of_iff ((st.conversations.length : Int) < max →
        Assoc.get? st.sid s.loops = none ∧ newcomers s st ≤ leavers s st)
      ⟨fun hturn _ hst => Option.some.inj (h.symm.trans hst) ▸ hturn, fun hturn => hturn st h⟩

/-- The start that waits, and the conversations that its user's loops since before its check are among. -/
def Task.waits : Task → Option (Start × List String)
  | .metadata st => some (st, st.conversations)
  | .emitting st oldest => some (st, oldest :: st.conversations)
  | .disconnecting sid _ _ back => back.map fun st => (st, sid :: st.conversations)
  | .closing _ back => back.map fun st => (st, st.conversations)
  | .done => none

/-- A start knows of the loops that its user had before. -/
def Knows (s : State) (st : Start) (sids : List String) : Prop :=
  st.since ≤ s.objects ∧ ∀ kv ∈ s.loops, kv.2.userId = st.userId → kv.2.object < st.since → kv.1 ∈ sids

structure Sound (s : State) : Prop where
  nodup : (s.loops.map Prod.fst).Nodup
  keyed : ∀ kv ∈ s.loops, kv.2.sid = kv.1 ∧ kv.2.object < s.objects
  kept : ∀ x ∈ s.created, x.session.object ∉ s.closeCalled → Assoc.get? x.session.sid s.loops = some x.session
  limited : 1 ≤ max → ∀ x ∈ s.created, (x.running : Int) ≤ max
  knows : ∀ task ∈ s.tasks, ∀ st sids, task.waits = some (st, sids) → Knows s st sids
  full : ∀ st, .metadata st ∈ s.tasks → max ≤ st.conversations.length

end

section Steps
variable {max : Int} {s s' : State} {i : Nat} {sid : String} {st : Start}

theorem Knows.mono {sids : List String} (h : Knows s st sids) (hobjects : s.objects ≤ s'.objects)
    (hloops : ∀ kv ∈ s'.loops, kv ∈ s.loops ∨ s.objects ≤ kv.2.object) : Knows s' st sids := by
  refine ⟨h.1.trans hobjects, fun kv hkv huser hold => ?_⟩
  rcases hloops kv hkv with hkv | hnew
  · exact h.2 kv hkv huser hold
  · exact absurd (hold.trans_le h.1) (Nat.not_lt.mpr hnew)

theorem Knows.subset {sids others : List String} (h : Knows s st sids)
    (hsids : ∀ kv ∈ s.loops, kv.1 ∈ sids → kv.1 ∈ others) : Knows s st others :=
  ⟨h.1, fun kv hkv huser hold => hsids kv hkv (h.2 kv hkv huser hold)⟩

/-- A conversation without a loop need not be among those a start knows of. -/
theorem Knows.tail {sids : List String} (h : Knows s st (sid :: sids)) (hnone : Assoc.get? sid s.loops = none) :
    Knows s st sids := by
  apply h.subset
  intro kv hkv hmem
  rcases List.mem_cons.mp hmem with heq | hmem
  · rw [Assoc.get?_eq_none_iff, ← heq] at hnone
    exact absurd (List.mem_map_of_mem hkv) hnone
  · exact hmem

theorem sound_setTask (h : Sound max s) {task : Task}
    (hwaits : ∀ st sids, task.waits = some (st, sids) → Knows s st sids)
    (hfull : ∀ st, task = .metadata st → max ≤ st.conversations.length) : Sound max (s.setTask i task) := by
  refine ⟨h.nodup, h.keyed, h.kept, h.limited, fun other hother st sids hst => ?_, fun st hst => ?_⟩
  · rcases List.mem_or_eq_of_mem_set hother with hother | rfl
    · exact h.knows other hother st sids hst
    · exact hwaits st sids hst
  · rcases List.mem_or_eq_of_mem_set hst with hst | hst
    · exact h.full st hst
    · exact hfull st hst.symm

theorem sound_done (h : Sound max s) : Sound max (s.setTask i .done) := sound_setTask h (nofun) (nofun)

/-- A new session takes a free place. -/
theorem sound_createSession (h : Sound max s) {userId : Option String} (hnone : Assoc.get? sid s.loops = none)
    (hroom : 1 ≤ max → (s.running userId : Int) + 1 ≤ max) : Sound max (createSession s sid userId) := by
  let session : Session := ⟨sid, userId, s.objects⟩
  have hloops : (createSession s sid userId).loops = s.loops ++ [(sid, session)] :=
    Assoc.set_of_notMem session (Assoc.get?_eq_none_iff.mp hnone)
  have hcount : (createSession s sid userId).loops.countP (fun kv => kv.2.userId == userId) = s.running userId + 1 := by
    rw [hloops, List.countP_append]
    simp [State.running, session]
  refine ⟨Assoc.nodup_set session h.nodup, fun kv hkv => ?_, fun x hx hopen => ?_, fun hmax x hx => ?_,
    fun task htask st sids hst => ?_, h.full⟩
  · rw [hloops] at hkv
    rcases List.mem_append.mp hkv with hkv | hkv
    · exact ⟨(h.keyed kv hkv).1, Nat.lt_succ_of_lt (h.keyed kv hkv).2⟩
    · obtain rfl := List.mem_singleton.mp hkv
      exact ⟨rfl, Nat.lt_succ_self _⟩
  · rcases List.mem_append.mp hx with hx | hx
    · have hget := h.kept x hx hopen
      have hne : x.session.sid ≠ sid := by
        intro heq
        rw [heq, hnone] at hget
        exact nomatch hget
      exact (Assoc.get?_set_of_ne hne session s.loops).trans hget
    · obtain rfl := List.mem_singleton.mp hx
      exact Assoc.get?_set_self ..
  · rcases List.mem_append.mp hx with hx | hx
    · exact h.limited hmax x hx
    · obtain rfl := List.mem_singleton.mp hx
      have hroom := hroom hmax
      rw [← Nat.cast_succ, Nat.succ_eq_add_one, ← hcount] at hroom
      exact hroom
  · apply (h.knows task htask st sids hst).mono (Nat.le_succ _)
    intro kv hkv
    rw [hloops] at hkv
    rcases List.mem_append.mp hkv with hkv | hkv
    · exact Or.inl hkv
    · obtain rfl := List.mem_singleton.mp hkv
      exact Or.inr le_rfl

/-- The loops of a user that a start knows of are at most those it left open and that have stayed. -/
theorem running_le (h : Sound max s) (hknows : Knows s st st.conversations) :
    s.running st.userId + leavers s st ≤ newcomers s st + st.conversations.length := by
  let old : String × Session → Bool := fun kv => kv.2.userId == st.userId && decide (kv.2.object < st.since)
  let stays : String → Bool := fun sid =>
    (Assoc.get? sid s.loops).any fun session => session.userId == st.userId && decide (session.object < st.since)
  have hsplit : s.running st.userId = newcomers s st + s.loops.countP old := by
    have hor := List.countP_eq_countP_filter_add s.loops (fun kv => kv.2.userId == st.userId)
      (fun kv => decide (st.since ≤ kv.2.object))
    rw [List.countP_filter, List.countP_filter] at hor
    have hnot : old = fun kv => kv.2.userId == st.userId && !decide (st.since ≤ kv.2.object) := by
      funext kv
      simp only [old, ← decide_not, not_le]
    rw [hnot]
    simpa [State.running, newcomers] using hor
  have hold : s.loops.countP old ≤ st.conversations.countP stays := by
    have hnodup : ((s.loops.filter old).map Prod.fst).Nodup :=
      h.nodup.sublist (List.filter_sublist.map Prod.fst)
    have hsubset : (s.loops.filter old).map Prod.fst ⊆ st.conversations.filter stays := by
      intro sid hsid
      obtain ⟨kv, hkv, rfl⟩ := List.mem_map.mp hsid
      obtain ⟨hmem, hkv⟩ := List.mem_filter.mp hkv
      obtain ⟨huser, hobject⟩ := Bool.and_eq_true_iff.mp hkv
      apply List.mem_filter.mpr
      refine ⟨hknows.2 kv hmem (eq_of_beq huser) (of_decide_eq_true hobject), ?_⟩
      simp only [stays, Assoc.get?_of_mem h.nodup hmem]
      exact hkv
    have hlength := (List.subperm_of_subset hnodup hsubset).length_le
    rwa [List.length_map, ← List.countP_eq_length_filter, ← List.countP_eq_length_filter] at hlength
  have hlength := List.length_eq_countP_add_countP stays (l := st.conversations)
  have hleavers : leavers s st = st.conversations.countP fun sid => decide ¬stays sid = true := by
    simp [leavers, stays]
  rw [hsplit, hleavers, hlength]
  omega

theorem sound_makeRoom (h : Sound max s) (hknows : Knows s st st.conversations)
    (hturn : (st.conversations.length : Int) < max →
      Assoc.get? st.sid s.loops = none ∧ newcomers s st ≤ leavers s st) : Sound max (makeRoom max s i st) := by
  unfold makeRoom
  split
  · split
    · next oldest hlast =>
      refine sound_setTask h (fun st' sids hst => ?_) (nofun)
      obtain ⟨rfl, rfl⟩ := Prod.mk.inj (Option.some.inj hst)
      refine ⟨hknows.1, fun kv hkv huser hold => ?_⟩
      have hmem := hknows.2 kv hkv huser hold
      rw [← List.dropLast_append_getLast? oldest hlast] at hmem
      rcases List.mem_append.mp hmem with hmem | hmem
      · exact List.mem_cons_of_mem oldest hmem
      · obtain hmem := List.mem_singleton.mp hmem
        rw [hmem]
        exact List.mem_cons_self ..
    · exact sound_done h
  · next hroom =>
    obtain ⟨hnone, hplace⟩ := hturn (not_le.mp hroom)
    apply sound_done
    apply sound_createSession h hnone
    intro hmax
    have hrunning := running_le h hknows
    omega

theorem sound_goBack (h : Sound max s) {back : Option Start}
    (hback : ∀ st, back = some st → Knows s st st.conversations ∧ ((st.conversations.length : Int) < max →
      Assoc.get? st.sid s.loops = none ∧ newcomers s st ≤ leavers s st)) : Sound max (goBack max s i back) := by
  cases back with
  | none => exact sound_done h
  | some st => exact sound_makeRoom h (hback st rfl).1 (hback st rfl).2

/-- A session leaves the map and is closed. -/
theorem sound_pop (h : Sound max s) {session : Session} (hget : Assoc.get? sid s.loops = some session) :
    Sound max { s with loops := Assoc.erase sid s.loops, closeCalled := session.object :: s.closeCalled } := by
  refine ⟨Assoc.nodup_erase h.nodup, fun kv hkv => h.keyed kv (Assoc.mem_erase hkv), fun x hx hopen => ?_, h.limited,
    fun task htask st sids hst => ?_, h.full⟩
  · obtain ⟨hobject, hopen⟩ := not_or.mp (mt List.mem_cons.mpr hopen)
    have hkept := h.kept x hx hopen
    have hne : x.session.sid ≠ sid := by
      intro heq
      rw [heq, hget] at hkept
      exact hobject (congrArg Session.object (Option.some.inj hkept)).symm
    exact ((Assoc.get?_filter (· != sid) _ s.loops).trans (if_pos (bne_iff_ne.mpr hne))).trans hkept
  · exact (h.knows task htask st sids hst).mono le_rfl fun kv hkv => Or.inl (Assoc.mem_erase hkv)

theorem sound_closeConnections (h : Sound max s) {connections : List String} {back : Option Start}
    (hback : ∀ st, back = some st → Knows s st (sid :: st.conversations))
    (hturn : connections = [] → Assoc.get? sid s.loops = none → ∀ st, back = some st →
      (st.conversations.length : Int) < max → Assoc.get? st.sid s.loops = none ∧ newcomers s st ≤ leavers s st) :
    Sound max (closeConnections max s i sid connections back) := by
  cases connections with
  | cons connection connections =>
    refine sound_setTask h (fun st' sids hst => ?_) (fun st hst => by cases hst)
    obtain ⟨st, hsome, heq⟩ := Option.map_eq_some_iff.mp hst
    obtain ⟨rfl, rfl⟩ := Prod.mk.inj heq
    exact hback st hsome
  | nil =>
    simp only [closeConnections]
    split
    · next session hget =>
      refine sound_setTask (sound_pop h hget) (fun st' sids hst => ?_) (fun st hst => by cases hst)
      obtain ⟨st, hsome, heq⟩ := Option.map_eq_some_iff.mp hst
      obtain ⟨rfl, rfl⟩ := Prod.mk.inj heq
      apply @Knows.tail _ sid
      · exact (hback st hsome).mono le_rfl fun kv hkv => Or.inl (Assoc.mem_erase hkv)
      · exact Assoc.get?_eq_none_iff.mpr (Assoc.notMem_keys_erase sid s.loops)
    · next hnone =>
      exact sound_goBack h fun st hst => ⟨(hback st hst).tail hnone, hturn rfl hnone st hst⟩

theorem sound_maybeStartAgentLoop (h : Sound max s) (userId : Option String) :
    Sound max (maybeStartAgentLoop max s i sid userId) := by
  have hsame : ∀ kv ∈ s.loops, kv.2.userId = userId → kv.1 ∈ getRunningAgentLoops s userId := by
    intro kv hkv huser
    apply List.mem_map_of_mem
    split_ifs
    · exact List.mem_filter.mpr ⟨hkv, beq_iff_eq.mpr huser⟩
    · exact hkv
  have hle : s.running userId ≤ (getRunningAgentLoops s userId).length := by
    rw [getRunningAgentLoops, List.length_map]
    split_ifs
    · exact List.countP_eq_length_filter.le
    · exact List.countP_le_length
  unfold maybeStartAgentLoop
  split
  · exact sound_done h
  · next hnone =>
    split
    · next hfull =>
      refine sound_setTask h (fun st sids hst => ?_) fun st hst => ?_
      · obtain ⟨rfl, rfl⟩ := Prod.mk.inj (Option.some.inj hst)
        exact ⟨le_rfl, fun kv hkv huser _ => hsame kv hkv huser⟩
      · obtain rfl := Task.metadata.inj hst
        exact hfull
    · next hroom =>
      apply sound_done
      apply sound_createSession h (by simpa using hnone)
      intro _
      omega

theorem sound_appendDone (h : Sound max s) : Sound max { s with tasks := s.tasks ++ [.done] } := by
  refine ⟨h.nodup, h.keyed, h.kept, h.limited, fun task htask st sids hst => ?_, fun st hst => ?_⟩
  · rcases List.mem_append.mp htask with htask | htask
    · exact h.knows task htask st sids hst
    · obtain rfl := List.mem_singleton.mp htask
      exact nomatch hst
  · rcases List.mem_append.mp hst with hst | hst
    · exact h.full st hst
    · exact nomatch List.mem_singleton.mp hst

theorem sortConversations_perm {metadata : List (String × Option Int)} :
    (sortConversations metadata).Perm (metadata.map Prod.fst) := (List.mergeSort_perm _ _).map Prod.fst

theorem sound_gotMetadata (h : Sound max s) (metadata : List (String × Option Int)) :
    Sound max (step max s (.gotMetadata i metadata)) := by
  simp only [step]
  split
  · next st htask =>
    split
    · next hall =>
      have hmem := List.mem_of_getElem? htask
      have hperm := sortConversations_perm.trans hall
      apply sound_makeRoom h
      · exact (h.knows _ hmem st _ rfl).subset fun kv _ hkv => hperm.mem_iff.mpr hkv
      · intro hroom
        have hfull := h.full st hmem
        rw [hperm.length_eq] at hroom
        exact absurd hroom (not_lt.mpr hfull)
    · exact h
  · exact h

theorem sound_emitted (h : Sound max s) (hturn : InTurn max s (.emitted i)) :
    Sound max (step max s (.emitted i)) := by
  simp only [step]
  split
  · next st oldest htask =>
    have hknows := h.knows _ (List.mem_of_getElem? htask) st _ rfl
    unfold closeSession
    split
    · next hsome =>
      apply sound_closeConnections h
      · rintro _ ⟨rfl⟩
        exact hknows
      · intro _ hnone
        rw [hnone] at hsome
        exact absurd hsome Bool.false_ne_true
    · next hnone =>
      apply sound_goBack h
      rintro _ ⟨rfl⟩
      refine ⟨hknows.tail (by simpa using hnone), hturn st ?_⟩
      simp only [Step.arriving, htask, if_neg hnone]
  · exact h

theorem sound_disconnected (h : Sound max s) (hturn : InTurn max s (.disconnected i)) :
    Sound max (step max s (.disconnected i)) := by
  simp only [step]
  split
  · next sid connection connections back htask =>
    have hsound : Sound max { s with connections := Assoc.erase connection s.connections } :=
      ⟨h.nodup, h.keyed, h.kept, h.limited, h.knows, h.full⟩
    apply sound_closeConnections hsound
    · intro st hst
      apply h.knows _ (List.mem_of_getElem? htask) st
      rw [Task.waits, hst]
      rfl
    · rintro rfl hnone st rfl
      apply hturn st
      have hnone : Assoc.get? sid s.loops = none := hnone
      simp [Step.arriving, htask, hnone]
  · exact h

theorem sound_closed (h : Sound max s) (hturn : InTurn max s (.closed i)) :
    Sound max (step max s (.closed i)) := by
  simp only [step]
  split
  · next object back htask =>
    apply sound_goBack h
    rintro st rfl
    refine ⟨h.knows _ (List.mem_of_getElem? htask) st _ rfl, hturn st ?_⟩
    simp only [Step.arriving, htask]
  · exact h

theorem sound_step (h : Sound max s) (t : Step) (hturn : InTurn max s t) : Sound max (step max s t) := by
  cases t with
  | maybeStart sid userId => exact sound_maybeStartAgentLoop (sound_appendDone h) userId
  | gotMetadata i metadata => exact sound_gotMetadata h metadata
  | emitted i => exact sound_emitted h hturn
  | disconnected i => exact sound_disconnected h hturn
  | closed i => exact sound_closed h hturn
  | raised i => exact sound_done h
  | close sid =>
    simp only [step, closeSession]
    split
    · exact sound_closeConnections (sound_appendDone h) (fun st hst => by cases hst) (fun _ _ st hst => by cases hst)
    · exact sound_done (sound_appendDone h)
  | closeStale sid =>
    exact sound_closeConnections (sound_appendDone h) (fun st hst => by cases hst) (fun _ _ st hst => by cases hst)
  | connect connection sid => exact ⟨h.nodup, h.keyed, h.kept, h.limited, h.knows, h.full⟩
  | leave connection => exact ⟨h.nodup, h.keyed, h.kept, h.limited, h.knows, h.full⟩

theorem sound_init : Sound max {} where
  nodup := List.nodup_nil
  keyed _ h := nomatch h
  kept _ h := nomatch h
  limited _ _ h := nomatch h
  knows _ h := nomatch h
  full _ h := nomatch h

end Steps

/-- No session is forgotten before it is closed, so a conversation has one at most, and none was made
beyond the limit of its user. -/
structure OneLoopEach (max : Int) (s : State) : Prop where
  kept : ∀ x ∈ s.created, x.session.object ∉ s.closeCalled → Assoc.get? x.session.sid s.loops = some x.session
  alone : ∀ x ∈ s.created, ∀ y ∈ s.created, x.session.object ∉ s.closeCalled → y.session.object ∉ s.closeCalled →
    x.session.sid = y.session.sid → x.session = y.session
  limited : 1 ≤ max → ∀ x ∈ s.created, (x.running : Int) ≤ max

theorem oneLoopEach_run (max : Int) (steps : List Step) (h : Runs.EachStep (step max) {} (InTurn max) steps) :
    OneLoopEach max (steps.foldl (step max) {}) := by
  have hsound : Sound max (steps.foldl (step max) {}) := h.invariant sound_init fun s t hs ht => sound_step hs t ht
  refine ⟨hsound.kept, fun x hx y hy hxopen hyopen hsid => ?_, hsound.limited⟩
  have hxkept := hsound.kept x hx hxopen
  rw [hsid, hsound.kept y hy hyopen] at hxkept
  exact (Option.some.inj hxkept).symm

/-- A second conversation of the user closes the first. -/
def oneAfterTheOther : List Step :=
  [.maybeStart "x" (some "u"), .maybeStart "a" (some "u"), .gotMetadata 1 [("x", none)], .emitted 1, .closed 1]

/-- Two requests start the same conversation while both make room for it. -/
def startedTwice : List Step :=
  [.maybeStart "x" (some "u"), .maybeStart "a" (some "u"), .maybeStart "a" (some "u"), .gotMetadata 1 [("x", none)],
    .gotMetadata 2 [("x", none)], .emitted 1, .emitted 2, .closed 1]

/-- Two requests make room for two conversations by closing the same one. -/
def startedTogether : List Step :=
  [.maybeStart "x" (some "u"), .maybeStart "a" (some "u"), .maybeStart "b" (some "u"), .gotMetadata 1 [("x", none)],
    .gotMetadata 2 [("x", none)], .emitted 1, .emitted 2, .closed 1]

theorem oneLoopEach_oneAfterTheOther : OneLoopEach 1 (oneAfterTheOther.foldl (step 1) {}) :=
  oneLoopEach_run 1 oneAfterTheOther (by decide +kernel)

theorem startedTwice_not_oneLoopEach :
    ¬ OneLoopEach 1 (startedTwice.foldl (step 1) {}) ∧ ¬ OneLoopEach 1 (startedTogether.foldl (step 1) {}) := by
  constructor
  · intro h
    have hkept := h.kept ⟨⟨"a", some "u", 1⟩, 1⟩ (by decide +kernel) (by decide +kernel)
    revert hkept
    decide +kernel
  · intro h
    have hlimited := h.limited le_rfl ⟨⟨"a", some "u", 2⟩, 2⟩ (by decide +kernel)
    revert hlimited
    decide

end OpenHands.AgentLoops
