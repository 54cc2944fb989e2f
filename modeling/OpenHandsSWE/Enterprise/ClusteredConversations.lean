import Mathlib.Logic.Function.Basic
import OpenHandsSWE.Lib.Runs

/-! Several nodes start and close the sessions of conversations, and a key in Redis says which ones run. -/

set_option linter.unusedSectionVars false

namespace OpenHands.ClusteredConversationManager

variable {Node User Sid : Type} [DecidableEq Node] [DecidableEq User] [DecidableEq Sid]

/-- A session is taken from its node, loses its key, and has closed at last. -/
inductive SessionStage where
  | live
  | popped
  | deleted
  | closed
deriving DecidableEq, Repr

structure Session (Node User Sid : Type) where
  sid : Sid
  user : User
  node : Node
  stage : SessionStage

/-- A call of `maybe_start_agent_loop` that has set the key, or is in `_start_agent_loop`. -/
inductive Start (Node User Sid : Type) where
  | none
  | created (n : Node) (sid : Sid) (user : User)
  | starting (n : Node) (sid : Sid) (user : User)
  | done

/-- The key that a start has set for itself. -/
def Start.holds : Start Node User Sid → Option (Sid × User)
  | created _ sid user | starting _ sid user => some (sid, user)
  | none | done => Option.none

structure State (Node User Sid : Type) where
  keys : Sid → User → Bool := fun _ _ => false
  sessions : Nat → Option (Session Node User Sid) := fun _ => none
  nextSession : Nat := 0
  loops : Node → Sid → Option Nat := fun _ _ => none
  starts : Nat → Start Node User Sid := fun _ => .none
  rounds : Node → Option (Sid → Option User) := fun _ => none

/-- What happens between two awaits. A node closes a session for its own `close_session`, for a message, or for
its cleanup. -/
inductive Step (Node User Sid : Type) where
  | set (t : Nat) (n : Node) (sid : Sid) (user : User)
  | begin (t : Nat)
  | create (t : Nat)
  | fail (t : Nat)
  | pop (n : Node) (sid : Sid)
  | delete (id : Nat)
  | finish (id : Nat)
  | read (n : Node)
  | execute (n : Node)
  | expire (sid : Sid) (user : User)

namespace State

def setKey (s : State Node User Sid) (sid : Sid) (user : User) (b : Bool) : State Node User Sid :=
  { s with keys := fun sid' user' => if sid' = sid ∧ user' = user then b else s.keys sid' user' }

def setStart (s : State Node User Sid) (t : Nat) (start : Start Node User Sid) : State Node User Sid :=
  { s with starts := Function.update s.starts t start }

def setSession (s : State Node User Sid) (id : Nat) (session : Session Node User Sid) : State Node User Sid :=
  { s with sessions := Function.update s.sessions id (some session) }

def setLoop (s : State Node User Sid) (n : Node) (sid : Sid) (id : Option Nat) : State Node User Sid :=
  { s with loops := fun n' sid' => if n' = n ∧ sid' = sid then id else s.loops n' sid' }

end State

section Steps

variable (s : State Node User Sid)

/-- `redis.set` with `nx`. -/
def set (t : Nat) (n : Node) (sid : Sid) (user : User) : State Node User Sid :=
  match s.starts t with
  | .none =>
    if s.keys sid user then s.setStart t .done else (s.setKey sid user true).setStart t (.created n sid user)
  | _ => s

def begin (t : Nat) : State Node User Sid :=
  match s.starts t with
  | .created n sid user => s.setStart t (.starting n sid user)
  | _ => s

/-- The session is created at the end of `_start_agent_loop`. -/
def create (t : Nat) : State Node User Sid :=
  match s.starts t with
  | .starting n sid user =>
    { ((s.setSession s.nextSession ⟨sid, user, n, .live⟩).setLoop n sid (some s.nextSession)).setStart t .done with
      nextSession := s.nextSession + 1 }
  | _ => s

/-- `_start_agent_loop` raises before. -/
def fail (t : Nat) : State Node User Sid :=
  match s.starts t with
  | .starting _ _ _ => s.setStart t .done
  | _ => s

def setStage (id : Nat) (stage : SessionStage) : State Node User Sid :=
  match s.sessions id with
  | some session => s.setSession id { session with stage := stage }
  | none => s

/-- `_close_session` takes the session from the node, if there is one. -/
def pop (n : Node) (sid : Sid) : State Node User Sid :=
  match s.loops n sid with
  | some id => (setStage s id .popped).setLoop n sid none
  | none => s

def delete (id : Nat) : State Node User Sid :=
  match s.sessions id with
  | some session =>
    if session.stage = .popped then (setStage s id .deleted).setKey session.sid session.user false else s
  | none => s

/-- `session.close()` has finished. -/
def finish (id : Nat) : State Node User Sid :=
  match s.sessions id with
  | some session => if session.stage = .deleted then setStage s id .closed else s
  | none => s

/-- The local sessions that a round of `_update_state_in_redis` puts into its pipeline. -/
def read (n : Node) : State Node User Sid :=
  let users := fun sid => ((s.loops n sid).bind s.sessions).map Session.user
  { s with rounds := Function.update s.rounds n (some users) }

def execute (n : Node) : State Node User Sid :=
  match s.rounds n with
  | some users =>
    { s with
      keys := fun sid user => if users sid = some user then true else s.keys sid user
      rounds := Function.update s.rounds n none }
  | none => s

def step : Step Node User Sid → State Node User Sid
  | .set t n sid user => set s t n sid user
  | .begin t => begin s t
  | .create t => create s t
  | .fail t => fail s t
  | .pop n sid => pop s n sid
  | .delete id => delete s id
  | .finish id => finish s id
  | .read n => read s n
  | .execute n => execute s n
  | .expire sid user => s.setKey sid user false

/-! ## What the cluster promises -/

def InProgress (t : Nat) (sid : Sid) (user : User) : Prop := (s.starts t).holds = some (sid, user)

def AllClosed (sid : Sid) : Prop := ∀ id session, s.sessions id = some session → session.sid = sid → session.stage = .closed

/-- A start begins when all earlier sessions of its conversation have closed. -/
def BeginsAlone : Step Node User Sid → Prop
  | .begin t => ∀ n sid user, s.starts t = .created n sid user → AllClosed s sid
  | _ => True

/-- Without a session and without a start there is no key. -/
def NoStaleKey : Prop :=
  ∀ sid, AllClosed s sid → (∀ t user, ¬ InProgress s t sid user) → ∀ user, s.keys sid user = false

/-- A key expires only when no node has a session to refresh it for. -/
def NotRefreshed : Step Node User Sid → Prop
  | .expire sid user => ∀ n id session, s.loops n sid = some id → s.sessions id = some session → session.user ≠ user
  | _ => True

/-- A session that has its key still, or a start. -/
def Held (sid : Sid) (user : User) : Prop :=
  (∃ id session, s.sessions id = some session ∧ session.sid = sid ∧ session.user = user ∧
    (session.stage = .live ∨ session.stage = .popped)) ∨ ∃ t, InProgress s t sid user

/-- No key is set for a conversation while a session of it closes or another user has one; no key expires under a
start, and no start fails; and no round refreshes a key whose session has gone. -/
def Orderly : Step Node User Sid → Prop
  | .set t _ sid user => s.starts t = .none → s.keys sid user = false →
    (∀ id session, s.sessions id = some session → session.sid = sid →
      session.stage ≠ .popped ∧ session.stage ≠ .deleted ∧ (session.stage = .live → session.user = user)) ∧
      ∀ t' user', InProgress s t' sid user' → user' = user
  | .fail t => ∀ n sid user, s.starts t ≠ .starting n sid user
  | .execute n => ∀ users sid user, s.rounds n = some users → users sid = some user → Held s sid user
  | .expire sid user => ∀ t, ¬ InProgress s t sid user
  | _ => True

end Steps

/-! ## What every orderly step keeps -/

structure Sound (s : State Node User Sid) : Prop where
  fresh : ∀ id, s.nextSession ≤ id → s.sessions id = none
  loops : ∀ n sid id, s.loops n sid = some id →
    ∃ session, s.sessions id = some session ∧ session.sid = sid ∧ session.node = n ∧ session.stage = .live
  live : ∀ id session, s.sessions id = some session → session.stage = .live →
    s.loops session.node session.sid = some id
  one : ∀ id id' session session', s.sessions id = some session → s.sessions id' = some session' →
    session.stage ≠ .closed → session'.stage ≠ .closed → session.sid = session'.sid → id = id'
  alone : ∀ t sid user, InProgress s t sid user →
    AllClosed s sid ∧ ∀ t' user', InProgress s t' sid user' → t' = t
  keyLive : ∀ id session, s.sessions id = some session → session.stage = .live → s.keys session.sid session.user = true
  keyStart : ∀ t sid user, InProgress s t sid user → s.keys sid user = true
  held : ∀ sid user, s.keys sid user = true → Held s sid user

section Keeping

variable {s s' : State Node User Sid}

theorem sound_start : Sound ({} : State Node User Sid) where
  fresh _ _ := rfl
  loops _ _ _ h := nomatch h
  live _ _ h := nomatch h
  one _ _ _ _ h := nomatch h
  alone _ _ _ h := nomatch h
  keyLive _ _ h := nomatch h
  keyStart _ _ _ h := nomatch h
  held _ _ h := nomatch h

theorem keys_setKey_self (s : State Node User Sid) (sid : Sid) (user : User) (b : Bool) :
    (s.setKey sid user b).keys sid user = b := if_pos ⟨rfl, rfl⟩

theorem keys_setKey_of_ne (s : State Node User Sid) {sid sid' : Sid} {user user' : User} (b : Bool)
    (h : ¬ (sid' = sid ∧ user' = user)) : (s.setKey sid user b).keys sid' user' = s.keys sid' user' := if_neg h

theorem starts_setStart_self (s : State Node User Sid) (t : Nat) (start : Start Node User Sid) :
    (s.setStart t start).starts t = start := Function.update_self ..

theorem starts_setStart_of_ne (s : State Node User Sid) {t t' : Nat} (start : Start Node User Sid) (h : t' ≠ t) :
    (s.setStart t start).starts t' = s.starts t' := Function.update_of_ne h ..

/-- A start that neither gains nor loses a key changes nothing of this. -/
theorem Sound.setStart (h : Sound s) {t : Nat} {start : Start Node User Sid} (hholds : start.holds = (s.starts t).holds) :
    Sound (s.setStart t start) := by
  have hsame (t' : Nat) (sid : Sid) (user : User) : InProgress (s.setStart t start) t' sid user ↔ InProgress s t' sid user := by
    by_cases ht : t' = t
    · rw [InProgress, InProgress, ht, starts_setStart_self, hholds]
    · rw [InProgress, InProgress, starts_setStart_of_ne s start ht]
  refine ⟨h.fresh, h.loops, h.live, h.one, fun t' sid user ht => ?_, h.keyLive, fun t' sid user ht => ?_, fun sid user hkey => ?_⟩
  · obtain ⟨hclosed, honly⟩ := h.alone t' sid user ((hsame t' sid user).mp ht)
    exact ⟨hclosed, fun t'' user' ht' => honly t'' user' ((hsame t'' sid user').mp ht')⟩
  · exact h.keyStart t' sid user ((hsame t' sid user).mp ht)
  · rcases h.held sid user hkey with hsession | ⟨t', ht'⟩
    · exact .inl hsession
    · exact .inr ⟨t', (hsame t' sid user).mpr ht'⟩

theorem sound_set (h : Sound s) {t : Nat} {n : Node} {sid : Sid} {user : User} (horderly : Orderly s (.set t n sid user)) :
    Sound (set s t n sid user) := by
  unfold set
  split
  next hnone =>
    split_ifs with hkey
    · exact h.setStart (hnone ▸ rfl)
    · have hnokey : s.keys sid user = false := Bool.eq_false_iff.mpr hkey
      obtain ⟨hsessions, hstarts⟩ := horderly hnone hnokey
      have hnew : ∀ t' user', ¬ InProgress s t' sid user' := by
        intro t' user' ht'
        obtain rfl := hstarts t' user' ht'
        exact hkey (h.keyStart t' sid user' ht')
      have hclosed : AllClosed s sid := by
        intro id session hid hsid
        obtain ⟨hpopped, hdeleted, huser⟩ := hsessions id session hid hsid
        cases hstage : session.stage with
        | live =>
          have hheld := h.keyLive id session hid hstage
          rw [hsid, huser hstage] at hheld
          exact absurd hheld hkey
        | popped => exact absurd hstage hpopped
        | deleted => exact absurd hstage hdeleted
        | closed => rfl
      have hmono {sid' : Sid} {user' : User} (hold : s.keys sid' user' = true) : (s.setKey sid user true).keys sid' user' = true := by
        by_cases hsame : sid' = sid ∧ user' = user
        · exact if_pos hsame
        · exact (keys_setKey_of_ne s true hsame).trans hold
      have hprogress {t' : Nat} {sid' : Sid} {user' : User}
          (ht' : InProgress ((s.setKey sid user true).setStart t (.created n sid user)) t' sid' user') :
          (t' = t ∧ sid' = sid ∧ user' = user) ∨ InProgress s t' sid' user' := by
        by_cases heq : t' = t
        · rw [InProgress, heq, starts_setStart_self] at ht'
          obtain ⟨rfl, rfl⟩ := Prod.mk.inj (Option.some.inj ht')
          exact .inl ⟨heq, rfl, rfl⟩
        · rw [InProgress, starts_setStart_of_ne _ _ heq] at ht'
          exact .inr ht'
      refine ⟨h.fresh, h.loops, h.live, h.one, fun t' sid' user' ht' => ?_, fun id session hid hstage =>
        hmono (h.keyLive id session hid hstage), fun t' sid' user' ht' => ?_, fun sid' user' hkey' => ?_⟩
      · rcases hprogress ht' with ⟨rfl, rfl, rfl⟩ | hold
        · refine ⟨hclosed, fun t'' user'' ht'' => ?_⟩
          rcases hprogress ht'' with ⟨rfl, -, -⟩ | hold
          · rfl
          · exact absurd hold (hnew t'' user'')
        · obtain ⟨hclosed', honly⟩ := h.alone t' sid' user' hold
          refine ⟨hclosed', fun t'' user'' ht'' => ?_⟩
          rcases hprogress ht'' with ⟨-, rfl, -⟩ | hold'
          · exact absurd hold (hnew t' user')
          · exact honly t'' user'' hold'
      · rcases hprogress ht' with ⟨-, rfl, rfl⟩ | hold
        · exact keys_setKey_self s sid' user' true
        · exact hmono (h.keyStart t' sid' user' hold)
      · by_cases hsame : sid' = sid ∧ user' = user
        · obtain ⟨rfl, rfl⟩ := hsame
          exact .inr ⟨t, congrArg Start.holds (starts_setStart_self _ t _)⟩
        · have hold : s.keys sid' user' = true := (keys_setKey_of_ne s true hsame).symm.trans hkey'
          rcases h.held sid' user' hold with hsession | ⟨t', ht'⟩
          · exact .inl hsession
          · refine .inr ⟨t', ?_⟩
            have hne : t' ≠ t := by
              rintro rfl
              rw [InProgress, hnone] at ht'
              cases ht'
            rw [InProgress, starts_setStart_of_ne _ _ hne]
            exact ht'
  next => exact h

theorem sound_begin (h : Sound s) (t : Nat) : Sound (begin s t) := by
  unfold begin
  split
  next n sid user hcreated => exact h.setStart (hcreated ▸ rfl)
  next => exact h

theorem sound_create (h : Sound s) (t : Nat) : Sound (create s t) := by
  unfold create
  split
  next n sid user hstarting =>
    have hprogress : InProgress s t sid user := congrArg Start.holds hstarting
    obtain ⟨hclosed, honly⟩ := h.alone t sid user hprogress
    have hnone := h.fresh s.nextSession le_rfl
    generalize hid : s.nextSession = new at hnone ⊢
    have hnew : Function.update s.sessions new (some (⟨sid, user, n, .live⟩ : Session Node User Sid)) new =
        some ⟨sid, user, n, .live⟩ := Function.update_self ..
    have hold {id : Nat} (hne : id ≠ new) :
        Function.update s.sessions new (some (⟨sid, user, n, .live⟩ : Session Node User Sid)) id = s.sessions id :=
      Function.update_of_ne hne ..
    have hearlier {id : Nat} {session : Session Node User Sid} (hsession : s.sessions id = some session) : id ≠ new := by
      rintro rfl
      cases hnone.symm.trans hsession
    have hcases {id : Nat} {session : Session Node User Sid}
        (hsession : Function.update s.sessions new (some (⟨sid, user, n, .live⟩ : Session Node User Sid)) id = some session) :
        (id = new ∧ (⟨sid, user, n, .live⟩ : Session Node User Sid) = session) ∨ (id ≠ new ∧ s.sessions id = some session) := by
      by_cases heq : id = new
      · exact .inl ⟨heq, Option.some.inj (hnew.symm.trans (heq ▸ hsession))⟩
      · exact .inr ⟨heq, (hold heq).symm.trans hsession⟩
    have hother {t' : Nat} (hne : t' ≠ t) : Function.update s.starts t Start.done t' = s.starts t' :=
      Function.update_of_ne hne ..
    have hdone {t' : Nat} {sid' : Sid} {user' : User}
        (ht' : (Function.update s.starts t Start.done t').holds = some (sid', user')) : t' ≠ t ∧ InProgress s t' sid' user' := by
      by_cases heq : t' = t
      · rw [heq, Function.update_self] at ht'
        cases ht'
      · rw [hother heq] at ht'
        exact ⟨heq, ht'⟩
    refine ⟨fun id hle => ?_, fun n' sid' id hloop => ?_, fun id session hsession hstage => ?_,
      fun id id' session session' hsession hsession' hstage hstage' hsid => ?_, fun t' sid' user' ht' => ?_,
      fun id session hsession hstage => ?_, fun t' sid' user' ht' => ?_, fun sid' user' hkey => ?_⟩
    · have hne : id ≠ new := (Nat.lt_of_succ_le hle).ne'
      exact (hold hne).trans (h.fresh id (hid ▸ Nat.le_of_succ_le hle))
    · change (if n' = n ∧ sid' = sid then some new else s.loops n' sid') = some id at hloop
      split_ifs at hloop with hpair
      · obtain rfl := Option.some.inj hloop
        exact ⟨_, hnew, hpair.2.symm, hpair.1.symm, rfl⟩
      · obtain ⟨session, hsession, hrest⟩ := h.loops n' sid' id hloop
        exact ⟨session, (hold (hearlier hsession)).trans hsession, hrest⟩
    · rcases hcases hsession with ⟨rfl, rfl⟩ | ⟨hne, hbefore⟩
      · exact if_pos ⟨rfl, rfl⟩
      · have hpair : ¬ (session.node = n ∧ session.sid = sid) := fun hpair =>
          nomatch hstage.symm.trans (hclosed id session hbefore hpair.2)
        exact (if_neg hpair).trans (h.live id session hbefore hstage)
    · rcases hcases hsession with ⟨rfl, rfl⟩ | ⟨-, hbefore⟩ <;>
        rcases hcases hsession' with ⟨rfl, rfl⟩ | ⟨-, hbefore'⟩
      · rfl
      · exact absurd (hclosed id' session' hbefore' hsid.symm) hstage'
      · exact absurd (hclosed id session hbefore hsid) hstage
      · exact h.one id id' session session' hbefore hbefore' hstage hstage' hsid
    · obtain ⟨hne, hprogress'⟩ := hdone ht'
      obtain ⟨hclosed', honly'⟩ := h.alone t' sid' user' hprogress'
      refine ⟨fun id session hsession hsid => ?_, fun t'' user'' ht'' => honly' t'' user'' (hdone ht'').2⟩
      rcases hcases hsession with ⟨rfl, rfl⟩ | ⟨-, hbefore⟩
      · obtain rfl : sid = sid' := hsid
        exact absurd (honly t' user' hprogress') hne
      · exact hclosed' id session hbefore hsid
    · rcases hcases hsession with ⟨rfl, rfl⟩ | ⟨-, hbefore⟩
      · exact h.keyStart t sid user hprogress
      · exact h.keyLive id session hbefore hstage
    · exact h.keyStart t' sid' user' (hdone ht').2
    · rcases h.held sid' user' hkey with ⟨id, session, hsession, hrest⟩ | ⟨t', ht'⟩
      · exact .inl ⟨id, session, (hold (hearlier hsession)).trans hsession, hrest⟩
      · by_cases heq : t' = t
        · obtain ⟨rfl, rfl⟩ := Prod.mk.inj (Option.some.inj (hprogress.symm.trans (heq ▸ ht')))
          exact .inl ⟨new, _, hnew, rfl, rfl, .inl rfl⟩
        · exact .inr ⟨t', (congrArg Start.holds (hother heq)).trans ht'⟩
  next => exact h

/-- A session that moves on to another stage. -/
theorem sessions_setStage {id : Nat} {session : Session Node User Sid} (hsession : s.sessions id = some session)
    (stage : SessionStage) : setStage s id stage = s.setSession id { session with stage := stage } := by
  rw [setStage, hsession]

theorem sessions_setSession_cases {id id' : Nat} {new session : Session Node User Sid}
    (h : (s.setSession id new).sessions id' = some session) :
    (id' = id ∧ new = session) ∨ (id' ≠ id ∧ s.sessions id' = some session) := by
  change Function.update s.sessions id (some new) id' = some session at h
  by_cases heq : id' = id
  · rw [heq, Function.update_self] at h
    exact .inl ⟨heq, Option.some.inj h⟩
  · rw [Function.update_of_ne heq] at h
    exact .inr ⟨heq, h⟩

theorem sound_pop (h : Sound s) (n : Node) (sid : Sid) : Sound (pop s n sid) := by
  unfold pop
  split
  next id hloop =>
    obtain ⟨session, hsession, hsid, hnode, hlive⟩ := h.loops n sid id hloop
    rw [sessions_setStage hsession]
    have hself : (s.setSession id { session with stage := .popped }).sessions id = some { session with stage := .popped } :=
      Function.update_self ..
    have hold {id' : Nat} (hne : id' ≠ id) :
        (s.setSession id { session with stage := .popped }).sessions id' = s.sessions id' := Function.update_of_ne hne ..
    refine ⟨fun id' hle => ?_, fun n' sid' id' hloop' => ?_, fun id' session' hsession' hstage => ?_,
      fun id₁ id₂ session₁ session₂ h₁ h₂ hstage₁ hstage₂ hsame => ?_, fun t sid' user ht => ?_,
      fun id' session' hsession' hstage => ?_, h.keyStart, fun sid' user hkey => ?_⟩
    · have hne : id' ≠ id := fun heq => nomatch hsession.symm.trans (h.fresh id (heq ▸ hle))
      exact (hold hne).trans (h.fresh id' hle)
    · change (if n' = n ∧ sid' = sid then none else s.loops n' sid') = some id' at hloop'
      split_ifs at hloop' with hpair
      obtain ⟨session', hsession', hsid', hnode', hlive'⟩ := h.loops n' sid' id' hloop'
      have hne : id' ≠ id := by
        rintro rfl
        obtain rfl := Option.some.inj (hsession.symm.trans hsession')
        exact hpair ⟨hnode'.symm.trans hnode, hsid'.symm.trans hsid⟩
      exact ⟨session', (hold hne).trans hsession', hsid', hnode', hlive'⟩
    · rcases sessions_setSession_cases hsession' with ⟨-, rfl⟩ | ⟨hne, hsession'⟩
      · cases hstage
      · have hloop' := h.live id' session' hsession' hstage
        have hpair : ¬ (session'.node = n ∧ session'.sid = sid) := by
          rintro ⟨hnode', hsid'⟩
          rw [hnode', hsid', hloop] at hloop'
          exact hne (Option.some.inj hloop').symm
        exact (if_neg hpair).trans hloop'
    · have hopen {id' : Nat} {session' : Session Node User Sid}
          (hsession' : (s.setSession id { session with stage := .popped }).sessions id' = some session')
          (hstage : session'.stage ≠ .closed) :
          ∃ before, s.sessions id' = some before ∧ before.sid = session'.sid ∧ before.stage ≠ .closed := by
        rcases sessions_setSession_cases hsession' with ⟨rfl, rfl⟩ | ⟨-, hsession'⟩
        · exact ⟨session, hsession, rfl, hlive ▸ nofun⟩
        · exact ⟨session', hsession', rfl, hstage⟩
      obtain ⟨before₁, hbefore₁, hsid₁, hopen₁⟩ := hopen h₁ hstage₁
      obtain ⟨before₂, hbefore₂, hsid₂, hopen₂⟩ := hopen h₂ hstage₂
      exact h.one id₁ id₂ before₁ before₂ hbefore₁ hbefore₂ hopen₁ hopen₂ (hsid₁.trans (hsame.trans hsid₂.symm))
    · obtain ⟨hclosed, honly⟩ := h.alone t sid' user ht
      refine ⟨fun id' session' hsession' hsid' => ?_, honly⟩
      rcases sessions_setSession_cases hsession' with ⟨-, rfl⟩ | ⟨-, hsession'⟩
      · exact nomatch hlive.symm.trans (hclosed id session hsession hsid')
      · exact hclosed id' session' hsession' hsid'
    · rcases sessions_setSession_cases hsession' with ⟨-, rfl⟩ | ⟨-, hsession'⟩
      · cases hstage
      · exact h.keyLive id' session' hsession' hstage
    · rcases h.held sid' user hkey with ⟨id', session', hsession', hsid', huser', hstage⟩ | hstart
      · by_cases heq : id' = id
        · subst heq
          obtain rfl := Option.some.inj (hsession.symm.trans hsession')
          exact .inl ⟨id', _, hself, hsid', huser', .inr rfl⟩
        · exact .inl ⟨id', session', (hold heq).trans hsession', hsid', huser', hstage⟩
      · exact .inr hstart
  next => exact h

/-- A session that has been taken from its node moves on. -/
theorem Sound.moveOn (h : Sound s) {id : Nat} {session : Session Node User Sid} (hsession : s.sessions id = some session)
    (hopen : session.stage = .popped ∨ session.stage = .deleted) {stage : SessionStage}
    (hstage : stage = .deleted ∨ stage = .closed) {keys : Sid → User → Bool}
    (hlive : ∀ id session, s.sessions id = some session → session.stage = .live → keys session.sid session.user = true)
    (hstart : ∀ t sid user, InProgress s t sid user → keys sid user = true)
    (hheld : ∀ sid user, keys sid user = true →
      Held { s.setSession id { session with stage := stage } with keys := keys } sid user) :
    Sound { s.setSession id { session with stage := stage } with keys := keys } := by
  have hnotLive : session.stage ≠ .live := by rcases hopen with h | h <;> exact h ▸ nofun
  have hnotClosed : session.stage ≠ .closed := by rcases hopen with h | h <;> exact h ▸ nofun
  have hnew : stage ≠ .live := by rcases hstage with h | h <;> exact h ▸ nofun
  have hold {id' : Nat} (hne : id' ≠ id) :
      (s.setSession id { session with stage := stage }).sessions id' = s.sessions id' := Function.update_of_ne hne ..
  have hbefore {id' : Nat} {session' : Session Node User Sid}
      (hsession' : (s.setSession id { session with stage := stage }).sessions id' = some session')
      (hstage' : session'.stage ≠ .closed) :
      ∃ before, s.sessions id' = some before ∧ before.sid = session'.sid ∧ before.stage ≠ .closed := by
    rcases sessions_setSession_cases hsession' with ⟨rfl, rfl⟩ | ⟨-, hsession'⟩
    · exact ⟨session, hsession, rfl, hnotClosed⟩
    · exact ⟨session', hsession', rfl, hstage'⟩
  have hbeforeLive {id' : Nat} {session' : Session Node User Sid}
      (hsession' : (s.setSession id { session with stage := stage }).sessions id' = some session')
      (hlive' : session'.stage = .live) : s.sessions id' = some session' := by
    rcases sessions_setSession_cases hsession' with ⟨-, rfl⟩ | ⟨-, hsession'⟩
    · exact absurd hlive' hnew
    · exact hsession'
  refine ⟨fun id' hle => ?_, fun n sid id' hloop => ?_, fun id' session' hsession' hlive' =>
      h.live id' session' (hbeforeLive hsession' hlive') hlive',
    fun id₁ id₂ session₁ session₂ h₁ h₂ hstage₁ hstage₂ hsame => ?_, fun t sid user ht => ?_,
    fun id' session' hsession' hlive' => hlive id' session' (hbeforeLive hsession' hlive') hlive', hstart, hheld⟩
  · have hne : id' ≠ id := fun heq => nomatch hsession.symm.trans (h.fresh id (heq ▸ hle))
    exact (hold hne).trans (h.fresh id' hle)
  · obtain ⟨session', hsession', hsid, hnode, hlive'⟩ := h.loops n sid id' hloop
    have hne : id' ≠ id := by
      rintro rfl
      obtain rfl := Option.some.inj (hsession.symm.trans hsession')
      exact hnotLive hlive'
    exact ⟨session', (hold hne).trans hsession', hsid, hnode, hlive'⟩
  · obtain ⟨before₁, hbefore₁, hsid₁, hopen₁⟩ := hbefore h₁ hstage₁
    obtain ⟨before₂, hbefore₂, hsid₂, hopen₂⟩ := hbefore h₂ hstage₂
    exact h.one id₁ id₂ before₁ before₂ hbefore₁ hbefore₂ hopen₁ hopen₂ (hsid₁.trans (hsame.trans hsid₂.symm))
  · obtain ⟨hclosed, honly⟩ := h.alone t sid user ht
    refine ⟨fun id' session' hsession' hsid => ?_, honly⟩
    rcases sessions_setSession_cases hsession' with ⟨-, rfl⟩ | ⟨-, hsession'⟩
    · exact absurd (hclosed id session hsession hsid) hnotClosed
    · exact hclosed id' session' hsession' hsid

theorem sound_delete (h : Sound s) (id : Nat) : Sound (delete s id) := by
  unfold delete
  split
  next session hsession =>
    split_ifs with hpopped
    · have hnotClosed : session.stage ≠ .closed := hpopped ▸ nofun
      rw [sessions_setStage hsession]
      refine h.moveOn hsession (.inl hpopped) (.inl rfl) (fun id' session' hsession' hlive => ?_) (fun t sid user ht => ?_)
        fun sid user hkey => ?_
      · have hpair : ¬ (session'.sid = session.sid ∧ session'.user = session.user) := by
          rintro ⟨hsid, -⟩
          obtain rfl := h.one id' id session' session hsession' hsession (hlive ▸ nofun) hnotClosed hsid
          obtain rfl := Option.some.inj (hsession.symm.trans hsession')
          exact nomatch hpopped.symm.trans hlive
        exact (if_neg hpair).trans (h.keyLive id' session' hsession' hlive)
      · have hpair : ¬ (sid = session.sid ∧ user = session.user) := by
          rintro ⟨rfl, -⟩
          exact hnotClosed ((h.alone t session.sid user ht).1 id session hsession rfl)
        exact (if_neg hpair).trans (h.keyStart t sid user ht)
      · change (if sid = session.sid ∧ user = session.user then false else s.keys sid user) = true at hkey
        split_ifs at hkey with hpair
        rcases h.held sid user hkey with ⟨id', session', hsession', hsid, huser, hstage⟩ | hstart
        · have hne : id' ≠ id := by
            rintro rfl
            obtain rfl := Option.some.inj (hsession.symm.trans hsession')
            exact hpair ⟨hsid.symm, huser.symm⟩
          exact .inl ⟨id', session', (Function.update_of_ne hne ..).trans hsession', hsid, huser, hstage⟩
        · exact .inr hstart
    · exact h
  next => exact h

theorem sound_finish (h : Sound s) (id : Nat) : Sound (finish s id) := by
  unfold finish
  split
  next session hsession =>
    split_ifs with hdeleted
    · rw [sessions_setStage hsession]
      refine h.moveOn hsession (.inr hdeleted) (.inr rfl) h.keyLive h.keyStart fun sid user hkey => ?_
      rcases h.held sid user hkey with ⟨id', session', hsession', hsid, huser, hstage⟩ | hstart
      · have hne : id' ≠ id := by
          rintro rfl
          obtain rfl := Option.some.inj (hsession.symm.trans hsession')
          rcases hstage with hlive | hpopped
          · exact nomatch hdeleted.symm.trans hlive
          · exact nomatch hdeleted.symm.trans hpopped
        exact .inl ⟨id', session', (Function.update_of_ne hne ..).trans hsession', hsid, huser, hstage⟩
      · exact .inr hstart
    · exact h
  next => exact h

theorem sound_execute (h : Sound s) {n : Node} (horderly : Orderly s (.execute n)) : Sound (execute s n) := by
  unfold execute
  split
  next users hround =>
    have hmono {sid : Sid} {user : User} (hkey : s.keys sid user = true) :
        (if users sid = some user then true else s.keys sid user) = true := by
      split_ifs
      · rfl
      · exact hkey
    refine ⟨h.fresh, h.loops, h.live, h.one, h.alone, fun id session hsession hlive =>
      hmono (h.keyLive id session hsession hlive), fun t sid user ht => hmono (h.keyStart t sid user ht),
      fun sid user hkey => ?_⟩
    change (if users sid = some user then true else s.keys sid user) = true at hkey
    split_ifs at hkey with huser
    · exact horderly users sid user hround huser
    · exact h.held sid user hkey
  next => exact h

theorem sound_expire (h : Sound s) {sid : Sid} {user : User} (hrefreshed : NotRefreshed s (.expire sid user))
    (horderly : Orderly s (.expire sid user)) : Sound (s.setKey sid user false) := by
  refine ⟨h.fresh, h.loops, h.live, h.one, h.alone, fun id session hsession hlive => ?_, fun t sid' user' ht => ?_,
    fun sid' user' hkey => ?_⟩
  · have hpair : ¬ (session.sid = sid ∧ session.user = user) := by
      rintro ⟨rfl, huser⟩
      exact hrefreshed session.node id session (h.live id session hsession hlive) hsession huser
    exact (if_neg hpair).trans (h.keyLive id session hsession hlive)
  · have hpair : ¬ (sid' = sid ∧ user' = user) := by
      rintro ⟨rfl, rfl⟩
      exact horderly t ht
    exact (if_neg hpair).trans (h.keyStart t sid' user' ht)
  · change (if sid' = sid ∧ user' = user then false else s.keys sid' user') = true at hkey
    split_ifs at hkey with hpair
    exact h.held sid' user' hkey

theorem sound_fail (h : Sound s) {t : Nat} (horderly : Orderly s (.fail t)) : Sound (fail s t) := by
  unfold fail
  split
  next n sid user hstarting => exact absurd hstarting (horderly n sid user)
  next => exact h

theorem sound_step (h : Sound s) (next : Step Node User Sid) (hrefreshed : NotRefreshed s next) (horderly : Orderly s next) :
    Sound (step s next) := by
  cases next with
  | set t n sid user => exact sound_set h horderly
  | begin t => exact sound_begin h t
  | create t => exact sound_create h t
  | fail t => exact sound_fail h horderly
  | pop n sid => exact sound_pop h n sid
  | delete id => exact sound_delete h id
  | finish id => exact sound_finish h id
  | read n => exact ⟨h.fresh, h.loops, h.live, h.one, h.alone, h.keyLive, h.keyStart, h.held⟩
  | execute n => exact sound_execute h horderly
  | expire sid user => exact sound_expire h hrefreshed horderly

theorem Sound.beginsAlone (h : Sound s) (next : Step Node User Sid) : BeginsAlone s next := by
  cases next with
  | begin t => exact fun n sid user hcreated => (h.alone t sid user (congrArg Start.holds hcreated)).1
  | _ => trivial

theorem Sound.noStaleKey (h : Sound s) : NoStaleKey s := by
  intro sid hclosed hnone user
  refine Bool.eq_false_iff.mpr fun hkey => ?_
  rcases h.held sid user hkey with ⟨id, session, hsession, hsid, -, hstage⟩ | ⟨t, ht⟩
  · have hend := hclosed id session hsession hsid
    rcases hstage with hlive | hpopped
    · exact nomatch hlive.symm.trans hend
    · exact nomatch hpopped.symm.trans hend
  · exact hnone t user ht

end Keeping

/-- Every start of a run begins alone, and no key outlives what it was set for. -/
def OneLiveSession (steps : List (Step Node User Sid)) : Prop :=
  Runs.EachStep step {} BeginsAlone steps ∧ ∀ before, before <+: steps → NoStaleKey (before.foldl step ({} : State Node User Sid))

theorem oneLiveSession_run {steps : List (Step Node User Sid)} (hrefreshed : Runs.EachStep step {} NotRefreshed steps)
    (horderly : Runs.EachStep step {} Orderly steps) : OneLiveSession steps := by
  have hsound (before : List (Step Node User Sid)) (hbefore : before <+: steps) :
      Sound (before.foldl step ({} : State Node User Sid)) := by
    have hrun : Runs.EachStep step ({} : State Node User Sid) (fun s next => NotRefreshed s next ∧ Orderly s next) before :=
      fun front next hfront => ⟨hrefreshed front next (hfront.trans hbefore), horderly front next (hfront.trans hbefore)⟩
    exact hrun.invariant sound_start fun s next hs hnext => sound_step hs next hnext.1 hnext.2
  exact ⟨fun before next hbegins => (hsound before ((List.prefix_append _ _).trans hbegins)).beginsAlone next,
    fun before hbefore => (hsound before hbefore).noStaleKey⟩

/-! One conversation of one user on two nodes. -/

/-- It is closed on one node before it starts on the other. -/
def inTurn : List (Step Nat Unit Unit) :=
  [.set 0 0 () (), .begin 0, .create 0, .pop 0 (), .delete 0, .finish 0, .set 1 1 () ()]

/-- It starts on the other node while its session closes still. -/
def whileClosing : List (Step Nat Unit Unit) :=
  [.set 0 0 () (), .begin 0, .create 0, .pop 0 (), .delete 0, .set 1 1 () (), .begin 1]

theorem oneLiveSession_inTurn : OneLiveSession inTurn := by
  apply oneLiveSession_run
  · rw [inTurn]
    iterate 7 rw [Runs.eachStep_cons]
    exact ⟨trivial, trivial, trivial, trivial, trivial, trivial, trivial, Runs.eachStep_nil⟩
  · rw [inTurn]
    iterate 7 rw [Runs.eachStep_cons]
    refine ⟨fun _ _ => ⟨fun id session hsession => (nomatch hsession), fun t user ht => (nomatch ht)⟩, trivial, trivial, trivial,
      trivial, trivial, fun _ _ => ⟨fun id session hsession _ => ?_, fun t user ht => rfl⟩, Runs.eachStep_nil⟩
    match id with
    | 0 =>
      obtain rfl := Option.some.inj hsession
      exact ⟨nofun, nofun, nofun⟩
    | id + 1 => cases hsession

theorem whileClosing_not_alone : ¬ ∀ steps : List (Step Nat Unit Unit),
    Runs.EachStep step {} NotRefreshed steps → OneLiveSession steps := by
  intro h
  have hrefreshed : Runs.EachStep step {} NotRefreshed whileClosing := by
    rw [whileClosing]
    iterate 7 rw [Runs.eachStep_cons]
    exact ⟨trivial, trivial, trivial, trivial, trivial, trivial, trivial, Runs.eachStep_nil⟩
  have halone := (h whileClosing hrefreshed).1 whileClosing.dropLast (.begin 1) List.prefix_rfl 1 () () rfl
  have hstage : SessionStage.deleted = .closed := halone 0 ⟨(), (), 0, .deleted⟩ rfl rfl
  cases hstage

end OpenHands.ClusteredConversationManager
