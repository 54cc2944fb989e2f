import Mathlib.Data.List.Nodup
import OpenHandsSWE.Lib.Parties
import OpenHandsSWE.Lib.Runs

/-! The provider tokens of a user: loading them refreshes them under a lock of their row, while storing those of
the latest login fetches them first and writes them in a transaction of its own. -/

namespace OpenHands.IdpTokens

/-- A record of the table, as it reads decrypted. -/
structure AuthTokens where
  accessToken : Nat
  refreshToken : Nat
  accessTokenExpiresAt : Int
  refreshTokenExpiresAt : Int
deriving DecidableEq, Repr

/-- Tokens that the provider has issued, with the seconds they are good for. -/
structure Issued where
  accessToken : Nat
  refreshToken : Nat
  expiresIn : Int
  refreshExpiresIn : Int
deriving DecidableEq, Repr

/-- Where a `get_idp_token` or a `store_idp_tokens` waits. -/
inductive Phase where
  | waiting
  | found (record : AuthTokens)
  | refreshing
  | updating (tokens : AuthTokens)
  | returned (accessToken : Nat)
  | fetching
  | fetched (tokens : AuthTokens)
  | selected (isThere : Bool) (tokens : AuthTokens)
  | stored
  | raised
deriving DecidableEq, Repr

/-- `latest` is what the provider issued at the latest login, `sent` the refresh tokens it was sent. -/
structure State where
  record : Option AuthTokens := none
  lock : Option Nat := none
  latest : Option Issued := none
  nextToken : Nat := 0
  sent : List Nat := []
  calls : List Phase := []
deriving DecidableEq, Repr

inductive Step where
  | login (expiresIn refreshExpiresIn : Int)
  | getIdpToken
  | lock (i : Nat)
  | check (i : Nat) (now : Int)
  | answer (i : Nat) (now expiresIn refreshExpiresIn : Int)
  | commit (i : Nat)
  | storeIdpTokens
  | fetch (i : Nat) (now : Int)
  | select (i : Nat)
  | write (i : Nat)

def expiresAt (now expiresIn : Int) : Int := if expiresIn = 0 then 0 else now + expiresIn

def Issued.tokens (issued : Issued) (now : Int) : AuthTokens where
  accessToken := issued.accessToken
  refreshToken := issued.refreshToken
  accessTokenExpiresAt := expiresAt now issued.expiresIn
  refreshTokenExpiresAt := expiresAt now issued.refreshExpiresIn

def accessExpired (record : AuthTokens) (now : Int) : Bool :=
  record.accessTokenExpiresAt != 0 && decide (record.accessTokenExpiresAt < now + 14400)

def refreshExpired (record : AuthTokens) (now : Int) : Bool :=
  record.refreshTokenExpiresAt != 0 && decide (record.refreshTokenExpiresAt < now)

def State.setPhase (s : State) (i : Nat) (phase : Phase) : State := { s with calls := s.calls.set i phase }

/-- The provider issues tokens that it has never issued before. -/
def State.issue (s : State) (expiresIn refreshExpiresIn : Int) : Issued :=
  ⟨s.nextToken, s.nextToken + 1, expiresIn, refreshExpiresIn⟩

/-- `SELECT ... FOR UPDATE`, which waits while the record is locked. -/
def lockRecord (s : State) (i : Nat) : State :=
  match s.record with
  | none => s.setPhase i .raised
  | some record => if s.lock.isSome then s else { s with lock := some i }.setPhase i (.found record)

def checkExpirationAndRefresh (s : State) (i : Nat) (record : AuthTokens) (now : Int) : State :=
  if !accessExpired record now then { s with lock := none }.setPhase i (.returned record.accessToken)
  else if refreshExpired record now then { s with lock := none }.setPhase i .raised
  else { s with sent := s.sent ++ [record.refreshToken] }.setPhase i .refreshing

/-- The update of a record waits while it is locked; a second insert for the user fails. -/
def writeTokens (s : State) (i : Nat) (isThere : Bool) (tokens : AuthTokens) : State :=
  if isThere then
    if s.lock.isSome then s else { s with record := some tokens }.setPhase i .stored
  else if s.record.isSome then s.setPhase i .raised
  else { s with record := some tokens }.setPhase i .stored

/-- A step that does not come next for its call changes nothing. -/
def step (s : State) : Step → State
  | .login expiresIn refreshExpiresIn =>
    { s with latest := some (s.issue expiresIn refreshExpiresIn), nextToken := s.nextToken + 2 }
  | .getIdpToken => { s with calls := s.calls ++ [.waiting] }
  | .lock i =>
    match s.calls[i]? with
    | some .waiting => lockRecord s i
    | _ => s
  | .check i now =>
    match s.calls[i]? with
    | some (.found record) => checkExpirationAndRefresh s i record now
    | _ => s
  | .answer i now expiresIn refreshExpiresIn =>
    match s.calls[i]? with
    | some .refreshing =>
      { s with nextToken := s.nextToken + 2 }.setPhase i
        (.updating ((s.issue expiresIn refreshExpiresIn).tokens now))
    | _ => s
  | .commit i =>
    match s.calls[i]? with
    | some (.updating tokens) =>
      { s with record := some tokens, lock := none }.setPhase i (.returned tokens.accessToken)
    | _ => s
  | .storeIdpTokens => { s with calls := s.calls ++ [.fetching] }
  | .fetch i now =>
    match s.calls[i]? with
    | some .fetching =>
      match s.latest with
      | none => s.setPhase i .stored
      | some issued => s.setPhase i (.fetched (issued.tokens now))
    | _ => s
  | .select i =>
    match s.calls[i]? with
    | some (.fetched tokens) => s.setPhase i (.selected s.record.isSome tokens)
    | _ => s
  | .write i =>
    match s.calls[i]? with
    | some (.selected isThere tokens) => writeTokens s i isThere tokens
    | _ => s

/-- The tokens that a store is about to write. -/
def Phase.selected? : Phase → Option AuthTokens
  | .selected _ tokens => some tokens
  | _ => none

/-- A store does not bring back a refresh token that the provider has been sent. -/
def InTurn (s : State) : Step → Prop
  | .write i => ∀ phase ∈ s.calls[i]?, ∀ tokens ∈ phase.selected?, tokens.refreshToken ∉ s.sent
  | _ => True

instance (s : State) : DecidablePred (InTurn s)
  | .write i => inferInstanceAs (Decidable (∀ phase ∈ s.calls[i]?, ∀ tokens ∈ phase.selected?, _))
  | .login _ _ | .getIdpToken | .lock _ | .check _ _ | .answer _ _ _ _ | .commit _ | .storeIdpTokens | .fetch _ _
  | .select _ => isTrue trivial

/-- After the step no refresh token has been sent twice, and an access token that it returns is the stored one. -/
def SentOnce (s : State) (i : Step) : Prop :=
  (step s i).sent.Nodup ∧ ∀ (j accessToken : Nat), (step s i).calls[j]? = some (.returned accessToken) →
    s.calls[j]? ≠ some (.returned accessToken) → (step s i).record.map AuthTokens.accessToken = some accessToken

/-- A call that holds the lock of the record. -/
def Phase.locks : Phase → Bool
  | .found _ | .refreshing | .updating _ => true
  | _ => false

/-- The tokens that a call brings. -/
def Phase.tokens? : Phase → Option AuthTokens
  | .updating tokens | .fetched tokens | .selected _ tokens => some tokens
  | _ => none

/-- What a call with the lock has in hand, and the record while there is none. -/
structure Sound (s : State) : Prop where
  known : ∀ token ∈ s.sent, token < s.nextToken
  nodup : s.sent.Nodup
  locked : ∀ (i : Nat) (phase : Phase), s.calls[i]? = some phase → phase.locks = true →
    s.lock = some i ∧ s.record ≠ none
  found : ∀ (i : Nat) (record : AuthTokens), s.calls[i]? = some (.found record) →
    s.record = some record ∧ record.refreshToken ∉ s.sent
  updating : ∀ (i : Nat) (tokens : AuthTokens), s.calls[i]? = some (.updating tokens) → tokens.refreshToken ∉ s.sent
  unsent : (∀ phase ∈ s.calls, phase.locks = false) → ∀ record ∈ s.record, record.refreshToken ∉ s.sent
  issued : (∀ record ∈ s.record, record.refreshToken < s.nextToken) ∧ ∀ issued ∈ s.latest, issued.refreshToken < s.nextToken
  carried : ∀ phase ∈ s.calls, ∀ tokens ∈ phase.tokens?, tokens.refreshToken < s.nextToken

section
variable {s t : State} {i j : Nat} {old phase : Phase} {tokens record : AuthTokens}

/-- Only one call holds the lock. -/
theorem Sound.alone (hs : Sound s) (hi : s.calls[i]? = some old) (hlocks : old.locks = true) :
    ∀ (j : Nat) (p : Phase), s.calls[j]? = some p → j ≠ i → p.locks = false := by
  intro j p hp hj
  refine Bool.eq_false_iff.mpr fun h => hj ?_
  have hlock := (hs.locked j p hp h).1
  rw [(hs.locked i old hi hlocks).1] at hlock
  exact (Option.some.inj hlock).symm

/-- What is left to show when a call goes on: what it holds then, and what others may miss. -/
theorem Sound.change (hs : Sound s) (hi : s.calls[i]? = some old) (hcalls : t.calls = s.calls.set i phase)
    (hothers : t.record = s.record ∧ t.lock = s.lock ∧ t.sent = s.sent ∨
      ∀ (j : Nat) (p : Phase), s.calls[j]? = some p → j ≠ i → p.locks = false)
    (hnext : s.nextToken ≤ t.nextToken) (hknown : ∀ token ∈ t.sent, token < t.nextToken) (hnodup : t.sent.Nodup)
    (hissued : (∀ record ∈ t.record, record.refreshToken < t.nextToken) ∧
      ∀ issued ∈ t.latest, issued.refreshToken < t.nextToken)
    (hlocks : phase.locks = true → t.lock = some i ∧ t.record ≠ none)
    (hfound : ∀ record, phase = .found record → t.record = some record ∧ record.refreshToken ∉ t.sent)
    (hupdating : ∀ tokens, phase = .updating tokens → tokens.refreshToken ∉ t.sent)
    (hunsent : phase.locks = false → (∀ (j : Nat) (p : Phase), s.calls[j]? = some p → j ≠ i → p.locks = false) →
      ∀ record ∈ t.record, record.refreshToken ∉ t.sent)
    (hcarried : ∀ tokens ∈ phase.tokens?, tokens.refreshToken < t.nextToken) : Sound t where
  known := hknown
  nodup := hnodup
  issued := hissued
  locked j p hp hplocks := by
    rw [hcalls] at hp
    rcases Parties.set_cases hp with ⟨rfl, rfl⟩ | ⟨hj, hp⟩
    · exact hlocks hplocks
    · rcases hothers with ⟨hrecord, hlock, -⟩ | hnone
      · rw [hlock, hrecord]
        exact hs.locked j p hp hplocks
      · exact absurd hplocks (by simp [hnone j p hp hj])
  found j record hp := by
    rw [hcalls] at hp
    rcases Parties.set_cases hp with ⟨-, hphase⟩ | ⟨hj, hp⟩
    · exact hfound record hphase.symm
    · rcases hothers with ⟨hrecord, -, hsent⟩ | hnone
      · rw [hrecord, hsent]
        exact hs.found j record hp
      · exact absurd (hnone j _ hp hj) (by simp [Phase.locks])
  updating j tokens hp := by
    rw [hcalls] at hp
    rcases Parties.set_cases hp with ⟨-, hphase⟩ | ⟨hj, hp⟩
    · exact hupdating tokens hphase.symm
    · rcases hothers with ⟨-, -, hsent⟩ | hnone
      · rw [hsent]
        exact hs.updating j tokens hp
      · exact absurd (hnone j _ hp hj) (by simp [Phase.locks])
  unsent hnone := by
    have hall : ∀ (j : Nat) (p : Phase), t.calls[j]? = some p → p.locks = false :=
      fun j p hp => hnone p (List.mem_of_getElem? hp)
    rw [hcalls] at hall
    have hlength : i < s.calls.length := (List.getElem?_eq_some_iff.mp hi).1
    refine hunsent (hall i phase (List.getElem?_set_self hlength)) fun j p hp hj => ?_
    exact hall j p ((List.getElem?_set_ne (Ne.symm hj)).trans hp)
  carried p hp := by
    rw [hcalls] at hp
    rcases List.mem_or_eq_of_mem_set hp with hp | rfl
    · exact fun tokens htokens => (hs.carried p hp tokens htokens).trans_le hnext
    · exact hcarried

theorem Sound.unsent_of (hs : Sound s) (hi : s.calls[i]? = some old) (hold : old.locks = false)
    (hothers : ∀ (j : Nat) (p : Phase), s.calls[j]? = some p → j ≠ i → p.locks = false) :
    ∀ record ∈ s.record, record.refreshToken ∉ s.sent := by
  refine hs.unsent fun p hp => ?_
  obtain ⟨j, hp⟩ := List.mem_iff_getElem?.mp hp
  by_cases hj : j = i
  · rw [hj, hi] at hp
    exact Option.some.inj hp ▸ hold
  · exact hothers j p hp hj

/-- A call without the lock that goes on without it. -/
theorem Sound.move (hs : Sound s) (hi : s.calls[i]? = some old) (hold : old.locks = false) (hphase : phase.locks = false)
    (hcarried : ∀ tokens ∈ phase.tokens?, tokens.refreshToken < s.nextToken) : Sound (s.setPhase i phase) := by
  refine hs.change hi rfl (.inl ⟨rfl, rfl, rfl⟩) le_rfl hs.known hs.nodup hs.issued ?_ ?_ ?_ ?_ hcarried
  · exact fun h => absurd h (by simp [hphase])
  · rintro record rfl
    exact absurd hphase (by simp [Phase.locks])
  · rintro tokens rfl
    exact absurd hphase (by simp [Phase.locks])
  · exact fun _ hothers => hs.unsent_of hi hold hothers

/-- The holder of the lock gives it up. -/
theorem Sound.release (hs : Sound s) (hi : s.calls[i]? = some (.found record)) (hphase : phase.locks = false)
    (hcarried : phase.tokens? = none) : Sound (State.setPhase { s with lock := none } i phase) := by
  obtain ⟨hrecord, hsent⟩ := hs.found i record hi
  refine hs.change (t := State.setPhase { s with lock := none } i phase) hi rfl (.inr (hs.alone hi rfl)) le_rfl
    hs.known hs.nodup hs.issued ?_ ?_ ?_ ?_ ?_
  · exact fun h => absurd h (by simp [hphase])
  · rintro record rfl
    exact absurd hphase (by simp [Phase.locks])
  · rintro tokens rfl
    exact absurd hphase (by simp [Phase.locks])
  · intro _ _ record' hrecord'
    rw [Option.mem_def, show (State.setPhase { s with lock := none } i phase).record = s.record from rfl, hrecord] at hrecord'
    exact Option.some.inj hrecord' ▸ hsent
  · simp [hcarried]

theorem sound_lock (hs : Sound s) (hi : s.calls[i]? = some .waiting) : Sound (lockRecord s i) := by
  unfold lockRecord
  split
  · exact hs.move hi rfl rfl (by simp [Phase.tokens?])
  · next record hrecord =>
    split
    · exact hs
    · next hlock =>
      have hothers : ∀ (j : Nat) (p : Phase), s.calls[j]? = some p → j ≠ i → p.locks = false := by
        intro j p hp _
        refine Bool.eq_false_iff.mpr fun h => hlock ?_
        rw [(hs.locked j p hp h).1]
        rfl
      have hunsent := hs.unsent_of hi rfl hothers record hrecord
      refine hs.change (t := State.setPhase { s with lock := some i } i (.found record)) hi rfl (.inr hothers) le_rfl
        hs.known hs.nodup hs.issued ?_ ?_ nofun ?_ (by simp [Phase.tokens?])
      · exact fun _ => ⟨rfl, fun h => by
          have h : s.record = none := h
          simp [hrecord] at h⟩
      · intro record' h
        rw [← Phase.found.inj h]
        exact ⟨hrecord, hunsent⟩
      · exact fun h => absurd h (by simp [Phase.locks])

theorem sound_check (hs : Sound s) (hi : s.calls[i]? = some (.found record)) (now : Int) :
    Sound (checkExpirationAndRefresh s i record now) := by
  obtain ⟨hrecord, hsent⟩ := hs.found i record hi
  unfold checkExpirationAndRefresh
  split
  · exact hs.release hi rfl rfl
  · split
    · exact hs.release hi rfl rfl
    · refine hs.change (t := State.setPhase { s with sent := s.sent ++ [record.refreshToken] } i .refreshing) hi rfl
        (.inr (hs.alone hi rfl)) le_rfl ?_ ?_ hs.issued ?_ nofun nofun ?_ (by simp [Phase.tokens?])
      · intro token htoken
        rcases List.mem_append.mp htoken with h | h
        · exact hs.known token h
        · rw [List.mem_singleton.mp h]
          exact hs.issued.1 record hrecord
      · exact List.nodup_append_comm.mp (List.nodup_cons.mpr ⟨hsent, hs.nodup⟩)
      · exact fun _ => hs.locked i _ hi rfl
      · exact fun h => absurd h (by simp [Phase.locks])

theorem sound_answer (hs : Sound s) (hi : s.calls[i]? = some .refreshing) (now expiresIn refreshExpiresIn : Int) :
    Sound (State.setPhase { s with nextToken := s.nextToken + 2 } i
      (.updating ((s.issue expiresIn refreshExpiresIn).tokens now))) := by
  have hnext : s.nextToken ≤ s.nextToken + 2 := Nat.le_add_right _ _
  refine hs.change (t := State.setPhase { s with nextToken := s.nextToken + 2 } i
    (.updating ((s.issue expiresIn refreshExpiresIn).tokens now))) hi rfl (.inr (hs.alone hi rfl)) hnext
    (fun token h => (hs.known token h).trans_le hnext) hs.nodup
    ⟨fun record h => (hs.issued.1 record h).trans_le hnext, fun issued h => (hs.issued.2 issued h).trans_le hnext⟩
    (fun _ => hs.locked i _ hi rfl) nofun ?_ ?_ ?_
  · -- the tokens are new ones
    intro tokens h hsent
    rw [← Phase.updating.inj h] at hsent
    have hlt : s.nextToken + 1 < s.nextToken := hs.known _ hsent
    omega
  · exact fun h => absurd h (by simp [Phase.locks])
  · intro tokens h
    rw [← Option.some.inj h]
    exact Nat.lt_succ_self (s.nextToken + 1)

theorem sound_commit (hs : Sound s) (hi : s.calls[i]? = some (.updating tokens)) :
    Sound (State.setPhase { s with record := some tokens, lock := none } i (.returned tokens.accessToken)) := by
  refine hs.change (t := State.setPhase { s with record := some tokens, lock := none } i (.returned tokens.accessToken))
    hi rfl (.inr (hs.alone hi rfl)) le_rfl hs.known hs.nodup ⟨?_, hs.issued.2⟩ ?_ nofun nofun ?_ (by simp [Phase.tokens?])
  · intro record h
    rw [← Option.some.inj h]
    exact hs.carried _ (List.mem_of_getElem? hi) tokens rfl
  · exact fun h => absurd h (by simp [Phase.locks])
  · intro _ _ record h
    rw [← Option.some.inj h]
    exact hs.updating i tokens hi

theorem sound_write (hs : Sound s) {isThere : Bool} (hi : s.calls[i]? = some (.selected isThere tokens))
    (hturn : tokens.refreshToken ∉ s.sent) : Sound (writeTokens s i isThere tokens) := by
  have hstored : (∀ (j : Nat) (p : Phase), s.calls[j]? = some p → j ≠ i → p.locks = false) →
      Sound (State.setPhase { s with record := some tokens } i .stored) := by
    intro hothers
    refine hs.change (t := State.setPhase { s with record := some tokens } i .stored) hi rfl (.inr hothers) le_rfl
      hs.known hs.nodup ⟨?_, hs.issued.2⟩ ?_ nofun nofun ?_ (by simp [Phase.tokens?])
    · intro record h
      rw [← Option.some.inj h]
      exact hs.carried _ (List.mem_of_getElem? hi) tokens rfl
    · exact fun h => absurd h (by simp [Phase.locks])
    · intro _ _ record h
      rw [← Option.some.inj h]
      exact hturn
  unfold writeTokens
  split
  · split
    · exact hs
    · next hlock =>
      refine hstored fun j p hp _ => Bool.eq_false_iff.mpr fun h => hlock ?_
      rw [(hs.locked j p hp h).1]
      rfl
  · split
    · exact hs.move hi rfl rfl (by simp [Phase.tokens?])
    · next hrecord =>
      refine hstored fun j p hp _ => Bool.eq_false_iff.mpr fun h => ?_
      exact (hs.locked j p hp h).2 (by simpa using hrecord)

/-- A call that has just come. -/
theorem sound_append (hs : Sound s) (hlocks : phase.locks = false) (hcarried : phase.tokens? = none) :
    Sound { s with calls := s.calls ++ [phase] } := by
  refine ⟨hs.known, hs.nodup, ?_, ?_, ?_, ?_, hs.issued, ?_⟩
  · intro j p hp h
    rcases Parties.append_cases hp with hp | ⟨-, rfl⟩
    · exact hs.locked j p hp h
    · exact absurd h (by simp [hlocks])
  · intro j record hp
    rcases Parties.append_cases hp with hp | ⟨-, rfl⟩
    · exact hs.found j record hp
    · exact absurd hlocks (by simp [Phase.locks])
  · intro j tokens hp
    rcases Parties.append_cases hp with hp | ⟨-, rfl⟩
    · exact hs.updating j tokens hp
    · exact absurd hlocks (by simp [Phase.locks])
  · exact fun h => hs.unsent fun p hp => h p (List.mem_append_left _ hp)
  · intro p hp
    rcases List.mem_append.mp hp with hp | hp
    · exact hs.carried p hp
    · rw [List.mem_singleton.mp hp, hcarried]
      simp

theorem sound_step (hs : Sound s) (i : Step) (hturn : InTurn s i) : Sound (step s i) := by
  cases i with
  | login expiresIn refreshExpiresIn =>
    have hnext : s.nextToken ≤ s.nextToken + 2 := Nat.le_add_right _ _
    refine ⟨fun token h => (hs.known token h).trans_le hnext, hs.nodup, hs.locked, hs.found, hs.updating, hs.unsent,
      ⟨fun record h => (hs.issued.1 record h).trans_le hnext, fun issued h => ?_⟩,
      fun p hp tokens h => (hs.carried p hp tokens h).trans_le hnext⟩
    rw [← Option.some.inj h]
    exact Nat.lt_succ_self (s.nextToken + 1)
  | getIdpToken => exact sound_append hs rfl rfl
  | storeIdpTokens => exact sound_append hs rfl rfl
  | lock i =>
    simp only [step]
    split
    · next hi => exact sound_lock hs hi
    · exact hs
  | check i now =>
    simp only [step]
    split
    · next hi => exact sound_check hs hi now
    · exact hs
  | answer i now expiresIn refreshExpiresIn =>
    simp only [step]
    split
    · next hi => exact sound_answer hs hi now expiresIn refreshExpiresIn
    · exact hs
  | commit i =>
    simp only [step]
    split
    · next hi => exact sound_commit hs hi
    · exact hs
  | fetch i now =>
    simp only [step]
    split
    · next hi =>
      split
      · exact hs.move hi rfl rfl (by simp [Phase.tokens?])
      · next issued hlatest =>
        refine hs.move hi rfl rfl fun tokens h => ?_
        rw [← Option.some.inj h]
        exact hs.issued.2 issued hlatest
    · exact hs
  | select i =>
    simp only [step]
    split
    · next hi =>
      have hcarried := hs.carried _ (List.mem_of_getElem? hi)
      exact hs.move hi rfl rfl hcarried
    · exact hs
  | write i =>
    simp only [step]
    split
    · next hi => exact sound_write hs hi (hturn _ hi _ rfl)
    · exact hs

/-- What a call returns is stored when its transaction ends. -/
theorem returned_step (hs : Sound s) (i : Step) {accessToken : Nat}
    (h : (step s i).calls[j]? = some (.returned accessToken)) :
    s.calls[j]? = some (.returned accessToken) ∨ (step s i).record.map AuthTokens.accessToken = some accessToken := by
  -- a call that goes on without returning is not the one
  have hother : ∀ {k : Nat} {phase : Phase}, (∀ accessToken, phase ≠ .returned accessToken) →
      (s.calls.set k phase)[j]? = some (.returned accessToken) → s.calls[j]? = some (.returned accessToken) := by
    intro k phase hphase hj
    rcases Parties.set_cases hj with ⟨-, heq⟩ | ⟨-, hj⟩
    · exact absurd heq.symm (hphase accessToken)
    · exact hj
  have happend : ∀ {phase : Phase}, (∀ accessToken, phase ≠ .returned accessToken) →
      (s.calls ++ [phase])[j]? = some (.returned accessToken) → s.calls[j]? = some (.returned accessToken) := by
    intro phase hphase hj
    rcases Parties.append_cases hj with hj | ⟨-, heq⟩
    · exact hj
    · exact absurd heq.symm (hphase accessToken)
  cases i with
  | login expiresIn refreshExpiresIn => exact .inl h
  | getIdpToken => exact .inl (happend (by nofun) h)
  | storeIdpTokens => exact .inl (happend (by nofun) h)
  | lock i =>
    simp only [step] at h
    split at h
    · unfold lockRecord at h
      split at h
      · exact .inl (hother (by nofun) h)
      · split at h
        · exact .inl h
        · exact .inl (hother (by nofun) h)
    · exact .inl h
  | check i now =>
    simp only [step] at h ⊢
    split at h
    · next record hi =>
      unfold checkExpirationAndRefresh at h ⊢
      split at h
      · next hvalid =>
        rcases Parties.set_cases h with ⟨-, heq⟩ | ⟨-, h⟩
        · refine .inr ?_
          rw [if_pos hvalid, Phase.returned.inj heq]
          exact congrArg (Option.map AuthTokens.accessToken) (hs.found i record hi).1
        · exact .inl h
      · split at h
        · exact .inl (hother (by nofun) h)
        · exact .inl (hother (by nofun) h)
    · exact .inl h
  | answer i now expiresIn refreshExpiresIn =>
    simp only [step] at h
    split at h
    · exact .inl (hother (by nofun) h)
    · exact .inl h
  | commit i =>
    simp only [step] at h ⊢
    split at h
    · rcases Parties.set_cases h with ⟨-, heq⟩ | ⟨-, h⟩
      · exact .inr (congrArg some (Phase.returned.inj heq).symm)
      · exact .inl h
    · exact .inl h
  | fetch i now =>
    simp only [step] at h
    split at h
    · split at h
      · exact .inl (hother (by nofun) h)
      · exact .inl (hother (by nofun) h)
    · exact .inl h
  | select i =>
    simp only [step] at h
    split at h
    · exact .inl (hother (by nofun) h)
    · exact .inl h
  | write i =>
    simp only [step] at h
    split at h
    · unfold writeTokens at h
      split at h
      · split at h
        · exact .inl h
        · exact .inl (hother (by nofun) h)
      · split at h
        · exact .inl (hother (by nofun) h)
        · exact .inl (hother (by nofun) h)
    · exact .inl h

theorem sentOnce_step (hs : Sound s) (i : Step) (hturn : InTurn s i) : SentOnce s i :=
  ⟨(sound_step hs i hturn).nodup, fun _ _ h hnew => (returned_step hs i h).resolve_left hnew⟩

theorem sound_start : Sound {} where
  known _ h := (List.not_mem_nil h).elim
  nodup := List.nodup_nil
  locked i phase h := absurd h (by simp)
  found i record h := absurd h (by simp)
  updating i tokens h := absurd h (by simp)
  unsent _ _ h := absurd h (by simp)
  issued := ⟨fun _ h => absurd h (by simp), fun _ h => absurd h (by simp)⟩
  carried _ h := (List.not_mem_nil h).elim

/-- Loads and stores in turn send every refresh token at most once. -/
theorem sentOnce_run (steps : List Step) (h : Runs.EachStep step {} InTurn steps) :
    Runs.EachStep step {} SentOnce steps :=
  h.imp_of_invariant sound_start (fun _ i hs hi => sound_step hs i hi) fun _ i hs hi => sentOnce_step hs i hi

end

/-- A login whose tokens are stored, and then refreshed by one of two loads. -/
def refreshed : List Step :=
  [.login 28800 0, .storeIdpTokens, .fetch 0 0, .select 0, .write 0, .getIdpToken, .getIdpToken, .lock 1, .check 1 20000,
    .answer 1 20001 28800 0, .commit 1, .lock 2, .check 2 20002]

theorem sentOnce_run_refreshed : Runs.EachStep step {} SentOnce refreshed :=
  sentOnce_run refreshed (by decide +kernel)

/-- A store that fetched its tokens before a refresh brings the one that is used up back. -/
theorem sentOnce_counterexample : ¬ ∀ steps : List Step, Runs.EachStep step {} SentOnce steps := by
  intro h
  let before : List Step := [.login 28800 0, .storeIdpTokens, .fetch 0 0, .select 0, .write 0, .storeIdpTokens,
    .fetch 1 0, .getIdpToken, .lock 2, .check 2 20000, .answer 2 20001 28800 0, .commit 2, .select 1, .write 1,
    .getIdpToken, .lock 3]
  have hnodup := (h (before ++ [.check 3 20002]) before (.check 3 20002) List.prefix_rfl).1
  exact absurd hnodup (by decide +kernel)

end OpenHands.IdpTokens
