import OpenHandsSWE.Lib.Python
import OpenHandsSWE.Runtime.PortLock

/-! The search for a port: which ports it tries, and which of the locks that it takes are held at its end. -/

namespace OpenHands.PortLock

/-- The number under which the directory has the lock file of a port. -/
def lockFile (port : Int) : Nat := Equiv.intEquivNat port

/-- The machine that a call finds: the locks of others, which they keep during the call, and the ports that
are bound. The objects of the call are numbered from `fresh` on. -/
structure Machine where
  state : State
  fresh : Nat
  bound : Int → Bool
  unused : ∀ l, fresh ≤ l → state.objects l = {}
  owned : ∀ i l, state.owner i = some l → l < fresh
  frontier : ∀ i, state.nextFile ≤ i → state.owner i = none

/-- A source of random numbers; `choice k` is the number that the call draws as its `k`-th. -/
structure Rng where
  choice : Nat → Int → Int → Int
  inRange : ∀ k a b, a ≤ b → a ≤ choice k a b ∧ choice k a b ≤ b

def Rng.randint (rng : Rng) (k : Nat) (a b : Int) : Except PyError Int :=
  if a ≤ b then .ok (rng.choice k a b)
  else .error (.valueError ("empty range in randrange(" ++ toString a ++ ", " ++ toString (b + 1) ++ ")"))

structure PortRange where
  minPort : Int
  maxPort : Int
  le : minPort ≤ maxPort

/-- `PortLock(port).acquire(timeout)` of a new object. -/
def tryAcquire (s : State) (port : Int) (l : Nat) : Bool × State :=
  let s := flock (acquire (fun _ => lockFile port) s l) l
  if (s.objects l).stage = .writing then (true, write s l true) else (false, timeout s l)

def releaseLock (s : State) (port : Int) (l : Nat) : State :=
  unlink (fun _ => lockFile port) (close (release s l) l) l

/-- `_check_port_available`, where `bind` refuses what is no port with an error that is not caught. -/
def checkPortAvailable (bound : Int → Bool) (port : Int) : Except PyError Bool :=
  if 0 ≤ port ∧ port ≤ 65535 then .ok (!bound port) else .error .overflowError

structure Search where
  state : State
  tried : List Int
  result : Option (Int × Nat)

def attempt (m : Machine) (search : Search) (port : Int) : Except PyError Search :=
  let l := m.fresh + search.tried.length
  let acquired := tryAcquire search.state port l
  if acquired.1 then
    (checkPortAvailable m.bound port).map fun available =>
      if available then ⟨acquired.2, search.tried ++ [port], some (port, l)⟩
      else ⟨releaseLock acquired.2 port l, search.tried ++ [port], none⟩
  else .ok ⟨acquired.2, search.tried ++ [port], none⟩

/-- The rounds of a loop from the `i`-th on, which draw their ports in turn. -/
def attempts (m : Machine) (portAt : Nat → Except PyError Int) : Nat → Nat → Search → Except PyError Search
  | 0, _, search => .ok search
  | n + 1, i, search =>
    (portAt i).bind fun port =>
      (attempt m search port).bind fun search =>
        if search.result.isSome then .ok search else attempts m portAt n (i + 1) search

def randomAttempts (maxAttempts : Nat) : Nat := min (maxAttempts / 2) 10

def remainingAttempts (maxAttempts : Nat) : Nat := maxAttempts - randomAttempts maxAttempts

/-- The `i`-th port of the sequential search, which goes round at the end of the range. -/
def sequentialPort (r : PortRange) (startPort : Int) (i : Nat) : Int :=
  if startPort + i > r.maxPort then r.minPort + (startPort + i - r.maxPort - 1) else startPort + i

def findAvailablePortWithLock (m : Machine) (rng : Rng) (r : PortRange) (maxAttempts : Nat) :
    Except PyError Search :=
  (attempts m (fun i => rng.randint i r.minPort r.maxPort) (randomAttempts maxAttempts) 0 ⟨m.state, [], none⟩).bind
    fun search =>
      if search.result.isSome then .ok search
      else
        (rng.randint (randomAttempts maxAttempts) r.minPort (r.maxPort - remainingAttempts maxAttempts)).bind
          fun startPort =>
            attempts m (fun i => .ok (sequentialPort r startPort i)) (remainingAttempts maxAttempts) 0 search

/-! ## What is asked of a search -/

/-- The object has the lock of the port's file, which is the one in the directory. -/
def Holds (s : State) (port : Int) (l : Nat) : Prop :=
  (s.objects l).held = true ∧ (s.objects l).locked = true ∧
    ∃ i, (s.objects l).fd = some i ∧ Assoc.get? (lockFile port) s.directory = some i ∧ s.owner i = some l

def Released (s : State) (l : Nat) : Prop :=
  (s.objects l).held = false ∧ (s.objects l).locked = false ∧ (s.objects l).fd = none ∧ ∀ i, s.owner i ≠ some l

/-- The search raises nothing, tries few enough ports, all in the range, and keeps the lock of the port that
it returns and no other. -/
def SafeSearch (m : Machine) (r : PortRange) (maxAttempts : Nat) (outcome : Except PyError Search) : Prop :=
  ∃ search, outcome = .ok search ∧ search.tried.length ≤ maxAttempts ∧
    (∀ port ∈ search.tried, r.minPort ≤ port ∧ port ≤ r.maxPort) ∧
    (∀ port l, search.result = some (port, l) → port ∈ search.tried ∧ m.fresh ≤ l ∧ Holds search.state port l) ∧
    ∀ l, m.fresh ≤ l → (∀ port, search.result ≠ some (port, l)) → Released search.state l

/-- Another has the lock of the port. -/
def locked (s : State) (port : Int) : Bool :=
  match Assoc.get? (lockFile port) s.directory with
  | some i => (s.owner i).isSome
  | none => false

def IsPort (port : Int) : Prop := 0 ≤ port ∧ port ≤ 65535

instance (port : Int) : Decidable (IsPort port) := inferInstanceAs (Decidable (_ ∧ _))

/-- The search stops at the port: its lock is to be had, and it is free or no port at all. -/
def Machine.stopsAt (m : Machine) (port : Int) : Bool :=
  !locked m.state port && (!m.bound port || !decide (IsPort port))

def randomPorts (rng : Rng) (r : PortRange) (maxAttempts : Nat) : List Int :=
  (List.range (randomAttempts maxAttempts)).map fun i => rng.choice i r.minPort r.maxPort

/-- The ports of the sequential search, when there is a range to draw its start from. -/
def sequentialPorts (rng : Rng) (r : PortRange) (maxAttempts : Nat) : List Int :=
  if r.minPort ≤ r.maxPort - remainingAttempts maxAttempts then
    (List.range (remainingAttempts maxAttempts)).map fun (i : Nat) =>
      rng.choice (randomAttempts maxAttempts) r.minPort (r.maxPort - remainingAttempts maxAttempts) + i
  else []

/-- The search stops at a random port, or has a range for the sequential search; and it does not stop at
what is no port. -/
def HasRange (m : Machine) (rng : Rng) (r : PortRange) (maxAttempts : Nat) : Prop :=
  ((∃ port ∈ randomPorts rng r maxAttempts, m.stopsAt port) ∨
    r.minPort ≤ r.maxPort - remainingAttempts maxAttempts) ∧
  ∀ port, (randomPorts rng r maxAttempts ++ sequentialPorts rng r maxAttempts).find? m.stopsAt = some port →
    IsPort port

/-! ## One attempt -/

section Attempt

variable {s : State} {port : Int} {l : Nat}

theorem get?_openFile_self (s : State) (key : Nat) :
    Assoc.get? key (s.openFile key).2.directory = some (s.openFile key).1 := by
  unfold State.openFile
  split
  next hold => exact hold
  next => exact Assoc.get?_set_self _ _ _

theorem get?_openFile_of_ne (s : State) {key other : Nat} (h : other ≠ key) :
    Assoc.get? other (s.openFile key).2.directory = Assoc.get? other s.directory := by
  unfold State.openFile
  split
  next => rfl
  next => exact Assoc.get?_set_of_ne h _ _

theorem nextFile_openFile (s : State) (key : Nat) : s.nextFile ≤ (s.openFile key).2.nextFile := by
  unfold State.openFile
  split
  · exact le_refl _
  · exact Nat.le_succ _

/-- The lock of the file that a port has is taken exactly when the port is locked. -/
theorem owner_openFile_fst (hfrontier : ∀ i, s.nextFile ≤ i → s.owner i = none) (port : Int) :
    (s.owner (s.openFile (lockFile port)).1).isSome = locked s port := by
  unfold State.openFile locked
  cases h : Assoc.get? (lockFile port) s.directory with
  | some i => rfl
  | none => rw [hfrontier s.nextFile (le_refl _)]; rfl

theorem openFile_of_locked (h : locked s port = true) :
    (s.openFile (lockFile port)).2.directory = s.directory ∧ (s.openFile (lockFile port)).2.nextFile = s.nextFile := by
  unfold locked at h
  unfold State.openFile
  cases hold : Assoc.get? (lockFile port) s.directory with
  | some i => exact ⟨rfl, rfl⟩
  | none =>
    rw [hold] at h
    cases h

/-- The object of the call after it has opened its file. -/
theorem acquire_unused (hobject : s.objects l = {}) (key : Nat) :
    acquire (fun _ => key) s l =
      (s.openFile key).2.setObject l { fd := some (s.openFile key).1, stage := .trying } := by
  unfold acquire
  rw [hobject, if_pos rfl, if_neg Bool.false_ne_true]

/-- The state of an object that waits for the lock of its file. -/
def waiting (s : State) (port : Int) (l : Nat) : State :=
  (s.openFile (lockFile port)).2.setObject l { fd := some (s.openFile (lockFile port)).1, stage := .trying }

theorem tryAcquire_eq (hobject : s.objects l = {}) :
    tryAcquire s port l =
      if ((flock (waiting s port l) l).objects l).stage = .writing then (true, write (flock (waiting s port l) l) l true)
      else (false, timeout (flock (waiting s port l) l) l) := by
  unfold tryAcquire
  rw [acquire_unused hobject]
  rfl

theorem waiting_objects_self : (waiting s port l).objects l =
    { fd := some (s.openFile (lockFile port)).1, stage := .trying } := objects_setObject_self _ _ _

theorem waiting_objects_of_ne {k : Nat} (h : k ≠ l) : (waiting s port l).objects k = s.objects k :=
  (objects_setObject_of_ne _ _ h).trans (congrFun (objects_openFile s _) k)

theorem waiting_owner : (waiting s port l).owner = s.owner := owner_openFile s _

theorem unlock_owner_of_not (hnone : ∀ i, s.owner i ≠ some l) (fd : Option Nat) : (s.unlock l fd).owner = s.owner :=
  funext fun i => if_neg fun h => hnone i h.2

/-- What a machine is after an attempt that has taken no lock. -/
structure Unchanged (s s' : State) : Prop where
  objects : s'.objects = s.objects
  owner : s'.owner = s.owner
  nextFile : s.nextFile ≤ s'.nextFile

/-- An attempt at a port that is locked opens its file, and closes it after the timeout. -/
theorem tryAcquire_locked (hobject : s.objects l = {}) (hnone : ∀ i, s.owner i ≠ some l)
    (hfrontier : ∀ i, s.nextFile ≤ i → s.owner i = none) (h : locked s port = true) :
    (tryAcquire s port l).1 = false ∧ Unchanged s (tryAcquire s port l).2 ∧
      (tryAcquire s port l).2.directory = s.directory := by
  have hstays : flock (waiting s port l) l = waiting s port l := by
    have htaken := (owner_openFile_fst hfrontier port).trans h
    unfold flock
    rw [waiting_objects_self]
    dsimp only
    rw [if_neg]
    rintro ⟨-, hfree | hown⟩
    · rw [waiting_owner] at hfree
      rw [hfree] at htaken
      cases htaken
    · rw [waiting_owner] at hown
      exact hnone _ hown
  have htrying : ((waiting s port l).objects l).stage = .trying := by rw [waiting_objects_self]
  have hresult : tryAcquire s port l = (false, timeout (waiting s port l) l) := by
    rw [tryAcquire_eq hobject, hstays, if_neg]
    rw [htrying]
    decide
  rw [hresult, timeout, if_pos htrying]
  refine ⟨rfl, ⟨?_, ?_, ?_⟩, (openFile_of_locked h).1⟩
  · funext k
    by_cases hk : k = l
    · subst hk
      rw [objects_setObject_self, waiting_objects_self, hobject]
    · exact (objects_setObject_of_ne _ _ hk).trans (waiting_objects_of_ne hk)
  · have hother : ∀ i, (waiting s port l).owner i ≠ some l := by
      rw [waiting_owner]
      exact hnone
    exact (unlock_owner_of_not hother _).trans waiting_owner
  · exact nextFile_openFile s _

/-- The machine after the lock of a port has been taken. -/
theorem tryAcquire_free (hobject : s.objects l = {}) (hfrontier : ∀ i, s.nextFile ≤ i → s.owner i = none)
    (h : locked s port = false) :
    (tryAcquire s port l).1 = true ∧
      (tryAcquire s port l).2.objects = Function.update s.objects l
        { fd := some (s.openFile (lockFile port)).1, locked := true, stage := .idle, held := true } ∧
      (tryAcquire s port l).2.owner = Function.update s.owner (s.openFile (lockFile port)).1 (some l) ∧
      (tryAcquire s port l).2.directory = (s.openFile (lockFile port)).2.directory ∧
      (tryAcquire s port l).2.nextFile = (s.openFile (lockFile port)).2.nextFile := by
  have hfree : (waiting s port l).owner (s.openFile (lockFile port)).1 = none := by
    rw [waiting_owner, ← Option.not_isSome_iff_eq_none, owner_openFile_fst hfrontier, h]
    exact Bool.false_ne_true
  have htakes : flock (waiting s port l) l =
      { waiting s port l with
        owner := Function.update (waiting s port l).owner (s.openFile (lockFile port)).1 (some l) }.setObject l
        { fd := some (s.openFile (lockFile port)).1, locked := true, stage := .writing } := by
    unfold flock
    rw [waiting_objects_self]
    dsimp only
    rw [if_pos ⟨rfl, Or.inl hfree⟩]
  have hwriting : ((flock (waiting s port l) l).objects l) =
      { fd := some (s.openFile (lockFile port)).1, locked := true, stage := .writing } := by
    rw [htakes, objects_setObject_self]
  have hresult : tryAcquire s port l = (true, write (flock (waiting s port l) l) l true) := by
    rw [tryAcquire_eq hobject, hwriting, if_pos rfl]
  rw [hresult, write, hwriting]
  dsimp only
  rw [if_pos rfl, if_pos rfl, htakes]
  refine ⟨rfl, ?_, ?_, rfl, rfl⟩
  · funext k
    by_cases hk : k = l
    · subst hk
      rw [objects_setObject_self, Function.update_self]
    · rw [Function.update_of_ne hk]
      exact (objects_setObject_of_ne _ _ hk).trans ((objects_setObject_of_ne _ _ hk).trans (waiting_objects_of_ne hk))
  · change Function.update (waiting s port l).owner _ _ = _
    rw [waiting_owner]

/-- The release of a lock that is held: its object is as new, and its file has no name any more. -/
theorem releaseLock_held (port : Int) {i : Nat}
    (hobject : s.objects l = { fd := some i, locked := true, stage := .idle, held := true }) :
    (releaseLock s port l).objects = Function.update s.objects l {} ∧
      (releaseLock s port l).owner = (fun j => if i = j ∧ s.owner j = some l then none else s.owner j) ∧
      (releaseLock s port l).directory = Assoc.erase (lockFile port) s.directory ∧
      (releaseLock s port l).nextFile = s.nextFile := by
  have hrelease : release s l = (s.unlock l (some i)).setObject l
      { fd := some i, locked := true, stage := .closing, held := false } := by
    unfold release
    rw [hobject, if_pos rfl, Option.isSome_some, if_pos rfl]
  have hclose : close (release s l) l = ((release s l).unlock l (some i)).setObject l
      { fd := some i, locked := true, stage := .unlinking, held := false } := by
    unfold close
    rw [hrelease, objects_setObject_self, if_pos rfl]
  have hunlink : releaseLock s port l = { close (release s l) l with
      directory := Assoc.erase (lockFile port) (close (release s l) l).directory }.setObject l {} := by
    unfold releaseLock unlink
    rw [hclose, objects_setObject_self, if_pos rfl]
  rw [hunlink, hclose, hrelease]
  refine ⟨?_, ?_, rfl, rfl⟩
  · funext k
    by_cases hk : k = l
    · subst hk
      rw [objects_setObject_self, Function.update_self]
    · rw [Function.update_of_ne hk]
      exact (objects_setObject_of_ne _ _ hk).trans
        ((objects_setObject_of_ne _ _ hk).trans (objects_setObject_of_ne _ _ hk))
  · funext j
    change (if some i = some j ∧ (if some i = some j ∧ s.owner j = some l then none else s.owner j) = some l then none
      else if some i = some j ∧ s.owner j = some l then none else s.owner j) = _
    by_cases hown : i = j ∧ s.owner j = some l
    · have hsome : some i = some j ∧ s.owner j = some l := ⟨congrArg some hown.1, hown.2⟩
      rw [if_pos hown, if_pos hsome]
      exact if_neg fun hnone => by cases hnone.2
    · have hsome : ¬ (some i = some j ∧ s.owner j = some l) := fun h => hown ⟨Option.some.inj h.1, h.2⟩
      rw [if_neg hown, if_neg hsome, if_neg hsome]

/-- An attempt at a port whose lock is taken, and given back. -/
theorem releaseLock_free (hobject : s.objects l = {}) (hnone : ∀ i, s.owner i ≠ some l)
    (hfrontier : ∀ i, s.nextFile ≤ i → s.owner i = none) (h : locked s port = false) :
    Unchanged s (releaseLock (tryAcquire s port l).2 port l) ∧
      (releaseLock (tryAcquire s port l).2 port l).directory =
        Assoc.erase (lockFile port) (s.openFile (lockFile port)).2.directory := by
  obtain ⟨-, hobjects, howner, hdirectory, hnext⟩ := tryAcquire_free hobject hfrontier h
  have hheld : (tryAcquire s port l).2.objects l =
      { fd := some (s.openFile (lockFile port)).1, locked := true, stage := .idle, held := true } := by
    rw [hobjects, Function.update_self]
  have hfree : s.owner (s.openFile (lockFile port)).1 = none := by
    rw [← Option.not_isSome_iff_eq_none, owner_openFile_fst hfrontier, h]
    exact Bool.false_ne_true
  obtain ⟨hobjects', howner', hdirectory', hnext'⟩ := releaseLock_held port hheld
  refine ⟨⟨?_, ?_, ?_⟩, ?_⟩
  · rw [hobjects', hobjects, Function.update_idem, ← hobject, Function.update_eq_self]
  · rw [howner', howner]
    funext j
    by_cases hj : j = (s.openFile (lockFile port)).1
    · subst hj
      rw [Function.update_self, if_pos ⟨rfl, rfl⟩, hfree]
    · rw [Function.update_of_ne hj, if_neg fun hown => hj hown.1.symm]
  · rw [hnext', hnext]
    exact nextFile_openFile s _
  · rw [hdirectory', hdirectory]

theorem lockFile_injective : Function.Injective lockFile := Equiv.intEquivNat.injective

theorem locked_of_directory {s' : State} {other : Int} (howner : s'.owner = s.owner)
    (h : Assoc.get? (lockFile other) s'.directory = Assoc.get? (lockFile other) s.directory) :
    locked s' other = locked s other := by
  rw [locked, locked, h, howner]

end Attempt

/-! ## The loops -/

/-- The search has found nothing yet, and the machine is as it was for the ports and for the objects of the call. -/
structure Ready (m : Machine) (search : Search) : Prop where
  result : search.result = none
  objects : search.state.objects = m.state.objects
  owner : search.state.owner = m.state.owner
  frontier : ∀ i, search.state.nextFile ≤ i → search.state.owner i = none
  locked : ∀ port, locked search.state port = locked m.state port

section Loops

variable {m : Machine} {search : Search} {port : Int}

theorem Ready.unused (h : Ready m search) {l : Nat} (hl : m.fresh ≤ l) : search.state.objects l = {} := by
  rw [h.objects]
  exact m.unused l hl

theorem Ready.not_owned (h : Ready m search) {l : Nat} (hl : m.fresh ≤ l) (i : Nat) : search.state.owner i ≠ some l := by
  rw [h.owner]
  exact fun howner => absurd (m.owned i l howner) (not_lt.mpr hl)

theorem Ready.released (h : Ready m search) {l : Nat} (hl : m.fresh ≤ l) : Released search.state l := by
  rw [Released, h.unused hl]
  exact ⟨rfl, rfl, rfl, h.not_owned hl⟩

/-- An attempt that changes neither objects nor owners, nor which ports are locked. -/
theorem Ready.next {s' : State} (h : Ready m search) (port : Int) (hsame : Unchanged search.state s')
    (hlocked : ∀ other, PortLock.locked s' other = PortLock.locked search.state other) :
    Ready m ⟨s', search.tried ++ [port], none⟩ where
  result := rfl
  objects := hsame.objects.trans h.objects
  owner := hsame.owner.trans h.owner
  frontier i hi := by
    rw [hsame.owner]
    exact h.frontier i (hsame.nextFile.trans hi)
  locked other := (hlocked other).trans (h.locked other)

theorem attempt_locked (h : Ready m search) (hlocked : locked m.state port = true) :
    ∃ s', attempt m search port = .ok ⟨s', search.tried ++ [port], none⟩ ∧
      Ready m ⟨s', search.tried ++ [port], none⟩ := by
  have hl : m.fresh ≤ m.fresh + search.tried.length := Nat.le_add_right _ _
  obtain ⟨hfails, hsame, hdirectory⟩ := tryAcquire_locked (h.unused hl) (h.not_owned hl) h.frontier
    ((h.locked port).trans hlocked)
  refine ⟨_, ?_, h.next port hsame fun other => locked_of_directory hsame.owner (by rw [hdirectory])⟩
  rw [attempt, if_neg (by rw [hfails]; exact Bool.false_ne_true)]

/-- What an attempt at a port does whose lock is to be had. -/
theorem attempt_free (h : Ready m search) (hlocked : locked m.state port = false) :
    attempt m search port = (checkPortAvailable m.bound port).map fun available =>
      if available then
        ⟨(tryAcquire search.state port (m.fresh + search.tried.length)).2, search.tried ++ [port],
          some (port, m.fresh + search.tried.length)⟩
      else
        ⟨releaseLock (tryAcquire search.state port (m.fresh + search.tried.length)).2 port
          (m.fresh + search.tried.length), search.tried ++ [port], none⟩ := by
  have hl : m.fresh ≤ m.fresh + search.tried.length := Nat.le_add_right _ _
  have htaken := (tryAcquire_free (h.unused hl) h.frontier ((h.locked port).trans hlocked)).1
  rw [attempt, if_pos htaken]

theorem checkPortAvailable_port (bound : Int → Bool) (h : IsPort port) :
    checkPortAvailable bound port = .ok (!bound port) := if_pos h

theorem checkPortAvailable_other (bound : Int → Bool) (h : ¬ IsPort port) :
    checkPortAvailable bound port = .error .overflowError := if_neg h

theorem attempt_bound (h : Ready m search) (hlocked : locked m.state port = false) (hport : IsPort port)
    (hbound : m.bound port = true) :
    ∃ s', attempt m search port = .ok ⟨s', search.tried ++ [port], none⟩ ∧
      Ready m ⟨s', search.tried ++ [port], none⟩ := by
  have hl : m.fresh ≤ m.fresh + search.tried.length := Nat.le_add_right _ _
  have hfree : locked search.state port = false := (h.locked port).trans hlocked
  obtain ⟨hsame, hdirectory⟩ := releaseLock_free (h.unused hl) (h.not_owned hl) h.frontier hfree
  refine ⟨_, ?_, h.next port hsame fun other => ?_⟩
  · rw [attempt_free h hlocked, checkPortAvailable_port _ hport, hbound]
    rfl
  · by_cases hother : other = port
    · subst hother
      have herased : Assoc.get? (lockFile other)
          (Assoc.erase (lockFile other) (search.state.openFile (lockFile other)).2.directory) = none := by
        rw [Assoc.erase, Assoc.get?_filter (· != lockFile other), if_neg (by simp)]
      rw [hfree, locked, hdirectory, herased]
    · have hne : lockFile other ≠ lockFile port := fun heq => hother (lockFile_injective heq)
      refine locked_of_directory hsame.owner ?_
      rw [hdirectory, Assoc.erase, Assoc.get?_filter (· != lockFile port), if_pos (bne_iff_ne.mpr hne),
        get?_openFile_of_ne _ hne]

theorem attempt_refused (h : Ready m search) (hlocked : locked m.state port = false) (hport : ¬ IsPort port) :
    attempt m search port = .error .overflowError := by
  rw [attempt_free h hlocked, checkPortAvailable_other _ hport]
  rfl

/-- The search has found a port, and of its objects only the last has a lock. -/
structure Found (m : Machine) (search : Search) (port : Int) (l : Nat) : Prop where
  result : search.result = some (port, l)
  fresh : m.fresh ≤ l
  holds : Holds search.state port l
  others : ∀ k, m.fresh ≤ k → k ≠ l → Released search.state k

theorem attempt_available (h : Ready m search) (hlocked : locked m.state port = false) (hport : IsPort port)
    (hbound : m.bound port = false) :
    ∃ found l, attempt m search port = .ok found ∧ found.tried = search.tried ++ [port] ∧ Found m found port l := by
  have hl : m.fresh ≤ m.fresh + search.tried.length := Nat.le_add_right _ _
  obtain ⟨-, hobjects, howner, hdirectory, -⟩ :=
    tryAcquire_free (h.unused hl) h.frontier ((h.locked port).trans hlocked)
  refine ⟨⟨(tryAcquire search.state port (m.fresh + search.tried.length)).2, _,
    some (port, m.fresh + search.tried.length)⟩, _, ?_, rfl, rfl, hl, ?_, fun k hk hne => ?_⟩
  · rw [attempt_free h hlocked, checkPortAvailable_port _ hport, hbound]
    rfl
  · rw [Holds, hobjects, Function.update_self, howner, hdirectory]
    exact ⟨rfl, rfl, _, rfl, get?_openFile_self _ _, Function.update_self _ _ _⟩
  · have hreleased := h.released hk
    rw [Released, hobjects, Function.update_of_ne hne, howner]
    refine ⟨hreleased.1, hreleased.2.1, hreleased.2.2.1, fun i => ?_⟩
    by_cases hi : i = (search.state.openFile (lockFile port)).1
    · subst hi
      rw [Function.update_self]
      exact fun heq => hne (Option.some.inj heq).symm
    · rw [Function.update_of_ne hi]
      exact hreleased.2.2.2 i

/-- What the search does at a port is decided by the machine that the call has found. -/
theorem attempt_spec (h : Ready m search) (port : Int) :
    (m.stopsAt port = false → ∃ s', attempt m search port = .ok ⟨s', search.tried ++ [port], none⟩ ∧
      Ready m ⟨s', search.tried ++ [port], none⟩) ∧
    (m.stopsAt port = true → IsPort port → ∃ found l, attempt m search port = .ok found ∧
      found.tried = search.tried ++ [port] ∧ Found m found port l) ∧
    (m.stopsAt port = true → ¬ IsPort port → attempt m search port = .error .overflowError) := by
  rw [Machine.stopsAt]
  cases hlocked : locked m.state port with
  | true =>
    refine ⟨fun _ => attempt_locked h hlocked, fun hstop => ?_, fun hstop => ?_⟩
    · cases hstop
    · cases hstop
  | false =>
    by_cases hport : IsPort port
    · cases hbound : m.bound port with
      | true =>
        refine ⟨fun _ => attempt_bound h hlocked hport hbound, fun hstop => ?_, fun _ hnot => absurd hport hnot⟩
        rw [decide_eq_true hport] at hstop
        cases hstop
      | false =>
        refine ⟨fun hstop => ?_, fun _ _ => attempt_available h hlocked hport hbound, fun _ hnot => absurd hport hnot⟩
        cases hstop
    · refine ⟨fun hstop => ?_, fun _ hyes => absurd hyes hport, fun _ _ => attempt_refused h hlocked hport⟩
      rw [decide_eq_false hport] at hstop
      simp at hstop

/-- A round, and the rounds after it when it has found nothing. -/
theorem attempts_succ {portAt : Nat → Except PyError Int} {i : Nat} {port : Int} (hport : portAt i = .ok port) (n : Nat)
    (search : Search) : attempts m portAt (n + 1) i search =
      (attempt m search port).bind fun next => if next.result.isSome then .ok next else attempts m portAt n (i + 1) next := by
  rw [attempts, hport]
  rfl

/-- A loop that draws its ports from a list. -/
theorem attempts_spec (portAt : Nat → Except PyError Int) {ports : List Int} {i : Nat} (h : Ready m search)
    (hports : ∀ j (hj : j < ports.length), portAt (i + j) = .ok ports[j]) :
    (ports.find? m.stopsAt = none → ∃ s', attempts m portAt ports.length i search =
      .ok ⟨s', search.tried ++ ports, none⟩ ∧ Ready m ⟨s', search.tried ++ ports, none⟩) ∧
    ∀ port, ports.find? m.stopsAt = some port →
      (IsPort port → ∃ found l, attempts m portAt ports.length i search = .ok found ∧
        found.tried <+: search.tried ++ ports ∧ port ∈ found.tried ∧ Found m found port l) ∧
      (¬ IsPort port → attempts m portAt ports.length i search = .error .overflowError) := by
  induction ports generalizing i search with
  | nil =>
    refine ⟨fun _ => ⟨search.state, ?_, ?_⟩, fun port hport => by cases hport⟩
    · rw [List.append_nil, ← h.result]
      rfl
    · rw [List.append_nil, ← h.result]
      exact h
  | cons first ports ih =>
    have hfirst : portAt i = .ok first := hports 0 (Nat.zero_lt_succ _)
    have hrest (j : Nat) (hj : j < ports.length) : portAt (i + 1 + j) = .ok ports[j] := by
      have hnext := hports (j + 1) (Nat.succ_lt_succ hj)
      rwa [← Nat.add_assoc, Nat.add_right_comm] at hnext
    obtain ⟨hskip, hstop, hrefuse⟩ := attempt_spec h first
    cases hstops : m.stopsAt first with
    | false =>
      obtain ⟨s', hattempt, hready⟩ := hskip hstops
      have hloop : attempts m portAt (first :: ports).length i search =
          attempts m portAt ports.length (i + 1) ⟨s', search.tried ++ [first], none⟩ := by
        rw [List.length_cons, attempts_succ hfirst, hattempt]
        rfl
      rw [hloop, List.find?_cons, hstops]
      have hlater := ih hready hrest
      rw [List.append_assoc, List.singleton_append] at hlater
      exact hlater
    | true =>
      rw [List.find?_cons, hstops]
      constructor
      · intro hnone
        cases hnone
      intro port hport
      constructor
      · intro hvalid
        obtain rfl := Option.some.inj hport
        obtain ⟨found, l, hattempt, htried, hfound⟩ := hstop hstops hvalid
        refine ⟨found, l, ?_, ?_, ?_, hfound⟩
        · rw [List.length_cons, attempts_succ hfirst, hattempt]
          change (if found.result.isSome then _ else _) = _
          rw [hfound.result]
          rfl
        · rw [htried]
          exact (List.prefix_append_right_inj _).mpr (List.prefix_append [first] ports)
        · rw [htried]
          exact List.mem_append_right _ (List.mem_singleton_self _)
      · intro hinvalid
        obtain rfl := Option.some.inj hport
        rw [List.length_cons, attempts_succ hfirst, hrefuse hstops hinvalid]
        rfl

end Loops

/-! ## The search -/

section Whole

variable {m : Machine} {rng : Rng} {r : PortRange} {maxAttempts : Nat}

theorem mem_randomPorts {port : Int} (h : port ∈ randomPorts rng r maxAttempts) :
    r.minPort ≤ port ∧ port ≤ r.maxPort := by
  obtain ⟨i, -, rfl⟩ := List.mem_map.mp h
  exact rng.inRange i _ _ r.le

/-- The sequential search ends before the range does. -/
theorem mem_sequentialPorts {port : Int} (h : port ∈ sequentialPorts rng r maxAttempts) :
    r.minPort ≤ port ∧ port ≤ r.maxPort := by
  unfold sequentialPorts at h
  split_ifs at h with hrange
  · obtain ⟨i, hi, rfl⟩ := List.mem_map.mp h
    obtain ⟨hmin, hmax⟩ := rng.inRange (randomAttempts maxAttempts) _ _ hrange
    have hi := List.mem_range.mp hi
    omega
  · cases h

/-- No sequential search goes round at the end of the range. -/
theorem sequentialPort_eq {i : Nat} (hrange : r.minPort ≤ r.maxPort - remainingAttempts maxAttempts)
    (hi : i < remainingAttempts maxAttempts) :
    sequentialPort r (rng.choice (randomAttempts maxAttempts) r.minPort (r.maxPort - remainingAttempts maxAttempts)) i =
      rng.choice (randomAttempts maxAttempts) r.minPort (r.maxPort - remainingAttempts maxAttempts) + i := by
  obtain ⟨-, hmax⟩ := rng.inRange (randomAttempts maxAttempts) _ _ hrange
  apply if_neg
  omega

theorem ready_start (m : Machine) : Ready m ⟨m.state, [], none⟩ := ⟨rfl, rfl, rfl, m.frontier, fun _ => rfl⟩

theorem length_randomPorts : (randomPorts rng r maxAttempts).length = randomAttempts maxAttempts := by
  rw [randomPorts, List.length_map, List.length_range]

theorem length_sequentialPorts (hrange : r.minPort ≤ r.maxPort - remainingAttempts maxAttempts) :
    (sequentialPorts rng r maxAttempts).length = remainingAttempts maxAttempts := by
  rw [sequentialPorts, if_pos hrange, List.length_map, List.length_range]

theorem randomAttempts_le (maxAttempts : Nat) : randomAttempts maxAttempts ≤ maxAttempts :=
  (min_le_left _ _).trans (Nat.div_le_self _ _)

/-- The random phase draws its ports from the list of them. -/
theorem randint_randomPorts (rng : Rng) (r : PortRange) (maxAttempts j : Nat)
    (hj : j < (randomPorts rng r maxAttempts).length) :
    rng.randint (0 + j) r.minPort r.maxPort = .ok (randomPorts rng r maxAttempts)[j] := by
  rw [Rng.randint, if_pos r.le, Nat.zero_add]
  simp [randomPorts]

theorem length_tried_le {tried : List Int}
    (h : tried <+: randomPorts rng r maxAttempts ++ sequentialPorts rng r maxAttempts) :
    tried.length ≤ maxAttempts ∧ ∀ port ∈ tried, r.minPort ≤ port ∧ port ≤ r.maxPort := by
  constructor
  · have hlength := h.length_le
    rw [List.length_append, length_randomPorts] at hlength
    have hle := randomAttempts_le maxAttempts
    by_cases hrange : r.minPort ≤ r.maxPort - remainingAttempts maxAttempts
    · rw [length_sequentialPorts hrange, remainingAttempts] at hlength
      omega
    · rw [sequentialPorts, if_neg hrange, List.length_nil] at hlength
      omega
  · intro port hport
    rcases List.mem_append.mp (h.subset hport) with hmem | hmem
    · exact mem_randomPorts hmem
    · exact mem_sequentialPorts hmem

theorem Found.safeSearch {search : Search} {port : Int} {l : Nat} (h : Found m search port l)
    (htried : search.tried <+: randomPorts rng r maxAttempts ++ sequentialPorts rng r maxAttempts)
    (hport : port ∈ search.tried) : SafeSearch m r maxAttempts (.ok search) := by
  obtain ⟨hfew, hin⟩ := length_tried_le htried
  refine ⟨search, rfl, hfew, hin, fun p k hresult => ?_, fun k hk hother => ?_⟩
  · have hsame : (port, l) = (p, k) := Option.some.inj (h.result.symm.trans hresult)
    obtain ⟨rfl, rfl⟩ := Prod.mk.inj hsame
    exact ⟨hport, h.fresh, h.holds⟩
  · refine h.others k hk ?_
    rintro rfl
    exact hother port h.result

theorem Ready.safeSearch {search : Search} (h : Ready m search)
    (htried : search.tried <+: randomPorts rng r maxAttempts ++ sequentialPorts rng r maxAttempts) :
    SafeSearch m r maxAttempts (.ok search) := by
  obtain ⟨hfew, hin⟩ := length_tried_le htried
  refine ⟨search, rfl, hfew, hin, fun p k hresult => ?_, fun k hk _ => h.released hk⟩
  rw [h.result] at hresult
  cases hresult

theorem not_safeSearch_error (e : PyError) : ¬ SafeSearch m r maxAttempts (.error e) := by
  rintro ⟨search, hok, -⟩
  cases hok

/-- The random phase stops, or leaves the rest to the sequential one. -/
theorem findAvailablePortWithLock_random (m : Machine) (rng : Rng) (r : PortRange) (maxAttempts : Nat) :
    ((randomPorts rng r maxAttempts).find? m.stopsAt = none → ∃ s', Ready m ⟨s', randomPorts rng r maxAttempts, none⟩ ∧
      findAvailablePortWithLock m rng r maxAttempts =
        (rng.randint (randomAttempts maxAttempts) r.minPort (r.maxPort - remainingAttempts maxAttempts)).bind
          fun startPort => attempts m (fun i => .ok (sequentialPort r startPort i)) (remainingAttempts maxAttempts) 0
            ⟨s', randomPorts rng r maxAttempts, none⟩) ∧
    ∀ port, (randomPorts rng r maxAttempts).find? m.stopsAt = some port →
      (SafeSearch m r maxAttempts (findAvailablePortWithLock m rng r maxAttempts) ↔ IsPort port) := by
  obtain ⟨hnone, hsome⟩ := attempts_spec (fun i => rng.randint i r.minPort r.maxPort) (ready_start m)
    (randint_randomPorts rng r maxAttempts)
  rw [length_randomPorts] at hnone hsome
  constructor
  · intro hskip
    obtain ⟨s', hloop, hready⟩ := hnone hskip
    refine ⟨s', hready, ?_⟩
    rw [findAvailablePortWithLock, hloop]
    rfl
  · intro port hstop
    obtain ⟨hvalid, hinvalid⟩ := hsome port hstop
    by_cases hport : IsPort port
    · obtain ⟨found, l, hloop, htried, hmem, hfound⟩ := hvalid hport
      have hresult : findAvailablePortWithLock m rng r maxAttempts = .ok found := by
        rw [findAvailablePortWithLock, hloop]
        change (if found.result.isSome then _ else _) = _
        rw [hfound.result]
        rfl
      rw [hresult]
      exact iff_of_true (hfound.safeSearch (htried.trans (List.prefix_append _ _)) hmem) hport
    · have hresult : findAvailablePortWithLock m rng r maxAttempts = .error .overflowError := by
        rw [findAvailablePortWithLock, hinvalid hport]
        rfl
      rw [hresult]
      exact iff_of_false (not_safeSearch_error _) hport

/-- The sequential phase, when there is a range for it. -/
theorem findAvailablePortWithLock_sequential (hskip : (randomPorts rng r maxAttempts).find? m.stopsAt = none)
    (hrange : r.minPort ≤ r.maxPort - remainingAttempts maxAttempts) :
    SafeSearch m r maxAttempts (findAvailablePortWithLock m rng r maxAttempts) ↔
      ∀ port, (sequentialPorts rng r maxAttempts).find? m.stopsAt = some port → IsPort port := by
  obtain ⟨s', hready, hresult⟩ := (findAvailablePortWithLock_random m rng r maxAttempts).1 hskip
  rw [Rng.randint, if_pos hrange] at hresult
  change _ = attempts m _ _ _ _ at hresult
  let portAt (i : Nat) : Except PyError Int := .ok (sequentialPort r
    (rng.choice (randomAttempts maxAttempts) r.minPort (r.maxPort - remainingAttempts maxAttempts)) i)
  have hports (j : Nat) (hj : j < (sequentialPorts rng r maxAttempts).length) :
      portAt (0 + j) = .ok (sequentialPorts rng r maxAttempts)[j] := by
    have hlt := hj
    rw [length_sequentialPorts hrange] at hlt
    change Except.ok (sequentialPort _ _ _) = _
    rw [Nat.zero_add, sequentialPort_eq hrange hlt]
    simp [sequentialPorts, hrange]
  obtain ⟨hnone, hsome⟩ := attempts_spec _ hready hports
  rw [length_sequentialPorts hrange] at hnone hsome
  rw [hresult]
  cases hfind : (sequentialPorts rng r maxAttempts).find? m.stopsAt with
  | none =>
    obtain ⟨s'', hloop, hlast⟩ := hnone hfind
    rw [hloop]
    refine iff_of_true (hlast.safeSearch (List.prefix_refl _)) fun port hport => ?_
    cases hport
  | some port =>
    obtain ⟨hvalid, hinvalid⟩ := hsome port hfind
    by_cases hport : IsPort port
    · obtain ⟨found, l, hloop, htried, hmem, hfound⟩ := hvalid hport
      rw [hloop]
      refine iff_of_true (hfound.safeSearch htried hmem) fun p hp => ?_
      rw [← Option.some.inj hp]
      exact hport
    · rw [hinvalid hport]
      exact iff_of_false (not_safeSearch_error _) fun hall => hport (hall port rfl)

end Whole

theorem safeSearch_iff (m : Machine) (rng : Rng) (r : PortRange) (maxAttempts : Nat) :
    SafeSearch m r maxAttempts (findAvailablePortWithLock m rng r maxAttempts) ↔ HasRange m rng r maxAttempts := by
  obtain ⟨hrandom, hstop⟩ := findAvailablePortWithLock_random m rng r maxAttempts
  rw [HasRange, List.find?_append]
  cases hfind : (randomPorts rng r maxAttempts).find? m.stopsAt with
  | some port =>
    have hsome : ∃ port ∈ randomPorts rng r maxAttempts, m.stopsAt port :=
      ⟨port, List.mem_of_find?_eq_some hfind, List.find?_some hfind⟩
    rw [hstop port hfind, Option.some_or]
    refine ⟨fun hport => ⟨Or.inl hsome, fun p hp => ?_⟩, fun h => h.2 port rfl⟩
    rw [← Option.some.inj hp]
    exact hport
  | none =>
    have hnone : ¬ ∃ port ∈ randomPorts rng r maxAttempts, m.stopsAt port := by
      rintro ⟨port, hmem, hstops⟩
      exact List.find?_eq_none.mp hfind port hmem hstops
    rw [Option.none_or]
    by_cases hrange : r.minPort ≤ r.maxPort - remainingAttempts maxAttempts
    · rw [findAvailablePortWithLock_sequential hfind hrange]
      exact ⟨fun h => ⟨Or.inr hrange, h⟩, And.right⟩
    · obtain ⟨s', -, hresult⟩ := hrandom hfind
      rw [hresult, Rng.randint, if_neg hrange]
      refine iff_of_false (not_safeSearch_error _) ?_
      rintro ⟨hstops | hle, -⟩
      · exact hnone hstops
      · exact hrange hle

/-- A machine on which no port is locked or bound. -/
def idleMachine : Machine where
  state := {}
  fresh := 0
  bound _ := false
  unused _ _ := rfl
  owned _ _ h := by cases h
  frontier _ _ := rfl

theorem not_safeSearch : ¬ SafeSearch idleMachine ⟨30000, 30000, le_refl _⟩ 1
    (findAvailablePortWithLock idleMachine ⟨fun _ a _ => a, fun _ _ _ h => ⟨le_refl _, h⟩⟩ ⟨30000, 30000, le_refl _⟩ 1) := by
  rintro ⟨search, hok, -⟩
  cases hok

end OpenHands.PortLock
