import Mathlib.Logic.Function.Basic
import OpenHandsSWE.Lib.Assoc
import OpenHandsSWE.Lib.Runs

/-! The lock files of the ports: processes meet at a path, while a lock belongs to the file that was opened. -/

namespace OpenHands.PortLock

/-- The system call that an object comes to next. -/
inductive Stage where
  | idle
  | trying
  | writing
  | closing
  | unlinking
  | exited
deriving DecidableEq, Repr

/-- A `PortLock`; it is held from the end of a successful `acquire` to the start of its `release`. -/
structure Object where
  fd : Option Nat := none
  locked : Bool := false
  stage : Stage := .idle
  held : Bool := false
deriving DecidableEq, Repr

/-- A run of `cleanup_stale_locks`, with the ports of the files it has still to look at. -/
structure Sweep where
  currentTime : Int := 0
  maxAge : Int := 0
  files : List Nat := []
  stale : Option Nat := none
  cleaned : Nat := 0
deriving DecidableEq, Repr

/-- The directory names the file of each port; a file has a lock and a time of change. -/
structure State where
  directory : List (Nat × Nat) := []
  nextFile : Nat := 0
  owner : Nat → Option Nat := fun _ => none
  mtime : Nat → Int := fun _ => 0
  now : Int := 0
  objects : Nat → Object := fun _ => {}
  sweeps : Nat → Sweep := fun _ => {}

inductive Syscall where
  | acquire (l : Nat)
  | flock (l : Nat)
  | write (l : Nat) (ok : Bool)
  | timeout (l : Nat)
  | release (l : Nat)
  | close (l : Nat)
  | unlink (l : Nat)
  | exit (l : Nat)
  | cleanup (c : Nat) (maxAge : Int)
  | stat (c : Nat)
  | remove (c : Nat)
  | clock (now : Int)

namespace State

def setObject (s : State) (l : Nat) (o : Object) : State := { s with objects := Function.update s.objects l o }

def setSweep (s : State) (c : Nat) (w : Sweep) : State := { s with sweeps := Function.update s.sweeps c w }

/-- `O_CREAT | O_WRONLY | O_TRUNC`. -/
def openFile (s : State) (port : Nat) : Nat × State :=
  match Assoc.get? port s.directory with
  | some i => (i, { s with mtime := Function.update s.mtime i s.now })
  | none =>
    (s.nextFile, { s with
      directory := Assoc.set port s.nextFile s.directory
      nextFile := s.nextFile + 1
      mtime := Function.update s.mtime s.nextFile s.now })

/-- A lock goes when it is given up, and when its file is closed. -/
def unlock (s : State) (l : Nat) (fd : Option Nat) : State :=
  { s with owner := fun i => if fd = some i ∧ s.owner i = some l then none else s.owner i }

end State

/-- A call that does not come next for its object changes nothing. -/
def acquire (portOf : Nat → Nat) (s : State) (l : Nat) : State :=
  if (s.objects l).stage = .idle then
    if (s.objects l).locked then s.setObject l { s.objects l with held := true }
    else
      (s.openFile (portOf l)).2.setObject l
        { s.objects l with fd := some (s.openFile (portOf l)).1, stage := .trying }
  else s

def flock (s : State) (l : Nat) : State :=
  match (s.objects l).fd with
  | some i =>
    if (s.objects l).stage = .trying ∧ (s.owner i = none ∨ s.owner i = some l) then
      { s with owner := Function.update s.owner i (some l) }.setObject l
        { s.objects l with locked := true, stage := .writing }
    else s
  | none => s

def write (s : State) (l : Nat) (ok : Bool) : State :=
  match (s.objects l).fd with
  | some i =>
    if (s.objects l).stage = .writing then
      if ok then
        { s with mtime := Function.update s.mtime i s.now }.setObject l
          { s.objects l with stage := .idle, held := true }
      else s.setObject l { s.objects l with stage := .trying } -- caught with the errors of `flock`
    else s
  | none => s

/-- `_locked` stays as it is. -/
def timeout (s : State) (l : Nat) : State :=
  if (s.objects l).stage = .trying then
    (s.unlock l (s.objects l).fd).setObject l { s.objects l with fd := none, stage := .idle }
  else s

def release (s : State) (l : Nat) : State :=
  if (s.objects l).stage = .idle then
    if (s.objects l).fd.isSome then
      (s.unlock l (s.objects l).fd).setObject l { s.objects l with stage := .closing, held := false }
    else s.setObject l { s.objects l with held := false }
  else s

def close (s : State) (l : Nat) : State :=
  if (s.objects l).stage = .closing then
    (s.unlock l (s.objects l).fd).setObject l { s.objects l with stage := .unlinking }
  else s

def unlink (portOf : Nat → Nat) (s : State) (l : Nat) : State :=
  if (s.objects l).stage = .unlinking then
    { s with directory := Assoc.erase (portOf l) s.directory }.setObject l
      { s.objects l with fd := none, locked := false, stage := .idle }
  else s

def exit (s : State) (l : Nat) : State := (s.unlock l (s.objects l).fd).setObject l { stage := .exited }

def cleanup (s : State) (c : Nat) (maxAge : Int) : State :=
  if (s.sweeps c).files = [] ∧ (s.sweeps c).stale = none then
    s.setSweep c { currentTime := s.now, maxAge := maxAge, files := s.directory.map Prod.fst }
  else s

def stat (s : State) (c : Nat) : State :=
  match (s.sweeps c).files, (s.sweeps c).stale with
  | port :: files, none =>
    match Assoc.get? port s.directory with
    | some i =>
      if (s.sweeps c).maxAge < (s.sweeps c).currentTime - s.mtime i then
        s.setSweep c { s.sweeps c with files := files, stale := some port }
      else s.setSweep c { s.sweeps c with files := files }
    | none => s.setSweep c { s.sweeps c with files := files }
  | _, _ => s

def remove (s : State) (c : Nat) : State :=
  match (s.sweeps c).stale with
  | some port =>
    { s with directory := Assoc.erase port s.directory }.setSweep c
      { s.sweeps c with
        stale := none
        cleaned := if Assoc.contains port s.directory then (s.sweeps c).cleaned + 1 else (s.sweeps c).cleaned }
  | none => s

def step (portOf : Nat → Nat) (s : State) : Syscall → State
  | .acquire l => acquire portOf s l
  | .flock l => flock s l
  | .write l ok => write s l ok
  | .timeout l => timeout s l
  | .release l => release s l
  | .close l => close s l
  | .unlink l => unlink portOf s l
  | .exit l => exit s l
  | .cleanup c maxAge => cleanup s c maxAge
  | .stat c => stat s c
  | .remove c => remove s c
  | .clock now => { s with now := now }

variable (portOf : Nat → Nat)

/-- At most one object of a port holds it. -/
def Exclusive (s : State) : Prop :=
  ∀ l m, (s.objects l).held ∧ (s.objects l).locked → (s.objects m).held ∧ (s.objects m).locked →
    portOf l = portOf m → l = m

/-- A lock is taken on the file that the directory names; no file is removed whose lock is taken; and no
`acquire` follows one that had taken the lock and timed out. -/
def Undisturbed (s : State) : Syscall → Prop
  | .acquire l => (s.objects l).stage = .idle → (s.objects l).locked → (s.objects l).fd ≠ none
  | .flock l => ∀ i, (s.objects l).fd = some i → (s.objects l).stage = .trying →
    s.owner i = none ∨ s.owner i = some l → Assoc.get? (portOf l) s.directory = some i
  | .unlink l => (s.objects l).stage = .unlinking → ∀ i, Assoc.get? (portOf l) s.directory = some i → s.owner i = none
  | .remove c => ∀ port i, (s.sweeps c).stale = some port → Assoc.get? port s.directory = some i → s.owner i = none
  | _ => True

/-! ## What every undisturbed call keeps -/

/-- The object has a file open whose lock it has taken and not given up. -/
def Locks (o : Object) (i : Nat) : Prop :=
  o.fd = some i ∧ o.locked = true ∧ (o.stage = .idle ∨ o.stage = .trying ∨ o.stage = .writing)

/-- The lock of the object is the one of the file that the directory names; a holder has one. -/
structure Sound (s : State) (l : Nat) : Prop where
  named : ∀ i, Locks (s.objects l) i → s.owner i = some l ∧ Assoc.get? (portOf l) s.directory = some i
  held : (s.objects l).held = true → (s.objects l).stage = .idle ∧ ∃ i, Locks (s.objects l) i
  writing : (s.objects l).stage = .writing → ∃ i, Locks (s.objects l) i

variable {portOf} {s s' : State} {l m : Nat}

theorem Sound.frame (h : Sound portOf s m) (hobject : s'.objects m = s.objects m)
    (hkept : ∀ i, s.owner i = some m → Assoc.get? (portOf m) s.directory = some i →
      s'.owner i = some m ∧ Assoc.get? (portOf m) s'.directory = some i) : Sound portOf s' m := by
  constructor
  · intro i hlocks
    rw [hobject] at hlocks
    obtain ⟨howner, hnamed⟩ := h.named i hlocks
    exact hkept i howner hnamed
  · rw [hobject]
    exact h.held
  · rw [hobject]
    exact h.writing

/-- An object without a lock. -/
theorem Sound.of_free (hfree : ∀ i, ¬ Locks (s'.objects l) i) (hheld : (s'.objects l).held = false)
    (hstage : (s'.objects l).stage ≠ .writing) : Sound portOf s' l :=
  ⟨fun i hlocks => absurd hlocks (hfree i), fun h => absurd (h.symm.trans hheld) nofun, fun h => absurd h hstage⟩

theorem objects_setObject_self (s : State) (l : Nat) (o : Object) : (s.setObject l o).objects l = o :=
  Function.update_self ..

theorem objects_setObject_of_ne (s : State) (o : Object) (h : m ≠ l) : (s.setObject l o).objects m = s.objects m :=
  Function.update_of_ne h ..

theorem owner_unlock (s : State) (fd : Option Nat) (h : m ≠ l) {i : Nat} (howner : s.owner i = some m) :
    (s.unlock l fd).owner i = some m := by
  have hother : ¬ (fd = some i ∧ s.owner i = some l) := fun hl => h (Option.some.inj (howner.symm.trans hl.2))
  exact (if_neg hother).trans howner

theorem Sound.not_held (h : Sound portOf s l) (hstage : (s.objects l).stage ≠ .idle) : (s.objects l).held = false :=
  Bool.eq_false_iff.mpr fun hheld => hstage (h.held hheld).1

/-- Opening a file leaves the names of the others. -/
theorem get?_openFile (s : State) (port other : Nat) {i : Nat} (h : Assoc.get? other s.directory = some i) :
    Assoc.get? other (s.openFile port).2.directory = some i := by
  unfold State.openFile
  split
  next => exact h
  next hnew =>
    have hne : other ≠ port := by
      rintro rfl
      cases hnew.symm.trans h
    exact (Assoc.get?_set_of_ne hne _ _).trans h

theorem owner_openFile (s : State) (port : Nat) : (s.openFile port).2.owner = s.owner := by
  unfold State.openFile
  split <;> rfl

theorem objects_openFile (s : State) (port : Nat) : (s.openFile port).2.objects = s.objects := by
  unfold State.openFile
  split <;> rfl

/-- A file whose lock is taken keeps its name when no such file is removed. -/
theorem get?_erase_owned {port other i : Nat} (h : Assoc.get? other s.directory = some i) (howner : s.owner i = some m)
    (hfree : ∀ j, Assoc.get? port s.directory = some j → s.owner j = none) :
    Assoc.get? other (Assoc.erase port s.directory) = some i := by
  have hne : other ≠ port := by
    rintro rfl
    cases (hfree i h).symm.trans howner
  rw [Assoc.erase, Assoc.get?_filter (· != port), if_pos (bne_iff_ne.mpr hne)]
  exact h

/-- A call of an object leaves the others sound. -/
theorem sound_other (hsound : Sound portOf s m) (hne : m ≠ l) {t : State} (ht : t.objects = s.objects) (o : Object)
    (howner : ∀ i, s.owner i = some m → t.owner i = some m)
    (hnames : ∀ i, s.owner i = some m → Assoc.get? (portOf m) s.directory = some i →
      Assoc.get? (portOf m) t.directory = some i) : Sound portOf (t.setObject l o) m := by
  refine hsound.frame ?_ fun i hi hnamed => ⟨howner i hi, hnames i hi hnamed⟩
  rw [objects_setObject_of_ne t o hne, ht]

theorem sound_acquire (hsound : Sound portOf s m) (l : Nat) (hclean : Undisturbed portOf s (.acquire l)) :
    Sound portOf (acquire portOf s l) m := by
  unfold acquire
  split_ifs with hidle hlocked
  · by_cases hne : m = l
    · subst hne
      have hopen := hclean hidle hlocked
      obtain ⟨i, hi⟩ := Option.ne_none_iff_exists'.mp hopen
      have hlocks : Locks (s.objects m) i := ⟨hi, hlocked, .inl hidle⟩
      constructor
      · intro j hj
        rw [objects_setObject_self] at hj
        exact hsound.named j hj
      · rw [objects_setObject_self]
        exact fun _ => ⟨hidle, i, hlocks⟩
      · rw [objects_setObject_self]
        exact hsound.writing
    · apply sound_other hsound hne
      · rfl
      · exact fun _ h => h
      · exact fun _ _ h => h
  · by_cases hne : m = l
    · subst hne
      refine Sound.of_free (fun i hlocks => ?_) ?_ ?_
      · rw [objects_setObject_self] at hlocks
        exact hlocked hlocks.2.1
      · rw [objects_setObject_self]
        refine Bool.eq_false_iff.mpr fun hheld => ?_
        obtain ⟨-, i, hlocks⟩ := hsound.held hheld
        exact hlocked hlocks.2.1
      · rw [objects_setObject_self]
        exact nofun
    · refine sound_other hsound hne (objects_openFile s _) _ (fun i h => ?_) fun i _ h => get?_openFile s _ _ h
      rw [owner_openFile]
      exact h
  · exact hsound

theorem sound_flock (hsound : Sound portOf s m) (l : Nat) (hclean : Undisturbed portOf s (.flock l)) :
    Sound portOf (flock s l) m := by
  unfold flock
  split
  next i hfd =>
    split_ifs with htry
    · by_cases hne : m = l
      · subst hne
        have hnamed := hclean i hfd htry.1 htry.2
        have hlocks : Locks { s.objects m with locked := true, stage := .writing } i := ⟨hfd, rfl, .inr (.inr rfl)⟩
        constructor
        · intro j hj
          rw [objects_setObject_self] at hj
          obtain rfl := Option.some.inj (hfd.symm.trans hj.1)
          exact ⟨Function.update_self .., hnamed⟩
        · rw [objects_setObject_self]
          intro hheld
          have hidle := (hsound.held hheld).1
          cases htry.1.symm.trans hidle
        · rw [objects_setObject_self]
          exact fun _ => ⟨i, hlocks⟩
      · have hother (j : Nat) (hj : s.owner j = some m) : j ≠ i := by
          rintro rfl
          rcases htry.2 with h | h
          · cases h.symm.trans hj
          · exact hne (Option.some.inj (hj.symm.trans h))
        apply sound_other hsound hne
        · rfl
        · exact fun j hj => (Function.update_of_ne (hother j hj) ..).trans hj
        · exact fun _ _ h => h
    · exact hsound
  next => exact hsound

theorem sound_write (hsound : Sound portOf s m) (l : Nat) (ok : Bool) :
    Sound portOf (write s l ok) m := by
  unfold write
  split
  next i hfd =>
    split_ifs with hwriting hok
    · by_cases hne : m = l
      · subst hne
        obtain ⟨j, hlocks⟩ := hsound.writing hwriting
        have hidle : Locks { s.objects m with stage := .idle, held := true } j := ⟨hlocks.1, hlocks.2.1, .inl rfl⟩
        constructor
        · intro k hk
          rw [objects_setObject_self] at hk
          exact hsound.named k ⟨hk.1, hk.2.1, .inr (.inr hwriting)⟩
        · rw [objects_setObject_self]
          exact fun _ => ⟨rfl, j, hidle⟩
        · rw [objects_setObject_self]
          exact nofun
      · apply sound_other hsound hne
        · rfl
        · exact fun _ h => h
        · exact fun _ _ h => h
    · by_cases hne : m = l
      · subst hne
        have hnot := hsound.not_held (hwriting ▸ nofun)
        constructor
        · intro k hk
          rw [objects_setObject_self] at hk
          exact hsound.named k ⟨hk.1, hk.2.1, .inr (.inr hwriting)⟩
        · rw [objects_setObject_self]
          exact fun hheld => absurd (hheld.symm.trans hnot) nofun
        · rw [objects_setObject_self]
          exact nofun
      · apply sound_other hsound hne
        · rfl
        · exact fun _ h => h
        · exact fun _ _ h => h
    · exact hsound
  next => exact hsound

theorem sound_timeout (hsound : Sound portOf s m) (l : Nat) :
    Sound portOf (timeout s l) m := by
  unfold timeout
  split_ifs with htry
  · by_cases hne : m = l
    · subst hne
      refine Sound.of_free (fun i hlocks => ?_) ?_ ?_
      · rw [objects_setObject_self] at hlocks
        cases hlocks.1
      · rw [objects_setObject_self]
        exact hsound.not_held (htry ▸ nofun)
      · rw [objects_setObject_self]
        exact nofun
    · apply sound_other hsound hne
      · rfl
      · exact fun i h => owner_unlock s _ hne h
      · exact fun _ _ h => h
  · exact hsound

theorem sound_release (hsound : Sound portOf s m) (l : Nat) :
    Sound portOf (release s l) m := by
  unfold release
  split_ifs with hidle hopen
  · by_cases hne : m = l
    · subst hne
      refine Sound.of_free (fun i hlocks => ?_) ?_ ?_
      · rw [objects_setObject_self] at hlocks
        rcases hlocks.2.2 with h | h | h <;> cases h
      · rw [objects_setObject_self]
      · rw [objects_setObject_self]
        exact nofun
    · apply sound_other hsound hne
      · rfl
      · exact fun i h => owner_unlock s _ hne h
      · exact fun _ _ h => h
  · by_cases hne : m = l
    · subst hne
      refine Sound.of_free (fun i hlocks => ?_) ?_ ?_
      · rw [objects_setObject_self] at hlocks
        have hfd : (s.objects m).fd = some i := hlocks.1
        exact hopen (hfd ▸ rfl)
      · rw [objects_setObject_self]
      · rw [objects_setObject_self]
        exact hidle ▸ nofun
    · apply sound_other hsound hne
      · rfl
      · exact fun _ h => h
      · exact fun _ _ h => h
  · exact hsound

theorem sound_close (hsound : Sound portOf s m) (l : Nat) :
    Sound portOf (close s l) m := by
  unfold close
  split_ifs with hclosing
  · by_cases hne : m = l
    · subst hne
      refine Sound.of_free (fun i hlocks => ?_) ?_ ?_
      · rw [objects_setObject_self] at hlocks
        rcases hlocks.2.2 with h | h | h <;> cases h
      · rw [objects_setObject_self]
        exact hsound.not_held (hclosing ▸ nofun)
      · rw [objects_setObject_self]
        exact nofun
    · apply sound_other hsound hne
      · rfl
      · exact fun i h => owner_unlock s _ hne h
      · exact fun _ _ h => h
  · exact hsound

theorem sound_unlink (hsound : Sound portOf s m) (l : Nat) (hclean : Undisturbed portOf s (.unlink l)) :
    Sound portOf (unlink portOf s l) m := by
  unfold unlink
  split_ifs with hunlinking
  · by_cases hne : m = l
    · subst hne
      refine Sound.of_free (fun i hlocks => ?_) ?_ ?_
      · rw [objects_setObject_self] at hlocks
        cases hlocks.1
      · rw [objects_setObject_self]
        exact hsound.not_held (hunlinking ▸ nofun)
      · rw [objects_setObject_self]
        exact nofun
    · apply sound_other hsound hne
      · rfl
      · exact fun _ h => h
      · exact fun i howner h => get?_erase_owned h howner (hclean hunlinking)
  · exact hsound

theorem sound_exit (hsound : Sound portOf s m) (l : Nat) :
    Sound portOf (exit s l) m := by
  unfold exit
  by_cases hne : m = l
  · subst hne
    refine Sound.of_free (fun i hlocks => ?_) ?_ ?_
    · rw [objects_setObject_self] at hlocks
      cases hlocks.1
    · rw [objects_setObject_self]
    · rw [objects_setObject_self]
      exact nofun
  · apply sound_other hsound hne
    · rfl
    · exact fun i h => owner_unlock s _ hne h
    · exact fun _ _ h => h

theorem sound_cleanup (hsound : Sound portOf s m) (c : Nat) (maxAge : Int) :
    Sound portOf (cleanup s c maxAge) m := by
  unfold cleanup
  split_ifs <;> exact hsound.frame rfl fun _ howner hnamed => ⟨howner, hnamed⟩

theorem sound_stat (hsound : Sound portOf s m) (c : Nat) :
    Sound portOf (stat s c) m := by
  unfold stat
  split
  · split
    · split_ifs <;> exact hsound.frame rfl fun _ howner hnamed => ⟨howner, hnamed⟩
    · exact hsound.frame rfl fun _ howner hnamed => ⟨howner, hnamed⟩
  · exact hsound

theorem sound_remove (hsound : Sound portOf s m) (c : Nat) (hclean : Undisturbed portOf s (.remove c)) :
    Sound portOf (remove s c) m := by
  unfold remove
  split
  next port hstale =>
    exact hsound.frame rfl fun i howner hnamed =>
      ⟨howner, get?_erase_owned hnamed howner fun j hj => hclean port j hstale hj⟩
  next => exact hsound

theorem sound_step (hall : ∀ m, Sound portOf s m) (call : Syscall) (hclean : Undisturbed portOf s call) (m : Nat) :
    Sound portOf (step portOf s call) m := by
  have hsound := hall m
  cases call with
  | acquire l => exact sound_acquire hsound l hclean
  | flock l => exact sound_flock hsound l hclean
  | write l ok => exact sound_write hsound l ok
  | timeout l => exact sound_timeout hsound l
  | release l => exact sound_release hsound l
  | close l => exact sound_close hsound l
  | unlink l => exact sound_unlink hsound l hclean
  | exit l => exact sound_exit hsound l
  | cleanup c maxAge => exact sound_cleanup hsound c maxAge
  | stat c => exact sound_stat hsound c
  | remove c => exact sound_remove hsound c hclean
  | clock now => exact hsound.frame rfl fun _ howner hnamed => ⟨howner, hnamed⟩

theorem exclusive_of_sound (hall : ∀ m, Sound portOf s m) : Exclusive portOf s := by
  intro l m hl hm hport
  obtain ⟨-, i, hi⟩ := (hall l).held hl.1
  obtain ⟨-, j, hj⟩ := (hall m).held hm.1
  obtain ⟨howner, hnamed⟩ := (hall l).named i hi
  obtain ⟨howner', hnamed'⟩ := (hall m).named j hj
  rw [hport] at hnamed
  obtain rfl := Option.some.inj (hnamed.symm.trans hnamed')
  exact Option.some.inj (howner.symm.trans howner')

theorem sound_start (portOf : Nat → Nat) (l : Nat) : Sound portOf {} l :=
  Sound.of_free (fun _ hlocks => nomatch hlocks.1) rfl nofun

/-- In every state that a run of undisturbed calls reaches, a port has one holder at most. -/
theorem exclusive_run (portOf : Nat → Nat) {calls : List Syscall}
    (hclean : Runs.EachStep (step portOf) {} (Undisturbed portOf) calls) {before : List Syscall}
    (hbefore : before <+: calls) : Exclusive portOf (before.foldl (step portOf) {}) := by
  have hrun : Runs.EachStep (step portOf) {} (Undisturbed portOf) before :=
    fun front call hfront => hclean front call (hfront.trans hbefore)
  have hall : ∀ m, Sound portOf (before.foldl (step portOf) {}) m :=
    hrun.invariant (I := fun s => ∀ m, Sound portOf s m) (sound_start portOf)
      fun s call hsound hcall => sound_step hsound call hcall
  exact exclusive_of_sound hall

/-- One object after the other. -/
def inTurn : List Syscall :=
  [.acquire 0, .flock 0, .write 0 true, .release 0, .close 0, .unlink 0, .acquire 1, .flock 1, .write 1 true]

theorem exclusive_inTurn : Exclusive (fun _ => 8080) (inTurn.foldl (step fun _ => 8080) {}) := by
  refine exclusive_run _ ?_ List.prefix_rfl
  have hunlocked {o : Object} {P : Prop} (h : o.locked = false) : o.locked → P :=
    fun hlocked => nomatch hlocked.symm.trans h
  rw [inTurn]
  iterate 9 rw [Runs.eachStep_cons]
  refine ⟨fun _ => hunlocked rfl, fun i hi _ _ => hi, trivial, trivial, trivial, fun _ i hi => ?_,
    fun _ => hunlocked rfl, fun i hi _ _ => hi, trivial, Runs.eachStep_nil⟩
  obtain rfl := Option.some.inj hi
  rfl

/-- The first object gives its lock up, the second one takes it, the first one removes the file, and the third
one finds none. -/
def threeActors : List Syscall :=
  [.acquire 0, .flock 0, .write 0 true, .acquire 1, .release 0, .close 0, .flock 1, .write 1 true, .unlink 0,
    .acquire 2, .flock 2, .write 2 true]

theorem threeActors_not_exclusive : ¬ ∀ portOf (calls : List Syscall), Exclusive portOf (calls.foldl (step portOf) {}) := by
  intro h
  have hsame := h (fun _ => 8080) threeActors 1 2 (by decide) (by decide) rfl
  cases hsame

end OpenHands.PortLock
