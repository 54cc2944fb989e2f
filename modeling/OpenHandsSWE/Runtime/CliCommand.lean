import OpenHandsSWE.Events.Serialization.Truncation
import OpenHandsSWE.Lib.Runs
import OpenHandsSWE.Runtime.Files

/-! A command of the runtime that works on the host itself: its output is read while it runs, and the rest when it has
exited. -/

namespace OpenHands.CLIRuntime.ShellCommand

open Files (universalNewlines)

/-! ## The command and its reader -/

/-- Where the reader is: in its loop, in the loop that drains the pipe, or done. -/
inductive Phase where
  | poll
  | clock
  | select
  | readline (draining : Bool)
  | drain
  | done
deriving DecidableEq

structure State where
  /-- What is written and not yet read. -/
  pipe : List Char := []
  closed : Bool := false
  exited : Option ℕ := none
  written : List Char := []
  expired : Bool := false
  /-- A carriage return that may begin a line end, and what is read ahead behind the line ends. -/
  held : List Char := []
  decoded : List Char := []
  outputLines : List (List Char) := []
  /-- The variable of the loop, which is unbound at first. -/
  line : Option (List Char) := none
  timedOut : Bool := false
  returncode : Option ℕ := none
  phase : Phase := .poll
deriving DecidableEq

/-- What the command does, the end of its time, and a turn of the reader, which may read ahead. -/
inductive Event where
  | write (text : List Char)
  | close
  | exit (code : ℕ)
  | expire
  | turn (ahead : ℕ)
deriving DecidableEq

/-- `readline` has a line: an empty one at the end of the output. -/
def readLine (s : State) (draining : Bool) (line rest : List Char) : State :=
  { s with
    line := some line
    decoded := rest
    outputLines := if line = [] then s.outputLines else s.outputLines ++ [line]
    phase := if draining then .drain else .poll }

/-- A chunk of the pipe is decoded; a carriage return at its end waits for what follows. -/
def readChunk (s : State) (ahead : ℕ) : State :=
  let input := s.held ++ s.pipe.take (ahead + 1)
  let s := { s with pipe := s.pipe.drop (ahead + 1) }
  if input.getLast? = some '\r' then { s with decoded := s.decoded ++ universalNewlines input.dropLast, held := ['\r'] }
  else { s with decoded := s.decoded ++ universalNewlines input, held := [] }

/-- A turn within `readline`: without a whole line in the buffer it reads on, and waits while the pipe is empty. -/
def readline (s : State) (draining : Bool) (ahead : ℕ) : State :=
  if '\n' ∈ s.decoded then
    readLine s draining (s.decoded.takeWhile (· ≠ '\n') ++ ['\n']) (s.decoded.dropWhile (· ≠ '\n')).tail
  else if s.pipe ≠ [] then readChunk s ahead
  else if s.closed then readLine { s with held := [] } draining (s.decoded ++ universalNewlines s.held) []
  else s

/-- A turn of `_execute_shell_command`. -/
def turn (s : State) (ahead : ℕ) : State :=
  match s.phase with
  | .poll =>
    match s.exited with
    | some code => { s with returncode := some code, phase := .drain }
    | none => { s with phase := .clock }
  | .clock =>
    -- the group of a process that has exited is sent a signal to no effect
    if s.expired then { s with timedOut := true, phase := .drain } else { s with phase := .select }
  | .select => if s.pipe ≠ [] ∨ s.closed then { s with phase := .readline false } else { s with phase := .poll }
  | .readline draining => readline s draining ahead
  | .drain =>
    match s.line with
    | some (_ :: _) => { s with phase := .readline true }
    -- an unbound variable raises, and the error is logged only
    | _ => { s with phase := .done }
  | .done => s

/-- The command writes until it closes its output or exits, and exits before its time is over. -/
def step (s : State) : Event → State
  | .write text =>
    if s.exited = none ∧ s.closed = false then { s with pipe := s.pipe ++ text, written := s.written ++ text } else s
  | .close => { s with closed := true }
  | .exit code => if s.exited = none then { s with exited := some code, closed := true } else s
  | .expire => if s.exited ≠ none then { s with expired := true } else s
  | .turn ahead => turn s ahead

structure Observation where
  content : List Char
  exitCode : Option Int
deriving DecidableEq

def observation (s : State) : Observation where
  content := Truncation.maybeTruncate s.outputLines.flatten
  exitCode := if s.timedOut then some (-1) else s.returncode.map fun code => (code : Int)

def run (events : List Event) : State := events.foldl step {}

/-- If the call has returned, its observation has the whole text and the exit code. -/
def ReturnsWhole (events : List Event) : Prop :=
  (run events).phase = .done → observation (run events) = ⟨(run events).written, (run events).exited.map fun code => (code : Int)⟩

/-- The clock is looked at when the time is over. -/
def LooksLate (s : State) (e : Event) : Prop := (∃ ahead, e = .turn ahead) ∧ s.phase = .clock ∧ s.expired = true

/-- `select` reports that there is something to read, or the end of the output. -/
def Selects (s : State) (e : Event) : Prop :=
  (∃ ahead, e = .turn ahead) ∧ s.phase = .select ∧ (s.pipe ≠ [] ∨ s.closed = true)

/-- The loop never looks at the clock too late, and reports something to read before it sees the exit of a command
that has written a text; the text has no carriage return and is not cut. -/
structure InTime (events : List Event) : Prop where
  clock : Runs.EachStep step {} (fun s e => ¬ LooksLate s e) events
  selects : (run events).written = [] ∨ ¬ Runs.EachStep step {} (fun s e => ¬ Selects s e) events
  newlines : '\r' ∉ (run events).written
  whole : Truncation.maybeTruncate (run events).written = (run events).written

/-! ## Line ends -/

theorem notMem_universalNewlines (cs : List Char) : '\r' ∉ universalNewlines cs := by
  fun_induction universalNewlines cs with
  | case1 => simp
  | case2 cs ih => simpa using ih
  | case3 cs _ ih => simpa using ih
  | case4 c cs _ hc ih => exact fun hmem => (List.mem_cons.mp hmem).elim (fun heq => hc heq.symm) ih

theorem length_universalNewlines_le (cs : List Char) : (universalNewlines cs).length ≤ cs.length := by
  fun_induction universalNewlines cs with
  | case1 => simp
  | case2 cs ih => simp only [List.length_cons]; omega
  | case3 cs _ ih => simpa using ih
  | case4 c cs _ _ ih => simpa using ih

theorem firstLine_append {cs : List Char} (h : '\n' ∈ cs) :
    cs = cs.takeWhile (· ≠ '\n') ++ ['\n'] ++ (cs.dropWhile (· ≠ '\n')).tail := by
  induction cs with
  | nil => simp at h
  | cons c cs ih =>
    by_cases hc : c = '\n'
    · simp [hc]
    · have hcs := ih ((List.mem_cons.mp h).resolve_left (Ne.symm hc))
      rw [List.takeWhile_cons_of_pos (by simpa using hc), List.dropWhile_cons_of_pos (by simpa using hc), List.cons_append,
        List.cons_append, ← hcs]

/-! ## What every step keeps -/

/-- The reader has the text up to what is in the pipe, unless it changes it; at the end of the output it has all. -/
structure Sound (s : State) : Prop where
  clean : '\r' ∉ s.outputLines.flatten ++ s.decoded
  text : '\r' ∉ s.written → s.held = [] ∧ s.outputLines.flatten ++ s.decoded ++ s.pipe = s.written
  held_short : s.held.length ≤ 1
  closed_of_exited : s.exited ≠ none → s.closed = true
  unbound : s.line = none → s.outputLines = []
  ended : s.line = some [] → s.closed = true ∧ s.pipe = [] ∧ s.held = [] ∧ s.decoded = []
  drained : s.phase = .done → s.line = none ∨ s.line = some []
  late : s.timedOut = true → s.exited ≠ none
  expired : s.expired = true → s.exited ≠ none
  left : s.phase = .drain ∨ s.phase = .readline true ∨ s.phase = .done →
    s.timedOut = true ∨ s.exited ≠ none ∧ s.returncode = s.exited

variable {s : State}

theorem Sound.readChunk (h : Sound s) (ahead : ℕ) (hpipe : s.pipe ≠ []) : Sound (readChunk s ahead) := by
  have hclean : ∀ input, '\r' ∉ s.outputLines.flatten ++ (s.decoded ++ universalNewlines input) := by
    intro input
    rw [← List.append_assoc]
    exact fun hmem => (List.mem_append.mp hmem).elim h.clean (notMem_universalNewlines input)
  have hunended : ∀ {P : Prop}, s.line = some [] → P := fun hline => absurd (h.ended hline).2.1 hpipe
  rw [ShellCommand.readChunk]
  dsimp only
  split_ifs with hlast
  · refine ⟨hclean _, fun hwritten => ?_, le_rfl, h.closed_of_exited, h.unbound, hunended, h.drained, h.late, h.expired, h.left⟩
    -- the chunk ends in a carriage return that was written
    obtain ⟨hheld, htext⟩ := h.text hwritten
    rw [hheld, List.nil_append] at hlast
    refine absurd ?_ hwritten
    rw [← htext]
    exact List.mem_append_right _ (List.mem_of_mem_take (List.mem_of_getLast? hlast))
  · refine ⟨hclean _, fun hwritten => ?_, Nat.zero_le _, h.closed_of_exited, h.unbound, hunended, h.drained, h.late,
      h.expired, h.left⟩
    obtain ⟨hheld, htext⟩ := h.text hwritten
    have hpipe : '\r' ∉ s.pipe.take (ahead + 1) := by
      intro hmem
      rw [← htext] at hwritten
      exact hwritten (List.mem_append_right _ (List.mem_of_mem_take hmem))
    refine ⟨rfl, ?_⟩
    rw [hheld, List.nil_append, Files.universalNewlines_of_notMem hpipe, ← htext]
    simp only [List.append_assoc, List.take_append_drop]

theorem Sound.readLine (h : Sound s) (draining : Bool) {line rest : List Char} (hdecoded : s.decoded = line ++ rest)
    (hend : line = [] → s.closed = true ∧ s.pipe = [] ∧ s.held = [] ∧ rest = [])
    (hleft : draining = true → s.timedOut = true ∨ s.exited ≠ none ∧ s.returncode = s.exited) :
    Sound (readLine s draining line rest) := by
  have houtput : (if line = [] then s.outputLines else s.outputLines ++ [line]).flatten ++ rest =
      s.outputLines.flatten ++ s.decoded := by
    rw [hdecoded]
    split_ifs with hline
    · rw [hline, List.nil_append]
    · simp
  have hphase : (if draining = true then Phase.drain else Phase.poll) ≠ .done := by
    cases draining <;> decide
  constructor
  · rw [ShellCommand.readLine, houtput]
    exact h.clean
  · intro hwritten
    obtain ⟨hheld, htext⟩ := h.text hwritten
    refine ⟨hheld, ?_⟩
    rw [ShellCommand.readLine, houtput]
    exact htext
  · exact h.held_short
  · exact h.closed_of_exited
  · exact fun hline => absurd hline (by simp [ShellCommand.readLine])
  · exact fun hline => hend (Option.some.inj hline)
  · exact fun hdone => absurd hdone hphase
  · exact h.late
  · exact h.expired
  · intro hlater
    cases draining with
    | true => exact hleft rfl
    | false => simp [ShellCommand.readLine] at hlater

theorem Sound.readline (h : Sound s) {draining : Bool} (hphase : s.phase = .readline draining) (ahead : ℕ) :
    Sound (readline s draining ahead) := by
  have hleft : draining = true → s.timedOut = true ∨ s.exited ≠ none ∧ s.returncode = s.exited := by
    rintro rfl
    exact h.left (.inr (.inl hphase))
  rw [ShellCommand.readline]
  split_ifs with hline hpipe hclosed
  · exact h.readLine draining (firstLine_append hline) (fun hnil => absurd hnil (by simp)) hleft
  · exact h.readChunk ahead hpipe
  · have hflushed : Sound { s with held := [], decoded := s.decoded ++ universalNewlines s.held } := by
      refine ⟨?_, fun hwritten => ?_, Nat.zero_le _, h.closed_of_exited, h.unbound, fun hnil => ?_, h.drained, h.late,
        h.expired, h.left⟩
      · rw [← List.append_assoc]
        exact fun hmem => (List.mem_append.mp hmem).elim h.clean (notMem_universalNewlines _)
      · obtain ⟨hheld, htext⟩ := h.text hwritten
        refine ⟨rfl, ?_⟩
        rw [hheld, show universalNewlines [] = [] from rfl, List.append_nil]
        exact htext
      · obtain ⟨-, hempty, hheld, hdecoded⟩ := h.ended hnil
        exact ⟨hclosed, hempty, rfl, by rw [hheld, hdecoded]; rfl⟩
    exact hflushed.readLine draining (List.append_nil _).symm (fun _ => ⟨hclosed, not_not.mp hpipe, rfl, rfl⟩) hleft
  · exact h

theorem Sound.turn (h : Sound s) (ahead : ℕ) : Sound (turn s ahead) := by
  rw [ShellCommand.turn]
  split
  next hphase =>
    split
    next code hexited =>
      refine ⟨h.clean, h.text, h.held_short, h.closed_of_exited, h.unbound, h.ended, ?_, h.late, h.expired, fun _ => .inr ?_⟩
      · simp
      · simp [hexited]
    next hexited =>
      refine ⟨h.clean, h.text, h.held_short, h.closed_of_exited, h.unbound, h.ended, ?_, h.late, h.expired, ?_⟩ <;> simp
  next hphase =>
    split_ifs with hexpired
    · refine ⟨h.clean, h.text, h.held_short, h.closed_of_exited, h.unbound, h.ended, ?_, fun _ => h.expired hexpired,
        h.expired, fun _ => .inl rfl⟩
      simp
    · refine ⟨h.clean, h.text, h.held_short, h.closed_of_exited, h.unbound, h.ended, ?_, h.late, h.expired, ?_⟩ <;> simp
  next hphase =>
    split_ifs <;> refine ⟨h.clean, h.text, h.held_short, h.closed_of_exited, h.unbound, h.ended, ?_, h.late, h.expired, ?_⟩ <;>
      simp
  next draining hphase => exact h.readline hphase ahead
  next hphase =>
    have hleft := h.left (.inl hphase)
    split
    next => exact ⟨h.clean, h.text, h.held_short, h.closed_of_exited, h.unbound, h.ended, nofun, h.late, h.expired, fun _ => hleft⟩
    next hline =>
      refine ⟨h.clean, h.text, h.held_short, h.closed_of_exited, h.unbound, h.ended, fun _ => ?_, h.late, h.expired, fun _ => hleft⟩
      cases hs : s.line with
      | none => exact .inl rfl
      | some line =>
        cases line with
        | nil => exact .inr rfl
        | cons c cs => exact absurd hs (hline c cs)
  next => exact h

theorem Sound.step (h : Sound s) (e : Event) : Sound (step s e) := by
  cases e with
  | write text =>
    rw [ShellCommand.step]
    split_ifs with hopen
    · refine ⟨h.clean, fun hwritten => ?_, h.held_short, h.closed_of_exited, h.unbound, fun hline => ?_, h.drained, h.late,
        h.expired, h.left⟩
      · obtain ⟨hheld, htext⟩ := h.text fun hmem => hwritten (List.mem_append_left text hmem)
        refine ⟨hheld, ?_⟩
        rw [← htext]
        simp only [List.append_assoc]
      · exact absurd (h.ended hline).1 (by simp [hopen.2])
    · exact h
  | close =>
    exact ⟨h.clean, h.text, h.held_short, fun _ => rfl, h.unbound, fun hline => ⟨rfl, (h.ended hline).2⟩, h.drained, h.late,
      h.expired, h.left⟩
  | exit code =>
    rw [ShellCommand.step]
    split_ifs with hexited
    · refine ⟨h.clean, h.text, h.held_short, fun _ => rfl, h.unbound, fun hline => ⟨rfl, (h.ended hline).2⟩, h.drained,
        fun _ => by simp, fun _ => by simp, fun hphase => ?_⟩
      exact (h.left hphase).imp_right fun hleft => absurd hexited hleft.1
    · exact h
  | expire =>
    rw [ShellCommand.step]
    split_ifs with hexited
    · exact ⟨h.clean, h.text, h.held_short, h.closed_of_exited, h.unbound, h.ended, h.drained, h.late, fun _ => hexited, h.left⟩
    · exact h
  | turn ahead => exact h.turn ahead

theorem sound_start : Sound {} := by
  constructor <;> simp

theorem sound_run (events : List Event) : Sound (run events) := by
  induction events using List.reverseRecOn with
  | nil => exact sound_start
  | append_singleton events e ih =>
    rw [run, List.foldl_append]
    exact ih.step e

/-! ## What a run has done -/

theorem timedOut_readline (s : State) (draining : Bool) (ahead : ℕ) :
    (readline s draining ahead).timedOut = s.timedOut := by
  rw [readline, readChunk]
  dsimp only
  split_ifs <;> rfl

theorem timedOut_step (s : State) (e : Event) : (step s e).timedOut = false ↔ s.timedOut = false ∧ ¬ LooksLate s e := by
  cases e with
  | turn ahead =>
    rw [step, turn, LooksLate]
    cases hphase : s.phase with
    | readline draining => simp [timedOut_readline]
    | clock => cases hexpired : s.expired <;> simp
    | poll => cases s.exited <;> simp
    | select =>
      simp only [reduceCtorEq, false_and, and_false, not_false_eq_true, and_true]
      split_ifs <;> rfl
    | drain =>
      simp only [reduceCtorEq, false_and, and_false, not_false_eq_true, and_true]
      split <;> rfl
    | done => simp
  | write text =>
    rw [step, LooksLate]
    split_ifs <;> simp
  | close => simp [step, LooksLate]
  | exit code =>
    rw [step, LooksLate]
    split_ifs <;> simp
  | expire =>
    rw [step, LooksLate]
    split_ifs <;> simp

/-- The call times out when it looks at the clock too late. -/
theorem timedOut_run (events : List Event) :
    (run events).timedOut = false ↔ Runs.EachStep step {} (fun s e => ¬ LooksLate s e) events := by
  induction events using List.reverseRecOn with
  | nil => exact ⟨fun _ => Runs.eachStep_nil, fun _ => rfl⟩
  | append_singleton events e ih =>
    rw [Runs.eachStep_concat, ← ih, run, List.foldl_append]
    exact timedOut_step (run events) e

/-- Nothing is read, and nothing is about to be. -/
def Unread (s : State) : Prop := s.line = none ∧ ∀ draining, s.phase ≠ .readline draining

theorem phase_readChunk (s : State) (ahead : ℕ) : (readChunk s ahead).phase = s.phase := by
  rw [readChunk]
  dsimp only
  split_ifs <;> rfl

theorem not_unread_readline {s : State} {draining : Bool} (hphase : s.phase = .readline draining) (ahead : ℕ) :
    ¬ Unread (readline s draining ahead) := by
  rw [readline]
  split_ifs
  · exact fun h => absurd h.1 (Option.some_ne_none _)
  · exact fun h => h.2 draining ((phase_readChunk s ahead).trans hphase)
  · exact fun h => absurd h.1 (Option.some_ne_none _)
  · exact fun h => h.2 draining hphase

theorem unread_turn (s : State) (ahead : ℕ) : Unread (turn s ahead) ↔ Unread s ∧ ¬ Selects s (.turn ahead) := by
  rw [turn, Selects]
  cases hphase : s.phase with
  | readline draining =>
    have hread := not_unread_readline hphase ahead
    exact ⟨fun h => absurd h hread, fun h => absurd hphase (h.1.2 draining)⟩
  | poll => cases s.exited <;> simp [Unread, hphase]
  | clock =>
    dsimp only
    split_ifs <;> simp [Unread, hphase]
  | select =>
    dsimp only
    split_ifs with hready <;> simp [Unread, hphase, hready]
  | drain =>
    dsimp only
    split
    next c cs hline => simp [Unread, hline]
    next => simp [Unread, hphase]
  | done => simp

theorem unread_step (s : State) (e : Event) : Unread (step s e) ↔ Unread s ∧ ¬ Selects s e := by
  cases e with
  | turn ahead => exact unread_turn s ahead
  | write text =>
    rw [step]
    split_ifs <;> simp [Selects, Unread]
  | close => simp [step, Selects, Unread]
  | exit code =>
    rw [step]
    split_ifs <;> simp [Selects, Unread]
  | expire =>
    rw [step]
    split_ifs <;> simp [Selects, Unread]

theorem unread_run (events : List Event) :
    Unread (run events) ↔ Runs.EachStep step {} (fun s e => ¬ Selects s e) events := by
  induction events using List.reverseRecOn with
  | nil => exact ⟨fun _ => Runs.eachStep_nil, fun _ => ⟨rfl, by simp [run]⟩⟩
  | append_singleton events e ih =>
    rw [Runs.eachStep_concat, ← ih, run, List.foldl_append]
    exact unread_step (run events) e

/-! ## What is returned -/

theorem notMem_maybeTruncate {cs : List Char} (h : '\r' ∉ cs) : '\r' ∉ Truncation.maybeTruncate cs := by
  rw [Truncation.maybeTruncate]
  split_ifs
  · exact h
  · rw [Truncation.truncated_eq (by decide), CutMiddle.cutMiddle]
    intro hmem
    rcases List.mem_append.mp hmem with hmem | hmem
    · rcases List.mem_append.mp hmem with hmem | hmem
      · exact h (List.mem_of_mem_take hmem)
      · exact absurd hmem (by decide)
    · exact h (List.mem_of_mem_drop hmem)

/-- A call that has not timed out returns the exit code of the command, and what it has read. -/
theorem observation_of_done {s : State} (h : Sound s) (hdone : s.phase = .done) :
    (observation s).exitCode = s.exited.map (fun code => (code : Int)) ↔ s.timedOut = false := by
  rw [observation]
  dsimp only
  cases htimedOut : s.timedOut with
  | false =>
    obtain ⟨-, hcode⟩ := (h.left (.inr (.inr hdone))).resolve_left (by simp [htimedOut])
    simp [hcode]
  | true =>
    rw [if_pos rfl]
    cases hexited : s.exited with
    | none => exact absurd hexited (h.late htimedOut)
    | some code =>
      have hne : (-1 : Int) ≠ code := by omega
      exact ⟨fun heq => absurd (Option.some.inj heq) hne, fun hfalse => absurd hfalse (by decide)⟩

theorem content_of_done {s : State} (h : Sound s) (hdone : s.phase = .done) :
    (observation s).content = s.written ↔
      (s.written = [] ∨ s.line ≠ none) ∧ '\r' ∉ s.written ∧ Truncation.maybeTruncate s.written = s.written := by
  rw [observation]
  dsimp only
  have hempty : Truncation.maybeTruncate [] = [] := rfl
  have hclean : '\r' ∉ Truncation.maybeTruncate s.outputLines.flatten :=
    notMem_maybeTruncate fun hmem => h.clean (List.mem_append_left _ hmem)
  rcases h.drained hdone with hline | hline
  · rw [h.unbound hline, List.flatten_nil, hempty, hline]
    constructor
    · intro hwritten
      rw [← hwritten]
      exact ⟨.inl rfl, List.not_mem_nil, hempty⟩
    · rintro ⟨hwritten, -, -⟩
      exact (hwritten.resolve_right (not_not.mpr rfl)).symm
  · -- the end of the output was read, so all of a text without carriage returns was
    have hread : '\r' ∉ s.written → s.outputLines.flatten = s.written := by
      intro hwritten
      obtain ⟨-, hpipe, -, hdecoded⟩ := h.ended hline
      obtain ⟨-, htext⟩ := h.text hwritten
      rwa [hpipe, hdecoded, List.append_nil, List.append_nil] at htext
    constructor
    · intro hcontent
      have hwritten : '\r' ∉ s.written := by rwa [hcontent] at hclean
      rw [hread hwritten] at hcontent
      exact ⟨.inr (by simp [hline]), hwritten, hcontent⟩
    · rintro ⟨-, hwritten, hwhole⟩
      rw [hread hwritten, hwhole]

theorem inTime_iff {events : List Event} (hdone : (run events).phase = .done) :
    InTime events ↔ (run events).timedOut = false ∧ ((run events).written = [] ∨ (run events).line ≠ none) ∧
      '\r' ∉ (run events).written ∧ Truncation.maybeTruncate (run events).written = (run events).written := by
  have hunread : Unread (run events) ↔ (run events).line = none :=
    ⟨fun h => h.1, fun h => ⟨h, fun draining hphase => by simp [hdone] at hphase⟩⟩
  have hselects := not_congr (unread_run events)
  rw [hunread] at hselects
  constructor
  · intro h
    exact ⟨(timedOut_run events).mpr h.clock, h.selects.imp_right hselects.mpr, h.newlines, h.whole⟩
  · rintro ⟨hclock, hread, hnewlines, hwhole⟩
    exact ⟨(timedOut_run events).mp hclock, hread.imp_right hselects.mp, hnewlines, hwhole⟩

/-! ## It returns -/

/-- How many turns the reader is from its end, when it has read all there is. -/
def turnsLeft : Phase → Option (List Char) → ℕ
  | .clock, _ => 7
  | .select, _ => 6
  | .readline false, _ => 5
  | .poll, _ => 4
  | .drain, some (_ :: _) => 3
  | .readline true, _ => 2
  | .drain, _ => 1
  | .done, _ => 0

theorem turnsLeft_drain (line : Option (List Char)) : 0 < turnsLeft .drain line ∧ turnsLeft .drain line ≤ 3 := by
  rcases line with _ | _ | _ <;> simp [turnsLeft]

/-- A letter in the pipe is decoded, read and passed, each of which is a turn. -/
def remaining (s : State) : ℕ :=
  4 * s.pipe.length + 3 * s.held.length + 2 * s.decoded.length + turnsLeft s.phase s.line

theorem remaining_readChunk {s : State} (hheld : s.held.length ≤ 1) (hpipe : s.pipe ≠ []) (ahead : ℕ) :
    remaining (readChunk s ahead) < remaining s := by
  have htake : (s.pipe.take (ahead + 1)).length + (s.pipe.drop (ahead + 1)).length = s.pipe.length := by
    rw [← List.length_append, List.take_append_drop]
  have htaken : 0 < (s.pipe.take (ahead + 1)).length := by
    rw [List.length_take]
    have := List.length_pos_of_ne_nil hpipe
    omega
  rw [remaining, remaining, readChunk]
  dsimp only
  split_ifs with hlast
  · have hdecoded := length_universalNewlines_le (s.held ++ s.pipe.take (ahead + 1)).dropLast
    rw [List.length_dropLast, List.length_append] at hdecoded
    simp only [List.length_append, List.length_cons, List.length_nil]
    omega
  · have hdecoded := length_universalNewlines_le (s.held ++ s.pipe.take (ahead + 1))
    rw [List.length_append] at hdecoded
    simp only [List.length_append, List.length_nil]
    omega

/-- A line that is not empty is taken from the buffer. -/
theorem remaining_readLine {s s' : State} {draining : Bool} (hphase : s.phase = .readline draining) (hpipe : s'.pipe = s.pipe)
    {line rest : List Char} (hrest : 3 * s'.held.length + 2 * rest.length ≤ 3 * s.held.length + 2 * s.decoded.length)
    (hline : line ≠ [] → 3 * s'.held.length + 2 * rest.length + 2 ≤ 3 * s.held.length + 2 * s.decoded.length) :
    remaining (readLine s' draining line rest) < remaining s := by
  have hnew : remaining (readLine s' draining line rest) = 4 * s.pipe.length + 3 * s'.held.length + 2 * rest.length +
      turnsLeft (if draining = true then .drain else .poll) (some line) := by
    rw [← hpipe]
    rfl
  rw [hnew, remaining, hphase]
  cases draining with
  | false =>
    change _ + 4 < _ + 5
    omega
  | true =>
    cases line with
    | nil =>
      change _ + 1 < _ + 2
      omega
    | cons c cs =>
      have htaken := hline (List.cons_ne_nil c cs)
      change _ + 3 < _ + 2
      omega

theorem remaining_readline {s : State} {draining : Bool} (hphase : s.phase = .readline draining) (h : Sound s)
    (hexited : s.exited ≠ none) (ahead : ℕ) : remaining (readline s draining ahead) < remaining s := by
  rw [readline]
  split_ifs with hline hpipe hclosed
  · have hlength := congrArg List.length (firstLine_append hline)
    simp only [List.length_append, List.length_cons, List.length_nil] at hlength
    refine remaining_readLine hphase rfl ?_ fun _ => ?_ <;> omega
  · exact remaining_readChunk h.held_short hpipe ahead
  · refine remaining_readLine hphase ?_ ?_ fun hne => ?_
    · rfl
    · simp only [List.length_nil]
      omega
    · have hsome : s.decoded ≠ [] ∨ s.held ≠ [] := by
        by_contra hnone
        push Not at hnone
        rw [hnone.1, hnone.2] at hne
        exact hne rfl
      rcases hsome with hsome | hsome
      all_goals
        have := List.length_pos_of_ne_nil hsome
        simp only [List.length_nil]
        omega
  · exact absurd (h.closed_of_exited hexited) hclosed

/-- After the exit every turn brings the reader nearer to its end. -/
theorem remaining_turn {s : State} (h : Sound s) (hexited : s.exited ≠ none) (hdone : s.phase ≠ .done) (ahead : ℕ) :
    remaining (turn s ahead) < remaining s := by
  obtain ⟨hdrain, hdrainLe⟩ := turnsLeft_drain s.line
  have hleft {phase : Phase} (hphase : turnsLeft phase s.line < turnsLeft s.phase s.line) :
      4 * s.pipe.length + 3 * s.held.length + 2 * s.decoded.length + turnsLeft phase s.line < remaining s :=
    Nat.add_lt_add_left hphase _
  rw [turn]
  cases hphase : s.phase with
  | poll =>
    obtain ⟨code, hcode⟩ := Option.ne_none_iff_exists'.mp hexited
    rw [hcode]
    exact hleft (by rw [hphase]; exact Nat.lt_succ_of_le hdrainLe)
  | clock =>
    dsimp only
    split_ifs
    · exact hleft (by rw [hphase]; exact hdrainLe.trans_lt (by decide : 3 < 7))
    · exact hleft (by rw [hphase]; exact (by decide : 6 < 7))
  | select =>
    dsimp only
    rw [if_pos (.inr (h.closed_of_exited hexited))]
    exact hleft (by rw [hphase]; exact (by decide : 5 < 6))
  | readline draining => exact remaining_readline hphase h hexited ahead
  | drain =>
    dsimp only
    split
    next c cs hline => exact hleft (by rw [hphase, hline]; exact (by decide : 2 < 3))
    next => exact hleft (by rw [hphase]; exact hdrain)
  | done => exact absurd hphase hdone

theorem exited_turn (s : State) (ahead : ℕ) : (turn s ahead).exited = s.exited := by
  have hread (draining : Bool) : (readline s draining ahead).exited = s.exited := by
    rw [readline, readChunk]
    dsimp only
    split_ifs <;> rfl
  rw [turn]
  split
  next => split <;> rfl
  next => split_ifs <;> rfl
  next => split_ifs <;> rfl
  next => exact hread _
  next => split <;> rfl
  next => rfl

theorem done_turns {s : State} (hdone : s.phase = .done) (turns : List ℕ) :
    ((turns.map Event.turn).foldl step s).phase = .done := by
  induction turns with
  | nil => exact hdone
  | cons ahead turns ih =>
    have hsame : turn s ahead = s := by
      rw [turn, hdone]
    rw [List.map_cons, List.foldl_cons, step, hsame]
    exact ih

/-- Once the command has exited, the call returns after as many turns. -/
theorem done_of_turns {s : State} (h : Sound s) (hexited : s.exited ≠ none) (turns : List ℕ)
    (hturns : remaining s ≤ turns.length) : ((turns.map Event.turn).foldl step s).phase = .done := by
  induction turns generalizing s with
  | nil =>
    by_contra hdone
    have := remaining_turn h hexited hdone 0
    rw [List.length_nil] at hturns
    omega
  | cons ahead turns ih =>
    by_cases hdone : s.phase = .done
    · exact done_turns hdone (ahead :: turns)
    · have hless := remaining_turn h hexited hdone ahead
      rw [List.length_cons] at hturns
      refine ih (h.turn ahead) ?_ (Nat.le_of_lt_succ (hless.trans_le hturns))
      rwa [step, exited_turn]

/-- A run in which the command has exited comes to the return of the call. It returns the whole text and the exit code
exactly when it is in time. -/
theorem returns_and_whole_iff (events : List Event) :
    ((run events).exited ≠ none → ∃ k, ∀ turns : List ℕ, k ≤ turns.length →
      (run (events ++ turns.map Event.turn)).phase = .done) ∧
    (ReturnsWhole events ↔ ((run events).phase = .done → InTime events)) := by
  refine ⟨fun hexited => ⟨remaining (run events), fun turns hturns => ?_⟩, forall_congr' fun hdone => ?_⟩
  · rw [run, List.foldl_append]
    exact done_of_turns (sound_run events) hexited turns hturns
  · rw [inTime_iff hdone, ← observation_of_done (sound_run events) hdone, ← content_of_done (sound_run events) hdone]
    constructor
    · intro h
      rw [h]
      exact ⟨rfl, rfl⟩
    · rintro ⟨hcode, hcontent⟩
      rw [← hcode, ← hcontent]

/-- The command writes a line and exits before the first poll: nothing is read. -/
theorem not_returnsWhole :
    (run [.write "hello\n".toList, .exit 0, .turn 0, .turn 0]).phase = .done ∧
      observation (run [.write "hello\n".toList, .exit 0, .turn 0, .turn 0]) = ⟨[], some 0⟩ ∧
      ¬ ReturnsWhole [.write "hello\n".toList, .exit 0, .turn 0, .turn 0] := by
  refine ⟨by decide, by decide, fun h => ?_⟩
  exact absurd (congrArg Observation.content (h (by decide))) (by decide)

end OpenHands.CLIRuntime.ShellCommand
