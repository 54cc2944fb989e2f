import OpenHandsSWE.Runtime.BashOutput

/-! A command of a PowerShell session runs as a job: each call returns what the job has printed since the one before, and
nothing is printed to a stream of errors. -/

namespace OpenHands.PowershellJob

open Text Bash

/-! ## The job -/

inductive JobState where
  | notStarted | running | completed | failed | stopped
deriving DecidableEq

def JobState.over (state : JobState) : Bool := state ∉ [.running, .notStarted]

/-- What a job has printed at any time, and when and how it ends. -/
structure Job where
  printed : ℕ → List (List Char)
  begins : ℕ
  ends : ℕ
  final : JobState
  grows : ∀ t u, t ≤ u → printed t <+: printed u
  closed : ∀ t, ends ≤ t → printed t = printed ends
  final_over : final.over = true

def Job.state (job : Job) (t : ℕ) : JobState :=
  if job.ends ≤ t then job.final else if job.begins ≤ t then .running else .notStarted

/-- What `Receive-Job` returns, and how much is consumed then. -/
def receiveJobOutput (job : Job) (keep : Bool) (consumed t : ℕ) : List Char × ℕ :=
  (List.intercalate ['\n'] ((job.printed t).drop consumed), if keep then consumed else (job.printed t).length)

/-! ## The calls -/

/-- A round of a monitoring loop: it is left, or the output is polled and then the state is read. -/
inductive Turn where
  | shutdown
  | timeout
  | poll (receivedAt stateAt : ℕ)

def Turn.times : Turn → List ℕ
  | .poll receivedAt stateAt => [receivedAt, stateAt]
  | _ => []

/-- A call, and when what it does is done: the state is read first, and the output last but for the state of a stopped job. -/
structure Call where
  command : List Char
  timeout : Seconds
  isInput : Bool
  stateAt : ℕ
  turns : List Turn
  receivedAt : ℕ
  stoppedAt : ℕ

def Call.times (call : Call) : List ℕ :=
  call.stateAt :: (call.turns.flatMap Turn.times ++ [call.receivedAt, call.stoppedAt])

/-- The command without blanks and without an ampersand at its end. -/
def Call.given (call : Call) : List Char :=
  let command := strip call.command
  if ['&'] <:+ command then strip command.dropLast else command

structure Session where
  active : Bool
  lastJobOutput : List Char
  /-- How many items of the active job are consumed. -/
  consumed : ℕ

inductive Observation where
  | output (text command : List Char) (metadata : CmdOutputMetadata)
  | error (content : List Char)

def completed (code : ℤ) : String := "[The command completed with exit code " ++ toString code ++ ".]"

def timedOut (timeout : Seconds) : String :=
  "\n[The command timed out after " ++ timeout.text ++ " seconds. " ++ BashSession.TIMEOUT_MESSAGE_TEMPLATE ++ "]"

def exitCode (state : JobState) : ℤ := if state = .completed then 0 else 1

/-- How a monitoring loop is left. -/
inductive Left where
  | shutdown
  | timedOut
  | finished (state : JobState)

/-! ## Starting a job -/

/-- The loop that watches a new job; it has not returned when the rounds are used up. -/
def monitor (job : Job) (consumed : ℕ) : List Turn → List Char → Option (Left × List Char)
  | [], _ => none
  | .shutdown :: _, latest => some (.shutdown, latest)
  | .timeout :: _, latest => some (.timedOut, latest)
  | .poll receivedAt stateAt :: turns, _ =>
    let polled := (receiveJobOutput job true consumed receivedAt).1
    if (job.state stateAt).over then some (.finished (job.state stateAt), polled) else monitor job consumed turns polled

def failedToStart : List Char := "Failed to start PowerShell job.\n[ERRORS]\n".toList

def startJob (job : Job) (call : Call) : Option (Observation × Session) :=
  let s : Session := { active := true, lastJobOutput := [], consumed := 0 }
  if job.state call.stateAt = .failed then
    -- the output of the job is received, but not returned
    some (.error failedToStart, { s with active := false, consumed := (receiveJobOutput job false 0 call.receivedAt).2 })
  else
    (monitor job s.consumed call.turns []).map fun left =>
      match left.1 with
      | .finished state =>
        let final := receiveJobOutput job false s.consumed call.receivedAt
        (.output (removePrefix final.1 s.lastJobOutput) call.given
          { exitCode := exitCode state, suffix := "\n" ++ completed (exitCode state) },
          { s with active := false, consumed := final.2 })
      | .timedOut =>
        (.output (removePrefix left.2 s.lastJobOutput) call.given { suffix := timedOut call.timeout },
          { s with lastJobOutput := left.2 })
      | .shutdown =>
        (.output (removePrefix left.2 s.lastJobOutput) call.given
          { suffix := "\n[Command execution cancelled due to shutdown signal. Exit Code: -1]" },
          { s with lastJobOutput := left.2 })

/-! ## While a job is active -/

def stopActiveJob (job : Job) (s : Session) (call : Call) : Observation × Session :=
  let final := receiveJobOutput job false s.consumed call.receivedAt
  let code : ℤ := if job.state call.stoppedAt ∈ [.stopped, .completed] then 0 else 1
  (.output (strip final.1) "C-c".toList
    { exitCode := code
      suffix := "\n[The command completed with exit code " ++ toString code ++ ". CTRL+C was sent.]" },
    { s with active := false, consumed := final.2 })

/-- The new part of what is polled, relative to what was polled before. -/
def newOutput (polled latest last : List Char) : List Char :=
  if polled = latest then [] else if latest <+: polled then polled.drop latest.length else removePrefix polled last

def addChunk (chunks : List (List Char)) (new : List Char) : List (List Char) :=
  if strip new = [] then chunks else chunks ++ [strip new]

/-- The loop that watches the active job: what it polled last, and the new parts. -/
def check (job : Job) (s : Session) : List Turn → List Char → List (List Char) → Option (Left × List Char × List (List Char))
  | [], _, _ => none
  | .shutdown :: _, latest, chunks => some (.shutdown, latest, chunks)
  | .timeout :: _, latest, chunks => some (.timedOut, latest, chunks)
  | .poll receivedAt stateAt :: turns, latest, chunks =>
    let polled := (receiveJobOutput job true s.consumed receivedAt).1
    let chunks := addChunk chunks (newOutput polled latest s.lastJobOutput)
    if (job.state stateAt).over then some (.finished (job.state stateAt), polled, chunks)
    else check job s turns polled chunks

/-- The output that is left when the job has finished, relative to what was polled last. -/
def finalChunk (final latest last : List Char) : List Char :=
  if latest <+: final then final.drop latest.length else if final = [] then [] else removePrefix final last

def below : String := "[Below is the output of the previous command.]\n"

def checkActiveJob (job : Job) (s : Session) (call : Call) : Option (Observation × Session) :=
  (check job s call.turns s.lastJobOutput []).map fun left =>
    let content := strip (List.intercalate ['\n'] left.2.2)
    match left.1 with
    | .finished state =>
      let final := receiveJobOutput job false s.consumed call.receivedAt
      let chunk := strip (finalChunk final.1 left.2.1 s.lastJobOutput)
      let content := if chunk = [] then content else List.intercalate ['\n'] ([content, chunk].filter (· ≠ []))
      (.output content [] { exitCode := exitCode state, pre := below, suffix := "\n" ++ completed (exitCode state) },
        { active := false, lastJobOutput := [], consumed := final.2 })
    | _ =>
      (.output content [] { pre := below, suffix := timedOut call.timeout }, { s with lastJobOutput := left.2.1 })

/-- A command that cannot be run while the job runs: it is answered with the new output. -/
def reject (job : Job) (s : Session) (call : Call) (metadata : CmdOutputMetadata) : Observation × Session :=
  let cumulative := (receiveJobOutput job true s.consumed call.receivedAt).1
  (.output (strip (removePrefix cumulative s.lastJobOutput)) call.command metadata, { s with lastJobOutput := cumulative })

def notProcessed (command : List Char) : String :=
  "\\n[Your input command '" ++ .ofList command ++ "' was NOT processed. Direct input to running processes (is_input=True) " ++
    "is not supported by this PowerShell session implementation. You can use C-c to stop the process.]"

def notExecuted (command : List Char) : String :=
  "\n[Your command \"" ++ .ofList command ++ "\" is NOT executed. " ++
    "The previous command is still running - You CANNOT send new commands until the previous command is completed. " ++
    "By setting `is_input` to `true`, you can interact with the current process: " ++ BashSession.TIMEOUT_MESSAGE_TEMPLATE ++ "]"

def handleActiveJob (job : Job) (s : Session) (call : Call) : Option (Observation × Session) :=
  if (job.state call.stateAt).over then
    let final := receiveJobOutput job false s.consumed call.receivedAt
    -- what was remembered is forgotten before the new part is taken
    let s := { active := false, lastJobOutput := [], consumed := final.2 : Session }
    let code := exitCode (job.state call.stateAt)
    some (.output (strip (removePrefix final.1 s.lastJobOutput)) call.command
      { exitCode := code, pre := "[Below is the output of the previous command.]\\n", suffix := "\\n" ++ completed code }, s)
  else if call.given = [] then checkActiveJob job s call
  else if call.given = "C-c".toList then some (stopActiveJob job s call)
  else if call.isInput then
    some (reject job s call
      { pre := "[Below is the output of the previous command.]\\n", suffix := notProcessed call.given })
  else some (reject job s call { pre := below, suffix := notExecuted call.given })

/-- When no job is active the given one is that of the command; those that cannot be parsed or change the location are left
out. -/
def execute (job : Job) (s : Session) (call : Call) : Option (Observation × Session) :=
  if s.active then handleActiveJob job s call
  else if call.given = [] then
    some (.output "ERROR: No previous running command to retrieve logs from.".toList [] { exitCode := 0 }, s)
  else if ['C', '-'] <+: call.given ∧ call.given.length = 3 then
    some (.error "ERROR: No previous running command to interact with.".toList, s)
  else startJob job call

/-! ## Delivery -/

def Observation.text : Observation → List Char
  | .output text _ _ => text
  | .error content => content

/-- The output of a command is cut when it is long. -/
def Observation.content : Observation → List Char
  | .output text _ _ => Truncation.maybeTruncate text
  | .error content => content

/-- The observation reports the end of the job. -/
def Observation.final : Observation → Bool
  | .output _ _ metadata => metadata.exitCode ≠ -1
  | .error _ => true

/-- The two characters of an escaped newline are removed. -/
def dropEscapes : List Char → List Char
  | [] => []
  | '\\' :: 'n' :: cs => dropEscapes cs
  | c :: cs => c :: dropEscapes cs

def visible (cs : List Char) : List Char := dropEscapes (bare cs)

def Job.text (job : Job) (t : ℕ) : List Char := List.intercalate ['\n'] (job.printed t)

def Job.output (job : Job) : List Char := job.text job.ends

def observe (job : Job) : Session → List Call → Option (List Observation)
  | _, [] => some []
  | s, call :: calls => (execute job s call).bind fun next => (observe job next.2 calls).map (next.1 :: ·)

/-- A command and the calls after it, up to the first that reports the end of its job. -/
structure Run where
  job : Job
  lastJobOutput : List Char
  consumed : ℕ
  first : Call
  later : List Call
  nonempty : first.given ≠ []
  not_control : ¬ (['C', '-'] <+: first.given ∧ first.given.length = 3)
  foreground : ¬ ['&'] <:+ strip first.command
  ordered : ((first :: later).flatMap Call.times).Pairwise (· ≤ ·)
  /-- `Stop-Job` ends the job. -/
  stopped : ∀ call ∈ later, call.given = "C-c".toList → job.ends ≤ call.receivedAt
  observations : List Observation
  observed : observe job ⟨false, lastJobOutput, consumed⟩ (first :: later) = some observations
  unfinished : ∀ o ∈ observations.dropLast, o.final = false
  finished : ∀ o ∈ observations.getLast?, o.final = true

def Run.DeliveredOnce (run : Run) : Prop :=
  visible (run.observations.flatMap Observation.content) = visible run.job.output

/-! ## Conditions -/

/-- A text that may stand twice in front of what it begins. -/
def Unseen (cs : List Char) : Prop := dropEscapes cs = [] ∨ ∃ inner, cs = 'n' :: (inner ++ ['\\']) ∧ dropEscapes inner = []

/-- The call does not report the end in a way that returns what was returned before, or nothing at all. -/
def ReturnsRest (job : Job) (s : Session) (call : Call) : Prop :=
  if s.active then (job.state call.stateAt).over = true ∨ call.given = "C-c".toList → Unseen (bare s.lastJobOutput)
  else job.state call.stateAt = .failed → visible failedToStart = visible job.output

/-- Every call meets the condition in the session that it finds. -/
def EachReturnsRest (job : Job) : Session → List Call → Prop
  | _, [] => True
  | s, call :: calls =>
    ReturnsRest job s call ∧ ∀ next ∈ execute job s call, EachReturnsRest job next.2 calls

def Run.Uncut (run : Run) : Prop := ∀ o ∈ run.observations, o.content = o.text

def Run.ReturnsRest (run : Run) : Prop := EachReturnsRest run.job ⟨false, run.lastJobOutput, run.consumed⟩ (run.first :: run.later)

/-- What is cut is made up for: the job has printed the notice itself. -/
structure Run.MadeUp (run : Run) : Prop where
  cut : ¬ run.Uncut
  notice : visible Truncation.notice <:+: visible run.job.output
  same : visible (run.observations.flatMap Observation.content) = visible run.job.output

/-! ## Visible text -/

section

variable {us vs : List Char}

theorem dropEscapes_cons {c : Char} (h : ¬ (c = '\\' ∧ vs.head? = some 'n')) : dropEscapes (c :: vs) = c :: dropEscapes vs := by
  rw [dropEscapes.eq_3]
  rintro cs rfl rfl
  exact h ⟨rfl, rfl⟩

/-- Texts are joined without a new escape unless one ends and the other begins like one. -/
theorem dropEscapes_append (h : ¬ (us.getLast? = some '\\' ∧ vs.head? = some 'n')) :
    dropEscapes (us ++ vs) = dropEscapes us ++ dropEscapes vs := by
  induction us using dropEscapes.induct with
  | case1 => rfl
  | case2 cs ih =>
    refine ih fun hends => h ⟨?_, hends.2⟩
    rw [List.getLast?_cons_cons, List.getLast?_cons, hends.1]
    rfl
  | case3 c cs hne ih =>
    have hescape : ¬ (c = '\\' ∧ cs.head? = some 'n') := by
      rintro ⟨rfl, hhead⟩
      obtain ⟨ds, rfl⟩ := List.head?_eq_some_iff.mp hhead
      exact hne ds rfl rfl
    rw [dropEscapes_cons hescape, List.cons_append]
    cases cs with
    | nil => exact dropEscapes_cons fun hends => h ⟨by rw [hends.1]; rfl, hends.2⟩
    | cons d ds =>
      have hnext : ¬ (c = '\\' ∧ (d :: ds ++ vs).head? = some 'n') := hescape
      rw [dropEscapes_cons hnext, ih fun hends => h ⟨by rw [List.getLast?_cons_cons, hends.1], hends.2⟩]
      rfl

theorem dropEscapes_n (cs : List Char) : dropEscapes ('n' :: cs) = 'n' :: dropEscapes cs :=
  dropEscapes_cons fun h => absurd h.1 (by decide)

theorem dropEscapes_pair (us vs : List Char) : dropEscapes (us ++ '\\' :: 'n' :: vs) = dropEscapes us ++ dropEscapes vs := by
  have hpair : dropEscapes ('\\' :: 'n' :: vs) = dropEscapes vs := rfl
  have hhead : ¬ (us.getLast? = some '\\' ∧ ('\\' :: 'n' :: vs).head? = some 'n') := fun h => absurd (Option.some.inj h.2) (by decide)
  rw [dropEscapes_append hhead, hpair]

/-- A text stands twice in front of what it begins without being seen. -/
theorem dropEscapes_twice_iff (hbegins : us <+: vs) : dropEscapes (us ++ vs) = dropEscapes vs ↔ Unseen us := by
  obtain ⟨rest, rfl⟩ := hbegins
  by_cases hjoin : us.getLast? = some '\\' ∧ us.head? = some 'n'
  · obtain ⟨hlast, hhead⟩ := hjoin
    obtain ⟨inner, rfl⟩ : ∃ inner, us = 'n' :: (inner ++ ['\\']) := by
      obtain ⟨tail, rfl⟩ := List.head?_eq_some_iff.mp hhead
      have htail : tail ≠ [] := by
        rintro rfl
        exact absurd (Option.some.inj hlast) (by decide)
      obtain ⟨c, cs, rfl⟩ := List.exists_cons_of_ne_nil htail
      rw [List.getLast?_cons_cons] at hlast
      obtain ⟨inner, hinner⟩ := List.getLast?_eq_some_iff.mp hlast
      exact ⟨inner, by rw [hinner]⟩
    have hleft : dropEscapes ('n' :: (inner ++ ['\\']) ++ ('n' :: (inner ++ ['\\']) ++ rest)) =
        'n' :: (dropEscapes inner ++ dropEscapes (inner ++ ['\\'] ++ rest)) := by
      have hpair := dropEscapes_pair ('n' :: inner) (inner ++ ['\\'] ++ rest)
      rw [dropEscapes_n] at hpair
      simp only [List.cons_append, List.append_assoc, List.nil_append] at hpair ⊢
      exact hpair
    have hright : dropEscapes ('n' :: (inner ++ ['\\']) ++ rest) = 'n' :: dropEscapes (inner ++ ['\\'] ++ rest) := dropEscapes_n _
    rw [hleft, hright, List.cons.injEq, and_iff_right rfl, List.append_left_eq_self]
    constructor
    · exact fun h => .inr ⟨inner, rfl, h⟩
    · rintro (h | ⟨other, heq, h⟩)
      · rw [dropEscapes_n] at h
        exact absurd h (List.cons_ne_nil _ _)
      · obtain rfl := List.append_cancel_right (List.cons.inj heq).2
        exact h
  · have hfirst : ¬ (us.getLast? = some '\\' ∧ (us ++ rest).head? = some 'n') := by
      rintro ⟨hlast, hhead⟩
      cases us with
      | nil => exact absurd hlast (by simp)
      | cons c us => exact hjoin ⟨hlast, hhead⟩
    rw [dropEscapes_append hfirst, List.append_left_eq_self]
    refine ⟨.inl, fun h => h.resolve_right ?_⟩
    rintro ⟨inner, rfl, -⟩
    exact hjoin ⟨by rw [← List.cons_append, List.getLast?_concat], rfl⟩

theorem bare_strip (cs : List Char) : bare (strip cs) = bare cs := by rw [strip, bare_rstrip, bare_lstrip]

theorem bare_intercalate (ps : List (List Char)) : bare (List.intercalate ['\n'] ps) = ps.flatMap bare := by
  induction ps with
  | nil => rfl
  | cons p ps ih =>
    by_cases hps : ps = []
    · subst hps
      simp [List.intercalate]
    · have hnewline : bare ['\n'] = [] := by decide
      rw [intercalate_cons ['\n'] p hps, bare_append, bare_append, hnewline, List.append_nil, ih, List.flatMap_cons]

theorem intercalate_begins {ps qs : List (List Char)} (h : ps <+: qs) :
    List.intercalate ['\n'] ps <+: List.intercalate ['\n'] qs := by
  obtain ⟨rest, rfl⟩ := h
  by_cases hps : ps = []
  · rw [hps]
    exact List.nil_prefix
  by_cases hrest : rest = []
  · rw [hrest, List.append_nil]
  rw [intercalate_append ['\n'] hps hrest, List.append_assoc]
  exact List.prefix_append _ _

end

/-! ## The job in time -/

section

variable {job : Job} {t u : ℕ}

theorem text_begins (job : Job) (h : t ≤ u) : job.text t <+: job.text u := intercalate_begins (job.grows t u h)

theorem text_of_ends_le (h : job.ends ≤ t) : job.text t = job.output := by rw [Job.text, job.closed t h, Job.output, Job.text]

theorem text_begins_output (job : Job) (t : ℕ) : job.text t <+: job.output := by
  rw [← text_of_ends_le (Nat.le_max_right t job.ends)]
  exact text_begins job (Nat.le_max_left t job.ends)

theorem over_state_iff (job : Job) (t : ℕ) : (job.state t).over = true ↔ job.ends ≤ t := by
  rw [Job.state]
  split_ifs with hends hbegins
  · exact iff_of_true job.final_over hends
  · exact iff_of_false (by decide) hends
  · exact iff_of_false (by decide) hends

@[simp] theorem receive_keep (job : Job) (t : ℕ) : receiveJobOutput job true 0 t = (job.text t, 0) := rfl

@[simp] theorem receive_text (job : Job) (keep : Bool) (t : ℕ) : (receiveJobOutput job keep 0 t).1 = job.text t := rfl

end

/-! ## One call -/

section

variable {job : Job} {s : Session} {call : Call}

/-- No time of the call is after this one. -/
def Until (times : List ℕ) (t : ℕ) : Prop := ∀ u ∈ times, u ≤ t

/-- A new job is watched: what was polled last begins what is polled later, and the job is over when the loop has seen so. -/
theorem monitor_spec {turns : List Turn} {latest : List Char} {left : Left × List Char}
    (h : monitor job 0 turns latest = some left) {t : ℕ} (hturns : Until (turns.flatMap Turn.times) t) (hlatest : latest <+: job.text t) :
    left.2 <+: job.text t ∧ ∀ state, left.1 = .finished state → job.ends ≤ t := by
  induction turns generalizing latest with
  | nil => cases h
  | cons turn turns ih =>
    have hlater : Until (turns.flatMap Turn.times) t := fun u hu => hturns u (List.mem_append_right _ hu)
    cases turn with
    | shutdown =>
      obtain rfl := Option.some.inj h
      exact ⟨hlatest, fun _ hstate => by cases hstate⟩
    | timeout =>
      obtain rfl := Option.some.inj h
      exact ⟨hlatest, fun _ hstate => by cases hstate⟩
    | poll receivedAt stateAt =>
      have hreceived : receivedAt ≤ t := hturns _ List.mem_cons_self
      have hstate : stateAt ≤ t := hturns _ (List.mem_cons_of_mem _ List.mem_cons_self)
      rw [monitor] at h
      dsimp only [receive_keep] at h
      split_ifs at h with hover
      · obtain rfl := Option.some.inj h
        exact ⟨text_begins job hreceived, fun _ _ => ((over_state_iff job stateAt).mp hover).trans hstate⟩
      · exact ih h hlater (text_begins job hreceived)

theorem newOutput_eq {polled latest : List Char} (h : latest <+: polled) (last : List Char) : latest ++ newOutput polled latest last = polled := by
  rw [newOutput]
  split_ifs with heq
  · rw [heq, List.append_nil]
  · exact (List.prefix_append_drop h).symm

theorem bare_addChunk (chunks : List (List Char)) (new : List Char) :
    (addChunk chunks new).flatMap bare = chunks.flatMap bare ++ bare new := by
  rw [addChunk]
  split_ifs with hnil
  · rw [strip_eq_nil_iff.mp hnil, List.append_nil]
  · rw [List.flatMap_append, List.flatMap_singleton, bare_strip]

/-- The active job is watched: the new parts are what was printed since the last call. -/
theorem check_spec (hconsumed : s.consumed = 0) {turns : List Turn} {latest : List Char} {chunks : List (List Char)}
    {left : Left × List Char × List (List Char)} (h : check job s turns latest chunks = some left) {now t : ℕ}
    (hturns : (now :: turns.flatMap Turn.times).Pairwise (· ≤ ·)) (huntil : Until (now :: turns.flatMap Turn.times) t)
    (hlatest : latest <+: job.text now) (hchunks : bare s.lastJobOutput ++ chunks.flatMap bare = bare latest) :
    left.2.1 <+: job.text t ∧ bare s.lastJobOutput ++ left.2.2.flatMap bare = bare left.2.1 ∧
      ∀ state, left.1 = .finished state → job.ends ≤ t := by
  induction turns generalizing latest chunks now with
  | nil => cases h
  | cons turn turns ih =>
    have hnow : now ≤ t := huntil now List.mem_cons_self
    cases turn with
    | shutdown =>
      obtain rfl := Option.some.inj h
      exact ⟨hlatest.trans (text_begins job hnow), hchunks, fun _ hstate => by cases hstate⟩
    | timeout =>
      obtain rfl := Option.some.inj h
      exact ⟨hlatest.trans (text_begins job hnow), hchunks, fun _ hstate => by cases hstate⟩
    | poll receivedAt stateAt =>
      obtain ⟨hfirst, hrest⟩ := List.pairwise_cons.mp hturns
      obtain ⟨hsecond, hrest⟩ := List.pairwise_cons.mp hrest
      have hreceived : now ≤ receivedAt := hfirst _ List.mem_cons_self
      have hstate : receivedAt ≤ stateAt := hsecond _ List.mem_cons_self
      have hlast : stateAt ≤ t := huntil _ (List.mem_cons_of_mem _ (List.mem_cons_of_mem _ List.mem_cons_self))
      have hpolled : latest <+: job.text receivedAt := hlatest.trans (text_begins job hreceived)
      have hnew : bare s.lastJobOutput ++ (addChunk chunks (newOutput (job.text receivedAt) latest s.lastJobOutput)).flatMap bare =
          bare (job.text receivedAt) := by
        rw [bare_addChunk, ← List.append_assoc, hchunks, ← bare_append, newOutput_eq hpolled]
      rw [check, hconsumed] at h
      dsimp only [receive_keep] at h
      split_ifs at h with hover
      · obtain rfl := Option.some.inj h
        exact ⟨text_begins job (hstate.trans hlast), hnew, fun _ _ => ((over_state_iff job stateAt).mp hover).trans hlast⟩
      · exact ih h hrest (fun u hu => huntil u (List.mem_cons_of_mem _ (List.mem_cons_of_mem _ hu)))
          (text_begins job hstate) hnew

/-- What is remembered while the job is active. -/
structure Remembers (job : Job) (s : Session) (now : ℕ) : Prop where
  active : s.active = true
  consumed : s.consumed = 0
  begins : s.lastJobOutput <+: job.text now

/-- The call is not one that finds the job finished at once or stops it. -/
def Watched (job : Job) (call : Call) : Prop := ¬ ((job.state call.stateAt).over = true ∨ call.given = "C-c".toList)

/-- The answer of a call while the job is active: what was printed since the last call, or all output once more. -/
inductive Answers (job : Job) (s : Session) (call : Call) (o : Observation) (s' : Session) : Prop where
  | goes (unfinished : o.final = false) (watched : Watched job call) (remembers : ∀ t, Until call.times t → Remembers job s' t)
    (new : bare s.lastJobOutput ++ bare o.text = bare s'.lastJobOutput)
  | rest (finished : o.final = true) (watched : Watched job call) (rest : bare s.lastJobOutput ++ bare o.text = bare job.output)
  | all (finished : o.final = true) (unwatched : ¬ Watched job call) (all : bare o.text = bare job.output)

/-- The answer of the call that starts the job: nothing of the output when it has failed at once. -/
inductive Starts (job : Job) (call : Call) (o : Observation) (s : Session) : Prop where
  | goes (unfinished : o.final = false) (started : job.state call.stateAt ≠ .failed)
    (remembers : ∀ t, Until call.times t → Remembers job s t) (new : bare o.text = bare s.lastJobOutput)
  | all (finished : o.final = true) (started : job.state call.stateAt ≠ .failed) (all : bare o.text = bare job.output)
  | failed (finished : o.final = true) (failed : job.state call.stateAt = .failed) (text : o.text = failedToStart)

theorem Call.ordered_turns (h : call.times.Pairwise (· ≤ ·)) :
    (call.stateAt :: call.turns.flatMap Turn.times).Pairwise (· ≤ ·) := (List.pairwise_append.mp h).1

theorem Call.until_receivedAt (h : call.times.Pairwise (· ≤ ·)) :
    Until (call.stateAt :: call.turns.flatMap Turn.times) call.receivedAt := fun u hu =>
  (List.pairwise_append.mp h).2.2 u hu _ List.mem_cons_self

theorem Call.receivedAt_mem (call : Call) : call.receivedAt ∈ call.times :=
  List.mem_append_right (call.stateAt :: call.turns.flatMap Turn.times) List.mem_cons_self

theorem Call.turns_subset (call : Call) : call.stateAt :: call.turns.flatMap Turn.times ⊆ call.times :=
  List.subset_append_left _ _

theorem exitCode_ne (state : JobState) : exitCode state ≠ -1 := by
  rw [exitCode]
  split_ifs <;> decide

theorem final_exitCode (text command : List Char) (state : JobState) (pre suffix : String) :
    (Observation.output text command { exitCode := exitCode state, pre, suffix }).final = true :=
  decide_eq_true (exitCode_ne state)

theorem finalChunk_eq {final latest : List Char} (h : latest <+: final) (last : List Char) :
    latest ++ finalChunk final latest last = final := by
  rw [finalChunk, if_pos h]
  exact (List.prefix_append_drop h).symm

theorem append_removePrefix {p cs : List Char} (h : p <+: cs) : p ++ removePrefix cs p = cs := by
  rw [removePrefix, if_pos h]
  exact (List.prefix_append_drop h).symm

theorem removePrefix_nil (cs : List Char) : removePrefix cs [] = cs := append_removePrefix List.nil_prefix

theorem startJob_starts (hordered : call.times.Pairwise (· ≤ ·)) {next : Observation × Session} (h : startJob job call = some next) :
    Starts job call next.1 next.2 := by
  rw [startJob] at h
  dsimp only at h
  split_ifs at h with hfailed
  · obtain rfl := Option.some.inj h
    exact .failed rfl hfailed rfl
  · obtain ⟨⟨how, latest⟩, hleft, rfl⟩ := Option.map_eq_some_iff.mp h
    have hlatest (t : ℕ) (ht : Until call.times t) : latest <+: job.text t :=
      (monitor_spec hleft (fun u hu => ht u (call.turns_subset (List.mem_cons_of_mem _ hu))) List.nil_prefix).1
    have hends := (monitor_spec hleft (fun u hu => Call.until_receivedAt hordered u (List.mem_cons_of_mem _ hu)) List.nil_prefix).2
    cases how with
    | finished state =>
      refine .all (final_exitCode _ _ _ _ _) hfailed ?_
      dsimp only [Observation.text]
      rw [removePrefix_nil, receive_text, text_of_ends_le (hends state rfl)]
    | shutdown => exact .goes rfl hfailed (fun t ht => ⟨rfl, rfl, hlatest t ht⟩) (congrArg bare (removePrefix_nil latest))
    | timedOut => exact .goes rfl hfailed (fun t ht => ⟨rfl, rfl, hlatest t ht⟩) (congrArg bare (removePrefix_nil latest))

theorem bare_joined (content chunk : List Char) :
    bare (if chunk = [] then content else List.intercalate ['\n'] ([content, chunk].filter (· ≠ []))) = bare content ++ bare chunk := by
  split_ifs with hchunk
  · rw [hchunk]
    exact (List.append_nil _).symm
  · rw [bare_intercalate]
    by_cases hcontent : content = []
    · rw [hcontent]
      simp [hchunk, bare]
    · simp [hchunk, hcontent]

theorem checkActiveJob_answers (hs : Remembers job s call.stateAt) (hordered : call.times.Pairwise (· ≤ ·)) (hwatched : Watched job call)
    {next : Observation × Session} (h : checkActiveJob job s call = some next) : Answers job s call next.1 next.2 := by
  obtain ⟨⟨how, latest, chunks⟩, hleft, rfl⟩ := Option.map_eq_some_iff.mp h
  have hnil : bare s.lastJobOutput ++ ([] : List (List Char)).flatMap bare = bare s.lastJobOutput := List.append_nil _
  have hspec (t : ℕ) (ht : Until (call.stateAt :: call.turns.flatMap Turn.times) t) :=
    check_spec hs.consumed hleft (Call.ordered_turns hordered) ht hs.begins hnil
  obtain ⟨hbegins, hchunks, hends⟩ := hspec _ (Call.until_receivedAt hordered)
  have hcontent : bare s.lastJobOutput ++ bare (strip (List.intercalate ['\n'] chunks)) = bare latest := by
    rw [bare_strip, bare_intercalate]
    exact hchunks
  have hremembers (t : ℕ) (ht : Until call.times t) : Remembers job { s with lastJobOutput := latest } t :=
    ⟨hs.active, hs.consumed, (hspec t fun u hu => ht u (call.turns_subset hu)).1⟩
  cases how with
  | finished state =>
    have hfinal := text_of_ends_le (hends state rfl)
    refine .rest (final_exitCode _ _ _ _ _) hwatched ?_
    dsimp only [Observation.text]
    rw [hs.consumed, receive_text, bare_joined, ← List.append_assoc, hcontent, bare_strip, ← bare_append, finalChunk_eq hbegins, hfinal]
  | shutdown => exact .goes rfl hwatched hremembers hcontent
  | timedOut => exact .goes rfl hwatched hremembers hcontent

theorem reject_answers (hs : Remembers job s call.stateAt) (hordered : call.times.Pairwise (· ≤ ·)) (hwatched : Watched job call)
    {metadata : CmdOutputMetadata} (hcode : metadata.exitCode = -1) :
    Answers job s call (reject job s call metadata).1 (reject job s call metadata).2 := by
  have hreceived : call.stateAt ≤ call.receivedAt := Call.until_receivedAt hordered _ List.mem_cons_self
  have hbegins : s.lastJobOutput <+: job.text call.receivedAt := hs.begins.trans (text_begins job hreceived)
  refine .goes (decide_eq_false (not_not.mpr hcode)) hwatched (fun t ht => ⟨hs.active, hs.consumed, ?_⟩) ?_
  · dsimp only [reject]
    rw [hs.consumed, receive_text]
    exact text_begins job (ht _ call.receivedAt_mem)
  · dsimp only [reject, Observation.text]
    rw [hs.consumed, receive_text, bare_strip, ← bare_append, append_removePrefix hbegins]

theorem handleActiveJob_answers (hs : Remembers job s call.stateAt) (hordered : call.times.Pairwise (· ≤ ·))
    (hstopped : call.given = "C-c".toList → job.ends ≤ call.receivedAt) {next : Observation × Session}
    (h : handleActiveJob job s call = some next) : Answers job s call next.1 next.2 := by
  have hreceived : call.stateAt ≤ call.receivedAt := Call.until_receivedAt hordered _ List.mem_cons_self
  rw [handleActiveJob] at h
  by_cases hover : (job.state call.stateAt).over = true
  · rw [if_pos hover] at h
    obtain rfl := Option.some.inj h
    refine .all (final_exitCode _ _ _ _ _) (not_not.mpr (.inl hover)) ?_
    dsimp only [Observation.text]
    rw [bare_strip, removePrefix_nil, hs.consumed, receive_text,
      text_of_ends_le (((over_state_iff job call.stateAt).mp hover).trans hreceived)]
  rw [if_neg hover] at h
  by_cases hempty : call.given = []
  · rw [if_pos hempty] at h
    refine checkActiveJob_answers hs hordered (fun hmet => hmet.elim hover fun hstop => ?_) h
    rw [hempty] at hstop
    cases hstop
  rw [if_neg hempty] at h
  by_cases hstop : call.given = "C-c".toList
  · rw [if_pos hstop] at h
    obtain rfl := Option.some.inj h
    refine .all ?_ (not_not.mpr (.inr hstop)) ?_
    · dsimp only [stopActiveJob, Observation.final]
      split_ifs <;> rfl
    · dsimp only [stopActiveJob, Observation.text]
      rw [bare_strip, hs.consumed, receive_text, text_of_ends_le (hstopped hstop)]
  rw [if_neg hstop] at h
  have hwatched : Watched job call := fun hmet => hmet.elim hover hstop
  split_ifs at h
  · obtain rfl := Option.some.inj h
    exact reject_answers hs hordered hwatched rfl
  · obtain rfl := Option.some.inj h
    exact reject_answers hs hordered hwatched rfl

end

/-! ## Whole runs -/

section

variable {job : Job} {s : Session} {call : Call} {calls : List Call} {observations : List Observation}

theorem bare_begins {us vs : List Char} (h : us <+: vs) : bare us <+: bare vs := h.filter _

theorem observe_cons (h : observe job s (call :: calls) = some observations) :
    ∃ o s' rest, execute job s call = some (o, s') ∧ observe job s' calls = some rest ∧ observations = o :: rest := by
  obtain ⟨⟨o, s'⟩, hnext, hrest⟩ := Option.bind_eq_some_iff.mp h
  obtain ⟨rest, hobserved, rfl⟩ := Option.map_eq_some_iff.mp hrest
  exact ⟨o, s', rest, hnext, hobserved, rfl⟩

theorem observe_ne_nil (hcalls : calls ≠ []) (h : observe job s calls = some observations) : observations ≠ [] := by
  obtain ⟨call, calls, rfl⟩ := List.exists_cons_of_ne_nil hcalls
  obtain ⟨o, s', rest, -, -, rfl⟩ := observe_cons h
  exact List.cons_ne_nil o rest

/-- A call is the last exactly when it reports the end. -/
theorem final_of_observe {o : Observation} {rest : List Observation} (hrest : observe job s calls = some rest)
    (hunfinished : ∀ p ∈ (o :: rest).dropLast, p.final = false) (hfinished : ∀ p ∈ (o :: rest).getLast?, p.final = true) :
    (o.final = true ∧ calls = [] ∧ rest = []) ∨
      (o.final = false ∧ calls ≠ [] ∧ (∀ p ∈ rest.dropLast, p.final = false) ∧ ∀ p ∈ rest.getLast?, p.final = true) := by
  by_cases hcalls : calls = []
  · subst hcalls
    obtain rfl := Option.some.inj hrest
    exact .inl ⟨hfinished o rfl, rfl, rfl⟩
  · obtain ⟨p, rest, rfl⟩ := List.exists_cons_of_ne_nil (observe_ne_nil hcalls hrest)
    rw [List.dropLast_cons_cons] at hunfinished
    rw [List.getLast?_cons_cons] at hfinished
    exact .inr ⟨hunfinished o List.mem_cons_self, hcalls, fun q hq => hunfinished q (List.mem_cons_of_mem o hq), hfinished⟩

/-- The times of a call are not after those of the calls that follow. -/
theorem until_next (hordered : ((call :: calls).flatMap Call.times).Pairwise (· ≤ ·)) :
    ∀ next ∈ calls.head?, Until call.times next.stateAt := by
  intro next hnext u hu
  rw [List.flatMap_cons] at hordered
  refine (List.pairwise_append.mp hordered).2.2 u hu _ (List.mem_flatMap.mpr ⟨next, List.mem_of_mem_head? hnext, ?_⟩)
  exact List.mem_cons_self

theorem ordered_cons (hordered : ((call :: calls).flatMap Call.times).Pairwise (· ≤ ·)) :
    call.times.Pairwise (· ≤ ·) ∧ (calls.flatMap Call.times).Pairwise (· ≤ ·) := by
  rw [List.flatMap_cons] at hordered
  exact ⟨(List.pairwise_append.mp hordered).1, (List.pairwise_append.mp hordered).2.1⟩

/-- What is remembered and the texts of the calls that follow show the output once when each returns the rest. -/
theorem observe_iff (hcalls : calls ≠ []) (hs : ∀ call ∈ calls.head?, Remembers job s call.stateAt)
    (hordered : (calls.flatMap Call.times).Pairwise (· ≤ ·))
    (hstopped : ∀ call ∈ calls, call.given = "C-c".toList → job.ends ≤ call.receivedAt)
    (h : observe job s calls = some observations) (hunfinished : ∀ o ∈ observations.dropLast, o.final = false)
    (hfinished : ∀ o ∈ observations.getLast?, o.final = true) :
    dropEscapes (bare s.lastJobOutput ++ bare (observations.flatMap Observation.text)) = visible job.output ↔
      EachReturnsRest job s calls := by
  induction calls generalizing s observations with
  | nil => exact absurd rfl hcalls
  | cons call calls ih =>
    have hremembers := hs call rfl
    obtain ⟨hown, hothers⟩ := ordered_cons hordered
    obtain ⟨o, s', rest, hnext, hrest, rfl⟩ := observe_cons h
    have hactive : handleActiveJob job s call = some (o, s') := by
      rw [execute, if_pos hremembers.active] at hnext
      exact hnext
    have hanswers : Answers job s call o s' :=
      handleActiveJob_answers hremembers hown (hstopped call List.mem_cons_self) hactive
    have hreturns : ReturnsRest job s call ↔ (¬ Watched job call → Unseen (bare s.lastJobOutput)) := by
      rw [ReturnsRest, if_pos hremembers.active, Watched, not_not]
    rw [EachReturnsRest, hreturns, hnext, List.flatMap_cons, bare_append, ← List.append_assoc]
    simp only [Option.mem_def, Option.some.injEq, forall_eq']
    rcases final_of_observe hrest hunfinished hfinished with ⟨hfinal, rfl, rfl⟩ | ⟨hfinal, hne, hun, hfin⟩
    · have hnil : bare (([] : List Observation).flatMap Observation.text) = [] := rfl
      rw [EachReturnsRest, and_true, hnil, List.append_nil]
      cases hanswers with
      | goes unfinished => exact absurd (unfinished.symm.trans hfinal) (by decide)
      | rest finished watched hrest =>
        rw [hrest]
        exact iff_of_true rfl fun hnot => absurd watched hnot
      | all finished unwatched hall =>
        rw [hall, visible, dropEscapes_twice_iff (bare_begins (hremembers.begins.trans (text_begins_output job _)))]
        exact ⟨fun hunseen _ => hunseen, fun himp => himp unwatched⟩
    · cases hanswers with
      | goes unfinished watched hgoes hnew =>
        rw [hnew, ih hne (fun next hhead => hgoes _ (until_next hordered next hhead)) hothers
          (fun next hmem => hstopped next (List.mem_cons_of_mem call hmem)) hrest hun hfin]
        exact ⟨fun hlater => ⟨fun hnot => absurd watched hnot, hlater⟩, fun hboth => hboth.2⟩
      | rest finished => exact absurd (hfinal.symm.trans finished) (by decide)
      | all finished => exact absurd (hfinal.symm.trans finished) (by decide)

end

section

variable (run : Run)

/-- The texts of a run show the output once exactly when each call returns the rest. -/
theorem texts_iff : visible (run.observations.flatMap Observation.text) = visible run.job.output ↔ run.ReturnsRest := by
  obtain ⟨hown, hothers⟩ := ordered_cons run.ordered
  obtain ⟨o, s', rest, hnext, hrest, hobservations⟩ := observe_cons run.observed
  have hunfinished := run.unfinished
  have hfinished := run.finished
  rw [hobservations] at hunfinished hfinished
  have hstart : startJob run.job run.first = some (o, s') := by
    rw [execute, if_neg Bool.false_ne_true, if_neg run.nonempty, if_neg run.not_control] at hnext
    exact hnext
  have hstarts : Starts run.job run.first o s' := startJob_starts hown hstart
  have hreturns : ReturnsRest run.job ⟨false, run.lastJobOutput, run.consumed⟩ run.first ↔
      (run.job.state run.first.stateAt = .failed → visible failedToStart = visible run.job.output) := by
    rw [ReturnsRest, if_neg Bool.false_ne_true]
  rw [Run.ReturnsRest, EachReturnsRest, hreturns, hnext, hobservations, List.flatMap_cons, visible, bare_append]
  simp only [Option.mem_def, Option.some.injEq, forall_eq']
  rcases final_of_observe hrest hunfinished hfinished with ⟨hfinal, hlater, rfl⟩ | ⟨hfinal, hne, hun, hfin⟩
  · have hnil : bare (([] : List Observation).flatMap Observation.text) = [] := rfl
    rw [hlater, EachReturnsRest, and_true, hnil, List.append_nil]
    cases hstarts with
    | goes unfinished => exact absurd (unfinished.symm.trans hfinal) (by decide)
    | all finished started hall =>
      rw [hall]
      exact iff_of_true rfl fun hfailed => absurd hfailed started
    | failed finished failed htext =>
      rw [htext]
      exact ⟨fun hsame _ => hsame, fun himp => himp failed⟩
  · cases hstarts with
    | goes unfinished started hgoes hnew =>
      rw [hnew, observe_iff hne (fun next hhead => hgoes _ (until_next run.ordered next hhead)) hothers run.stopped hrest hun hfin]
      exact ⟨fun hlater => ⟨fun hfailed => absurd hfailed started, hlater⟩, fun hboth => hboth.2⟩
    | all finished => exact absurd (hfinal.symm.trans finished) (by decide)
    | failed finished => exact absurd (hfinal.symm.trans finished) (by decide)

theorem visible_notice_infix (us vs : List Char) : visible Truncation.notice <:+: visible (us ++ (Truncation.notice ++ vs)) := by
  have hhead : (bare Truncation.notice).head? = some '[' := by decide
  have hlast : (bare Truncation.notice).getLast? = some ']' := by decide
  have hnext : ¬ ((bare Truncation.notice).getLast? = some '\\' ∧ (bare vs).head? = some 'n') := by
    rw [hlast]
    exact fun h => absurd (Option.some.inj h.1) (by decide)
  have hbefore : ¬ ((bare us).getLast? = some '\\' ∧ (bare Truncation.notice ++ bare vs).head? = some 'n') := by
    rw [List.head?_append, hhead]
    exact fun h => absurd (Option.some.inj h.2) (by decide)
  rw [visible, visible, bare_append, bare_append, dropEscapes_append hbefore, dropEscapes_append hnext]
  exact ⟨_, _, List.append_assoc _ _ _⟩

/-- A cut text that shows the output once has its notice from the job. -/
theorem notice_of_cut (hcut : ¬ run.Uncut) (honce : run.DeliveredOnce) : visible Truncation.notice <:+: visible run.job.output := by
  obtain ⟨o, ho, hne⟩ : ∃ o ∈ run.observations, o.content ≠ o.text := by simpa [Run.Uncut] using hcut
  have htruncated : ∃ us vs, o.content = us ++ (Truncation.notice ++ vs) := by
    cases o with
    | output text command metadata =>
      dsimp only [Observation.content, Observation.text, Truncation.maybeTruncate] at hne ⊢
      split_ifs at hne ⊢ with hshort
      · exact absurd rfl hne
      · exact ⟨_, _, List.append_assoc _ _ _⟩
    | error content => exact absurd rfl hne
  obtain ⟨us, vs, hcontent⟩ := htruncated
  obtain ⟨before, after, hsplit⟩ := List.append_of_mem ho
  rw [← honce, hsplit, List.flatMap_append, List.flatMap_cons, hcontent]
  have hinfix := visible_notice_infix (before.flatMap Observation.content ++ us) (vs ++ after.flatMap Observation.content)
  simp only [List.append_assoc] at hinfix ⊢
  exact hinfix

end

/-- A job that prints one item and ends later. -/
def greeting : Job where
  printed _ := ["hi".toList]
  begins := 0
  ends := 5
  final := .completed
  grows _ _ _ := List.prefix_rfl
  closed _ _ := rfl
  final_over := rfl

/-- A call that times out, and an empty command when the job has ended. -/
def lateCheck : List Call :=
  [⟨"Show-Greeting".toList, ⟨1, "1"⟩, false, 0, [.poll 1 1, .timeout], 2, 2⟩, ⟨[], ⟨1, "1"⟩, false, 6, [], 7, 7⟩]

def greetingRun : Run where
  job := greeting
  lastJobOutput := []
  consumed := 0
  first := lateCheck[0]
  later := [lateCheck[1]]
  nonempty := by decide
  not_control := by decide
  foreground := by decide
  ordered := by decide
  stopped := by decide
  observations := (observe greeting ⟨false, [], 0⟩ lateCheck).getD []
  observed := rfl
  unfinished := by decide
  finished := by decide

end OpenHands.PowershellJob
