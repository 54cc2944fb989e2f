import OpenHandsSWE.Events.Serialization.Truncation
import OpenHandsSWE.Events.ShellPrompt
import OpenHandsSWE.Lib.Blanks
import OpenHandsSWE.Lib.Fences
import OpenHandsSWE.Lib.Splitlines

/-! A command in a terminal: it is typed, the terminal is read until the next prompt or a timeout, and
the output is cut out between the prompts. -/

namespace OpenHands

open Text Fences ShellPrompt

namespace Bash

inductive BashCommandStatus where
  | continuing | completed | noChangeTimeout | hardTimeout
deriving DecidableEq

inductive BashError where
  | runtimeError (message : String)
  | raised (e : PyError)

/-- What `bashlex` makes of a command, and the upper case of a letter. -/
structure Host where
  pieces : List Char → List (List Char)
  escaped : List Char → List Char
  upper : Char → String

/-- A number of seconds, and how it is printed. -/
structure Seconds where
  value : ℚ
  text : String

structure BashSession where
  noChangeTimeoutSeconds : ℤ
  cwd : String
  prevStatus : Option BashCommandStatus := none
  prevOutput : List Char := []

/-! ## The terminal -/

def paneContent (stdout : List (List Char)) : List Char := List.intercalate ['\n'] (stdout.map rstrip)

def parses (m : Fence Char) : Bool := (Json.loads (strip m.body)).isSome

/-- The matches of `CmdOutputMetadata.matches_ps1_metadata`, with the places where they stand. -/
def ps1Matches (string : List Char) : List (Fence Char) :=
  (fences '\n' beginMark endMark 0 0 true string).filter parses

/-- `match.end()`. -/
def stop (m : Fence Char) : ℕ := m.start + (beginMark ++ (m.body ++ endMark)).length

/-- What stands between the prompts and after the last one. -/
def segments (paneContent : List Char) : List (Fence Char) → List Char
  | [] => []
  | [m] => paneContent.drop (stop m + 1)
  | m :: n :: rest => (paneContent.take n.start).drop (stop m + 1) ++ '\n' :: segments paneContent (n :: rest)

def combineOutputsBetweenMatches (paneContent : List Char) (ps1Matches : List (Fence Char))
    (getContentBeforeLastMatch : Bool := false) : List Char :=
  match ps1Matches with
  | [] => paneContent
  | [m] => if getContentBeforeLastMatch then paneContent.take m.start else paneContent.drop (stop m + 1)
  | _ => segments paneContent ps1Matches

/-! ## The answer -/

def removePrefix (cs p : List Char) : List Char := if p <+: cs then cs.drop p.length else cs

def removeCommandPrefix (commandOutput command : List Char) : List Char :=
  lstrip (removePrefix (lstrip commandOutput) (lstrip command))

def isSpecialKey (command : List Char) : Bool :=
  ['C', '-'].isPrefixOf (strip command) && (strip command).length == 3

/-- `CmdOutputObservation.__init__`. -/
def observation (content command : List Char) (metadata : CmdOutputMetadata) (hidden : Bool := false) :
    CmdOutputObservation :=
  { content := .ofList (if hidden then content else Truncation.maybeTruncate content)
    command := .ofList command, metadata, hidden }

namespace BashSession

variable (s : BashSession)

/-- The new session, the metadata and the output that was not yet returned. -/
def getCommandOutput (command rawCommandOutput : List Char) (metadata : CmdOutputMetadata) (continuePrefix : String := "") :
    BashSession × CmdOutputMetadata × List Char :=
  let commandOutput := if s.prevOutput = [] then rawCommandOutput else removePrefix rawCommandOutput s.prevOutput
  let metadata := if s.prevOutput = [] then metadata else { metadata with pre := continuePrefix }
  ({ s with prevOutput := rawCommandOutput }, metadata, rstrip (removeCommandPrefix commandOutput command))

def handleCompletedCommand (host : Host) (command paneContent : List Char) (ps1Matches : List (Fence Char)) (hidden : Bool) :
    Except BashError (BashSession × CmdOutputObservation) :=
  match ps1Matches.getLast? with
  | none => .error (.raised (.assertionError "Expected at least one PS1 metadata block, but got 0."))
  | some last =>
    match fromPs1Match last.body with
    | .error e => .error (.raised e)
    | .ok metadata =>
      let getContentBeforeLastMatch := ps1Matches.length == 1
      let cwd := match metadata.workingDir with
        | some dir => if dir ≠ s.cwd ∧ dir ≠ "" then dir else s.cwd
        | none => s.cwd
      let rawCommandOutput := combineOutputsBetweenMatches paneContent ps1Matches getContentBeforeLastMatch
      let metadata := if getContentBeforeLastMatch then { metadata with
        pre := "[Previous command outputs are truncated. Showing the last " ++
          toString (splitlines rawCommandOutput).length ++ " lines of the output below.]\n" } else metadata
      let ended := "\n[The command completed with exit code " ++ toString metadata.exitCode
      let key := (command.getLast?.map host.upper).getD ""
      let suffix := if isSpecialKey command then ended ++ ". CTRL+" ++ key ++ " was sent.]" else ended ++ ".]"
      let (s, metadata, commandOutput) := s.getCommandOutput command rawCommandOutput { metadata with suffix }
      .ok ({ s with cwd, prevStatus := some .completed, prevOutput := [] }, observation commandOutput command metadata hidden)

def TIMEOUT_MESSAGE_TEMPLATE : String :=
  "You may wait longer to see additional output by sending empty command '', " ++
  "send other commands to interact with the current process, " ++
  "send keys (\"C-c\", \"C-z\", \"C-d\") to interrupt/kill the previous command before sending your new command, " ++
  "or use the timeout parameter in execute_bash for future commands."

/-- An answer while the command is still running. -/
def handleUnfinished (command paneContent : List Char) (ps1Matches : List (Fence Char)) (suffix : String)
    (hidden : Bool := false) : BashSession × CmdOutputObservation :=
  let rawCommandOutput := combineOutputsBetweenMatches paneContent ps1Matches
  let (s, metadata, commandOutput) := s.getCommandOutput command rawCommandOutput { suffix }
    "[Below is the output of the previous command.]\n"
  (s, observation commandOutput command metadata hidden)

def handleNochangeTimeoutCommand (command paneContent : List Char) (ps1Matches : List (Fence Char)) :
    BashSession × CmdOutputObservation :=
  handleUnfinished { s with prevStatus := some .noChangeTimeout } command paneContent ps1Matches
    ("\n[The command has no new output after " ++ toString s.noChangeTimeoutSeconds ++ " seconds. " ++
      TIMEOUT_MESSAGE_TEMPLATE ++ "]")

def handleHardTimeoutCommand (command paneContent : List Char) (ps1Matches : List (Fence Char)) (timeout : Seconds) :
    BashSession × CmdOutputObservation :=
  handleUnfinished { s with prevStatus := some .hardTimeout } command paneContent ps1Matches
    ("\n[The command timed out after " ++ timeout.text ++ " seconds. " ++ TIMEOUT_MESSAGE_TEMPLATE ++ "]")

end BashSession

/-! ## Waiting for the command -/

/-- What does not change while the terminal is watched. -/
structure Watch where
  host : Host
  action : CmdRunAction
  timeout : Option Seconds
  command : List Char
  initialPs1Count : ℕ
  startTime : ℚ

/-- One look at the terminal, and the clock when its change was noticed and at the two checks. -/
structure Reading where
  stdout : List (List Char)
  changedAt : ℚ
  checkedAt : ℚ
  elapsedAt : ℚ

def Reading.pane (r : Reading) : List Char := paneContent r.stdout

/-- The pane ends with a prompt. -/
def atPrompt (paneContent : List Char) : Prop := rstrip CMD_OUTPUT_PS1_END <:+ rstrip paneContent

instance (paneContent : List Char) : Decidable (atPrompt paneContent) :=
  inferInstanceAs (Decidable (_ <:+ _))

/-- The three checks of one round; without an answer it is waited on. -/
def look (w : Watch) (s : BashSession) (curPaneOutput : List Char) (lastChangeTime checkedAt elapsedAt : ℚ) :
    Option (Except BashError (BashSession × CmdOutputObservation)) :=
  let found := ps1Matches curPaneOutput
  if w.initialPs1Count < found.length ∨ atPrompt curPaneOutput then
    some (s.handleCompletedCommand w.host w.command curPaneOutput found w.action.hidden)
  else if w.action.blocking = false ∧ s.noChangeTimeoutSeconds ≤ checkedAt - lastChangeTime then
    some (.ok (s.handleNochangeTimeoutCommand w.command curPaneOutput found))
  else
    match w.timeout with
    | some timeout =>
      if timeout.value ≠ 0 ∧ timeout.value ≤ elapsedAt - w.startTime then
        some (.ok (s.handleHardTimeoutCommand w.command curPaneOutput found timeout))
      else none
    | none => none

def watch (w : Watch) (s : BashSession) (lastPaneOutput : List Char) (lastChangeTime : ℚ) :
    List Reading → Except BashError (BashSession × CmdOutputObservation)
  | [] => .error (.runtimeError "Bash session was likely interrupted...")
  | r :: later =>
    let lastChangeTime := if r.pane = lastPaneOutput then lastChangeTime else r.changedAt
    match look w s r.pane lastChangeTime r.checkedAt r.elapsedAt with
    | some answer => answer
    | none => watch w s r.pane lastChangeTime later

/-! ## A command -/

inductive Answer where
  | output (o : CmdOutputObservation)
  | error (content : String)

def splitBashCommands (host : Host) (commands : List Char) : List (List Char) :=
  if strip commands = [] then [[]] else host.pieces commands

def escapeBashSpecialChars (host : Host) (command : List Char) : List Char :=
  if strip command = [] then [] else host.escaped command

/-- One call, with what it sees: the terminal and the clock before the command is typed, and the later
readings. -/
structure Call where
  action : CmdRunAction
  timeout : Option Seconds := none
  initial : List (List Char)
  startTime : ℚ
  readings : List Reading

def Call.command (c : Call) : List Char := strip c.action.command.toList

def Call.initialPane (c : Call) : List Char := paneContent c.initial

/-- What is typed; a command for the shell is escaped. -/
def Call.sent (host : Host) (c : Call) : List Char :=
  if c.command ≠ [] ∧ c.action.isInput = false then escapeBashSpecialChars host c.command else c.command

def Call.watch (host : Host) (c : Call) : Watch :=
  ⟨host, c.action, c.timeout, c.sent host, (ps1Matches c.initialPane).length, c.startTime⟩

/-- A command was left running by a timeout. -/
def BashSession.timedOut (s : BashSession) : Bool :=
  s.prevStatus == some .hardTimeout || s.prevStatus == some .noChangeTimeout

/-- `execute`, with the terminal that it reads; the keys that it sends are left to the terminal. -/
def BashSession.execute (host : Host) (s : BashSession) (c : Call) : Except BashError (BashSession × Answer) :=
  let command := c.command
  let running := s.prevStatus == some .continuing || s.timedOut
  let refuse (content : String) : Except BashError (BashSession × Answer) :=
    .ok (s, .output (observation content.toList [] {}))
  if running = false ∧ command = [] then refuse "ERROR: No previous running command to retrieve logs from."
  else if running = false ∧ c.action.isInput = true then refuse "ERROR: No previous running command to interact with."
  else if 1 < (splitBashCommands host command).length then
    .ok (s, .error ("ERROR: Cannot execute multiple commands at once.\n" ++
      "Please run each command separately OR chain them into a single command via && or ;\nProvided commands:\n" ++
      "\n".intercalate ((splitBashCommands host command).zipIdx.map fun piece =>
        "(" ++ toString (piece.2 + 1) ++ ") " ++ .ofList piece.1)))
  else
    if s.timedOut = true ∧ ¬ atPrompt c.initialPane ∧ c.action.isInput = false ∧ command ≠ [] then
      let (s, o) := s.handleUnfinished command c.initialPane (ps1Matches c.initialPane)
        ("\n[Your command \"" ++ .ofList command ++ "\" is NOT executed. " ++
          "The previous command is still running - You CANNOT send new commands until the previous command is completed. " ++
          "By setting `is_input` to `true`, you can interact with the current process: " ++
          BashSession.TIMEOUT_MESSAGE_TEMPLATE ++ "]") c.action.hidden
      .ok (s, .output o)
    else
      (Bash.watch (c.watch host) s c.initialPane c.startTime c.readings).map fun answer => (answer.1, .output answer.2)

/-! ## Prompts in the terminal -/

theorem marks : Marks '\n' beginMark endMark := ⟨by decide, by decide, by decide, by decide⟩

/-- A prompt from its begin mark to its end mark. -/
def block (body : List Char) : List Char := beginMark ++ (body ++ endMark)

theorem findFrom_eq (pos n : ℕ) (head : Bool) (cs : List Char) :
    findFrom n head cs = (fences '\n' beginMark endMark pos n head cs).map Fence.body := by
  induction cs generalizing pos n head with
  | nil => cases n <;> rfl
  | cons c cs ih =>
    cases n with
    | succ n => exact ih (pos + 1) n _
    | zero =>
      rw [findFrom, fences]
      by_cases hbegins : head = true ∧ beginMark <+: c :: cs
      · rw [if_pos hbegins, if_pos hbegins]
        cases upTo endMark ((c :: cs).drop beginMark.length) with
        | some body => exact congrArg (body :: ·) (ih (pos + 1) _ _)
        | none => exact ih (pos + 1) 0 _
      · rw [if_neg hbegins, if_neg hbegins]
        exact ih (pos + 1) 0 _

/-- The places are those of the matches. -/
theorem bodies_ps1Matches (string : List Char) : (ps1Matches string).map Fence.body = matchesPs1Metadata string := by
  rw [ps1Matches, matchesPs1Metadata, findFrom_eq 0, List.filter_map]
  rfl

/-- The end mark has to stand at the head of a line. -/
theorem atPrompt_iff (u : List Char) {tail : List Char} (htail : ∀ c ∈ tail, isSpace c = true) :
    atPrompt (u ++ (endMark ++ tail)) ↔ ['\n'] <:+ u := by
  have hmark : rstrip CMD_OUTPUT_PS1_END = ['\n'] ++ endMark := by decide
  have hlast : endMark = "###PS1END##".toList ++ ['#'] := by decide
  have hpane : rstrip (u ++ (endMark ++ tail)) = u ++ endMark := by
    rw [← List.append_assoc, rstrip_append_blank _ htail, hlast, ← List.append_assoc, rstrip_of_last _ (by decide)]
  rw [atPrompt, hmark, hpane]
  constructor
  · rintro ⟨v, hv⟩
    rw [← List.append_assoc] at hv
    exact ⟨v, List.append_cancel_right hv⟩
  · rintro ⟨v, rfl⟩
    exact ⟨v, by rw [List.append_assoc]⟩

theorem newline_before_mark {u body : List Char} : ['\n'] <:+ u ++ (beginMark ++ body) ↔ ['\n'] <:+ body := by
  constructor
  · rintro ⟨v, hv⟩
    rcases List.eq_nil_or_concat' body with rfl | ⟨line, c, rfl⟩
    · have hlast : beginMark = "###PS1JSON##".toList ++ ['#'] := by decide
      rw [List.append_nil, hlast, ← List.append_assoc] at hv
      have hchar := (List.append_inj' hv rfl).2
      exact absurd hchar (by decide)
    · rw [← List.append_assoc, ← List.append_assoc] at hv
      rw [← (List.append_inj' hv rfl).2]
      exact List.suffix_append line _
  · rintro ⟨v, rfl⟩
    exact ⟨u ++ (beginMark ++ v), by simp only [List.append_assoc]⟩

/-! ## A prompt is seen -/

/-- The command is taken as completed, with at least one match. -/
def Handled (pane : List Char) : Prop :=
  ∀ (w : Watch) (s : BashSession) (lastChangeTime checkedAt elapsedAt : ℚ),
    look w s pane lastChangeTime checkedAt elapsedAt =
        some (s.handleCompletedCommand w.host w.command pane (ps1Matches pane) w.action.hidden) ∧
      1 ≤ (ps1Matches pane).length

/-- The prompt behind a text is a match, and a terminal that ends with it is handled. -/
def PromptSeen (t body : List Char) : Prop :=
  ⟨t.length, body⟩ ∈ ps1Matches (t ++ block body) ∧
    ∀ tail, (∀ c ∈ tail, isSpace c = true) → Handled (t ++ (block body ++ tail))

section Seen

variable {t body : List Char}

theorem found_behind (ht : lineHead '\n' true t = true) (hvalid : (Json.loads (strip body)).isSome)
    (hclosed : Closed '\n' beginMark endMark true t) (hown : upTo endMark (body ++ endMark) = some body) (tail : List Char) :
    ⟨t.length, body⟩ ∈ ps1Matches (t ++ (block body ++ tail)) := by
  have htext : block body ++ tail = beginMark ++ (body ++ (endMark ++ tail)) := by
    simp only [block, List.append_assoc]
  refine List.mem_filter.mpr ⟨?_, hvalid⟩
  rw [htext, fences_closed marks hclosed ht, fences_block marks _ _ hown, Nat.zero_add]
  exact List.mem_append_right _ List.mem_cons_self

theorem handled_of_prompt {pane : List Char} (hprompt : atPrompt pane) (hfound : ps1Matches pane ≠ []) : Handled pane :=
  fun _ _ _ _ _ => ⟨if_pos (.inr hprompt), List.length_pos_iff.mpr hfound⟩

/-- A terminal that shows no new prompt and does not end with one is only watched on. -/
theorem atPrompt_of_handled {pane : List Char} (h : Handled pane) : atPrompt pane := by
  by_contra hnot
  let w : Watch := ⟨⟨fun _ => [], id, fun _ => ""⟩, ⟨"", false, "", true, false, none, false, .known .confirmed, .unknown⟩,
    none, [], (ps1Matches pane).length, 0⟩
  have hlook := (h w ⟨0, "", none, []⟩ 0 0 0).1
  have hcheck : ¬ (w.initialPs1Count < (ps1Matches pane).length ∨ atPrompt pane) := fun hor =>
    hor.elim (lt_irrefl _) hnot
  rw [look, if_neg hcheck, if_neg fun hblocking => Bool.noConfusion hblocking.1] at hlook
  cases hlook

/-- A prompt is seen exactly when the text before it leaves no block open, and its own end mark is the
first one in it and stands at the head of a line. -/
theorem promptSeen_iff (ht : lineHead '\n' true t = true) (hbody : ∃ dict, Json.loads (strip body) = some (.obj dict)) :
    PromptSeen t body ↔ Closed '\n' beginMark endMark true t ∧ upTo endMark (body ++ endMark) = some body ∧
      ['\n'] <:+ body := by
  have hvalid : (Json.loads (strip body)).isSome := by
    obtain ⟨dict, hdict⟩ := hbody
    rw [hdict]
    rfl
  have hpane (tail : List Char) : t ++ (block body ++ tail) = t ++ (beginMark ++ body) ++ (endMark ++ tail) := by
    simp only [block, List.append_assoc]
  constructor
  · rintro ⟨hfound, hhandled⟩
    obtain ⟨hclosed, hown⟩ := (found_iff marks ht body).mp (List.mem_filter.mp hfound).1
    have hprompt := atPrompt_of_handled (hhandled [] fun c hc => absurd hc List.not_mem_nil)
    rw [hpane, atPrompt_iff _ fun c hc => absurd hc List.not_mem_nil, newline_before_mark] at hprompt
    exact ⟨hclosed, hown, hprompt⟩
  · rintro ⟨hclosed, hown, hline⟩
    constructor
    · have hfound := found_behind ht hvalid hclosed hown []
      rwa [List.append_nil] at hfound
    · intro tail htail
      have hprompt : atPrompt (t ++ (block body ++ tail)) := by
        rw [hpane, atPrompt_iff _ htail, newline_before_mark]
        exact hline
      exact handled_of_prompt hprompt (List.ne_nil_of_mem (found_behind ht hvalid hclosed hown tail))

/-- A prompt with nothing in it behind a line of text. -/
theorem promptSeen_iff_line : PromptSeen "ls\n".toList "\n\x7b\x7d\n".toList ↔
    Closed '\n' beginMark endMark true "ls\n".toList ∧
      upTo endMark ("\n\x7b\x7d\n".toList ++ endMark) = some "\n\x7b\x7d\n".toList ∧ ['\n'] <:+ "\n\x7b\x7d\n".toList :=
  promptSeen_iff (by decide) ⟨[], by decide +kernel⟩

/-- A lone begin mark takes the prompt behind it. -/
theorem prompt_swallowed : ¬ ∀ t body : List Char, lineHead '\n' true t = true →
    (∃ dict, Json.loads (strip body) = some (.obj dict)) → PromptSeen t body := by
  intro h
  have hseen := h "###PS1JSON###\n".toList "\n\x7b\x7d\n".toList (by decide) ⟨[], by decide +kernel⟩
  have hnot : ⟨14, "\n\x7b\x7d\n".toList⟩ ∉ fences '\n' beginMark endMark 0 0 true
      ("###PS1JSON###\n".toList ++ block "\n\x7b\x7d\n".toList) := by
    decide +kernel
  exact hnot (List.mem_filter.mp hseen.1).1

end Seen

end Bash

end OpenHands
