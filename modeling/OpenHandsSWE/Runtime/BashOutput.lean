import OpenHandsSWE.Runtime.BashSession

/-! The output of a command that is looked at several times before it is completed. -/

namespace OpenHands

open Text Fences ShellPrompt

namespace Bash

/-- A prompt as the shell prints it. -/
structure Prompt where
  body : List Char
  own : upTo endMark (body ++ endMark) = some body
  line : ['\n'] <:+ body
  valid : (Json.loads (strip body)).isSome

/-- What the terminal shows of one command: a prompt, the command, its output and one more prompt. No line
of the command or of the output begins with a mark of the prompt. -/
structure Transcript where
  lead : List Char
  before : Prompt
  echo : List Char
  output : List Char
  after : Prompt
  tail : List Char
  lead_blank : ∀ c ∈ lead, isSpace c = true
  lead_line : lineHead '\n' true lead = true
  echo_shown : ∃ c ∈ echo, isSpace c = false
  quiet : Quiet '\n' beginMark true (echo ++ output) ∧ Quiet '\n' endMark true (echo ++ output)
  readable : ∃ metadata, fromPs1Match after.body = .ok metadata
  tail_blank : ∀ c ∈ tail, isSpace c = true

namespace Transcript

variable (t : Transcript)

/-- The terminal before the command is typed. -/
def idle : List Char := t.lead ++ block t.before.body

/-- The terminal with a part of the output. -/
def running (shown : List Char) : List Char := t.idle ++ '\n' :: (t.echo ++ shown)

/-- The terminal with the last prompt. -/
def finished : List Char := t.idle ++ '\n' :: (t.echo ++ t.output ++ '\n' :: (block t.after.body ++ t.tail))

/-- What the terminal shows while the command runs and when it has ended. -/
def Shows (pane : List Char) : Prop := (∃ shown, shown <+: t.output ∧ pane = t.running shown) ∨ pane = t.finished

def first : Fence Char := ⟨t.lead.length, t.before.body⟩

def second : Fence Char := ⟨(t.idle ++ '\n' :: (t.echo ++ t.output ++ ['\n'])).length, t.after.body⟩

/-! ## The matches -/

theorem stop_first : stop t.first = t.idle.length := by
  rw [idle, block, List.length_append]
  rfl

theorem fences_idle (rest : List Char) :
    fences '\n' beginMark endMark 0 0 true (t.idle ++ rest) =
      t.first :: fences '\n' beginMark endMark t.idle.length 0 false rest := by
  have hmark : '#' ∉ t.lead := fun h => absurd (t.lead_blank '#' h) (by decide)
  have hlead : Quiet '\n' beginMark true t.lead := quiet_of_missing (c := '#') (by decide) hmark true
  have htext : t.idle ++ rest = t.lead ++ (beginMark ++ (t.before.body ++ (endMark ++ rest))) := by
    simp only [idle, block, List.append_assoc]
  have hlength : t.idle.length = t.lead.length + (beginMark ++ (t.before.body ++ endMark)).length := List.length_append
  rw [htext, fences_closed marks (.quiet hlead) t.lead_line, fences_quiet hlead, List.nil_append,
    fences_block marks _ rest t.before.own, Nat.zero_add, ← hlength]
  rfl

theorem parses_first : parses t.first = true := t.before.valid

theorem parses_second : parses t.second = true := t.after.valid

theorem ps1Matches_idle : ps1Matches t.idle = [t.first] := by
  have hfences := t.fences_idle []
  rw [List.append_nil] at hfences
  rw [ps1Matches, hfences, fences, List.filter_cons_of_pos t.parses_first, List.filter_nil]

theorem fences_typed (text : List Char) :
    fences '\n' beginMark endMark 0 0 true (t.idle ++ '\n' :: text) =
      t.first :: fences '\n' beginMark endMark (t.idle.length + 1) 0 true text := by
  have hline : fences '\n' beginMark endMark t.idle.length 0 false ([] ++ '\n' :: text) =
      fences '\n' beginMark endMark (t.idle.length + 1) 0 true text := fences_line marks (quiet_nil marks.opener_ne false) text
  rw [List.nil_append] at hline
  rw [fences_idle, hline]

theorem ps1Matches_running {shown : List Char} (h : shown <+: t.output) : ps1Matches (t.running shown) = [t.first] := by
  have hquiet := t.quiet.1.within ((List.prefix_append_right_inj t.echo).mpr h)
  rw [ps1Matches, running, fences_typed, fences_quiet hquiet, List.filter_cons_of_pos t.parses_first, List.filter_nil]

theorem ps1Matches_finished : ps1Matches t.finished = [t.first, t.second] := by
  have hmark : '#' ∉ t.tail := fun h => absurd (t.tail_blank '#' h) (by decide)
  have htail : Quiet '\n' beginMark false t.tail := quiet_of_missing (c := '#') (by decide) hmark false
  have hafter : block t.after.body ++ t.tail = beginMark ++ (t.after.body ++ (endMark ++ t.tail)) := by
    simp only [block, List.append_assoc]
  have hstart : t.idle.length + 1 + (t.echo ++ t.output).length + 1 =
      (t.idle ++ '\n' :: (t.echo ++ t.output ++ ['\n'])).length := by
    simp only [List.length_append, List.length_cons, List.length_nil]
    omega
  rw [ps1Matches, finished, fences_typed, fences_line marks t.quiet.1, hafter, fences_block marks _ _ t.after.own,
    fences_quiet htail, hstart, List.filter_cons_of_pos t.parses_first]
  exact congrArg (t.first :: ·) (List.filter_cons_of_pos t.parses_second)

/-! ## The end of the terminal -/

theorem atPrompt_finished : atPrompt t.finished := by
  have hpane : t.finished = t.idle ++ '\n' :: (t.echo ++ t.output ++ ['\n']) ++ (beginMark ++ t.after.body) ++
      (endMark ++ t.tail) := by
    simp only [finished, block, List.append_assoc, List.cons_append, List.nil_append]
  rw [hpane, atPrompt_iff _ t.tail_blank, newline_before_mark]
  exact t.after.line

theorem not_atPrompt_running {shown : List Char} (h : shown <+: t.output) : ¬ atPrompt (t.running shown) := by
  have hshown : ∃ c ∈ t.echo ++ shown, isSpace c = false := by
    obtain ⟨c, hc, hspace⟩ := t.echo_shown
    exact ⟨c, List.mem_append_left _ hc, hspace⟩
  have hquiet := t.quiet.2.within
    ((rstrip_begins (t.echo ++ shown)).trans ((List.prefix_append_right_inj t.echo).mpr h))
  have hmark : rstrip CMD_OUTPUT_PS1_END = '\n' :: endMark := by decide
  have hnewline : '\n' ∉ endMark := by decide
  rw [atPrompt, running, ← List.singleton_append, ← List.append_assoc, rstrip_append_shown _ hshown, hmark]
  rintro ⟨v, hv⟩
  rw [List.append_assoc, List.singleton_append] at hv
  -- the mark would stand at the head of a line of the text, or have an end of line in it
  rcases List.append_eq_append_iff.mp hv with ⟨u, -, hu⟩ | ⟨u, -, hu⟩
  · cases u with
    | nil => exact hquiet.first rfl ((List.cons.inj hu).2 ▸ List.prefix_rfl)
    | cons c u =>
      rw [(List.cons.inj hu).2] at hnewline
      exact hnewline (List.mem_append_right u List.mem_cons_self)
  · cases u with
    | nil => exact hquiet.first rfl ((List.cons.inj hu).2 ▸ List.prefix_rfl)
    | cons c u => exact hquiet.later u endMark (List.cons.inj hu).2 List.prefix_rfl

/-! ## What is returned -/

theorem drop_idle (rest : List Char) : (t.idle ++ '\n' :: rest).drop (stop t.first + 1) = rest := by
  have htext : t.idle ++ '\n' :: rest = t.idle ++ ['\n'] ++ rest := by rw [List.append_assoc, List.singleton_append]
  rw [htext, stop_first]
  exact List.drop_left' (by rw [List.length_append, List.length_singleton])

theorem combine_running (shown : List Char) :
    combineOutputsBetweenMatches (t.running shown) [t.first] = t.echo ++ shown :=
  t.drop_idle _

theorem combine_finished : combineOutputsBetweenMatches t.finished [t.first, t.second] =
    t.echo ++ (t.output ++ '\n' :: '\n' :: t.tail.drop 1) := by
  have hpane : t.finished = t.idle ++ '\n' :: (t.echo ++ t.output ++ ['\n']) ++ (block t.after.body ++ t.tail) := by
    simp only [finished, List.append_assoc, List.cons_append, List.nil_append]
  have hbetween : (t.finished.take t.second.start).drop (stop t.first + 1) = t.echo ++ t.output ++ ['\n'] := by
    rw [hpane, second, List.take_left, drop_idle]
  have hbehind : t.finished.drop (stop t.second + 1) = t.tail.drop 1 := by
    have hstop : stop t.second = (t.idle ++ '\n' :: (t.echo ++ t.output ++ ['\n']) ++ block t.after.body).length :=
      List.length_append.symm
    rw [hpane, ← List.append_assoc, ← List.drop_drop, hstop, List.drop_left]
  change segments t.finished [t.first, t.second] = _
  rw [segments, segments, hbetween, hbehind]
  simp only [List.append_assoc, List.cons_append, List.nil_append]

/-- The output up to here was returned, or nothing but the command was typed. -/
def Upto (s : BashSession) (command shown : List Char) : Prop :=
  (s.prevOutput = [] ∧ command = t.echo ∧ shown = []) ∨ (s.prevOutput = t.echo ++ shown ∧ command = [])

end Transcript

theorem removePrefix_append (p cs : List Char) : removePrefix (p ++ cs) p = cs := by
  rw [removePrefix, if_pos (List.prefix_append p cs), List.drop_left]

theorem bare_removeCommandPrefix {command : List Char} (h : ∃ c ∈ command, isSpace c = false) (cs : List Char) :
    bare (removeCommandPrefix (command ++ cs) command) = bare cs := by
  rw [removeCommandPrefix, lstrip_append_shown h, removePrefix_append, bare_lstrip]

theorem bare_removeCommandPrefix_nil (cs : List Char) : bare (removeCommandPrefix cs []) = bare cs := by
  have hnil : removePrefix (lstrip cs) (lstrip []) = lstrip cs := removePrefix_append [] (lstrip cs)
  rw [removeCommandPrefix, hnil, bare_lstrip, bare_lstrip]

/-- An answer with a piece of the output, of which the middle may be left out. -/
def Delivers (o : CmdOutputObservation) (piece : List Char) : Prop :=
  o.content.toList = if o.hidden then piece else Truncation.maybeTruncate piece

theorem delivers_observation (piece command : List Char) (metadata : CmdOutputMetadata) (hidden : Bool) :
    Delivers (observation piece command metadata hidden) piece := by
  rw [Delivers, observation, String.toList_ofList]

namespace Transcript

variable {t : Transcript} {s : BashSession} {command shown : List Char}

/-- Only what comes after is left, but for white space. -/
theorem Upto.bare_output (h : t.Upto s command shown) (more : List Char) (metadata : CmdOutputMetadata) (pre : String) :
    bare (s.getCommandOutput command (t.echo ++ (shown ++ more)) metadata pre).2.2 = bare more := by
  rcases h with ⟨hprev, rfl, rfl⟩ | ⟨hprev, rfl⟩
  · unfold BashSession.getCommandOutput
    dsimp only
    rw [bare_rstrip, if_pos hprev, List.nil_append, bare_removeCommandPrefix t.echo_shown]
  · have hne : s.prevOutput ≠ [] := by
      obtain ⟨c, hc, -⟩ := t.echo_shown
      rw [hprev]
      exact List.append_ne_nil_of_left_ne_nil (List.ne_nil_of_mem hc) shown
    unfold BashSession.getCommandOutput
    dsimp only
    rw [bare_rstrip, if_neg hne, hprev, ← List.append_assoc, removePrefix_append, bare_removeCommandPrefix_nil]

/-! ## One look -/

variable {w : Watch} {more : List Char} {lastChangeTime checkedAt elapsedAt : ℚ}

/-- The next part of the output is returned. -/
def Returns (o : CmdOutputObservation) (more : List Char) : Prop :=
  ∃ piece, Delivers o piece ∧ bare piece = bare more

theorem Upto.unfinished (h : t.Upto s command shown) (more : List Char) (status : BashCommandStatus) (suffix : String) :
    ∃ s' o, ({ s with prevStatus := some status } : BashSession).handleUnfinished command
        (t.running (shown ++ more)) [t.first] suffix = (s', o) ∧
      s'.prevStatus = some status ∧ s'.prevOutput = t.echo ++ (shown ++ more) ∧ Returns o more := by
  have hkept : t.Upto { s with prevStatus := some status } command shown := h
  have hbare := hkept.bare_output more { suffix } "[Below is the output of the previous command.]\n"
  rw [BashSession.handleUnfinished, combine_running]
  exact ⟨_, _, rfl, rfl, rfl, _, delivers_observation _ _ _ _, hbare⟩

theorem timedOut_of_status {s' : BashSession} {status : BashCommandStatus} (h : s'.prevStatus = some status)
    (hstatus : status = .noChangeTimeout ∨ status = .hardTimeout) : s'.timedOut = true := by
  rw [BashSession.timedOut, h]
  rcases hstatus with rfl | rfl <;> rfl

/-- While the command runs a look gives no answer, or the next part of the output at a timeout. -/
theorem Upto.look_running (h : t.Upto s w.command shown) (hcount : 1 ≤ w.initialPs1Count)
    (hmore : shown ++ more <+: t.output) {answer : Except BashError (BashSession × CmdOutputObservation)}
    (hlook : look w s (t.running (shown ++ more)) lastChangeTime checkedAt elapsedAt = some answer) :
    ∃ s' o, answer = .ok (s', o) ∧ s'.timedOut = true ∧ s'.prevOutput = t.echo ++ (shown ++ more) ∧ Returns o more := by
  have hcheck : ¬ (w.initialPs1Count < [t.first].length ∨ atPrompt (t.running (shown ++ more))) := fun hor =>
    hor.elim (fun hlt => absurd hcount (not_le.mpr hlt)) (t.not_atPrompt_running hmore)
  rw [look, t.ps1Matches_running hmore, if_neg hcheck] at hlook
  split at hlook
  · obtain ⟨s', o, hanswer, hstatus, hprev, hreturns⟩ := h.unfinished more .noChangeTimeout
      ("\n[The command has no new output after " ++ toString s.noChangeTimeoutSeconds ++ " seconds. " ++
        BashSession.TIMEOUT_MESSAGE_TEMPLATE ++ "]")
    rw [BashSession.handleNochangeTimeoutCommand, hanswer] at hlook
    exact ⟨s', o, (Option.some.inj hlook).symm, timedOut_of_status hstatus (.inl rfl), hprev, hreturns⟩
  · split at hlook
    · split at hlook
      next timeout _ _ =>
        obtain ⟨s', o, hanswer, hstatus, hprev, hreturns⟩ := h.unfinished more .hardTimeout
          ("\n[The command timed out after " ++ timeout.text ++ " seconds. " ++ BashSession.TIMEOUT_MESSAGE_TEMPLATE ++ "]")
        rw [BashSession.handleHardTimeoutCommand, hanswer] at hlook
        exact ⟨s', o, (Option.some.inj hlook).symm, timedOut_of_status hstatus (.inr rfl), hprev, hreturns⟩
      · cases hlook
    · cases hlook

/-- There is an answer when nothing has changed for long enough. -/
theorem look_nochange (hmore : shown <+: t.output) (hcount : 1 ≤ w.initialPs1Count) (hblocking : w.action.blocking = false)
    (htime : s.noChangeTimeoutSeconds ≤ checkedAt - lastChangeTime) :
    ∃ answer, look w s (t.running shown) lastChangeTime checkedAt elapsedAt = some answer := by
  have hcheck : ¬ (w.initialPs1Count < [t.first].length ∨ atPrompt (t.running shown)) := fun hor =>
    hor.elim (fun hlt => absurd hcount (not_le.mpr hlt)) (t.not_atPrompt_running hmore)
  rw [look, t.ps1Matches_running hmore, if_neg hcheck, if_pos ⟨hblocking, htime⟩]
  exact ⟨_, rfl⟩

/-- The last prompt ends the command, with the rest of the output. -/
theorem Upto.look_finished (h : t.Upto s w.command shown) (hmore : t.output = shown ++ more) :
    ∃ s' o, look w s t.finished lastChangeTime checkedAt elapsedAt = some (.ok (s', o)) ∧
      s'.prevStatus = some .completed ∧ o.hidden = w.action.hidden ∧ Returns o more := by
  obtain ⟨metadata, hread⟩ := t.readable
  have hlast : [t.first, t.second].getLast? = some t.second := rfl
  have hread : fromPs1Match t.second.body = .ok metadata := hread
  have hsingle : ([t.first, t.second].length == 1) = false := rfl
  have hraw : t.echo ++ (t.output ++ '\n' :: '\n' :: t.tail.drop 1) =
      t.echo ++ (shown ++ (more ++ '\n' :: '\n' :: t.tail.drop 1)) := by
    rw [hmore, List.append_assoc]
  rw [look, t.ps1Matches_finished, if_pos (.inr t.atPrompt_finished), BashSession.handleCompletedCommand, hlast]
  dsimp only
  rw [hread]
  dsimp only
  rw [hsingle, combine_finished, hraw]
  refine ⟨_, _, rfl, rfl, rfl, _, delivers_observation _ _ _ _, ?_⟩
  have hblank : ∀ c ∈ '\n' :: '\n' :: t.tail.drop 1, isSpace c = true :=
    List.forall_mem_cons.mpr ⟨by decide, List.forall_mem_cons.mpr ⟨by decide, fun c hc => t.tail_blank c (List.mem_of_mem_drop hc)⟩⟩
  rw [h.bare_output, bare_append, bare_of_blank hblank, List.append_nil]

end Transcript

/-! ## One call -/

/-- The answer was given at one of the looks, and the session had not changed before. -/
theorem watch_ok {w : Watch} {s : BashSession} {rs : List Reading} {lastPaneOutput : List Char} {lastChangeTime : ℚ}
    {answer : BashSession × CmdOutputObservation} (h : watch w s lastPaneOutput lastChangeTime rs = .ok answer) :
    ∃ r ∈ rs, ∃ change, look w s r.pane change r.checkedAt r.elapsedAt = some (.ok answer) := by
  induction rs generalizing lastPaneOutput lastChangeTime with
  | nil => cases h
  | cons r rs ih =>
    rw [watch] at h
    split at h
    next found hfound =>
      subst h
      exact ⟨r, List.mem_cons_self, _, hfound⟩
    next hnone =>
      obtain ⟨r', hr', hlook⟩ := ih h
      exact ⟨r', List.mem_cons_of_mem r hr', hlook⟩

theorem watch_one {w : Watch} {s : BashSession} {r : Reading} {lastPaneOutput : List Char} {lastChangeTime : ℚ}
    {answer : Except BashError (BashSession × CmdOutputObservation)}
    (h : ∀ change ∈ [lastChangeTime, r.changedAt], look w s r.pane change r.checkedAt r.elapsedAt = some answer) :
    watch w s lastPaneOutput lastChangeTime [r] = answer := by
  rw [watch]
  split_ifs
  · rw [h lastChangeTime List.mem_cons_self]
  · rw [h r.changedAt (List.mem_cons_of_mem _ List.mem_cons_self)]

def Answer.content : Answer → List Char
  | .output o => o.content.toList
  | .error content => content.toList

/-- The answer is an output with this piece. -/
def Answer.Has (a : Answer) (piece : List Char) : Prop := ∃ o, a = .output o ∧ Delivers o piece

namespace BashSession

/-- No command was left running. -/
structure Ready (s : BashSession) : Prop where
  status : s.prevStatus = none ∨ s.prevStatus = some .completed
  output : s.prevOutput = []

theorem execute_command {host : Host} {s : BashSession} {c : Call} (hs : s.Ready) (hcommand : c.command ≠ [])
    (hinput : c.action.isInput = false) (hsingle : (splitBashCommands host c.command).length ≤ 1) :
    s.execute host c =
      (watch (c.watch host) s c.initialPane c.startTime c.readings).map fun answer => (answer.1, .output answer.2) := by
  have hrunning : (s.prevStatus == some .continuing || s.timedOut) = false := by
    rw [timedOut]
    rcases hs.status with h | h <;> rw [h] <;> rfl
  have htimedOut : ¬ s.timedOut = true := by
    rw [timedOut]
    rcases hs.status with h | h <;> rw [h] <;> decide
  rw [execute]
  dsimp only
  rw [if_neg fun h => hcommand h.2, if_neg (by rw [hinput]; exact fun h => Bool.false_ne_true h.2),
    if_neg (not_lt.mpr hsingle), if_neg fun h => htimedOut h.1]

theorem execute_empty {host : Host} {s : BashSession} {c : Call} (hs : s.timedOut = true) (hcommand : c.command = []) :
    s.execute host c =
      (watch (c.watch host) s c.initialPane c.startTime c.readings).map fun answer => (answer.1, .output answer.2) := by
  have hrunning : ¬ (s.prevStatus == some .continuing || s.timedOut) = false := by
    rw [hs, Bool.or_true]
    decide
  have hsingle : ¬ 1 < (splitBashCommands host c.command).length := by
    rw [hcommand, splitBashCommands, if_pos (show strip [] = [] from rfl)]
    decide
  rw [execute]
  dsimp only
  rw [if_neg fun h => hrunning h.1, if_neg fun h => hrunning h.1, if_neg hsingle, if_neg fun h => h.2.2.2 hcommand]

end BashSession

namespace Transcript

variable {t : Transcript} {s s' : BashSession} {c : Call} {host : Host} {a : Answer} {shown : List Char}

theorem running_begins {u v : List Char} : t.running u <+: t.running v ↔ u <+: v := by
  rw [running, running, List.prefix_append_right_inj, List.prefix_cons_inj, List.prefix_append_right_inj]

theorem running_finished : t.running t.output <+: t.finished := by
  rw [running, finished, List.prefix_append_right_inj, List.prefix_cons_inj]
  exact List.prefix_append _ _

theorem Returns.has {o : CmdOutputObservation} {more : List Char} (h : Returns o more) :
    ∃ piece, (Answer.output o).Has piece ∧ bare piece = bare more := by
  obtain ⟨piece, hpiece, hbare⟩ := h
  exact ⟨piece, ⟨o, rfl, hpiece⟩, hbare⟩

/-- What a call returns: a part of the output at a timeout, or the rest of it with the last prompt. -/
theorem Upto.call (h : t.Upto s (c.sent host) shown) (hcount : 1 ≤ (ps1Matches c.initialPane).length)
    (hshows : ∀ r ∈ c.readings, t.Shows r.pane ∧ t.running shown <+: r.pane) (hshown : shown <+: t.output)
    (hexecute : (watch (c.watch host) s c.initialPane c.startTime c.readings).map
      (fun answer => (answer.1, Answer.output answer.2)) = .ok (s', a)) :
    ∃ more, (∃ r ∈ c.readings, t.running (shown ++ more) <+: r.pane) ∧ (∃ piece, a.Has piece ∧ bare piece = bare more) ∧
      ((s'.timedOut = true ∧ s'.prevOutput = t.echo ++ (shown ++ more) ∧ shown ++ more <+: t.output) ∨
        (s'.prevStatus = some .completed ∧ t.output = shown ++ more)) := by
  obtain ⟨⟨s₁, o⟩, hwatch, hpair⟩ := Py.map_ok hexecute
  obtain ⟨rfl, rfl⟩ := Prod.mk.inj hpair
  obtain ⟨r, hr, change, hlook⟩ := watch_ok hwatch
  have hupto : t.Upto s (c.watch host).command shown := h
  obtain ⟨⟨part, hpart, hpane⟩ | hpane, hlater⟩ := hshows r hr
  · rw [hpane, running_begins] at hlater
    obtain ⟨more, rfl⟩ := hlater
    rw [hpane] at hlook
    obtain ⟨s₂, o₂, hanswer, hstatus, hprev, hreturns⟩ := hupto.look_running hcount hpart hlook
    obtain ⟨rfl, rfl⟩ := Prod.mk.inj (Except.ok.inj hanswer)
    exact ⟨more, ⟨r, hr, hpane ▸ List.prefix_rfl⟩, hreturns.has, .inl ⟨hstatus, hprev, hpart⟩⟩
  · obtain ⟨more, hmore⟩ := hshown
    rw [hpane] at hlook
    have hfinished : ∃ s' o, look (c.watch host) s t.finished change r.checkedAt r.elapsedAt = some (.ok (s', o)) ∧
        s'.prevStatus = some .completed ∧ o.hidden = c.action.hidden ∧ Returns o more := hupto.look_finished hmore.symm
    obtain ⟨s₂, o₂, hanswer, hstatus, -, hreturns⟩ := hfinished
    rw [hanswer] at hlook
    obtain ⟨rfl, rfl⟩ := Prod.mk.inj (Except.ok.inj (Option.some.inj hlook))
    have hseen : t.running (shown ++ more) <+: r.pane := by
      rw [hpane, hmore]
      exact running_finished
    exact ⟨more, ⟨r, hr, hseen⟩, hreturns.has, .inr ⟨hstatus, hmore.symm⟩⟩

theorem count_pos {pane : List Char} (h : t.Shows pane) : 1 ≤ (ps1Matches pane).length := by
  rcases h with ⟨shown, hshown, rfl⟩ | rfl
  · rw [t.ps1Matches_running hshown, List.length_singleton]
  · rw [t.ps1Matches_finished]
    exact Nat.le_add_left 1 1

end Transcript

/-! ## The whole command -/

/-- One call after the other, with the session after each and its answer. -/
def BashSession.executeAll (host : Host) : BashSession → List Call → Except BashError (List (BashSession × Answer))
  | _, [] => .ok []
  | s, c :: cs =>
    match s.execute host c with
    | .error e => .error e
    | .ok answer => (executeAll host answer.1 cs).map (answer :: ·)

/-- What a later call sees. -/
def Call.panes (c : Call) : List (List Char) := c.initialPane :: c.readings.map Reading.pane

theorem BashSession.executeAll_cons {host : Host} {s : BashSession} {c : Call} {cs : List Call}
    {results : List (BashSession × Answer)} (h : s.executeAll host (c :: cs) = .ok results) :
    ∃ s' a later, s.execute host c = .ok (s', a) ∧ s'.executeAll host cs = .ok later ∧ results = (s', a) :: later := by
  rw [executeAll] at h
  split at h
  · cases h
  next answer hanswer =>
    obtain ⟨later, hlater, rfl⟩ := Py.map_ok h
    exact ⟨answer.1, answer.2, later, hanswer, hlater, rfl⟩

theorem not_completed_of_timedOut {s : BashSession} (h : s.timedOut = true) : s.prevStatus ≠ some .completed := by
  intro hstatus
  rw [BashSession.timedOut, hstatus] at h
  cases h

namespace Transcript

variable {t : Transcript} {host : Host}

/-- After a call that returned everything up to here, the later calls return the rest. -/
theorem delivered_rest {calls : List Call} {s : BashSession} {a : Answer} {shown : List Char}
    {results waits : List (BashSession × Answer)} {last : BashSession × Answer}
    (hstate : (s.timedOut = true ∧ s.prevOutput = t.echo ++ shown ∧ shown <+: t.output) ∨
      (s.prevStatus = some .completed ∧ t.output = shown))
    (hempty : ∀ c ∈ calls, c.command = [])
    (hpanes : ∀ pane ∈ calls.flatMap Call.panes, t.Shows pane ∧ t.running shown <+: pane)
    (hgrows : (calls.flatMap Call.panes).Pairwise (· <+: ·)) (hrun : s.executeAll host calls = .ok results)
    (hresults : (s, a) :: results = waits ++ [last]) (hwaits : ∀ r ∈ waits, r.1.timedOut = true)
    (hlast : last.1.prevStatus = some .completed) :
    ∃ pieces more, t.output = shown ++ more ∧ List.Forall₂ (fun r piece => r.2.Has piece) results pieces ∧
      bare pieces.flatten = bare more := by
  induction calls generalizing s a shown results waits with
  | nil =>
    obtain rfl := Except.ok.inj hrun
    obtain ⟨rfl, hsame⟩ : [] = waits ∧ [(s, a)] = [last] := List.append_inj' hresults rfl
    obtain rfl := (List.cons.inj hsame).1
    rcases hstate with ⟨htimedOut, -⟩ | ⟨-, houtput⟩
    · exact absurd hlast (not_completed_of_timedOut htimedOut)
    · exact ⟨[], [], by rw [houtput, List.append_nil], .nil, rfl⟩
  | cons c calls ih =>
    obtain ⟨s', a', later, hexecute, hlater, rfl⟩ := BashSession.executeAll_cons hrun
    obtain ⟨waits, rfl⟩ : ∃ more, waits = (s, a) :: more := by
      cases waits with
      | nil => cases (List.cons.inj hresults).2
      | cons w waits =>
        rw [← (List.cons.inj hresults).1]
        exact ⟨waits, rfl⟩
    have hnow := hwaits (s, a) List.mem_cons_self
    rcases hstate with ⟨htimedOut, hprev, hshown⟩ | ⟨hstatus, -⟩
    · have hc := hempty c List.mem_cons_self
      have hupto : t.Upto s (c.sent host) shown := by
        rw [Call.sent, if_neg fun h => h.1 hc, hc]
        exact .inr ⟨hprev, rfl⟩
      rw [BashSession.execute_empty htimedOut hc] at hexecute
      rw [List.flatMap_cons] at hpanes hgrows
      have hinitial := hpanes c.initialPane (List.mem_append_left _ List.mem_cons_self)
      have hread {r : Reading} (hr : r ∈ c.readings) : r.pane ∈ c.panes :=
        List.mem_cons_of_mem _ (List.mem_map_of_mem hr)
      obtain ⟨more, ⟨r, hr, hseen⟩, ⟨piece, hpiece, hbare⟩, hafter⟩ := hupto.call (count_pos hinitial.1)
        (fun r hr => hpanes r.pane (List.mem_append_left _ (hread hr))) hshown hexecute
      obtain ⟨-, hgrows, hbefore⟩ := List.pairwise_append.mp hgrows
      have hbehind : ∀ pane ∈ calls.flatMap Call.panes, t.Shows pane ∧ t.running (shown ++ more) <+: pane :=
        fun pane hpane =>
          ⟨(hpanes pane (List.mem_append_right _ hpane)).1, hseen.trans (hbefore r.pane (hread hr) pane hpane)⟩
      obtain ⟨pieces, rest, houtput, hpieces, hrest⟩ := ih hafter (fun c hc => hempty c (List.mem_cons_of_mem _ hc))
        hbehind hgrows hlater (List.cons.inj hresults).2 fun r hr => hwaits r (List.mem_cons_of_mem _ hr)
      refine ⟨piece :: pieces, more ++ rest, ?_, .cons hpiece hpieces, ?_⟩
      · rw [houtput, List.append_assoc]
      · rw [List.flatten_cons, bare_append, bare_append, hbare, hrest]
    · exact absurd hstatus (not_completed_of_timedOut hnow)

/-- A command is typed into an idle terminal and waited for by empty commands, while the terminal shows its
transcript and only grows. -/
structure Observed (host : Host) (t : Transcript) (command : Call) (more : List Call) : Prop where
  plain : command.action.isInput = false
  single : (splitBashCommands host command.command).length ≤ 1
  typed : escapeBashSpecialChars host command.command = t.echo
  idle : command.initialPane = t.idle
  empty : ∀ c ∈ more, c.command = []
  shows : ∀ pane ∈ command.readings.map Reading.pane ++ more.flatMap Call.panes, t.Shows pane
  grows : (command.readings.map Reading.pane ++ more.flatMap Call.panes).Pairwise (· <+: ·)

variable {command : Call} {more : List Call} {s : BashSession} {waits : List (BashSession × Answer)}
  {last : BashSession × Answer}

theorem running_of_shows {pane : List Char} (h : t.Shows pane) : t.running [] <+: pane := by
  rcases h with ⟨shown, -, rfl⟩ | rfl
  · exact running_begins.mpr List.nil_prefix
  · exact (running_begins.mpr List.nil_prefix).trans running_finished

/-- A command that is not empty is typed. -/
theorem Observed.command_ne (h : Observed host t command more) : command.command ≠ [] := by
  intro hnil
  obtain ⟨c, hc, -⟩ := t.echo_shown
  have htyped := h.typed
  rw [hnil, escapeBashSpecialChars, if_pos (show strip [] = [] from rfl)] at htyped
  rw [← htyped] at hc
  cases hc

theorem content_of_has {a : Answer} {piece : List Char} (h : a.Has piece) (hshort : piece.length ≤ MAX_CMD_OUTPUT_SIZE) :
    a.content = piece := by
  obtain ⟨o, rfl, ho⟩ := h
  have hwhole : Truncation.maybeTruncate piece = piece := if_pos (by exact_mod_cast hshort)
  rw [Delivers, hwhole, ite_self] at ho
  exact ho

theorem contents_of_has {answers : List (BashSession × Answer)} {pieces : List (List Char)}
    (h : List.Forall₂ (fun r piece => r.2.Has piece) answers pieces)
    (hshort : ∀ piece ∈ pieces, piece.length ≤ MAX_CMD_OUTPUT_SIZE) :
    (answers.flatMap fun r => r.2.content) = pieces.flatten := by
  induction h with
  | nil => rfl
  | cons hpiece _ ih =>
    rw [List.flatMap_cons, List.flatten_cons, content_of_has hpiece (hshort _ List.mem_cons_self),
      ih fun piece hp => hshort piece (List.mem_cons_of_mem _ hp)]

/-- The answers have pieces that together are the output, each once; where no piece is too long for an
answer, the answers are the output. -/
theorem delivered_once (h : Observed host t command more) (hs : s.Ready)
    (hrun : s.executeAll host (command :: more) = .ok (waits ++ [last])) (hwaits : ∀ r ∈ waits, r.1.timedOut = true)
    (hlast : last.1.prevStatus = some .completed) :
    ∃ pieces, List.Forall₂ (fun r piece => r.2.Has piece) (waits ++ [last]) pieces ∧
      bare pieces.flatten = bare t.output ∧
      ((∀ piece ∈ pieces, piece.length ≤ MAX_CMD_OUTPUT_SIZE) →
        bare ((waits ++ [last]).flatMap fun r => r.2.content) = bare t.output) := by
  obtain ⟨s', a, later, hexecute, hlater, hresults⟩ := BashSession.executeAll_cons hrun
  have hupto : t.Upto s (command.sent host) [] := by
    rw [Call.sent, if_pos ⟨h.command_ne, h.plain⟩, h.typed]
    exact .inl ⟨hs.output, rfl, rfl⟩
  have hcount : 1 ≤ (ps1Matches command.initialPane).length := by
    rw [h.idle, t.ps1Matches_idle, List.length_singleton]
  have hread {r : Reading} (hr : r ∈ command.readings) : r.pane ∈ command.readings.map Reading.pane :=
    List.mem_map_of_mem hr
  have hshows {pane : List Char} (hpane : pane ∈ command.readings.map Reading.pane ++ more.flatMap Call.panes) :
      t.Shows pane ∧ t.running [] <+: pane := ⟨h.shows pane hpane, running_of_shows (h.shows pane hpane)⟩
  rw [BashSession.execute_command hs h.command_ne h.plain h.single] at hexecute
  obtain ⟨part, ⟨r, hr, hseen⟩, ⟨piece, hpiece, hbare⟩, hafter⟩ := hupto.call hcount
    (fun r hr => hshows (List.mem_append_left _ (hread hr))) List.nil_prefix hexecute
  obtain ⟨-, hgrows, hbefore⟩ := List.pairwise_append.mp h.grows
  obtain ⟨pieces, rest, houtput, hpieces, hrest⟩ := delivered_rest hafter h.empty
    (fun pane hpane => ⟨h.shows pane (List.mem_append_right _ hpane), hseen.trans (hbefore r.pane (hread hr) pane hpane)⟩)
    hgrows hlater hresults.symm hwaits hlast
  have hall : List.Forall₂ (fun r piece => r.2.Has piece) (waits ++ [last]) (piece :: pieces) := by
    rw [hresults]
    exact .cons hpiece hpieces
  have hwhole : bare (piece :: pieces).flatten = bare t.output := by
    rw [List.flatten_cons, bare_append, hbare, hrest, houtput, List.nil_append, bare_append]
  refine ⟨piece :: pieces, hall, hwhole, fun hshort => ?_⟩
  rw [contents_of_has hall hshort, hwhole]

end Transcript

/-! ## A command that prints one line -/

section OneLine

def shellHost : Host := ⟨fun command => [command], id, fun c => String.singleton c.toUpper⟩

def barePrompt : Prompt := ⟨"\n\x7b\x7d\n".toList, by decide +kernel, by decide +kernel, by decide +kernel⟩

variable (line : List Char) (hmark : '#' ∉ line)

/-- `yes` prints the line. -/
def oneLine : Transcript where
  lead := []
  before := barePrompt
  echo := "yes".toList
  output := '\n' :: line
  after := barePrompt
  tail := []
  lead_blank _ hc := absurd hc List.not_mem_nil
  lead_line := rfl
  echo_shown := ⟨'y', by decide, by decide⟩
  quiet := by
    have hnot : '#' ∉ "yes".toList ++ '\n' :: line := by
      simp only [List.mem_append, List.mem_cons, hmark, or_false]
      decide
    exact ⟨quiet_of_missing (by decide) hnot true, quiet_of_missing (by decide) hnot true⟩
  readable := by
    have hloads : Json.loads "\n\x7b\x7d\n".toList = some (.obj []) := by decide +kernel
    exact ⟨{}, by rw [fromPs1Match, barePrompt, hloads]; rfl⟩
  tail_blank _ hc := absurd hc List.not_mem_nil

def promptLines : List (List Char) := ["###PS1JSON###".toList, ['{', '}'], "###PS1END###".toList]

/-- The first answer comes before the line is printed, the second one with the next prompt. -/
def typeYes : Call :=
  { action := { command := "yes" }, initial := promptLines, startTime := 0,
    readings := [⟨promptLines ++ ["yes".toList], 0, 0, 0⟩] }

def waitOn : Call :=
  { action := { command := "" }, initial := promptLines ++ ["yes".toList], startTime := 0,
    readings := [⟨promptLines ++ "yes".toList :: line :: promptLines, 0, 0, 0⟩] }

def freshSession : BashSession := ⟨0, "/home/alice", none, []⟩

theorem pane_idle : paneContent promptLines = (oneLine line hmark).idle := by
  change paneContent promptLines = [] ++ block "\n\x7b\x7d\n".toList
  decide

theorem pane_typed : paneContent (promptLines ++ ["yes".toList]) = (oneLine line hmark).running [] := by
  change paneContent (promptLines ++ ["yes".toList]) = [] ++ block "\n\x7b\x7d\n".toList ++ '\n' :: ("yes".toList ++ [])
  decide

theorem pane_printed (hline : rstrip line = line) :
    paneContent (promptLines ++ "yes".toList :: line :: promptLines) = (oneLine line hmark).finished := by
  have hprompt : promptLines.map rstrip = promptLines := by decide
  have hyes : rstrip "yes".toList = "yes".toList := by decide
  rw [paneContent, List.map_append, List.map_cons, List.map_cons, hprompt, hyes, hline]
  rfl

theorem observed_oneLine (hline : rstrip line = line) :
    (oneLine line hmark).Observed shellHost typeYes [waitOn line] := by
  have hpanes : typeYes.readings.map Reading.pane ++ [waitOn line].flatMap Call.panes =
      [(oneLine line hmark).running [], (oneLine line hmark).running [], (oneLine line hmark).finished] := by
    rw [← pane_typed, ← pane_printed line hmark hline]
    rfl
  have hlater := Transcript.running_of_shows (t := oneLine line hmark) (.inr rfl)
  refine ⟨rfl, by decide, ?_, pane_idle line hmark, ?_, ?_, ?_⟩
  · change escapeBashSpecialChars shellHost typeYes.command = "yes".toList
    decide
  · intro c hc
    rw [List.mem_singleton.mp hc]
    rfl
  · rw [hpanes]
    intro pane hpane
    simp only [List.mem_cons, List.not_mem_nil, or_false] at hpane
    rcases hpane with rfl | rfl | rfl
    · exact .inl ⟨[], List.nil_prefix, rfl⟩
    · exact .inl ⟨[], List.nil_prefix, rfl⟩
    · exact .inr rfl
  · rw [hpanes]
    simp only [List.pairwise_cons, List.mem_cons, List.not_mem_nil, or_false, forall_eq_or_imp, forall_eq]
    exact ⟨⟨List.prefix_rfl, hlater⟩, hlater, nofun, List.Pairwise.nil⟩

include hmark in
/-- Two calls: nothing is printed before the first answer, everything before the second one. -/
theorem run_oneLine (hline : rstrip line = line) : ∃ w s' o,
    freshSession.executeAll shellHost [typeYes, waitOn line] = .ok ([w] ++ [(s', .output o)]) ∧ w.1.timedOut = true ∧
      s'.prevStatus = some .completed ∧ o.hidden = false ∧ Transcript.Returns o ('\n' :: line) := by
  let t := oneLine line hmark
  have hready : freshSession.Ready := ⟨.inl rfl, rfl⟩
  have hsent : (typeYes.watch shellHost).command = "yes".toList := by decide
  have hupto : t.Upto freshSession (typeYes.watch shellHost).command [] := .inl ⟨rfl, hsent, rfl⟩
  have hidle : ps1Matches typeYes.initialPane = [t.first] := by
    rw [← t.ps1Matches_idle, ← pane_idle]
    rfl
  have hcount : 1 ≤ (typeYes.watch shellHost).initialPs1Count := by
    change 1 ≤ (ps1Matches typeYes.initialPane).length
    rw [hidle, List.length_singleton]
  have htime : (freshSession.noChangeTimeoutSeconds : ℚ) ≤ 0 - 0 := by
    rw [sub_zero]
    exact le_rfl
  have hsame {x : ℚ} (hx : x ∈ [(0 : ℚ), 0]) : x = 0 := by simpa using hx
  -- the first answer
  obtain ⟨answer, hlook⟩ : ∃ answer, look (typeYes.watch shellHost) freshSession (t.running []) 0 0 0 = some answer :=
    Transcript.look_nochange List.nil_prefix hcount rfl htime
  obtain ⟨s₁, o₁, rfl, htimedOut, hprev, -⟩ := hupto.look_running hcount List.nil_prefix hlook
  have hfirst : freshSession.execute shellHost typeYes = .ok (s₁, .output o₁) := by
    have hwatch : watch (typeYes.watch shellHost) freshSession typeYes.initialPane 0 typeYes.readings = .ok (s₁, o₁) := by
      refine watch_one fun change hchange => ?_
      rw [hsame hchange, Reading.pane, pane_typed line hmark]
      exact hlook
    rw [BashSession.execute_command hready (by decide) rfl (by decide)]
    change (watch (typeYes.watch shellHost) freshSession typeYes.initialPane 0 typeYes.readings).map _ = _
    rw [hwatch]
    rfl
  -- the second one
  have hlater : t.Upto s₁ ((waitOn line).watch shellHost).command [] := .inr ⟨hprev, rfl⟩
  obtain ⟨s₂, o₂, hlook, hcompleted, hhidden, hreturns⟩ : ∃ s' o,
      look ((waitOn line).watch shellHost) s₁ t.finished 0 0 0 = some (.ok (s', o)) ∧
        s'.prevStatus = some .completed ∧ o.hidden = false ∧ Transcript.Returns o ('\n' :: line) :=
    hlater.look_finished rfl
  have hsecond : s₁.execute shellHost (waitOn line) = .ok (s₂, .output o₂) := by
    have hwatch : watch ((waitOn line).watch shellHost) s₁ (waitOn line).initialPane 0 (waitOn line).readings =
        .ok (s₂, o₂) := by
      refine watch_one fun change hchange => ?_
      rw [hsame hchange, Reading.pane, pane_printed line hmark hline]
      exact hlook
    rw [BashSession.execute_empty htimedOut rfl]
    change (watch ((waitOn line).watch shellHost) s₁ (waitOn line).initialPane 0 (waitOn line).readings).map _ = _
    rw [hwatch]
    rfl
  refine ⟨(s₁, .output o₁), s₂, o₂, ?_, htimedOut, hcompleted, hhidden, hreturns⟩
  rw [BashSession.executeAll, hfirst]
  dsimp only
  rw [BashSession.executeAll, hsecond]
  rfl

end OneLine

/-- The line `aaa` arrives. -/
theorem delivered_once_aaa : ∃ (waits : List (BashSession × Answer)) (last : BashSession × Answer),
    freshSession.executeAll shellHost [typeYes, waitOn "aaa".toList] = .ok (waits ++ [last]) ∧
      ∃ pieces, List.Forall₂ (fun r piece => r.2.Has piece) (waits ++ [last]) pieces ∧
        bare pieces.flatten = "aaa".toList ∧
        ((∀ piece ∈ pieces, piece.length ≤ MAX_CMD_OUTPUT_SIZE) →
          bare ((waits ++ [last]).flatMap fun r => r.2.content) = "aaa".toList) := by
  have hmark : '#' ∉ "aaa".toList := by decide
  obtain ⟨w, s', o, hrun, hwait, hlast, -, -⟩ := run_oneLine "aaa".toList hmark (by decide)
  have hwaits : ∀ r ∈ [w], r.1.timedOut = true := fun r hr => by
    rw [List.mem_singleton.mp hr]
    exact hwait
  obtain ⟨pieces, hpieces, hbare, hwhole⟩ := Transcript.delivered_once
    (observed_oneLine "aaa".toList hmark (by decide)) ⟨.inl rfl, rfl⟩ hrun hwaits hlast
  exact ⟨[w], (s', .output o), hrun, pieces, hpieces, hbare, hwhole⟩

/-- A longer line than an answer may have comes back with a notice in it. -/
theorem output_cut : ¬ ∀ (host : Host) (t : Transcript) (command : Call) (more : List Call) (s : BashSession)
    (waits : List (BashSession × Answer)) (last : BashSession × Answer), t.Observed host command more → s.Ready →
    s.executeAll host (command :: more) = .ok (waits ++ [last]) → (∀ r ∈ waits, r.1.timedOut = true) →
    last.1.prevStatus = some .completed →
    bare ((waits ++ [last]).flatMap fun r => r.2.content) = bare t.output := by
  intro h
  obtain ⟨line, hletters, hline, hlong⟩ : ∃ line, (∀ c ∈ line, c = 'a') ∧ rstrip line = line ∧
      MAX_CMD_OUTPUT_SIZE < line.length := by
    refine ⟨List.replicate 30001 'a', fun c => List.eq_of_mem_replicate, ?_, ?_⟩
    · rw [List.replicate_succ']
      exact rstrip_of_last _ (by decide)
    · rw [List.length_replicate]
      decide
  have hmark : '#' ∉ line := fun hc => absurd (hletters '#' hc) (by decide)
  obtain ⟨w, s', o, hrun, hwait, hlast, hhidden, piece, hpiece, hbare⟩ := run_oneLine line hmark hline
  have hwaits : ∀ r ∈ [w], r.1.timedOut = true := fun r hr => by
    rw [List.mem_singleton.mp hr]
    exact hwait
  have hall := h shellHost (oneLine line hmark) typeYes [waitOn line] freshSession [w] (s', .output o)
    (observed_oneLine line hmark hline) ⟨.inl rfl, rfl⟩ hrun hwaits hlast
  have hlonger : MAX_CMD_OUTPUT_SIZE < piece.length := by
    have hkept : bare line = line := List.filter_eq_self.mpr fun c hc => by
      rw [hletters c hc]
      decide
    have hsame : bare piece = line := hbare.trans hkept
    refine hlong.trans_le ?_
    rw [← hsame]
    exact List.length_filter_le _ piece
  have hnotice : '[' ∈ o.content.toList := by
    rw [hpiece, hhidden, if_neg Bool.false_ne_true, Truncation.maybeTruncate, if_neg (by exact_mod_cast not_le.mpr hlonger)]
    exact List.mem_append_left _ (List.mem_append_right _ (by decide))
  have hcontents : '[' ∈ bare (([w] ++ [(s', Answer.output o)]).flatMap fun r => r.2.content) :=
    List.mem_filter.mpr ⟨List.mem_flatMap.mpr ⟨(s', .output o), by simp, hnotice⟩, by decide⟩
  rw [hall] at hcontents
  rcases List.mem_cons.mp (List.mem_filter.mp hcontents).1 with hc | hc
  · exact absurd hc (by decide)
  · exact absurd (hletters '[' hc) (by decide)

end Bash

end OpenHands
