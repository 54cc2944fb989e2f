import OpenHandsSWE.Controller.CachedView
import OpenHandsSWE.Lib.Text

/-! The detector of loops in a history, and where in the history it says that a loop began. -/

namespace OpenHands

open ConversationMemory

namespace StuckDetector

inductive LoopType where
  | repeatingActionObservation
  | repeatingActionError
  | monologue
  | repeatingActionObservationPattern
  | contextWindowError
deriving DecidableEq, Repr

structure StuckAnalysis where
  loopType : LoopType
  loopRepeatTimes : Nat
  loopStartIdx : Nat
deriving DecidableEq, Repr

def unterminatedString : String := "SyntaxError: unterminated string literal (detected at line"

/-- The `SYNTAX_ERROR_MESSAGES` after the first one. -/
def invalidSyntaxMessages : List String :=
  ["SyntaxError: invalid syntax. Perhaps you forgot a comma?", "SyntaxError: incomplete input"]

def isNull (e : Event) : Bool := e.body matches .action .null | .observation (.null _)

def isAgentMessage (e : Event) : Bool :=
  match e.body with
  | .action (.message _) => e.source = some .agent
  | _ => false

def isError (e : Event) : Bool := e.body matches .observation (.error _)

def isCondensation (e : Event) : Bool := e.body matches .observation (.agentCondensation _)

def cellContent (e : Event) : Option (List Char) :=
  match e.body with
  | .observation (.ipythonRunCell o) => some o.content.toList
  | _ => none

/-! ## The history looked at -/

/-- Where the part after the last user message begins. -/
def filteredHistoryOffset (headlessMode : Bool) (history : List Event) : Nat :=
  if headlessMode then 0 else history.length - (history.reverse.findIdx isUserMessage)

def keeps (e : Event) : Bool := !(isUserMessage e || isNull e)

def filteredHistory (headlessMode : Bool) (history : List Event) : List Event :=
  (history.drop (filteredHistoryOffset headlessMode history)).filter keeps

/-- The events of a kind with their places, the latest first. -/
def latest (kind : Event → Bool) (filtered : List Event) : List (Event × Nat) :=
  filtered.zipIdx.reverse.filter fun x => kind x.1

/-! ## Equality -/

section
-- the `==` of dataclasses, which compares their fields and not the ids of events
variable (eq : EventBody → EventBody → Bool)

def lines (text : String) : List (List Char) := Text.split ['\n'] text.toList

def editsFile (code : String) : Bool := decide ("edit_file_by_replace(".toList <:+: code.toList)

def eqNoPid (e f : Event) : Bool :=
  match e.body, f.body with
  | .action (.ipythonRunCell a), .action (.ipythonRunCell b) =>
    if editsFile a.code && editsFile b.code then
      decide (2 < (lines a.code).length) && (lines a.code).take 3 == (lines b.code).take 3
    else eq e.body f.body
  | .observation (.cmdOutput o), .observation (.cmdOutput p) =>
    o.command == p.command && o.metadata.exitCode == p.metadata.exitCode
  | b, c => eq b c

/-- `list.index` of an event of the list: the first equal one, at the latest the event itself. -/
def index (filtered : List Event) (x : Event × Nat) : Nat :=
  ((filtered.take x.2).findIdx? fun e => eq e.body x.1.body).getD x.2

/-! ## The scenarios -/

/-- Whether all of them equal the first. -/
def allEqual (events : List Event) : Bool :=
  match events with
  | [] => true
  | e :: _ => events.all (eqNoPid eq e)

/-- The start that is reported for the last of the collected actions. -/
def startIdx (filtered : List Event) (actions : List (Event × Nat)) (offset : Nat) : Nat :=
  (actions.getLast?.map (index eq filtered)).getD 0 + offset

def repeatingActionObservation (lastActions lastObservations : List (Event × Nat)) (filtered : List Event)
    (offset : Nat) : Option StuckAnalysis :=
  if lastActions.length = 4 ∧ lastObservations.length = 4 then
    if allEqual eq (lastActions.map Prod.fst) && allEqual eq (lastObservations.map Prod.fst) then
      some ⟨.repeatingActionObservation, 4, startIdx eq filtered lastActions offset⟩
    else none
  else none

def contentLines (content : List Char) : List (List Char) := Text.split ['\n'] (Text.strip content)

/-- The line `n` from the end, which counts from 1. -/
def lineFromEnd (ls : List (List Char)) (n : Nat) : List Char := ls.getD (ls.length - n) []

def endsInJupyter (ls : List (List Char)) : Bool :=
  decide ("[Jupyter Python interpreter:".toList <+: lineFromEnd ls 1) &&
    decide ("[Jupyter current working directory:".toList <+: lineFromEnd ls 2)

def checkForConsistentInvalidSyntax (contents : List (List Char)) (errorMessage : String) : Bool :=
  let split := contents.map contentLines
  let valid := split.filter fun ls => endsInJupyter ls && decide (errorMessage.toList <:+: lineFromEnd ls 3)
  split.all (fun ls => decide (6 ≤ ls.length) && decide ("Cell In[1], line".toList <+: Text.strip (ls.getD 0 []))) &&
    decide ((split.map fun ls => Text.strip (ls.getD 0 [])).dedup.length = 1) && decide (valid.length = 3) &&
    decide ((valid.map (lineFromEnd · 3)).dedup.length = 1)

def checkForConsistentLineError (contents : List (List Char)) (errorMessage : String) : Bool :=
  let split := contents.map contentLines
  let errorLines := (split.map (lineFromEnd · 3)).filter fun line => decide (errorMessage.toList <:+: line)
  split.all (fun ls => decide (3 ≤ ls.length) && endsInJupyter ls) && decide (errorLines.length = 3) &&
    decide (errorLines.dedup.length = 1)

/-- The last three observations are all errors, or all the same syntax error of a cell. -/
def sameErrors (observations : List Event) : Bool :=
  if observations.all isError then true
  else if observations.all fun e => (cellContent e).isSome then
    checkForConsistentLineError (observations.filterMap cellContent) unterminatedString ||
      invalidSyntaxMessages.any (checkForConsistentInvalidSyntax (observations.filterMap cellContent))
  else false

def repeatingActionError (lastActions lastObservations : List (Event × Nat)) (filtered : List Event)
    (offset : Nat) : Option StuckAnalysis :=
  if lastActions.length < 3 ∨ lastObservations.length < 3 then none
  else if allEqual eq ((lastActions.take 3).map Prod.fst) && sameErrors ((lastObservations.take 3).map Prod.fst) then
    some ⟨.repeatingActionError, 3, startIdx eq filtered lastActions offset⟩
  else none

/-- Three equal messages of the agent without an observation in between. -/
def monologue (filtered : List Event) (offset : Nat) : Option StuckAnalysis :=
  match latest isAgentMessage filtered with
  | z :: y :: x :: _ =>
    if eq x.1.body y.1.body && eq x.1.body z.1.body &&
        !((filtered.take z.2).drop (x.2 + 1)).any Event.isObservation then
      some ⟨.monologue, 3, x.2 + offset⟩
    else none
  | _ => none

/-- Two steps that take turns. -/
def alternate (events : List Event) : Bool :=
  match events with
  | [a, b, c, d, e, f] => eqNoPid eq a c && eqNoPid eq a e && eqNoPid eq b d && eqNoPid eq b f
  | _ => false

def actionObservationPattern (filtered : List Event) (offset : Nat) : Option StuckAnalysis :=
  let lastSixActions := (latest Event.isAction filtered).take 6
  let lastSixObservations := (latest Event.isObservation filtered).take 6
  if alternate eq (lastSixActions.map Prod.fst) && alternate eq (lastSixObservations.map Prod.fst) then
    some ⟨.repeatingActionObservationPattern, 3, startIdx eq filtered lastSixActions offset⟩
  else none

/-- Two condensations next to each other among the last ten. -/
def contextWindowError (filtered : List Event) (offset : Nat) : Option StuckAnalysis :=
  let condensations := (latest isCondensation filtered).reverse
  if condensations.length < 10 then none
  else
    let lastTen := condensations.drop (condensations.length - 10)
    ((lastTen.zip lastTen.tail).find? fun x =>
      ((filtered.take x.2.2).drop (x.1.2 + 1)).all isCondensation).map fun x =>
        ⟨.contextWindowError, 2, x.1.2 + offset⟩

/-- The analysis when the agent is stuck. -/
def isStuck (history : List Event) (headlessMode : Bool) : Option StuckAnalysis :=
  let offset := filteredHistoryOffset headlessMode history
  let filtered := filteredHistory headlessMode history
  if filtered.length < 3 then none
  else
    let lastActions := (latest Event.isAction filtered).take 4
    let lastObservations := (latest Event.isObservation filtered).take 4
    (repeatingActionObservation eq lastActions lastObservations filtered offset).or
      ((repeatingActionError eq lastActions lastObservations filtered offset).or
        ((monologue eq filtered offset).or
          ((if 6 ≤ filtered.length then actionObservationPattern eq filtered offset else none).or
            (if 10 ≤ filtered.length then contextWindowError filtered offset else none))))

/-! ## The beginning of a loop -/

/-- The events that are looked at, each with its place in the history. -/
def placed (headlessMode : Bool) (history : List Event) : List (Event × Nat) :=
  ((history.drop (filteredHistoryOffset headlessMode history)).zipIdx
    (filteredHistoryOffset headlessMode history)).filter fun x => keeps x.1

/-- The earliest event of the repetition, with its place among the events looked at. -/
def LoopType.earliest (filtered : List Event) : LoopType → Option (Event × Nat)
  | .repeatingActionObservation => (latest Event.isAction filtered)[3]?
  | .repeatingActionError => (latest Event.isAction filtered)[2]?
  | .monologue => (latest isAgentMessage filtered)[2]?
  | .repeatingActionObservationPattern => (latest Event.isAction filtered)[5]?
  | .contextWindowError => none

/-- The place of that event in the history. -/
def loopStart (headlessMode : Bool) (history : List Event) (loopType : LoopType) : Option Nat :=
  (loopType.earliest (filteredHistory headlessMode history)).bind fun x =>
    (placed headlessMode history)[x.2]?.map Prod.snd

/-- The reported start is the place of that event, and cutting there keeps what came before. -/
def CutsAtLoop (s : State) (headlessMode : Bool) (analysis : StuckAnalysis) : Prop :=
  ∃ place, loopStart headlessMode s.history analysis.loopType = some place ∧ analysis.loopStartIdx = place ∧
    (s.truncateMemoryToPoint analysis.loopStartIdx).history = s.history.take place

/-- No user message before the loop in headless mode, no earlier event that equals its first one, and no
fourth action where three were looked for. -/
def Undisturbed (headlessMode : Bool) (history : List Event) (loopType : LoopType) : Prop :=
  let filtered := filteredHistory headlessMode history
  (∀ place, loopStart headlessMode history loopType = some place →
    headlessMode = true → ∀ e ∈ history.take place, isUserMessage e = false) ∧
  (loopType ≠ .monologue → ∀ x, loopType.earliest filtered = some x →
    ∀ e ∈ filtered.take x.2, eq e.body x.1.body = false) ∧
  (loopType = .repeatingActionError → (latest Event.isAction filtered).length = 3)

end

/-! ## Places -/

section Places
variable {eq : EventBody → EventBody → Bool} {filtered history : List Event} {headlessMode : Bool}

theorem getElem?_latest {kind : Event → Bool} {k : Nat} {x : Event × Nat} (h : (latest kind filtered)[k]? = some x) :
    filtered[x.2]? = some x.1 := by
  have hmem := (List.mem_filter.mp (List.mem_of_getElem? h)).1
  exact List.mem_zipIdx_iff_getElem?.mp (List.mem_reverse.mp hmem)

/-- A later place in the list of the latest is an earlier place in the history. -/
theorem latest_lt {kind : Event → Bool} {j k : Nat} (hjk : j < k) {x y : Event × Nat}
    (hx : (latest kind filtered)[j]? = some x) (hy : (latest kind filtered)[k]? = some y) : y.2 < x.2 := by
  have hup : filtered.zipIdx.Pairwise fun a b => a.2 < b.2 := by
    rw [← List.pairwise_map (f := Prod.snd) (R := (· < ·)), List.zipIdx_map_snd]
    exact List.pairwise_lt_range'
  have hdown : (latest kind filtered).Pairwise fun a b => b.2 < a.2 :=
    (List.pairwise_reverse.mpr hup).filter _
  obtain ⟨hj, hx⟩ := List.getElem?_eq_some_iff.mp hx
  obtain ⟨hk, hy⟩ := List.getElem?_eq_some_iff.mp hy
  rw [← hx, ← hy]
  exact List.pairwise_iff_getElem.mp hdown j k hj hk hjk

theorem index_le (x : Event × Nat) : index eq filtered x ≤ x.2 := by
  unfold index
  cases h : (filtered.take x.2).findIdx? fun e => eq e.body x.1.body with
  | none => exact le_rfl
  | some i =>
    obtain ⟨hi, -⟩ := List.findIdx?_eq_some_iff_getElem.mp h
    exact (hi.trans_le (List.length_take_le ..)).le

theorem index_eq_iff (x : Event × Nat) :
    index eq filtered x = x.2 ↔ ∀ e ∈ filtered.take x.2, eq e.body x.1.body = false := by
  unfold index
  cases h : (filtered.take x.2).findIdx? fun e => eq e.body x.1.body with
  | none => exact iff_of_true rfl (List.findIdx?_eq_none_iff.mp h)
  | some i =>
    obtain ⟨hi, heq, -⟩ := List.findIdx?_eq_some_iff_getElem.mp h
    refine iff_of_false ?_ fun hnone => ?_
    · exact (hi.trans_le (List.length_take_le ..)).ne
    · have hfalse := hnone _ (List.getElem_mem hi)
      rw [heq] at hfalse
      exact nomatch hfalse

/-- The place of what a filter keeps tells how much it kept before. -/
theorem getElem?_filter_zipIdx {f : Event → Bool} {events : List Event} {n q : Nat} {x : Event × Nat}
    (h : ((events.zipIdx n).filter fun y => f y.1)[q]? = some x) :
    n ≤ x.2 ∧ events[x.2 - n]? = some x.1 ∧ q = (events.take (x.2 - n)).countP f := by
  induction events generalizing n q with
  | nil => simp at h
  | cons e events ih =>
    rw [List.zipIdx_cons, List.filter_cons] at h
    have hstep : ∀ {r}, ((events.zipIdx (n + 1)).filter fun y => f y.1)[r]? = some x →
        n ≤ x.2 ∧ (e :: events)[x.2 - n]? = some x.1 ∧
          ((e :: events).take (x.2 - n)).countP f = r + if f e then 1 else 0 := by
      intro r hr
      obtain ⟨hle, hget, hcount⟩ := ih hr
      have hsub : x.2 - n = (x.2 - (n + 1)) + 1 := by omega
      refine ⟨by omega, ?_, ?_⟩
      · rw [hsub, List.getElem?_cons_succ]
        exact hget
      · rw [hsub, List.take_succ_cons, List.countP_cons, ← hcount]
    split_ifs at h with hf
    · cases q with
      | zero =>
        obtain rfl := Option.some.inj h
        simp
      | succ r =>
        obtain ⟨hle, hget, hcount⟩ := hstep h
        rw [if_pos hf] at hcount
        exact ⟨hle, hget, hcount.symm⟩
    · obtain ⟨hle, hget, hcount⟩ := hstep h
      rw [if_neg hf] at hcount
      exact ⟨hle, hget, hcount.symm⟩

theorem map_fst_placed : (placed headlessMode history).map Prod.fst = filteredHistory headlessMode history := by
  unfold placed filteredHistory
  conv_rhs => rw [← List.zipIdx_map_fst (filteredHistoryOffset headlessMode history) (history.drop _)]
  rw [List.filter_map]
  rfl

/-- After the last user message there is none. -/
theorem not_user_after {e : Event} (h : e ∈ history.drop (filteredHistoryOffset false history)) :
    isUserMessage e = false := by
  have hoffset : filteredHistoryOffset false history = history.length - history.reverse.findIdx isUserMessage := rfl
  rw [hoffset, ← List.reverse_reverse history, List.drop_reverse, List.mem_reverse, List.reverse_reverse] at h
  have hle : history.reverse.findIdx isUserMessage ≤ history.length := by
    have hle : history.reverse.findIdx isUserMessage ≤ history.reverse.length := List.findIdx_le_length
    rwa [List.length_reverse] at hle
  rw [List.length_reverse, Nat.sub_sub_self hle] at h
  obtain ⟨i, hi, rfl⟩ := List.mem_iff_getElem.mp h
  rw [List.getElem_take]
  have hlt : i < history.reverse.findIdx isUserMessage := (List.length_take ▸ hi).trans_le (min_le_left ..)
  exact List.not_of_lt_findIdx hlt

/-- A place among the events looked at, shifted by the offset, is the place in the history exactly when no
user message was left out before it. -/
theorem placed_place (hnull : ∀ e ∈ history, isNull e = false) {q : Nat} {x : Event × Nat}
    (h : (placed headlessMode history)[q]? = some x) :
    x.2 < history.length ∧ q + filteredHistoryOffset headlessMode history ≤ x.2 ∧
      (q + filteredHistoryOffset headlessMode history = x.2 ↔
        (headlessMode = true → ∀ e ∈ history.take x.2, isUserMessage e = false)) := by
  obtain ⟨hle, hget, hcount⟩ := getElem?_filter_zipIdx h
  generalize hoffset : filteredHistoryOffset headlessMode history = offset at hle hget hcount
  have hlt : x.2 - offset < (history.drop offset).length := (List.getElem?_eq_some_iff.mp hget).1
  have hlength : ((history.drop offset).take (x.2 - offset)).length = x.2 - offset := by
    rw [List.length_take]
    exact min_eq_left hlt.le
  have hcountLe := List.countP_le_length (p := keeps) (l := (history.drop offset).take (x.2 - offset))
  rw [List.length_drop] at hlt
  refine ⟨by omega, by omega, ?_⟩
  have hall : q + offset = x.2 ↔ ∀ e ∈ (history.drop offset).take (x.2 - offset), keeps e = true := by
    rw [← List.countP_eq_length, hlength, ← hcount]
    omega
  have hkeeps : ∀ e ∈ history, (keeps e = true ↔ isUserMessage e = false) := by
    intro e he
    simp [keeps, hnull e he]
  rw [hall]
  cases headlessMode with
  | true =>
    have hzero : offset = 0 := hoffset.symm
    subst hzero
    simp only [List.drop_zero, Nat.sub_zero, forall_const]
    exact forall₂_congr fun e he => hkeeps e (List.mem_of_mem_take he)
  | false =>
    refine iff_of_true (fun e he => ?_) (nofun)
    have hmem := List.mem_of_mem_take he
    apply (hkeeps e (List.mem_of_mem_drop hmem)).mpr
    rw [← hoffset] at hmem
    exact not_user_after hmem

end Places

/-! ## What is reported -/

section Reports
variable {eq : EventBody → EventBody → Bool} {filtered history : List Event} {headlessMode : Bool} {offset : Nat}
  {analysis : StuckAnalysis}

/-- Of a long enough list the first `k` end with the last of them. -/
theorem startIdx_take {k : Nat} {xs : List (Event × Nat)} {x : Event × Nat} (h : xs[k]? = some x) :
    startIdx eq filtered (xs.take (k + 1)) offset = index eq filtered x + offset := by
  have hk := (List.getElem?_eq_some_iff.mp h).1
  have hlast : (xs.take (k + 1)).getLast? = some x := by
    rw [List.getLast?_eq_getElem?, List.length_take, min_eq_left hk, Nat.add_sub_cancel, List.getElem?_take,
      if_pos (Nat.lt_succ_self k), h]
  rw [startIdx, hlast]
  rfl

theorem repeatingActionObservation_report {lastObservations : List (Event × Nat)}
    (h : repeatingActionObservation eq ((latest Event.isAction filtered).take 4) lastObservations filtered offset =
      some analysis) :
    analysis.loopType = .repeatingActionObservation ∧ ∃ x, (latest Event.isAction filtered)[3]? = some x ∧
      analysis.loopStartIdx = index eq filtered x + offset := by
  unfold repeatingActionObservation at h
  split_ifs at h with hlength
  obtain rfl := Option.some.inj h
  have hfour : 3 < (latest Event.isAction filtered).length := by
    have hle := List.length_take_le' 4 (latest Event.isAction filtered)
    omega
  exact ⟨rfl, _, List.getElem?_eq_getElem hfour, startIdx_take (List.getElem?_eq_getElem hfour)⟩

/-- The error scenario looks at three actions, and reports the fourth where there is one. -/
theorem repeatingActionError_report {lastObservations : List (Event × Nat)}
    (h : repeatingActionError eq ((latest Event.isAction filtered).take 4) lastObservations filtered offset =
      some analysis) :
    analysis.loopType = .repeatingActionError ∧ ∃ x, (latest Event.isAction filtered)[2]? = some x ∧
      ((latest Event.isAction filtered).length = 3 ∧ analysis.loopStartIdx = index eq filtered x + offset ∨
        (latest Event.isAction filtered).length ≠ 3 ∧ analysis.loopStartIdx < x.2 + offset) := by
  unfold repeatingActionError at h
  split_ifs at h with hlength
  obtain rfl := Option.some.inj h
  have hthree : 2 < (latest Event.isAction filtered).length := by
    have hle := List.length_take_le' 4 (latest Event.isAction filtered)
    omega
  have hthird := List.getElem?_eq_getElem hthree
  refine ⟨rfl, _, hthird, ?_⟩
  by_cases hfour : 3 < (latest Event.isAction filtered).length
  · have hfourth := List.getElem?_eq_getElem hfour
    have hstart : startIdx eq filtered ((latest Event.isAction filtered).take 4) offset =
        index eq filtered (latest Event.isAction filtered)[3] + offset := startIdx_take hfourth
    have hbefore := latest_lt (Nat.lt_succ_self 2) hthird hfourth
    have hindex : index eq filtered (latest Event.isAction filtered)[3] ≤ (latest Event.isAction filtered)[3].2 :=
      index_le _
    refine Or.inr ⟨by omega, ?_⟩
    dsimp only
    rw [hstart]
    omega
  · have hlen : (latest Event.isAction filtered).length = 3 := by omega
    refine Or.inl ⟨hlen, ?_⟩
    have hsame : (latest Event.isAction filtered).take 4 = (latest Event.isAction filtered).take 3 := by
      rw [List.take_of_length_le hlen.le, List.take_of_length_le (by omega)]
    dsimp only
    rw [hsame]
    exact startIdx_take hthird

theorem monologue_report (h : monologue eq filtered offset = some analysis) :
    analysis.loopType = .monologue ∧ ∃ x, (latest isAgentMessage filtered)[2]? = some x ∧
      analysis.loopStartIdx = x.2 + offset := by
  unfold monologue at h
  split at h
  · next z y x rest hlatest =>
    split_ifs at h
    obtain rfl := Option.some.inj h
    exact ⟨rfl, x, by rw [hlatest]; rfl, rfl⟩
  · exact nomatch h

theorem length_of_alternate {events : List Event} (h : alternate eq events = true) : events.length = 6 := by
  unfold alternate at h
  split at h
  · rfl
  · exact nomatch h

theorem actionObservationPattern_report (h : actionObservationPattern eq filtered offset = some analysis) :
    analysis.loopType = .repeatingActionObservationPattern ∧ ∃ x, (latest Event.isAction filtered)[5]? = some x ∧
      analysis.loopStartIdx = index eq filtered x + offset := by
  unfold actionObservationPattern at h
  dsimp only at h
  split_ifs at h with hboth
  obtain rfl := Option.some.inj h
  have hsix : 5 < (latest Event.isAction filtered).length := by
    have hlength := length_of_alternate (Bool.and_eq_true_iff.mp hboth).1
    rw [List.length_map, List.length_take] at hlength
    omega
  exact ⟨rfl, _, List.getElem?_eq_getElem hsix, startIdx_take (List.getElem?_eq_getElem hsix)⟩

theorem contextWindowError_report (h : contextWindowError filtered offset = some analysis) :
    analysis.loopType = .contextWindowError := by
  unfold contextWindowError at h
  dsimp only at h
  split_ifs at h
  obtain ⟨x, -, rfl⟩ := Option.map_eq_some_iff.mp h
  rfl

/-- What the detector reports, whichever scenario it was. -/
theorem isStuck_report (h : isStuck eq history headlessMode = some analysis)
    (htype : analysis.loopType ≠ .contextWindowError) :
    ∃ x, analysis.loopType.earliest (filteredHistory headlessMode history) = some x ∧
      (analysis.loopType = .monologue ∧
          analysis.loopStartIdx = x.2 + filteredHistoryOffset headlessMode history ∨
        analysis.loopType ≠ .monologue ∧ (analysis.loopType = .repeatingActionError →
            (latest Event.isAction (filteredHistory headlessMode history)).length = 3) ∧
          analysis.loopStartIdx = index eq (filteredHistory headlessMode history) x +
            filteredHistoryOffset headlessMode history ∨
        analysis.loopType = .repeatingActionError ∧
          (latest Event.isAction (filteredHistory headlessMode history)).length ≠ 3 ∧
          analysis.loopStartIdx < x.2 + filteredHistoryOffset headlessMode history) := by
  unfold isStuck at h
  dsimp only at h
  obtain ⟨-, h⟩ := Option.ite_none_left_eq_some.mp h
  rcases Option.or_eq_some_iff.mp h with h | ⟨-, h⟩
  · obtain ⟨htype, x, hx, hidx⟩ := repeatingActionObservation_report h
    rw [htype]
    exact ⟨x, hx, Or.inr (Or.inl ⟨nofun, nofun, hidx⟩)⟩
  rcases Option.or_eq_some_iff.mp h with h | ⟨-, h⟩
  · obtain ⟨htype, x, hx, ⟨hlen, hidx⟩ | hidx⟩ := repeatingActionError_report h
    · rw [htype]
      exact ⟨x, hx, Or.inr (Or.inl ⟨nofun, fun _ => hlen, hidx⟩)⟩
    · rw [htype]
      exact ⟨x, hx, Or.inr (Or.inr ⟨rfl, hidx⟩)⟩
  rcases Option.or_eq_some_iff.mp h with h | ⟨-, h⟩
  · obtain ⟨htype, x, hx, hidx⟩ := monologue_report h
    rw [htype]
    exact ⟨x, hx, Or.inl ⟨rfl, hidx⟩⟩
  rcases Option.or_eq_some_iff.mp h with h | ⟨-, h⟩
  · obtain ⟨htype, x, hx, hidx⟩ := actionObservationPattern_report (Option.ite_none_right_eq_some.mp h).2
    rw [htype]
    exact ⟨x, hx, Or.inr (Or.inl ⟨nofun, nofun, hidx⟩)⟩
  · exact absurd (contextWindowError_report (Option.ite_none_right_eq_some.mp h).2) htype

/-- The history after a cut at an index inside it. -/
theorem history_cut {s : State} {n : Nat} (h : n < s.history.length) :
    (s.truncateMemoryToPoint n).history = s.history.take n := by
  rw [State.truncateMemoryToPoint, if_neg (by omega)]
  simp [Py.takeTo]

end Reports

/-- A reported loop is cut at its beginning exactly when nothing shifts the index that is reported. -/
theorem cutsAtLoop_iff (eq : EventBody → EventBody → Bool) (s : State) (headlessMode : Bool) (analysis : StuckAnalysis)
    (hnull : ∀ e ∈ s.history, isNull e = false) (h : isStuck eq s.history headlessMode = some analysis)
    (htype : analysis.loopType ≠ .contextWindowError) :
    CutsAtLoop s headlessMode analysis ↔ Undisturbed eq headlessMode s.history analysis.loopType := by
  obtain ⟨x, hx, hreport⟩ := isStuck_report h htype
  have hplaced : ∃ place, (placed headlessMode s.history)[x.2]? = some (x.1, place) := by
    have hfiltered : (filteredHistory headlessMode s.history)[x.2]? = some x.1 := by
      unfold LoopType.earliest at hx
      split at hx
      · exact getElem?_latest hx
      · exact getElem?_latest hx
      · exact getElem?_latest hx
      · exact getElem?_latest hx
      · exact nomatch hx
    rw [← map_fst_placed, List.getElem?_map] at hfiltered
    obtain ⟨y, hy, heq⟩ := Option.map_eq_some_iff.mp hfiltered
    exact ⟨y.2, by rw [hy, ← heq]⟩
  obtain ⟨place, hplace⟩ := hplaced
  obtain ⟨hlt, hle, hshift⟩ := placed_place hnull hplace
  have hstart : loopStart headlessMode s.history analysis.loopType = some place := by
    rw [loopStart, hx, Option.bind_some, hplace]
    rfl
  have hcuts : CutsAtLoop s headlessMode analysis ↔ analysis.loopStartIdx = place := by
    constructor
    · rintro ⟨other, hother, hidx, -⟩
      rw [hidx]
      exact Option.some.inj (hother.symm.trans hstart)
    · intro hidx
      refine ⟨place, hstart, hidx, ?_⟩
      rw [hidx]
      exact history_cut hlt
  have husers : (∀ p, loopStart headlessMode s.history analysis.loopType = some p →
      headlessMode = true → ∀ e ∈ s.history.take p, isUserMessage e = false) ↔
        x.2 + filteredHistoryOffset headlessMode s.history = place := by
    rw [hshift, hstart]
    simp
  have hequal : (∀ y, analysis.loopType.earliest (filteredHistory headlessMode s.history) = some y →
      ∀ e ∈ (filteredHistory headlessMode s.history).take y.2, eq e.body y.1.body = false) ↔
        index eq (filteredHistory headlessMode s.history) x = x.2 := by
    rw [index_eq_iff, hx]
    simp
  have hindex : index eq (filteredHistory headlessMode s.history) x ≤ x.2 := index_le x
  rw [hcuts, Undisturbed, husers, hequal]
  rcases hreport with ⟨hmonologue, hidx⟩ | ⟨hother, hthree, hidx⟩ | ⟨herror, hfour, hidx⟩
  · -- the place of a monologue is the one that was found
    rw [hidx, hmonologue]
    simp
  · rw [hidx]
    constructor
    · intro heq
      exact ⟨by omega, fun _ => by omega, hthree⟩
    · rintro ⟨hplaceEq, hidxEq, -⟩
      rw [hidxEq hother]
      exact hplaceEq
  · refine iff_of_false (by omega) ?_
    rintro ⟨-, -, hthree⟩
    exact hfour (hthree herror)

def listFiles : Event := { body := .action (.cmdRun { command := "ls" }), source := some .agent }

def noFiles : Event := { body := .observation (.cmdOutput { content := "", command := "ls" }), source := some .environment }

/-- The same step four times. -/
def fourTimes : List Event :=
  [listFiles, noFiles, listFiles, noFiles, listFiles, noFiles, listFiles, noFiles]

def task : Event := { body := .action (.message { content := "go" }), source := some .user }

def sameBody (b c : EventBody) : Bool := decide (b = c)

theorem cutsAtLoop_fourTimes :
    CutsAtLoop { history := fourTimes } true ⟨.repeatingActionObservation, 4, 0⟩ := by
  have hearliest : LoopType.earliest (filteredHistory true fourTimes) .repeatingActionObservation =
      some (listFiles, 0) := by decide +kernel
  refine (cutsAtLoop_iff sameBody _ true _ (by decide) (by decide +kernel) (by decide)).mpr ⟨?_, ?_, nofun⟩
  · intro place _ _ e he
    have hnone : ∀ e ∈ fourTimes, isUserMessage e = false := by decide
    exact hnone e (List.mem_of_mem_take he)
  · intro _ x hx e he
    obtain rfl := Option.some.inj (hearliest.symm.trans hx)
    exact (List.not_mem_nil he).elim

/-- After a user message, which is left out and counted nowhere, the cut comes an event too early. -/
theorem cut_afterTask : isStuck sameBody (task :: fourTimes) true = some ⟨.repeatingActionObservation, 4, 0⟩ ∧
    ¬ CutsAtLoop { history := task :: fourTimes } true ⟨.repeatingActionObservation, 4, 0⟩ := by
  refine ⟨by decide +kernel, ?_⟩
  rintro ⟨place, hplace, hidx, -⟩
  have hone : loopStart true (task :: fourTimes) .repeatingActionObservation = some 1 := by decide +kernel
  have hplaceOne := Option.some.inj (hone.symm.trans hplace)
  rw [← hplaceOne] at hidx
  exact nomatch hidx

/-! ## Condensations in a row -/

/-- The places of the last ten condensations, or of all. -/
def lastTen (filtered : List Event) : List (Event × Nat) :=
  let condensations := (latest isCondensation filtered).reverse
  condensations.drop (condensations.length - 10)

/-- The last ten condensations follow each other without another event. -/
def LoopOfTen (filtered : List Event) : Prop :=
  ∃ before ten after, filtered = before ++ (ten ++ after) ∧ ten.length = 10 ∧
    (∀ e ∈ ten, isCondensation e = true) ∧ ∀ e ∈ after, isCondensation e = false

/-- Of the last ten condensations all are next to each other, or no two are. -/
def AllOrNone (filtered : List Event) : Prop :=
  10 ≤ filtered.countP isCondensation → (∃ p ∈ (lastTen filtered).zip (lastTen filtered).tail, p.2.2 = p.1.2 + 1) →
    ∀ p ∈ (lastTen filtered).zip (lastTen filtered).tail, p.2.2 = p.1.2 + 1

section Condensations
variable {filtered : List Event}

theorem forall_mem_zip_tail {α : Type} {R : α → α → Prop} (xs : List α) :
    (∀ p ∈ xs.zip xs.tail, R p.1 p.2) ↔ List.IsChain R xs := by
  induction xs with
  | nil => simp
  | cons x xs ih =>
    cases xs with
    | nil => simp
    | cons y xs =>
      rw [List.isChain_cons_cons, ← ih, List.tail_cons, List.zip_cons_cons, List.forall_mem_cons]
      rfl

theorem exists_of_mem_zip_tail {α : Type} {xs : List α} {p : α × α} (h : p ∈ xs.zip xs.tail) :
    ∃ before after, xs = before ++ p.1 :: p.2 :: after := by
  induction xs with
  | nil => simp at h
  | cons x xs ih =>
    cases xs with
    | nil => simp at h
    | cons y xs =>
      rw [List.tail_cons, List.zip_cons_cons] at h
      rcases List.mem_cons.mp h with rfl | h
      · exact ⟨[], xs, rfl⟩
      · obtain ⟨before, after, heq⟩ := ih h
        exact ⟨x :: before, after, by rw [heq, List.cons_append]⟩

theorem latest_reverse (kind : Event → Bool) (filtered : List Event) :
    (latest kind filtered).reverse = filtered.zipIdx.filter fun x => kind x.1 := by
  rw [latest, ← List.filter_reverse, List.reverse_reverse]

theorem length_latest (kind : Event → Bool) (filtered : List Event) :
    (filtered.zipIdx.filter fun x => kind x.1).length = filtered.countP kind := by
  have hmap := List.countP_map (p := kind) (f := Prod.fst) (l := filtered.zipIdx)
  rw [List.zipIdx_map_fst] at hmap
  rw [← List.countP_eq_length_filter, hmap]
  rfl

/-- Between two places of a kind, one after the other, there is no event of the kind. -/
theorem gap_of_neighbours {kind : Event → Bool} {x y : Event × Nat} {before after : List (Event × Nat)}
    (h : (filtered.zipIdx.filter fun x => kind x.1) = before ++ x :: y :: after) :
    ∃ gap, (filtered.take y.2).drop (x.2 + 1) = gap ∧ (∀ e ∈ gap, kind e = false) ∧ y.2 = x.2 + 1 + gap.length := by
  obtain ⟨l, rest, hzip, -, hrest⟩ := List.filter_eq_append_iff.mp h
  obtain ⟨l', rest', rfl, -, -, hrest'⟩ := List.filter_eq_cons_iff.mp hrest
  obtain ⟨between, rest'', rfl, hbetween, -, -⟩ := List.filter_eq_cons_iff.mp hrest'
  rw [← List.append_assoc] at hzip
  obtain ⟨lead, tail, rfl, hlead, htail⟩ := List.zipIdx_eq_append_iff.mp hzip
  obtain ⟨e, tail', rfl, rfl, htail'⟩ := List.zipIdx_eq_cons_iff.mp htail.symm
  obtain ⟨gap, tail'', rfl, rfl, htail''⟩ := List.zipIdx_eq_append_iff.mp htail'.symm
  obtain ⟨e', tail, rfl, rfl, -⟩ := List.zipIdx_eq_cons_iff.mp htail''.symm
  refine ⟨gap, ?_, fun e he => ?_, by simp⟩
  · have hlength : 0 + lead.length + 1 + gap.length = (lead ++ e :: gap).length := by simp; omega
    dsimp only
    rw [hlength, show lead ++ e :: (gap ++ e' :: tail) = (lead ++ e :: gap) ++ e' :: tail by simp, List.take_left]
    rw [show 0 + lead.length + 1 = (lead ++ [e]).length by simp, show lead ++ e :: gap = (lead ++ [e]) ++ gap by simp,
      List.drop_left]
  · obtain ⟨i, hi, rfl⟩ := List.mem_iff_getElem.mp he
    have hmem : (gap[i], 0 + lead.length + 1 + i) ∈ gap.zipIdx (0 + lead.length + 1) :=
      List.mem_zipIdx_iff_le_and_getElem?_sub.mpr ⟨by simp, by simp⟩
    simpa using hbetween _ hmem

theorem filter_zipIdx_of_none {kind : Event → Bool} {events : List Event} (n : Nat) (h : ∀ e ∈ events, kind e = false) :
    ((events.zipIdx n).filter fun x => kind x.1) = [] := by
  apply List.filter_eq_nil_iff.mpr
  intro x hx
  have hmem := List.fst_mem_of_mem_zipIdx hx
  rw [h x.1 hmem]
  exact Bool.false_ne_true

theorem filter_zipIdx_of_all {kind : Event → Bool} {events : List Event} (n : Nat) (h : ∀ e ∈ events, kind e = true) :
    ((events.zipIdx n).filter fun x => kind x.1) = events.zipIdx n :=
  List.filter_eq_self.mpr fun x hx => h x.1 (List.fst_mem_of_mem_zipIdx hx)

/-- Places that follow each other belong to a run without other events. -/
theorem run_of_chain {kind : Event → Bool} {events : List Event} {n : Nat}
    (h : List.IsChain (fun x y : Event × Nat => y.2 = x.2 + 1) ((events.zipIdx n).filter fun x => kind x.1)) :
    ∃ before run after, events = before ++ (run ++ after) ∧ (∀ e ∈ before, kind e = false) ∧
      (∀ e ∈ run, kind e = true) ∧ ∀ e ∈ after, kind e = false := by
  induction events generalizing n with
  | nil => exact ⟨[], [], [], rfl, List.forall_mem_nil _, List.forall_mem_nil _, List.forall_mem_nil _⟩
  | cons e events ih =>
    rw [List.zipIdx_cons, List.filter_cons] at h
    split_ifs at h with hkind
    · obtain ⟨hnext, hrest⟩ := List.isChain_cons.mp h
      obtain ⟨before, run, after, rfl, hbefore, hrun, hafter⟩ := ih hrest
      cases run with
      | nil =>
        refine ⟨[], [e], before ++ after, by simp, List.forall_mem_nil _, by simpa using hkind, fun e' he' => ?_⟩
        exact (List.mem_append.mp he').elim (hbefore e') (hafter e')
      | cons r run =>
        -- the next place is that of the run's head
        rw [List.zipIdx_append, List.filter_append, filter_zipIdx_of_none _ hbefore, List.nil_append, List.cons_append,
          List.zipIdx_cons, List.filter_cons, if_pos (hrun r List.mem_cons_self)] at hnext
        have hplace : n + 1 + before.length = n + 1 := hnext _ rfl
        obtain rfl : before = [] := List.eq_nil_of_length_eq_zero (by omega)
        exact ⟨[], e :: r :: run, after, rfl, List.forall_mem_nil _, List.forall_mem_cons.mpr ⟨hkind, hrun⟩, hafter⟩
    · obtain ⟨before, run, after, rfl, hbefore, hrun, hafter⟩ := ih h
      exact ⟨e :: before, run, after, rfl, List.forall_mem_cons.mpr ⟨Bool.eq_false_of_not_eq_true hkind, hbefore⟩,
        hrun, hafter⟩

theorem lastTen_spec (h : 10 ≤ filtered.countP isCondensation) :
    ∃ front, (filtered.zipIdx.filter fun x => isCondensation x.1) = front ++ lastTen filtered ∧
      (lastTen filtered).length = 10 := by
  have hlength := length_latest isCondensation filtered
  have hreverse := latest_reverse isCondensation filtered
  unfold lastTen
  dsimp only
  rw [hreverse]
  exact ⟨_, (List.take_append_drop _ _).symm, by rw [List.length_drop]; omega⟩

/-- The last ten are next to each other exactly when they are a run. -/
theorem loopOfTen_iff : LoopOfTen filtered ↔ 10 ≤ filtered.countP isCondensation ∧
    ∀ p ∈ (lastTen filtered).zip (lastTen filtered).tail, p.2.2 = p.1.2 + 1 := by
  rw [forall_mem_zip_tail (R := fun x y : Event × Nat => y.2 = x.2 + 1)]
  constructor
  · rintro ⟨before, ten, after, rfl, hten, hkind, hafter⟩
    have hcount : 10 ≤ (before ++ (ten ++ after)).countP isCondensation := by
      rw [List.countP_append, List.countP_append, List.countP_eq_length.mpr hkind, hten]
      omega
    refine ⟨hcount, ?_⟩
    obtain ⟨front, hfront, hlength⟩ := lastTen_spec hcount
    rw [List.zipIdx_append, List.filter_append, List.zipIdx_append, List.filter_append, filter_zipIdx_of_none _ hafter,
      filter_zipIdx_of_all _ hkind, List.append_nil] at hfront
    rw [← (List.append_inj' hfront (by rw [List.length_zipIdx, hten, hlength])).2]
    rw [List.isChain_iff_getElem]
    intro i hi
    simp
    omega
  · rintro ⟨hcount, hchain⟩
    obtain ⟨front, hfront, hlength⟩ := lastTen_spec hcount
    obtain ⟨l, rest, hzip, -, hrest⟩ := List.filter_eq_append_iff.mp hfront
    obtain ⟨before, tail, rfl, -, rfl⟩ := List.zipIdx_eq_append_iff.mp hzip
    rw [← hrest] at hchain
    obtain ⟨before', ten, after, rfl, hbefore, hten, hafter⟩ := run_of_chain hchain
    refine ⟨before ++ before', ten, after, by simp, ?_, hten, hafter⟩
    rw [List.zipIdx_append, List.filter_append, filter_zipIdx_of_none _ hbefore, List.zipIdx_append, List.filter_append,
      filter_zipIdx_of_none _ hafter, filter_zipIdx_of_all _ hten, List.nil_append, List.append_nil] at hrest
    rw [← hlength, ← hrest, List.length_zipIdx]

/-- The scenario is met when two of the last ten are next to each other. -/
theorem contextWindowError_isSome {offset : Nat} : (contextWindowError filtered offset).isSome = true ↔
    10 ≤ filtered.countP isCondensation ∧
      ∃ p ∈ (lastTen filtered).zip (lastTen filtered).tail, p.2.2 = p.1.2 + 1 := by
  have hlength : (latest isCondensation filtered).reverse.length = filtered.countP isCondensation := by
    rw [latest_reverse, length_latest]
  unfold contextWindowError
  dsimp only
  rw [hlength]
  split_ifs with hten
  · exact iff_of_false Bool.false_ne_true fun h => by omega
  · rw [Option.isSome_map, List.find?_isSome, and_iff_right (by omega)]
    have htail : (latest isCondensation filtered).reverse.drop (filtered.countP isCondensation - 10) = lastTen filtered := by
      rw [lastTen, hlength]
    rw [htail]
    refine exists_congr fun p => and_congr_right fun hp => ?_
    obtain ⟨before, after, hneighbours⟩ := exists_of_mem_zip_tail hp
    have hcount : 10 ≤ filtered.countP isCondensation := by omega
    obtain ⟨front, hfront, -⟩ := lastTen_spec hcount
    rw [hneighbours, ← List.append_assoc] at hfront
    obtain ⟨gap, hgap, hnone, hplace⟩ := gap_of_neighbours hfront
    rw [hgap, List.all_eq_true]
    constructor
    · intro hall
      have hnil : gap = [] := List.eq_nil_iff_forall_not_mem.mpr fun e he => by
        have htrue := hall e he
        rw [hnone e he] at htrue
        exact Bool.false_ne_true htrue
      rw [hplace, hnil]
      rfl
    · intro heq
      obtain rfl : gap = [] := List.eq_nil_of_length_eq_zero (by omega)
      exact List.forall_mem_nil _

end Condensations

/-- The scenario is met by ten condensations in a row alone exactly when not only some of them are in a row. -/
theorem contextWindowError_iff (filtered : List Event) (offset : Nat) :
    ((contextWindowError filtered offset).isSome = true ↔ LoopOfTen filtered) ↔ AllOrNone filtered := by
  rw [contextWindowError_isSome, loopOfTen_iff]
  constructor
  · intro h hten hsome
    exact (h.mp ⟨hten, hsome⟩).2
  · intro h
    refine ⟨fun hmet => ⟨hmet.1, h hmet.1 hmet.2⟩, fun hall => ⟨hall.1, ?_⟩⟩
    obtain ⟨front, -, hlength⟩ := lastTen_spec hall.1
    obtain ⟨p, hp⟩ : ∃ p, p ∈ (lastTen filtered).zip (lastTen filtered).tail := by
      apply List.exists_mem_of_length_pos
      rw [List.length_zip, List.length_tail, hlength]
      decide
    exact ⟨p, hp, hall.2 p hp⟩

def condensed : Event := { body := .observation (.agentCondensation ⟨"summary"⟩), source := some .environment }

/-- Ten condensations of a working agent, two of them in a row. -/
def twoInARow : List Event :=
  condensed :: (List.replicate 9 [condensed, listFiles, noFiles]).flatten

theorem contextWindowError_twoInARow : ¬ ∀ filtered offset,
    ((contextWindowError filtered offset).isSome = true ↔ LoopOfTen filtered) := by
  intro h
  have hmet : (contextWindowError twoInARow 0).isSome = true := by decide
  have hall := (loopOfTen_iff.mp ((h twoInARow 0).mp hmet)).2
  exact absurd hall (by decide)

end StuckDetector

end OpenHands
