import OpenHandsSWE.Lib.Assoc

/-! The rate limiter of the server: for each host the times of its latest requests, and who asks too often has to wait or
is turned away. Times are in microseconds. -/

namespace OpenHands.RateLimit

/-- A request, with the clock as the limiter reads it: for the request itself, and for the requests that are old by then. -/
structure Request where
  host : String
  path : List Char
  now : ℤ
  cleanedAt : ℤ
deriving DecidableEq, Repr

structure InMemoryRateLimiter where
  requests : ℕ := 2
  seconds : ℕ := 1
  sleepSeconds : ℕ := 1
  history : List (String × List ℤ) := []
deriving DecidableEq, Repr

/-- What the middleware answers: what the rest of the server does after some seconds of sleep, or a text. -/
inductive Response where
  | callNext (slept : ℕ)
  | json (statusCode : ℕ) (message retryAfter : String)
deriving DecidableEq, Repr

def tooManyRequests : Response := .json 429 "Too many requests" "1"

def isRateLimitedRequest (r : Request) : Bool := !("/assets".toList.isPrefixOf r.path)

namespace InMemoryRateLimiter

def window (l : InMemoryRateLimiter) : ℤ := l.seconds * 1000000

/-- `self.history[key]`, where a new key has no times. -/
def times (l : InMemoryRateLimiter) (key : String) : List ℤ := (Assoc.get? key l.history).getD []

def setTimes (l : InMemoryRateLimiter) (key : String) (ts : List ℤ) : InMemoryRateLimiter :=
  { l with history := Assoc.set key ts l.history }

def cleanOldRequests (l : InMemoryRateLimiter) (key : String) (now : ℤ) : InMemoryRateLimiter :=
  l.setTimes key ((l.times key).filter fun ts => decide (now - l.window < ts))

/-- Whether a host that asked so often may go on: after some seconds of sleep, or not at all. -/
def verdict (l : InMemoryRateLimiter) (count : ℕ) : Option ℕ :=
  if l.requests * 2 < count then none
  else if l.requests < count then if 0 < l.sleepSeconds then some l.sleepSeconds else none
  else some 0

def call (l : InMemoryRateLimiter) (r : Request) : Option ℕ × InMemoryRateLimiter :=
  let cleaned := l.cleanOldRequests r.host r.cleanedAt
  let asked := cleaned.setTimes r.host (cleaned.times r.host ++ [r.now])
  (asked.verdict (asked.times r.host).length, asked)

def answer : Option ℕ → Response
  | some slept => .callNext slept
  | none => tooManyRequests

/-- The middleware; the assets are served without a look at the history. -/
def dispatch (l : InMemoryRateLimiter) (r : Request) : Response × InMemoryRateLimiter :=
  if isRateLimitedRequest r then (answer (l.call r).1, (l.call r).2) else (.callNext 0, l)

/-- The requests in the order of their calls, with their answers. A sleep comes behind the last look at the history, so
that calls which sleep meanwhile change nothing. -/
def run (l : InMemoryRateLimiter) : List Request → List (Request × Response)
  | [] => []
  | r :: rs => (r, (l.dispatch r).1) :: run (l.dispatch r).2 rs

end InMemoryRateLimiter

/-! ## The limit, from a log of all requests -/

section Log

variable (l : InMemoryRateLimiter)

/-- The limited requests of a host that came after a time. -/
def asked (host : String) (cutoff : ℤ) (past : List Request) : List Request :=
  past.filter fun p => isRateLimitedRequest p && decide (p.host = host) && decide (cutoff < p.now)

/-- The answer counts every request of the host within the window, whatever became of it. -/
def expected (past : List Request) (r : Request) : Response :=
  if isRateLimitedRequest r then
    InMemoryRateLimiter.answer (l.verdict ((asked r.host (r.cleanedAt - l.window) past).length + 1))
  else .callNext 0

def expectedRun (past : List Request) : List Request → List (Request × Response)
  | [] => []
  | r :: rs => (r, expected l past r) :: expectedRun (past ++ [r]) rs

/-- The clock does not go back from one cleaning to the next. -/
def InOrder (requests : List Request) : Prop := requests.Pairwise fun p r => p.cleanedAt ≤ r.cleanedAt

instance decidableInOrder (requests : List Request) : Decidable (InOrder requests) :=
  inferInstanceAs (Decidable (requests.Pairwise fun p r => p.cleanedAt ≤ r.cleanedAt))

end Log

/-! ## The history is the end of the log -/

namespace InMemoryRateLimiter

variable {l : InMemoryRateLimiter}

@[simp] theorem times_setTimes_self (l : InMemoryRateLimiter) (key : String) (ts : List ℤ) : (l.setTimes key ts).times key = ts := by
  rw [times, setTimes, Assoc.get?_set_self, Option.getD_some]

theorem times_setTimes_of_ne {key other : String} (h : other ≠ key) (ts : List ℤ) : (l.setTimes key ts).times other = l.times other := by
  rw [times, setTimes, Assoc.get?_set_of_ne h, times]

theorem times_call_self (r : Request) :
    (l.call r).2.times r.host = (l.times r.host).filter (fun ts => decide (r.cleanedAt - l.window < ts)) ++ [r.now] := by
  rw [call, cleanOldRequests]
  dsimp only
  rw [times_setTimes_self, times_setTimes_self]

theorem times_call_of_ne {r : Request} {other : String} (h : other ≠ r.host) : (l.call r).2.times other = l.times other := by
  rw [call, cleanOldRequests]
  dsimp only
  rw [times_setTimes_of_ne h, times_setTimes_of_ne h]

theorem verdict_call (r : Request) : (l.call r).1 =
    l.verdict (((l.times r.host).filter fun ts => decide (r.cleanedAt - l.window < ts)).length + 1) := by
  have hcount := congrArg List.length (times_call_self (l := l) r)
  rw [List.length_append, List.length_singleton] at hcount
  rw [← hcount]
  rfl

/-- Of what is not old yet nothing is forgotten. -/
def Recorded (l start : InMemoryRateLimiter) (past : List Request) : Prop :=
  l.requests = start.requests ∧ l.seconds = start.seconds ∧ l.sleepSeconds = start.sleepSeconds ∧
    ∀ host cutoff, (∀ p ∈ past, p.cleanedAt - start.window ≤ cutoff) →
      (l.times host).filter (fun ts => decide (cutoff < ts)) = (asked host cutoff past).map Request.now

variable {start : InMemoryRateLimiter} {past : List Request}

theorem asked_concat (host : String) (cutoff : ℤ) (past : List Request) (r : Request) : asked host cutoff (past ++ [r]) =
    asked host cutoff past ++ if isRateLimitedRequest r ∧ r.host = host ∧ cutoff < r.now then [r] else [] := by
  rw [asked, List.filter_append, List.filter_singleton, asked]
  simp only [Bool.cond_eq_ite, Bool.and_eq_true, decide_eq_true_eq, and_assoc]

theorem Recorded.window (h : Recorded l start past) : l.window = start.window := by
  rw [InMemoryRateLimiter.window, InMemoryRateLimiter.window, h.2.1]

theorem Recorded.verdict (h : Recorded l start past) (count : ℕ) : l.verdict count = start.verdict count := by
  rw [InMemoryRateLimiter.verdict, InMemoryRateLimiter.verdict, h.1, h.2.2.1]

theorem Recorded.dispatch (h : Recorded l start past) (r : Request) : Recorded (l.dispatch r).2 start (past ++ [r]) := by
  rw [InMemoryRateLimiter.dispatch]
  split_ifs with hlimited
  · refine ⟨h.1, h.2.1, h.2.2.1, fun host cutoff hcutoff => ?_⟩
    have hpast : ∀ p ∈ past, p.cleanedAt - start.window ≤ cutoff := fun p hp => hcutoff p (List.mem_append_left _ hp)
    have hlast : r.cleanedAt - start.window ≤ cutoff := hcutoff r (List.mem_append_right _ (List.mem_singleton_self r))
    have hrecord := h.2.2.2 host cutoff hpast
    dsimp only
    rw [asked_concat, List.map_append, ← hrecord]
    by_cases hhost : host = r.host
    · subst hhost
      rw [times_call_self, List.filter_append, List.filter_filter, h.window]
      congr 1
      · refine List.filter_congr fun ts _ => ?_
        have hlater : cutoff < ts → r.cleanedAt - start.window < ts := hlast.trans_lt
        simpa using hlater
      · by_cases hnow : cutoff < r.now
        · rw [if_pos ⟨hlimited, rfl, hnow⟩, List.filter_singleton]
          simp [hnow]
        · rw [if_neg fun hall => hnow hall.2.2, List.filter_singleton]
          simp [hnow]
    · rw [times_call_of_ne hhost, if_neg fun hall => hhost hall.2.1.symm, List.map_nil, List.append_nil]
  · refine ⟨h.1, h.2.1, h.2.2.1, fun host cutoff hcutoff => ?_⟩
    rw [asked_concat, if_neg fun hall => hlimited hall.1, List.append_nil]
    exact h.2.2.2 host cutoff fun p hp => hcutoff p (List.mem_append_left _ hp)

theorem Recorded.response (h : Recorded l start past) {r : Request} (hr : ∀ p ∈ past, p.cleanedAt ≤ r.cleanedAt) :
    (l.dispatch r).1 = expected start past r := by
  rw [InMemoryRateLimiter.dispatch, expected]
  split_ifs
  · have hrecord := h.2.2.2 r.host (r.cleanedAt - start.window) fun p hp => Int.sub_le_sub_right (hr p hp) _
    dsimp only
    rw [verdict_call, h.window, hrecord, List.length_map, h.verdict]
  · rfl

theorem Recorded.run (h : Recorded l start past) {requests : List Request} (hordered : InOrder (past ++ requests)) :
    l.run requests = expectedRun start past requests := by
  induction requests generalizing l past with
  | nil => rfl
  | cons r rs ih =>
    have hr : ∀ p ∈ past, p.cleanedAt ≤ r.cleanedAt := fun p hp =>
      (List.pairwise_append.mp hordered).2.2 p hp r List.mem_cons_self
    rw [List.append_cons] at hordered
    rw [InMemoryRateLimiter.run, expectedRun, h.response hr, ih (h.dispatch r) hordered]

end InMemoryRateLimiter

/-! ## Hosts and stretches -/

section Log

variable {l : InMemoryRateLimiter}

theorem asked_sameHost {host : String} (cutoff : ℤ) (past : List Request) :
    asked host cutoff (past.filter fun p => decide (p.host = host)) = asked host cutoff past := by
  rw [asked, List.filter_filter, asked]
  refine List.filter_congr fun p _ => ?_
  cases decide (p.host = host) <;> simp

theorem expectedRun_sameHost (host : String) (past requests : List Request) :
    (expectedRun l past requests).filter (fun a => decide (a.1.host = host)) =
      expectedRun l (past.filter fun p => decide (p.host = host)) (requests.filter fun r => decide (r.host = host)) := by
  induction requests generalizing past with
  | nil => rfl
  | cons r rs ih =>
    rw [expectedRun, List.filter_cons, List.filter_cons, ih, List.filter_append, List.filter_singleton]
    by_cases hhost : r.host = host
    · subst hhost
      simp only [decide_true, if_true, cond_true]
      rw [expectedRun, expected, expected, asked_sameHost]
    · simp only [hhost, decide_false, Bool.false_eq_true, if_false, cond_false, List.append_nil]

theorem expectedRun_append (past before requests : List Request) :
    expectedRun l past (before ++ requests) = expectedRun l past before ++ expectedRun l (past ++ before) requests := by
  induction before generalizing past with
  | nil => rw [List.append_nil]; rfl
  | cons r before ih => rw [List.cons_append, expectedRun, ih, expectedRun, List.append_assoc]; rfl

theorem map_fst_expectedRun (past requests : List Request) : (expectedRun l past requests).map Prod.fst = requests := by
  induction requests generalizing past with
  | nil => rfl
  | cons r rs ih => rw [expectedRun, List.map_cons, ih]

/-- The requests of a host that are let in, though they are limited. -/
def letIn (host : String) (slept : ℕ → Bool) (answered : List (Request × Response)) : List (Request × Response) :=
  answered.filter fun a => isRateLimitedRequest a.1 && decide (a.1.host = host) && match a.2 with
    | .callNext s => slept s
    | .json _ _ _ => false

def ofHost (host : String) (requests : List Request) : List Request :=
  requests.filter fun p => isRateLimitedRequest p && decide (p.host = host)

theorem ofHost_concat (host : String) (requests : List Request) (r : Request) :
    ofHost host (requests ++ [r]) = ofHost host requests ++ if isRateLimitedRequest r ∧ r.host = host then [r] else [] := by
  rw [ofHost, List.filter_append, List.filter_singleton, ofHost]
  simp only [Bool.cond_eq_ite, Bool.and_eq_true, decide_eq_true_eq]

/-- All of it lies within one window. -/
def WithinWindow (l : InMemoryRateLimiter) (requests : List Request) : Prop :=
  ∀ p ∈ requests, ∀ r ∈ requests, r.cleanedAt - l.window < p.now

/-- A request that is let in was counted with all of the stretch before it, so that the last one bounds them all. -/
theorem letIn_bound {slept : ℕ → Bool} {bound : ℕ} (hbound : ∀ count s, l.verdict count = some s → slept s = true → count ≤ bound)
    (host : String) (past before requests : List Request) (hwindow : WithinWindow l (before ++ requests)) :
    letIn host slept (expectedRun l (past ++ before) requests) = [] ∨
      (letIn host slept (expectedRun l (past ++ before) requests)).length + (ofHost host before).length ≤ bound := by
  induction requests generalizing before with
  | nil => exact .inl rfl
  | cons r rs ih =>
    rw [List.append_cons] at hwindow
    have hrest := ih (before ++ [r]) hwindow
    rw [← List.append_assoc, ofHost_concat, List.length_append] at hrest
    rw [expectedRun, letIn, List.filter_cons, ← letIn]
    by_cases hhost : isRateLimitedRequest r = true ∧ r.host = host
    · obtain ⟨hlimited, rfl⟩ := hhost
      have hcount : (ofHost r.host before).length ≤ (asked r.host (r.cleanedAt - l.window) (past ++ before)).length := by
        rw [asked, List.filter_append, List.length_append]
        have hall : ofHost r.host before = before.filter fun p =>
            isRateLimitedRequest p && decide (p.host = r.host) && decide (r.cleanedAt - l.window < p.now) := by
          refine List.filter_congr fun p hp => ?_
          have hnew := hwindow p (by simp [hp]) r (by simp)
          simp [hnew]
        rw [hall]
        exact Nat.le_add_left _ _
      rw [if_pos ⟨hlimited, rfl⟩, List.length_singleton] at hrest
      split_ifs with hlet
      · have hfits : (asked r.host (r.cleanedAt - l.window) (past ++ before)).length + 1 ≤ bound := by
          rw [expected, if_pos hlimited] at hlet
          cases hverdict : l.verdict ((asked r.host (r.cleanedAt - l.window) (past ++ before)).length + 1) with
          | none => simp [hverdict, InMemoryRateLimiter.answer, tooManyRequests] at hlet
          | some s =>
            simp only [hverdict, InMemoryRateLimiter.answer, Bool.and_eq_true] at hlet
            exact hbound _ s hverdict hlet.2
        refine .inr ?_
        rw [List.length_cons]
        rcases hrest with hnone | hrest
        · rw [hnone, List.length_nil]
          omega
        · omega
      · exact hrest.imp_right fun hrest => by omega
    · rw [if_neg hhost, List.length_nil, Nat.add_zero] at hrest
      have hout : (isRateLimitedRequest r && decide (r.host = host)) = false := by simpa using hhost
      rw [hout, Bool.false_and, if_neg Bool.false_ne_true]
      exact hrest

end Log

namespace InMemoryRateLimiter

theorem run_eq (l : InMemoryRateLimiter) (hnew : l.history = []) {requests : List Request} (h : InOrder requests) :
    l.run requests = expectedRun l [] requests := by
  have hrecorded : Recorded l l [] := by
    refine ⟨rfl, rfl, rfl, fun host cutoff _ => ?_⟩
    rw [times, hnew]
    rfl
  exact hrecorded.run h

theorem le_of_verdict {l : InMemoryRateLimiter} {count s : ℕ} (h : l.verdict count = some s) :
    count ≤ l.requests * 2 ∧ (s = 0 → count ≤ l.requests) := by
  rw [verdict] at h
  split_ifs at h with hmany hsome hsleep
  · refine ⟨Nat.le_of_not_lt hmany, fun hs => ?_⟩
    rw [← Option.some.inj h] at hs
    exact absurd hs hsleep.ne'
  · exact ⟨Nat.le_of_not_lt hmany, fun _ => Nat.le_of_not_lt hsome⟩

theorem inOrder_of_sublist {requests part : List Request} (h : InOrder requests) (hsub : part.Sublist requests) : InOrder part :=
  List.Pairwise.sublist hsub h

/-- A limiter that was just made answers by the log of all requests. So one host never sees the requests of another, and
within one window no more than twice the limit of a host's requests go on, and no more than the limit without sleep. -/
theorem run_limited (l : InMemoryRateLimiter) (hnew : l.history = []) {requests : List Request} (h : InOrder requests) :
    l.run requests = expectedRun l [] requests ∧
      (∀ host, (l.run requests).filter (fun a => decide (a.1.host = host)) =
        l.run (requests.filter fun r => decide (r.host = host))) ∧
      ∀ before stretch after, l.run requests = before ++ stretch ++ after → WithinWindow l (stretch.map Prod.fst) → ∀ host,
        (letIn host (fun _ => true) stretch).length ≤ l.requests * 2 ∧ (letIn host (fun s => s == 0) stretch).length ≤ l.requests := by
  refine ⟨run_eq l hnew h, fun host => ?_, fun before stretch after hrun hwindow host => ?_⟩
  · rw [run_eq l hnew h, run_eq l hnew (inOrder_of_sublist h List.filter_sublist), expectedRun_sameHost]
    rfl
  · rw [run_eq l hnew h] at hrun
    have hstretch : expectedRun l (before.map Prod.fst) (stretch.map Prod.fst) = stretch := by
      have hasked := congrArg (List.map Prod.fst) hrun
      rw [map_fst_expectedRun, List.map_append, List.map_append] at hasked
      rw [hasked, expectedRun_append, expectedRun_append, List.nil_append] at hrun
      have hlength : ∀ past, ∀ answered : List (Request × Response),
          (expectedRun l past (answered.map Prod.fst)).length = answered.length := by
        intro past answered
        rw [← List.length_map Prod.fst, map_fst_expectedRun, List.length_map]
      have hfirst := (List.append_inj hrun (by rw [List.length_append, List.length_append, hlength, hlength])).1
      exact (List.append_inj hfirst (hlength [] before)).2
    have hbounded : ∀ (slept : ℕ → Bool) (bound : ℕ),
        (∀ count s, l.verdict count = some s → slept s = true → count ≤ bound) → (letIn host slept stretch).length ≤ bound := by
      intro slept bound hbound
      rcases letIn_bound hbound host (before.map Prod.fst) [] (stretch.map Prod.fst) hwindow with hnone | hsome
      · rw [List.append_nil, hstretch] at hnone
        rw [hnone]
        exact Nat.zero_le bound
      · rw [List.append_nil, hstretch] at hsome
        exact (Nat.le_add_right _ _).trans hsome
    exact ⟨hbounded _ _ fun count s hverdict _ => (le_of_verdict hverdict).1,
      hbounded _ _ fun count s hverdict hs => (le_of_verdict hverdict).2 (beq_iff_eq.mp hs)⟩

theorem run_limited_sample :
    let l : InMemoryRateLimiter := {}
    let requests : List Request := [⟨"a", "/api".toList, 0, 0⟩, ⟨"a", "/api".toList, 10, 10⟩, ⟨"b", "/api".toList, 20, 20⟩,
      ⟨"a", "/api".toList, 30, 30⟩]
    l.run requests = expectedRun l [] requests ∧
      (∀ host, (l.run requests).filter (fun a => decide (a.1.host = host)) =
        l.run (requests.filter fun r => decide (r.host = host))) ∧
      ∀ before stretch after, l.run requests = before ++ stretch ++ after → WithinWindow l (stretch.map Prod.fst) → ∀ host,
        (letIn host (fun _ => true) stretch).length ≤ l.requests * 2 ∧ (letIn host (fun s => s == 0) stretch).length ≤ l.requests :=
  run_limited {} rfl (by decide)

end InMemoryRateLimiter

end OpenHands.RateLimit
