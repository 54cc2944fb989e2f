import OpenHandsSWE.Events.CachePages
import OpenHandsSWE.Lib.Fanout

/-! Concurrent calls of `add_event` and what the stream's subscribers receive of them. -/

namespace OpenHands

open EventStream Fanout

/-- The events of the calls that have left the locked section and not returned. -/
def EventStream.inFlight (s : EventStream) : List Event := s.calls.map fun c => c.event

/-- A stream with its subscribers, and the events whose calls have returned. -/
structure Bus where
  stream : EventStream := {}
  subscribers : List (Subscriber Event) := []
  added : List Event := []

inductive BusStep where
  | enter (e : Event) (source : EventSource) (timestamp : String)
  | write (k : Nat)
  | storePage (k : Nat)
  | put (k : Nat)
  | fail (k : Nat)
  | setSecrets (secrets : List (String × String))
  | updateSecrets (secrets : List (String × String))
  | dispatch
  | callback (j : Nat)

namespace Bus

variable (out : Outside)

/-- A stream over existing files, with its subscribers, before the first call. -/
def start (files : FileStore) (n : Nat) : Bus where
  stream := { files }
  subscribers := List.replicate n {}

def put (b : Bus) (k : Nat) : Bus :=
  match b.stream.calls[k]? with
  | some c =>
    if c.phase = .paged then
      { b with stream := b.stream.deliver k, added := b.added ++ [c.event] }
    else b
  | none => b

/-- One of the two writes of a call raises. -/
def fail (b : Bus) (k : Nat) : Bus :=
  match b.stream.calls[k]? with
  | some c =>
    if c.phase = .paged then b
    else { b with stream := { b.stream with calls := b.stream.calls.eraseIdx k } }
  | none => b

/-- `_process_queue` takes an event and submits it to every callback's pool. -/
def dispatch (b : Bus) : Bus :=
  let next := Fanout.dispatch b.stream.queue b.subscribers
  { b with stream := { b.stream with queue := next.1 }, subscribers := next.2 }

def step (b : Bus) : BusStep → Bus
  | .enter e source timestamp =>
    if e.id ≠ INVALID_ID then b
    else { b with stream := b.stream.enter out e source timestamp }
  | .write k => { b with stream := b.stream.write k }
  | .storePage k => { b with stream := b.stream.storePage k }
  | .put k => b.put k
  | .fail k => b.fail k
  | .setSecrets secrets => { b with stream := b.stream.setSecrets secrets }
  | .updateSecrets secrets => { b with stream := b.stream.updateSecrets secrets }
  | .dispatch => b.dispatch
  | .callback j => { b with subscribers := b.subscribers.modify j Subscriber.work }

def run (b : Bus) (steps : List BusStep) : Bus := steps.foldl (step out) b

def ids (events : List Event) : List Int := events.map fun e => e.id

/-- No call with a smaller id is in flight when a call puts its event on the queue. -/
def PutOk (b : Bus) : BusStep → Prop
  | .put k => ∀ c, b.stream.calls[k]? = some c → c.phase = .paged →
      ∀ e ∈ b.stream.inFlight, c.event.id ≤ e.id
  | _ => True

def PutsOk (b : Bus) : List BusStep → Prop
  | [] => True
  | next :: steps => b.PutOk next ∧ PutsOk (b.step out next) steps

/-! ## The ledger of a bus -/

/-- A bus without its files: ids are taken in order, events wait in flight, and what is added is
queued for every subscriber. -/
structure Ledger where
  nextId : Int
  inFlight : List Event
  added : List Event
  queue : List Event
  subscribers : List (Subscriber Event)

def ledger (b : Bus) : Ledger :=
  ⟨b.stream.curId, b.stream.inFlight, b.added, b.stream.queue, b.subscribers⟩

namespace Ledger

/-- What one step can do to a ledger. -/
inductive Effect (l : Ledger) : BusStep → Ledger → Prop where
  | idle (next : BusStep) : Effect l next l
  | raise (e : Event) (source : EventSource) (timestamp : String) :
      Effect l (.enter e source timestamp) { l with nextId := l.nextId + 1 }
  | enter (e : Event) (source : EventSource) (timestamp : String) (taken : Event)
      (hid : taken.id = l.nextId) :
      Effect l (.enter e source timestamp)
        { l with nextId := l.nextId + 1, inFlight := l.inFlight ++ [taken] }
  | put (k : Nat) (e : Event) (hk : l.inFlight[k]? = some e) :
      Effect l (.put k)
        { l with inFlight := l.inFlight.eraseIdx k, added := l.added ++ [e], queue := l.queue ++ [e] }
  | fail (k : Nat) : Effect l (.fail k) { l with inFlight := l.inFlight.eraseIdx k }
  | dispatch :
      Effect l .dispatch
        { l with queue := (Fanout.dispatch l.queue l.subscribers).1
                 subscribers := (Fanout.dispatch l.queue l.subscribers).2 }
  | callback (j : Nat) :
      Effect l (.callback j) { l with subscribers := l.subscribers.modify j Subscriber.work }

/-- Ids are taken once, and what is added is delivered. -/
structure Valid (l : Ledger) : Prop where
  below : ∀ e ∈ l.inFlight ++ l.added, e.id < l.nextId
  distinct : (ids (l.inFlight ++ l.added)).Nodup
  delivers : Delivers l.queue l.subscribers l.added

/-- What is added is in the order of ids, and nothing in flight belongs before it. -/
structure InOrder (l : Ledger) : Prop where
  added : (ids l.added).Pairwise (· < ·)
  inFlight : ∀ e ∈ l.added, ∀ c ∈ l.inFlight, e.id < c.id

/-- Something is added, or will be, after an event of a larger id. -/
def Late (l : Ledger) : Prop :=
  (∃ c ∈ l.inFlight, ∃ e ∈ l.added, c.id < e.id) ∨ ¬ (ids l.added).Pairwise (· < ·)

variable {l l' : Ledger} {next : BusStep}

theorem perm_put {k : Nat} {e : Event} (hk : l.inFlight[k]? = some e) :
    (l.inFlight.eraseIdx k ++ (l.added ++ [e])).Perm (l.inFlight ++ l.added) := by
  obtain ⟨hlt, rfl⟩ := List.getElem?_eq_some_iff.mp hk
  have herase := List.getElem_cons_eraseIdx_perm hlt
  rw [← List.append_assoc]
  exact (List.perm_append_singleton _ _).trans (herase.append_right _)

theorem Valid.effect (h : Valid l) (heffect : Effect l next l') : Valid l' := by
  cases heffect with
  | idle => exact h
  | raise =>
    refine ⟨fun e he => ?_, h.distinct, h.delivers⟩
    have := h.below e he
    show e.id < l.nextId + 1
    omega
  | enter _ _ _ taken hid =>
    have hperm : (l.inFlight ++ [taken] ++ l.added).Perm (taken :: (l.inFlight ++ l.added)) := by
      rw [List.append_assoc]
      exact List.perm_middle
    refine ⟨fun e he => ?_, ?_, h.delivers⟩
    · rcases List.mem_cons.mp (hperm.subset he) with rfl | hold
      · show e.id < l.nextId + 1
        omega
      · have := h.below e hold
        show e.id < l.nextId + 1
        omega
    · apply (hperm.map _).nodup_iff.mpr
      refine List.nodup_cons.mpr ⟨fun hmem => ?_, h.distinct⟩
      obtain ⟨e, he, heq⟩ := List.mem_map.mp hmem
      have hlt := h.below e he
      have heq : e.id = taken.id := heq
      omega
  | put k e hk =>
    have hperm := perm_put hk
    exact ⟨fun d hd => h.below d (hperm.subset hd), (hperm.map _).nodup_iff.mpr h.distinct,
      h.delivers.append e⟩
  | fail k =>
    have hsub : (l.inFlight.eraseIdx k ++ l.added).Sublist (l.inFlight ++ l.added) :=
      (List.eraseIdx_sublist ..).append_right _
    exact ⟨fun d hd => h.below d (hsub.subset hd), h.distinct.sublist (hsub.map _), h.delivers⟩
  | dispatch => exact ⟨h.below, h.distinct, h.delivers.dispatch⟩
  | callback j => exact ⟨h.below, h.distinct, h.delivers.work j⟩

/-- The calls put their events on the queue in order: each is the smallest in flight. -/
theorem InOrder.effect (h : InOrder l) (hvalid : Valid l) (heffect : Effect l next l')
    (hput : ∀ k e, next = .put k → l.inFlight[k]? = some e → ∀ c ∈ l.inFlight, e.id ≤ c.id) :
    InOrder l' := by
  cases heffect with
  | idle => exact h
  | raise => exact ⟨h.added, h.inFlight⟩
  | enter _ _ _ taken hid =>
    refine ⟨h.added, fun e he c hc => ?_⟩
    rcases List.mem_append.mp hc with hold | hnew
    · exact h.inFlight e he c hold
    · have := hvalid.below e (List.mem_append_right _ he)
      rw [List.mem_singleton.mp hnew]
      omega
  | put k e hk =>
    have hleast := hput k e rfl hk
    have hmem := List.mem_of_getElem? hk
    refine ⟨?_, fun d hd c hc => ?_⟩
    · show (ids (l.added ++ [e])).Pairwise (· < ·)
      rw [ids, List.map_append, List.pairwise_append]
      refine ⟨h.added, List.pairwise_singleton _ _, fun i hi j hj => ?_⟩
      obtain ⟨d, hd, rfl⟩ := List.mem_map.mp hi
      obtain rfl := List.mem_singleton.mp hj
      exact h.inFlight d hd e hmem
    · rcases List.mem_append.mp hd with hold | hnew
      · exact h.inFlight d hold c (List.mem_of_mem_eraseIdx hc)
      · -- the put event is in flight no longer, so what still is has another id
        obtain rfl := List.mem_singleton.mp hnew
        have hle := hleast c (List.mem_of_mem_eraseIdx hc)
        have hnodup : (ids (l.inFlight.eraseIdx k ++ (l.added ++ [d]))).Nodup :=
          ((perm_put hk).map _).nodup_iff.mpr hvalid.distinct
        have hne : c.id ≠ d.id := by
          rw [ids, List.map_append] at hnodup
          exact (List.nodup_append.mp hnodup).2.2 _ (List.mem_map_of_mem hc) _
            (List.mem_map_of_mem (List.mem_append_right _ (List.mem_singleton_self d)))
        omega
  | fail k => exact ⟨h.added, fun e he c hc => h.inFlight e he c (List.mem_of_mem_eraseIdx hc)⟩
  | dispatch => exact ⟨h.added, h.inFlight⟩
  | callback j => exact ⟨h.added, h.inFlight⟩

/-- Without failures a late event stays late. -/
theorem Late.effect (h : Late l) (heffect : Effect l next l') (hfail : ∀ k, next ≠ .fail k) :
    Late l' := by
  cases heffect with
  | idle => exact h
  | raise => exact h
  | enter _ _ _ taken hid =>
    rcases h with ⟨c, hc, e, he, hlt⟩ | h
    · exact .inl ⟨c, List.mem_append_left _ hc, e, he, hlt⟩
    · exact .inr h
  | put k e hk =>
    rcases h with ⟨c, hc, d, hd, hlt⟩ | h
    · by_cases hce : c = e
      · -- the late event itself is put
        subst hce
        refine .inr fun hsorted => ?_
        have hsorted : (ids (l.added ++ [c])).Pairwise (· < ·) := hsorted
        rw [ids, List.map_append, List.pairwise_append] at hsorted
        have := hsorted.2.2 _ (List.mem_map_of_mem hd) c.id (List.mem_singleton_self _)
        omega
      · refine .inl ⟨c, ?_, d, List.mem_append_left _ hd, hlt⟩
        obtain ⟨i, hi⟩ := List.mem_iff_getElem?.mp hc
        refine List.mem_eraseIdx_iff_getElem?.mpr ⟨i, ?_, hi⟩
        rintro rfl
        exact hce (Option.some.inj (hi.symm.trans hk))
    · refine .inr fun hsorted => h ?_
      have hsorted : (ids (l.added ++ [e])).Pairwise (· < ·) := hsorted
      rw [ids, List.map_append, List.pairwise_append] at hsorted
      exact hsorted.1
  | fail k => exact absurd rfl (hfail k)
  | dispatch => exact h
  | callback j => exact h

end Ledger

/-! ## The bus keeps its ledger -/

/-- The next id is known as soon as a call is in flight. -/
structure Opened (b : Bus) : Prop where
  nonneg : 0 ≤ b.stream.curId
  known : b.stream.curId? = none → b.stream.calls = []

variable {out} {b : Bus}

theorem Opened.curId? (h : Opened b) {k : Nat} {c : Call} (hk : b.stream.calls[k]? = some c) :
    b.stream.curId? = some b.stream.curId := by
  cases hcur : b.stream.curId? with
  | none =>
    rw [h.known hcur] at hk
    cases hk
  | some id => rw [curId_of_some hcur]

theorem inFlight_getElem? {s : EventStream} {k : Nat} {c : Call} (hk : s.calls[k]? = some c) :
    s.inFlight[k]? = some c.event := by
  rw [inFlight, List.getElem?_map, hk]
  rfl

/-- A call that goes on to another phase stays in flight with its event. -/
theorem inFlight_set {s : EventStream} {k : Nat} {c : Call} (hk : s.calls[k]? = some c)
    (phase : Phase) : (s.calls.set k { c with phase }).map (fun c => c.event) = s.inFlight := by
  obtain ⟨hlt, rfl⟩ := List.getElem?_eq_some_iff.mp hk
  have hlt' : k < s.inFlight.length := by simpa [inFlight] using hlt
  have hself : s.inFlight[k] = s.calls[k].event := List.getElem_map ..
  rw [List.map_set]
  show s.inFlight.set k s.calls[k].event = s.inFlight
  rw [← hself, List.set_getElem_self]

theorem inFlight_eraseIdx (s : EventStream) (k : Nat) :
    (s.calls.eraseIdx k).map (fun c => c.event) = s.inFlight.eraseIdx k :=
  (List.eraseIdx_map ..).symm

/-- What changes files and the phase of a call does nothing to the ledger. -/
theorem effect_idle (h : Opened b) {s : EventStream} {k : Nat} {c : Call}
    (hk : b.stream.calls[k]? = some c) (hcur : s.curId? = b.stream.curId?)
    (hqueue : s.queue = b.stream.queue) (hflight : s.inFlight = b.stream.inFlight) (next : BusStep) :
    Ledger.Effect b.ledger next (ledger { b with stream := s }) := by
  have hsame : ledger { b with stream := s } = b.ledger := by
    unfold ledger
    rw [curId_of_some (hcur.trans (h.curId? hk)), hqueue, hflight]
  rw [hsame]
  exact .idle next

theorem step_effect (h : Opened b) (next : BusStep) :
    Ledger.Effect b.ledger next (b.step out next).ledger := by
  cases next with
  | enter e source timestamp =>
    by_cases hnew : e.id = INVALID_ID
    · obtain ⟨hcur, -, hqueue⟩ := enter_frame (s := b.stream) e source timestamp
      rw [step, if_neg (not_not.mpr hnew)]
      cases hprep : b.stream.prepare out e source timestamp with
      | error err =>
        rw [enter_error hprep]
        exact .raise e source timestamp
      | ok prepared =>
        obtain ⟨data, delivered⟩ := prepared
        have heffect := Ledger.Effect.enter (l := b.ledger) e source timestamp delivered
          (prepare_id h.nonneg hprep).2
        unfold ledger inFlight
        rw [curId_of_some hcur, hqueue, enter_ok hprep, List.map_append]
        exact heffect
    · rw [step, if_pos hnew]
      exact .idle _
  | write k =>
    rw [step]
    unfold EventStream.write
    split
    · next c hk =>
      split_ifs
      · apply effect_idle h hk
        · rfl
        · rfl
        · exact inFlight_set hk .written
      · exact .idle _
    · exact .idle _
  | storePage k =>
    rw [step]
    unfold EventStream.storePage
    split
    · next c hk =>
      split_ifs
      · apply effect_idle h hk
        · rfl
        · rfl
        · exact inFlight_set hk .paged
      · exact .idle _
    · exact .idle _
  | put k =>
    rw [step, put]
    split
    · next c hk =>
      split_ifs with hphase
      · have heffect := Ledger.Effect.put (l := b.ledger) k c.event (inFlight_getElem? hk)
        unfold deliver
        rw [hk]
        dsimp only
        rw [if_pos hphase]
        unfold ledger inFlight
        rw [inFlight_eraseIdx]
        exact heffect
      · exact .idle _
    · exact .idle _
  | fail k =>
    rw [step, fail]
    split
    · next c hk =>
      split_ifs with hphase
      · exact .idle _
      · have heffect := Ledger.Effect.fail (l := b.ledger) k
        unfold ledger inFlight
        rw [inFlight_eraseIdx]
        exact heffect
    · exact .idle _
  | setSecrets secrets => exact .idle _
  | updateSecrets secrets => exact .idle _
  | dispatch => exact .dispatch
  | callback j => exact .callback j

/-! ## Runs -/

theorem Ledger.Effect.nextId_le {l l' : Ledger} {next : BusStep} (h : Ledger.Effect l next l') :
    l.nextId ≤ l'.nextId := by
  cases h <;> first | exact le_rfl | exact Int.le_add_one le_rfl

theorem Opened.step (h : Opened b) (next : BusStep) : Opened (b.step out next) := by
  refine ⟨h.nonneg.trans (step_effect h next).nextId_le, fun hnone => ?_⟩
  -- a call in flight was given its id, so where there is one the next id is known
  have hcall {k : Nat} {c : Call} (hk : b.stream.calls[k]? = some c)
      (hsame : b.stream.curId? = none) : False := by
    rw [h.curId? hk] at hsame
    cases hsame
  cases next with
  | enter e source timestamp =>
    by_cases hnew : e.id = INVALID_ID
    · rw [Bus.step, if_neg (not_not.mpr hnew)] at hnone
      rw [(enter_frame e source timestamp).1] at hnone
      cases hnone
    · rw [Bus.step, if_pos hnew] at hnone ⊢
      exact h.known hnone
  | write k =>
    rw [Bus.step] at hnone ⊢
    unfold EventStream.write at hnone ⊢
    split at hnone
    · next c hk => split_ifs at hnone <;> exact (hcall hk hnone).elim
    · exact h.known hnone
  | storePage k =>
    rw [Bus.step] at hnone ⊢
    unfold EventStream.storePage at hnone ⊢
    split at hnone
    · next c hk => split_ifs at hnone <;> exact (hcall hk hnone).elim
    · exact h.known hnone
  | put k =>
    rw [Bus.step, put] at hnone ⊢
    split at hnone
    · next c hk =>
      split_ifs at hnone with hphase
      · unfold deliver at hnone
        rw [hk] at hnone
        dsimp only at hnone
        rw [if_pos hphase] at hnone
        exact (hcall hk hnone).elim
      · exact (hcall hk hnone).elim
    · exact h.known hnone
  | fail k =>
    rw [Bus.step, fail] at hnone ⊢
    split at hnone
    · next c hk => split_ifs at hnone <;> exact (hcall hk hnone).elim
    · exact h.known hnone
  | setSecrets secrets => exact h.known hnone
  | updateSecrets secrets => exact h.known hnone
  | dispatch => exact h.known hnone
  | callback j => exact h.known hnone

theorem run_cons (next : BusStep) (steps : List BusStep) :
    b.run out (next :: steps) = (b.step out next).run out steps := rfl

theorem start_opened (files : FileStore) (n : Nat) : Opened (start files n) :=
  ⟨calculateCurId_nonneg files, fun _ => rfl⟩

theorem start_valid (files : FileStore) (n : Nat) : (start files n).ledger.Valid where
  below e he := by cases he
  distinct := List.nodup_nil
  delivers := Delivers.start n

theorem start_inOrder (files : FileStore) (n : Nat) : (start files n).ledger.InOrder where
  added := List.Pairwise.nil
  inFlight e he := by cases he

theorem run_opened (h : Opened b) (steps : List BusStep) : Opened (b.run out steps) := by
  induction steps generalizing b with
  | nil => exact h
  | cons next steps ih => exact ih (h.step next)

theorem run_valid (h : Opened b) (hv : b.ledger.Valid) (steps : List BusStep) :
    (b.run out steps).ledger.Valid := by
  induction steps generalizing b with
  | nil => exact hv
  | cons next steps ih => exact ih (h.step next) (hv.effect (step_effect h next))

/-- A put of a call that has not written everything does nothing. -/
theorem put_of_not_paged {k : Nat} (h : ∀ c, b.stream.calls[k]? = some c → c.phase ≠ .paged) :
    b.put k = b := by
  unfold put
  split
  · next c hk => rw [if_neg (h c hk)]
  · rfl

theorem step_inOrder (h : Opened b) (hv : b.ledger.Valid) (ho : b.ledger.InOrder) {next : BusStep}
    (hok : b.PutOk next) : (b.step out next).ledger.InOrder := by
  by_cases hwaits : ∃ k, next = .put k ∧ ∀ c, b.stream.calls[k]? = some c → c.phase ≠ .paged
  · obtain ⟨k, rfl, hphase⟩ := hwaits
    rw [step, put_of_not_paged hphase]
    exact ho
  · apply ho.effect hv (step_effect h next)
    rintro k e rfl hk d hd
    have hcall : b.stream.inFlight[k]? = some e := hk
    rw [inFlight, List.getElem?_map] at hcall
    obtain ⟨c, hc, rfl⟩ := Option.map_eq_some_iff.mp hcall
    have hpaged : c.phase = .paged := by
      by_contra hphase
      refine hwaits ⟨k, rfl, fun c' hc' => ?_⟩
      rw [hc] at hc'
      cases hc'
      exact hphase
    exact hok c hc hpaged d hd

theorem run_inOrder (h : Opened b) (hv : b.ledger.Valid) (ho : b.ledger.InOrder)
    {steps : List BusStep} (hok : b.PutsOk out steps) : (b.run out steps).ledger.InOrder := by
  induction steps generalizing b with
  | nil => exact ho
  | cons next steps ih =>
    exact ih (h.step next) (hv.effect (step_effect h next)) (step_inOrder h hv ho hok.1) hok.2

/-- A put past a smaller id in flight makes that one late. -/
theorem step_late {next : BusStep} (hnot : ¬ b.PutOk next) :
    (b.step out next).ledger.Late := by
  unfold PutOk at hnot
  split at hnot
  · next k =>
    push Not at hnot
    obtain ⟨c, hk, hphase, e, he, hlt⟩ := hnot
    have hcall := inFlight_getElem? hk
    have hstep : (b.step out (.put k)).ledger =
        { b.ledger with inFlight := b.stream.inFlight.eraseIdx k, added := b.added ++ [c.event]
                        queue := b.stream.queue ++ [c.event] } := by
      rw [step, put, hk]
      dsimp only
      rw [if_pos hphase, deliver, hk]
      dsimp only
      rw [if_pos hphase]
      unfold ledger inFlight
      rw [inFlight_eraseIdx]
      rfl
    rw [hstep]
    refine .inl ⟨e, ?_, c.event, List.mem_append_right _ (List.mem_singleton_self _), hlt⟩
    obtain ⟨i, hi⟩ := List.mem_iff_getElem?.mp he
    refine List.mem_eraseIdx_iff_getElem?.mpr ⟨i, ?_, hi⟩
    rintro rfl
    rw [hcall] at hi
    cases hi
    exact lt_irrefl _ hlt
  · exact absurd trivial hnot

theorem run_late (h : Opened b) (hlate : b.ledger.Late) {steps : List BusStep}
    (hfail : ∀ k, BusStep.fail k ∉ steps) : (b.run out steps).ledger.Late := by
  induction steps generalizing b with
  | nil => exact hlate
  | cons next steps ih =>
    have hnext : ∀ k, next ≠ .fail k := by
      rintro k rfl
      exact hfail k List.mem_cons_self
    exact ih (h.step next) (hlate.effect (step_effect h next) hnext)
      fun k hk => hfail k (List.mem_cons_of_mem _ hk)

/-- When every call returns, only puts in order leave what is added in order. -/
theorem putsOk_of_sorted (h : Opened b) {steps : List BusStep} (hfail : ∀ k, BusStep.fail k ∉ steps)
    (hreturned : (b.run out steps).stream.calls = [])
    (hsorted : (ids (b.run out steps).added).Pairwise (· < ·)) : b.PutsOk out steps := by
  induction steps generalizing b with
  | nil => trivial
  | cons next steps ih =>
    have hrest : ∀ k, BusStep.fail k ∉ steps := fun k hk => hfail k (List.mem_cons_of_mem _ hk)
    refine ⟨?_, ih (h.step next) hrest hreturned hsorted⟩
    by_contra hnot
    rcases run_late (h.step next) (step_late hnot) hrest with ⟨c, hc, -⟩ | hunsorted
    · have hempty : ((b.step out next).run out steps).stream.inFlight = [] := by
        unfold inFlight
        have hcalls : ((b.step out next).run out steps).stream.calls = [] := hreturned
        rw [hcalls]
        rfl
      have hc : c ∈ ((b.step out next).run out steps).stream.inFlight := hc
      rw [hempty] at hc
      cases hc
    · exact hunsorted hsorted

variable (out) in
/-- The queue and the pools can always be worked off. -/
theorem exists_drained (b : Bus) (hd : Delivers b.stream.queue b.subscribers b.added) :
    ∃ rest : List BusStep, (∀ next ∈ rest, next = .dispatch ∨ ∃ j, next = .callback j) ∧
      (b.run out rest).added = b.added ∧
      ∀ sub ∈ (b.run out rest).subscribers, sub.received = b.added := by
  induction hn : pending b.stream.queue b.subscribers using Nat.strong_induction_on generalizing b with
  | _ n ih =>
    subst hn
    by_cases hqueue : b.stream.queue = []
    · by_cases hpools : ∀ sub ∈ b.subscribers, sub.pool = []
      · exact ⟨[], List.forall_mem_nil _, rfl, fun sub hsub => hd.received_eq hqueue hsub (hpools sub hsub)⟩
      · push Not at hpools
        obtain ⟨sub, hsub, hpool⟩ := hpools
        obtain ⟨j, hj⟩ := pending_work b.stream.queue hsub hpool
        obtain ⟨rest, hrest, hadded, hreceived⟩ :=
          ih _ hj { b with subscribers := b.subscribers.modify j Subscriber.work } (hd.work j) rfl
        refine ⟨.callback j :: rest, List.forall_mem_cons.mpr ⟨.inr ⟨j, rfl⟩, hrest⟩, ?_⟩
        rw [run_cons]
        exact ⟨hadded, hreceived⟩
    · obtain ⟨e, queue, hcons⟩ := List.exists_cons_of_ne_nil hqueue
      have hlt : pending (Fanout.dispatch b.stream.queue b.subscribers).1
          (Fanout.dispatch b.stream.queue b.subscribers).2 <
          pending b.stream.queue b.subscribers := by
        rw [hcons]
        exact pending_dispatch e queue b.subscribers
      obtain ⟨rest, hrest, hadded, hreceived⟩ := ih _ hlt b.dispatch hd.dispatch rfl
      refine ⟨.dispatch :: rest, List.forall_mem_cons.mpr ⟨.inl rfl, hrest⟩, ?_⟩
      rw [run_cons]
      exact ⟨hadded, hreceived⟩

/-- Every subscriber receives what is added exactly once. It receives it in the order of ids when
each call puts its event before those of larger ids do; where every call returns and a subscriber
has received everything, only then. -/
theorem received_inOrder_iff (files : FileStore) (n : Nat) (steps : List BusStep) :
    (∀ sub ∈ ((start files n).run out steps).subscribers,
      sub.received ++ sub.pool ++ ((start files n).run out steps).stream.queue =
        ((start files n).run out steps).added) ∧
    (ids ((start files n).run out steps).added).Nodup ∧
    (∃ rest : List BusStep, (∀ next ∈ rest, next = .dispatch ∨ ∃ j, next = .callback j) ∧
      ∀ sub ∈ (((start files n).run out steps).run out rest).subscribers,
        sub.received = ((start files n).run out steps).added) ∧
    ((start files n).PutsOk out steps → ∀ sub ∈ ((start files n).run out steps).subscribers,
      (ids sub.received).Pairwise (· < ·)) ∧
    ((∀ k, BusStep.fail k ∉ steps) → ((start files n).run out steps).stream.calls = [] →
      ∀ sub ∈ ((start files n).run out steps).subscribers,
        sub.received = ((start files n).run out steps).added →
        (ids sub.received).Pairwise (· < ·) → (start files n).PutsOk out steps) := by
  have hopened := start_opened files n
  have hvalid : ((start files n).run out steps).ledger.Valid :=
    run_valid hopened (start_valid files n) steps
  have hdelivers : Delivers _ _ _ := hvalid.delivers
  refine ⟨hdelivers, ?_, ?_, ?_, ?_⟩
  · have hdistinct := hvalid.distinct
    rw [ids, List.map_append] at hdistinct
    exact hdistinct.of_append_right
  · obtain ⟨rest, hrest, -, hreceived⟩ := exists_drained out _ hdelivers
    exact ⟨rest, hrest, hreceived⟩
  · intro hok sub hsub
    have hinOrder := run_inOrder hopened (start_valid files n) (start_inOrder files n) hok
    exact hinOrder.added.sublist ((hdelivers.received_sublist hsub).map _)
  · intro hfail hreturned sub hsub hall hsorted
    rw [hall] at hsorted
    exact putsOk_of_sorted hopened hfail hreturned hsorted

/-! The second of two calls finishes its writes first. -/

def overtaking : List BusStep :=
  [.enter commandEvent .agent "2025", .enter commandEvent .agent "2025",
    .write 1, .storePage 1, .put 1, .write 0, .storePage 0, .put 0,
    .dispatch, .dispatch, .callback 0, .callback 0]

theorem received_overtaking :
    ((start [] 1).run plainOutside overtaking).stream.calls = [] ∧
    ∃ sub ∈ ((start [] 1).run plainOutside overtaking).subscribers,
      ids sub.received = [1, 0] ∧ ¬ (ids sub.received).Pairwise (· < ·) := by
  have hreceived : ((start [] 1).run plainOutside overtaking).subscribers.map
      (fun sub => ids sub.received) = [[1, 0]] := by decide +kernel
  have hmem : [1, 0] ∈ ((start [] 1).run plainOutside overtaking).subscribers.map
      (fun sub => ids sub.received) := by
    rw [hreceived]
    exact List.mem_singleton_self _
  obtain ⟨sub, hsub, hids⟩ := List.mem_map.mp hmem
  refine ⟨List.eq_nil_of_length_eq_zero (by decide +kernel), sub, hsub, hids, ?_⟩
  rw [hids]
  decide

end Bus

end OpenHands
