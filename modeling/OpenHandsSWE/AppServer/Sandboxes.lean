import OpenHandsSWE.Lib.Runs
import OpenHandsSWE.Lib.Text
import OpenHandsSWE.Utils.SearchUtils

/-! The sandboxes of one user at the remote runtime API, and the limit on how many of them run. -/

namespace OpenHands

inductive SandboxStatus where
  | starting
  | running
  | paused
  | error
  | missing
deriving DecidableEq, Repr

namespace RemoteSandboxService

/-- A stored sandbox, and the status that the runtime API reports of it. -/
structure Sandbox where
  id : Nat
  createdAt : Int
  status : SandboxStatus
deriving DecidableEq, Repr

/-- The sandboxes of the user; an id is drawn once. -/
structure State where
  stored : List Sandbox := []
  nextId : Nat := 0
deriving DecidableEq, Repr

def newestFirst (a b : Sandbox) : Prop := b.createdAt ≤ a.createdAt

instance : DecidableRel newestFirst := fun _ _ => inferInstanceAs (Decidable (_ ≤ _))

def oldestFirst (a b : Sandbox) : Prop := a.createdAt ≤ b.createdAt

instance : DecidableRel oldestFirst := fun _ _ => inferInstanceAs (Decidable (_ ≤ _))

instance : Std.Total oldestFirst := ⟨fun _ _ => le_total _ _⟩

instance : IsTrans Sandbox oldestFirst := ⟨fun _ _ _ hab hbc => le_trans hab hbc⟩

def offset (pageId : Option (List Char)) : Int := (pageId.bind Text.parseInt).getD 0

def searchSandboxes (s : State) (pageId : Option (List Char)) (limit : Nat) : ResultSet Sandbox :=
  let rows := ((s.stored.insertionSort newestFirst).drop (offset pageId).toNat).take (limit + 1)
  { results := rows.take limit
    nextPageId := if limit < rows.length then some (Nat.toDigits 10 ((offset pageId).toNat + limit)) else none }

/-- The loop over the pages. -/
def allSandboxes (s : State) : List Sandbox :=
  ((iterate (fun pageId => .ok (searchSandboxes s pageId 100)) (s.stored.length + 1) none).map Prod.fst).getD []

/-- What the runtime API reports of a sandbox from now on. -/
def report (s : State) (id : Nat) (status : SandboxStatus) : State :=
  { s with stored := s.stored.map fun b => if b.id = id then { b with status := status } else b }

def pauseSandbox (s : State) (id : Nat) : State := report s id .paused

/-- The sandboxes that the limit pauses. -/
def toPause (s : State) (maxNumSandboxes : Nat) : List Sandbox :=
  let running := (allSandboxes s).filter fun b => b.status = .running
  if running.length ≤ maxNumSandboxes then []
  else (running.insertionSort oldestFirst).take (running.length - maxNumSandboxes)

def pauseOldSandboxes (s : State) (maxNumSandboxes : Int) : Except PyError (State × List Sandbox) :=
  if maxNumSandboxes ≤ 0 then .error (.valueError "max_num_sandboxes must be greater than 0")
  else
    let paused := toPause s maxNumSandboxes.toNat
    .ok (paused.foldl (fun s b => pauseSandbox s b.id) s, paused)

def startSandbox (s : State) (now : Int) : State :=
  { stored := s.stored ++ [⟨s.nextId, now, .starting⟩], nextId := s.nextId + 1 }

inductive Call where
  | start (now : Int)
  | resume (id : Nat)
  | pause (id : Nat)
  | delete (id : Nat)
  | becomesRunning (id : Nat)

/-- The state after a call, and what the limit has paused for it. -/
def perform (maxNumSandboxes : Nat) (s : State) : Call → Except PyError (State × List Sandbox)
  | .start now => (pauseOldSandboxes s (maxNumSandboxes - 1)).map fun r => (startSandbox r.1 now, r.2)
  | .resume id => (pauseOldSandboxes s (maxNumSandboxes - 1)).map fun r => (report r.1 id .starting, r.2)
  | .pause id => .ok (pauseSandbox s id, [])
  | .delete id => .ok ({ s with stored := s.stored.filter fun b => b.id ≠ id }, [])
  | .becomesRunning id =>
    .ok ({ s with stored := s.stored.map fun b =>
      if b.id = id ∧ b.status = .starting then { b with status := .running } else b }, [])

/-- A call that raises the limit's error has changed nothing. -/
def step (maxNumSandboxes : Nat) (s : State) (call : Call) : State :=
  match perform maxNumSandboxes s call with
  | .ok (s', _) => s'
  | .error _ => s

def Sandbox.isActive (b : Sandbox) : Bool := b.status = .starting ∨ b.status = .running

def active (s : State) : Nat := s.stored.countP Sandbox.isActive

def starting (s : State) : Nat := s.stored.countP fun b => b.status = .starting

/-- The call raises nothing, no more than the limit are active after it, and what is paused for it are the
oldest ones running. -/
def Obeys (maxNumSandboxes : Nat) (s : State) (call : Call) : Prop :=
  ∃ s' paused, perform maxNumSandboxes s call = .ok (s', paused) ∧ active s' ≤ maxNumSandboxes ∧
    (∀ b ∈ paused, b ∈ s.stored ∧ b.status = .running) ∧
    ∀ b ∈ paused, ∀ r ∈ s.stored, r.status = .running → r ∉ paused → b.createdAt ≤ r.createdAt

/-- Room for the sandbox that a call makes active. -/
def HasRoom (maxNumSandboxes : Nat) (s : State) : Call → Prop
  | .start _ => 2 ≤ maxNumSandboxes ∧ (active s < maxNumSandboxes ∨ starting s = 0)
  | .resume id => 2 ≤ maxNumSandboxes ∧
    ((∃ b ∈ s.stored, b.id = id ∧ b.isActive = false) → active s < maxNumSandboxes ∨ starting s = 0)
  | _ => True

/-! ## The listing -/

section Listing

variable {s : State}

theorem iterate_from (s : State) {fuel start : Nat} {pageId : Option (List Char)} (hstart : offset pageId = (start : Int))
    (hfuel : s.stored.length < fuel + start) (hwithin : start ≤ s.stored.length) :
    iterate (fun pageId => .ok (searchSandboxes s pageId 100)) fuel pageId =
      some ((s.stored.insertionSort newestFirst).drop start, none) := by
  have hlength := List.length_insertionSort newestFirst s.stored
  induction fuel generalizing start pageId with
  | zero => omega
  | succ fuel ih =>
    have hrows : (((s.stored.insertionSort newestFirst).drop start).take (100 + 1)).take 100 =
        ((s.stored.insertionSort newestFirst).drop start).take 100 := by
      rw [List.take_take]
      rfl
    rw [iterate, searchSandboxes, hstart, Int.toNat_natCast]
    dsimp only
    rw [hrows, List.length_take, List.length_drop, hlength]
    by_cases hmore : 100 < min (100 + 1) (s.stored.length - start)
    · have hnext : offset (some (Nat.toDigits 10 (start + 100))) = ((start + 100 : Nat) : Int) := by
        rw [offset, Option.bind_some, Text.parseInt_toDigits]
        rfl
      rw [if_pos hmore]
      dsimp only
      rw [ih hnext (by omega) (by omega), Option.map_some]
      dsimp only
      rw [← List.drop_drop, List.take_append_drop]
    · rw [if_neg hmore]
      dsimp only
      rw [List.take_of_length_le (by rw [List.length_drop, hlength]; omega)]

theorem allSandboxes_perm (s : State) : (allSandboxes s).Perm s.stored := by
  have hall := @iterate_from s (s.stored.length + 1) 0 none rfl (Nat.lt_succ_self _) (Nat.zero_le _)
  rw [allSandboxes, hall]
  exact List.perm_insertionSort _ _

end Listing

/-! ## What the limit pauses -/

/-- What a run keeps: an id for each sandbox, and no more active ones than the limit. -/
structure Valid (maxNumSandboxes : Nat) (s : State) : Prop where
  ids : (s.stored.map Sandbox.id).Nodup
  below : ∀ b ∈ s.stored, b.id < s.nextId
  within : active s ≤ maxNumSandboxes

section Pausing

variable {s : State}

def running (s : State) : Nat := s.stored.countP fun b => b.status = .running

theorem active_eq (s : State) : active s = starting s + running s := by
  rw [active, starting, running]
  induction s.stored with
  | nil => rfl
  | cons b rest ih =>
    rw [List.countP_cons, List.countP_cons, List.countP_cons, ih]
    cases h : b.status <;> simp [Sandbox.isActive, h] <;> omega

theorem eq_of_id (hids : (s.stored.map Sandbox.id).Nodup) {b c : Sandbox} (hb : b ∈ s.stored) (hc : c ∈ s.stored)
    (h : b.id = c.id) : b = c := List.inj_on_of_nodup_map hids hb hc h

/-- The paused sandboxes are running ones, as many as there are too many, and the oldest of them. -/
theorem toPause_spec (hids : (s.stored.map Sandbox.id).Nodup) (k : Nat) :
    (toPause s k).length = running s - k ∧ (toPause s k).Nodup ∧
      (∀ b ∈ toPause s k, b ∈ s.stored ∧ b.status = .running) ∧
      ∀ b ∈ toPause s k, ∀ r ∈ s.stored, r.status = .running → r ∉ toPause s k → b.createdAt ≤ r.createdAt := by
  have hperm : ((allSandboxes s).filter fun b => b.status = .running).Perm (s.stored.filter fun b => b.status = .running) :=
    (allSandboxes_perm s).filter _
  have hlength : ((allSandboxes s).filter fun b => b.status = .running).length = running s := by
    rw [hperm.length_eq, running, List.countP_eq_length_filter]
  have hmem {b : Sandbox} : b ∈ (allSandboxes s).filter (fun b => b.status = .running) ↔
      b ∈ s.stored ∧ b.status = .running := by
    rw [hperm.mem_iff, List.mem_filter, decide_eq_true_iff]
  have hnodup : ((allSandboxes s).filter fun b => b.status = .running).Nodup :=
    hperm.nodup_iff.mpr ((List.Nodup.of_map _ hids).filter _)
  generalize hlist : (allSandboxes s).filter (fun b => b.status = .running) = list at hlength hmem hnodup
  have hsorted : (list.insertionSort oldestFirst).Perm list := List.perm_insertionSort _ _
  have hpause : toPause s k = if list.length ≤ k then [] else (list.insertionSort oldestFirst).take (list.length - k) := by
    rw [toPause, hlist]
  rw [hpause]
  by_cases hfew : list.length ≤ k
  · rw [if_pos hfew]
    refine ⟨?_, List.nodup_nil, fun b hb => absurd hb List.not_mem_nil, fun b hb => absurd hb List.not_mem_nil⟩
    rw [List.length_nil, ← hlength]
    omega
  · rw [if_neg hfew]
    refine ⟨?_, (hsorted.nodup_iff.mpr hnodup).sublist (List.take_sublist _ _), fun b hb => ?_, fun b hb r hr hrun hnot => ?_⟩
    · rw [List.length_take, hsorted.length_eq, hlength]
      omega
    · exact hmem.mp (hsorted.mem_iff.mp (List.mem_of_mem_take hb))
    · have hordered : (list.insertionSort oldestFirst).Pairwise oldestFirst := List.pairwise_insertionSort _ _
      rw [← List.take_append_drop (list.length - k) (list.insertionSort oldestFirst), List.pairwise_append] at hordered
      have hrest : r ∈ (list.insertionSort oldestFirst).drop (list.length - k) := by
        have hall := hsorted.mem_iff.mpr (hmem.mpr ⟨hr, hrun⟩)
        rw [← List.take_append_drop (list.length - k) (list.insertionSort oldestFirst), List.mem_append] at hall
        exact hall.resolve_left hnot
      exact hordered.2.2 b hb r hrest

/-- Pausing one after the other. -/
theorem foldl_pause (paused : List Sandbox) (s : State) : paused.foldl (fun s b => pauseSandbox s b.id) s =
    { s with stored := s.stored.map fun b => if b.id ∈ paused.map Sandbox.id then { b with status := .paused } else b } := by
  induction paused generalizing s with
  | nil => simp
  | cons p paused ih =>
    rw [List.foldl_cons, ih, pauseSandbox, report]
    dsimp only
    rw [List.map_map]
    congr 1
    refine List.map_congr_left fun b _ => ?_
    simp only [Function.comp_apply, List.map_cons, List.mem_cons]
    by_cases hb : b.id = p.id
    · simp [hb]
    · simp [hb]

/-- The state after the limit has been enforced. -/
def afterLimit (s : State) (k : Nat) : State := (toPause s k).foldl (fun s b => pauseSandbox s b.id) s

theorem stored_afterLimit (hids : (s.stored.map Sandbox.id).Nodup) (k : Nat) : (afterLimit s k).stored =
    s.stored.map fun b => if b ∈ toPause s k then { b with status := .paused } else b := by
  obtain ⟨-, -, hstored, -⟩ := toPause_spec hids k
  rw [afterLimit, foldl_pause]
  refine List.map_congr_left fun b hb => ?_
  have hiff : b.id ∈ (toPause s k).map Sandbox.id ↔ b ∈ toPause s k := by
    constructor
    · intro h
      obtain ⟨c, hc, hid⟩ := List.mem_map.mp h
      exact eq_of_id hids (hstored c hc).1 hb hid ▸ hc
    · exact List.mem_map_of_mem
  simp only [hiff]

theorem ids_afterLimit (hids : (s.stored.map Sandbox.id).Nodup) (k : Nat) :
    (afterLimit s k).stored.map Sandbox.id = s.stored.map Sandbox.id := by
  rw [stored_afterLimit hids, List.map_map]
  refine List.map_congr_left fun b _ => ?_
  simp only [Function.comp_apply]
  split_ifs <;> rfl

theorem nextId_afterLimit (s : State) (k : Nat) : (afterLimit s k).nextId = s.nextId := by
  rw [afterLimit, foldl_pause]

theorem starting_afterLimit (hids : (s.stored.map Sandbox.id).Nodup) (k : Nat) :
    starting (afterLimit s k) = starting s := by
  obtain ⟨-, -, hstored, -⟩ := toPause_spec hids k
  rw [starting, stored_afterLimit hids, List.countP_map, starting]
  refine List.countP_congr fun b _ => ?_
  simp only [Function.comp_apply, decide_eq_true_iff]
  split_ifs with hb
  · simp [(hstored b hb).2]
  · rfl

theorem running_afterLimit (hids : (s.stored.map Sandbox.id).Nodup) (k : Nat) :
    running (afterLimit s k) = min (running s) k := by
  obtain ⟨hlength, hnodup, hstored, -⟩ := toPause_spec hids k
  have hpaused : s.stored.countP (fun b => decide (b.status = .running) && decide (b ∈ toPause s k)) =
      (toPause s k).length := by
    rw [List.countP_eq_length_filter]
    refine ((List.perm_ext_iff_of_nodup ((List.Nodup.of_map _ hids).filter _) hnodup).mpr fun b => ?_).length_eq
    rw [List.mem_filter, Bool.and_eq_true, decide_eq_true_iff, decide_eq_true_iff]
    exact ⟨fun h => h.2.2, fun h => ⟨(hstored b h).1, (hstored b h).2, h⟩⟩
  have hkept : running (afterLimit s k) =
      s.stored.countP fun b => decide (b.status = .running) && !decide (b ∈ toPause s k) := by
    rw [running, stored_afterLimit hids, List.countP_map]
    refine List.countP_congr fun b _ => ?_
    simp only [Function.comp_apply]
    split_ifs with hb <;> simp [hb]
  have hsplit : running s = s.stored.countP (fun b => decide (b.status = .running) && decide (b ∈ toPause s k)) +
      s.stored.countP (fun b => decide (b.status = .running) && !decide (b ∈ toPause s k)) := by
    rw [running]
    induction s.stored with
    | nil => rfl
    | cons b rest ih =>
      rw [List.countP_cons, List.countP_cons, List.countP_cons, ih]
      cases h : decide (b.status = .running) <;> cases h' : decide (b ∈ toPause s k) <;> simp <;> omega
  rw [hkept]
  omega

/-- What is active after the limit has been enforced. -/
theorem active_afterLimit (hids : (s.stored.map Sandbox.id).Nodup) (k : Nat) :
    active (afterLimit s k) = starting s + min (running s) k := by
  rw [active_eq, starting_afterLimit hids, running_afterLimit hids]

/-- One sandbox that is reported otherwise. -/
theorem active_report (hids : (s.stored.map Sandbox.id).Nodup) {b : Sandbox} (hb : b ∈ s.stored) (status : SandboxStatus) :
    active (report s b.id status) + (if b.isActive then 1 else 0) =
      active s + if ({ b with status := status } : Sandbox).isActive then 1 else 0 := by
  obtain ⟨front, back, hstored⟩ := List.append_of_mem hb
  rw [hstored, List.map_append, List.map_cons, List.nodup_append] at hids
  obtain ⟨-, hback, hfront⟩ := hids
  have hsame (rest : List Sandbox) (hne : ∀ c ∈ rest, c.id ≠ b.id) :
      rest.map (fun c => if c.id = b.id then { c with status := status } else c) = rest := by
    conv_rhs => rw [← List.map_id rest]
    exact List.map_congr_left fun c hc => if_neg (hne c hc)
  rw [active, report, active, hstored]
  dsimp only
  rw [List.map_append, List.map_cons, if_pos rfl,
    hsame front fun c hc => hfront _ (List.mem_map_of_mem hc) _ List.mem_cons_self,
    hsame back fun c hc heq => (List.nodup_cons.mp hback).1 (heq ▸ List.mem_map_of_mem hc)]
  rw [List.countP_append, List.countP_append, List.countP_cons, List.countP_cons]
  omega

theorem report_of_absent {id : Nat} (h : ∀ b ∈ s.stored, b.id ≠ id) (status : SandboxStatus) : report s id status = s := by
  rw [report]
  have hsame : s.stored.map (fun b => if b.id = id then { b with status := status } else b) = s.stored := by
    conv_rhs => rw [← List.map_id s.stored]
    exact List.map_congr_left fun b hb => if_neg (h b hb)
  rw [hsame]

end Pausing

/-! ## Every run -/

section Runs

variable {s : State} {maxNumSandboxes : Nat}

theorem valid_empty (maxNumSandboxes : Nat) : Valid maxNumSandboxes {} :=
  ⟨List.nodup_nil, fun b hb => absurd hb List.not_mem_nil, Nat.zero_le _⟩

theorem pauseOldSandboxes_eq (s : State) (h : 2 ≤ maxNumSandboxes) : pauseOldSandboxes s (maxNumSandboxes - 1) =
    .ok (afterLimit s (maxNumSandboxes - 1), toPause s (maxNumSandboxes - 1)) := by
  have hpos : ¬ (maxNumSandboxes : Int) - 1 ≤ 0 := by omega
  have hnat : ((maxNumSandboxes : Int) - 1).toNat = maxNumSandboxes - 1 := by omega
  rw [pauseOldSandboxes, if_neg hpos, hnat]
  rfl

theorem pauseOldSandboxes_raises (s : State) (h : ¬ 2 ≤ maxNumSandboxes) :
    ∃ err, pauseOldSandboxes s (maxNumSandboxes - 1) = .error err :=
  ⟨_, if_pos (by omega)⟩

theorem active_start (s : State) (now : Int) : active (startSandbox s now) = active s + 1 := by
  rw [active, startSandbox, List.countP_append, active]
  rfl

theorem ids_report (s : State) (id : Nat) (status : SandboxStatus) :
    (report s id status).stored.map Sandbox.id = s.stored.map Sandbox.id := by
  rw [report, List.map_map]
  refine List.map_congr_left fun b _ => ?_
  simp only [Function.comp_apply]
  split_ifs <;> rfl

theorem active_pause_le (s : State) (id : Nat) : active (pauseSandbox s id) ≤ active s := by
  rw [active, pauseSandbox, report, List.countP_map, active]
  refine List.countP_mono_left fun b _ hb => ?_
  simp only [Function.comp_apply] at hb
  split_ifs at hb with hid
  · cases hb
  · exact hb

theorem active_delete_le (s : State) (id : Nat) :
    active { s with stored := s.stored.filter fun b => b.id ≠ id } ≤ active s :=
  List.filter_sublist.countP_le

theorem active_becomesRunning (s : State) (id : Nat) : active { s with stored := s.stored.map fun b =>
    if b.id = id ∧ b.status = .starting then { b with status := .running } else b } = active s := by
  rw [active, List.countP_map, active]
  refine List.countP_congr fun b _ => ?_
  simp only [Function.comp_apply]
  split_ifs with h
  · simp [Sandbox.isActive, h.2]
  · rfl

/-- The sandbox of a resumption counts once more unless it is active still. -/
theorem active_resume (hvalid : Valid maxNumSandboxes s) (hroom : 2 ≤ maxNumSandboxes) (id : Nat) :
    active (report (afterLimit s (maxNumSandboxes - 1)) id .starting) ≤ maxNumSandboxes ↔
      ((∃ b ∈ s.stored, b.id = id ∧ b.isActive = false) → active s < maxNumSandboxes ∨ starting s = 0) := by
  have hafter := active_afterLimit hvalid.ids (maxNumSandboxes - 1)
  have hactive := active_eq s
  have hwithin := hvalid.within
  obtain ⟨hlength, -, -, -⟩ := toPause_spec hvalid.ids (maxNumSandboxes - 1)
  by_cases hstored : ∃ b ∈ s.stored, b.id = id
  · obtain ⟨b, hb, rfl⟩ := hstored
    have hids : ((afterLimit s (maxNumSandboxes - 1)).stored.map Sandbox.id).Nodup := by
      rw [ids_afterLimit hvalid.ids]
      exact hvalid.ids
    have hmem : (if b ∈ toPause s (maxNumSandboxes - 1) then { b with status := .paused } else b) ∈
        (afterLimit s (maxNumSandboxes - 1)).stored := by
      rw [stored_afterLimit hvalid.ids]
      exact List.mem_map_of_mem hb
    have hpremise : (∃ c ∈ s.stored, c.id = b.id ∧ c.isActive = false) ↔ b.isActive = false := by
      constructor
      · rintro ⟨c, hc, hid, hinactive⟩
        exact eq_of_id hvalid.ids hc hb hid ▸ hinactive
      · exact fun h => ⟨b, hb, rfl, h⟩
    rw [hpremise]
    clear hpremise
    by_cases hpaused : b ∈ toPause s (maxNumSandboxes - 1)
    · -- the limit has just paused it, which it does only when all are running
      rw [if_pos hpaused] at hmem
      have hreport := active_report hids hmem .starting
      have hpos := List.length_pos_of_mem hpaused
      have hrunning : b.isActive = true := by
        simp [Sandbox.isActive, ((toPause_spec hvalid.ids _).2.2.1 b hpaused).2]
      simp only [Sandbox.isActive, reduceCtorEq, or_self, decide_false, Bool.false_eq_true, if_false, decide_true, true_or,
        if_true, add_zero] at hreport
      rw [hreport, hrunning]
      refine iff_of_true ?_ fun h => nomatch h
      omega
    · rw [if_neg hpaused] at hmem
      have hreport := active_report hids hmem .starting
      have hnew : ({ b with status := .starting } : Sandbox).isActive = true := rfl
      rw [hnew, if_pos rfl] at hreport
      cases hact : b.isActive with
      | true =>
        rw [hact, if_pos rfl] at hreport
        refine iff_of_true ?_ fun h => nomatch h
        omega
      | false =>
        rw [hact, if_neg Bool.false_ne_true] at hreport
        rw [forall_prop_of_true rfl]
        omega
  · have habsent : ∀ b ∈ (afterLimit s (maxNumSandboxes - 1)).stored, b.id ≠ id := by
      intro b hb heq
      have hid : b.id ∈ (afterLimit s (maxNumSandboxes - 1)).stored.map Sandbox.id := List.mem_map_of_mem hb
      rw [ids_afterLimit hvalid.ids] at hid
      obtain ⟨c, hc, hc'⟩ := List.mem_map.mp hid
      exact hstored ⟨c, hc, hc'.trans heq⟩
    rw [report_of_absent habsent, hafter]
    refine iff_of_true (by omega) ?_
    rintro ⟨b, hb, hid, -⟩
    exact absurd ⟨b, hb, hid⟩ hstored

/-- A call obeys the limit exactly when there is room for what it makes active. -/
theorem obeys_iff (hvalid : Valid maxNumSandboxes s) (call : Call) :
    Obeys maxNumSandboxes s call ↔ HasRoom maxNumSandboxes s call := by
  have hactive := active_eq s
  have hwithin := hvalid.within
  -- without a limit to enforce nothing is paused
  have hquiet {s' : State} (hcall : perform maxNumSandboxes s call = .ok (s', [])) (hle : active s' ≤ active s) :
      Obeys maxNumSandboxes s call :=
    ⟨s', [], hcall, hle.trans hwithin, fun b hb => absurd hb List.not_mem_nil, fun b hb => absurd hb List.not_mem_nil⟩
  have hlimit {f : State → State} (hcall : perform maxNumSandboxes s call =
      (pauseOldSandboxes s (maxNumSandboxes - 1)).map fun r => (f r.1, r.2)) : Obeys maxNumSandboxes s call ↔
        2 ≤ maxNumSandboxes ∧ active (f (afterLimit s (maxNumSandboxes - 1))) ≤ maxNumSandboxes := by
    by_cases hroom : 2 ≤ maxNumSandboxes
    · rw [pauseOldSandboxes_eq s hroom] at hcall
      rw [and_iff_right hroom]
      obtain ⟨-, -, hpaused, holdest⟩ := toPause_spec hvalid.ids (maxNumSandboxes - 1)
      constructor
      · rintro ⟨s', paused, hok, hle, -⟩
        obtain ⟨rfl, -⟩ := Prod.mk.inj (Except.ok.inj (hcall.symm.trans hok))
        exact hle
      · exact fun hle => ⟨_, _, hcall, hle, hpaused, holdest⟩
    · obtain ⟨err, herr⟩ := pauseOldSandboxes_raises s hroom
      rw [herr] at hcall
      refine iff_of_false ?_ fun h => hroom h.1
      rintro ⟨s', paused, hok, -⟩
      cases hcall.symm.trans hok
  cases call with
  | start now =>
    rw [hlimit (f := fun s => startSandbox s now) rfl, HasRoom, active_start, active_afterLimit hvalid.ids]
    omega
  | resume id =>
    rw [hlimit (f := fun s => report s id .starting) rfl, HasRoom]
    exact and_congr_right fun hroom => active_resume hvalid hroom id
  | pause id => exact iff_of_true (hquiet rfl (active_pause_le s id)) trivial
  | delete id => exact iff_of_true (hquiet rfl (active_delete_le s id)) trivial
  | becomesRunning id => exact iff_of_true (hquiet rfl (active_becomesRunning s id).le) trivial

theorem step_valid (hvalid : Valid maxNumSandboxes s) {call : Call} (hobeys : Obeys maxNumSandboxes s call) :
    Valid maxNumSandboxes (step maxNumSandboxes s call) := by
  obtain ⟨s', paused, hok, hle, -⟩ := hobeys
  have hstep : step maxNumSandboxes s call = s' := by rw [step, hok]
  rw [hstep]
  suffices hids : (s'.stored.map Sandbox.id).Nodup ∧ ∀ b ∈ s'.stored, b.id < s'.nextId from ⟨hids.1, hids.2, hle⟩
  have hsame {t : State} (hids : t.stored.map Sandbox.id = s.stored.map Sandbox.id) (hnext : t.nextId = s.nextId) :
      (t.stored.map Sandbox.id).Nodup ∧ ∀ b ∈ t.stored, b.id < t.nextId := by
    rw [hids, hnext]
    refine ⟨hvalid.ids, fun b hb => ?_⟩
    have hid : b.id ∈ t.stored.map Sandbox.id := List.mem_map_of_mem hb
    rw [hids] at hid
    obtain ⟨c, hc, hc'⟩ := List.mem_map.mp hid
    exact hc' ▸ hvalid.below c hc
  have hlimit {f : State → State} (hok : (pauseOldSandboxes s (maxNumSandboxes - 1)).map (fun r => (f r.1, r.2)) =
      .ok (s', paused)) : s' = f (afterLimit s (maxNumSandboxes - 1)) := by
    by_cases hroom : 2 ≤ maxNumSandboxes
    · rw [pauseOldSandboxes_eq s hroom] at hok
      exact (Prod.mk.inj (Except.ok.inj hok)).1.symm
    · obtain ⟨err, herr⟩ := pauseOldSandboxes_raises s hroom
      rw [herr] at hok
      cases hok
  obtain ⟨hafterIds, hafterBelow⟩ := hsame (ids_afterLimit hvalid.ids (maxNumSandboxes - 1)) (nextId_afterLimit s _)
  cases call with
  | start now =>
    obtain rfl := hlimit (f := fun s => startSandbox s now) hok
    constructor
    · rw [startSandbox, List.map_append]
      refine List.nodup_append.mpr ⟨hafterIds, List.nodup_singleton _, fun i hi j hj heq => ?_⟩
      obtain ⟨b, hb, rfl⟩ := List.mem_map.mp hi
      have hlt := hafterBelow b hb
      rw [heq, List.mem_singleton.mp hj] at hlt
      exact absurd hlt (lt_irrefl _)
    · intro b hb
      rcases List.mem_append.mp hb with hb | hb
      · exact (hafterBelow b hb).trans (Nat.lt_succ_self _)
      · rw [List.mem_singleton.mp hb]
        exact Nat.lt_succ_self _
  | resume id =>
    obtain rfl := hlimit (f := fun s => report s id .starting) hok
    exact hsame ((ids_report _ id _).trans (ids_afterLimit hvalid.ids _)) (nextId_afterLimit s _)
  | pause id =>
    obtain ⟨rfl, -⟩ := Prod.mk.inj (Except.ok.inj hok)
    exact hsame (ids_report s id _) rfl
  | delete id =>
    obtain ⟨rfl, -⟩ := Prod.mk.inj (Except.ok.inj hok)
    exact ⟨hvalid.ids.sublist (List.filter_sublist.map Sandbox.id), fun b hb => hvalid.below b (List.mem_of_mem_filter hb)⟩
  | becomesRunning id =>
    obtain ⟨rfl, -⟩ := Prod.mk.inj (Except.ok.inj hok)
    refine hsame ?_ rfl
    rw [List.map_map]
    refine List.map_congr_left fun b _ => ?_
    simp only [Function.comp_apply]
    split_ifs <;> rfl

/-- A run obeys the limit exactly when there is room at every call. -/
theorem obeys_run_iff (maxNumSandboxes : Nat) (calls : List Call) :
    Runs.EachStep (step maxNumSandboxes) {} (Obeys maxNumSandboxes) calls ↔
      Runs.EachStep (step maxNumSandboxes) {} (HasRoom maxNumSandboxes) calls :=
  Runs.eachStep_iff (I := Valid maxNumSandboxes) (valid_empty maxNumSandboxes)
    (fun _ _ hvalid hobeys => step_valid hvalid hobeys) (fun _ call hvalid => obeys_iff hvalid call) calls

/-- The second sandbox is started while the first one is starting still, and the third one too. -/
theorem starting_not_counted : ¬ ∀ maxNumSandboxes calls, 1 ≤ maxNumSandboxes →
    Runs.EachStep (step maxNumSandboxes) {} (Obeys maxNumSandboxes) calls := by
  intro h
  obtain ⟨s', paused, hok, hle, -⟩ :=
    h 2 [.start 0, .start 1, .start 2] (by decide) [.start 0, .start 1] (.start 2) List.prefix_rfl
  have hthree : perform 2 ([.start 0, .start 1].foldl (step 2) {}) (.start 2) =
    .ok (⟨[⟨0, 0, .starting⟩, ⟨1, 1, .starting⟩, ⟨2, 2, .starting⟩], 3⟩, []) := by rfl
  obtain ⟨rfl, -⟩ := Prod.mk.inj (Except.ok.inj (hthree.symm.trans hok))
  exact absurd hle (by decide)

end Runs

end RemoteSandboxService

end OpenHands
