import Mathlib.Data.List.Basic
import OpenHandsSWE.Lib.Assoc
import OpenHandsSWE.Lib.Parties
import OpenHandsSWE.Lib.Runs

/-! Sandboxes that are processes of their own: a port is found by a bind that is closed at once, the process
binds it later, and whoever answers on it counts as the sandbox. -/

namespace OpenHands.ProcessSandboxes

inductive Stage where
  | starting
  | listening
  | exited
deriving DecidableEq, Repr

/-- An agent server, in the directory of the sandbox that it was spawned for. -/
structure Process where
  sandboxId : String
  port : Nat
  sessionApiKey : String
  stage : Stage := .starting
deriving DecidableEq, Repr

structure ProcessInfo where
  pid : Nat
  port : Nat
  sessionApiKey : String
deriving DecidableEq, Repr

inductive SandboxStatus where
  | starting
  | running
  | missing
  | error
deriving DecidableEq, Repr

/-- The port is the one in the exposed URL. -/
structure SandboxInfo where
  id : String
  status : SandboxStatus
  sessionApiKey : Option String := none
  exposedPort : Option Nat := none
deriving DecidableEq, Repr

/-- Where a `start_sandbox` waits. -/
inductive Phase where
  | spec
  | sleeping (info : ProcessInfo)
  | waiting (info : ProcessInfo)
  | checking (info : ProcessInfo)
  | returned (info : SandboxInfo)
  | raised
deriving DecidableEq, Repr

/-- The process of a start under way, and the one whose status it has seen. -/
def Phase.info? : Phase → Option ProcessInfo
  | .sleeping info | .waiting info | .checking info => some info
  | _ => none

def Phase.checked? : Phase → Option ProcessInfo
  | .checking info => some info
  | _ => none

structure Start where
  sandboxId : String
  sessionApiKey : String
  phase : Phase := .spec
deriving DecidableEq, Repr

structure State where
  processes : List Process := []
  tracked : List (String × ProcessInfo) := []
  starts : List Start := []
deriving DecidableEq, Repr

/-- A process binds on its own; `running` is whether the system reports a live process as running. -/
inductive Step where
  | start (sandboxId sessionApiKey : String)
  | spawn (i : Nat)
  | bind (pid : Nat)
  | record (i : Nat)
  | alive (i : Nat) (running : Bool)
  | health (i : Nat)
  | giveUp (i : Nat)
  | delete (sandboxId : String)

namespace State

def listens (s : State) (port : Nat) : Bool := s.processes.any fun p => p.stage == .listening && p.port == port

def findUnusedPort (s : State) (basePort : Nat) : Option Nat :=
  ((List.range 10000).map (basePort + ·)).find? fun port => !s.listens port

def setStage (s : State) (pid : Nat) (stage : Stage) : State :=
  { s with processes := s.processes.modify pid fun p => { p with stage := stage } }

def setPhase (s : State) (i : Nat) (phase : Phase) : State :=
  { s with starts := s.starts.modify i fun c => { c with phase := phase } }

def isLive (s : State) (pid : Nat) : Bool := s.processes[pid]?.any fun p => p.stage != .exited

end State

def deleteSandbox (s : State) (sandboxId : String) : State :=
  match Assoc.get? sandboxId s.tracked with
  | none => s
  | some info => { s.setStage info.pid .exited with tracked := Assoc.erase sandboxId s.tracked }

def spawn (basePort : Nat) (s : State) (i : Nat) (c : Start) : State :=
  match s.findUnusedPort basePort with
  | none => s.setPhase i .raised
  | some port =>
    { s with processes := s.processes ++ [(⟨c.sandboxId, port, c.sessionApiKey, .starting⟩ : Process)] }.setPhase i
      (.sleeping ⟨s.processes.length, port, c.sessionApiKey⟩)

/-- A server that answers on the port makes the start go on to the status of its own process. -/
def alive (s : State) (i : Nat) (c : Start) (info : ProcessInfo) (running : Bool) : State :=
  if s.listens info.port then
    if s.isLive info.pid then
      if running then s.setPhase i (.checking info)
      else s.setPhase i (.returned { id := c.sandboxId, status := .starting })
    else s.setPhase i (.returned { id := c.sandboxId, status := .missing })
  else s

def health (s : State) (i : Nat) (c : Start) (info : ProcessInfo) : State :=
  s.setPhase i (.returned (if s.listens info.port then
    { id := c.sandboxId, status := .running, sessionApiKey := some info.sessionApiKey, exposedPort := some info.port }
  else { id := c.sandboxId, status := .error }))

/-- A step that does not come next changes nothing. -/
def step (basePort : Nat) (s : State) : Step → State
  | .start sandboxId sessionApiKey =>
    if s.starts.any fun c => c.sandboxId == sandboxId then s
    else { s with starts := s.starts ++ [(⟨sandboxId, sessionApiKey, .spec⟩ : Start)] }
  | .spawn i =>
    match s.starts[i]? with
    | some ⟨sandboxId, key, .spec⟩ => spawn basePort s i ⟨sandboxId, key, .spec⟩
    | _ => s
  | .bind pid =>
    match s.processes[pid]? with
    | some ⟨_, port, _, .starting⟩ => s.setStage pid (if s.listens port then .exited else .listening)
    | _ => s
  | .record i =>
    match s.starts[i]? with
    | some ⟨sandboxId, _, .sleeping info⟩ =>
      if s.isLive info.pid then
        { s with tracked := Assoc.set sandboxId info s.tracked }.setPhase i (.waiting info)
      else s.setPhase i .raised
    | _ => s
  | .alive i running =>
    match s.starts[i]? with
    | some ⟨sandboxId, key, .waiting info⟩ => alive s i ⟨sandboxId, key, .waiting info⟩ info running
    | _ => s
  | .health i =>
    match s.starts[i]? with
    | some ⟨sandboxId, key, .checking info⟩ => health s i ⟨sandboxId, key, .checking info⟩ info
    | _ => s
  | .giveUp i =>
    match s.starts[i]? with
    | some ⟨sandboxId, _, .waiting _⟩ => (deleteSandbox s sandboxId).setPhase i .raised
    | _ => s
  | .delete sandboxId => deleteSandbox s sandboxId

/-- No process is on the way to the port that is found, and no sandbox is deleted between the two checks. -/
def InTurn (basePort : Nat) (s : State) : Step → Prop
  | .spawn _ => ∀ port ∈ s.findUnusedPort basePort, ∀ p ∈ s.processes, p.stage = .starting → p.port ≠ port
  | .health i => ∀ c ∈ s.starts[i]?, ∀ info ∈ c.phase.checked?, s.isLive info.pid = true
  | _ => True

instance (basePort : Nat) (s : State) : DecidablePred (InTurn basePort s)
  | .spawn _ => inferInstanceAs (Decidable (∀ port ∈ s.findUnusedPort basePort, ∀ p ∈ s.processes, _))
  | .health i => inferInstanceAs (Decidable (∀ c ∈ s.starts[i]?, ∀ info ∈ c.phase.checked?, _))
  | .start _ _ | .bind _ | .record _ | .alive _ _ | .giveUp _ | .delete _ => isTrue trivial

/-- The server on the exposed port is the one spawned for the sandbox, and takes its key. -/
def OwnServer (s : State) (info : SandboxInfo) : Prop :=
  ∃ p ∈ s.processes, p.stage = .listening ∧ some p.port = info.exposedPort ∧
    p.sandboxId = info.id ∧ some p.sessionApiKey = info.sessionApiKey ∧
    ∀ q ∈ s.processes, q.stage = .listening → q.port = p.port → q = p

/-- No two sandboxes that are tracked and live have one port. -/
def OwnPorts (s : State) : Prop :=
  ∀ kv ∈ s.tracked, ∀ kv' ∈ s.tracked, s.isLive kv.2.pid = true → s.isLive kv'.2.pid = true →
    kv.2.port = kv'.2.port → kv.1 = kv'.1

/-- After the step the ports are the sandboxes' own, and so is the server of a sandbox that it returns. -/
def PortsKept (basePort : Nat) (s : State) (i : Step) : Prop :=
  OwnPorts (step basePort s i) ∧ ∀ (j : Nat) (c : Start) (info : SandboxInfo), (step basePort s i).starts[j]? = some c →
    c.phase = .returned info → info.status = .running →
    (∀ d ∈ s.starts[j]?, d.phase ≠ c.phase) → OwnServer (step basePort s i) info

/-- The process that a sandbox was given. -/
def Spawned (s : State) (sandboxId : String) (info : ProcessInfo) : Prop :=
  ∃ p, s.processes[info.pid]? = some p ∧ p.sandboxId = sandboxId ∧ p.port = info.port ∧
    p.sessionApiKey = info.sessionApiKey

structure Sound (s : State) : Prop where
  distinct : ∀ (i j : Nat) (p q : Process), s.processes[i]? = some p → s.processes[j]? = some q →
    p.stage ≠ .exited → q.stage ≠ .exited → p.port = q.port → i = j
  tracked : ∀ kv ∈ s.tracked, Spawned s kv.1 kv.2
  started : ∀ c ∈ s.starts, ∀ info ∈ c.phase.info?, Spawned s c.sandboxId info

section
variable {s t : State} {sandboxId : String} {info : ProcessInfo} {pid i j : Nat} {stage : Stage} {phase : Phase}
  {c : Start} {p q : Process}

theorem setStage_get : (s.setStage pid stage).processes[i]? =
    s.processes[i]?.map fun p => if i = pid then { p with stage := stage } else p := by
  rw [State.setStage, List.getElem?_modify]
  by_cases h : i = pid
  · simp [h]
  · simp [h, Ne.symm h]

theorem setStage_some (h : (s.setStage pid stage).processes[i]? = some p) :
    ∃ q, s.processes[i]? = some q ∧ p.port = q.port ∧ (i = pid ∧ p.stage = stage ∨ p.stage = q.stage) := by
  rw [setStage_get, Option.map_eq_some_iff] at h
  obtain ⟨q, hq, rfl⟩ := h
  refine ⟨q, hq, ?_⟩
  split
  · next h => exact ⟨rfl, .inl ⟨h, rfl⟩⟩
  · exact ⟨rfl, .inr rfl⟩

theorem Spawned.setStage (h : Spawned s sandboxId info) : Spawned (s.setStage pid stage) sandboxId info := by
  obtain ⟨p, hp, hid, hport, hkey⟩ := h
  refine ⟨_, setStage_get.trans (congrArg _ hp), ?_⟩
  split
  · exact ⟨hid, hport, hkey⟩
  · exact ⟨hid, hport, hkey⟩

theorem isLive_iff : s.isLive pid = true ↔ ∃ p, s.processes[pid]? = some p ∧ p.stage ≠ .exited := by
  unfold State.isLive
  cases s.processes[pid]? <;> simp

theorem setPhase_cases (h : (s.setPhase i phase).starts[j]? = some c) :
    (∃ d, s.starts[i]? = some d ∧ c = { d with phase := phase }) ∨ s.starts[j]? = some c := by
  rcases Parties.modify_cases h with ⟨-, hchanged⟩ | ⟨-, hother⟩
  · exact .inl hchanged
  · exact .inr hother

theorem mem_setPhase (hc : s.starts[i]? = some c) {d : Start} (hd : d ∈ (s.setPhase i phase).starts) :
    d = { c with phase := phase } ∨ d ∈ s.starts := by
  obtain ⟨j, hd⟩ := List.mem_iff_getElem?.mp hd
  rcases setPhase_cases hd with ⟨c', hc', rfl⟩ | hd
  · obtain rfl := Option.some.inj (hc.symm.trans hc')
    exact .inl rfl
  · exact .inr (List.mem_of_getElem? hd)

theorem Sound.setPhase (hs : Sound s) (hc : s.starts[i]? = some c)
    (h : ∀ info ∈ phase.info?, Spawned s c.sandboxId info) : Sound (s.setPhase i phase) where
  distinct := hs.distinct
  tracked := hs.tracked
  started := by
    intro d hd
    rcases mem_setPhase hc hd with rfl | hd
    · exact h
    · exact hs.started d hd

/-- No process comes to life again. -/
theorem Sound.setStage (hs : Sound s) (h : stage ≠ .exited → s.isLive pid = true) : Sound (s.setStage pid stage) where
  distinct := by
    have hlive : ∀ (k : Nat) (p : Process), (s.setStage pid stage).processes[k]? = some p → p.stage ≠ .exited →
        ∃ q, s.processes[k]? = some q ∧ p.port = q.port ∧ q.stage ≠ .exited := by
      intro k p hp hstage
      obtain ⟨q, hq, hport, ⟨rfl, heq⟩ | heq⟩ := setStage_some hp
      · rw [heq] at hstage
        obtain ⟨q', hq', hlive⟩ := isLive_iff.mp (h hstage)
        rw [hq] at hq'
        obtain rfl := Option.some.inj hq'
        exact ⟨q, hq, hport, hlive⟩
      · exact ⟨q, hq, hport, heq ▸ hstage⟩
    intro i j p q hp hq hpl hql hport
    obtain ⟨p', hp', hpp, hpl'⟩ := hlive i p hp hpl
    obtain ⟨q', hq', hqp, hql'⟩ := hlive j q hq hql
    exact hs.distinct i j p' q' hp' hq' hpl' hql' (hpp.symm.trans (hport.trans hqp))
  tracked kv hkv := (hs.tracked kv hkv).setStage
  started c hc info hinfo := (hs.started c hc info hinfo).setStage

theorem starts_delete : (deleteSandbox s sandboxId).starts = s.starts := by
  unfold deleteSandbox
  split
  · rfl
  · rfl

theorem sound_delete (hs : Sound s) : Sound (deleteSandbox s sandboxId) := by
  unfold deleteSandbox
  split
  · exact hs
  · next info _ =>
    have hstage : Sound (s.setStage info.pid .exited) := hs.setStage fun h => absurd rfl h
    exact ⟨hstage.distinct, fun kv hkv => hstage.tracked kv (Assoc.mem_erase hkv), hstage.started⟩

theorem listens_iff {port : Nat} : s.listens port = true ↔ ∃ p ∈ s.processes, p.stage = .listening ∧ p.port = port := by
  simp [State.listens]

theorem sound_spawn {basePort : Nat} (hs : Sound s) (hc : s.starts[i]? = some c)
    (hturn : InTurn basePort s (.spawn i)) : Sound (spawn basePort s i c) := by
  unfold spawn
  split
  · exact hs.setPhase hc (by simp [Phase.info?])
  · next port hport =>
    have hfree : s.listens port = false := by simpa using List.find?_some hport
    -- no live process has the port: one that listens would keep it from being found
    have hnew : ∀ p ∈ s.processes, p.stage ≠ .exited → p.port ≠ port := by
      intro p hp hlive heq
      cases hstage : p.stage with
      | starting => exact hturn port hport p hp hstage heq
      | listening => exact absurd (listens_iff.mpr ⟨p, hp, hstage, heq⟩) (by simp [hfree])
      | exited => exact hlive hstage
    have hgrow : ∀ {sandboxId : String} {info : ProcessInfo}, Spawned s sandboxId info → Spawned
        { s with processes := s.processes ++ [(⟨c.sandboxId, port, c.sessionApiKey, .starting⟩ : Process)] }
        sandboxId info := by
      rintro sandboxId info ⟨p, hp, h⟩
      refine ⟨p, ?_, h⟩
      rw [List.getElem?_append_left (List.getElem?_eq_some_iff.mp hp).1, hp]
    refine Sound.setPhase ⟨?_, fun kv hkv => hgrow (hs.tracked kv hkv), fun d hd info hinfo =>
      hgrow (hs.started d hd info hinfo)⟩ hc ?_
    · intro i j p q hp hq hpl hql hports
      have hcases : ∀ (k : Nat) (r : Process),
          (s.processes ++ [(⟨c.sandboxId, port, c.sessionApiKey, .starting⟩ : Process)])[k]? = some r →
          s.processes[k]? = some r ∨ k = s.processes.length ∧ r.port = port := by
        intro k r hr
        rcases Parties.append_cases hr with hr | ⟨hk, rfl⟩
        · exact .inl hr
        · exact .inr ⟨hk, rfl⟩
      rcases hcases i p hp with hp | ⟨hi, hpp⟩
      · rcases hcases j q hq with hq | ⟨-, hqp⟩
        · exact hs.distinct i j p q hp hq hpl hql hports
        · exact absurd (hports.trans hqp) (hnew p (List.mem_of_getElem? hp) hpl)
      · rcases hcases j q hq with hq | ⟨hj, -⟩
        · exact absurd (hports.symm.trans hpp) (hnew q (List.mem_of_getElem? hq) hql)
        · exact hi.trans hj.symm
    · intro info hinfo
      obtain rfl := Option.some.inj hinfo
      exact ⟨_, List.getElem?_concat_length, rfl, rfl, rfl⟩

theorem sound_step {basePort : Nat} (hs : Sound s) (i : Step) (hturn : InTurn basePort s i) :
    Sound (step basePort s i) := by
  cases i with
  | start sandboxId sessionApiKey =>
    simp only [step]
    split
    · exact hs
    · refine ⟨hs.distinct, hs.tracked, fun c hc => ?_⟩
      rcases List.mem_append.mp hc with hc | hc
      · exact hs.started c hc
      · rw [List.mem_singleton.mp hc]
        simp [Phase.info?]
  | spawn i =>
    simp only [step]
    split
    · next hc => exact sound_spawn hs hc hturn
    · exact hs
  | bind pid =>
    simp only [step]
    split
    · next hp => exact hs.setStage fun _ => isLive_iff.mpr ⟨_, hp, nofun⟩
    · exact hs
  | record i =>
    simp only [step]
    split
    · next sandboxId key info hc =>
      have hspawned := hs.started _ (List.mem_of_getElem? hc) info rfl
      split
      · refine Sound.setPhase ⟨hs.distinct, fun kv hkv => ?_, hs.started⟩ hc fun info' hinfo => ?_
        · rcases Assoc.mem_set hkv with rfl | hkv
          · exact hspawned
          · exact hs.tracked kv hkv
        · obtain rfl := Option.some.inj hinfo
          exact hspawned
      · exact hs.setPhase hc (by simp [Phase.info?])
    · exact hs
  | alive i running =>
    simp only [step]
    split
    · next sandboxId key info hc =>
      have hspawned := hs.started _ (List.mem_of_getElem? hc) info rfl
      unfold alive
      split
      · split
        · split
          · refine hs.setPhase hc fun info' hinfo => ?_
            obtain rfl := Option.some.inj hinfo
            exact hspawned
          · exact hs.setPhase hc (by simp [Phase.info?])
        · exact hs.setPhase hc (by simp [Phase.info?])
      · exact hs
    · exact hs
  | health i =>
    simp only [step]
    split
    · next hc => exact hs.setPhase hc (by simp [Phase.info?])
    · exact hs
  | giveUp i =>
    simp only [step]
    split
    · next hc => exact (sound_delete hs).setPhase (by rw [starts_delete]; exact hc) (by simp [Phase.info?])
    · exact hs
  | delete sandboxId => exact sound_delete hs

theorem Sound.ownPorts (hs : Sound s) : OwnPorts s := by
  intro kv hkv kv' hkv' hlive hlive' hports
  obtain ⟨p, hp, hid, hport, -⟩ := hs.tracked kv hkv
  obtain ⟨q, hq, hid', hport', -⟩ := hs.tracked kv' hkv'
  have hstage : ∀ {pid : Nat} {p : Process}, s.processes[pid]? = some p → s.isLive pid = true → p.stage ≠ .exited := by
    intro pid p hp hlive
    obtain ⟨q, hq, hstage⟩ := isLive_iff.mp hlive
    rw [hp] at hq
    exact Option.some.inj hq ▸ hstage
  have hpid := hs.distinct _ _ p q hp hq (hstage hp hlive) (hstage hq hlive') (by rw [hport, hport', hports])
  rw [hpid, hq] at hp
  rw [← hid, ← hid', Option.some.inj hp]

/-- A sandbox that is running when its start returns is one whose port a server has just answered on. -/
theorem returned_step {basePort : Nat} {i : Step} {result : SandboxInfo}
    (h : (step basePort s i).starts[j]? = some c) (hphase : c.phase = .returned result)
    (hrunning : result.status = .running) :
    s.starts[j]? = some c ∨ ∃ k sandboxId key info, i = .health k ∧
      s.starts[k]? = some ⟨sandboxId, key, .checking info⟩ ∧ s.listens info.port = true ∧
      result = ⟨sandboxId, .running, some info.sessionApiKey, some info.port⟩ := by
  -- a phase that is not a running sandbox is not what is returned
  have hother : ∀ {t : State} {k : Nat} {phase : Phase}, t.starts = s.starts →
      (∀ result, phase = .returned result → result.status ≠ .running) →
      (t.setPhase k phase).starts[j]? = some c → s.starts[j]? = some c := by
    intro t k phase hstarts hphases hc
    rcases setPhase_cases hc with ⟨d, -, rfl⟩ | hc
    · exact absurd hrunning (hphases result hphase)
    · rw [← hstarts, hc]
  cases i with
  | start sandboxId sessionApiKey =>
    simp only [step] at h
    split at h
    · exact .inl h
    · rcases Parties.append_cases h with h | ⟨-, rfl⟩
      · exact .inl h
      · exact absurd hphase (nomatch ·)
  | spawn i =>
    simp only [step] at h
    split at h
    · unfold spawn at h
      split at h
      · exact .inl (hother rfl (by nofun) h)
      · exact .inl (hother rfl (by nofun) h)
    · exact .inl h
  | bind pid =>
    simp only [step] at h
    split at h
    · exact .inl h
    · exact .inl h
  | record i =>
    simp only [step] at h
    split at h
    · split at h
      · exact .inl (hother rfl (by nofun) h)
      · exact .inl (hother rfl (by nofun) h)
    · exact .inl h
  | alive i running =>
    simp only [step] at h
    split at h
    · unfold alive at h
      split at h
      · split at h
        · split at h
          · exact .inl (hother rfl (by nofun) h)
          · refine .inl (hother rfl (fun result hresult => ?_) h)
            rw [← Phase.returned.inj hresult]
            exact nofun
        · refine .inl (hother rfl (fun result hresult => ?_) h)
          rw [← Phase.returned.inj hresult]
          exact nofun
      · exact .inl h
    · exact .inl h
  | health k =>
    simp only [step] at h
    split at h
    · next sandboxId key info hk =>
      unfold health at h
      by_cases hlistens : s.listens info.port = true
      · rw [if_pos hlistens] at h
        rcases setPhase_cases h with ⟨d, -, rfl⟩ | h
        · exact .inr ⟨k, sandboxId, key, info, rfl, hk, hlistens, (Phase.returned.inj hphase).symm⟩
        · exact .inl h
      · rw [if_neg hlistens] at h
        refine .inl (hother rfl (fun result hresult => ?_) h)
        rw [← Phase.returned.inj hresult]
        exact nofun
    · exact .inl h
  | giveUp i =>
    simp only [step] at h
    split at h
    · exact .inl (hother starts_delete (by nofun) h)
    · exact .inl h
  | delete sandboxId =>
    rw [step, starts_delete] at h
    exact .inl h

theorem health_processes {basePort k : Nat} : (step basePort s (.health k)).processes = s.processes := by
  simp only [step]
  split
  · rfl
  · rfl

theorem portsKept_step {basePort : Nat} (hs : Sound s) (i : Step) (hturn : InTurn basePort s i) :
    PortsKept basePort s i := by
  refine ⟨(sound_step hs i hturn).ownPorts, fun j c result hc hphase hrunning hnew => ?_⟩
  rcases returned_step hc hphase hrunning with hc | ⟨k, sandboxId, key, info, rfl, hk, hlistens, rfl⟩
  · exact absurd rfl (hnew c hc)
  · obtain ⟨p, hp, hid, hport, hkey⟩ := hs.started _ (List.mem_of_getElem? hk) info rfl
    obtain ⟨p', hp', hlive⟩ := isLive_iff.mp (hturn _ hk info rfl)
    rw [hp] at hp'
    obtain rfl := Option.some.inj hp'
    -- whoever listens on the port of a live process is that process
    have hself : ∀ q ∈ s.processes, q.stage = .listening → q.port = p.port → q = p := by
      intro q hq hstage hports
      obtain ⟨n, hq⟩ := List.mem_iff_getElem?.mp hq
      have hn := hs.distinct n _ q p hq hp (by rw [hstage]; exact nofun) hlive hports
      rw [hn, hp] at hq
      exact (Option.some.inj hq).symm
    obtain ⟨q, hq, hstage, hqport⟩ := listens_iff.mp hlistens
    obtain rfl := hself q hq hstage (hqport.trans hport.symm)
    unfold OwnServer
    rw [health_processes]
    exact ⟨q, hq, hstage, congrArg some hqport, hid, congrArg some hkey, hself⟩

end

/-- Two starts find one port, and the server of the first answers for the second. -/
def race : List Step :=
  [.start "a" "key-a", .start "b" "key-b", .spawn 0, .spawn 1, .bind 0, .record 0, .record 1, .alive 1 true]

end OpenHands.ProcessSandboxes
