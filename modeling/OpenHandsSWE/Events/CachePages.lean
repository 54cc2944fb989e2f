import OpenHandsSWE.Events.EventStream
import OpenHandsSWE.Events.EventLog
import OpenHandsSWE.Lib.JsonRoundTrip
import OpenHandsSWE.Lib.Parties

/-! Runs of the event stream, and what its files and cache pages hold at every point of a run. -/

namespace OpenHands

namespace EventStream

inductive Step (out : Outside) where
  | enter (e : NewEvent out) (source : EventSource) (timestamp : String)
  | write (k : Nat)
  | storePage (k : Nat)
  | deliver (k : Nat)
  | setSecrets (secrets : List (String × String))
  | updateSecrets (secrets : List (String × String))
  | restart

variable (out : Outside)

def step (s : EventStream) : Step out → EventStream
  | .enter e source timestamp =>
    if e.event.id ≠ INVALID_ID then s else s.enter out e.event source timestamp
  | .write k => s.write k
  | .storePage k => s.storePage k
  | .deliver k => s.deliver k
  | .setSecrets secrets => s.setSecrets secrets
  | .updateSecrets secrets => s.updateSecrets secrets
  | .restart => s.restart

def run (steps : List (Step out)) : EventStream := steps.foldl (step out) {}

/-- Where the page of an index starts. -/
def pageIndex (id : Int) : Int := id - id % CACHE_SIZE

/-- No call has still to write an event whose page is stored already. -/
def NotTorn (s : EventStream) : Prop :=
  ∀ c ∈ s.calls, c.phase = .entered →
    Assoc.get? (.cachePage (pageIndex c.event.id) (pageIndex c.event.id + CACHE_SIZE)) s.files = none

/-- What raises in the locked section raises while no page that a reader looks up is begun, and a
restart loses no event of a stored page. -/
def StepOk (s : EventStream) : Step out → Prop
  | .enter e source timestamp =>
    e.event.id = INVALID_ID → (∃ err, s.prepare out e.event source timestamp = .error err) →
      ∀ start, pageStart s.writePage = some start → start % CACHE_SIZE ≠ 0
  | .restart => s.NotTorn
  | _ => True

/-- Each step is sound in the state it is taken in. -/
def StepsOk (s : EventStream) : List (Step out) → Prop
  | [] => True
  | next :: steps => StepOk out s next ∧ StepsOk (s.step out next) steps

def RunOk (steps : List (Step out)) : Prop := StepsOk out {} steps

/-! ## Stored dictionaries -/

/-- A dictionary that is read back as the event of an id. -/
def ReadsAs (data : Dict) (id : Int) : Prop :=
  DictWellFormed data ∧ Assoc.get? "id" data = some (.int id) ∧
    ∃ e, eventFromDict out data = .ok e ∧ e.id = id

/-- The dictionary is in the file of the id, or a call is about to write it there. -/
def Holds (s : EventStream) (id : Int) (data : Dict) : Prop :=
  Assoc.get? (.event id) s.files = some (Json.dumps (.obj data)) ∨
    ∃ c ∈ s.calls, c.phase = .entered ∧ c.event.id = id ∧ c.data = data

def PageHolds (s : EventStream) (page : List Dict) (start : Int) : Prop :=
  ∀ (j : Nat) (data : Dict), page[j]? = some data → ReadsAs out data (start + j) ∧ s.Holds (start + j) data

def AlignedPage (s : EventStream) (page : List Dict) : Prop :=
  ∀ start, pageStart page = some start → start % CACHE_SIZE = 0 → PageHolds out s page start

structure Invariant (s : EventStream) : Prop where
  curId_nonneg : 0 ≤ s.curId
  files : ∀ id content, Assoc.get? (.event id) s.files = some content →
    0 ≤ id ∧ id < s.curId ∧ ∃ data, content = Json.dumps (.obj data) ∧ ReadsAs out data id
  calls : ∀ c ∈ s.calls, 0 ≤ c.event.id ∧ c.event.id < s.curId ∧
    ReadsAs out c.data c.event.id ∧
    (c.phase = .entered → Assoc.get? (.event c.event.id) s.files = none)
  distinct : (s.calls.map fun c => c.event.id).Nodup
  known : s.curId? = none → s.calls = [] ∧ s.donePages = [] ∧ s.writePage = []
  donePages : ∀ page ∈ s.donePages, page.length = CACHE_SIZE ∧ AlignedPage out s page
  writePage : s.writePage.length < CACHE_SIZE ∧ AlignedPage out s s.writePage
  next : ∀ start, pageStart s.writePage = some start → start % CACHE_SIZE = 0 →
    s.curId = start + s.writePage.length
  pages : ∀ start content,
    Assoc.get? (.cachePage start (start + CACHE_SIZE)) s.files = some content →
    start % CACHE_SIZE = 0 → ∃ page : List Dict, content = Json.dumps (.arr (page.map .obj)) ∧
      page.length = CACHE_SIZE ∧ PageHolds out s page start

variable {out} {s s' : EventStream}

/-- A step keeps what files and calls hold when it keeps files and no call in between is lost. -/
theorem holds_mono (hfiles : ∀ id content, Assoc.get? (.event id) s.files = some content →
      Assoc.get? (.event id) s'.files = some content)
    (hcalls : ∀ c ∈ s.calls, c.phase = .entered → s'.Holds c.event.id c.data)
    (id : Int) (data : Dict) (h : s.Holds id data) : s'.Holds id data := by
  rcases h with h | ⟨c, hc, hphase, rfl, rfl⟩
  · exact .inl (hfiles id _ h)
  · exact hcalls c hc hphase

theorem PageHolds.mono (hmono : ∀ id data, s.Holds id data → s'.Holds id data)
    {page : List Dict} {start : Int} (h : PageHolds out s page start) :
    PageHolds out s' page start := by
  intro j data hj
  obtain ⟨hread, hhold⟩ := h j data hj
  exact ⟨hread, hmono _ _ hhold⟩

theorem AlignedPage.mono (hmono : ∀ id data, s.Holds id data → s'.Holds id data)
    {page : List Dict} (h : AlignedPage out s page) : AlignedPage out s' page :=
  fun start hstart halign => (h start hstart halign).mono hmono

theorem pageStart_append {page : List Dict} (h : page ≠ []) (data : Dict) :
    pageStart (page ++ [data]) = pageStart page := by
  cases page with
  | nil => exact absurd rfl h
  | cons first page => rfl

theorem pageStart_single {data : Dict} {id : Int} (h : ReadsAs out data id) :
    pageStart [data] = some id := by
  show (Assoc.get? "id" data).bind Json.int? = some id
  rw [h.2.1]
  rfl

/-! ## The current id of a new stream -/

theorem foldl_max_spec (ids : List Int) (start : Int) :
    start ≤ ids.foldl (fun maxId id => if maxId ≤ id then id else maxId) start ∧
      ∀ id ∈ ids, id ≤ ids.foldl (fun maxId id => if maxId ≤ id then id else maxId) start := by
  induction ids generalizing start with
  | nil => exact ⟨le_rfl, by simp⟩
  | cons id ids ih =>
    rw [List.foldl_cons]
    obtain ⟨h1, h2⟩ := ih (if start ≤ id then id else start)
    have hstart : start ≤ if start ≤ id then id else start := by split_ifs <;> omega
    have hid : id ≤ if start ≤ id then id else start := by split_ifs <;> omega
    refine ⟨by omega, fun i hi => ?_⟩
    rcases List.mem_cons.mp hi with rfl | hi
    · omega
    · exact h2 i hi

theorem calculateCurId_nonneg (files : FileStore) : 0 ≤ EventStore.calculateCurId files := by
  have := (foldl_max_spec files.eventIds (-1)).1
  unfold EventStore.calculateCurId
  omega

theorem lt_calculateCurId {files : FileStore} {id : Int} {content : List Char}
    (h : Assoc.get? (.event id) files = some content) : id < EventStore.calculateCurId files := by
  have hmem : id ∈ files.eventIds :=
    List.mem_filterMap.mpr ⟨(.event id, content), Assoc.mem_of_get? h, rfl⟩
  have := (foldl_max_spec files.eventIds (-1)).2 id hmem
  unfold EventStore.calculateCurId
  omega

/-! ## What each step keeps -/

namespace Invariant

theorem empty : Invariant out {} where
  curId_nonneg := by decide
  files := by simp [Assoc.get?]
  calls := by simp
  distinct := by simp
  known _ := ⟨rfl, rfl, rfl⟩
  donePages := by simp
  writePage := ⟨by decide, by simp [AlignedPage, pageStart]⟩
  next := by simp [pageStart]
  pages := by simp [Assoc.get?]

theorem curId?_of_call (h : Invariant out s) {c : Call} (hc : c ∈ s.calls) :
    s.curId? = some s.curId := by
  cases hcur : s.curId? with
  | none =>
    rw [(h.known hcur).1] at hc
    cases hc
  | some id => rw [curId_of_some hcur]

/-- A call that raises takes an id and nothing else. -/
theorem raise (h : Invariant out s)
    (hok : ∀ start, pageStart s.writePage = some start → start % CACHE_SIZE ≠ 0) :
    Invariant out { s with curId? := some (s.curId + 1) } := by
  have hcur : ({ s with curId? := some (s.curId + 1) } : EventStream).curId = s.curId + 1 := rfl
  have h0 := h.curId_nonneg
  refine ⟨by omega, ?_, ?_, h.distinct, nofun, h.donePages, h.writePage, ?_, h.pages⟩
  · intro id content hid
    obtain ⟨h1, h2, h3⟩ := h.files id content hid
    exact ⟨h1, by omega, h3⟩
  · intro c hc
    obtain ⟨h1, h2, h3⟩ := h.calls c hc
    exact ⟨h1, by omega, h3⟩
  · intro start hstart halign
    exact absurd halign (hok start hstart)

theorem prepare_readsAs (h : Invariant out s) {e : NewEvent out} {source : EventSource}
    {timestamp : String} {data : Dict} {delivered : Event}
    (hprep : s.prepare out e.event source timestamp = .ok (data, delivered)) :
    ReadsAs out data s.curId ∧ delivered.id = s.curId := by
  obtain ⟨hget, hdelivered⟩ := prepare_id h.curId_nonneg hprep
  obtain ⟨raw, hraw, rfl, hread⟩ := prepare_ok hprep
  have hwf : (stamp e.event source timestamp s.curId).WellFormed out :=
    ⟨e.wellFormed.args, e.wellFormed.extras, e.wellFormed.response⟩
  exact ⟨⟨replaceSecrets_wellFormed _ (eventToDict_wellFormed hwf hraw), hget, delivered, hread,
    hdelivered⟩, hdelivered⟩

/-- The page with one more dictionary. -/
theorem alignedPage_append (h : Invariant out s) {data : Dict} (hread : ReadsAs out data s.curId)
    (hmono : ∀ id data, s.Holds id data → s'.Holds id data) (hnew : s'.Holds s.curId data) :
    AlignedPage out s' (s.writePage ++ [data]) ∧
    ∀ start, pageStart (s.writePage ++ [data]) = some start → start % CACHE_SIZE = 0 →
      s.curId + 1 = start + (s.writePage ++ [data]).length := by
  by_cases hempty : s.writePage = []
  · have hsingle := pageStart_single hread
    rw [hempty, List.nil_append]
    refine ⟨fun start hstart _ => ?_, fun start hstart _ => ?_⟩
    · rw [hsingle] at hstart
      cases hstart
      intro j d hj
      obtain ⟨rfl, rfl⟩ : j = 0 ∧ data = d := by
        cases j with
        | zero => exact ⟨rfl, Option.some.inj hj⟩
        | succ j => cases hj
      simpa using ⟨hread, hnew⟩
    · rw [hsingle] at hstart
      cases hstart
      rfl
  · rw [pageStart_append hempty]
    refine ⟨fun start hstart halign => ?_, fun start hstart halign => ?_⟩
    · have hnext := h.next start (by rwa [pageStart_append hempty] at hstart) halign
      intro j d hj
      rcases Parties.append_cases hj with hj | ⟨hlast, rfl⟩
      · rw [pageStart_append hempty] at hstart
        obtain ⟨h1, h2⟩ := h.writePage.2 start hstart halign j d hj
        exact ⟨h1, hmono _ _ h2⟩
      · have hindex : start + (j : Int) = s.curId := by omega
        rw [hindex]
        exact ⟨hread, hnew⟩
    · have hnext := h.next start hstart halign
      rw [List.length_append, hnext]
      push_cast
      rw [List.length_singleton]
      ring

theorem enter (h : Invariant out s) (e : NewEvent out) {source : EventSource}
    {timestamp : String} (hok : StepOk out s (.enter e source timestamp))
    (hid : e.event.id = INVALID_ID) : Invariant out (s.enter out e.event source timestamp) := by
  have h0 := h.curId_nonneg
  cases hprep : s.prepare out e.event source timestamp with
  | error err =>
    rw [enter_error hprep]
    exact h.raise (hok hid ⟨err, hprep⟩)
  | ok prepared =>
    obtain ⟨data, delivered⟩ := prepared
    obtain ⟨hread, hdelivered⟩ := h.prepare_readsAs hprep
    have hcalls := enter_ok hprep
    obtain ⟨hcur?, hfiles, -⟩ := enter_frame e.event source timestamp
    have hcur := curId_of_some hcur?
    have hmono : ∀ id d, s.Holds id d → (s.enter out e.event source timestamp).Holds id d := by
      refine holds_mono (fun id content hfile => by rw [hfiles]; exact hfile) ?_
      intro c hc hphase
      exact .inr ⟨c, by rw [hcalls]; exact List.mem_append_left _ hc, hphase, rfl, rfl⟩
    have hnew : (s.enter out e.event source timestamp).Holds s.curId data :=
      .inr ⟨_, by rw [hcalls]; exact List.mem_append_right _ (List.mem_singleton_self _), rfl,
        hdelivered, rfl⟩
    obtain ⟨hpage, hnext⟩ := h.alignedPage_append hread hmono hnew
    have hpages : ((s.enter out e.event source timestamp).donePages = s.donePages ∧
          (s.enter out e.event source timestamp).writePage = s.writePage ++ [data] ∧
          (s.writePage ++ [data]).length < CACHE_SIZE) ∨
        ((s.enter out e.event source timestamp).donePages =
          s.donePages ++ [s.writePage ++ [data]] ∧
          (s.enter out e.event source timestamp).writePage = [] ∧
          (s.writePage ++ [data]).length = CACHE_SIZE) := by
      have hlen := h.writePage.1
      unfold EventStream.enter
      rw [hprep]
      dsimp only
      split_ifs with hfull
      · exact .inr ⟨rfl, rfl, hfull⟩
      · refine .inl ⟨rfl, rfl, ?_⟩
        rw [List.length_append, List.length_singleton] at hfull ⊢
        omega
    refine ⟨by omega, ?_, ?_, ?_, by rw [hcur?]; nofun, ?_, ?_, ?_, ?_⟩
    · intro id content hfile
      rw [hfiles] at hfile
      obtain ⟨h1, h2, h3⟩ := h.files id content hfile
      exact ⟨h1, by omega, h3⟩
    · intro c hc
      rw [hcalls, List.mem_append, List.mem_singleton] at hc
      rw [hfiles]
      rcases hc with hc | rfl
      · obtain ⟨h1, h2, h3⟩ := h.calls c hc
        exact ⟨h1, by omega, h3⟩
      · dsimp only
        rw [hdelivered]
        refine ⟨h0, by omega, hread, fun _ => ?_⟩
        cases hfile : Assoc.get? (.event s.curId) s.files with
        | none => rfl
        | some content =>
          obtain ⟨-, hlt, -⟩ := h.files _ _ hfile
          omega
    · rw [hcalls, List.map_append, List.nodup_append]
      refine ⟨h.distinct, by simp, ?_⟩
      intro a ha b hb hab
      obtain ⟨c, hc, rfl⟩ := List.mem_map.mp ha
      have hb' : b = s.curId := by simpa [hdelivered] using hb
      obtain ⟨-, hlt, -⟩ := h.calls c hc
      omega
    · intro page hmem
      rcases hpages with ⟨hdone, -, -⟩ | ⟨hdone, -, hfull⟩
      · rw [hdone] at hmem
        exact (h.donePages page hmem).imp id (AlignedPage.mono hmono)
      · rw [hdone, List.mem_append, List.mem_singleton] at hmem
        rcases hmem with hmem | rfl
        · exact (h.donePages page hmem).imp id (AlignedPage.mono hmono)
        · exact ⟨hfull, hpage⟩
    · rcases hpages with ⟨-, hwrite, hlen⟩ | ⟨-, hwrite, -⟩
      · rw [hwrite]
        exact ⟨hlen, hpage⟩
      · rw [hwrite]
        exact ⟨by decide, by simp [AlignedPage, pageStart]⟩
    · intro start hstart halign
      rcases hpages with ⟨-, hwrite, -⟩ | ⟨-, hwrite, -⟩
      · rw [hwrite] at hstart ⊢
        rw [hcur]
        exact hnext start hstart halign
      · rw [hwrite] at hstart
        cases hstart
    · intro start content hfile halign
      rw [hfiles] at hfile
      obtain ⟨page, h1, h2, h3⟩ := h.pages start content hfile halign
      exact ⟨page, h1, h2, h3.mono hmono⟩

/-- A call in between is the only one with its id. -/
theorem call_unique (h : Invariant out s) {j k : Nat} {c d : Call} (hc : s.calls[j]? = some c)
    (hd : s.calls[k]? = some d) (hid : c.event.id = d.event.id) : j = k := by
  have hj : (s.calls.map fun c => c.event.id)[j]? = some c.event.id := by
    rw [List.getElem?_map, hc]
    rfl
  have hk : (s.calls.map fun c => c.event.id)[k]? = some c.event.id := by
    rw [List.getElem?_map, hd, hid]
    rfl
  have hlt : j < (s.calls.map fun c => c.event.id).length := List.getElem?_eq_some_iff.mp hj |>.1
  exact (List.getElem?_inj hlt h.distinct).mp (hj.trans hk.symm)

/-- The calls when the phase of one of them changes. -/
theorem mem_set_phase {calls : List Call} {k : Nat} {c : Call} (phase : Phase) {d : Call} (hd : d ∈ calls.set k { c with phase }) :
    d = { c with phase } ∨ ∃ j, j ≠ k ∧ calls[j]? = some d := by
  obtain ⟨j, hj⟩ := List.mem_iff_getElem?.mp hd
  rcases Parties.set_cases hj with ⟨-, h⟩ | h
  · exact .inl h
  · exact .inr ⟨j, h⟩

theorem map_id_set_phase {calls : List Call} {k : Nat} {c : Call} (hk : calls[k]? = some c)
    (phase : Phase) : ((calls.set k { c with phase }).map fun c => c.event.id) =
      calls.map fun c => c.event.id := by
  rw [List.map_set]
  apply List.ext_getElem?
  intro j
  rw [List.getElem?_set, List.getElem?_map]
  split_ifs with hjk hlt
  · rw [← hjk, hk]
    rfl
  · subst hjk
    rw [List.length_map] at hlt
    exact absurd (List.getElem?_eq_some_iff.mp hk).1 hlt
  · rfl

theorem write (h : Invariant out s) (k : Nat) : Invariant out (s.write k) := by
  unfold EventStream.write
  split
  next c hk =>
    split_ifs with hphase
    · have hc : c ∈ s.calls := List.mem_of_getElem? hk
      obtain ⟨hc0, hclt, hcread, hcfile⟩ := h.calls c hc
      set s' : EventStream :=
        { s with files := s.files.write (.event c.event.id) (Json.dumps (.obj c.data))
                 calls := s.calls.set k { c with phase := .written } } with hs'
      have hcur : s'.curId = s.curId := curId_of_some (h.curId?_of_call hc)
      have hself : Assoc.get? (.event c.event.id) s'.files = some (Json.dumps (.obj c.data)) :=
        Assoc.get?_set_self ..
      have hother (id : Int) (hne : id ≠ c.event.id) :
          Assoc.get? (.event id) s'.files = Assoc.get? (.event id) s.files :=
        Assoc.get?_set_of_ne (by simpa using hne) _ _
      have hpage (start stop : Int) :
          Assoc.get? (.cachePage start stop) s'.files = Assoc.get? (.cachePage start stop) s.files :=
        Assoc.get?_set_of_ne (by simp) _ _
      have hmono : ∀ id d, s.Holds id d → s'.Holds id d := by
        refine holds_mono (fun id content hfile => ?_) fun d hd hd' => ?_
        · have hne : id ≠ c.event.id := by
            rintro rfl
            rw [hcfile hphase] at hfile
            cases hfile
          rw [hother id hne]
          exact hfile
        · obtain ⟨j, hj⟩ := List.mem_iff_getElem?.mp hd
          by_cases hjk : j = k
          · rw [hjk, hk] at hj
            cases hj
            exact .inl hself
          · refine .inr ⟨d, List.mem_of_getElem? (i := j) ?_, hd', rfl, rfl⟩
            show (s.calls.set k _)[j]? = some d
            rw [List.getElem?_set_ne (Ne.symm hjk)]
            exact hj
      refine ⟨by rw [hcur]; exact h.curId_nonneg, ?_, ?_, ?_, ?_, ?_, ?_, ?_, ?_⟩
      · intro id content hfile
        rw [hcur]
        by_cases hid : id = c.event.id
        · rw [hid, hself] at hfile
          cases hfile
          rw [hid]
          exact ⟨hc0, hclt, _, rfl, hcread⟩
        · rw [hother id hid] at hfile
          exact h.files id content hfile
      · intro d hd
        rw [hcur]
        rcases mem_set_phase .written hd with rfl | ⟨j, hjk, hj⟩
        · exact ⟨hc0, hclt, hcread, nofun⟩
        · have hne : d.event.id ≠ c.event.id := fun heq => hjk (h.call_unique hj hk heq)
          rw [hother _ hne]
          exact h.calls d (List.mem_of_getElem? hj)
      · show ((s.calls.set k _).map _).Nodup
        rw [map_id_set_phase hk]
        exact h.distinct
      · intro hnone
        rw [(h.known hnone).1] at hc
        cases hc
      · intro page hmem
        exact (h.donePages page hmem).imp id (AlignedPage.mono hmono)
      · exact h.writePage.imp id (AlignedPage.mono hmono)
      · rw [hcur]
        exact h.next
      · intro start content hfile halign
        rw [hpage] at hfile
        obtain ⟨page, h1, h2, h3⟩ := h.pages start content hfile halign
        exact ⟨page, h1, h2, h3.mono hmono⟩
    · exact h
  · exact h

/-- A full page is one that no longer grows. -/
theorem pageOf_full (h : Invariant out s) {c : Call} (hfull : CACHE_SIZE ≤ (s.pageOf c).length) :
    s.pageOf c ∈ s.donePages := by
  unfold pageOf at hfull ⊢
  cases hpage : (s.donePages ++ [s.writePage])[c.page]? with
  | none =>
    rw [hpage] at hfull
    exact absurd hfull (by decide)
  | some page =>
    rw [hpage] at hfull
    have hmem := List.mem_of_getElem? hpage
    rw [List.mem_append, List.mem_singleton] at hmem
    rcases hmem with hmem | rfl
    · exact hmem
    · have := h.writePage.1
      rw [Option.getD_some] at hfull
      omega

/-- What a page file holds after a page has been stored. -/
theorem storeCachePage_page (h : Invariant out s) (c : Call) {start : Int} {content : List Char}
    (hfile : Assoc.get? (.cachePage start (start + CACHE_SIZE))
      (storeCachePage s.files (s.pageOf c)) = some content) (halign : start % CACHE_SIZE = 0) :
    ∃ page : List Dict, content = Json.dumps (.arr (page.map .obj)) ∧
      page.length = CACHE_SIZE ∧ PageHolds out s page start := by
  unfold storeCachePage at hfile
  split_ifs at hfile with hshort
  · exact h.pages start content hfile halign
  · have hmem := h.pageOf_full (Nat.le_of_not_lt hshort)
    split at hfile
    next first hfirst =>
      by_cases hstart : start = first
      · subst hstart
        rw [FileStore.write, Assoc.get?_set_self] at hfile
        cases hfile
        obtain ⟨hlen, haligned⟩ := h.donePages _ hmem
        exact ⟨_, rfl, hlen, haligned start hfirst halign⟩
      · rw [FileStore.write, Assoc.get?_set_of_ne (by simp [hstart])] at hfile
        exact h.pages start content hfile halign
    · exact h.pages start content hfile halign

theorem storePage (h : Invariant out s) (k : Nat) : Invariant out (s.storePage k) := by
  unfold EventStream.storePage
  split
  next c hk =>
    split_ifs with hphase
    · have hc : c ∈ s.calls := List.mem_of_getElem? hk
      set s' : EventStream :=
        { s with files := storeCachePage s.files (s.pageOf c)
                 calls := s.calls.set k { c with phase := .paged } } with hs'
      have hcur : s'.curId = s.curId := curId_of_some (h.curId?_of_call hc)
      have hfile (id : Int) : Assoc.get? (.event id) s'.files = Assoc.get? (.event id) s.files :=
        storeCachePage_event ..
      have hmono : ∀ id d, s.Holds id d → s'.Holds id d := by
        refine holds_mono (fun id content hold => by rw [hfile]; exact hold) fun d hd hd' => ?_
        obtain ⟨j, hj⟩ := List.mem_iff_getElem?.mp hd
        have hjk : j ≠ k := by
          rintro rfl
          rw [hk] at hj
          cases hj
          rw [hphase] at hd'
          cases hd'
        refine .inr ⟨d, List.mem_of_getElem? (i := j) ?_, hd', rfl, rfl⟩
        show (s.calls.set k _)[j]? = some d
        rw [List.getElem?_set_ne (Ne.symm hjk)]
        exact hj
      refine ⟨by rw [hcur]; exact h.curId_nonneg, ?_, ?_, ?_, ?_, ?_, ?_, ?_, ?_⟩
      · intro id content hold
        rw [hfile] at hold
        rw [hcur]
        exact h.files id content hold
      · intro d hd
        rw [hcur, hfile]
        rcases mem_set_phase .paged hd with rfl | ⟨j, -, hj⟩
        · obtain ⟨h1, h2, h3, -⟩ := h.calls c hc
          exact ⟨h1, h2, h3, nofun⟩
        · exact h.calls d (List.mem_of_getElem? hj)
      · show ((s.calls.set k _).map _).Nodup
        rw [map_id_set_phase hk]
        exact h.distinct
      · intro hnone
        rw [(h.known hnone).1] at hc
        cases hc
      · intro page hmem
        exact (h.donePages page hmem).imp id (AlignedPage.mono hmono)
      · exact h.writePage.imp id (AlignedPage.mono hmono)
      · rw [hcur]
        exact h.next
      · intro start content hold halign
        obtain ⟨page, h1, h2, h3⟩ := h.storeCachePage_page c hold halign
        exact ⟨page, h1, h2, h3.mono hmono⟩
    · exact h
  · exact h

theorem deliver (h : Invariant out s) (k : Nat) : Invariant out (s.deliver k) := by
  unfold EventStream.deliver
  split
  next c hk =>
    split_ifs with hphase
    · set s' : EventStream :=
        { s with queue := s.queue ++ [c.event], calls := s.calls.eraseIdx k } with hs'
      have hcur : s'.curId = s.curId := rfl
      have hmono : ∀ id d, s.Holds id d → s'.Holds id d := by
        refine holds_mono (fun id content hfile => hfile) fun d hd hd' => ?_
        obtain ⟨j, hj⟩ := List.mem_iff_getElem?.mp hd
        have hjk : j ≠ k := by
          rintro rfl
          rw [hk] at hj
          cases hj
          rw [hphase] at hd'
          cases hd'
        exact .inr ⟨d, List.mem_eraseIdx_iff_getElem?.mpr ⟨j, hjk, hj⟩, hd', rfl, rfl⟩
      refine ⟨h.curId_nonneg, h.files, ?_, ?_, ?_, ?_, ?_, h.next, ?_⟩
      · intro d hd
        exact h.calls d (List.mem_of_mem_eraseIdx hd)
      · exact h.distinct.sublist ((List.eraseIdx_sublist ..).map _)
      · intro hnone
        obtain ⟨h1, h2⟩ := h.known hnone
        refine ⟨?_, h2⟩
        show s.calls.eraseIdx k = []
        rw [h1]
        rfl
      · intro page hmem
        exact (h.donePages page hmem).imp id (AlignedPage.mono hmono)
      · exact h.writePage.imp id (AlignedPage.mono hmono)
      · intro start content hfile halign
        obtain ⟨page, h1, h2, h3⟩ := h.pages start content hfile halign
        exact ⟨page, h1, h2, h3.mono hmono⟩
    · exact h
  · exact h

theorem pageIndex_add {start : Int} (halign : start % CACHE_SIZE = 0) {j : Nat}
    (hj : j < CACHE_SIZE) : pageIndex (start + j) = start := by
  unfold pageIndex CACHE_SIZE at *
  omega

/-- Pages that are not torn are in the files of their events. -/
theorem pageHolds_files (h : NotTorn s) {page : List Dict} {start : Int} {content : List Char}
    (hfile : Assoc.get? (.cachePage start (start + CACHE_SIZE)) s.files = some content)
    (halign : start % CACHE_SIZE = 0) (hlen : page.length = CACHE_SIZE)
    (hpage : PageHolds out s page start) {j : Nat} {data : Dict} (hj : page[j]? = some data) :
    ReadsAs out data (start + j) ∧
      Assoc.get? (.event (start + j)) s.files = some (Json.dumps (.obj data)) := by
  obtain ⟨hread, hhold⟩ := hpage j data hj
  refine ⟨hread, ?_⟩
  rcases hhold with hhold | ⟨c, hc, hphase, hid, -⟩
  · exact hhold
  · have hlt : j < CACHE_SIZE := hlen ▸ (List.getElem?_eq_some_iff.mp hj).1
    have hnone := h c hc hphase
    rw [hid, pageIndex_add halign hlt, hfile] at hnone
    cases hnone

theorem restart (h : Invariant out s) (hok : NotTorn s) : Invariant out s.restart where
  curId_nonneg := calculateCurId_nonneg s.files
  files := by
    intro id content hfile
    obtain ⟨h1, -, h3⟩ := h.files id content hfile
    exact ⟨h1, lt_calculateCurId hfile, h3⟩
  calls := by simp [EventStream.restart]
  distinct := by simp [EventStream.restart]
  known _ := ⟨rfl, rfl, rfl⟩
  donePages := by simp [EventStream.restart]
  writePage := ⟨Nat.zero_lt_succ _, by simp [AlignedPage, pageStart, EventStream.restart]⟩
  next := by simp [pageStart, EventStream.restart]
  pages := by
    intro start content hfile halign
    obtain ⟨page, h1, h2, h3⟩ := h.pages start content hfile halign
    refine ⟨page, h1, h2, fun j data hj => ?_⟩
    exact (pageHolds_files hok hfile halign h2 h3 hj).imp id .inl

theorem step (h : Invariant out s) {next : Step out} (hok : StepOk out s next) :
    Invariant out (s.step out next) := by
  cases next with
  | enter e source timestamp =>
    unfold EventStream.step
    dsimp only
    split_ifs with hid
    · exact h
    · exact h.enter e hok (by simpa using hid)
  | write k => exact h.write k
  | storePage k => exact h.storePage k
  | deliver k => exact h.deliver k
  | setSecrets secrets | updateSecrets secrets =>
    exact ⟨h.curId_nonneg, h.files, h.calls, h.distinct, h.known, h.donePages, h.writePage, h.next,
      h.pages⟩
  | restart => exact h.restart hok

theorem steps (h : Invariant out s) {next : List (Step out)} (hok : StepsOk out s next) :
    Invariant out (next.foldl (EventStream.step out) s) := by
  induction next generalizing s with
  | nil => exact h
  | cons first next ih => exact ih (h.step hok.1) hok.2

theorem run {next : List (Step out)} (hok : RunOk out next) :
    Invariant out (EventStream.run out next) := empty.steps hok

end Invariant

end EventStream

end OpenHands
