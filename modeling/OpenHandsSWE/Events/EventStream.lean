import OpenHandsSWE.Events.Serialization.Event
import OpenHandsSWE.Events.Secrets
import OpenHandsSWE.Lib.JsonText

/-! The event stream: events are added in steps that interleave, and searched for in the files. -/

namespace OpenHands

/-- The files of a conversation: one for each event, and the pages of the cache. -/
inductive FileName where
  | event (id : Int)
  | cachePage (start stop : Int)
deriving DecidableEq, Repr

abbrev FileStore := List (FileName × List Char)

def CACHE_SIZE : Nat := 25

namespace FileStore

def read (files : FileStore) (name : FileName) : Except PyError (List Char) :=
  match Assoc.get? name files with
  | some content => .ok content
  | none => .error .fileNotFoundError

def write (files : FileStore) (name : FileName) (content : List Char) : FileStore :=
  Assoc.set name content files

/-- The ids of the files in the events' directory. -/
def eventIds (files : FileStore) : List Int :=
  files.filterMap fun file =>
    match file.1 with
    | .event id => some id
    | .cachePage .. => none

end FileStore

/-! ## The event store -/

namespace EventStore

variable (out : Outside) (files : FileStore)

/-- The highest id of a file, plus one. -/
def calculateCurId : Int :=
  files.eventIds.foldl (fun maxId id => if maxId ≤ id then id else maxId) (-1) + 1

def readDict (v : Json) : Except PyError Event :=
  match v with
  | .obj data => eventFromDict out data
  | v => .error (.valueError ("Unknown event type: " ++ out.repr v))

def parse (content : List Char) : Except PyError Json :=
  match Json.loads content with
  | some v => .ok v
  | none => .error (.valueError "JSONDecodeError")

def getEvent (id : Int) : Except PyError Event :=
  (files.read (.event id)).bind fun content => (parse content).bind (readDict out)

structure CachePage where
  events : Option (List Json)
  start : Int
  stop : Int

namespace CachePage

def covers (page : CachePage) (index : Int) : Bool := page.start ≤ index && index < page.stop

def getEvent (page : CachePage) (index : Int) : Except PyError (Option Event) :=
  match page.events with
  | none | some [] => .ok none
  | some events =>
    match events[(index - page.start).toNat]? with
    | some v => (readDict out v).map some
    | none => .error .indexError

end CachePage

def DUMMY_PAGE : CachePage := ⟨none, 1, -1⟩

def loadCachePage (start stop : Int) : Except PyError CachePage :=
  match Assoc.get? (.cachePage start stop) files with
  | none => .ok ⟨none, start, stop⟩
  | some content =>
    (parse content).bind fun v =>
      match v with
      | .arr events => .ok ⟨some events, start, stop⟩
      | _ => .error (.typeError "a page is a list of events")

def loadCachePageForIndex (index : Int) : Except PyError CachePage :=
  loadCachePage files (index - index % CACHE_SIZE) (index - index % CACHE_SIZE + CACHE_SIZE)

/-- The event of an index: from the page when there is one, from its own file otherwise. -/
def lookup (page : CachePage) (index : Int) : Except PyError (Option Event) :=
  (page.getEvent out index).bind fun event =>
    match event with
    | some e => .ok (some e)
    | none =>
      match getEvent out files index with
      | .ok e => .ok (some e)
      | .error .fileNotFoundError => .ok none
      | .error err => .error err

def passes (filter : Option (Event → Bool)) (e : Event) : Bool := filter.all fun f => f e

/-- `limit and limit <= num_results`. -/
def limitReached (limit : Option Int) (numResults : Nat) : Bool :=
  limit.any fun (l : Int) => l != 0 && decide (l ≤ numResults)

/-- The loop over the indices, with the page at hand and the number of results so far. -/
def scan (filter : Option (Event → Bool)) (limit : Option Int) :
    List Int → CachePage → Nat → Except PyError (List Event)
  | [], _, _ => .ok []
  | index :: indices, page, numResults =>
    (if page.covers index then .ok page else loadCachePageForIndex files index).bind fun page =>
      (lookup out files page index).bind fun event =>
        match event with
        | none => scan filter limit indices page numResults
        | some e =>
          if passes filter e then
            if limitReached limit (numResults + 1) then .ok [e]
            else (scan filter limit indices page (numResults + 1)).map (e :: ·)
          else scan filter limit indices page numResults

/-- The indices from `startId` up to `stop`, which is left out, or down from it. -/
def indices (startId stop : Int) (reverse : Bool) : List Int :=
  (List.range (stop - startId).toNat).map fun (i : Nat) =>
    if reverse then stop - 1 - i else startId + i

def searchEvents (curId startId : Int) (endId : Option Int) (reverse : Bool)
    (filter : Option (Event → Bool)) (limit : Option Int) : Except PyError (List Event) :=
  let stop := (endId.map (· + 1)).getD curId
  scan out files filter limit (indices startId stop reverse) DUMMY_PAGE 0

end EventStore

/-! ## The event stream -/

/-- How far a call of `add_event` is after its locked section. -/
inductive Phase where
  | entered
  | written
  | paged
deriving DecidableEq, Repr

/-- A call that has left the locked section, with the write page it has in hand. -/
structure Call where
  event : Event
  data : Dict
  page : Nat
  phase : Phase := .entered

/-- An event to be added: the dictionaries in it have each key once. -/
structure NewEvent (out : Outside) where
  event : Event
  wellFormed : event.WellFormed out

/-- A stream over its files. A write page outlives its time as the current one for as long as a
call has it in hand. -/
structure EventStream where
  files : FileStore := []
  curId? : Option Int := none
  secrets : List (String × String) := []
  donePages : List (List Dict) := []
  writePage : List Dict := []
  calls : List Call := []
  queue : List Event := []

namespace EventStream

def curId (s : EventStream) : Int := s.curId?.getD (EventStore.calculateCurId s.files)

/-- The event with what `add_event` sets on it. -/
def stamp (e : Event) (source : EventSource) (timestamp : String) (id : Int) : Event :=
  { e with timestamp := some timestamp, source := some source, id := id }

variable (out : Outside)

/-- What the locked section computes: the data to be stored and the event to be delivered. -/
def prepare (s : EventStream) (e : Event) (source : EventSource) (timestamp : String) :
    Except PyError (Dict × Event) :=
  (eventToDict out (stamp e source timestamp s.curId)).bind fun data =>
    let data := replaceSecrets (s.secrets.map Prod.snd) data
    (eventFromDict out data).map fun delivered => (data, delivered)

/-- The locked section; the id is taken before anything can raise. -/
def enter (s : EventStream) (e : Event) (source : EventSource) (timestamp : String) :
    EventStream :=
  let taken := { s with curId? := some (s.curId + 1) }
  match s.prepare out e source timestamp with
  | .error _ => taken
  | .ok (data, delivered) =>
    let page := s.writePage ++ [data]
    let calls := s.calls ++ [{ event := delivered, data, page := s.donePages.length }]
    if page.length = CACHE_SIZE then
      { taken with donePages := s.donePages ++ [page], writePage := [], calls }
    else { taken with writePage := page, calls }

/-- The page a call has in hand, with what has been added to it since. -/
def pageOf (s : EventStream) (c : Call) : List Dict :=
  ((s.donePages ++ [s.writePage])[c.page]?).getD []

/-- `current_write_page[0]['id']`. -/
def pageStart (page : List Dict) : Option Int :=
  page.head?.bind fun data => (Assoc.get? "id" data).bind Json.int?

def storeCachePage (files : FileStore) (page : List Dict) : FileStore :=
  if page.length < CACHE_SIZE then files
  else
    match pageStart page with
    | some start =>
      files.write (.cachePage start (start + CACHE_SIZE)) (Json.dumps (.arr (page.map .obj)))
    | none => files

def write (s : EventStream) (k : Nat) : EventStream :=
  match s.calls[k]? with
  | some c =>
    if c.phase = .entered then
      { s with files := s.files.write (.event c.event.id) (Json.dumps (.obj c.data))
               calls := s.calls.set k { c with phase := .written } }
    else s
  | none => s

def storePage (s : EventStream) (k : Nat) : EventStream :=
  match s.calls[k]? with
  | some c =>
    if c.phase = .written then
      { s with files := storeCachePage s.files (s.pageOf c)
               calls := s.calls.set k { c with phase := .paged } }
    else s
  | none => s

/-- The call puts its event on the queue and returns. -/
def deliver (s : EventStream) (k : Nat) : EventStream :=
  match s.calls[k]? with
  | some c =>
    if c.phase = .paged then { s with queue := s.queue ++ [c.event], calls := s.calls.eraseIdx k }
    else s
  | none => s

def setSecrets (s : EventStream) (secrets : List (String × String)) : EventStream :=
  { s with secrets }

def updateSecrets (s : EventStream) (secrets : List (String × String)) : EventStream :=
  { s with secrets := secrets.foldl (fun acc kv => Assoc.set kv.1 kv.2 acc) s.secrets }

/-- A new stream over the same files; what other calls have not written is lost. -/
def restart (s : EventStream) : EventStream := { files := s.files }

def alreadyAdded (e : Event) : PyError :=
  .valueError ("Event already has an ID:" ++ toString e.id ++ ". It was probably added back to the " ++
    "EventStream from inside a handler, triggering a loop.")

/-- A call with nothing in between. -/
def addEvent (s : EventStream) (e : Event) (source : EventSource) (timestamp : String) :
    Except PyError EventStream :=
  if e.id ≠ INVALID_ID then .error (alreadyAdded e)
  else
    (s.prepare out e source timestamp).map fun _ =>
      let k := s.calls.length
      (((s.enter out e source timestamp).write k).storePage k).deliver k

/-! ## What a call stores -/

section Storing

variable {out} {s : EventStream} {e delivered : Event} {source : EventSource} {timestamp : String}
  {data : Dict}

theorem prepare_ok (h : s.prepare out e source timestamp = .ok (data, delivered)) :
    ∃ raw, eventToDict out (stamp e source timestamp s.curId) = .ok raw ∧
      data = replaceSecrets (s.secrets.map Prod.snd) raw ∧
      eventFromDict out data = .ok delivered := by
  obtain ⟨raw, hraw, h⟩ := Py.bind_ok h
  obtain ⟨delivered', hdelivered, h⟩ := Py.map_ok h
  cases h
  exact ⟨raw, hraw, rfl, hdelivered⟩

/-- The id that was taken is the id of what is stored and of what is delivered. -/
theorem prepare_id (h0 : 0 ≤ s.curId) (h : s.prepare out e source timestamp = .ok (data, delivered)) :
    Assoc.get? "id" data = some (.int s.curId) ∧ delivered.id = s.curId := by
  obtain ⟨raw, hraw, rfl, hread⟩ := prepare_ok h
  have hid : (stamp e source timestamp s.curId).id ≠ INVALID_ID := by
    show s.curId ≠ -1
    omega
  have hget : Assoc.get? "id" (replaceSecrets (s.secrets.map Prod.snd) raw) =
      some (.int s.curId) := by
    rw [get?_replaceSecrets _ (by decide)]
    exact eventToDict_id hraw hid
  have hreadId := eventFromDict_id hread
  rw [readId, Fields.optional, hget] at hreadId
  exact ⟨hget, (Except.ok.inj hreadId).symm⟩

theorem enter_ok (h : s.prepare out e source timestamp = .ok (data, delivered)) :
    (s.enter out e source timestamp).calls =
      s.calls ++ [{ event := delivered, data, page := s.donePages.length }] := by
  unfold enter
  rw [h]
  dsimp only
  split_ifs <;> rfl

theorem enter_error {err : PyError} (h : s.prepare out e source timestamp = .error err) :
    s.enter out e source timestamp = { s with curId? := some (s.curId + 1) } := by
  unfold enter
  rw [h]

theorem curId_of_some {id : Int} (h : s.curId? = some id) : s.curId = id := by
  rw [curId, h]
  rfl

/-- Whether or not it raises, the locked section takes one id and leaves files and queue. -/
theorem enter_frame (e : Event) (source : EventSource) (timestamp : String) :
    (s.enter out e source timestamp).curId? = some (s.curId + 1) ∧
    (s.enter out e source timestamp).files = s.files ∧
    (s.enter out e source timestamp).queue = s.queue := by
  cases hprep : s.prepare out e source timestamp with
  | error err =>
    rw [enter_error hprep]
    exact ⟨rfl, rfl, rfl⟩
  | ok prepared =>
    unfold enter
    rw [hprep]
    dsimp only
    split_ifs <;> exact ⟨rfl, rfl, rfl⟩

/-- Storing a page writes no event's file. -/
theorem storeCachePage_event (files : FileStore) (page : List Dict) (id : Int) :
    Assoc.get? (.event id) (storeCachePage files page) = Assoc.get? (.event id) files := by
  unfold storeCachePage
  split_ifs
  · rfl
  · split
    · exact Assoc.get?_set_of_ne (by simp) _ _
    · rfl

variable {s' : EventStream}

/-- A call that returns has stored its data and delivered the event read back from it. -/
theorem addEvent_ok (h : s.addEvent out e source timestamp = .ok s') :
    ∃ data delivered, s.prepare out e source timestamp = .ok (data, delivered) ∧
      Assoc.get? (.event delivered.id) s'.files = some (Json.dumps (.obj data)) ∧
      s'.queue = s.queue ++ [delivered] := by
  unfold addEvent at h
  split_ifs at h
  obtain ⟨⟨data, delivered⟩, hprep, rfl⟩ := Py.map_ok h
  refine ⟨data, delivered, hprep, ?_⟩
  have hcalls := enter_ok hprep
  have hqueue : (s.enter out e source timestamp).queue = s.queue :=
    (enter_frame e source timestamp).2.2
  simp only [write, hcalls, List.getElem?_concat_length, if_true, storePage,
    List.getElem?_set_self', deliver]
  simp [storeCachePage_event, FileStore.write, Assoc.get?_set_self, hqueue]

end Storing

/-- After a call no text of the stored data but the system's own contains a secret, exactly when
none lay in a list or a key of the event's dictionary. -/
theorem addEvent_freeOf_iff {s s' : EventStream} {e : Event} {source : EventSource}
    {timestamp : String} (hsecrets : Distinguishable (s.secrets.map Prod.snd))
    (h : s.addEvent out e source timestamp = .ok s') :
    ∃ raw data delivered, eventToDict out (stamp e source timestamp s.curId) = .ok raw ∧
      Assoc.get? (.event delivered.id) s'.files = some (Json.dumps (.obj data)) ∧
      eventFromDict out data = .ok delivered ∧ s'.queue = s.queue ++ [delivered] ∧
      (FreeOf (s.secrets.map Prod.snd) (Json.textsMembers (unprotected data)) ↔
        FreeOf (s.secrets.map Prod.snd) (Json.unmaskedMembers (unprotected raw))) := by
  obtain ⟨data, delivered, hprep, hstored, hqueue⟩ := addEvent_ok h
  obtain ⟨raw, hraw, rfl, hread⟩ := prepare_ok hprep
  exact ⟨raw, _, delivered, hraw, hstored, hread, hqueue, freeOf_replaceSecrets hsecrets raw⟩

/-! A secret in a task of a task list is stored as it is. -/

/-- An outside that dumps responses to nothing and reads none. -/
def plainOutside : Outside where
  repr _ := ""
  literalEval _ := none
  dumpResponse _ := .null
  readResponse _ := .error (.valueError "no response")
  now := .zero
  version := "0"

def tokenStream : EventStream := { secrets := [("TOKEN", "ghp_1")] }

def taskEvent : Event :=
  { body := .action (.taskTracking { command := "plan", taskList := [.obj [("title", .str "use ghp_1")]] }) }

def commandEvent : Event := { body := .action (.cmdRun { command := "echo ghp_1" }) }

theorem token_distinguishable : Distinguishable (tokenStream.secrets.map Prod.snd) := by
  intro secret hs
  obtain rfl : secret = "ghp_1" := List.mem_singleton.mp hs
  exact ⟨by decide, .of_borders (by decide) (by decide) (by decide) (by decide)⟩

theorem addEvent_freeOf_iff_command :
    Distinguishable (tokenStream.secrets.map Prod.snd) ∧
    ∃ s', tokenStream.addEvent plainOutside commandEvent .agent "2025" = .ok s' ∧
      ∃ raw data delivered,
        eventToDict plainOutside (stamp commandEvent .agent "2025" tokenStream.curId) = .ok raw ∧
        Assoc.get? (.event delivered.id) s'.files = some (Json.dumps (.obj data)) ∧
        eventFromDict plainOutside data = .ok delivered ∧
        s'.queue = tokenStream.queue ++ [delivered] ∧
        (FreeOf (tokenStream.secrets.map Prod.snd) (Json.textsMembers (unprotected data)) ↔
          FreeOf (tokenStream.secrets.map Prod.snd) (Json.unmaskedMembers (unprotected raw))) := by
  obtain ⟨s', h⟩ : ∃ s', tokenStream.addEvent plainOutside commandEvent .agent "2025" = .ok s' :=
    ⟨_, rfl⟩
  exact ⟨token_distinguishable, s', h, addEvent_freeOf_iff _ token_distinguishable h⟩

theorem addEvent_taskList :
    Distinguishable (tokenStream.secrets.map Prod.snd) ∧
    ∃ data s', tokenStream.addEvent plainOutside taskEvent .agent "2025" = .ok s' ∧
      Assoc.get? (.event 0) s'.files = some (Json.dumps (.obj data)) ∧
      ¬ FreeOf (tokenStream.secrets.map Prod.snd) (Json.textsMembers (unprotected data)) := by
  refine ⟨token_distinguishable, _, _, rfl, rfl, ?_⟩
  intro h
  exact h "use ghp_1" (by decide) "ghp_1" (by decide) (by decide)

end EventStream

end OpenHands
