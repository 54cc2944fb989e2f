import OpenHandsSWE.Events.Serialization.RoundTrip
import OpenHandsSWE.Events.StoredEvents
import OpenHandsSWE.Lib.Paging

/-! The event store of a conversation on another server: a client that pages through that server's
route, and when it agrees with the store behind the route. -/

namespace OpenHands

open EventStore

/-! ## The route -/

/-- The files of a conversation's events, each readable and fit to be sent. -/
structure StoredLog (out : Outside) where
  files : FileStore
  filesSound : FilesSound out files
  pagesSound : PagesSound out files
  nonneg : ∀ id e, stored out files id = some e → 0 ≤ id
  response : ∀ id e, stored out files id = some e → ∀ m, e.toolCallMetadata = some m →
    out.readResponse (out.dumpResponse m.modelResponse) = .ok m.modelResponse
  reason : ∀ id e, stored out files id = some e → e.ReasonIsText

/-- The files a sound run of the event stream leaves, when no stored page waits for an event. -/
def StoredLog.ofRun {out : Outside} {steps : List (EventStream.Step out)}
    (hok : EventStream.RunOk out steps) (hwhole : (EventStream.run out steps).NotTorn)
    (response : ∀ id e, stored out (EventStream.run out steps).files id = some e →
      ∀ m, e.toolCallMetadata = some m →
        out.readResponse (out.dumpResponse m.modelResponse) = .ok m.modelResponse)
    (reason : ∀ id e, stored out (EventStream.run out steps).files id = some e → e.ReasonIsText) :
    StoredLog out where
  files := (EventStream.run out steps).files
  filesSound := (EventStream.Invariant.run hok).filesSound
  pagesSound := (EventStream.Invariant.run hok).pagesSound hwhole
  nonneg id e he := ((EventStream.Invariant.run hok).stored_bound id e he).1
  response := response
  reason := reason

inductive Answer where
  | badRequest (detail : String)
  | page (events : List Dict) (hasMore : Bool)

namespace StoredLog

variable {out : Outside} (log : StoredLog out)

def curId : Int := calculateCurId log.files

/-- `EventStore.search_events` over the files. -/
def searchEvents (startId : Int) (endId : Option Int) (reverse : Bool)
    (filter : Option (Event → Bool)) (limit : Option Int) : Except PyError (List Event) :=
  EventStore.searchEvents out log.files log.curId startId endId reverse filter limit

def getEvent (id : Int) : Except PyError Event := EventStore.getEvent out log.files id

/-- The route `/events`, asked without a filter. -/
def route (startId : Int) (endId : Option Int) (reverse : Bool) (limit : Int) :
    Except PyError Answer :=
  if limit < 0 ∨ 100 < limit then .ok (.badRequest "Invalid limit")
  else
    (log.searchEvents startId endId reverse none (some (limit + 1))).bind fun events =>
      let hasMore := decide (limit < events.length)
      let events := if hasMore then Py.takeTo events limit else events
      (events.mapM (eventToDict out)).map fun eventsJson => .page eventsJson hasMore

end StoredLog

/-! ## The client -/

namespace NestedEventStore

structure Cursor where
  startCursor : Int
  endCursor : Option Int := none

/-- What the loop over one page has noted. -/
structure PageState where
  pageMinId : Option Int := none
  forwardNextStart : Int
  limit : Option Int

variable {out : Outside} (log : StoredLog out) (endId : Option Int) (reverse : Bool)
  (filter : Option (Event → Bool))

def note (s : PageState) (e : Event) : PageState :=
  if reverse then { s with pageMinId := some ((s.pageMinId.map fun m => min m e.id).getD e.id) }
  else { s with forwardNextStart := max s.forwardNextStart (e.id + 1) }

variable (out) in
/-- The loop over the results of a page: what it yields, and its state unless it returns. -/
def readResults : List Dict → PageState → Except PyError (List Event × Option PageState)
  | [], s => .ok ([], some s)
  | result :: results, s =>
    (eventFromDict out result).bind fun event =>
      let s := note reverse s event
      if endId = some event.id then .ok (if passes filter event then [event] else [], none)
      else if passes filter event then
        match s.limit with
        | none => (readResults results s).map fun r => (event :: r.1, r.2)
        | some limit =>
          if limit - 1 ≤ 0 then .ok ([event], none)
          else
            (readResults results { s with limit := some (limit - 1) }).map fun r =>
              (event :: r.1, r.2)
      else readResults results s

def advance (c : Cursor) (s : PageState) : Cursor :=
  if reverse then
    match s.pageMinId with
    | some m => { c with endCursor := some (m - 1) }
    | none => c
  else { c with startCursor := s.forwardNextStart }

/-- The loop over the pages; `none` when it takes more rounds than `fuel`. -/
def searchFrom : Nat → Cursor → Option Int → Option (Except PyError (List Event))
  | 0, _, _ => none
  | fuel + 1, c, limit =>
    -- a request without a limit leaves it to the route's default
    match log.route c.startCursor (if reverse then c.endCursor else none) reverse
        ((limit.map (min 100)).getD 20) with
    | .error err => some (.error err)
    | .ok (.badRequest _) => some (.error (.keyError "events"))
    | .ok (.page results hasMore) =>
      match readResults out endId reverse filter results
          { forwardNextStart := c.startCursor, limit := limit } with
      | .error err => some (.error err)
      | .ok (found, none) => some (.ok found)
      | .ok (found, some s) =>
        if hasMore then
          (searchFrom fuel (advance reverse c s) s.limit).map fun later => later.map (found ++ ·)
        else some (.ok found)

/-- `search_events`, its results collected; `none` when it takes more rounds than `fuel`. -/
def searchEvents (startId : Int) (limit : Option Int) (fuel : Nat) :
    Option (Except PyError (List Event)) :=
  searchFrom log endId reverse filter fuel { startCursor := startId } limit

/-- The first event from the id on. -/
def getEvent (id : Int) (fuel : Nat) : Option (Except PyError Event) :=
  (searchEvents log none false none id (some 1) fuel).map fun found => found.bind fun events =>
    match events with
    | [] => .error .fileNotFoundError
    | e :: _ => .ok e

end NestedEventStore

/-! ## What the route gives -/

namespace StoredLog

variable {out : Outside} (log : StoredLog out)

def events : List Event := storedEvents out log.files log.curId

theorem stored_bound (id : Int) (e : Event) (he : stored out log.files id = some e) :
    0 ≤ id ∧ id < log.curId := by
  refine ⟨log.nonneg id e he, ?_⟩
  cases hfile : Assoc.get? (.event id) log.files with
  | none =>
    simp only [stored, EventStore.getEvent, FileStore.read, hfile, Except.bind] at he
    cases he
  | some content => exact EventStream.lt_calculateCurId hfile

theorem ordered : Ordered log.events := stored_ordered log.filesSound (indices_pairwise ..)

theorem mem_events (e : Event) : e ∈ log.events ↔ log.getEvent e.id = .ok e :=
  mem_storedEvents log.filesSound log.stored_bound e

theorem lt_curId {e : Event} (h : e ∈ log.events) : e.id < log.curId := by
  have hread : stored out log.files e.id = some e := by
    rw [stored]
    have := (log.mem_events e).mp h
    unfold StoredLog.getEvent at this
    rw [this]
    rfl
  exact (log.stored_bound e.id e hread).2

/-- The events of a search in the order of its direction. -/
def inRange (startId : Int) (endId : Option Int) (reverse : Bool) : List Event :=
  let found := log.events.filter fun e => startId ≤ e.id && e.id ≤ endId.getD (log.curId - 1)
  if reverse then found.reverse else found

theorem searchEvents_eq (startId : Int) (endId : Option Int) (reverse : Bool)
    (filter : Option (Event → Bool)) {limit : Option Int} (hlimit : ∀ l, limit = some l → 0 ≤ l) :
    log.searchEvents startId endId reverse filter limit =
      .ok (cutTo limit ((log.inRange startId endId reverse).filter (passes filter))) := by
  rw [searchEvents, searchEvents_range log.filesSound log.pagesSound log.stored_bound startId endId
    reverse filter hlimit]
  congr 2
  have hfilter : (log.events.filter fun e => startId ≤ e.id && e.id ≤ endId.getD (log.curId - 1) &&
      passes filter e) = (log.events.filter fun e => startId ≤ e.id &&
        e.id ≤ endId.getD (log.curId - 1)).filter (passes filter) := by
    rw [List.filter_filter]
    exact List.filter_congr fun e _ => Bool.and_comm ..
  cases reverse with
  | false => exact hfilter
  | true =>
    show List.reverse _ = List.filter _ (List.reverse _)
    rw [List.filter_reverse]
    exact congrArg List.reverse hfilter

/-- A search never fails on a sound log. -/
theorem searchEvents_ok (startId : Int) (endId : Option Int) (reverse : Bool)
    (filter : Option (Event → Bool)) (limit : Option Int) :
    ∃ found, log.searchEvents startId endId reverse filter limit = .ok found :=
  ⟨_, searchEvents_spec log.filesSound log.pagesSound ..⟩

/-- An event as it is sent to the client. -/
def Sent (out : Outside) (e : Event) (data : Dict) : Prop :=
  eventToDict out e = .ok data ∧ eventFromDict out data = .ok e

theorem exists_sent {e : Event} (h : e ∈ log.events) : ∃ data, Sent out e data := by
  have hget : EventStore.getEvent out log.files e.id = .ok e := (log.mem_events e).mp h
  have hstored : stored out log.files e.id = some e := by
    rw [stored, hget]
    rfl
  obtain ⟨content, -, hread⟩ := Py.bind_ok hget
  obtain ⟨v, -, hread⟩ := Py.bind_ok hread
  unfold readDict at hread
  split at hread
  next data =>
    obtain ⟨hbuilt, htimeout⟩ := eventFromDict_built hread
    exact written_and_read hbuilt ⟨eventFromDict_cost hread, log.response e.id e hstored⟩ htimeout
      (log.reason e.id e hstored)
  · cases hread

theorem mapM_sent {events : List Event} (h : ∀ e ∈ events, ∃ data, Sent out e data) :
    ∃ results, events.mapM (eventToDict out) = .ok results ∧ List.Forall₂ (Sent out) events results := by
  induction events with
  | nil => exact ⟨[], rfl, .nil⟩
  | cons e events ih =>
    obtain ⟨data, hdata⟩ := h e (List.mem_cons_self ..)
    obtain ⟨results, hmap, hsent⟩ := ih fun e he => h e (List.mem_cons_of_mem _ he)
    refine ⟨data :: results, ?_, .cons hdata hsent⟩
    rw [List.mapM_cons, hdata.1, hmap]
    rfl

theorem mem_inRange {startId : Int} {endId : Option Int} {reverse : Bool} {e : Event} :
    e ∈ log.inRange startId endId reverse ↔
      e ∈ log.events ∧ startId ≤ e.id ∧ e.id ≤ endId.getD (log.curId - 1) := by
  unfold inRange
  cases reverse <;> simp

/-- The route gives the first events of the range and tells whether there are more. -/
theorem route_spec (startId : Int) (endId : Option Int) (reverse : Bool) (limit : Int)
    (h0 : 0 ≤ limit) (h100 : limit ≤ 100) :
    ∃ results, log.route startId endId reverse limit =
        .ok (.page results (decide (limit.toNat < (log.inRange startId endId reverse).length))) ∧
      List.Forall₂ (Sent out) ((log.inRange startId endId reverse).take limit.toNat) results := by
  generalize hrange : log.inRange startId endId reverse = range
  have hpos : ∀ l, some (limit + 1) = some l → 0 ≤ l := by
    rintro l ⟨⟩
    omega
  have hall : (fun e : Event => passes none e) = fun _ => true := rfl
  have hsearch := log.searchEvents_eq startId endId reverse none hpos
  have hcut : cutTo (some (limit + 1)) (range.filter (passes none)) = range.take (limit.toNat + 1) := by
    have hne : limit + 1 ≠ 0 := by omega
    have hnat : (limit + 1).toNat = limit.toNat + 1 := by omega
    rw [cutTo, if_neg hne, hnat]
    exact congrArg _ (List.filter_eq_self.mpr fun _ _ => rfl)
  rw [hrange, hcut] at hsearch
  have hmore : decide (limit < ((range.take (limit.toNat + 1)).length : Int)) =
      decide (limit.toNat < range.length) := by
    rw [List.length_take, decide_eq_decide]
    omega
  have hgiven : (if decide (limit.toNat < range.length) then
      Py.takeTo (range.take (limit.toNat + 1)) limit else range.take (limit.toNat + 1)) =
        range.take limit.toNat := by
    split_ifs with hlt
    · rw [Py.takeTo, if_pos h0, List.take_take, Nat.min_eq_left (Nat.le_succ _)]
    · have hle : range.length ≤ limit.toNat := by simpa using hlt
      rw [List.take_of_length_le hle, List.take_of_length_le (by omega)]
  have hsent : ∀ e ∈ range.take limit.toNat, ∃ data, Sent out e data := by
    intro e he
    have hmem := List.mem_of_mem_take he
    rw [← hrange, mem_inRange] at hmem
    exact log.exists_sent hmem.1
  obtain ⟨results, hmap, hforall⟩ := mapM_sent hsent
  refine ⟨results, ?_, hforall⟩
  unfold route
  rw [if_neg (by omega), hsearch]
  show ((if decide (limit < ((range.take (limit.toNat + 1)).length : Int)) then
      Py.takeTo (range.take (limit.toNat + 1)) limit else range.take (limit.toNat + 1)).mapM
        (eventToDict out)).map _ = _
  rw [hmore, hgiven, hmap]
  rfl

end StoredLog

/-! ## The client as a reader of pages -/

namespace NestedEventStore

open Paging StoredLog

variable {out : Outside}

section Reading

variable (endId : Option Int) (reverse : Bool) (filter : Option (Event → Bool))

/-- One event of a page, given how many may still be yielded. -/
def readEvent (limit : Option Int) (e : Event) : List Event × Option (Option Int) :=
  if endId = some e.id then (if passes filter e then [e] else [], none)
  else if passes filter e then
    match limit with
    | none => ([e], some none)
    | some l => if l - 1 ≤ 0 then ([e], none) else ([e], some (some (l - 1)))
  else ([], some limit)

/-- The loop over the results reads their events one by one and notes each of them. -/
theorem readResults_spec {events : List Event} {results : List Dict}
    (h : List.Forall₂ (Sent out) events results) (s : PageState) :
    readResults out endId reverse filter results s =
      .ok ((feed (readEvent endId filter) s.limit events).1,
        (feed (readEvent endId filter) s.limit events).2.map fun limit =>
          { events.foldl (note reverse) s with limit := limit }) := by
  induction h generalizing s with
  | nil => rfl
  | @cons e data events results hsent _ ih =>
    have hlimit : (note reverse s e).limit = s.limit := by
      unfold note
      split_ifs <;> rfl
    -- the notes do not look at the limit
    have hfold : ∀ (xs : List Event) (t : PageState) (l l' : Option Int),
        ({ xs.foldl (note reverse) { t with limit := l } with limit := l' } : PageState) =
          { xs.foldl (note reverse) t with limit := l' } := by
      intro xs
      induction xs with
      | nil => exact fun t l l' => rfl
      | cons x xs ihx =>
        intro t l l'
        have hstep : note reverse { t with limit := l } x = { note reverse t x with limit := l } := by
          unfold note
          split_ifs <;> rfl
        rw [List.foldl_cons, List.foldl_cons, hstep, ihx]
    rw [readResults, hsent.2]
    show (if endId = some e.id then _ else _) = _
    rw [feed, readEvent.eq_def, List.foldl_cons]
    split_ifs with hend hpass hpass
    · rfl
    · rfl
    · rw [hlimit]
      cases hl : s.limit with
      | none =>
        dsimp only
        rw [ih, hlimit, hl]
        rfl
      | some l =>
        dsimp only
        split_ifs with hlast
        · rfl
        · rw [ih]
          dsimp only [Except.map]
          congr 2
          cases (feed (readEvent endId filter) (some (l - 1)) events).2 with
          | none => rfl
          | some l' => exact congrArg some (hfold events (note reverse s e) (some (l - 1)) l')
    · rw [ih, hlimit]
      rfl

end Reading

section Serving

variable (log : StoredLog out) (reverse : Bool)

/-- What the route has to give from a cursor on. -/
def remaining (c : Cursor) : List Event :=
  log.inRange c.startCursor (if reverse then c.endCursor else none) reverse

def pageSize (limit : Option Int) : Nat := ((limit.map (min 100)).getD 20).toNat

def serve (c : Cursor) (limit : Option Int) : List Event × Bool :=
  ((remaining log reverse c).take (pageSize limit),
    decide (pageSize limit < (remaining log reverse c).length))

/-- The cursor after a page. -/
def advanceBy (c : Cursor) (page : List Event) : Cursor :=
  advance reverse c
    (page.foldl (note reverse) { forwardNextStart := c.startCursor, limit := none })

theorem foldl_note_forward (page : List Event) (s : PageState) :
    s.forwardNextStart ≤ (page.foldl (note false) s).forwardNextStart ∧
      (∀ e ∈ page, e.id + 1 ≤ (page.foldl (note false) s).forwardNextStart) ∧
      ((page.foldl (note false) s).forwardNextStart = s.forwardNextStart ∨
        ∃ e ∈ page, (page.foldl (note false) s).forwardNextStart = e.id + 1) := by
  induction page generalizing s with
  | nil => exact ⟨le_rfl, by simp, .inl rfl⟩
  | cons e page ih =>
    obtain ⟨hstart, hall, hfrom⟩ := ih (note false s e)
    have hnote : (note false s e).forwardNextStart = max s.forwardNextStart (e.id + 1) := rfl
    rw [hnote] at hstart hfrom
    rw [List.foldl_cons]
    refine ⟨(le_max_left _ _).trans hstart, fun x hx => ?_, ?_⟩
    · rcases List.mem_cons.mp hx with rfl | hx
      · exact (le_max_right _ _).trans hstart
      · exact hall x hx
    · rcases hfrom with hfrom | ⟨x, hx, hfrom⟩
      · rcases max_choice s.forwardNextStart (e.id + 1) with hmax | hmax
        · exact .inl (hfrom.trans hmax)
        · exact .inr ⟨e, List.mem_cons_self .., hfrom.trans hmax⟩
      · exact .inr ⟨x, List.mem_cons_of_mem _ hx, hfrom⟩

theorem foldl_note_reverse {page : List Event} (hpage : page ≠ []) (s : PageState)
    (hnone : s.pageMinId = none) :
    ∃ m ∈ page, (page.foldl (note true) s).pageMinId = some m.id ∧ ∀ e ∈ page, m.id ≤ e.id := by
  have key : ∀ (page : List Event) (s : PageState) (first : Event), s.pageMinId = some first.id →
      ∃ m, (m = first ∨ m ∈ page) ∧ (page.foldl (note true) s).pageMinId = some m.id ∧
        m.id ≤ first.id ∧ ∀ e ∈ page, m.id ≤ e.id := by
    intro page
    induction page with
    | nil => exact fun s first hs => ⟨first, .inl rfl, hs, le_rfl, by simp⟩
    | cons e page ih =>
      intro s first hs
      have hnote : (note true s e).pageMinId = some (min first.id e.id) := by simp [note, hs]
      rw [List.foldl_cons]
      rcases le_total first.id e.id with hle | hle
      · rw [min_eq_left hle] at hnote
        obtain ⟨m, hm, hmin, hfirst, hall⟩ := ih _ first hnote
        refine ⟨m, hm.imp id (List.mem_cons_of_mem _), hmin, hfirst, fun x hx => ?_⟩
        rcases List.mem_cons.mp hx with rfl | hx
        · exact hfirst.trans hle
        · exact hall x hx
      · rw [min_eq_right hle] at hnote
        obtain ⟨m, hm, hmin, hfirst, hall⟩ := ih _ e hnote
        refine ⟨m, .inr ?_, hmin, hfirst.trans hle, fun x hx => ?_⟩
        · rcases hm with rfl | hm
          · exact List.mem_cons_self ..
          · exact List.mem_cons_of_mem _ hm
        · rcases List.mem_cons.mp hx with rfl | hx
          · exact hfirst
          · exact hall x hx
  cases page with
  | nil => exact absurd rfl hpage
  | cons e page =>
    have hnote : (note true s e).pageMinId = some e.id := by simp [note, hnone]
    obtain ⟨m, hm, hmin, hfirst, hall⟩ := key page _ e hnote
    refine ⟨m, List.mem_cons.mpr hm, hmin, fun x hx => ?_⟩
    rcases List.mem_cons.mp hx with rfl | hx
    · exact hfirst
    · exact hall x hx

/-- The cursor moves past exactly the events of the page. -/
theorem remaining_advanceBy (c : Cursor) {n : Nat} (hn : 0 < n)
    (hmore : n < (remaining log reverse c).length) :
    remaining log reverse (advanceBy reverse c ((remaining log reverse c).take n)) =
      (remaining log reverse c).drop n := by
  have hsplit := List.take_append_drop n (remaining log reverse c)
  have hpage : (remaining log reverse c).take n ≠ [] := by
    intro hnil
    have := congrArg List.length hnil
    rw [List.length_take, List.length_nil] at this
    omega
  generalize hP : (remaining log reverse c).take n = page at *
  generalize hQ : (remaining log reverse c).drop n = later at *
  have hmem (e : Event) : e ∈ remaining log reverse c ↔ e ∈ page ∨ e ∈ later := by
    rw [← hsplit, List.mem_append]
  cases reverse with
  | false =>
    have hord : Ordered (remaining log false c) := log.ordered.filter _
    rw [← hsplit] at hord
    obtain ⟨-, hlater, hlt⟩ := List.pairwise_append.mp hord
    obtain ⟨hstart, hall, hfrom⟩ :=
      foldl_note_forward page { forwardNextStart := c.startCursor, limit := none }
    have hcursor : advanceBy false c page = { c with startCursor := (page.foldl (note false)
        { forwardNextStart := c.startCursor, limit := none }).forwardNextStart } := rfl
    rw [hcursor]
    generalize (page.foldl (note false)
      { forwardNextStart := c.startCursor, limit := none }).forwardNextStart = next at *
    refine ordered_ext (log.ordered.filter _) hlater fun e => ?_
    have hrange : e ∈ remaining log false { c with startCursor := next } ↔
        e ∈ log.events ∧ next ≤ e.id ∧ e.id ≤ log.curId - 1 := log.mem_inRange
    have hrange' : e ∈ remaining log false c ↔
        e ∈ log.events ∧ c.startCursor ≤ e.id ∧ e.id ≤ log.curId - 1 := log.mem_inRange
    rw [hrange]
    constructor
    · rintro ⟨he, hnext, hlast⟩
      rcases (hmem e).mp (hrange'.mpr ⟨he, by dsimp only at hstart; omega, hlast⟩) with hin | hin
      · have := hall e hin
        omega
      · exact hin
    · intro hin
      obtain ⟨he, hfirst, hlast⟩ := hrange'.mp ((hmem e).mpr (.inr hin))
      refine ⟨he, ?_, hlast⟩
      rcases hfrom with rfl | ⟨x, hx, rfl⟩
      · exact hfirst
      · exact hlt x hx e hin
  | true =>
    have hord : Ordered (remaining log true c).reverse := by
      show Ordered (List.reverse (List.reverse _))
      rw [List.reverse_reverse]
      exact log.ordered.filter _
    rw [← hsplit, List.reverse_append] at hord
    obtain ⟨hlater, -, hlt⟩ := List.pairwise_append.mp hord
    obtain ⟨m, hm, hmin, hall⟩ :=
      foldl_note_reverse hpage { forwardNextStart := c.startCursor, limit := none } rfl
    have hcursor : advanceBy true c page = { c with endCursor := some (m.id - 1) } := by
      rw [advanceBy, advance, if_pos rfl, hmin]
    rw [hcursor, ← List.reverse_inj]
    refine ordered_ext ?_ hlater fun e => ?_
    · show Ordered (List.reverse (List.reverse _))
      rw [List.reverse_reverse]
      exact log.ordered.filter _
    have hrange : e ∈ remaining log true { c with endCursor := some (m.id - 1) } ↔
        e ∈ log.events ∧ c.startCursor ≤ e.id ∧ e.id ≤ m.id - 1 := log.mem_inRange
    have hrange' : e ∈ remaining log true c ↔ e ∈ log.events ∧ c.startCursor ≤ e.id ∧
        e.id ≤ c.endCursor.getD (log.curId - 1) := log.mem_inRange
    obtain ⟨-, -, hmlast⟩ : m ∈ log.events ∧ c.startCursor ≤ m.id ∧
        m.id ≤ c.endCursor.getD (log.curId - 1) := log.mem_inRange.mp ((hmem m).mpr (.inl hm))
    rw [List.mem_reverse, List.mem_reverse, hrange]
    constructor
    · rintro ⟨he, hfirst, hbelow⟩
      rcases (hmem e).mp (hrange'.mpr ⟨he, hfirst, by omega⟩) with hin | hin
      · have := hall e hin
        omega
      · exact hin
    · intro hin
      obtain ⟨he, hfirst, -⟩ := hrange'.mp ((hmem e).mpr (.inr hin))
      have := hlt e (List.mem_reverse.mpr hin) m (List.mem_reverse.mpr hm)
      exact ⟨he, hfirst, by omega⟩

/-- How many more may be yielded: no limit, or at least one. -/
def Positive (limit : Option Int) : Prop := ∀ l, limit = some l → 1 ≤ l

theorem pageSize_pos {limit : Option Int} (h : Positive limit) : 0 < pageSize limit := by
  unfold pageSize
  cases limit with
  | none => decide
  | some l =>
    have := h l rfl
    rw [Option.map_some, Option.getD_some]
    omega

theorem serves (endId : Option Int) (filter : Option (Event → Bool)) :
    Serves (readEvent endId filter) (serve log reverse) (advanceBy reverse)
      (remaining log reverse) pageSize Positive where
  page _ _ _ := rfl
  pos _ h := pageSize_pos h
  moves c _ hs hmore := remaining_advanceBy log reverse c (pageSize_pos hs) hmore
  keeps := by
    intro limit e limit' hpos hread
    unfold readEvent at hread
    split_ifs at hread
    · split at hread
      · cases hread
        nofun
      · split_ifs at hread
        cases hread
        rintro l ⟨⟩
        omega
    · cases hread
      exact hpos

end Serving

section Searching

variable (log : StoredLog out) (endId : Option Int) (reverse : Bool)
  (filter : Option (Event → Bool))

/-- As long as something may be yielded, the client reads the pages the route serves. -/
theorem searchFrom_eq (fuel : Nat) (c : Cursor) {limit : Option Int} (hlimit : Positive limit) :
    searchFrom log endId reverse filter fuel c limit =
      (readPages (readEvent endId filter) (serve log reverse) (advanceBy reverse) fuel c limit).map
        Except.ok := by
  induction fuel generalizing c limit with
  | zero => rfl
  | succ fuel ih =>
    have hsize : 0 ≤ (limit.map (min 100)).getD 20 ∧ (limit.map (min 100)).getD 20 ≤ 100 := by
      cases limit with
      | none => decide
      | some l =>
        have := hlimit l rfl
        rw [Option.map_some, Option.getD_some]
        omega
    obtain ⟨results, hroute, hsent⟩ := log.route_spec c.startCursor
      (if reverse then c.endCursor else none) reverse _ hsize.1 hsize.2
    have hread := readResults_spec endId reverse filter hsent
      { forwardNextStart := c.startCursor, limit := limit }
    have hadvance (limit' : Option Int) : ∀ (page : List Event) (t : PageState) (l : Option Int),
        advance reverse c { page.foldl (note reverse) t with limit := l } =
          advance reverse c (page.foldl (note reverse) { t with limit := limit' }) := by
      intro page
      induction page with
      | nil => exact fun t l => rfl
      | cons e page ihp =>
        intro t l
        have hstep : note reverse { t with limit := limit' } e =
            { note reverse t e with limit := limit' } := by
          unfold note
          split_ifs <;> rfl
        rw [List.foldl_cons, List.foldl_cons, hstep, ihp]
    rw [searchFrom, hroute, readPages]
    dsimp only
    rw [hread]
    dsimp only
    cases hfeed : feed (readEvent endId filter) limit (serve log reverse c limit).1 with
    | mk found next =>
      have hpage : (log.inRange c.startCursor (if reverse then c.endCursor else none) reverse).take
          ((limit.map (min 100)).getD 20).toNat = (serve log reverse c limit).1 := rfl
      rw [hpage, hfeed]
      cases next with
      | none => rfl
      | some limit' =>
        have hvalid : Positive limit' :=
          feed_valid (serves log reverse endId filter).keeps hlimit (by rw [hfeed])
        dsimp only [Option.map_some]
        show (if (serve log reverse c limit).2 then _ else _) = Option.map _ (if _ then _ else _)
        split_ifs with hmore
        · rw [ih _ hvalid, hadvance none, Option.map_map, Option.map_map]
          rfl
        · rfl

/-- A search that may yield something ends with what the reader finds in the whole range. -/
theorem searchEvents_ends (startId : Int) {limit : Option Int} (hlimit : Positive limit) :
    ∃ fuel, searchEvents log endId reverse filter startId limit fuel =
      some (.ok (feed (readEvent endId filter) limit (log.inRange startId none reverse)).1) := by
  obtain ⟨fuel, hfuel⟩ := readPages_complete (serves log reverse endId filter)
    (c := { startCursor := startId }) hlimit
  refine ⟨fuel, ?_⟩
  have hrange : remaining log reverse { startCursor := startId } =
      log.inRange startId none reverse := by
    unfold remaining
    cases reverse <;> rfl
  rw [searchEvents, searchFrom_eq log endId reverse filter fuel _ hlimit, hfuel, hrange]
  rfl

/-- It ends with nothing else. -/
theorem searchEvents_unique (startId : Int) {limit : Option Int} (hlimit : Positive limit)
    {fuel : Nat} {result : Except PyError (List Event)}
    (h : searchEvents log endId reverse filter startId limit fuel = some result) :
    result = .ok (feed (readEvent endId filter) limit (log.inRange startId none reverse)).1 := by
  obtain ⟨fuel', hends⟩ := searchEvents_ends log endId reverse filter startId hlimit
  rw [searchEvents, searchFrom_eq log endId reverse filter _ _ hlimit] at h hends
  obtain ⟨found, hfound, rfl⟩ := Option.map_eq_some_iff.mp h
  obtain ⟨found', hfound', heq⟩ := Option.map_eq_some_iff.mp hends
  rw [← heq, readPages_unique hfound hfound']

end Searching

/-! ## What a search finds -/

section Finding

variable {endId : Option Int} {filter : Option (Event → Bool)} {limit : Option Int} {E : Int}
  {found : List Event}

/-- The events up to the one with the id. -/
def upTo (endId : Option Int) : List Event → List Event
  | [] => []
  | e :: events => if endId = some e.id then [e] else e :: upTo endId events

theorem cutTo_cons (h : Positive limit) (e : Event) (events : List Event) :
    cutTo limit (e :: events) = e :: if limit = some 1 then [] else
      cutTo (limit.map (· - 1)) events := by
  cases limit with
  | none => rfl
  | some l =>
    have hl := h l rfl
    rw [cutTo, if_neg (by omega)]
    split_ifs with hone
    · obtain rfl : l = 1 := Option.some.inj hone
      rfl
    · have hne : l ≠ 1 := fun heq => hone (congrArg some heq)
      have hsucc : l.toNat = (l - 1).toNat + 1 := by omega
      rw [Option.map_some, cutTo, if_neg (by omega), hsucc, List.take_succ_cons]

theorem cutTo_nil (limit : Option Int) : cutTo limit [] = [] := by
  cases limit with
  | none => rfl
  | some l => rw [cutTo, List.take_nil, ite_self]

/-- What the client yields of the events it is sent. -/
theorem feed_readEvent (h : Positive limit) (events : List Event) :
    (feed (readEvent endId filter) limit events).1 =
      cutTo limit ((upTo endId events).filter (passes filter)) := by
  induction events generalizing limit with
  | nil => rw [upTo, List.filter_nil, cutTo_nil]; rfl
  | cons e events ih =>
    rw [feed, readEvent.eq_def, upTo]
    split_ifs with hend hpass hpass
    · rw [List.filter_cons_of_pos hpass, List.filter_nil, cutTo_cons h, cutTo_nil, ite_self]
    · rw [List.filter_cons_of_neg hpass, List.filter_nil, cutTo_nil]
    · rw [List.filter_cons_of_pos hpass, cutTo_cons h]
      cases limit with
      | none => exact congrArg _ (ih h)
      | some l =>
        have hl := h l rfl
        dsimp only
        split_ifs with hlast hone hone
        · rfl
        · exact absurd (congrArg some (by omega : l = 1)) hone
        · have := Option.some.inj hone
          omega
        · refine congrArg _ (ih ?_)
          rintro l' ⟨⟩
          omega
    · rw [List.filter_cons_of_neg hpass]
      exact ih h

theorem upTo_none (events : List Event) : upTo none events = events := by
  induction events with
  | nil => rfl
  | cons e events ih => rw [upTo, if_neg nofun, ih]

theorem upTo_of_notMem {events : List Event} (h : ∀ e ∈ events, e.id ≠ E) :
    upTo (some E) events = events := by
  induction events with
  | nil => rfl
  | cons e events ih =>
    have hne : some E ≠ some e.id := fun heq =>
      h e (List.mem_cons_self ..) (Option.some.inj heq).symm
    rw [upTo, if_neg hne, ih fun x hx => h x (List.mem_cons_of_mem _ hx)]

/-- Up to an event that is there, the ones are met that come no later than it. -/
theorem upTo_of_mem {events : List Event} {p : Event → Bool} (h : ∃ e ∈ events, e.id = E)
    (hsame : ∀ e, e.id = E → p e = true)
    (hp : events.Pairwise fun a b => (b.id = E → p a = true ∧ a.id ≠ E) ∧ (a.id = E → p b = false)) :
    upTo (some E) events = events.filter p := by
  induction events with
  | nil => obtain ⟨e, he, -⟩ := h; cases he
  | cons e events ih =>
    obtain ⟨hfirst, hrest⟩ := List.pairwise_cons.mp hp
    rw [upTo]
    split_ifs with hend
    · have hid : e.id = E := (Option.some.inj hend).symm
      have hnone : events.filter p = [] := by
        refine List.filter_eq_nil_iff.mpr fun x hx => ?_
        rw [(hfirst x hx).2 hid]
        exact Bool.false_ne_true
      rw [List.filter_cons_of_pos (hsame e hid), hnone]
    · obtain ⟨x, hx, hid⟩ := h
      rcases List.mem_cons.mp hx with rfl | hx
      · exact absurd (congrArg some hid.symm) hend
      · rw [List.filter_cons_of_pos ((hfirst x hx).1 hid).1, ih ⟨x, hx, hid⟩ hrest]

theorem cutTo_subset {events : List Event} : ∀ e ∈ cutTo limit events, e ∈ events := by
  intro e he
  unfold cutTo at he
  split at he
  · exact he
  · split_ifs at he
    · exact he
    · exact List.mem_of_mem_take he

/-- Cut lists agree when the longer one only goes on after the cut. -/
theorem cutTo_append_eq_iff (h : Positive limit) (front back : List Event) :
    cutTo limit (front ++ back) = cutTo limit front ↔
      back = [] ∨ ∃ l, limit = some l ∧ l ≤ front.length := by
  constructor
  · intro heq
    rcases List.eq_nil_or_concat' back with hnil | ⟨init, last, hback⟩
    · exact .inl hnil
    have hpos : 0 < back.length := by
      rw [hback, List.length_append]
      exact Nat.succ_pos _
    have hlen := congrArg List.length heq
    cases limit with
    | none =>
      rw [cutTo, cutTo, List.length_append] at hlen
      omega
    | some l =>
      have hl := h l rfl
      rw [cutTo, cutTo, if_neg (by omega), if_neg (by omega), List.length_take, List.length_take,
        List.length_append] at hlen
      exact .inr ⟨l, rfl, by omega⟩
  · rintro (rfl | ⟨l, rfl, hle⟩)
    · rw [List.append_nil]
    · have hl := h l rfl
      rw [cutTo, cutTo, if_neg (by omega), if_neg (by omega),
        List.take_append_of_le_length (by omega)]

theorem cutTo_eq_nil_iff (h : Positive limit) (events : List Event) :
    cutTo limit events = [] ↔ events = [] := by
  cases events with
  | nil => exact ⟨fun _ => rfl, fun _ => cutTo_nil limit⟩
  | cons e events => rw [cutTo_cons h]; exact ⟨nofun, nofun⟩

end Finding

/-! ## Agreement with the store behind the route -/

section Agreement

variable (log : StoredLog out)

/-- The client's search ends and yields what the store's own yields. -/
def SearchAgrees (startId : Int) (endId : Option Int) (reverse : Bool)
    (filter : Option (Event → Bool)) (limit : Option Int) : Prop :=
  ∃ fuel, searchEvents log endId reverse filter startId limit fuel =
    some (log.searchEvents startId endId reverse filter limit)

/-- The client gets the event of an id, or finds none, as the store does. -/
def GetAgrees (id : Int) : Prop := ∃ fuel, getEvent log id fuel = some (log.getEvent id)

/-- The events from an id on that pass. -/
def matching (startId : Int) (filter : Option (Event → Bool)) : List Event :=
  (log.inRange startId none false).filter (passes filter)

/-- No limit, a positive one, or a limit of zero where nothing is stored. -/
def LimitMet (startId : Int) (limit : Option Int) : Prop :=
  ∀ l, limit = some l → 1 ≤ l ∨ l = 0 ∧ log.inRange startId none false = []

/-- Forwards the last id is stored in the range, or nothing that passes comes after it, or the limit
is reached before. Backwards nothing that passes comes after it, and it is not stored in the range,
or nothing that passes comes before it, or it is itself the one result asked for. -/
def EndMet (startId : Int) (endId : Option Int) (reverse : Bool) (filter : Option (Event → Bool))
    (limit : Option Int) : Prop :=
  ∀ E, endId = some E →
    if reverse then
      (∀ e ∈ matching log startId filter, e.id ≤ E) ∧
        ((∀ e ∈ log.inRange startId none false, e.id ≠ E) ∨
          (∀ e ∈ matching log startId filter, E ≤ e.id) ∨
          limit = some 1 ∧ ∃ e ∈ matching log startId filter, e.id = E)
    else
      (∃ e ∈ log.inRange startId none false, e.id = E) ∨
        (∀ e ∈ matching log startId filter, e.id ≤ E) ∨
        ∃ l, limit = some l ∧ l ≤ ((matching log startId filter).filter fun e => e.id ≤ E).length

variable {log} {startId : Int} {endId : Option Int} {reverse : Bool}
  {filter : Option (Event → Bool)} {limit : Option Int}

variable (log) in
theorem inRange_ordered (startId : Int) (endId : Option Int) :
    Ordered (log.inRange startId endId false) := log.ordered.filter _

theorem inRange_reverse (startId : Int) (endId : Option Int) :
    log.inRange startId endId true = (log.inRange startId endId false).reverse := rfl

/-- A last id leaves out what comes after it. -/
theorem inRange_end (startId E : Int) : log.inRange startId (some E) false =
    (log.inRange startId none false).filter fun e => e.id ≤ E := by
  show List.filter _ log.events = List.filter _ (List.filter _ log.events)
  rw [List.filter_filter]
  refine List.filter_congr fun e he => ?_
  have hlast : e.id ≤ log.curId - 1 := Int.le_sub_one_iff.mpr (log.lt_curId he)
  simp [hlast, Bool.and_comm]

/-- With something to yield, the two searches differ in where they stop. -/
theorem searchAgrees_iff_cutTo (hlimit : Positive limit) :
    SearchAgrees log startId endId reverse filter limit ↔
      cutTo limit ((upTo endId (log.inRange startId none reverse)).filter (passes filter)) =
        cutTo limit ((log.inRange startId endId reverse).filter (passes filter)) := by
  have hnonneg : ∀ l, limit = some l → 0 ≤ l := fun l hl => by
    have := hlimit l hl
    omega
  have hstore := log.searchEvents_eq startId endId reverse filter hnonneg
  constructor
  · rintro ⟨fuel, h⟩
    have hclient := searchEvents_unique log endId reverse filter startId hlimit h
    rw [hstore, feed_readEvent hlimit] at hclient
    exact (Except.ok.inj hclient).symm
  · intro heq
    obtain ⟨fuel, h⟩ := searchEvents_ends log endId reverse filter startId hlimit
    refine ⟨fuel, ?_⟩
    rw [h, hstore, feed_readEvent hlimit, heq]

theorem forward_iff (hlimit : Positive limit) :
    SearchAgrees log startId endId false filter limit ↔
      EndMet log startId endId false filter limit := by
  rw [searchAgrees_iff_cutTo hlimit]
  cases endId with
  | none =>
    rw [upTo_none]
    exact ⟨fun _ => nofun, fun _ => rfl⟩
  | some E =>
    have hord := inRange_ordered log startId none
    have hswap : (log.inRange startId (some E) false).filter (passes filter) =
        (matching log startId filter).filter fun e => e.id ≤ E := by
      rw [inRange_end, matching, List.filter_filter, List.filter_filter]
      exact List.filter_congr fun e _ => Bool.and_comm ..
    rw [hswap]
    have hmet : EndMet log startId (some E) false filter limit ↔
        (∃ e ∈ log.inRange startId none false, e.id = E) ∨
          (∀ e ∈ matching log startId filter, e.id ≤ E) ∨ ∃ l, limit = some l ∧
            l ≤ ((matching log startId filter).filter fun e => e.id ≤ E).length :=
      ⟨fun h => h E rfl, fun h E' hE => by cases hE; exact h⟩
    rw [hmet]
    by_cases hmem : ∃ e ∈ log.inRange startId none false, e.id = E
    · refine ⟨fun _ => .inl hmem, fun _ => ?_⟩
      have hupTo : upTo (some E) (log.inRange startId none false) =
          (log.inRange startId none false).filter fun e => e.id ≤ E := by
        refine upTo_of_mem hmem (fun e he => decide_eq_true (le_of_eq he)) (hord.imp ?_)
        intro a b hab
        refine ⟨fun hb => ⟨decide_eq_true (by omega), by omega⟩, fun ha => decide_eq_false (by omega)⟩
      rw [hupTo, ← inRange_end, hswap]
    · have hnone : ∀ e ∈ log.inRange startId none false, e.id ≠ E := fun e he hid =>
        hmem ⟨e, he, hid⟩
      have hsplit : matching log startId filter =
          ((matching log startId filter).filter fun e => e.id ≤ E) ++
            (matching log startId filter).filter fun e => !decide (e.id ≤ E) := by
        have hmatching : Ordered (matching log startId filter) := hord.filter _
        rw [hmatching.filter_append]
        · symm
          exact List.filter_eq_self.mpr fun e _ => by simp
        · intro a _ b _ ha hb
          simp only [decide_eq_true_eq, Bool.not_eq_true', decide_eq_false_iff_not] at ha hb
          omega
      have hback : (matching log startId filter).filter (fun e => !decide (e.id ≤ E)) = [] ↔
          ∀ e ∈ matching log startId filter, e.id ≤ E := by
        simp [List.filter_eq_nil_iff]
      have hcut := cutTo_append_eq_iff hlimit
        ((matching log startId filter).filter fun e => e.id ≤ E)
        ((matching log startId filter).filter fun e => !decide (e.id ≤ E))
      rw [← hsplit, hback] at hcut
      rw [upTo_of_notMem hnone, or_iff_right hmem]
      exact hcut

/-- The first result going back is the last event there is. -/
theorem le_of_cutTo_reverse {events : List Event} {E : Int} (hord : Ordered events)
    (hlimit : Positive limit) (h : ∀ e ∈ cutTo limit events.reverse, e.id ≤ E) :
    ∀ e ∈ events, e.id ≤ E := by
  rcases List.eq_nil_or_concat' events with rfl | ⟨init, last, rfl⟩
  · simp
  · obtain ⟨-, -, hlt⟩ := List.pairwise_append.mp hord
    have hlast : last.id ≤ E := by
      apply h
      rw [List.reverse_append, List.reverse_singleton, List.singleton_append, cutTo_cons hlimit]
      exact List.mem_cons_self ..
    intro e he
    rcases List.mem_append.mp he with he | he
    · have := hlt e he last (List.mem_singleton_self _)
      omega
    · rw [List.mem_singleton.mp he]
      exact hlast

/-- Where nothing comes after the last id, the one result of that id is all of them, or the one that
is asked for. -/
theorem cutTo_only_iff {events : List Event} {E : Int} (hord : Ordered events)
    (hlimit : Positive limit) (hle : ∀ e ∈ events, e.id ≤ E) :
    cutTo limit (events.filter fun e => E ≤ e.id).reverse = cutTo limit events.reverse ↔
      (∀ e ∈ events, E ≤ e.id) ∨ limit = some 1 ∧ ∃ e ∈ events, e.id = E := by
  rcases List.eq_nil_or_concat' events with rfl | ⟨init, last, rfl⟩
  · simp
  · obtain ⟨-, -, hlt⟩ := List.pairwise_append.mp hord
    have hbelow : ∀ e ∈ init, e.id < last.id := fun e he => hlt e he last (List.mem_singleton_self _)
    have hlast : last.id ≤ E := hle last (List.mem_append_right _ (List.mem_singleton_self _))
    have hinit : init.filter (fun e => E ≤ e.id) = [] := by
      refine List.filter_eq_nil_iff.mpr fun e he => ?_
      have := hbelow e he
      simpa using (by omega : e.id < E)
    rw [List.filter_append, hinit, List.nil_append, List.reverse_append, List.reverse_singleton,
      List.singleton_append]
    conv_lhs => rw [cutTo_cons hlimit last]
    by_cases hE : last.id = E
    · have hkeep : [last].filter (fun e => E ≤ e.id) = [last] := by simp [hE]
      rw [hkeep, List.reverse_singleton, cutTo_cons hlimit, cutTo_nil, ite_self, List.cons_inj_right]
      split_ifs with hone
      · exact ⟨fun _ => .inr ⟨hone, last, List.mem_append_right _ (List.mem_singleton_self _), hE⟩,
          fun _ => rfl⟩
      · have hrest : Positive (limit.map (· - 1)) := by
          intro l hl
          obtain ⟨l', hl', rfl⟩ := Option.map_eq_some_iff.mp hl
          have := hlimit l' hl'
          have hne : l' ≠ 1 := fun heq => hone (heq ▸ hl')
          omega
        rw [eq_comm, cutTo_eq_nil_iff hrest, List.reverse_eq_nil_iff, or_iff_left fun h => hone h.1]
        constructor
        · rintro rfl e he
          rw [List.mem_singleton.mp he, hE]
        · intro hall
          refine List.eq_nil_iff_forall_not_mem.mpr fun e he => ?_
          have := hall e (List.mem_append_left _ he)
          have := hbelow e he
          omega
    · have hdrop : [last].filter (fun e => E ≤ e.id) = [] := by
        simpa using (by omega : last.id < E)
      rw [hdrop, List.reverse_nil, cutTo_nil]
      constructor
      · exact nofun
      · rintro (hall | ⟨-, e, he, hid⟩)
        · have := hall last (List.mem_append_right _ (List.mem_singleton_self _))
          omega
        · rcases List.mem_append.mp he with he | he
          · have := hbelow e he
            omega
          · exact absurd (List.mem_singleton.mp he ▸ hid) hE

/-- Going back, the client starts at the last event and not at the last id asked for. -/
theorem backward_iff (hlimit : Positive limit) :
    SearchAgrees log startId endId true filter limit ↔
      EndMet log startId endId true filter limit := by
  rw [searchAgrees_iff_cutTo hlimit]
  cases endId with
  | none =>
    rw [upTo_none]
    exact ⟨fun _ => nofun, fun _ => rfl⟩
  | some E =>
    have hord := inRange_ordered log startId none
    have hmatching : Ordered (matching log startId filter) := hord.filter _
    have hstore : (log.inRange startId (some E) true).filter (passes filter) =
        ((matching log startId filter).filter fun e => e.id ≤ E).reverse := by
      rw [inRange_reverse, inRange_end, List.filter_reverse, matching, List.filter_filter,
        List.filter_filter]
      exact congrArg List.reverse (List.filter_congr fun e _ => Bool.and_comm ..)
    have hmet : EndMet log startId (some E) true filter limit ↔
        (∀ e ∈ matching log startId filter, e.id ≤ E) ∧
          ((∀ e ∈ log.inRange startId none false, e.id ≠ E) ∨
            (∀ e ∈ matching log startId filter, E ≤ e.id) ∨
            limit = some 1 ∧ ∃ e ∈ matching log startId filter, e.id = E) :=
      ⟨fun h => h E rfl, fun h E' hE => by cases hE; exact h⟩
    have hle {events : List Event}
        (heq : cutTo limit events.reverse =
          cutTo limit ((matching log startId filter).filter fun e => e.id ≤ E).reverse) :
        ∀ e ∈ cutTo limit events.reverse, e.id ≤ E := by
      intro e he
      rw [heq] at he
      have hmem := List.mem_filter.mp (List.mem_reverse.mp (cutTo_subset e he))
      exact of_decide_eq_true hmem.2
    have hwhole (h : ∀ e ∈ matching log startId filter, e.id ≤ E) :
        ((matching log startId filter).filter fun e => e.id ≤ E) = matching log startId filter :=
      List.filter_eq_self.mpr fun e he => decide_eq_true (h e he)
    rw [hstore, hmet, inRange_reverse]
    by_cases hmem : ∃ e ∈ log.inRange startId none false, e.id = E
    · have hupTo : upTo (some E) (log.inRange startId none false).reverse =
          ((log.inRange startId none false).reverse).filter fun e => E ≤ e.id := by
        obtain ⟨x, hx, hid⟩ := hmem
        refine upTo_of_mem ⟨x, List.mem_reverse.mpr hx, hid⟩ (fun e he => decide_eq_true (ge_of_eq he))
          (List.pairwise_reverse.mpr (hord.imp ?_))
        intro a b hab
        refine ⟨fun ha => ⟨decide_eq_true (by omega), by omega⟩, fun hb => decide_eq_false (by omega)⟩
      have hclient : (upTo (some E) (log.inRange startId none false).reverse).filter (passes filter) =
          ((matching log startId filter).filter fun e => E ≤ e.id).reverse := by
        rw [hupTo, List.filter_reverse, List.filter_reverse, matching, List.filter_filter,
          List.filter_filter]
        exact congrArg List.reverse (List.filter_congr fun e _ => Bool.and_comm ..)
      have hstored : ¬ ∀ e ∈ log.inRange startId none false, e.id ≠ E := by
        obtain ⟨x, hx, hid⟩ := hmem
        exact fun h => h x hx hid
      rw [hclient, or_iff_right hstored]
      constructor
      · intro heq
        have hall : ∀ e ∈ matching log startId filter, e.id ≤ E := by
          intro e he
          by_contra hgt
          have habove := le_of_cutTo_reverse (hmatching.filter _) hlimit (hle heq) e
            (List.mem_filter.mpr ⟨he, decide_eq_true (by omega)⟩)
          omega
        rw [hwhole hall] at heq
        exact ⟨hall, (cutTo_only_iff hmatching hlimit hall).mp heq⟩
      · rintro ⟨hall, honly⟩
        rw [hwhole hall]
        exact (cutTo_only_iff hmatching hlimit hall).mpr honly
    · have hnone : ∀ e ∈ log.inRange startId none false, e.id ≠ E := fun e he hid =>
        hmem ⟨e, he, hid⟩
      rw [upTo_of_notMem fun e he => hnone e (List.mem_reverse.mp he), List.filter_reverse]
      constructor
      · intro heq
        exact ⟨le_of_cutTo_reverse hmatching hlimit (hle heq), .inl hnone⟩
      · rintro ⟨hall, -⟩
        rw [hwhole hall]
        rfl

/-- A limit of zero asks for empty pages for ever, a negative one is refused. -/
theorem searchFrom_zero {c : Cursor} (hmore : 0 < (remaining log reverse c).length) (fuel : Nat) :
    searchFrom log endId reverse filter fuel c (some 0) = none := by
  induction fuel with
  | zero => rfl
  | succ fuel ih =>
    obtain ⟨results, hroute, hsent⟩ := log.route_spec c.startCursor
      (if reverse then c.endCursor else none) reverse 0 le_rfl (by decide)
    have hnil : results = [] := by
      rw [Int.toNat_zero, List.take_zero] at hsent
      cases hsent
      rfl
    have hstay : advance reverse c { forwardNextStart := c.startCursor, limit := some 0 } = c := by
      unfold advance
      cases reverse <;> rfl
    have hsize : ((some (0 : Int)).map (min 100)).getD 20 = 0 := rfl
    rw [searchFrom, hsize, hroute, hnil]
    dsimp only [readResults]
    rw [Int.toNat_zero, hstay]
    show (if decide (0 < (remaining log reverse c).length) then _ else _) = _
    rw [decide_eq_true hmore, if_pos rfl, ih]
    rfl


theorem searchFrom_negative {l : Int} (hl : l < 0) (c : Cursor) (fuel : Nat) :
    searchFrom log endId reverse filter (fuel + 1) c (some l) =
      some (.error (.keyError "events")) := by
  have hsize : ((some l).map (min 100)).getD 20 = l := min_eq_right (by omega)
  have hroute (a : Int) (b : Option Int) :
      log.route a b reverse l = .ok (.badRequest "Invalid limit") := if_pos (.inl hl)
  rw [searchFrom, hsize, hroute]

theorem remaining_start (startId : Int) (reverse : Bool) :
    remaining log reverse { startCursor := startId } = log.inRange startId none reverse := by
  cases reverse <;> rfl

/-- Where nothing is stored from the first id on, the store finds nothing either. -/
theorem nothing_stored (hnone : log.inRange startId none false = []) (reverse : Bool) :
    log.inRange startId endId reverse = [] := by
  refine List.eq_nil_iff_forall_not_mem.mpr fun e he => ?_
  obtain ⟨hmem, hstart, -⟩ := log.mem_inRange.mp he
  have hin : e ∈ log.inRange startId none false :=
    log.mem_inRange.mpr ⟨hmem, hstart, Int.le_sub_one_iff.mpr (log.lt_curId hmem)⟩
  rw [hnone] at hin
  cases hin

theorem searchAgrees_iff : SearchAgrees log startId endId reverse filter limit ↔
    LimitMet log startId limit ∧ EndMet log startId endId reverse filter limit := by
  by_cases hpos : Positive limit
  · have hlimit : LimitMet log startId limit := fun l hl => .inl (hpos l hl)
    rw [and_iff_right hlimit]
    cases reverse with
    | false => exact forward_iff hpos
    | true => exact backward_iff hpos
  · obtain ⟨l, rfl, hl⟩ : ∃ l, limit = some l ∧ l < 1 := by
      unfold Positive at hpos
      push Not at hpos
      exact hpos
    obtain ⟨found, hfound⟩ := log.searchEvents_ok startId endId reverse filter (some l)
    constructor
    · rintro ⟨fuel, h⟩
      rcases lt_or_ge l 0 with hneg | hzero
      · -- the refused request has no events
        cases fuel with
        | zero => cases h
        | succ fuel =>
          rw [searchEvents, searchFrom_negative hneg, hfound] at h
          cases h
      · obtain rfl : l = 0 := by omega
        have hnone : log.inRange startId none false = [] := by
          by_contra hsome
          have hmore : 0 < (remaining log reverse { startCursor := startId }).length := by
            rw [remaining_start]
            have := List.length_pos_of_ne_nil hsome
            cases reverse with
            | false => exact this
            | true => rwa [inRange_reverse, List.length_reverse]
          rw [searchEvents, searchFrom_zero hmore] at h
          cases h
        have hmatching : matching log startId filter = [] := by rw [matching, hnone, List.filter_nil]
        refine ⟨fun l' hl' => by cases hl'; exact .inr ⟨rfl, hnone⟩, fun E _ => ?_⟩
        rw [hmatching, hnone]
        cases reverse <;> simp
    · rintro ⟨hlimit, -⟩
      obtain ⟨rfl, hnone⟩ : l = 0 ∧ log.inRange startId none false = [] := by
        rcases hlimit l rfl with hge | hnone
        · omega
        · exact hnone
      refine ⟨1, ?_⟩
      obtain ⟨results, hroute, hsent⟩ := log.route_spec startId none reverse 0 le_rfl
        (by decide)
      have hnil : results = [] := by
        rw [Int.toNat_zero, List.take_zero] at hsent
        cases hsent
        rfl
      have hsize : ((some (0 : Int)).map (min 100)).getD 20 = 0 := rfl
      have hzero : ∀ l, some (0 : Int) = some l → 0 ≤ l := by
        rintro l ⟨⟩
        exact le_rfl
      have hstore := log.searchEvents_eq startId endId reverse filter hzero
      rw [nothing_stored hnone, List.filter_nil, cutTo_nil] at hstore
      rw [nothing_stored hnone, hnil] at hroute
      rw [hstore, searchEvents, searchFrom, hsize, ite_self, hroute]
      rfl

/-- The client takes the next event for the one it is asked for. -/
theorem getAgrees_iff (id : Int) : GetAgrees log id ↔
    (∃ e ∈ log.events, e.id = id) ∨ ∀ e ∈ log.events, e.id < id := by
  have hone : Positive (some 1) := by
    rintro l ⟨⟩
    exact le_rfl
  have hall (e : Event) : passes none e = true := rfl
  have hmem (e : Event) : e ∈ log.inRange id none false ↔ e ∈ log.events ∧ id ≤ e.id := by
    rw [log.mem_inRange]
    constructor
    · rintro ⟨he, hid, -⟩
      exact ⟨he, hid⟩
    · rintro ⟨he, hid⟩
      exact ⟨he, hid, Int.le_sub_one_iff.mpr (log.lt_curId he)⟩
  have hfound : (feed (readEvent none none) (some 1) (log.inRange id none false)).1 =
      (log.inRange id none false).take 1 := by
    rw [feed_readEvent hone, upTo_none, List.filter_eq_self.mpr fun e _ => hall e]
    rfl
  have hget : GetAgrees log id ↔ (match (log.inRange id none false).take 1 with
      | [] => (Except.error .fileNotFoundError : Except PyError Event)
      | e :: _ => .ok e) = log.getEvent id := by
    constructor
    · rintro ⟨fuel, h⟩
      obtain ⟨result, hresult, h⟩ := Option.map_eq_some_iff.mp h
      rw [searchEvents_unique log none false none id hone hresult, hfound] at h
      exact h
    · intro h
      obtain ⟨fuel, hends⟩ := searchEvents_ends log none false none id hone
      refine ⟨fuel, ?_⟩
      rw [getEvent, hends, hfound]
      exact congrArg some h
  have hstored : (∃ e ∈ log.events, e.id = id) ↔ ∃ e, log.getEvent id = .ok e := by
    constructor
    · rintro ⟨e, he, rfl⟩
      exact ⟨e, (log.mem_events e).mp he⟩
    · rintro ⟨e, he⟩
      have hid : e.id = id := by
        refine stored_id log.filesSound (e := e) ?_
        have he : EventStore.getEvent out log.files id = .ok e := he
        rw [stored, he]
        rfl
      exact ⟨e, (log.mem_events e).mpr (hid ▸ he), hid⟩
  rw [hget]
  have hord := inRange_ordered log id none
  cases hrange : log.inRange id none false with
  | nil =>
    have hnone : ∀ e ∈ log.events, e.id < id := by
      intro e he
      by_contra hge
      have hin := (hmem e).mpr ⟨he, by omega⟩
      rw [hrange] at hin
      cases hin
    refine ⟨fun _ => .inr hnone, fun _ => ?_⟩
    have hmissing : log.getEvent id = .error .fileNotFoundError := by
      rcases log.filesSound id with ⟨e, he, hid⟩ | hread
      · have hlt := hnone e ((log.mem_events e).mpr (hid.symm ▸ he))
        omega
      · exact hread
    rw [List.take_nil, hmissing]
  | cons e events =>
    obtain ⟨he, hge⟩ := (hmem e).mp (hrange ▸ List.mem_cons_self ..)
    have hnext : ¬ ∀ e ∈ log.events, e.id < id := fun h => by
      have := h e he
      omega
    rw [List.take_succ_cons, or_iff_left hnext]
    constructor
    · intro h
      exact hstored.mpr ⟨e, h.symm⟩
    · rintro ⟨x, hx, rfl⟩
      have hin := (hmem x).mpr ⟨hx, le_rfl⟩
      rw [hrange, Ordered] at hord
      rw [hrange] at hin
      rcases List.mem_cons.mp hin with rfl | hlater
      · exact ((log.mem_events x).mp hx).symm
      · have := (List.pairwise_cons.mp hord).1 x hlater
        omega

/-- Exactly when a client of the route sees what the store behind it holds. -/
theorem agrees_iff (log : StoredLog out) :
    (∀ startId endId reverse filter limit,
      SearchAgrees log startId endId reverse filter limit ↔
        LimitMet log startId limit ∧ EndMet log startId endId reverse filter limit) ∧
    ∀ id, GetAgrees log id ↔
      (∃ e ∈ log.events, e.id = id) ∨ ∀ e ∈ log.events, e.id < id :=
  ⟨fun _ _ _ _ _ => searchAgrees_iff, getAgrees_iff⟩

/-! Two messages, searched backwards from the first one on. -/

def storedMessage (id : Int) : Event where
  body := .action (.message { content := "hi" })
  id := id
  source := some .user

def storedMessageData (id : Int) : Dict :=
  [("id", .int id), ("source", .str "user"), ("message", .str "hi"), ("action", .str "message"),
    ("args", .obj (Action.message { content := "hi" }).args)]

def twoFiles : FileStore :=
  [(.event 0, Json.dumps (.obj (storedMessageData 0))),
    (.event 1, Json.dumps (.obj (storedMessageData 1)))]

theorem storedMessage_read (id : Int) :
    (parse (Json.dumps (.obj (storedMessageData id)))).bind (readDict textOutside) =
      .ok (storedMessage id) := by
  have hwf : (Json.obj (storedMessageData id)).WellFormed := by
    simp [storedMessageData, Action.args, Json.WellFormed, Json.WellFormedMembers, Json.ofOpt]
  rw [parse, Json.loads_dumps hwf]
  rfl

theorem twoFiles_read (id : Int) : EventStore.getEvent textOutside twoFiles id =
    if id = 0 ∨ id = 1 then .ok (storedMessage id) else .error .fileNotFoundError := by
  have hread : FileStore.read twoFiles (.event id) = if id = 0 ∨ id = 1 then
      .ok (Json.dumps (.obj (storedMessageData id))) else .error .fileNotFoundError := by
    unfold FileStore.read twoFiles
    by_cases h0 : id = 0
    · subst h0
      rfl
    · by_cases h1 : id = 1
      · subst h1
        rfl
      · have hne (i : Int) (h : id ≠ i) : FileName.event id ≠ .event i := by simpa using h
        rw [Assoc.get?_cons_of_ne (hne 0 h0), Assoc.get?_cons_of_ne (hne 1 h1), Assoc.get?_nil,
          if_neg (by omega)]
  rw [EventStore.getEvent, hread]
  split_ifs
  · exact storedMessage_read id
  · rfl

theorem filesSound_twoFiles : FilesSound textOutside twoFiles := by
  intro id
  rw [twoFiles_read]
  split_ifs
  · exact .inl ⟨storedMessage id, rfl, rfl⟩
  · exact .inr rfl

theorem pagesSound_twoFiles : PagesSound textOutside twoFiles := by
  intro index
  refine ⟨⟨none, index - index % CACHE_SIZE, index - index % CACHE_SIZE + CACHE_SIZE⟩, ?_, ?_, ?_⟩
  · rfl
  · exact covers_own index none
  · exact fun i _ => .inl rfl

theorem stored_twoFiles {id : Int} {e : Event} (h : stored textOutside twoFiles id = some e) :
    (id = 0 ∨ id = 1) ∧ e = storedMessage id := by
  rw [stored, twoFiles_read] at h
  split_ifs at h with hid
  · exact ⟨hid, (Option.some.inj h).symm⟩
  · cases h

theorem nonneg_twoFiles (id : Int) (e : Event) (h : stored textOutside twoFiles id = some e) : 0 ≤ id := by
  have hid := (stored_twoFiles h).1
  omega

theorem response_twoFiles (id : Int) (e : Event) (h : stored textOutside twoFiles id = some e) :
    ∀ m, e.toolCallMetadata = some m →
      textOutside.readResponse (textOutside.dumpResponse m.modelResponse) = .ok m.modelResponse := by
  intro m hm
  rw [(stored_twoFiles h).2] at hm
  cases hm

theorem reason_twoFiles (id : Int) (e : Event) (h : stored textOutside twoFiles id = some e) : e.ReasonIsText := by
  rw [(stored_twoFiles h).2]
  intro a ha
  cases ha

def twoMessages : StoredLog textOutside where
  files := twoFiles
  filesSound := filesSound_twoFiles
  pagesSound := pagesSound_twoFiles
  nonneg := nonneg_twoFiles
  response := response_twoFiles
  reason := reason_twoFiles

theorem mem_twoMessages {id : Int} (h : id = 0 ∨ id = 1) : storedMessage id ∈ twoMessages.events := by
  rw [twoMessages.mem_events]
  show EventStore.getEvent textOutside twoFiles id = _
  rw [twoFiles_read, if_pos h]

/-- The client gives both, the last one first, and takes the first one for the one before it. -/
theorem twoMessages_disagree :
    ¬ SearchAgrees twoMessages 0 (some 0) true none none ∧ ¬ GetAgrees twoMessages (-1) := by
  have hlast := mem_twoMessages (.inr rfl)
  constructor
  · rw [searchAgrees_iff]
    rintro ⟨-, hend⟩
    have hin : storedMessage 1 ∈ twoMessages.inRange 0 none false :=
      twoMessages.mem_inRange.mpr
        ⟨hlast, by decide, Int.le_sub_one_iff.mpr (twoMessages.lt_curId hlast)⟩
    have hle := (hend 0 rfl).1 _ (List.mem_filter.mpr ⟨hin, rfl⟩)
    exact absurd hle (by decide)
  · rw [getAgrees_iff]
    rintro (⟨e, he, hid⟩ | hnone)
    · have hread := (twoMessages.mem_events e).mp he
      have hmissing : twoMessages.getEvent e.id = .error .fileNotFoundError := by
        show EventStore.getEvent textOutside twoFiles e.id = _
        rw [twoFiles_read, hid, if_neg (by decide)]
      rw [hmissing] at hread
      cases hread
    · exact absurd (hnone _ hlast) (by decide)

end Agreement

end NestedEventStore

end OpenHands
