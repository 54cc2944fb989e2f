import OpenHandsSWE.Events.CachePages

/-! Searching the stored events gives the same with the cache pages and without them. -/

namespace OpenHands

def FileName.isEvent : FileName → Bool
  | .event _ => true
  | .cachePage .. => false

namespace EventStore

def withoutPages (files : FileStore) : FileStore := files.filter fun file => file.1.isEvent

variable (out : Outside) (files : FileStore)

/-- The event of an id, when it has a file. -/
def stored (id : Int) : Option Event := (getEvent out files id).toOption

/-- Every file of an event holds the event of its id. -/
def FilesSound : Prop :=
  ∀ id, (∃ e, getEvent out files id = .ok e ∧ e.id = id) ∨
    getEvent out files id = .error .fileNotFoundError

/-- What a page gives for an index is what the index's own file holds. -/
def PageSound (page : CachePage) : Prop :=
  ∀ index, page.covers index = true → page.getEvent out index = .ok none ∨
    ∃ e, page.getEvent out index = .ok (some e) ∧ getEvent out files index = .ok e

def PagesSound : Prop :=
  ∀ index, ∃ page, loadCachePageForIndex files index = .ok page ∧ page.covers index = true ∧
    PageSound out files page

/-- The results up to the one that reaches the limit. -/
def cut (limit : Option Int) : Nat → List Event → List Event
  | _, [] => []
  | n, e :: events =>
    if limitReached limit (n + 1) then [e] else e :: cut limit (n + 1) events

variable {out files}

theorem lookup_spec (hfiles : FilesSound out files) {page : CachePage} {index : Int}
    (hcovers : page.covers index = true) (hpage : PageSound out files page) :
    lookup out files page index = .ok (stored out files index) := by
  unfold lookup stored
  rcases hpage index hcovers with hnone | ⟨e, hsome, hread⟩
  · rw [hnone]
    rcases hfiles index with ⟨e, hread, -⟩ | hread
    · simp [Except.bind, hread, Except.toOption]
    · simp [Except.bind, hread, Except.toOption]
  · rw [hsome, hread]
    rfl

/-- The loop yields the stored events of its indices that pass, up to the limit. -/
theorem scan_spec (hfiles : FilesSound out files) (hpages : PagesSound out files)
    (filter : Option (Event → Bool)) (limit : Option Int) (is : List Int) {page : CachePage}
    (hpage : PageSound out files page) (n : Nat) :
    scan out files filter limit is page n =
      .ok (cut limit n ((is.filterMap (stored out files)).filter (passes filter))) := by
  induction is generalizing page n with
  | nil => rfl
  | cons index is ih =>
    obtain ⟨next, hload, hcovers, hnext⟩ : ∃ next,
        (if page.covers index then .ok page else loadCachePageForIndex files index) =
          (.ok next : Except PyError CachePage) ∧
        next.covers index = true ∧ PageSound out files next := by
      cases hc : page.covers index with
      | true => exact ⟨page, rfl, hc, hpage⟩
      | false => exact hpages index
    rw [scan, hload]
    show (lookup out files next index).bind _ = _
    rw [lookup_spec hfiles hcovers hnext, Except.bind]
    cases hstored : stored out files index with
    | none =>
      rw [List.filterMap_cons_none hstored]
      exact ih hnext n
    | some e =>
      rw [List.filterMap_cons_some hstored]
      dsimp only
      cases hpass : passes filter e with
      | false =>
        rw [List.filter_cons_of_neg (by simp [hpass])]
        exact ih hnext n
      | true =>
        rw [List.filter_cons_of_pos hpass, cut, if_pos rfl]
        split_ifs
        · rfl
        · rw [ih hnext (n + 1)]
          rfl

theorem pageSound_dummy : PageSound out files DUMMY_PAGE := by
  intro index hcovers
  exact .inl rfl

theorem searchEvents_spec (hfiles : FilesSound out files) (hpages : PagesSound out files)
    (curId startId : Int) (endId : Option Int) (reverse : Bool) (filter : Option (Event → Bool))
    (limit : Option Int) :
    searchEvents out files curId startId endId reverse filter limit =
      .ok (cut limit 0 (((indices startId ((endId.map (· + 1)).getD curId) reverse).filterMap
        (stored out files)).filter (passes filter))) :=
  scan_spec hfiles hpages filter limit _ pageSound_dummy 0

/-! ## Without pages -/

theorem get?_withoutPages_event (files : FileStore) (id : Int) :
    Assoc.get? (.event id) (withoutPages files) = Assoc.get? (.event id) files :=
  (Assoc.get?_filter FileName.isEvent (.event id) files).trans (if_pos rfl)

theorem get?_withoutPages_page (files : FileStore) (start stop : Int) :
    Assoc.get? (.cachePage start stop) (withoutPages files) = none :=
  (Assoc.get?_filter FileName.isEvent (.cachePage start stop) files).trans
    (if_neg Bool.false_ne_true)

theorem getEvent_withoutPages (id : Int) :
    getEvent out (withoutPages files) id = getEvent out files id := by
  unfold getEvent FileStore.read
  rw [get?_withoutPages_event]

theorem covers_own (index : Int) (events : Option (List Json)) :
    (CachePage.mk events (index - index % CACHE_SIZE)
      (index - index % CACHE_SIZE + CACHE_SIZE)).covers index = true := by
  have h1 : 0 ≤ index % (CACHE_SIZE : Int) := Int.emod_nonneg _ (by decide)
  have h2 : index % (CACHE_SIZE : Int) < CACHE_SIZE := Int.emod_lt_of_pos _ (by decide)
  simp only [CachePage.covers, Bool.and_eq_true, decide_eq_true_eq]
  omega

theorem pagesSound_withoutPages : PagesSound out (withoutPages files) := by
  intro index
  refine ⟨⟨none, _, _⟩, ?_, covers_own index none, fun _ _ => .inl rfl⟩
  unfold loadCachePageForIndex loadCachePage
  rw [get?_withoutPages_page]

theorem filesSound_withoutPages (h : FilesSound out files) : FilesSound out (withoutPages files) := by
  intro id
  rw [getEvent_withoutPages]
  exact h id

theorem stored_withoutPages : stored out (withoutPages files) = stored out files := by
  funext id
  rw [stored, getEvent_withoutPages, stored]

/-- Reading past the cache gives what reading through it gives. -/
theorem searchEvents_withoutPages (hfiles : FilesSound out files) (hpages : PagesSound out files)
    (curId startId : Int) (endId : Option Int) (reverse : Bool) (filter : Option (Event → Bool))
    (limit : Option Int) :
    searchEvents out files curId startId endId reverse filter limit =
      searchEvents out (withoutPages files) curId startId endId reverse filter limit := by
  rw [searchEvents_spec hfiles hpages,
    searchEvents_spec (filesSound_withoutPages hfiles) pagesSound_withoutPages, stored_withoutPages]

/-! ## The events of a range -/

/-- At most so many; no limit and a limit of zero are none. -/
def cutTo (limit : Option Int) (events : List Event) : List Event :=
  match limit with
  | none => events
  | some l => if l = 0 then events else events.take l.toNat

theorem cut_none (limit : Option Int) (h : limit.getD 0 = 0) (n : Nat) (events : List Event) :
    cut limit n events = events := by
  have hnot (m : Nat) : limitReached limit m = false := by
    cases limit with
    | none => rfl
    | some l =>
      obtain rfl : l = 0 := h
      rfl
  induction events generalizing n with
  | nil => rfl
  | cons e events ih => rw [cut, hnot, if_neg Bool.false_ne_true, ih]

theorem cut_some {l : Int} (n : Nat) (h : (n : Int) < l) (events : List Event) :
    cut (some l) n events = events.take (l.toNat - n) := by
  induction events generalizing n with
  | nil => rw [cut, List.take_nil]
  | cons e events ih =>
    obtain ⟨k, hk⟩ : ∃ k, l.toNat - n = k + 1 := ⟨l.toNat - n - 1, by omega⟩
    rw [cut, hk, List.take_succ_cons]
    have hreached : limitReached (some l) (n + 1) = decide (l = n + 1) := by
      rw [Bool.eq_iff_iff]
      simp only [limitReached, Option.any_some, Bool.and_eq_true, bne_iff_ne, decide_eq_true_eq]
      omega
    rw [hreached]
    by_cases hl : l = n + 1
    · rw [if_pos (by simpa using hl)]
      obtain rfl : k = 0 := by omega
      rw [List.take_zero]
    · rw [if_neg (by simpa using hl), ih (n + 1) (by omega)]
      have hk' : l.toNat - (n + 1) = k := by omega
      rw [hk']

theorem cut_eq_cutTo {limit : Option Int} (h : ∀ l, limit = some l → 0 ≤ l) (events : List Event) :
    cut limit 0 events = cutTo limit events := by
  cases limit with
  | none => exact cut_none none rfl 0 events
  | some l =>
    have hl := h l rfl
    rw [cutTo]
    split_ifs with h0
    · exact cut_none (some l) h0 0 events
    · rw [cut_some 0 (by omega), Nat.sub_zero]

/-- All stored events, in the order of their ids. -/
def storedEvents (out : Outside) (files : FileStore) (curId : Int) : List Event :=
  (indices 0 curId false).filterMap (stored out files)

theorem indices_up (startId stop : Int) :
    indices startId stop false = (List.range (stop - startId).toNat).map fun (i : Nat) => startId + i :=
  rfl

theorem mem_indices {startId stop index : Int} {reverse : Bool} :
    index ∈ indices startId stop reverse ↔ startId ≤ index ∧ index < stop := by
  simp only [indices, List.mem_map, List.mem_range]
  cases reverse with
  | false =>
    simp only [Bool.false_eq_true, if_false]
    constructor
    · rintro ⟨i, hi, rfl⟩
      omega
    · rintro ⟨h1, h2⟩
      exact ⟨(index - startId).toNat, by omega, by omega⟩
  | true =>
    simp only [if_true]
    constructor
    · rintro ⟨i, hi, rfl⟩
      omega
    · rintro ⟨h1, h2⟩
      exact ⟨(stop - 1 - index).toNat, by omega, by omega⟩

theorem indices_pairwise (startId stop : Int) :
    (indices startId stop false).Pairwise (· < ·) := by
  rw [indices_up, List.pairwise_map]
  exact List.pairwise_lt_range.imp fun {i j} hij => by omega

theorem indices_reverse (startId stop : Int) :
    indices startId stop true = (indices startId stop false).reverse := by
  apply List.ext_getElem?
  intro j
  rw [indices_up, indices, List.getElem?_map]
  rcases Nat.lt_or_ge j (stop - startId).toNat with hlt | hge
  · rw [List.getElem?_range hlt, List.getElem?_reverse (by simpa using hlt), List.getElem?_map,
      List.length_map, List.length_range, List.getElem?_range (by omega)]
    simp only [if_true, Option.map_some, Option.some.injEq]
    omega
  · rw [List.getElem?_eq_none (by simpa using hge), List.getElem?_eq_none (by simpa using hge)]
    rfl

theorem stored_id (h : FilesSound out files) {id : Int} {e : Event}
    (he : stored out files id = some e) : e.id = id := by
  unfold stored at he
  rcases h id with ⟨e', hread, hid⟩ | hread
  · rw [hread] at he
    cases he
    exact hid
  · rw [hread] at he
    cases he

theorem stored_ordered (h : FilesSound out files) {is : List Int} (his : is.Pairwise (· < ·)) :
    Ordered (is.filterMap (stored out files)) := by
  refine List.Pairwise.filterMap _ (fun i j hij a ha b hb => ?_) his
  rw [stored_id h ha, stored_id h hb]
  exact hij

/-- Ordered lists with the same events are the same list. -/
theorem ordered_ext {xs ys : List Event} (hx : Ordered xs) (hy : Ordered ys)
    (h : ∀ e, e ∈ xs ↔ e ∈ ys) : xs = ys := by
  have nodup {zs : List Event} (hz : Ordered zs) : zs.Nodup :=
    hz.imp fun {a b} hab heq => by rw [heq] at hab; omega
  have hperm : xs.Perm ys := (List.perm_ext_iff_of_nodup (nodup hx) (nodup hy)).mpr h
  refine hperm.eq_of_pairwise (fun a b _ _ hab hba => ?_) hx hy
  omega

/-- The stored events of a range, when all of them lie below the current id. -/
theorem filterMap_indices (hfiles : FilesSound out files) {curId : Int}
    (hbound : ∀ id e, stored out files id = some e → 0 ≤ id ∧ id < curId) (startId stop : Int) :
    (indices startId stop false).filterMap (stored out files) =
      (storedEvents out files curId).filter fun e => startId ≤ e.id && e.id < stop := by
  apply ordered_ext (stored_ordered hfiles (indices_pairwise ..))
  · exact (stored_ordered hfiles (indices_pairwise ..)).filter _
  · intro e
    rw [List.mem_filter, storedEvents, List.mem_filterMap, List.mem_filterMap]
    simp only [mem_indices, Bool.and_eq_true, decide_eq_true_eq]
    constructor
    · rintro ⟨id, ⟨h1, h2⟩, he⟩
      have hid := stored_id hfiles he
      exact ⟨⟨id, hbound id e he, he⟩, by omega, by omega⟩
    · rintro ⟨⟨id, -, he⟩, h1, h2⟩
      have hid := stored_id hfiles he
      exact ⟨id, ⟨by omega, by omega⟩, he⟩

/-- A search gives the stored events of its range that pass, in its direction, up to the limit. -/
theorem searchEvents_range (hfiles : FilesSound out files) (hpages : PagesSound out files) {curId : Int}
    (hbound : ∀ id e, stored out files id = some e → 0 ≤ id ∧ id < curId) (startId : Int)
    (endId : Option Int) (reverse : Bool) (filter : Option (Event → Bool)) {limit : Option Int}
    (hlimit : ∀ l, limit = some l → 0 ≤ l) :
    searchEvents out files curId startId endId reverse filter limit =
      .ok (cutTo limit ((fun found => if reverse then found.reverse else found)
        ((storedEvents out files curId).filter fun e =>
          startId ≤ e.id && e.id ≤ endId.getD (curId - 1) && passes filter e))) := by
  have hup := filterMap_indices hfiles hbound startId ((endId.map (· + 1)).getD curId)
  have hstop (e : Event) : decide (e.id < (endId.map (· + 1)).getD curId) =
      decide (e.id ≤ endId.getD (curId - 1)) := by
    rw [decide_eq_decide]
    cases endId with
    | none => exact Int.le_sub_one_iff.symm
    | some last => exact Int.lt_add_one_iff
  have hrange : (((indices startId ((endId.map (· + 1)).getD curId) false).filterMap
        (stored out files)).filter (passes filter)) =
      (storedEvents out files curId).filter fun e =>
        startId ≤ e.id && e.id ≤ endId.getD (curId - 1) && passes filter e := by
    rw [hup, List.filter_filter]
    refine List.filter_congr fun e _ => ?_
    rw [hstop, Bool.and_comm]
  rw [searchEvents_spec hfiles hpages, cut_eq_cutTo hlimit]
  cases reverse with
  | false => rw [hrange]; rfl
  | true =>
    rw [indices_reverse, List.filterMap_reverse, List.filter_reverse, hrange]
    rfl

theorem mem_storedEvents (hfiles : FilesSound out files) {curId : Int}
    (hbound : ∀ id e, stored out files id = some e → 0 ≤ id ∧ id < curId) (e : Event) :
    e ∈ storedEvents out files curId ↔ EventStore.getEvent out files e.id = .ok e := by
  rw [storedEvents, List.mem_filterMap]
  constructor
  · rintro ⟨id, -, he⟩
    have hid := stored_id hfiles he
    rw [hid]
    unfold stored at he
    rcases hfiles id with ⟨e', hread, -⟩ | hread
    · rw [hread] at he ⊢
      cases he
      rfl
    · rw [hread] at he
      cases he
  · intro hread
    have he : stored out files e.id = some e := by
      rw [stored, hread]
      rfl
    exact ⟨e.id, mem_indices.mpr (hbound e.id e he), he⟩

end EventStore

/-! ## Reads at any point of a run -/

namespace EventStream

open EventStore

variable {out : Outside} {s : EventStream}

theorem ReadsAs.getEvent {files : FileStore} {id : Int} {data : Dict} (h : ReadsAs out data id)
    (hfile : Assoc.get? (.event id) files = some (Json.dumps (.obj data))) :
    ∃ e, EventStore.getEvent out files id = .ok e ∧ eventFromDict out data = .ok e ∧ e.id = id := by
  obtain ⟨hwf, -, e, hread, hid⟩ := h
  refine ⟨e, ?_, hread, hid⟩
  have hload : Json.loads (Json.dumps (.obj data)) = some (.obj data) := Json.loads_dumps hwf
  simp only [EventStore.getEvent, FileStore.read, hfile, Except.bind, parse, hload, readDict, hread]

theorem Invariant.filesSound (h : Invariant out s) : FilesSound out s.files := by
  intro id
  cases hfile : Assoc.get? (.event id) s.files with
  | none =>
    refine .inr ?_
    simp only [EventStore.getEvent, FileStore.read, hfile, Except.bind]
  | some content =>
    obtain ⟨-, -, data, rfl, hread⟩ := h.files id content hfile
    obtain ⟨e, he, -, hid⟩ := hread.getEvent hfile
    exact .inl ⟨e, he, hid⟩

theorem Invariant.stored_bound (h : Invariant out s) (id : Int) (e : Event)
    (he : stored out s.files id = some e) : 0 ≤ id ∧ id < s.curId := by
  cases hfile : Assoc.get? (.event id) s.files with
  | none =>
    simp only [stored, EventStore.getEvent, FileStore.read, hfile, Except.bind] at he
    cases he
  | some content =>
    obtain ⟨h1, h2, -⟩ := h.files id content hfile
    exact ⟨h1, h2⟩

theorem page_wellFormed {page : List Dict} (h : ∀ data ∈ page, DictWellFormed data) :
    (Json.arr (page.map .obj)).WellFormed := by
  rw [Json.WellFormed, Json.wellFormedItems_iff]
  intro v hv
  obtain ⟨data, hdata, rfl⟩ := List.mem_map.mp hv
  exact h data hdata

theorem Invariant.page_loads (h : Invariant out s) {start : Int} {content : List Char}
    (hfile : Assoc.get? (.cachePage start (start + CACHE_SIZE)) s.files = some content)
    (halign : start % CACHE_SIZE = 0) : ∃ page : List Dict,
      Json.loads content = some (.arr (page.map .obj)) ∧ page.length = CACHE_SIZE ∧
      PageHolds out s page start := by
  obtain ⟨page, rfl, hlen, hpage⟩ := h.pages start content hfile halign
  refine ⟨page, Json.loads_dumps (page_wellFormed fun data hdata => ?_), hlen, hpage⟩
  obtain ⟨j, hj⟩ := List.mem_iff_getElem?.mp hdata
  exact (hpage j data hj).1.1

theorem Invariant.pagesSound (h : Invariant out s) (hwhole : NotTorn s) :
    PagesSound out s.files := by
  intro index
  have halign : pageIndex index % CACHE_SIZE = 0 := by
    unfold pageIndex CACHE_SIZE
    omega
  cases hfile : Assoc.get? (.cachePage (pageIndex index) (pageIndex index + CACHE_SIZE)) s.files with
  | none =>
    refine ⟨⟨none, _, _⟩, ?_, covers_own index none, fun _ _ => .inl rfl⟩
    unfold pageIndex at hfile
    simp only [loadCachePageForIndex, loadCachePage, hfile]
  | some content =>
    obtain ⟨page, hload, hlen, hpage⟩ := h.page_loads hfile halign
    refine ⟨⟨some (page.map .obj), _, _⟩, ?_, covers_own index _, fun i hi => .inr ?_⟩
    · unfold pageIndex at hfile
      simp only [loadCachePageForIndex, loadCachePage, hfile, parse, hload, Except.bind]
    · simp only [CachePage.covers, Bool.and_eq_true, decide_eq_true_eq] at hi
      obtain ⟨j, hj⟩ : ∃ j : Nat, i = pageIndex index + j :=
        ⟨(i - pageIndex index).toNat, by unfold pageIndex; omega⟩
      have hlt : j < page.length := by
        rw [hlen]
        unfold pageIndex at hj
        omega
      have hdata : page[j]? = some page[j] := List.getElem?_eq_getElem hlt
      obtain ⟨hread, hevent⟩ := Invariant.pageHolds_files hwhole hfile halign hlen hpage hdata
      obtain ⟨e, hget, hfrom, -⟩ := hread.getEvent hevent
      have hindex : (i - (index - index % CACHE_SIZE)).toNat = j := by
        unfold pageIndex at hj
        omega
      have hitem : (page.map Json.obj)[j]? = some (.obj page[j]) := by
        rw [List.getElem?_map, hdata]
        rfl
      have hsome : (CachePage.mk (some (page.map .obj)) (index - index % CACHE_SIZE)
          (index - index % CACHE_SIZE + CACHE_SIZE)).getEvent out i = .ok (some e) := by
        unfold CachePage.getEvent
        rw [hindex]
        cases hmap : page.map Json.obj with
        | nil =>
          rw [hmap] at hitem
          cases hitem
        | cons first rest =>
          rw [hmap] at hitem
          simp only [hitem, readDict, hfrom, Except.map]
      exact ⟨e, hsome, by rw [hj]; exact hget⟩

/-- What a reader of the stream is owed. -/
structure ReadsAgree (out : Outside) (s : EventStream) : Prop where
  uncached : ∀ startId endId reverse filter limit,
    searchEvents out s.files s.curId startId endId reverse filter limit =
      searchEvents out (withoutPages s.files) s.curId startId endId reverse filter limit
  yields : ∃ events, Ordered events ∧
    (∀ e, e ∈ events ↔ EventStore.getEvent out s.files e.id = .ok e) ∧
    ∀ startId endId reverse filter limit, (∀ l, limit = some l → 0 ≤ l) →
      searchEvents out s.files s.curId startId endId reverse filter limit =
        .ok (cutTo limit ((fun found => if reverse then found.reverse else found)
          (events.filter fun e =>
            startId ≤ e.id && e.id ≤ endId.getD (s.curId - 1) && passes filter e)))
  pages : ∀ start content,
    Assoc.get? (.cachePage start (start + CACHE_SIZE)) s.files = some content →
    start % CACHE_SIZE = 0 → ∃ page : List Dict,
      Json.loads content = some (.arr (page.map .obj)) ∧ page.length = CACHE_SIZE ∧
      ∀ (j : Nat) (data : Dict), page[j]? = some data → ∃ e, eventFromDict out data = .ok e ∧
        e.id = start + j ∧ EventStore.getEvent out s.files (start + j) = .ok e

theorem Invariant.readsAgree (h : Invariant out s) (hwhole : NotTorn s) : ReadsAgree out s where
  uncached := searchEvents_withoutPages h.filesSound (h.pagesSound hwhole) s.curId
  yields := ⟨storedEvents out s.files s.curId, stored_ordered h.filesSound (indices_pairwise ..),
    mem_storedEvents h.filesSound h.stored_bound, fun startId endId reverse filter _ hlimit =>
      searchEvents_range h.filesSound (h.pagesSound hwhole) h.stored_bound startId endId reverse
        filter hlimit⟩
  pages := by
    intro start content hfile halign
    obtain ⟨page, hload, hlen, hpage⟩ := h.page_loads hfile halign
    refine ⟨page, hload, hlen, fun j data hj => ?_⟩
    obtain ⟨hread, hevent⟩ := Invariant.pageHolds_files hwhole hfile halign hlen hpage hj
    obtain ⟨e, hget, hfrom, hid⟩ := hread.getEvent hevent
    exact ⟨e, hfrom, hid, hget⟩

/-- In a run whose steps are all sound, reads agree whenever no stored page waits for an event. -/
theorem run_readsAgree {steps : List (Step out)} (hok : RunOk out steps)
    (hwhole : NotTorn (run out steps)) : ReadsAgree out (run out steps) :=
  (Invariant.run hok).readsAgree hwhole

theorem notTorn_of_noCalls (h : s.calls.length = 0) : NotTorn s := by
  intro c hc
  rw [List.eq_nil_of_length_eq_zero h] at hc
  cases hc

theorem stepOk_of_noPage (h : s.writePage.length = 0) {e : NewEvent out} {source : EventSource}
    {timestamp : String} : StepOk out s (.enter e source timestamp) := by
  intro _ _ start hstart
  rw [List.eq_nil_of_length_eq_zero h] at hstart
  cases hstart

theorem stepOk_of_prepared {e : NewEvent out} {source : EventSource} {timestamp : String}
    (h : (s.prepare out e.event source timestamp).toOption.isSome = true) :
    StepOk out s (.enter e source timestamp) := by
  rintro - ⟨err, herr⟩
  rw [herr] at h
  cases h

/-! A call that raises between the first event of a page and its last shifts the page by one. -/

theorem wellFormed_hello : Event.WellFormed plainOutside { body := .action (.message { content := "hello" }) } where
  args a ha := by
    cases ha
    simp [DictWellFormed, Action.args, Json.ofOpt, Json.WellFormed, Json.WellFormedMembers]
  extras o ho := by cases ho
  response m hm := by cases hm

theorem wellFormed_bare : Event.WellFormed plainOutside { body := .plain } where
  args a ha := by cases ha
  extras o ho := by cases ho
  response m hm := by cases hm

def helloEvent : NewEvent plainOutside :=
  ⟨{ body := .action (.message { content := "hello" }) }, wellFormed_hello⟩

def bareEvent : NewEvent plainOutside := ⟨{ body := .plain }, wellFormed_bare⟩

def wholeCall (e : NewEvent plainOutside) : List (Step plainOutside) :=
  [.enter e .agent "2025", .write 0, .storePage 0, .deliver 0]

theorem run_readsAgree_restart :
    RunOk plainOutside (wholeCall helloEvent ++ [.restart] ++ wholeCall bareEvent) ∧
    NotTorn (run plainOutside (wholeCall helloEvent ++ [.restart] ++ wholeCall bareEvent)) ∧
    ReadsAgree plainOutside
      (run plainOutside (wholeCall helloEvent ++ [.restart] ++ wholeCall bareEvent)) := by
  have hok : RunOk plainOutside (wholeCall helloEvent ++ [.restart] ++ wholeCall bareEvent) := by
    refine ⟨stepOk_of_prepared (by decide +kernel), trivial, trivial, trivial, ?_,
      stepOk_of_noPage ?_, trivial, trivial, trivial, trivial⟩
    · exact notTorn_of_noCalls (by decide +kernel)
    · decide +kernel
  have hwhole : NotTorn
      (run plainOutside (wholeCall helloEvent ++ [.restart] ++ wholeCall bareEvent)) :=
    notTorn_of_noCalls (by decide +kernel)
  exact ⟨hok, hwhole, run_readsAgree hok hwhole⟩

def shiftedCalls : List (Step plainOutside) :=
  wholeCall helloEvent ++ wholeCall bareEvent ++ (List.replicate 24 (wholeCall helloEvent)).flatten

set_option maxRecDepth 100000 in
theorem run_shiftedPage :
    NotTorn (run plainOutside shiftedCalls) ∧
    ¬ ReadsAgree plainOutside (run plainOutside shiftedCalls) := by
  refine ⟨notTorn_of_noCalls (by decide +kernel), fun h => ?_⟩
  · have hids : ((searchEvents plainOutside (run plainOutside shiftedCalls).files
          (run plainOutside shiftedCalls).curId 1 (some 1) false none none).map
            fun events => events.map Event.id) ≠
        ((searchEvents plainOutside (withoutPages (run plainOutside shiftedCalls).files)
          (run plainOutside shiftedCalls).curId 1 (some 1) false none none).map
            fun events => events.map Event.id) := by
      decide +kernel
    rw [h.uncached 1 (some 1) false none none] at hids
    exact hids rfl

end EventStream

end OpenHands
