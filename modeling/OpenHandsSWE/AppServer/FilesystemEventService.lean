import OpenHandsSWE.Lib.Paging
import OpenHandsSWE.Lib.Text
import OpenHandsSWE.Utils.SearchUtils

/-! The events of the app server, one file each: a search that filters the files by their names and
hands out the events page by page. -/

namespace OpenHands

namespace FilesystemEventService

/-- A file below the directory of a conversation, with the event in it when it can be read. -/
structure EventFile (α : Type) where
  dir : List Char
  name : List Char
  event : Option α

/-- What stands around the service: how texts are read as ids and times, and who may read what. -/
structure Surroundings where
  Uuid : Type
  str : Uuid → List Char
  uuid : List Char → Option Uuid
  strptime : List Char → Option Int
  permitted : Uuid → Bool
  eventsDir : List Char

/-- A moment to compare with; one with an offset cannot be compared with the times in the names. -/
structure QueryTime where
  moment : Int
  hasOffset : Bool := false

structure Query (env : Surroundings) where
  conversationId : Option env.Uuid := none
  kind : Option (List Char) := none
  timestampGte : Option QueryTime := none
  timestampLt : Option QueryTime := none
  descending : Bool := false

variable {env : Surroundings} {α : Type}

/-- `glob` passes over hidden names. -/
def hidden (name : List Char) : Bool := name.head? = some '.'

def pathLE (f g : EventFile α) : Prop := f.dir < g.dir ∨ f.dir = g.dir ∧ f.name ≤ g.name

instance : DecidableRel (pathLE (α := α)) := fun _ _ => inferInstanceAs (Decidable (_ ∨ _))

def getEventFiles (files : List (EventFile α)) (conversationId : Option env.Uuid) : List (EventFile α) :=
  (files.filter fun f => !hidden f.name && match conversationId with
    | some id => decide (f.dir = env.str id)
    | none => !hidden f.dir).insertionSort pathLE

structure FileName where
  timestamp : List Char
  kind : List Char
  eventId : List Char

def parseFilename (name : List Char) : Option FileName :=
  match Text.split ['_'] name with
  | timestamp :: kind :: rest =>
    match rest.getLast? with
    | some eventId => some ⟨timestamp, List.intercalate ['_'] (kind :: rest.dropLast), eventId⟩
    | none => none
  | _ => none

def filterByConversation (files : List (EventFile α)) : List (EventFile α) :=
  files.filter fun f => ((env.uuid f.dir).map env.permitted).getD false

/-- `file_timestamp < t`. -/
def before (fileTimestamp : Int) (t : QueryTime) : Except PyError Bool :=
  if t.hasOffset then .error (.typeError "can't compare offset-naive and offset-aware datetimes")
  else .ok (fileTimestamp < t.moment)

def matchesTime (q : Query env) (timestamp : List Char) : Except PyError Bool :=
  if q.timestampGte.isNone ∧ q.timestampLt.isNone then .ok true
  else
    match env.strptime timestamp with
    | none => .ok false
    | some fileTimestamp => do
      if ← (q.timestampGte.map (before fileTimestamp)).getD (.ok false) then return false
      match q.timestampLt with
      | none => return true
      | some t => before fileTimestamp t

def path (f : EventFile α) : List Char := env.eventsDir ++ '/' :: f.dir ++ '/' :: f.name

/-- One round of `_filter_files_by_criteria`. -/
def matchesCriteria (q : Query env) (f : EventFile α) : Except PyError Bool :=
  if (q.conversationId.map fun id => !decide (env.str id <:+: @path env _ f)).getD false then .ok false
  else
    match parseFilename f.name with
    | none => .ok false
    | some info =>
      if (q.kind.map fun kind => decide (kind ≠ [] ∧ info.kind ≠ kind)).getD false then .ok false
      else matchesTime q info.timestamp

def filterByCriteria (q : Query env) : List (EventFile α) → Except PyError (List (EventFile α))
  | [] => .ok []
  | f :: files =>
    (matchesCriteria q f).bind fun found =>
      (filterByCriteria q files).map fun rest => if found then f :: rest else rest

def sortFiles (descending : Bool) (files : List (EventFile α)) : List (EventFile α) :=
  if descending then files.insertionSort fun f g => g.name ≤ f.name
  else files.insertionSort fun f g => f.name ≤ g.name

def startIndex (files : List (EventFile α)) : Option (List Char) → Nat
  | none | some [] => 0
  | some pageId => ((files.findIdx? fun f => decide (f.name = pageId)).map (· + 1)).getD 0

def page (files : List (EventFile α)) (pageId : Option (List Char)) (limit : Nat) : ResultSet α :=
  let start := startIndex files pageId
  { results := ((files.drop start).take limit).filterMap EventFile.event
    nextPageId := if start + limit < files.length then (files[start + limit]?).map EventFile.name else none }

/-- The files of a search, in the order of the pages. -/
def searchFiles (q : Query env) (files : List (EventFile α)) : Except PyError (List (EventFile α)) :=
  (filterByCriteria q (@filterByConversation env _ (getEventFiles files q.conversationId))).map
    (sortFiles q.descending)

def searchEvents (q : Query env) (files : List (EventFile α)) (pageId : Option (List Char)) (limit : Nat) :
    Except PyError (ResultSet α) :=
  (searchFiles q files).map fun files => page files pageId limit

/-- Following the page ids gives what one call gives whose page has room for every file. -/
def PagesComplete (q : Query env) (files : List (EventFile α)) (limit : Nat) : Prop :=
  ∃ items fuel, searchEvents q files none files.length = .ok { results := items } ∧
    iterate (fun pageId => searchEvents q files pageId limit) fuel none = some (items, none)

/-! ## The files of a search -/

section Files

variable {q : Query env} {files found : List (EventFile α)}

theorem filterByCriteria_spec (q : Query env) (files : List (EventFile α)) :
    ((∃ found, filterByCriteria q files = .ok found) ↔ ∀ f ∈ files, ∀ err, matchesCriteria q f ≠ .error err) ∧
      ∀ found, filterByCriteria q files = .ok found →
        found.Sublist files ∧ ∀ f ∈ found, matchesCriteria q f = .ok true := by
  induction files with
  | nil =>
    refine ⟨iff_of_true ⟨[], rfl⟩ (fun f hf => absurd hf List.not_mem_nil), fun found hok => ?_⟩
    cases hok
    exact ⟨List.Sublist.refl [], fun f hf => absurd hf List.not_mem_nil⟩
  | cons f files ih =>
    rw [filterByCriteria, List.forall_mem_cons]
    cases hf : matchesCriteria q f with
    | error err =>
      refine ⟨iff_of_false ?_ fun h => h.1 err rfl, fun found hok => ?_⟩
      · rintro ⟨found, hok⟩
        cases hok
      · cases hok
    | ok matched =>
      have hno : ∀ err, (Except.ok matched : Except PyError Bool) ≠ .error err := fun err h => nomatch h
      rw [and_iff_right hno, ← ih.1]
      constructor
      · constructor
        · rintro ⟨found, hok⟩
          obtain ⟨rest, hrest, -⟩ := Py.map_ok hok
          exact ⟨rest, hrest⟩
        · rintro ⟨rest, hrest⟩
          exact ⟨_, congrArg (Except.map _) hrest⟩
      · intro found hok
        obtain ⟨rest, hrest, rfl⟩ := Py.map_ok hok
        obtain ⟨hsub, hall⟩ := ih.2 rest hrest
        cases matched with
        | false => exact ⟨hsub.cons f, hall⟩
        | true => exact ⟨hsub.cons_cons f, List.forall_mem_cons.mpr ⟨hf, hall⟩⟩

theorem sortFiles_perm (descending : Bool) (files : List (EventFile α)) : (sortFiles descending files).Perm files := by
  unfold sortFiles
  split_ifs
  · exact List.perm_insertionSort _ _
  · exact List.perm_insertionSort _ _

/-- What a search finds keeps the names apart, and none of them is empty. -/
theorem searchFiles_spec (hok : searchFiles q files = .ok found) (hnames : (files.map EventFile.name).Nodup) :
    (found.map EventFile.name).Nodup ∧ (∀ f ∈ found, f.name ≠ []) ∧ found.length ≤ files.length := by
  obtain ⟨matched, hmatched, rfl⟩ := Py.map_ok hok
  obtain ⟨hsub, hall⟩ := (filterByCriteria_spec q _).2 matched hmatched
  have hperm := sortFiles_perm q.descending matched
  have hglob : (getEventFiles files q.conversationId).Subperm files :=
    (List.perm_insertionSort _ _).subperm.trans List.filter_sublist.subperm
  have hmatchedSub : matched.Subperm files :=
    (hsub.trans List.filter_sublist).subperm.trans hglob
  refine ⟨?_, fun f hf hempty => ?_, ?_⟩
  · obtain ⟨kept, hkept, hsubFiles⟩ := hmatchedSub
    have hnodup : (kept.map EventFile.name).Nodup := hnames.sublist (hsubFiles.map EventFile.name)
    exact ((hperm.trans hkept.symm).map EventFile.name).nodup_iff.mpr hnodup
  · have hmatches := hall f (hperm.mem_iff.mp hf)
    have hnone : parseFilename f.name = none := by
      rw [hempty]
      rfl
    unfold matchesCriteria at hmatches
    rw [hnone] at hmatches
    split_ifs at hmatches
    · cases hmatches
    · cases hmatches
  · rw [hperm.length_eq]
    exact hmatchedSub.length_le

end Files

/-! ## Page after page -/

section Pages

variable {found : List (EventFile α)}

/-- The page that starts with a name starts after the file of that name. -/
theorem startIndex_name (hnames : (found.map EventFile.name).Nodup) (hne : ∀ f ∈ found, f.name ≠ []) {i : Nat}
    (hi : i < found.length) : startIndex found (some found[i].name) = i + 1 := by
  have hfind : found.findIdx? (fun f => decide (f.name = found[i].name)) = some i := by
    rw [List.findIdx?_eq_some_iff_getElem]
    refine ⟨hi, decide_eq_true rfl, fun j hj => ?_⟩
    rw [Bool.not_eq_true, decide_eq_false_iff_not]
    intro heq
    have hmap : (found.map EventFile.name)[j]? = (found.map EventFile.name)[i]? := by
      rw [List.getElem?_map, List.getElem?_map, List.getElem?_eq_getElem hi, List.getElem?_eq_getElem (hj.trans hi)]
      exact congrArg some heq
    have hindex := (List.getElem?_inj (by rw [List.length_map]; exact hj.trans hi) hnames).mp hmap
    exact absurd hindex hj.ne
  unfold startIndex
  split
  next h => cases h
  next h => exact absurd (Option.some.inj h) (hne _ (List.getElem_mem hi))
  next pageId _ h =>
    rw [← Option.some.inj h, hfind]
    rfl

theorem iterate_pages (hnames : (found.map EventFile.name).Nodup) (hne : ∀ f ∈ found, f.name ≠ []) (limit : Nat)
    (pageId : Option (List Char)) : ∃ fuel, iterate (fun pageId => .ok (page found pageId limit)) fuel pageId =
      some ((Paging.leaveOut limit limit (found.drop (startIndex found pageId))).filterMap EventFile.event, none) := by
  induction hn : found.length - startIndex found pageId using Nat.strong_induction_on generalizing pageId with
  | _ n ih =>
    have hsplit := @Paging.leaveOut_eq _ limit limit (found.drop (startIndex found pageId))
    rw [List.drop_drop] at hsplit
    by_cases hmore : startIndex found pageId + limit < found.length
    · have hstart := startIndex_name hnames hne hmore
      obtain ⟨fuel, hfuel⟩ := ih (found.length - (startIndex found pageId + limit + 1)) (by omega)
        (some found[startIndex found pageId + limit].name) (by rw [hstart])
      refine ⟨fuel + 1, ?_⟩
      rw [iterate, page]
      dsimp only
      rw [if_pos hmore, List.getElem?_eq_getElem hmore]
      dsimp only [Option.map_some]
      rw [hfuel, hstart, hsplit, List.filterMap_append]
      rfl
    · refine ⟨1, ?_⟩
      have hend : found.drop (startIndex found pageId + (limit + 1)) = [] := List.drop_eq_nil_of_le (by omega)
      rw [iterate, page]
      dsimp only
      rw [if_neg hmore, hsplit, hend]
      dsimp only
      rw [Paging.leaveOut, List.append_nil]

theorem page_all {limit : Nat} (h : found.length ≤ limit) :
    page found none limit = { results := found.filterMap EventFile.event } := by
  have hstart : startIndex found none = 0 := rfl
  rw [page, hstart, List.drop_zero, List.take_of_length_le h, Nat.zero_add, if_neg (not_lt.mpr h)]

/-- The pages are complete exactly when the search raises nothing and every file that a page id names,
which is one after every `limit` files, cannot be read anyway. -/
theorem pagesComplete_iff (q : Query env) (files : List (EventFile α)) (limit : Nat)
    (hnames : (files.map EventFile.name).Nodup) : PagesComplete q files limit ↔
      (∀ f ∈ @filterByConversation env _ (getEventFiles files q.conversationId),
        ∀ err, matchesCriteria q f ≠ .error err) ∧
      ∀ found, searchFiles q files = .ok found →
        ∀ i f, found[i]? = some f → i % (limit + 1) = limit → f.event = none := by
  have hraises := (filterByCriteria_spec q (@filterByConversation env _ (getEventFiles files q.conversationId))).1
  rw [← hraises]
  cases hsearch : filterByCriteria q (@filterByConversation env _ (getEventFiles files q.conversationId)) with
  | error err =>
    refine iff_of_false ?_ fun h => nomatch h.1
    rintro ⟨items, fuel, hall, -⟩
    rw [searchEvents, searchFiles, hsearch] at hall
    cases hall
  | ok matched =>
    have hfiles : searchFiles q files = .ok (sortFiles q.descending matched) := by rw [searchFiles, hsearch]; rfl
    obtain ⟨hnodup, hne, hlength⟩ := searchFiles_spec hfiles hnames
    obtain ⟨fuel, hfuel⟩ := iterate_pages hnodup hne limit none
    have hpages : (fun pageId => searchEvents q files pageId limit) =
        fun pageId => .ok (page (sortFiles q.descending matched) pageId limit) := by
      funext pageId
      rw [searchEvents, hfiles]
      rfl
    have hone : searchEvents q files none files.length =
        .ok { results := (sortFiles q.descending matched).filterMap EventFile.event } := by
      rw [searchEvents, hfiles]
      exact congrArg Except.ok (page_all hlength)
    have hcomplete : PagesComplete q files limit ↔
        (Paging.leaveOut limit limit (sortFiles q.descending matched)).filterMap EventFile.event =
          (sortFiles q.descending matched).filterMap EventFile.event := by
      constructor
      · rintro ⟨items, fuel', hall, hiterate⟩
        rw [hpages] at hiterate
        have hitems := congrArg Prod.fst (iterate_unique hfuel hiterate)
        rw [hone] at hall
        have hresults := congrArg ResultSet.results (Except.ok.inj hall)
        exact hitems.trans hresults.symm
      · intro heq
        refine ⟨_, fuel, hone, ?_⟩
        rw [hpages, hfuel, ← heq]
        rfl
    rw [hcomplete, Paging.filterMap_leaveOut_iff EventFile.event le_rfl, hfiles]
    constructor
    · exact fun h => ⟨⟨matched, rfl⟩, fun found hfound => Except.ok.inj hfound ▸ h⟩
    · exact fun h => h.2 _ rfl

/-! Files of one conversation. -/

def home : Surroundings where
  Uuid := List Char
  str := id
  uuid := some
  strptime _ := none
  permitted _ := true
  eventsDir := ['/', 'e']

def eventFile (id : Char) (event : Option Nat) : EventFile Nat := ⟨['c'], ['1', '_', 'K', '_', id], event⟩

def unreadableBetween : List (EventFile Nat) := [eventFile 'a' (some 0), eventFile 'b' none, eventFile 'c' (some 2)]

theorem pagesComplete_unreadableBetween : @PagesComplete home _ {} unreadableBetween 1 := by
  refine (pagesComplete_iff {} unreadableBetween 1 (by decide)).mpr ⟨?_, fun found hfound i f hf hi => ?_⟩
  · exact (filterByCriteria_spec _ _).1.mp ⟨unreadableBetween, rfl⟩
  · obtain rfl : unreadableBetween = found := Except.ok.inj ((rfl : _ = _).trans hfound)
    match i with
    | 0 => cases hi
    | 1 => rw [← Option.some.inj hf]; rfl
    | 2 => cases hi
    | i + 3 => cases hf

/-- The file that the page id names is on neither page. -/
theorem pages_skip : ¬ ∀ (env : Surroundings) (q : Query env) (files : List (EventFile Nat)) (limit : Nat),
    1 ≤ limit → (files.map EventFile.name).Nodup → PagesComplete q files limit := by
  intro h
  obtain ⟨items, fuel, hall, hiterate⟩ :=
    h home {} [eventFile 'a' (some 0), eventFile 'b' (some 1)] 1 le_rfl (by decide)
  have hpages : iterate (fun pageId => @searchEvents home _ {} [eventFile 'a' (some 0), eventFile 'b' (some 1)]
      pageId 1) 2 none = some ([0], none) := rfl
  have hitems := congrArg Prod.fst (iterate_unique hpages hiterate)
  have hone : [0, 1] = items := congrArg ResultSet.results (Except.ok.inj hall)
  exact absurd (hone.trans hitems.symm) (by decide)

end Pages

end FilesystemEventService

end OpenHands
