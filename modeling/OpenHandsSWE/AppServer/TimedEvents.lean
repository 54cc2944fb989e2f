import OpenHandsSWE.AppServer.FilesystemEventService
import OpenHandsSWE.Lib.CompactTime

/-! Events that are saved under the seconds of their times, and searched for and counted by time. -/

namespace OpenHands.TimedEvents

open FilesystemEventService

/-- The id is in hexadecimal digits. -/
structure TimedEvent where
  timestamp : DateTime
  kind : List Char
  idHex : List Char
  date : timestamp.IsDate
  hid : '_' ∉ idHex

namespace TimedEvent

def time (e : TimedEvent) : Nat := e.timestamp.ticks

/-- The time cut to the second. -/
def cut (e : TimedEvent) : Nat := e.timestamp.seconds * 1000000

/-- What stands behind the time in the name. -/
def label (e : TimedEvent) : List Char := e.kind ++ '_' :: e.idHex

def filename (e : TimedEvent) : List Char := e.timestamp.compact ++ '_' :: e.label

end TimedEvent

/-- A uuid is read back from its text, no text of one is a hidden name, and times are read as `strptime` reads them. -/
structure Standard (env : Surroundings) : Prop where
  strptime : ∀ text, env.strptime text = (DateTime.readCompact text).map fun seconds => ((seconds * 1000000 : Nat) : Int)
  uuid_str : ∀ id, env.uuid (env.str id) = some id
  visible : ∀ id, FilesystemEventService.hidden (env.str id) = false

variable {env : Surroundings} {zone : Option Int}

/-- An event is saved for a conversation that the service may read. -/
structure Saved (env : Surroundings) where
  conversationId : env.Uuid
  event : TimedEvent
  permitted : env.permitted conversationId = true

/-- All times have the same offset, or none. -/
structure SavedEvents (env : Surroundings) (zone : Option Int) where
  saved : List (Saved env)
  ids : (saved.map fun s => s.event.idHex).Nodup
  zoned : ∀ s ∈ saved, s.event.timestamp.offset = zone

def Saved.file (s : Saved env) : EventFile TimedEvent := ⟨env.str s.conversationId, s.event.filename, some s.event⟩

def SavedEvents.files (all : SavedEvents env zone) : List (EventFile TimedEvent) := all.saved.map Saved.file

def SavedEvents.events (all : SavedEvents env zone) : List TimedEvent := all.saved.map Saved.event

def Bound (zone : Option Int) : Type := { d : DateTime // d.offset = zone }

def Bound.time (b : Bound zone) : Nat := b.1.ticks

def queryTime (b : Bound zone) : QueryTime := ⟨b.time, b.1.offset.isSome⟩

def query (env : Surroundings) (gte lt : Option (Bound zone)) (descending : Bool) : Query env where
  timestampGte := gte.map queryTime
  timestampLt := lt.map queryTime
  descending := descending

def countEvents (q : Query env) (files : List (EventFile TimedEvent)) : Except PyError Nat :=
  (filterByCriteria q (@filterByConversation env _ (getEventFiles files q.conversationId))).map List.length

/-- `timestamp__gte <= time < timestamp__lt`. -/
def Within (gte lt : Option (Bound zone)) (time : Nat) : Prop := (∀ b ∈ gte, b.time ≤ time) ∧ ∀ b ∈ lt, time < b.time

instance (gte lt : Option (Bound zone)) (time : Nat) : Decidable (Within gte lt time) :=
  inferInstanceAs (Decidable (_ ∧ _))

def inOrder (descending : Bool) (e f : TimedEvent) : Prop := if descending then f.time ≤ e.time else e.time ≤ f.time

/-- A page with room for all events has those within the bounds, in order, and their number is counted. -/
def RespectsTime (all : SavedEvents env zone) (gte lt : Option (Bound zone)) (descending : Bool) : Prop :=
  countEvents (query env gte lt descending) all.files =
    .ok (all.events.filter fun e => decide (Within gte lt e.time)).length ∧
  ∀ limit, all.saved.length ≤ limit → ∃ items,
    searchEvents (query env gte lt descending) all.files none limit = .ok { results := items } ∧
      items.Perm (all.events.filter fun e => decide (Within gte lt e.time)) ∧ items.Pairwise (inOrder descending)

/-- The bounds can be compared with the times in the names, cutting a time to its second takes no event across a
bound, and within a second the names are in the order of the times. -/
structure Unambiguous (all : SavedEvents env zone) (gte lt : Option (Bound zone)) : Prop where
  comparable : zone = none ∨ (gte = none ∧ lt = none) ∨ all.saved = []
  bounds : ∀ e ∈ all.events, Within gte lt e.cut ↔ Within gte lt e.time
  names : ∀ e ∈ all.events, ∀ f ∈ all.events, Within gte lt e.time → Within gte lt f.time → e.cut = f.cut →
    e.time < f.time → e.label < f.label

/-! ## The names -/

section Names

variable {e f : TimedEvent} {gte lt : Option (Bound zone)} {descending : Bool} {all : SavedEvents env zone} {s : Saved env}

/-- Names are ordered by the seconds first. -/
theorem filename_lt_iff : e.filename < f.filename ↔ e.cut < f.cut ∨ e.cut = f.cut ∧ e.label < f.label := by
  unfold TimedEvent.filename TimedEvent.cut
  rw [DateTime.compact_append_lt_iff, List.cons_lt_cons_iff, Nat.mul_lt_mul_right (by decide),
    Nat.mul_left_inj (by decide)]
  simp

theorem time_lt_of_cut_lt (h : e.cut < f.cut) : e.time < f.time :=
  DateTime.ticks_lt_of_seconds_lt (Nat.lt_of_mul_lt_mul_right h)

theorem underscore_notMem_padded (width n : Nat) : '_' ∉ padded width n := by
  have hdigit : ∀ k < 10, '_' ≠ Nat.digitChar k := by decide
  induction width generalizing n with
  | zero => exact List.not_mem_nil
  | succ width ih =>
    rw [padded, List.mem_append, List.mem_singleton]
    exact not_or.mpr ⟨ih (n / 10), hdigit _ (Nat.mod_lt n (by decide))⟩

theorem underscore_notMem_compact (d : DateTime) : '_' ∉ d.compact := by
  simp only [DateTime.compact, List.mem_append, not_or]
  exact ⟨underscore_notMem_padded _ _, underscore_notMem_padded _ _, underscore_notMem_padded _ _,
    underscore_notMem_padded _ _, underscore_notMem_padded _ _, underscore_notMem_padded _ _⟩

/-- The time of an event is read from its name. -/
theorem parseFilename_filename (e : TimedEvent) : ∃ info, parseFilename e.filename = some info ∧
    info.timestamp = e.timestamp.compact := by
  have hsplit : Text.split ['_'] e.filename = e.timestamp.compact :: (Text.split ['_'] e.kind ++ [e.idHex]) := by
    rw [TimedEvent.filename, TimedEvent.label, Text.split_append_letter (underscore_notMem_compact _),
      Text.split_append_append, Text.split_of_notMem e.hid]
  obtain ⟨piece, pieces, hpieces⟩ := List.exists_cons_of_ne_nil (Text.split_ne_nil ['_'] e.kind)
  rw [parseFilename, hsplit, hpieces]
  dsimp only [List.cons_append]
  rw [List.getLast?_append_of_ne_nil _ (List.cons_ne_nil _ _)]
  exact ⟨_, rfl, rfl⟩

theorem filename_visible (e : TimedEvent) : FilesystemEventService.hidden e.filename = false := by
  have hdigit : ∀ k < 10, Nat.digitChar k ≠ '.' := by decide
  have hhead : e.filename.head? = some (Nat.digitChar (e.timestamp.year / 10 / 10 / 10 % 10)) := rfl
  rw [FilesystemEventService.hidden, hhead, decide_eq_false]
  exact fun h => hdigit _ (Nat.mod_lt _ (by decide)) (Option.some.inj h)

end Names

/-! ## The files of a search -/

section Search

variable {gte lt : Option (Bound zone)} {descending : Bool} {all : SavedEvents env zone} {s : Saved env}

theorem filterByCriteria_of_ok {q : Query env} {matched : EventFile TimedEvent → Bool} {files : List (EventFile TimedEvent)}
    (h : ∀ f ∈ files, matchesCriteria q f = .ok (matched f)) : filterByCriteria q files = .ok (files.filter matched) := by
  induction files with
  | nil => rfl
  | cons f files ih =>
    rw [filterByCriteria, h f List.mem_cons_self, ih fun g hg => h g (List.mem_cons_of_mem f hg), List.filter_cons]
    rfl

/-- The files of all conversations that may be read. -/
def listed (env : Surroundings) (files : List (EventFile TimedEvent)) : List (EventFile TimedEvent) :=
  @filterByConversation env TimedEvent (@getEventFiles env TimedEvent files none)

/-- Of the files of saved events none is passed over. -/
theorem listed_perm (henv : Standard env) (all : SavedEvents env zone) : (listed env all.files).Perm all.files := by
  have hfile {f : EventFile TimedEvent} (hf : f ∈ all.files) : ∃ s ∈ all.saved, s.file = f := List.mem_map.mp hf
  have hvisible : (all.files.filter fun f => !FilesystemEventService.hidden f.name &&
      !FilesystemEventService.hidden f.dir) = all.files := by
    refine List.filter_eq_self.mpr fun f hf => ?_
    obtain ⟨s, -, rfl⟩ := hfile hf
    have hname : FilesystemEventService.hidden s.file.name = false := filename_visible s.event
    have hdir : FilesystemEventService.hidden s.file.dir = false := henv.visible s.conversationId
    rw [hname, hdir]
    rfl
  have hlisted : (@getEventFiles env TimedEvent all.files none).Perm all.files := by
    unfold getEventFiles
    rw [hvisible]
    exact List.perm_insertionSort _ _
  have hpermitted : listed env all.files = @getEventFiles env TimedEvent all.files none := by
    refine List.filter_eq_self.mpr fun f hf => ?_
    obtain ⟨s, -, rfl⟩ := hfile (hlisted.mem_iff.mp hf)
    have hread : env.uuid s.file.dir = some s.conversationId := henv.uuid_str s.conversationId
    rw [hread, Option.map_some, Option.getD_some]
    exact s.permitted
  rw [hpermitted]
  exact hlisted

theorem strptime_compact (henv : Standard env) (e : TimedEvent) : env.strptime e.timestamp.compact = some (e.cut : Int) := by
  rw [henv.strptime, DateTime.readCompact_compact e.date]
  rfl

theorem matchesCriteria_eq (s : Saved env) : matchesCriteria (query env gte lt descending) s.file =
    matchesTime (query env gte lt descending) s.event.timestamp.compact := by
  obtain ⟨info, hinfo, htimestamp⟩ := parseFilename_filename s.event
  rw [← htimestamp, matchesCriteria, show s.file.name = s.event.filename from rfl, hinfo]
  rfl

theorem before_naive {b : Bound zone} (hzone : zone = none) (time : Nat) :
    before time (queryTime b) = .ok (decide (time < b.time)) := by
  have hoffset : b.1.offset.isSome = false := by
    rw [b.2, hzone]
    rfl
  rw [before, queryTime, hoffset, if_neg Bool.false_ne_true]
  exact congrArg Except.ok (decide_eq_decide.mpr Int.ofNat_lt)

theorem before_aware {b : Bound zone} {offset : Int} (hzone : zone = some offset) (time : Nat) :
    before time (queryTime b) = .error (.typeError "can't compare offset-naive and offset-aware datetimes") := by
  have hoffset : b.1.offset.isSome = true := by
    rw [b.2, hzone]
    rfl
  rw [before, queryTime, hoffset, if_pos rfl]

/-- A file is matched by the time in its name, when the bounds can be compared with it. -/
theorem matchesCriteria_file (henv : Standard env) (hcomparable : zone = none ∨ gte = none ∧ lt = none) (s : Saved env) :
    matchesCriteria (query env gte lt descending) s.file = .ok (decide (Within gte lt s.event.cut)) := by
  rw [matchesCriteria_eq, matchesTime]
  by_cases hnone : gte = none ∧ lt = none
  · -- without bounds the time is not read
    obtain ⟨rfl, rfl⟩ := hnone
    rw [if_pos ⟨rfl, rfl⟩]
    have hwithin : Within (none : Option (Bound zone)) none s.event.cut :=
      ⟨fun b hb => (by cases hb), fun b hb => (by cases hb)⟩
    rw [decide_eq_true hwithin]
  · have hzone := hcomparable.resolve_right hnone
    have hasked : ¬ ((query env gte lt descending).timestampGte.isNone = true ∧
        (query env gte lt descending).timestampLt.isNone = true) := by
      simpa [query] using hnone
    rw [if_neg hasked, strptime_compact henv]
    dsimp only [query]
    cases gte with
    | none =>
      cases lt with
      | none => exact absurd ⟨rfl, rfl⟩ hnone
      | some u =>
        have hwithin : Within none (some u) s.event.cut ↔ s.event.cut < u.time := by simp [Within]
        exact (before_naive hzone _).trans (congrArg Except.ok (decide_eq_decide.mpr hwithin.symm))
    | some t =>
      rw [Option.map_some, Option.map_some, Option.getD_some, before_naive hzone]
      by_cases hbefore : s.event.cut < t.time
      · have hwithin : ¬ Within (some t) lt s.event.cut := fun h => absurd hbefore (h.1 t rfl).not_gt
        rw [decide_eq_true hbefore, decide_eq_false hwithin]
        rfl
      · rw [decide_eq_false hbefore]
        cases lt with
        | none =>
          have hwithin : Within (some t) none s.event.cut :=
            ⟨fun b hb => (by cases hb; exact not_lt.mp hbefore), fun b hb => (by cases hb)⟩
          rw [decide_eq_true hwithin]
          rfl
        | some u =>
          have hwithin : Within (some t) (some u) s.event.cut ↔ s.event.cut < u.time := by
            simpa [Within] using fun _ => not_lt.mp hbefore
          exact (before_naive hzone _).trans (congrArg Except.ok (decide_eq_decide.mpr hwithin.symm))

theorem matchesCriteria_raises (henv : Standard env) {offset : Int} (hzone : zone = some offset)
    (hbound : ¬ (gte = none ∧ lt = none)) (s : Saved env) :
    ∃ err, matchesCriteria (query env gte lt descending) s.file = .error err := by
  have hasked : ¬ ((query env gte lt descending).timestampGte.isNone = true ∧
      (query env gte lt descending).timestampLt.isNone = true) := by
    simpa [query] using hbound
  rw [matchesCriteria_eq, matchesTime, if_neg hasked, strptime_compact henv]
  dsimp only [query]
  cases gte with
  | none =>
    cases lt with
    | none => exact absurd ⟨rfl, rfl⟩ hbound
    | some u => exact ⟨_, before_aware hzone _⟩
  | some t =>
    refine ⟨.typeError "can't compare offset-naive and offset-aware datetimes", ?_⟩
    rw [Option.map_some, Option.map_some, Option.getD_some, before_aware hzone]
    rfl

def matchedFile (gte lt : Option (Bound zone)) (f : EventFile TimedEvent) : Bool :=
  (f.event.map fun e => decide (Within gte lt e.cut)).getD false

theorem filterByCriteria_listed (henv : Standard env) (all : SavedEvents env zone)
    (hcomparable : zone = none ∨ (gte = none ∧ lt = none) ∨ all.saved = []) :
    filterByCriteria (query env gte lt descending) (listed env all.files) =
      .ok ((listed env all.files).filter (matchedFile gte lt)) := by
  refine filterByCriteria_of_ok fun f hf => ?_
  obtain ⟨s, hs, rfl⟩ := List.mem_map.mp ((listed_perm henv all).mem_iff.mp hf)
  refine matchesCriteria_file henv ?_ s
  rcases hcomparable with h | h | h
  · exact .inl h
  · exact .inr h
  · rw [h] at hs
    exact absurd hs List.not_mem_nil

theorem filterMap_matched (gte lt : Option (Bound zone)) (saved : List (Saved env)) :
    ((saved.map Saved.file).filter (matchedFile gte lt)).filterMap EventFile.event =
      (saved.map Saved.event).filter fun e => decide (Within gte lt e.cut) := by
  induction saved with
  | nil => rfl
  | cons s saved ih =>
    have hmatched : matchedFile gte lt s.file = decide (Within gte lt s.event.cut) := rfl
    rw [List.map_cons, List.map_cons, List.filter_cons, List.filter_cons, hmatched]
    by_cases h : Within gte lt s.event.cut
    · have hevent : s.file.event = some s.event := rfl
      rw [decide_eq_true h, if_pos rfl, if_pos rfl, List.filterMap_cons_some hevent, ih]
    · rw [decide_eq_false h, if_neg Bool.false_ne_true, if_neg Bool.false_ne_true, ih]

/-- What a page with room for all events holds. -/
def matchedEvents (all : SavedEvents env zone) (gte lt : Option (Bound zone)) (descending : Bool) : List TimedEvent :=
  (sortFiles descending ((listed env all.files).filter (matchedFile gte lt))).filterMap EventFile.event

theorem matchedEvents_perm (henv : Standard env) (all : SavedEvents env zone) : (matchedEvents all gte lt descending).Perm
    (all.events.filter fun e => decide (Within gte lt e.cut)) := by
  have hfiles := (sortFiles_perm descending ((listed env all.files).filter (matchedFile gte lt))).trans
    ((listed_perm henv all).filter (matchedFile gte lt))
  have hevents := hfiles.filterMap EventFile.event
  rwa [SavedEvents.files, filterMap_matched] at hevents

theorem searchEvents_eq (henv : Standard env) (all : SavedEvents env zone)
    (hcomparable : zone = none ∨ (gte = none ∧ lt = none) ∨ all.saved = []) {limit : Nat}
    (hlimit : all.saved.length ≤ limit) :
    searchEvents (query env gte lt descending) all.files none limit =
      .ok { results := matchedEvents all gte lt descending } := by
  have hfiles : searchFiles (query env gte lt descending) all.files =
      .ok (sortFiles descending ((listed env all.files).filter (matchedFile gte lt))) :=
    congrArg (Except.map (sortFiles descending)) (filterByCriteria_listed henv all hcomparable)
  have hlength : (sortFiles descending ((listed env all.files).filter (matchedFile gte lt))).length ≤ limit := by
    rw [(sortFiles_perm _ _).length_eq]
    refine (List.length_filter_le _ _).trans ?_
    rw [(listed_perm henv all).length_eq, SavedEvents.files, List.length_map]
    exact hlimit
  rw [searchEvents, hfiles]
  exact congrArg Except.ok (page_all hlength)

theorem countEvents_eq (henv : Standard env) (all : SavedEvents env zone)
    (hcomparable : zone = none ∨ (gte = none ∧ lt = none) ∨ all.saved = []) :
    countEvents (query env gte lt descending) all.files =
      .ok (all.events.filter fun e => decide (Within gte lt e.cut)).length := by
  have hcount : countEvents (query env gte lt descending) all.files =
      .ok ((listed env all.files).filter (matchedFile gte lt)).length :=
    congrArg (Except.map List.length) (filterByCriteria_listed henv all hcomparable)
  have hlength : ((listed env all.files).filter (matchedFile gte lt)).length = (all.saved.filter fun s =>
      decide (Within gte lt s.event.cut)).length := by
    rw [((listed_perm henv all).filter (matchedFile gte lt)).length_eq, SavedEvents.files, List.filter_map, List.length_map]
    rfl
  rw [hcount, hlength, SavedEvents.events, List.filter_map, List.length_map]
  rfl

/-! ## Two orders of one list -/

/-- A list in the order of its keys is in the order of its times when a later time has the larger key. -/
theorem pairwise_time_iff {α κ τ : Type*} [LinearOrder κ] [LinearOrder τ] {key : α → κ} {time : α → τ} {xs : List α}
    (hkeys : xs.Pairwise fun a b => key a ≤ key b) (hinj : ∀ a ∈ xs, ∀ b ∈ xs, key a = key b → a = b) :
    (xs.Pairwise fun a b => time a ≤ time b) ↔ ∀ a ∈ xs, ∀ b ∈ xs, time a < time b → key a < key b := by
  constructor
  · intro htimes a ha b hb hlt
    -- the two orders agree between any two elements, whichever comes first
    have hboth : xs.Pairwise fun a b => key a ≤ key b ∧ time a ≤ time b ∨ key b ≤ key a ∧ time b ≤ time a :=
      (hkeys.and htimes).imp fun h => .inl h
    have hsymm : Std.Symm fun a b => key a ≤ key b ∧ time a ≤ time b ∨ key b ≤ key a ∧ time b ≤ time a :=
      ⟨fun a b h => h.symm⟩
    rcases hboth.forall_of_forall (fun c _ => .inl ⟨le_rfl, le_rfl⟩) ha hb with h | h
    · exact lt_of_le_of_ne h.1 fun heq => hlt.ne (congrArg time (hinj a ha b hb heq))
    · exact absurd hlt h.2.not_gt
  · intro h
    refine hkeys.imp_of_mem fun {a b} ha hb hle => ?_
    by_contra hnot
    exact absurd (h b hb a ha (not_le.mp hnot)) hle.not_gt

end Search

/-! ## Searching by time -/

section Times

variable {gte lt : Option (Bound zone)} {descending : Bool} {all : SavedEvents env zone}

theorem filename_inj {e f : TimedEvent} (h : e.filename = f.filename) : e.idHex = f.idHex := by
  have hlast (e : TimedEvent) : (Text.split ['_'] e.filename).getLast? = some e.idHex := by
    rw [TimedEvent.filename, TimedEvent.label, Text.split_append_letter (underscore_notMem_compact _),
      Text.split_append_append, Text.split_of_notMem e.hid, ← List.cons_append,
      List.getLast?_append_of_ne_nil _ (List.cons_ne_nil _ _)]
    rfl
  exact Option.some.inj ((hlast e).symm.trans ((congrArg _ (congrArg _ h)).trans (hlast f)))

theorem event_ext (all : SavedEvents env zone) {e f : TimedEvent} (he : e ∈ all.events) (hf : f ∈ all.events)
    (h : e.filename = f.filename) : e = f := by
  have hids : (all.events.map TimedEvent.idHex).Nodup := by
    rw [SavedEvents.events, List.map_map]
    exact all.ids
  exact List.inj_on_of_nodup_map hids he hf (filename_inj h)

theorem matchedEvents_names (henv : Standard env) (all : SavedEvents env zone) :
    (matchedEvents all gte lt descending).Pairwise fun e f =>
      if descending then f.filename ≤ e.filename else e.filename ≤ f.filename := by
  have hname {f : EventFile TimedEvent} {e : TimedEvent} (hf : f ∈ sortFiles descending ((listed env all.files).filter
      (matchedFile gte lt))) (he : f.event = some e) : f.name = e.filename := by
    have hlisted := (List.mem_filter.mp ((sortFiles_perm _ _).mem_iff.mp hf)).1
    obtain ⟨s, -, rfl⟩ := List.mem_map.mp ((listed_perm henv all).mem_iff.mp hlisted)
    rw [← Option.some.inj he]
    rfl
  have hsorted : (sortFiles descending ((listed env all.files).filter (matchedFile gte lt))).Pairwise fun f g =>
      if descending then g.name ≤ f.name else f.name ≤ g.name := by
    cases descending with
    | true =>
      have htotal : Std.Total fun f g : EventFile TimedEvent => g.name ≤ f.name := ⟨fun f g => le_total _ _⟩
      have htrans : IsTrans (EventFile TimedEvent) fun f g => g.name ≤ f.name := ⟨fun f g h hfg hgh => hgh.trans hfg⟩
      have hpairwise := List.pairwise_insertionSort (fun f g : EventFile TimedEvent => g.name ≤ f.name)
        ((listed env all.files).filter (matchedFile gte lt))
      exact hpairwise
    | false =>
      have htotal : Std.Total fun f g : EventFile TimedEvent => f.name ≤ g.name := ⟨fun f g => le_total _ _⟩
      have htrans : IsTrans (EventFile TimedEvent) fun f g => f.name ≤ g.name := ⟨fun f g h hfg hgh => hfg.trans hgh⟩
      have hpairwise := List.pairwise_insertionSort (fun f g : EventFile TimedEvent => f.name ≤ g.name)
        ((listed env all.files).filter (matchedFile gte lt))
      exact hpairwise
  refine List.Pairwise.filterMap EventFile.event (R := fun f g => (∀ e, f.event = some e → f.name = e.filename) ∧
    (∀ e, g.event = some e → g.name = e.filename) ∧ if descending then g.name ≤ f.name else f.name ≤ g.name) ?_ ?_
  · rintro f g ⟨hf, hg, hle⟩ e he e' he'
    rwa [hf e he, hg e' he'] at hle
  · exact hsorted.imp_of_mem fun hf hg hle => ⟨fun e he => hname hf he, fun e he => hname hg he, hle⟩

theorem inOrder_iff (henv : Standard env) (all : SavedEvents env zone) :
    (matchedEvents all gte lt descending).Pairwise (inOrder descending) ↔
      ∀ e ∈ matchedEvents all gte lt descending, ∀ f ∈ matchedEvents all gte lt descending,
        e.time < f.time → e.filename < f.filename := by
  have hnames := @matchedEvents_names env zone gte lt descending henv all
  have hinj : ∀ e ∈ matchedEvents all gte lt descending, ∀ f ∈ matchedEvents all gte lt descending,
      e.filename = f.filename → e = f := fun e he f hf =>
    event_ext all (List.mem_filter.mp ((matchedEvents_perm henv all).mem_iff.mp he)).1
      (List.mem_filter.mp ((matchedEvents_perm henv all).mem_iff.mp hf)).1
  cases descending with
  | false => exact pairwise_time_iff hnames hinj
  | true =>
    -- the same in the dual orders
    have hdual := @pairwise_time_iff TimedEvent (List Char)ᵒᵈ Natᵒᵈ _ _ (fun e => OrderDual.toDual e.filename)
      (fun e => OrderDual.toDual e.time) _ hnames hinj
    exact hdual.trans ⟨fun h e he f hf hlt => h f hf e he hlt, fun h e he f hf hlt => h f hf e he hlt⟩

theorem filename_lt_iff_label {e f : TimedEvent} (h : e.time < f.time) :
    e.filename < f.filename ↔ (e.cut = f.cut → e.label < f.label) := by
  rw [filename_lt_iff]
  constructor
  · rintro (hlt | ⟨-, hlabel⟩) heq
    · exact absurd heq hlt.ne
    · exact hlabel
  · intro hlabel
    rcases Nat.lt_trichotomy e.cut f.cut with hlt | heq | hgt
    · exact .inl hlt
    · exact .inr ⟨heq, hlabel heq⟩
    · exact absurd h (time_lt_of_cut_lt hgt).not_gt

/-- The bounds can be compared with the times in the names when the search does not raise. -/
theorem comparable_of_count (henv : Standard env) {n : Nat}
    (h : countEvents (query env gte lt descending) all.files = .ok n) :
    zone = none ∨ (gte = none ∧ lt = none) ∨ all.saved = [] := by
  obtain ⟨found, hfound, -⟩ := Py.map_ok h
  have hraises := (filterByCriteria_spec (query env gte lt descending) (listed env all.files)).1.mp ⟨found, hfound⟩
  by_contra hnot
  -- the first file whose time is compared with a bound raises
  obtain ⟨hzone, hbound, hsaved⟩ : zone ≠ none ∧ ¬ (gte = none ∧ lt = none) ∧ all.saved ≠ [] := by tauto
  obtain ⟨offset, hoffset⟩ := Option.ne_none_iff_exists'.mp hzone
  obtain ⟨s, hs⟩ := List.exists_mem_of_ne_nil _ hsaved
  obtain ⟨err, herr⟩ := @matchesCriteria_raises env zone gte lt descending henv offset hoffset hbound s
  exact hraises s.file ((listed_perm henv all).mem_iff.mpr (List.mem_map_of_mem hs)) err herr

/-- A search respects the times exactly when nothing is ambiguous at the precision of a second. -/
theorem respectsTime_iff (henv : Standard env) (all : SavedEvents env zone) (gte lt : Option (Bound zone))
    (descending : Bool) : RespectsTime all gte lt descending ↔ Unambiguous all gte lt := by
  have hperm := @matchedEvents_perm env zone gte lt descending henv all
  constructor
  · rintro ⟨hcount, hsearch⟩
    have hcomparable := comparable_of_count henv hcount
    obtain ⟨items, hitems, hwithin, horder⟩ := hsearch all.saved.length le_rfl
    rw [searchEvents_eq henv all hcomparable le_rfl] at hitems
    obtain rfl := congrArg ResultSet.results (Except.ok.inj hitems)
    have hbounds : ∀ e ∈ all.events, Within gte lt e.cut ↔ Within gte lt e.time := by
      intro e he
      have hmem := (hperm.symm.trans hwithin).mem_iff (a := e)
      simpa [he] using hmem
    refine ⟨hcomparable, hbounds, fun e he f hf hewithin hfwithin hcut hlt => ?_⟩
    have hmem {e : TimedEvent} (he : e ∈ all.events) (h : Within gte lt e.time) : e ∈ matchedEvents all gte lt descending :=
      hwithin.mem_iff.mpr (List.mem_filter.mpr ⟨he, decide_eq_true h⟩)
    have hname := (inOrder_iff henv all).mp horder e (hmem he hewithin) f (hmem hf hfwithin) hlt
    exact (filename_lt_iff_label hlt).mp hname hcut
  · intro h
    have hfilter : (all.events.filter fun e => decide (Within gte lt e.cut)) =
        all.events.filter fun e => decide (Within gte lt e.time) :=
      List.filter_congr fun e he => decide_eq_decide.mpr (h.bounds e he)
    rw [hfilter] at hperm
    refine ⟨?_, fun limit hlimit => ⟨_, searchEvents_eq henv all h.comparable hlimit, hperm, ?_⟩⟩
    · rw [countEvents_eq henv all h.comparable, hfilter]
    · refine (inOrder_iff henv all).mpr fun e he f hf hlt => ?_
      obtain ⟨heall, hewithin⟩ := List.mem_filter.mp (hperm.mem_iff.mp he)
      obtain ⟨hfall, hfwithin⟩ := List.mem_filter.mp (hperm.mem_iff.mp hf)
      refine (filename_lt_iff_label hlt).mpr fun hcut => ?_
      exact h.names e heall f hfall (of_decide_eq_true hewithin) (of_decide_eq_true hfwithin) hcut hlt

def onlyId : List Char := "00000000-0000-0000-0000-000000000001".toList

/-- A service with one conversation. -/
def oneConversation : Surroundings where
  Uuid := Unit
  str _ := onlyId
  uuid text := if text = onlyId then some () else none
  strptime text := (DateTime.readCompact text).map fun seconds => ((seconds * 1000000 : Nat) : Int)
  permitted _ := true
  eventsDir := "/events".toList

theorem standard_oneConversation : Standard oneConversation := by
  refine ⟨fun _ => rfl, fun _ => ?_, fun _ => rfl⟩
  have hread : (if onlyId = onlyId then some () else none) = some () := if_pos rfl
  exact hread

theorem permitted_oneConversation : oneConversation.permitted () = true := rfl

/-- A time of half past twelve on a leap day. -/
def leapDay (second : Fin 60) (microsecond : Fin 1000000) : DateTime where
  year := 2024
  month := 2
  day := 29
  hour := 12
  minute := 30
  second := second
  microsecond := microsecond
  offset := none
  hyear := by decide
  hmonth := by decide
  hday := by decide
  hhour := by decide
  hminute := by decide
  hsecond := second.isLt
  hmicrosecond := microsecond.isLt

def halfPast : TimedEvent where
  timestamp := leapDay 0 500000
  kind := "MessageEvent".toList
  idHex := "0000000000000000000000000000000a".toList
  date := ⟨by decide, by decide, by decide, by decide⟩
  hid := by decide

def onlyHalfPast : SavedEvents oneConversation none where
  saved := [⟨(), halfPast, permitted_oneConversation⟩]
  ids := List.nodup_singleton _
  zoned := fun s hs => by rw [List.mem_singleton.mp hs]; rfl

def bound (second : Fin 60) (microsecond : Fin 1000000) : Bound none := ⟨leapDay second microsecond, rfl⟩

/-- Bounds on whole seconds. -/
theorem respectsTime_wholeSeconds : RespectsTime onlyHalfPast (some (bound 0 0)) (some (bound 1 0)) true := by
  refine (respectsTime_iff standard_oneConversation onlyHalfPast _ _ true).mpr ⟨.inl rfl, ?_, ?_⟩
  · intro e he
    rw [List.mem_singleton.mp he]
    decide
  · intro e he f hf _ _ _ hlt
    rw [List.mem_singleton.mp he, List.mem_singleton.mp hf] at hlt
    exact absurd hlt (lt_irrefl _)

/-- The event comes after the bound, but in the same second. -/
theorem event_lost : ¬ ∀ (env : Surroundings) (zone : Option Int) (all : SavedEvents env zone) (gte lt : Option (Bound zone))
    (descending : Bool), Standard env → RespectsTime all gte lt descending := by
  intro h
  obtain ⟨hcount, -⟩ := h oneConversation none onlyHalfPast (some (bound 0 200000)) none false standard_oneConversation
  have hnone := @countEvents_eq oneConversation none (some (bound 0 200000)) none false standard_oneConversation
    onlyHalfPast (.inl rfl)
  exact absurd (Except.ok.inj (hnone.symm.trans hcount)) (by decide)

end Times

end OpenHands.TimedEvents
