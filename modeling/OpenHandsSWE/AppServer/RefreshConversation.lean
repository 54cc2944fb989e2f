import OpenHandsSWE.AppServer.TimedEvents
import OpenHandsSWE.Lib.Runs

/-! The events of a conversation, which are fetched from its agent server page by page, saved, and handed to the
callbacks, and the runs that an exception ends. -/

namespace OpenHands.RefreshConversation

open FilesystemEventService TimedEvents

/-- An exception of a save comes before the file is opened, or leaves one that cannot be read. -/
inductive SaveFault where
  | before
  | within
deriving DecidableEq, Repr

/-- The pages of the agent server, and what raises. -/
structure Run where
  pages : List (List TimedEvent)
  conversationRaises : Bool
  requestRaises : Nat → Bool
  saveRaises : TimedEvent → Option SaveFault

def Run.events (run : Run) : List TimedEvent := run.pages.flatten

/-- The files of the app server, and the events that `execute_callbacks` was called for. -/
structure State where
  files : List (EventFile TimedEvent)
  calls : List TimedEvent

variable (env : Surroundings) (conversationId : env.Uuid)

/-- The pattern `*_{id_hex}` below every directory. -/
def named (idHex : List Char) (f : EventFile TimedEvent) : Bool :=
  !FilesystemEventService.hidden f.name && !FilesystemEventService.hidden f.dir && decide ('_' :: idHex <:+ f.name)

def getEvent (files : List (EventFile TimedEvent)) (idHex : List Char) : Option TimedEvent :=
  match (files.filter (named idHex)).insertionSort pathLE with
  | [] => none
  | f :: _ => if ((env.uuid f.dir).map env.permitted).getD false then f.event else none

def writeFile (f : EventFile TimedEvent) (files : List (EventFile TimedEvent)) : List (EventFile TimedEvent) :=
  (files.filter fun g => !decide (g.dir = f.dir ∧ g.name = f.name)) ++ [f]

def saveEvent (fault : Option SaveFault) (e : TimedEvent) (files : List (EventFile TimedEvent)) :
    Except PyError Unit × List (EventFile TimedEvent) :=
  if env.permitted conversationId then
    match fault with
    | none => (.ok (), writeFile ⟨env.str conversationId, e.filename, some e⟩ files)
    | some .before => (.error (.osError "OSError"), files)
    | some .within => (.error (.osError "OSError"), writeFile ⟨env.str conversationId, e.filename, none⟩ files)
  else (.error (.valueError "No such conversation: {conversaiont_id}"), files)

/-- The loop over a page; when no save raises, with the events to process. -/
def saveNew (run : Run) : List TimedEvent → List (EventFile TimedEvent) → List TimedEvent →
    Option (List TimedEvent) × List (EventFile TimedEvent)
  | [], files, toProcess => (some toProcess, files)
  | e :: items, files, toProcess =>
    match getEvent env files e.idHex with
    | some _ => saveNew run items files toProcess
    | none =>
      match saveEvent env conversationId (run.saveRaises e) e files with
      | (.ok _, files) => saveNew run items files (toProcess ++ [e])
      | (.error _, files) => (none, files)

/-- The loop over the pages. -/
def refreshPages (run : Run) : Nat → List (List TimedEvent) → State → State
  | _, [], s => s
  | i, items :: pages, s =>
    if run.requestRaises i then s
    else
      match saveNew env conversationId run items s.files [] with
      | (none, files) => { s with files := files }
      | (some toProcess, files) => refreshPages run (i + 1) pages ⟨files, s.calls ++ toProcess⟩

def refreshConversation (s : State) (run : Run) : State :=
  if run.conversationRaises then s else refreshPages env conversationId run 0 run.pages s

/-! ## What the runs promise -/

/-- The runs on one conversation, whose agent server only gets more events, and a last run in which nothing raises. -/
structure History (env : Surroundings) (conversationId : env.Uuid) where
  files : List (EventFile TimedEvent)
  runs : List Run
  last : Run
  standard : Standard env
  permitted : env.permitted conversationId = true
  grows : ∀ run ∈ runs, run.events ⊆ last.events
  ids : ∀ run ∈ last :: runs, (run.events.map TimedEvent.idHex).Nodup
  fresh : ∀ e ∈ last.events, files.filter (named e.idHex) = []
  conversation : last.conversationRaises = false
  requests : ∀ i, last.requestRaises i = false
  saves : ∀ e, last.saveRaises e = none

variable {env conversationId}

def History.start (h : History env conversationId) : State := ⟨h.files, []⟩

def History.state (h : History env conversationId) : State :=
  refreshConversation env conversationId (h.runs.foldl (refreshConversation env conversationId) h.start) h.last

/-- The callbacks of an event were executed so many times. -/
def timesCalled (s : State) (e : TimedEvent) : Nat := s.calls.countP fun c => decide (c.idHex = e.idHex)

structure Complete (env : Surroundings) (events : List TimedEvent) (s : State) : Prop where
  saved : ∀ e ∈ events, getEvent env s.files e.idHex = some e
  once : ∀ e ∈ events, timesCalled s e = 1

def isSaved (env : Surroundings) (files : List (EventFile TimedEvent)) (e : TimedEvent) : Bool :=
  (getEvent env files e.idHex).isSome

/-- The events of a page that a run comes past: those up to the first one to be saved whose save raises. -/
def passed (saved : TimedEvent → Bool) (run : Run) (items : List TimedEvent) : List TimedEvent :=
  items.takeWhile fun e => saved e || (run.saveRaises e).isNone

/-- A save that raises is the first one of its page. -/
def CutClean (saved : TimedEvent → Bool) (run : Run) : Nat → List (List TimedEvent) → Prop
  | _, [] => True
  | i, items :: pages =>
    run.requestRaises i = true ∨
      if (passed saved run items).length = items.length then CutClean saved run (i + 1) pages
      else ∀ e ∈ passed saved run items, saved e = true

def Clean (env : Surroundings) (s : State) (run : Run) : Prop :=
  run.conversationRaises = true ∨ CutClean (isSaved env s.files) run 0 run.pages

/-! ## Files and ids -/

section Files

variable {files : List (EventFile TimedEvent)} {e e' : TimedEvent} {idHex : List Char} {f : EventFile TimedEvent}

/-- The id is the last part of a name. -/
theorem suffix_filename_iff (hid : '_' ∉ idHex) : '_' :: idHex <:+ e.filename ↔ idHex = e.idHex := by
  have hown : '_' :: e.idHex <:+ e.filename := by
    refine ⟨e.timestamp.compact ++ '_' :: e.kind, ?_⟩
    rw [TimedEvent.filename, TimedEvent.label, List.append_assoc, List.cons_append]
  constructor
  · intro h
    rcases List.suffix_or_suffix_of_suffix h hown with hsuffix | hsuffix
    · rcases List.suffix_cons_iff.mp hsuffix with heq | hwithin
      · exact (List.cons.inj heq).2
      · exact absurd (hwithin.subset List.mem_cons_self) e.hid
    · rcases List.suffix_cons_iff.mp hsuffix with heq | hwithin
      · exact (List.cons.inj heq).2.symm
      · exact absurd (hwithin.subset List.mem_cons_self) hid
  · rintro rfl
    exact hown

/-- The file that an event is saved in, with what can be read of it. -/
def fileOf (conversationId : env.Uuid) (e : TimedEvent) (content : Option TimedEvent) : EventFile TimedEvent :=
  ⟨env.str conversationId, e.filename, content⟩

theorem named_fileOf (henv : Standard env) (content : Option TimedEvent) :
    named e'.idHex (fileOf conversationId e content) = decide (e'.idHex = e.idHex) := by
  have hname : FilesystemEventService.hidden (fileOf conversationId e content).name = false := filename_visible e
  have hdir : FilesystemEventService.hidden (fileOf conversationId e content).dir = false := henv.visible conversationId
  rw [named, hname, hdir]
  exact decide_eq_decide.mpr (suffix_filename_iff e'.hid)

theorem filter_writeFile_other (henv : Standard env) (content : Option TimedEvent) (h : e'.idHex ≠ e.idHex) :
    (writeFile (fileOf conversationId e content) files).filter (named e'.idHex) = files.filter (named e'.idHex) := by
  rw [writeFile, List.filter_append, List.filter_filter, List.filter_singleton, named_fileOf henv, decide_eq_false h,
    cond_false, List.append_nil]
  refine List.filter_congr fun g _ => ?_
  cases hnamed : named e'.idHex g with
  | false => rfl
  | true =>
    have hsuffix : '_' :: e'.idHex <:+ g.name := by
      rw [named, Bool.and_eq_true] at hnamed
      exact of_decide_eq_true hnamed.2
    have hpath : ¬ (g.dir = (fileOf conversationId e content).dir ∧ g.name = (fileOf conversationId e content).name) := by
      rintro ⟨-, hname⟩
      rw [hname] at hsuffix
      exact h ((suffix_filename_iff e'.hid).mp hsuffix)
    rw [decide_eq_false hpath]
    rfl

theorem filter_writeFile_self (henv : Standard env) (content : Option TimedEvent)
    (h : ∀ g ∈ files.filter (named e.idHex), g.dir = env.str conversationId ∧ g.name = e.filename) :
    (writeFile (fileOf conversationId e content) files).filter (named e.idHex) = [fileOf conversationId e content] := by
  rw [writeFile, List.filter_append, List.filter_filter, List.filter_singleton, named_fileOf henv, decide_eq_true rfl,
    cond_true, List.filter_eq_nil_iff.mpr ?_, List.nil_append]
  intro g hg hboth
  obtain ⟨hnamed, hpath⟩ := Bool.and_eq_true_iff.mp hboth
  have hsame : g.dir = (fileOf conversationId e content).dir ∧ g.name = (fileOf conversationId e content).name :=
    h g (List.mem_filter.mpr ⟨hg, hnamed⟩)
  rw [decide_eq_true hsame] at hpath
  cases hpath

theorem getEvent_of_nil (h : files.filter (named idHex) = []) : getEvent env files idHex = none := by
  rw [getEvent, h]
  rfl

theorem getEvent_of_one (henv : Standard env) (hpermitted : env.permitted conversationId = true) {content : Option TimedEvent}
    (h : files.filter (named idHex) = [fileOf conversationId e content]) : getEvent env files idHex = content := by
  have hread : env.uuid (fileOf conversationId e content).dir = some conversationId := henv.uuid_str conversationId
  rw [getEvent, h]
  change (if _ then _ else _) = content
  rw [hread, Option.map_some, Option.getD_some, if_pos hpermitted]
  rfl

end Files

/-! ## The invariants -/

section Invariants

variable {events : List TimedEvent} {files : List (EventFile TimedEvent)} {e : TimedEvent} {s : State} {run : Run}

/-- Each event has no file, one that cannot be read, or its own. -/
def Tidy (conversationId : env.Uuid) (events : List TimedEvent) (files : List (EventFile TimedEvent)) : Prop :=
  ∀ e ∈ events, files.filter (named e.idHex) = [] ∨ ∃ content : Option TimedEvent,
    files.filter (named e.idHex) = [fileOf conversationId e content] ∧ ∀ found ∈ content, found = e

theorem Tidy.found (h : Tidy conversationId events files) (henv : Standard env)
    (hpermitted : env.permitted conversationId = true) (he : e ∈ events) (hsaved : isSaved env files e = true) :
    getEvent env files e.idHex = some e := by
  rcases h e he with hnil | ⟨content, hone, hcontent⟩
  · rw [isSaved, getEvent_of_nil hnil] at hsaved
    cases hsaved
  · rw [isSaved, getEvent_of_one henv hpermitted hone] at hsaved
    obtain ⟨found, hfound⟩ := Option.isSome_iff_exists.mp hsaved
    rw [getEvent_of_one henv hpermitted hone, hfound, hcontent found hfound]

theorem Tidy.write (h : Tidy conversationId events files) (henv : Standard env)
    (hpermitted : env.permitted conversationId = true) (he : e ∈ events) (hids : (events.map TimedEvent.idHex).Nodup)
    {content : Option TimedEvent} (hcontent : ∀ found ∈ content, found = e) :
    Tidy conversationId events (writeFile (fileOf conversationId e content) files) ∧
      isSaved env (writeFile (fileOf conversationId e content) files) e = content.isSome ∧
      ∀ e' ∈ events, e' ≠ e → isSaved env (writeFile (fileOf conversationId e content) files) e' = isSaved env files e' := by
  have hpath : ∀ g ∈ files.filter (named e.idHex), g.dir = env.str conversationId ∧ g.name = e.filename := by
    intro g hg
    rcases h e he with hnil | ⟨old, hone, -⟩
    · rw [hnil] at hg
      exact absurd hg List.not_mem_nil
    · rw [hone] at hg
      rw [List.mem_singleton.mp hg]
      exact ⟨rfl, rfl⟩
  have hself := @filter_writeFile_self env conversationId files e henv content hpath
  have hother {e' : TimedEvent} (he' : e' ∈ events) (hne : e' ≠ e) :=
    @filter_writeFile_other env conversationId files e e' henv content
      fun hid => hne (List.inj_on_of_nodup_map hids he' he hid)
  refine ⟨fun e' he' => ?_, ?_, fun e' he' hne => ?_⟩
  · by_cases heq : e' = e
    · subst heq
      exact .inr ⟨content, hself, hcontent⟩
    · rw [hother he' heq]
      exact h e' he'
  · rw [isSaved, getEvent_of_one henv hpermitted hself]
  · rw [isSaved, isSaved, getEvent, getEvent, hother he' hne]

theorem saveEvent_ok (hpermitted : env.permitted conversationId = true) :
    saveEvent env conversationId none e files = (.ok (), writeFile (fileOf conversationId e (some e)) files) := by
  rw [saveEvent, if_pos hpermitted]
  rfl

theorem saveEvent_raises (h : Tidy conversationId events files) (henv : Standard env)
    (hpermitted : env.permitted conversationId = true) (he : e ∈ events) (hids : (events.map TimedEvent.idHex).Nodup)
    (hunsaved : isSaved env files e = false) (fault : SaveFault) : ∃ err files',
      saveEvent env conversationId (some fault) e files = (.error err, files') ∧ Tidy conversationId events files' ∧
        ∀ e' ∈ events, isSaved env files' e' = isSaved env files e' := by
  cases fault with
  | before =>
    refine ⟨.osError "OSError", files, ?_, h, fun _ _ => rfl⟩
    rw [saveEvent, if_pos hpermitted]
  | within =>
    have hempty : ∀ found ∈ (none : Option TimedEvent), found = e := fun _ hfound => by cases hfound
    obtain ⟨htidy, hself, hother⟩ := h.write henv hpermitted he hids hempty
    refine ⟨.osError "OSError", writeFile (fileOf conversationId e none) files, ?_, htidy, fun e' he' => ?_⟩
    · rw [saveEvent, if_pos hpermitted]
      rfl
    · by_cases heq : e' = e
      · rw [heq, hself, hunsaved]
        rfl
      · exact hother e' he' heq

theorem passed_congr {saved saved' : TimedEvent → Bool} {items : List TimedEvent} (h : ∀ e ∈ items, saved e = saved' e) :
    passed saved run items = passed saved' run items := by
  induction items with
  | nil => rfl
  | cons e items ih =>
    have hrest := ih fun e' he' => h e' (List.mem_cons_of_mem e he')
    unfold passed at hrest ⊢
    rw [List.takeWhile_cons, List.takeWhile_cons, h e List.mem_cons_self, hrest]

theorem passed_subset (saved : TimedEvent → Bool) (run : Run) (items : List TimedEvent) : passed saved run items ⊆ items :=
  (List.takeWhile_sublist _).subset

/-- What the loop over a page does: it saves the events that it comes past. -/
theorem saveNew_spec (henv : Standard env) (hpermitted : env.permitted conversationId = true)
    (hids : (events.map TimedEvent.idHex).Nodup) (run : Run) {items : List TimedEvent} (hsub : items ⊆ events)
    (hnodup : items.Nodup) (htidy : Tidy conversationId events files) (toProcess : List TimedEvent) : ∃ files',
      saveNew env conversationId run items files toProcess =
        (if (passed (isSaved env files) run items).length = items.length then
          some (toProcess ++ (passed (isSaved env files) run items).filter fun e => !isSaved env files e) else none, files') ∧
      Tidy conversationId events files' ∧
      ∀ e ∈ events, isSaved env files' e = true ↔ isSaved env files e = true ∨ e ∈ passed (isSaved env files) run items := by
  induction items generalizing files toProcess with
  | nil => exact ⟨files, by simp [saveNew, passed], htidy, fun e _ => by simp [passed]⟩
  | cons e items ih =>
    obtain ⟨he, hitems⟩ := List.cons_subset.mp hsub
    obtain ⟨hnotin, hnodup⟩ := List.nodup_cons.mp hnodup
    cases hsaved : isSaved env files e with
    | true =>
      -- what is saved already is passed over
      have hpassed : passed (isSaved env files) run (e :: items) = e :: passed (isSaved env files) run items :=
        List.takeWhile_cons_of_pos (by rw [hsaved]; rfl)
      obtain ⟨found, hfound⟩ := Option.isSome_iff_exists.mp hsaved
      obtain ⟨files', heq, htidy', hsaved'⟩ := ih hitems hnodup htidy toProcess
      refine ⟨files', ?_, htidy', fun e' he' => ?_⟩
      · rw [saveNew, hfound]
        dsimp only
        rw [heq, hpassed, List.filter_cons, hsaved]
        simp
      · rw [hsaved' e' he', hpassed, List.mem_cons]
        constructor
        · rintro (h | h)
          · exact .inl h
          · exact .inr (.inr h)
        · rintro (h | rfl | h)
          · exact .inl h
          · exact .inl hsaved
          · exact .inr h
    | false =>
      have hnone : getEvent env files e.idHex = none := Option.not_isSome_iff_eq_none.mp (Bool.eq_false_iff.mp hsaved)
      cases hfault : run.saveRaises e with
      | some fault =>
        -- the exception ends the page, and with it the run
        have hpassed : passed (isSaved env files) run (e :: items) = [] :=
          List.takeWhile_cons_of_neg (by rw [hsaved, hfault]; exact Bool.false_ne_true)
        obtain ⟨err, files', hsave, htidy', hsame⟩ := saveEvent_raises htidy henv hpermitted he hids hsaved fault
        refine ⟨files', ?_, htidy', fun e' he' => ?_⟩
        · rw [saveNew, hnone, hfault]
          dsimp only
          rw [hsave, hpassed]
          rfl
        · rw [hsame e' he', hpassed]
          exact (or_iff_left List.not_mem_nil).symm
      | none =>
        -- the ids differ, so that saving this event changes nothing for the later ones
        have hpassed : passed (isSaved env files) run (e :: items) = e :: passed (isSaved env files) run items :=
          List.takeWhile_cons_of_pos (by rw [hfault, Bool.or_comm]; rfl)
        have hown : ∀ found ∈ some e, found = e := fun _ hfound => (Option.some.inj hfound).symm
        obtain ⟨htidy₁, hself, hother⟩ := htidy.write henv hpermitted he hids hown
        have hlater : ∀ e' ∈ items, isSaved env (writeFile (fileOf conversationId e (some e)) files) e' =
            isSaved env files e' := fun e' he' => hother e' (hitems he') fun heq => hnotin (heq ▸ he')
        obtain ⟨files', heq, htidy', hsaved'⟩ := ih hitems hnodup htidy₁ (toProcess ++ [e])
        have hsame := @passed_congr run _ _ items hlater
        rw [hsame] at heq hsaved'
        refine ⟨files', ?_, htidy', fun e' he' => ?_⟩
        · rw [saveNew, hnone, hfault]
          dsimp only
          rw [saveEvent_ok hpermitted]
          dsimp only
          have hfilter : ((passed (isSaved env files) run items).filter fun e' =>
              !isSaved env (writeFile (fileOf conversationId e (some e)) files) e') =
              (passed (isSaved env files) run items).filter fun e' => !isSaved env files e' :=
            List.filter_congr fun e' he' => by rw [hlater e' (passed_subset _ _ _ he')]
          rw [heq, hpassed, List.filter_cons, hsaved, hfilter]
          simp
        · rw [hsaved' e' he', hpassed, List.mem_cons]
          by_cases heq : e' = e
          · subst heq
            exact iff_of_true (.inl hself) (.inr (.inl rfl))
          · rw [hother e' he' heq, or_iff_right heq]

/-! ## What is called for -/

theorem countP_eq_zero {xs : List TimedEvent} (hids : (events.map TimedEvent.idHex).Nodup) (hsub : xs ⊆ events)
    (he : e ∈ events) (hnotin : e ∉ xs) : xs.countP (fun c => decide (c.idHex = e.idHex)) = 0 := by
  refine List.countP_eq_zero.mpr fun c hc hsame => hnotin ?_
  rw [← List.inj_on_of_nodup_map hids (hsub hc) he (of_decide_eq_true hsame)]
  exact hc

theorem countP_eq_one {xs : List TimedEvent} (hids : (events.map TimedEvent.idHex).Nodup) (hsub : xs ⊆ events)
    (hnodup : xs.Nodup) (he : e ∈ xs) : xs.countP (fun c => decide (c.idHex = e.idHex)) = 1 := by
  obtain ⟨before, after, rfl⟩ := List.append_of_mem he
  obtain ⟨-, hcons, hdisjoint⟩ := List.nodup_append.mp hnodup
  have hevent := hsub he
  have hbefore := countP_eq_zero hids (fun c hc => hsub (List.mem_append_left _ hc)) hevent
    fun hmem => hdisjoint e hmem e List.mem_cons_self rfl
  have hafter := countP_eq_zero hids (fun c hc => hsub (List.mem_append_right _ (List.mem_cons_of_mem _ hc))) hevent
    (List.nodup_cons.mp hcons).1
  rw [List.countP_append, List.countP_cons, hbefore, hafter, decide_eq_true rfl]
  rfl

/-- The callbacks were executed once for each event saved, and for no other. -/
structure Settled (conversationId : env.Uuid) (events : List TimedEvent) (s : State) : Prop where
  tidy : Tidy conversationId events s.files
  called : ∀ e ∈ events, timesCalled s e = if isSaved env s.files e = true then 1 else 0

/-- An event is saved whose callbacks were not executed. -/
structure Lossy (conversationId : env.Uuid) (events : List TimedEvent) (s : State) : Prop where
  tidy : Tidy conversationId events s.files
  lost : ∃ e ∈ events, isSaved env s.files e = true ∧ timesCalled s e = 0

theorem Settled.page (h : Settled conversationId events s) (hids : (events.map TimedEvent.idHex).Nodup)
    {items : List TimedEvent} (hsub : items ⊆ events) (hnodup : items.Nodup) {files' : List (EventFile TimedEvent)}
    (htidy : Tidy conversationId events files')
    (hsaved : ∀ e ∈ events, isSaved env files' e = true ↔ isSaved env s.files e = true ∨ e ∈ items) :
    Settled conversationId events ⟨files', s.calls ++ items.filter fun e => !isSaved env s.files e⟩ := by
  have hfilter : (items.filter fun e => !isSaved env s.files e) ⊆ events := fun e he => hsub (List.mem_filter.mp he).1
  refine ⟨htidy, fun e he => ?_⟩
  have hcalled := h.called e he
  unfold timesCalled at hcalled ⊢
  rw [List.countP_append, hcalled]
  by_cases hold : isSaved env s.files e = true
  · have hnot : e ∉ items.filter fun e => !isSaved env s.files e := by
      intro hmem
      have hnew := (List.mem_filter.mp hmem).2
      rw [hold] at hnew
      cases hnew
    rw [if_pos hold, if_pos ((hsaved e he).mpr (.inl hold)), countP_eq_zero hids hfilter he hnot]
  · rw [if_neg hold]
    by_cases hmem : e ∈ items
    · have hnew : e ∈ items.filter fun e => !isSaved env s.files e :=
        List.mem_filter.mpr ⟨hmem, by rw [Bool.eq_false_iff.mpr hold]; rfl⟩
      rw [if_pos ((hsaved e he).mpr (.inr hmem)), countP_eq_one hids hfilter (hnodup.filter _) hnew]
    · have hnot : ¬ isSaved env files' e = true := fun h => ((hsaved e he).mp h).elim hold hmem
      rw [if_neg hnot, countP_eq_zero hids hfilter he fun h => hmem (List.mem_filter.mp h).1]

theorem passed_eq_of_length {saved : TimedEvent → Bool} {items : List TimedEvent}
    (h : (passed saved run items).length = items.length) : passed saved run items = items :=
  (List.takeWhile_sublist _).eq_of_length h

/-- A run settles what it comes past, unless it is cut behind an event that it has saved. -/
theorem refreshPages_settled (henv : Standard env) (hpermitted : env.permitted conversationId = true)
    (hids : (events.map TimedEvent.idHex).Nodup) (run : Run) (i : Nat) {pages : List (List TimedEvent)}
    {saved : TimedEvent → Bool} (hagree : ∀ e ∈ pages.flatten, isSaved env s.files e = saved e) (hsub : pages.flatten ⊆ events)
    (hnodup : pages.flatten.Nodup) (h : Settled conversationId events s) :
    (CutClean saved run i pages → Settled conversationId events (refreshPages env conversationId run i pages s)) ∧
      (¬ CutClean saved run i pages → Lossy conversationId events (refreshPages env conversationId run i pages s)) := by
  induction pages generalizing i s with
  | nil => exact ⟨fun _ => h, fun hnot => absurd trivial hnot⟩
  | cons items pages ih =>
    rw [List.flatten_cons] at hagree hsub hnodup
    obtain ⟨hitems, hpages, hdisjoint⟩ := List.nodup_append.mp hnodup
    have hitemsSub : items ⊆ events := fun e he => hsub (List.mem_append_left _ he)
    have hpagesSub : pages.flatten ⊆ events := fun e he => hsub (List.mem_append_right _ he)
    rw [refreshPages, CutClean]
    by_cases hrequest : run.requestRaises i = true
    · rw [if_pos hrequest]
      exact ⟨fun _ => h, fun hnot => absurd (.inl hrequest) hnot⟩
    · rw [if_neg hrequest, or_iff_right hrequest]
      obtain ⟨files', heq, htidy, hsaved⟩ := saveNew_spec henv hpermitted hids run hitemsSub hitems h.tidy []
      have hpassed : passed saved run items = passed (isSaved env s.files) run items :=
        passed_congr fun e he => (hagree e (List.mem_append_left _ he)).symm
      rw [heq, hpassed, List.nil_append]
      by_cases hlength : (passed (isSaved env s.files) run items).length = items.length
      · rw [if_pos hlength, if_pos hlength]
        rw [passed_eq_of_length hlength] at hsaved ⊢
        refine ih (i + 1) (fun e he => ?_) hpagesSub hpages (h.page hids hitemsSub hitems htidy hsaved)
        rw [← hagree e (List.mem_append_right _ he), Bool.eq_iff_iff, hsaved e (hpagesSub he)]
        exact or_iff_left fun hmem => hdisjoint e hmem e he rfl
      · rw [if_neg hlength, if_neg hlength]
        -- the page is cut, and what it has saved is not handed to the callbacks
        have hpassedSub := passed_subset (isSaved env s.files) run items
        have hagreed {e : TimedEvent} (he : e ∈ passed (isSaved env s.files) run items) : isSaved env s.files e = saved e :=
          hagree e (List.mem_append_left _ (hpassedSub he))
        constructor
        · intro hclean
          refine ⟨htidy, fun e he => ?_⟩
          have hsame : isSaved env files' e = isSaved env s.files e := by
            rw [Bool.eq_iff_iff, hsaved e he]
            exact or_iff_left_of_imp fun hmem => (hagreed hmem).trans (hclean e hmem)
          rw [hsame]
          exact h.called e he
        · intro hnot
          push Not at hnot
          obtain ⟨e, he, hunsaved⟩ := hnot
          have hevent := hitemsSub (hpassedSub he)
          refine ⟨htidy, e, hevent, (hsaved e hevent).mpr (.inr he), (h.called e hevent).trans (if_neg ?_)⟩
          rw [hagreed he]
          exact hunsaved

/-- What is saved stays saved, and its callbacks are not executed again. -/
structure Keeps (conversationId : env.Uuid) (events : List TimedEvent) (s s' : State) : Prop where
  tidy : Tidy conversationId events s'.files
  saved : ∀ e ∈ events, isSaved env s.files e = true → isSaved env s'.files e = true ∧ timesCalled s' e = timesCalled s e

theorem Keeps.trans {s' s'' : State} (h : Keeps conversationId events s s') (h' : Keeps conversationId events s' s'') :
    Keeps conversationId events s s'' := by
  refine ⟨h'.tidy, fun e he hsaved => ?_⟩
  obtain ⟨hbetween, hcalled⟩ := h.saved e he hsaved
  obtain ⟨hafter, hcalled'⟩ := h'.saved e he hbetween
  exact ⟨hafter, hcalled'.trans hcalled⟩

theorem refreshPages_keeps (henv : Standard env) (hpermitted : env.permitted conversationId = true)
    (hids : (events.map TimedEvent.idHex).Nodup) (run : Run) (i : Nat) {pages : List (List TimedEvent)}
    (hsub : pages.flatten ⊆ events) (hnodup : pages.flatten.Nodup) (htidy : Tidy conversationId events s.files) :
    Keeps conversationId events s (refreshPages env conversationId run i pages s) := by
  induction pages generalizing i s with
  | nil => exact ⟨htidy, fun e _ hsaved => ⟨hsaved, rfl⟩⟩
  | cons items pages ih =>
    rw [List.flatten_cons] at hsub hnodup
    obtain ⟨hitems, hpages, -⟩ := List.nodup_append.mp hnodup
    rw [refreshPages]
    by_cases hrequest : run.requestRaises i = true
    · rw [if_pos hrequest]
      exact ⟨htidy, fun e _ hsaved => ⟨hsaved, rfl⟩⟩
    · rw [if_neg hrequest]
      have hitemsSub : items ⊆ events := fun e he => hsub (List.mem_append_left _ he)
      obtain ⟨files', heq, htidy', hsaved'⟩ := saveNew_spec henv hpermitted hids run hitemsSub hitems htidy []
      rw [heq]
      by_cases hlength : (passed (isSaved env s.files) run items).length = items.length
      · rw [if_pos hlength, List.nil_append]
        refine Keeps.trans ⟨htidy', fun e he hsaved => ⟨(hsaved' e he).mpr (.inl hsaved), ?_⟩⟩
          (ih (i + 1) (fun e he => hsub (List.mem_append_right _ he)) hpages htidy')
        have hpassedSub := passed_subset (isSaved env s.files) run items
        have hnot : e ∉ (passed (isSaved env s.files) run items).filter fun e => !isSaved env s.files e := by
          intro hmem
          have hnew := (List.mem_filter.mp hmem).2
          rw [hsaved] at hnew
          cases hnew
        unfold timesCalled
        rw [List.countP_append, countP_eq_zero hids (fun c hc => hitemsSub (hpassedSub (List.mem_filter.mp hc).1)) he hnot,
          Nat.add_zero]
      · rw [if_neg hlength]
        exact ⟨htidy', fun e he hsaved => ⟨(hsaved' e he).mpr (.inl hsaved), rfl⟩⟩

theorem passed_quiet {saved : TimedEvent → Bool} {items : List TimedEvent} (hsaves : ∀ e, run.saveRaises e = none) :
    passed saved run items = items :=
  List.takeWhile_eq_self_iff.mpr fun e _ => by rw [hsaves, Bool.or_comm]; rfl

theorem cutClean_quiet {saved : TimedEvent → Bool} (hsaves : ∀ e, run.saveRaises e = none) (i : Nat)
    (pages : List (List TimedEvent)) : CutClean saved run i pages := by
  induction pages generalizing i with
  | nil => trivial
  | cons items pages ih =>
    refine .inr ?_
    rw [passed_quiet hsaves, if_pos rfl]
    exact ih (i + 1)

theorem refreshPages_saves (henv : Standard env) (hpermitted : env.permitted conversationId = true)
    (hids : (events.map TimedEvent.idHex).Nodup) (hrequests : ∀ i, run.requestRaises i = false)
    (hsaves : ∀ e, run.saveRaises e = none) (i : Nat) {pages : List (List TimedEvent)} (hsub : pages.flatten ⊆ events)
    (hnodup : pages.flatten.Nodup) (htidy : Tidy conversationId events s.files) :
    ∀ e ∈ pages.flatten, isSaved env (refreshPages env conversationId run i pages s).files e = true := by
  induction pages generalizing i s with
  | nil => exact fun e he => absurd he List.not_mem_nil
  | cons items pages ih =>
    rw [List.flatten_cons] at hsub hnodup ⊢
    obtain ⟨hitems, hpages, -⟩ := List.nodup_append.mp hnodup
    have hitemsSub : items ⊆ events := fun e he => hsub (List.mem_append_left _ he)
    have hpagesSub : pages.flatten ⊆ events := fun e he => hsub (List.mem_append_right _ he)
    obtain ⟨files', heq, htidy', hsaved'⟩ := saveNew_spec henv hpermitted hids run hitemsSub hitems htidy []
    rw [passed_quiet hsaves] at heq hsaved'
    rw [refreshPages, if_neg (by rw [hrequests]; exact Bool.false_ne_true), heq, if_pos rfl]
    dsimp only
    intro e he
    rcases List.mem_append.mp he with he | he
    · have hkeeps := @refreshPages_keeps env conversationId events
        ⟨files', s.calls ++ ([] ++ items.filter fun e => !isSaved env s.files e)⟩ henv hpermitted hids run (i + 1) pages
        hpagesSub hpages htidy'
      exact (hkeeps.saved e (hitemsSub he) ((hsaved' e (hitemsSub he)).mpr (.inr he))).1
    · exact ih (i + 1) hpagesSub hpages htidy' e he

end Invariants

/-! ## Whole histories -/

section Histories

variable (h : History env conversationId)

theorem History.nodup {run : Run} (hrun : run ∈ h.last :: h.runs) : run.events.Nodup :=
  List.Nodup.of_map _ (h.ids run hrun)

theorem History.settled_start : Settled conversationId h.last.events h.start := by
  refine ⟨fun e he => .inl (h.fresh e he), fun e he => ?_⟩
  have hunsaved : isSaved env h.files e = false := by rw [isSaved, getEvent_of_nil (h.fresh e he)]; rfl
  rw [History.start, hunsaved]
  rfl

theorem History.settled_run {run : Run} (hrun : run ∈ h.runs) {s : State} (hs : Settled conversationId h.last.events s) :
    (Clean env s run → Settled conversationId h.last.events (refreshConversation env conversationId s run)) ∧
      (¬ Clean env s run → Lossy conversationId h.last.events (refreshConversation env conversationId s run)) := by
  unfold refreshConversation Clean
  by_cases hconversation : run.conversationRaises = true
  · rw [if_pos hconversation]
    exact ⟨fun _ => hs, fun hnot => absurd (.inl hconversation) hnot⟩
  · rw [if_neg hconversation, or_iff_right hconversation]
    exact refreshPages_settled h.standard h.permitted (h.ids h.last List.mem_cons_self) run 0 (fun _ _ => rfl)
      (h.grows run hrun) (h.nodup (List.mem_cons_of_mem _ hrun)) hs

theorem History.keeps_run {run : Run} (hrun : run ∈ h.last :: h.runs) {s : State}
    (htidy : Tidy conversationId h.last.events s.files) :
    Keeps conversationId h.last.events s (refreshConversation env conversationId s run) := by
  have hsub : run.events ⊆ h.last.events := by
    rcases List.mem_cons.mp hrun with rfl | hrun
    · exact fun e he => he
    · exact h.grows run hrun
  unfold refreshConversation
  by_cases hconversation : run.conversationRaises = true
  · rw [if_pos hconversation]
    exact ⟨htidy, fun e _ hsaved => ⟨hsaved, rfl⟩⟩
  · rw [if_neg hconversation]
    exact refreshPages_keeps h.standard h.permitted (h.ids h.last List.mem_cons_self) run 0 hsub (h.nodup hrun) htidy

theorem Lossy.keeps {events : List TimedEvent} {s s' : State} (hs : Lossy conversationId events s)
    (h : Keeps conversationId events s s') : Lossy conversationId events s' := by
  obtain ⟨e, he, hsaved, hcalled⟩ := hs.lost
  obtain ⟨hsaved', hsame⟩ := h.saved e he hsaved
  exact ⟨h.tidy, e, he, hsaved', hsame.trans hcalled⟩

/-- Runs that are cut cleanly leave nothing out, and what another one leaves out stays so. -/
theorem History.settled_runs {runs : List Run} (hruns : ∀ run ∈ runs, run ∈ h.runs) :
    (Runs.EachStep (refreshConversation env conversationId) h.start (Clean env) runs →
      Settled conversationId h.last.events (runs.foldl (refreshConversation env conversationId) h.start)) ∧
    (¬ Runs.EachStep (refreshConversation env conversationId) h.start (Clean env) runs →
      Lossy conversationId h.last.events (runs.foldl (refreshConversation env conversationId) h.start)) := by
  induction runs using List.reverseRecOn with
  | nil => exact ⟨fun _ => h.settled_start, fun hnot => absurd Runs.eachStep_nil hnot⟩
  | append_singleton runs run ih =>
    obtain ⟨hsettled, hlossy⟩ := ih fun run hrun => hruns run (List.mem_append_left _ hrun)
    have hrun := hruns run (List.mem_append_right _ List.mem_cons_self)
    rw [Runs.eachStep_concat, List.foldl_append]
    by_cases hclean : Runs.EachStep (refreshConversation env conversationId) h.start (Clean env) runs
    · rw [and_iff_right hclean]
      exact h.settled_run hrun (hsettled hclean)
    · refine ⟨fun hboth => absurd hboth.1 hclean, fun _ => ?_⟩
      exact (hlossy hclean).keeps (h.keeps_run (List.mem_cons_of_mem _ hrun) (hlossy hclean).tidy)

/-- No event is lost, and none is handed over twice, exactly when no run is cut by a save behind an event of the
same page that it has saved. -/
theorem complete_iff : Complete env h.last.events h.state ↔
    Runs.EachStep (refreshConversation env conversationId) h.start (Clean env) h.runs := by
  obtain ⟨hsettled, hlossy⟩ := h.settled_runs fun run hrun => hrun
  constructor
  · intro hcomplete
    by_contra hnot
    -- a lost event is saved, so that no later run takes it up
    have hkept := (hlossy hnot).keeps (h.keeps_run List.mem_cons_self (hlossy hnot).tidy)
    obtain ⟨e, he, -, hnever⟩ := hkept.lost
    have honce := hcomplete.once e he
    unfold History.state at honce
    omega
  · intro hclean
    have hbefore := hsettled hclean
    have hrun : refreshConversation env conversationId (h.runs.foldl (refreshConversation env conversationId) h.start)
        h.last = refreshPages env conversationId h.last 0 h.last.pages
          (h.runs.foldl (refreshConversation env conversationId) h.start) := by
      rw [refreshConversation, h.conversation, if_neg Bool.false_ne_true]
    have hids := h.ids h.last List.mem_cons_self
    have hnodup : h.last.events.Nodup := h.nodup List.mem_cons_self
    have hafter := (refreshPages_settled h.standard h.permitted hids h.last 0 (fun _ _ => rfl) (fun e he => he) hnodup
      hbefore).1 (cutClean_quiet h.saves 0 h.last.pages)
    have hall := refreshPages_saves h.standard h.permitted hids h.requests h.saves 0 (fun e he => he) hnodup hbefore.tidy
    unfold History.state
    rw [hrun]
    refine ⟨fun e he => hafter.tidy.found h.standard h.permitted he (hall e he), fun e he => ?_⟩
    rw [hafter.called e he, if_pos (hall e he)]

end Histories

/-- A second event of the same moment. -/
def another : TimedEvent where
  timestamp := halfPast.timestamp
  kind := "MessageEvent".toList
  idHex := "0000000000000000000000000000000b".toList
  date := halfPast.date
  hid := by decide

/-- The save of the second event raises. -/
def cutRun : Run where
  pages := [[halfPast, another]]
  conversationRaises := false
  requestRaises _ := false
  saveRaises e := if e.idHex = another.idHex then some .before else none

def quietRun : Run := { cutRun with saveRaises := fun _ => none }

def cutBehind : History oneConversation () where
  files := []
  runs := [cutRun]
  last := quietRun
  standard := standard_oneConversation
  permitted := permitted_oneConversation
  grows := fun run hrun => by rw [List.mem_singleton.mp hrun]; exact fun e he => he
  ids := fun run hrun => by
    have hpages : run.pages = [[halfPast, another]] := by
      rcases List.mem_cons.mp hrun with rfl | hrun
      · rfl
      · rw [List.mem_singleton.mp hrun]
        rfl
    rw [Run.events, hpages]
    decide
  fresh := fun _ _ => rfl
  conversation := rfl
  requests := fun _ => rfl
  saves := fun _ => rfl

theorem callbacks_lost : ¬ ∀ env conversationId (h : History env conversationId), Complete env h.last.events h.state := by
  intro hall
  have honce := (hall oneConversation () cutBehind).once halfPast List.mem_cons_self
  have hnever : timesCalled cutBehind.state halfPast = 0 := by decide +kernel
  omega

end OpenHands.RefreshConversation
