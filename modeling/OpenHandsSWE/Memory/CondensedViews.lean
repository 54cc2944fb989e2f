import OpenHandsSWE.Memory.Condensers

/-! What is left of a view after each of the condensers. -/

namespace OpenHands

/-! ## The first and the most recent events -/

namespace RecentEventsCondenser

section Recent

variable {keepFirst maxEvents : Int} {view result : List Event}

/-- A sublist takes every event of the view at most once, and in order. -/
structure KeepsRecent (keepFirst maxEvents : Int) (view result : List Event) : Prop where
  sublist : result.Sublist view
  length : (result.length : Int) = min (view.length : Int) maxEvents
  recent : ∃ recent, recent <:+ view.drop keepFirst.toNat ∧ result = view.take keepFirst.toNat ++ recent

theorem length_eq_min_iff (hkeep : 0 ≤ keepFirst) (hmax : keepFirst ≤ maxEvents) (hpos : 1 ≤ maxEvents) (n : Nat) :
    (length keepFirst maxEvents n : Int) = min (n : Int) maxEvents ↔
      n = 0 ∨ keepFirst = 0 ∨ (maxEvents ≤ n ∧ keepFirst < maxEvents) := by
  rw [length, Py.lengthTo, if_pos hkeep]
  unfold Py.lengthFrom
  split_ifs with htail <;> omega

/-- Where the tail is not empty, and does not reach into the head. -/
theorem keepsRecent_of_disjoint (hkeep : 0 ≤ keepFirst) (hlt : keepFirst < maxEvents) (hlong : maxEvents ≤ view.length) :
    KeepsRecent keepFirst maxEvents view (condense keepFirst maxEvents ⟨view, false⟩).events := by
  have hhead : Py.takeTo view keepFirst = view.take keepFirst.toNat := if_pos hkeep
  have hlength : (view.take keepFirst.toNat).length = keepFirst.toNat := by
    rw [List.length_take]
    omega
  have htail : Py.dropTo view (-max 0 (maxEvents - (keepFirst.toNat : Int))) =
      (view.drop keepFirst.toNat).drop (view.length - maxEvents.toNat) := by
    rw [Py.dropTo, if_neg (by omega), List.drop_drop]
    congr 1
    omega
  have hresult : (condense keepFirst maxEvents ⟨view, false⟩).events =
      view.take keepFirst.toNat ++ (view.drop keepFirst.toNat).drop (view.length - maxEvents.toNat) := by
    rw [condense, hhead, hlength, htail]
  have hdrop := List.drop_suffix (view.length - maxEvents.toNat) (view.drop keepFirst.toNat)
  refine ⟨?_, ?_, _, hdrop, hresult⟩
  · rw [hresult]
    conv_rhs => rw [← List.take_append_drop keepFirst.toNat view]
    exact (List.Sublist.refl _).append hdrop.sublist
  · rw [hresult, List.length_append, hlength, List.length_drop, List.length_drop]
    omega

/-- With no head to keep, the tail alone is what is asked for. -/
theorem keepsRecent_of_noHead (hpos : 1 ≤ maxEvents) :
    KeepsRecent 0 maxEvents view (condense 0 maxEvents ⟨view, false⟩).events := by
  have hresult : (condense 0 maxEvents ⟨view, false⟩).events = view.drop (view.length - maxEvents.toNat) := by
    have htail : -max 0 (maxEvents - (0 : Nat)) = -maxEvents := by omega
    rw [condense, Py.takeTo, if_pos (le_refl 0), Int.toNat_zero, List.take_zero, List.length_nil, List.nil_append,
      htail, Py.dropTo, if_neg (by omega), neg_neg]
  have hdrop := List.drop_suffix (view.length - maxEvents.toNat) view
  refine ⟨hresult ▸ hdrop.sublist, ?_, _, hdrop, hresult⟩
  rw [hresult, List.length_drop]
  omega

/-- With the whole view in the head, or room for more events than there are, some are taken twice; with no room
left by the head, the slice from `-0` is the whole view. -/
theorem keepsRecent_iff (hkeep : 0 ≤ keepFirst) (hmax : keepFirst ≤ maxEvents) (hpos : 1 ≤ maxEvents) (view : View) :
    KeepsRecent keepFirst maxEvents view.events (condense keepFirst maxEvents view).events ↔
      view.events = [] ∨ keepFirst = 0 ∨ (maxEvents ≤ view.events.length ∧ keepFirst < maxEvents) := by
  constructor
  · intro h
    have hlength := h.length
    rw [length_recentEvents, length_eq_min_iff hkeep hmax hpos] at hlength
    exact hlength.imp_left List.length_eq_zero_iff.mp
  · rintro (hnil | rfl | ⟨hlong, hlt⟩)
    · have hresult : (condense keepFirst maxEvents view).events = [] := by
        apply List.length_eq_zero_iff.mp
        have hlength := (length_eq_min_iff hkeep hmax hpos 0).mpr (.inl rfl)
        rw [length_recentEvents, hnil, List.length_nil]
        omega
      rw [hresult, hnil]
      exact ⟨List.Sublist.refl _, by simp; omega, [], List.nil_suffix, by simp⟩
    · exact keepsRecent_of_noHead hpos
    · exact keepsRecent_of_disjoint hkeep hlt hlong

def twoGreetings : View := { events := [userGreeting, { userGreeting with id := 1 }] }

theorem keepsRecent_iff_one : KeepsRecent 0 1 twoGreetings.events (condense 0 1 twoGreetings).events :=
  (keepsRecent_iff (by decide) (by decide) (by decide) twoGreetings).mpr (.inr (.inl rfl))

/-- The defaults, before there are ten events. -/
theorem recent_takenTwice : ¬ ∀ (keepFirst maxEvents : Int) (view : View), 0 ≤ keepFirst → keepFirst ≤ maxEvents →
    1 ≤ maxEvents → KeepsRecent keepFirst maxEvents view.events (condense keepFirst maxEvents view).events := by
  intro h
  have hlength := (h 1 10 twoGreetings (by decide) (by decide) (by decide)).length
  rw [length_recentEvents] at hlength
  exact absurd hlength (by decide)

end Recent

end RecentEventsCondenser

/-- The view with the condensation as its next event. -/
def View.applied (view : View) (a : CondensationAction) (id : Int) : View :=
  fromEvents (view.events ++ [{ body := .action (.condensation a), id, source := some .agent }])

/-- Of a view as `from_events` makes it, a condensation without a summary leaves what it does not forget. -/
theorem View.applied_events {view : View} {a : CondensationAction} {id : Int}
    (hview : ∀ e ∈ view.events, e.isConversation = true) (hid : id ∉ view.events.map Event.id)
    (hsummary : a.summary = none) :
    (view.applied a id).events = view.events.filter fun e => !a.forgotten.contains e.id := by
  have hnone : forgottenEventIds view.events = [] :=
    List.flatMap_eq_nil_iff.mpr fun e he => forgottenBy_conversation (hview e he)
  have hkept : keptEvents view.events = view.events := by
    rw [keptEvents, hnone]
    exact List.filter_eq_self.mpr fun e _ => rfl
  have hlast : lastSummary view.events = none :=
    List.findSome?_eq_none_iff.mpr fun e he => summaryOf_conversation (hview e (List.mem_reverse.mp he))
  let next : Event := { body := .action (.condensation a), id, source := some .agent }
  have hby : forgottenBy next = a.forgotten ++ [id] := rfl
  have hof : summaryOf next = none := by
    show (do let summary ← a.summary; let offset ← a.summaryOffset; return (summary, offset)) = none
    rw [hsummary]
    rfl
  have hself : [next].filter (fun x => !(forgottenEventIds (view.events ++ [next])).contains x.id) = [] := by
    rw [forgottenEventIds_append, hnone, List.nil_append, hby]
    simp [next]
  show insertSummary (keptEvents (view.events ++ [next])) (lastSummary (view.events ++ [next])) = _
  rw [lastSummary_append, hof, hlast, keptEvents_append, hkept, hself, hby, List.append_nil]
  refine List.filter_congr fun e he => ?_
  have hne : e.id ≠ id := fun h => hid (h ▸ List.mem_map_of_mem he)
  simp [hne]

/-! ## The events the LLM has picked -/

namespace LLMAttentionCondenser

section Padding

variable {α : Type*} [DecidableEq α]

/-- What is not yet among the picks is added to them until there are enough. -/
def pad (size : Int) (picks xs : List α) : List α :=
  xs.foldl (fun picks x => if size ≤ picks.length ∨ x ∈ picks then picks else picks ++ [x]) picks

theorem pad_cons (size : Int) (picks : List α) (x : α) (xs : List α) : pad size picks (x :: xs) =
    pad size (if size ≤ picks.length ∨ x ∈ picks then picks else picks ++ [x]) xs := rfl

theorem pad_full {size : Int} {picks : List α} (h : size ≤ picks.length) (xs : List α) : pad size picks xs = picks := by
  induction xs with
  | nil => rfl
  | cons x xs ih => rw [pad_cons, if_pos (.inl h), ih]

/-- Enough elements that are not among the picks fill them up to the size. -/
theorem pad_eq_append {size : Int} {picks xs : List α} (hxs : xs.Nodup) (hle : picks.length ≤ size)
    (henough : size ≤ picks.length + (xs.filter fun x => !picks.contains x).length) :
    ∃ added, pad size picks xs = picks ++ added ∧ added.Nodup ∧ (∀ x ∈ added, x ∈ xs ∧ x ∉ picks) ∧
      ((picks ++ added).length : Int) = size := by
  induction xs generalizing picks with
  | nil =>
    rw [List.filter_nil, List.length_nil] at henough
    refine ⟨[], (List.append_nil picks).symm, List.nodup_nil, List.forall_mem_nil _, ?_⟩
    rw [List.append_nil]
    omega
  | cons x xs ih =>
    obtain ⟨hx, hxs⟩ := List.nodup_cons.mp hxs
    by_cases hfull : size ≤ picks.length
    · refine ⟨[], ?_, List.nodup_nil, List.forall_mem_nil _, ?_⟩
      · rw [pad_full hfull, List.append_nil]
      · rw [List.append_nil]
        omega
    · by_cases hmem : x ∈ picks
      · -- a pick already: nothing is added for it
        rw [List.filter_cons_of_neg (by simp [hmem])] at henough
        obtain ⟨added, heq, hnodup, hadded, hlength⟩ := ih hxs hle henough
        refine ⟨added, ?_, hnodup, fun y hy => ⟨List.mem_cons_of_mem _ (hadded y hy).1, (hadded y hy).2⟩, hlength⟩
        rw [pad_cons, if_pos (.inr hmem), heq]
      · have hrest : xs.filter (fun y => !(picks ++ [x]).contains y) = xs.filter fun y => !picks.contains y := by
          refine List.filter_congr fun y hy => ?_
          have hne : y ≠ x := fun h => hx (h ▸ hy)
          simp [hne]
        rw [List.filter_cons_of_pos (by simp [hmem]), List.length_cons] at henough
        have hle' : ((picks ++ [x]).length : Int) ≤ size := by
          rw [List.length_append, List.length_singleton]
          omega
        have henough' : size ≤ (picks ++ [x]).length + (xs.filter fun y => !(picks ++ [x]).contains y).length := by
          rw [hrest, List.length_append, List.length_singleton]
          push_cast at henough ⊢
          omega
        obtain ⟨added, heq, hnodup, hadded, hlength⟩ := ih hxs hle' henough'
        refine ⟨x :: added, ?_, ?_, ?_, ?_⟩
        · rw [pad_cons, if_neg (by simp [hfull, hmem]), heq, List.append_assoc, List.singleton_append]
        · have hnew : x ∉ added := fun h => (hadded x h).2 (by simp)
          exact List.nodup_cons.mpr ⟨hnew, hnodup⟩
        · intro y hy
          rcases List.mem_cons.mp hy with rfl | hy
          · exact ⟨List.mem_cons_self, hmem⟩
          · exact ⟨List.mem_cons_of_mem _ (hadded y hy).1, fun h => (hadded y hy).2 (List.mem_append_left _ h)⟩
        · rw [← hlength, List.append_assoc, List.singleton_append]

/-- As many elements are among the picks as there are picks, when these are distinct elements. -/
theorem length_filter_contains_iff {xs picks : List α} (hxs : xs.Nodup) :
    (xs.filter fun x => picks.contains x).length = picks.length ↔ picks.Nodup ∧ ∀ x ∈ picks, x ∈ xs := by
  have hnodup := hxs.filter fun x => picks.contains x
  have hsubset : xs.filter (fun x => picks.contains x) ⊆ picks := fun x hx => by
    simpa using (List.mem_filter.mp hx).2
  constructor
  · intro h
    have hperm := (List.subperm_of_subset hnodup hsubset).perm_of_length_le h.ge
    exact ⟨hperm.nodup_iff.mp hnodup, fun x hx => (List.mem_filter.mp (hperm.mem_iff.mpr hx)).1⟩
  · rintro ⟨hpicks, hmem⟩
    have hback : picks ⊆ xs.filter fun x => picks.contains x := fun x hx =>
      List.mem_filter.mpr ⟨hmem x hx, by simpa using hx⟩
    apply le_antisymm
    · exact (List.subperm_of_subset hnodup hsubset).length_le
    · exact (List.subperm_of_subset hpicks hback).length_le

end Padding

section Target

variable (c : SummarySizes) (ids : List Int) (view : View)

/-- What is left of the answer once the first events and what is too much are taken from it. -/
def picks : List Int :=
  let headEventIds := (Py.takeTo view.events c.keepFirst).map Event.id
  Py.takeTo (ids.filter fun i => !headEventIds.contains i) (c.maxSize / 2 - headEventIds.length)

structure OnTarget (result : View) : Prop where
  length : (result.events.length : Int) = c.maxSize / 2
  head : view.events.take c.keepFirst.toNat <+: result.events
  sublist : result.events.Sublist view.events

variable {c ids view}

theorem takeTo_keepFirst : Py.takeTo view.events c.keepFirst = view.events.take c.keepFirst.toNat :=
  if_pos c.keepFirst_nonneg

theorem picks_eq : picks c ids view =
    Py.takeTo (ids.filter fun i => !((view.events.take c.keepFirst.toNat).map Event.id).contains i)
      (c.maxSize / 2 - (view.events.take c.keepFirst.toNat).length) := by
  rw [picks, takeTo_keepFirst, List.length_map]

theorem getCondensation_eq : getCondensation c ids view = ConversationWindowCondenser.forgetIds
    ((view.events.map Event.id).filter fun i =>
      !(pad (c.maxSize / 2 - (view.events.take c.keepFirst.toNat).length) (picks c ids view)
        (view.events.map Event.id).reverse).contains i &&
      !((view.events.take c.keepFirst.toNat).map Event.id).contains i) := by
  rw [picks_eq, ← List.map_reverse]
  unfold getCondensation pad
  simp only [takeTo_keepFirst, List.length_map, List.foldl_map]

theorem length_head (hlong : c.maxSize < view.events.length) :
    (view.events.take c.keepFirst.toNat).length = c.keepFirst.toNat := by
  have hlt := c.keepFirst_lt
  have hnonneg := c.keepFirst_nonneg
  have hpos := c.maxSize_pos
  rw [List.length_take]
  omega

/-- The picks are filled up from the end of the view, and there are enough events after the first ones. -/
theorem pad_picks (ids : List Int) (hids : (view.events.map Event.id).Nodup) (hlong : c.maxSize < view.events.length) :
    ∃ added, pad (c.maxSize / 2 - c.keepFirst) (picks c ids view) (view.events.map Event.id).reverse =
        picks c ids view ++ added ∧ added.Nodup ∧
      (∀ i ∈ added, i ∈ (view.events.drop c.keepFirst.toNat).map Event.id ∧ i ∉ picks c ids view) ∧
      ((picks c ids view ++ added).length : Int) = c.maxSize / 2 - c.keepFirst := by
  have hlt := c.keepFirst_lt
  have hnonneg := c.keepFirst_nonneg
  have hpos := c.maxSize_pos
  have hhead := length_head hlong
  have hcut : (picks c ids view).length ≤ c.maxSize / 2 - c.keepFirst := by
    rw [picks_eq, hhead, Py.takeTo, if_pos (by omega), List.length_take]
    omega
  let tail := ((view.events.drop c.keepFirst.toNat).map Event.id).reverse
  have hsplit : (view.events.map Event.id).reverse =
      tail ++ ((view.events.take c.keepFirst.toNat).map Event.id).reverse := by
    rw [← List.reverse_append, ← List.map_append, List.take_append_drop]
  have htail : tail.Nodup := by
    have h := List.nodup_reverse.mpr hids
    rw [hsplit] at h
    exact h.of_append_left
  have henough : c.maxSize / 2 - c.keepFirst ≤
      (picks c ids view).length + (tail.filter fun i => !(picks c ids view).contains i).length := by
    -- at most as many events as there are picks are among the picks
    have hsome : (tail.filter fun i => (picks c ids view).contains i).length ≤ (picks c ids view).length := by
      refine (List.subperm_of_subset (htail.filter _) fun i hi => ?_).length_le
      simpa using (List.mem_filter.mp hi).2
    have hall := List.length_eq_length_filter_add (l := tail) fun i => (picks c ids view).contains i
    have hlength : tail.length = view.events.length - c.keepFirst.toNat := by simp [tail]
    omega
  obtain ⟨added, heq, hnodup, hadded, hlength⟩ := pad_eq_append htail hcut henough
  refine ⟨added, ?_, hnodup, fun i hi => ⟨List.mem_reverse.mp (hadded i hi).1, (hadded i hi).2⟩, hlength⟩
  rw [hsplit, pad, List.foldl_append]
  show pad _ (pad _ (picks c ids view) tail) _ = _
  rw [heq, pad_full hlength.ge]

theorem not_mem_head_of_mem_picks {i : Int} (hi : i ∈ picks c ids view) :
    i ∉ (view.events.take c.keepFirst.toNat).map Event.id := by
  rw [picks_eq] at hi
  unfold Py.takeTo at hi
  have hmem : i ∈ ids.filter fun i => !((view.events.take c.keepFirst.toNat).map Event.id).contains i := by
    split_ifs at hi <;> exact List.mem_of_mem_take hi
  simpa using (List.mem_filter.mp hmem).2

theorem not_forgotten {all head kept : List Int} {i : Int} (hi : i ∈ all) :
    (!(ConversationWindowCondenser.forgetIds (all.filter fun i => !kept.contains i && !head.contains i)).forgotten.contains
      i) = (kept.contains i || head.contains i) := by
  rw [Bool.eq_iff_iff]
  simp [ConversationWindowCondenser.forgetIds, CondensationAction.forgotten, hi]

/-- The first events stay, and of the others those among the picks. -/
theorem applied_getCondensation (ids : List Int) {id : Int} (hview : ∀ e ∈ view.events, e.isConversation = true)
    (hids : (view.events.map Event.id).Nodup) (hlong : c.maxSize < view.events.length)
    (hid : id ∉ view.events.map Event.id) :
    (view.applied (getCondensation c ids view) id).events = view.events.take c.keepFirst.toNat ++
      (view.events.drop c.keepFirst.toNat).filter fun e =>
        (pad (c.maxSize / 2 - c.keepFirst) (picks c ids view) (view.events.map Event.id).reverse).contains e.id := by
  have hhead : (view.events.take c.keepFirst.toNat).length = c.keepFirst := by
    rw [length_head hlong]
    exact Int.toNat_of_nonneg c.keepFirst_nonneg
  have happ : (view.events.take c.keepFirst.toNat).map Event.id ++ (view.events.drop c.keepFirst.toNat).map Event.id =
      view.events.map Event.id := by
    rw [← List.map_append, List.take_append_drop]
  have hdisjoint := List.disjoint_of_nodup_append (happ ▸ hids)
  rw [View.applied_events hview hid (by rw [getCondensation_eq]; rfl)]
  conv_lhs => rw [← List.take_append_drop c.keepFirst.toNat view.events, List.filter_append]
  rw [getCondensation_eq, hhead]
  congr 1
  · refine List.filter_eq_self.mpr fun e he => ?_
    have hmem : e.id ∈ (view.events.take c.keepFirst.toNat).map Event.id := List.mem_map_of_mem he
    rw [not_forgotten (List.mem_map_of_mem (List.mem_of_mem_take he)), List.contains_iff_mem.mpr hmem, Bool.or_true]
  · refine List.filter_congr fun e he => ?_
    have hno : e.id ∉ (view.events.take c.keepFirst.toNat).map Event.id := fun h => hdisjoint h (List.mem_map_of_mem he)
    rw [not_forgotten (List.mem_map_of_mem (List.mem_of_mem_drop he)),
      Bool.eq_false_iff.mpr (mt List.contains_iff_mem.mp hno), Bool.or_false]

/-- The target is met exactly when the picks, cut to their number, are distinct events of the view. -/
theorem onTarget_iff (c : SummarySizes) (ids : List Int) (view : View) (id : Int)
    (hview : ∀ e ∈ view.events, e.isConversation = true) (hids : (view.events.map Event.id).Nodup)
    (hlong : c.maxSize < view.events.length) (hid : id ∉ view.events.map Event.id) :
    OnTarget c view (view.applied (getCondensation c ids view) id) ↔
      (picks c ids view).Nodup ∧ ∀ i ∈ picks c ids view, i ∈ view.events.map Event.id := by
  obtain ⟨added, hpad, hadded, hnew, hlength⟩ := pad_picks ids hids hlong
  have hevents := applied_getCondensation ids hview hids hlong hid
  rw [hpad] at hevents
  let tail := (view.events.drop c.keepFirst.toNat).map Event.id
  have htail : tail.Nodup := by
    have happ := hids
    rw [← List.take_append_drop c.keepFirst.toNat view.events, List.map_append] at happ
    exact happ.of_append_right
  have hcount : ((view.applied (getCondensation c ids view) id).events.length : Int) = c.maxSize / 2 ↔
      (picks c ids view ++ added).Nodup ∧ ∀ i ∈ picks c ids view ++ added, i ∈ tail := by
    have hfilter : ((view.events.drop c.keepFirst.toNat).filter fun e => (picks c ids view ++ added).contains e.id).length =
        (tail.filter fun i => (picks c ids view ++ added).contains i).length := by
      rw [List.filter_map, List.length_map]
      rfl
    rw [← length_filter_contains_iff htail, ← hfilter, hevents, List.length_append, length_head hlong]
    have hnonneg := c.keepFirst_nonneg
    push_cast
    omega
  have hinTail : (∀ i ∈ picks c ids view, i ∈ view.events.map Event.id) ↔ ∀ i ∈ picks c ids view, i ∈ tail := by
    refine forall₂_congr fun i hi => ?_
    conv_lhs => rw [← List.take_append_drop c.keepFirst.toNat view.events, List.map_append, List.mem_append]
    exact or_iff_right (not_mem_head_of_mem_picks hi)
  have hnodup : (picks c ids view ++ added).Nodup ↔ (picks c ids view).Nodup := by
    refine ⟨List.Nodup.of_append_left, fun h => h.append hadded ?_⟩
    exact fun i hi hi' => (hnew i hi').2 hi
  have hmem : (∀ i ∈ picks c ids view ++ added, i ∈ tail) ↔ ∀ i ∈ picks c ids view, i ∈ tail := by
    rw [List.forall_mem_append]
    exact and_iff_left fun i hi => (hnew i hi).1
  rw [hinTail, ← hnodup, ← hmem, ← hcount]
  refine ⟨OnTarget.length, fun h => ⟨h, ?_, ?_⟩⟩
  · rw [hevents]
    exact List.prefix_append _ _
  · rw [hevents]
    conv_rhs => rw [← List.take_append_drop c.keepFirst.toNat view.events]
    exact (List.Sublist.refl _).append List.filter_sublist

def threeGreetings : View :=
  { events := [userGreeting, { userGreeting with id := 1 }, { userGreeting with id := 2 }] }

theorem threeGreetings_conversation : ∀ e ∈ threeGreetings.events, e.isConversation = true := by decide +kernel

/-- A half of one event each. -/
def smallest : SummarySizes := ⟨2, 0, by decide, by decide, by decide⟩

theorem onTarget_iff_last : OnTarget smallest threeGreetings (threeGreetings.applied (getCondensation smallest [2] threeGreetings) 3) :=
  (onTarget_iff smallest [2] threeGreetings 3 threeGreetings_conversation (by decide) (by decide) (by decide)).mpr
    ⟨by decide, by decide⟩

/-- An id from outside the view counts, but keeps nothing. -/
theorem target_missed : ¬ ∀ (c : SummarySizes) (ids : List Int) (view : View) (id : Int),
    (∀ e ∈ view.events, e.isConversation = true) → (view.events.map Event.id).Nodup →
    c.maxSize < view.events.length → id ∉ view.events.map Event.id →
    OnTarget c view (view.applied (getCondensation c ids view) id) := by
  intro h
  have hlength := (h smallest [9] threeGreetings 3 threeGreetings_conversation (by decide) (by decide) (by decide)).length
  rw [View.applied_events threeGreetings_conversation (by decide) rfl] at hlength
  exact absurd hlength (by decide +kernel)

end Target

end LLMAttentionCondenser

/-! ## The window over the conversation -/

namespace ConversationWindowCondenser

/-- Where the recent half of the view starts. -/
def sliceStartIndex (essential : List Int) (events : List Event) : Nat :=
  let total : Int := events.length
  (max 0 (total - max 1 ((total - essential.length) / 2))).toNat

/-- What becomes of the pairs, the first events and the history as a whole. -/
structure KeepsWindow (essential : List Int) (events : List Event) (a : CondensationAction) : Prop where
  essentials : ∀ i ∈ essential, i ∉ a.forgotten
  pairs : ∀ o ∈ events, o.isObservation = true → o.id ∉ essential → o.id ∉ a.forgotten →
    ∀ e ∈ events, e.isObservation = false → o.cause = some e.id → e.id ∉ a.forgotten
  progress : 2 ≤ (events.filter fun e => !essential.contains e.id).length → ∃ e ∈ events, e.id ∈ a.forgotten

/-- The cut lies between an action and its observation, and before the observation it leaves another event that
is not one. -/
def CutsPair (essential : List Int) (events : List Event) : Prop :=
  ∃ e ∈ events.take (sliceStartIndex essential events), ∃ before x between o after,
    events.drop (sliceStartIndex essential events) = before ++ x :: (between ++ o :: after) ∧ x.isObservation = false ∧
      e.isObservation = false ∧ o.isObservation = true ∧ o.cause = some e.id ∧ e.id ∉ essential ∧ o.id ∉ essential

section Contiguous

/-- Ascending numbers as many as from the first to the last are all of these. -/
theorem mem_iff_of_contiguous {ids : List Int} {s t i : Int} (hsorted : ids.Pairwise (· ≤ ·)) (hnodup : ids.Nodup)
    (hs : ids.head? = some s) (ht : ids.getLast? = some t) (hlength : t - s = ids.length - 1) :
    i ∈ ids ↔ s ≤ i ∧ i ≤ t := by
  have hbounds : ∀ i ∈ ids, s ≤ i ∧ i ≤ t := by
    intro i hi
    constructor
    · obtain ⟨rest, rfl⟩ := List.head?_eq_some_iff.mp hs
      rcases List.mem_cons.mp hi with rfl | hi
      · exact le_refl i
      · exact (List.pairwise_cons.mp hsorted).1 i hi
    · obtain ⟨init, rfl⟩ := List.getLast?_eq_some_iff.mp ht
      rcases List.mem_append.mp hi with hi | hi
      · exact (List.pairwise_append.mp hsorted).2.2 i hi t (List.mem_singleton_self t)
      · exact (List.mem_singleton.mp hi).le
  refine ⟨hbounds i, fun hi => ?_⟩
  have hsubset : ids.toFinset ⊆ Finset.Icc s t := fun i hi => Finset.mem_Icc.mpr (hbounds i (List.mem_toFinset.mp hi))
  have hcard : (Finset.Icc s t).card ≤ ids.toFinset.card := by
    rw [Int.card_Icc, List.toFinset_card_of_nodup hnodup]
    omega
  rw [← List.mem_toFinset, Finset.eq_of_subset_of_card_le hsubset hcard]
  exact Finset.mem_Icc.mpr hi

end Contiguous

section Window

variable {view : View} {essential : List Int}

/-- A list or a range, the condensation forgets what is neither essential nor recent. -/
theorem mem_forgotten_getCondensation (hessential : essentialEvents view.events = some essential) {i : Int} :
    i ∈ (getCondensation view).forgotten ↔ i ∈ view.events.map Event.id ∧ i ∉ essential ∧
      i ∉ ((view.events.drop (sliceStartIndex essential view.events)).dropWhile Event.isObservation).map Event.id := by
  let recent := (view.events.drop (sliceStartIndex essential view.events)).dropWhile Event.isObservation
  let forgotten := ((view.events.map Event.id).dedup.filter fun i =>
    !(essential ++ recent.map Event.id).contains i).insertionSort (· ≤ ·)
  have hmem : i ∈ forgotten ↔ i ∈ view.events.map Event.id ∧ i ∉ essential ∧ i ∉ recent.map Event.id := by
    rw [List.mem_insertionSort, List.mem_filter, List.mem_dedup, Bool.not_eq_true', Bool.eq_false_iff, Ne,
      List.contains_iff_mem, List.mem_append, not_or]
  have hlist : i ∈ (forgetIds forgotten).forgotten ↔ i ∈ forgotten := Iff.rfl
  rw [getCondensation, hessential, ← hmem]
  dsimp only
  split
  next s t hs ht =>
    split_ifs with hrange
    · rw [CondensationAction.mem_forgotten_range rfl rfl rfl]
      have hsorted : forgotten.Pairwise (· ≤ ·) := List.pairwise_insertionSort _ _
      have hnodup : forgotten.Nodup := (List.perm_insertionSort _ _).nodup_iff.mpr ((List.nodup_dedup _).filter _)
      exact (mem_iff_of_contiguous hsorted hnodup hs ht hrange.2).symm
    · exact hlist
  next hno =>
    have hnil : forgotten = [] := by
      cases hforgotten : forgotten with
      | nil => rfl
      | cons j rest =>
        have hhead : forgotten.head? = some j := congrArg List.head? hforgotten
        exact absurd ((congrArg List.getLast? hforgotten).trans List.getLast?_cons) (hno j _ hhead)
    rw [hnil]
    exact Iff.rfl

/-- An event after the cut stays when it comes after, or is, one that is no observation. -/
theorem mem_dropWhile_iff {events : List Event} {o : Event} (ho : o.isObservation = true) :
    o ∈ events.dropWhile Event.isObservation ↔
      ∃ before x between after, events = before ++ x :: (between ++ o :: after) ∧ x.isObservation = false := by
  induction events with
  | nil =>
    refine iff_of_false List.not_mem_nil ?_
    rintro ⟨before, x, between, after, heq, -⟩
    exact absurd heq.symm (List.append_ne_nil_of_right_ne_nil _ (List.cons_ne_nil _ _))
  | cons y events ih =>
    cases hy : y.isObservation with
    | true =>
      rw [List.dropWhile_cons_of_pos hy, ih]
      constructor
      · rintro ⟨before, x, between, after, rfl, hx⟩
        exact ⟨y :: before, x, between, after, rfl, hx⟩
      · rintro ⟨before, x, between, after, heq, hx⟩
        cases before with
        | nil =>
          obtain ⟨rfl, -⟩ := List.cons.inj heq
          exact absurd hx (by rw [hy]; decide)
        | cons z before => exact ⟨before, x, between, after, (List.cons.inj heq).2, hx⟩
    | false =>
      rw [List.dropWhile_cons_of_neg (by rw [hy]; decide)]
      constructor
      · intro hmem
        rcases List.mem_cons.mp hmem with rfl | hmem
        · exact absurd ho (by rw [hy]; decide)
        · obtain ⟨between, after, rfl⟩ := List.append_of_mem hmem
          exact ⟨[], y, between, after, rfl, hy⟩
      · rintro ⟨before, x, between, after, heq, -⟩
        rw [heq]
        simp

/-- At most half of the others are recent, or one of at least two. -/
theorem progress_getCondensation (hessential : essentialEvents view.events = some essential)
    (hids : (view.events.map Event.id).Nodup)
    (htwo : 2 ≤ (view.events.filter fun e => !essential.contains e.id).length) :
    ∃ e ∈ view.events, e.id ∈ (getCondensation view).forgotten := by
  by_contra hnone
  let others := view.events.filter fun e => !essential.contains e.id
  let recent := (view.events.drop (sliceStartIndex essential view.events)).dropWhile Event.isObservation
  have hothers : (others.map Event.id).Nodup := (List.filter_sublist.map Event.id).nodup hids
  have hsubset : others.map Event.id ⊆ recent.map Event.id := by
    intro i hi
    obtain ⟨e, he, rfl⟩ := List.mem_map.mp hi
    obtain ⟨hmem, hno⟩ := List.mem_filter.mp he
    by_contra hold
    refine hnone ⟨e, hmem, (mem_forgotten_getCondensation hessential).mpr ⟨List.mem_map_of_mem hmem, ?_, hold⟩⟩
    simpa using hno
  have hle := (List.subperm_of_subset hothers hsubset).length_le
  rw [List.length_map, List.length_map] at hle
  have hrecent : recent.length ≤ view.events.length - sliceStartIndex essential view.events := by
    rw [← List.length_drop]
    exact (List.dropWhile_sublist _).length_le
  -- every essential id is that of one event at most
  have hessentials : (view.events.filter fun e => essential.contains e.id).length ≤ essential.length := by
    rw [← List.length_map (f := Event.id)]
    refine (List.subperm_of_subset ((List.filter_sublist.map Event.id).nodup hids) fun i hi => ?_).length_le
    obtain ⟨e, he, rfl⟩ := List.mem_map.mp hi
    simpa using (List.mem_filter.mp he).2
  have hall := List.length_eq_length_filter_add (l := view.events) fun e => essential.contains e.id
  have hstart : (sliceStartIndex essential view.events : Int) =
      max 0 ((view.events.length : Int) - max 1 (((view.events.length : Int) - essential.length) / 2)) :=
    Int.toNat_of_nonneg (le_max_left _ _)
  have hlength : others.length = (view.events.filter fun e => !essential.contains e.id).length := rfl
  omega

/-- All holds of a view unless the cut separates a pair. -/
theorem keepsWindow_iff (view : View) (essential : List Int) (hessential : essentialEvents view.events = some essential)
    (hids : (view.events.map Event.id).Nodup) :
    KeepsWindow essential view.events (getCondensation view) ↔ ¬ CutsPair essential view.events := by
  let start := sliceStartIndex essential view.events
  have hsplit : view.events.take start ++ view.events.drop start = view.events := List.take_append_drop _ _
  have hids' : ((view.events.take start).map Event.id ++ (view.events.drop start).map Event.id).Nodup := by
    rw [← List.map_append, hsplit]
    exact hids
  have hold {i : Int} (hi : i ∈ (view.events.take start).map Event.id) :
      i ∉ ((view.events.drop start).dropWhile Event.isObservation).map Event.id := by
    intro hrecent
    exact List.disjoint_of_nodup_append hids' hi
      (List.map_subset _ (List.dropWhile_sublist _).subset hrecent)
  constructor
  · rintro h ⟨e, he, before, x, between, o, after, heq, hx, hobs, ho, hcause, hne, hno⟩
    have hrecent : o ∈ (view.events.drop start).dropWhile Event.isObservation :=
      (mem_dropWhile_iff ho).mpr ⟨before, x, between, after, heq, hx⟩
    have hkept : o.id ∉ (getCondensation view).forgotten := fun hforgotten =>
      ((mem_forgotten_getCondensation hessential).mp hforgotten).2.2 (List.mem_map_of_mem hrecent)
    have hmem : o ∈ view.events := List.mem_of_mem_drop ((List.dropWhile_sublist _).subset hrecent)
    have hmem' : e ∈ view.events := List.mem_of_mem_take he
    refine h.pairs o hmem ho hno hkept e hmem' hobs hcause ((mem_forgotten_getCondensation hessential).mpr ?_)
    exact ⟨List.mem_map_of_mem hmem', hne, hold (List.mem_map_of_mem he)⟩
  · intro hcuts
    refine ⟨fun i hi hforgotten => ?_, ?_, progress_getCondensation hessential hids⟩
    · exact ((mem_forgotten_getCondensation hessential).mp hforgotten).2.1 hi
    · intro o hmem ho hno hkept e hmem' hobs hcause hforgotten
      obtain ⟨-, hne, hold'⟩ := (mem_forgotten_getCondensation hessential).mp hforgotten
      -- the observation is kept for being recent, and the action is not
      have hrecent : o ∈ (view.events.drop start).dropWhile Event.isObservation := by
        by_contra hnot
        refine hkept ((mem_forgotten_getCondensation hessential).mpr ⟨List.mem_map_of_mem hmem, hno, fun hin => ?_⟩)
        obtain ⟨o', ho', hid⟩ := List.mem_map.mp hin
        have hsame : o' = o := List.inj_on_of_nodup_map hids
          (List.mem_of_mem_drop ((List.dropWhile_sublist _).subset ho')) hmem hid
        exact hnot (hsame ▸ ho')
      obtain ⟨before, x, between, after, heq, hx⟩ := (mem_dropWhile_iff ho).mp hrecent
      have htake : e ∈ view.events.take start := by
        rw [← hsplit, List.mem_append] at hmem'
        refine hmem'.resolve_right fun hdrop => hold' (List.mem_map_of_mem ?_)
        -- only observations are dropped after the cut
        rw [← List.takeWhile_append_dropWhile (p := Event.isObservation) (l := view.events.drop start),
          List.mem_append] at hdrop
        refine hdrop.resolve_left fun htaken => ?_
        exact absurd (List.mem_takeWhile_imp htaken) (by rw [hobs]; decide)
      exact hcuts ⟨e, htake, before, x, between, o, after, heq, hx, hobs, ho, hcause, hne, hno⟩

def command (id : Int) : Event := { body := .action (.cmdRun { command := "ls" }), id, source := some .agent }

def answerTo (id cause : Int) : Event :=
  { body := .observation (.null { content := "" }), id, cause := some cause, source := some .environment }

/-- Three commands at once, of which the first has been answered. -/
def parallel : View := { events := [userGreeting, command 1, command 2, command 3, answerTo 4 1] }

theorem keepsWindow_iff_greetings :
    KeepsWindow [0] LLMAttentionCondenser.threeGreetings.events (getCondensation LLMAttentionCondenser.threeGreetings) := by
  refine (keepsWindow_iff LLMAttentionCondenser.threeGreetings [0] (by decide +kernel) (by decide)).mpr ?_
  rintro ⟨e, he, before, x, between, o, after, heq, hx, hobs, ho, -⟩
  have hmem : o ∈ LLMAttentionCondenser.threeGreetings.events := by
    apply List.mem_of_mem_drop
    rw [heq]
    simp
  have hnone : ∀ o ∈ LLMAttentionCondenser.threeGreetings.events, o.isObservation = false := by decide +kernel
  exact absurd ho (by rw [hnone o hmem]; decide)

/-- The answer to the first command is kept, and the command forgotten. -/
theorem pair_cut : ¬ ∀ (view : View) (essential : List Int), essentialEvents view.events = some essential →
    (view.events.map Event.id).Nodup → (view.events.Pairwise fun o e => o.cause ≠ some e.id) →
    KeepsWindow essential view.events (getCondensation view) := by
  intro h
  have hwindow := h parallel [0] (by decide +kernel) (by decide) (by decide +kernel)
  exact hwindow.pairs (answerTo 4 1) (by decide +kernel) rfl (by decide) (by decide +kernel) (command 1) (by decide +kernel)
    rfl rfl (by decide +kernel)

end Window

end ConversationWindowCondenser

/-! ## Requests -/

/-- `event.message` raises where the reason of a rejection is not a text. -/
def messageError (e : Event) : Option PyError :=
  match e.body with
  | .action (.agentReject a) =>
    match Assoc.get? "reason" a.outputs with
    | none | some (.str _) => none
    | some v => some (.typeError ("can only concatenate str (not \"" ++ v.typeName ++ "\") to str"))
  | _ => none

namespace LLMAttentionCondenser

/-- Every event is put into the messages for the LLM before it can answer. -/
def completion (answer : View → List Int) (view : View) : Except PyError (List Int) :=
  match view.events.findSome? messageError with
  | some err => .error err
  | none => .ok (answer view)

end LLMAttentionCondenser

namespace Condenser

/-- The condensers that keep a head and a target size, with an LLM that answers all it is asked. -/
def Answering : Condenser → Prop
  | amortizedForgetting _ => True
  | llmAttention _ llm => ∃ answer, llm = LLMAttentionCondenser.completion answer
  | summary _ _ _ llm => ∀ prompt, ∃ r, llm prompt = .ok r
  | _ => False

/-- What the view has to be like for a request to be served: there is something to forget, the summary leaves room
for a tail, and what the prompt shows can be shown. -/
def Servable : Condenser → View → Prop
  | amortizedForgetting c, view =>
    ∃ e ∈ view.events, e.id ∉ (view.events.take c.keepFirst.toNat).map Event.id ∧
      e.id ∉ (view.events.drop (view.events.length - (c.maxSize / 2 - c.keepFirst).toNat)).map Event.id
  | llmAttention _ _, view => ∀ e ∈ view.events, messageError e = none
  | summary _ c _ _, view =>
    c.keepFirst + 1 < c.maxSize / 2 ∧ (∃ e ∈ middle c view.events, e.isAgentCondensation = false) ∧
      ∀ e ∈ middle c view.events, strError e = none
  | _, _ => True

end Condenser

section Requests

variable {c : SummarySizes} {view : View}

theorem map_condensation_ok_iff {x : Except PyError CondensationAction} :
    (∃ a, x.map Condensed.condensation = .ok (.condensation a)) ↔ ∃ a, x = .ok a := by
  cases x with
  | error err =>
    constructor
    · rintro ⟨a, h⟩
      cases h
    · rintro ⟨a, h⟩
      cases h
  | ok a => exact iff_of_true ⟨a, rfl⟩ ⟨a, rfl⟩

theorem condense_of_shouldCondense {shouldCondense : View → Bool}
    {getCondensation : View → Except PyError CondensationAction} (h : shouldCondense view = true) :
    (∃ a, RollingCondenser.condense shouldCondense getCondensation view = .ok (.condensation a)) ↔
      ∃ a, getCondensation view = .ok a := by
  rw [RollingCondenser.condense, if_pos h]
  exact map_condensation_ok_iff

theorem shouldCondense_of_request (h : view.unhandledCondensationRequest = true) : c.shouldCondense view = true := by
  rw [SummarySizes.shouldCondense, h, Bool.or_true]

/-- The least and the greatest id are asked of what is to be forgotten. -/
theorem amortized_ok_iff : (∃ a, AmortizedForgettingCondenser.getCondensation c view = .ok a) ↔
    AmortizedForgettingCondenser.eventIdsToForget c view.events ≠ [] := by
  unfold AmortizedForgettingCondenser.getCondensation
  cases hids : AmortizedForgettingCondenser.eventIdsToForget c view.events with
  | nil =>
    refine iff_of_false ?_ (absurd rfl)
    rintro ⟨a, ha⟩
    cases ha
  | cons i ids =>
    rw [List.min?_cons', List.max?_cons']
    exact iff_of_true ⟨_, rfl⟩ (List.cons_ne_nil _ _)

theorem mem_eventIdsToKeep {i : Int} : i ∈ AmortizedForgettingCondenser.eventIdsToKeep c view.events ↔
    i ∈ (view.events.take c.keepFirst.toNat).map Event.id ∨
      i ∈ (view.events.drop (view.events.length - (c.maxSize / 2 - c.keepFirst).toNat)).map Event.id := by
  have hlt := c.keepFirst_lt
  have hnonneg := c.keepFirst_nonneg
  have hhead : Py.takeTo view.events c.keepFirst = view.events.take c.keepFirst.toNat := if_pos hnonneg
  rw [AmortizedForgettingCondenser.eventIdsToKeep, hhead, List.map_append, List.mem_append]
  rcases le_or_gt c.keepFirst.toNat view.events.length with hle | hgt
  · have hlength : (view.events.take c.keepFirst.toNat).length = c.keepFirst.toNat := List.length_take_of_le hle
    have htail : Py.dropTo view.events (-(c.maxSize / 2 - (c.keepFirst.toNat : Int))) =
        view.events.drop (view.events.length - (c.maxSize / 2 - c.keepFirst).toNat) := by
      rw [Py.dropTo, if_neg (by omega)]
      congr 1
      omega
    rw [hlength, htail]
  · -- a view that ends within the head is its head
    rw [List.take_of_length_le hgt.le]
    have hmem {events : List Event} (hsub : events ⊆ view.events) : i ∈ events.map Event.id → i ∈ view.events.map Event.id :=
      fun h => List.map_subset _ hsub h
    constructor
    · rintro (h | h)
      · exact .inl h
      · refine .inl (hmem (fun e he => ?_) h)
        unfold Py.dropTo at he
        split_ifs at he <;> exact List.mem_of_mem_drop he
    · rintro (h | h)
      · exact .inl h
      · exact .inl (hmem (List.drop_subset _ _) h)

theorem eventIdsToForget_ne_nil_iff : AmortizedForgettingCondenser.eventIdsToForget c view.events ≠ [] ↔
    ∃ e ∈ view.events, e.id ∉ (view.events.take c.keepFirst.toNat).map Event.id ∧
      e.id ∉ (view.events.drop (view.events.length - (c.maxSize / 2 - c.keepFirst).toNat)).map Event.id := by
  rw [AmortizedForgettingCondenser.eventIdsToForget, Ne, List.filter_eq_nil_iff, List.forall_mem_map]
  push Not
  refine exists_congr fun e => and_congr_right fun _ => ?_
  rw [Bool.not_eq_true', Bool.eq_false_iff, Ne, List.contains_iff_mem, mem_eventIdsToKeep, not_or]

theorem forgottenEvents_eq_middle (hlen : c.keepFirst < view.events.length) (htail : 0 < RollingShape.keptTail c) :
    c.forgottenEvents view.events = (middle c view.events).filter fun e => !e.isAgentCondensation := by
  rw [RollingShape.forgottenEvents_slice hlen htail, middle, List.drop_take]
  rfl

/-- The event after the head has to exist, every forgotten event has to be printed, and there has to be one. -/
theorem summary_ok_iff (text : String) : (∃ a, c.getCondensation text view = .ok a) ↔
    c.keepFirst + 1 < c.maxSize / 2 ∧ (∃ e ∈ middle c view.events, e.isAgentCondensation = false) ∧
      ∀ e ∈ middle c view.events, strError e = none := by
  have hkeep := c.keepFirst_lt
  have hnonneg := c.keepFirst_nonneg
  have hroom : 0 < RollingShape.keptTail c ↔ c.keepFirst + 1 < c.maxSize / 2 := by
    rw [RollingShape.keptTail]
    omega
  by_cases hlen : c.keepFirst < view.events.length
  · have hok : (∃ a, c.getCondensation text view = .ok a) ↔
        (c.forgottenEvents view.events).findSome? strError = none ∧ c.forgottenEvents view.events ≠ [] := by
      rw [SummarySizes.getCondensation, if_neg (not_le.mpr hlen)]
      cases hfind : (c.forgottenEvents view.events).findSome? strError with
      | some err =>
        refine iff_of_false ?_ fun h => Option.some_ne_none _ h.1
        rintro ⟨a, ha⟩
        cases ha
      | none =>
        dsimp only
        by_cases hnil : c.forgottenEvents view.events = []
        · rw [hnil]
          refine iff_of_false ?_ fun h => h.2 rfl
          rintro ⟨a, ha⟩
          cases ha
        · obtain ⟨s, hs⟩ := minId_ok hnil
          obtain ⟨t, ht⟩ := maxId_ok hnil
          rw [hs, ht]
          exact iff_of_true ⟨_, rfl⟩ ⟨rfl, hnil⟩
    rw [hok]
    by_cases htail : 0 < RollingShape.keptTail c
    · rw [printable_iff hlen htail, and_iff_right (hroom.mp htail), and_comm]
      apply and_congr_left'
      rw [forgottenEvents_eq_middle hlen htail, Ne, List.filter_eq_nil_iff]
      push Not
      simp only [Bool.not_eq_true']
    · have hnone := RollingShape.forgottenEvents_of_noTail hlen (Nat.eq_zero_of_not_pos htail)
      exact iff_of_false (fun h => h.2 hnone) fun h => htail (hroom.mpr h.1)
  · have hshort : view.events.length ≤ c.keepFirst.toNat := by omega
    have hmiddle : middle c view.events = [] := by
      rw [middle, List.drop_eq_nil_iff, List.length_take]
      omega
    rw [SummarySizes.getCondensation, if_pos (not_lt.mp hlen), hmiddle]
    refine iff_of_false ?_ ?_
    · rintro ⟨a, ha⟩
      cases ha
    · rintro ⟨-, ⟨e, he, -⟩, -⟩
      exact absurd he List.not_mem_nil

theorem prompt_ok_of_getCondensation {text : String} {a : CondensationAction} (maxEventLength : Int)
    (hok : c.getCondensation text view = .ok a) : ∃ prompt, c.prompt maxEventLength view = .ok prompt := by
  unfold SummarySizes.getCondensation at hok
  split_ifs at hok with hlen
  have hnonneg := c.keepFirst_nonneg
  have hlt : c.keepFirst.toNat < view.events.length := by omega
  have hnone : (c.forgottenEvents view.events).findSome? strError = none := by
    cases hfind : (c.forgottenEvents view.events).findSome? strError with
    | none => rfl
    | some err =>
      rw [hfind] at hok
      cases hok
  rw [SummarySizes.prompt, List.getElem?_eq_getElem hlt]
  dsimp only
  rw [hnone]
  exact ⟨_, rfl⟩

/-- Each condenser serves a request about the views where there is something to forget. -/
theorem request_answered_iff (p : Condenser) (hp : p.Answering) (view : View) (hrequest : view.unhandledCondensationRequest = true) :
    (∃ a, p.condense view = .ok (.condensation a)) ↔ p.Servable view := by
  cases p with
  | noOp => exact hp.elim
  | observationMasking w => exact hp.elim
  | browserOutput w => exact hp.elim
  | recentEvents k m => exact hp.elim
  | conversationWindow => exact hp.elim
  | amortizedForgetting c =>
    rw [Condenser.Servable, ← eventIdsToForget_ne_nil_iff, ← amortized_ok_iff]
    exact condense_of_shouldCondense (shouldCondense_of_request hrequest)
  | llmAttention c llm =>
    obtain ⟨answer, rfl⟩ := hp
    show (∃ a, RollingCondenser.condense c.shouldCondense (fun view => (LLMAttentionCondenser.completion answer view).map
      fun ids => LLMAttentionCondenser.getCondensation c ids view) view = .ok (.condensation a)) ↔ _
    rw [condense_of_shouldCondense (shouldCondense_of_request hrequest), Condenser.Servable,
      ← List.findSome?_eq_none_iff, LLMAttentionCondenser.completion]
    cases hfind : view.events.findSome? messageError with
    | some err =>
      refine iff_of_false ?_ (Option.some_ne_none _)
      rintro ⟨a, ha⟩
      cases ha
    | none => exact iff_of_true ⟨_, rfl⟩ rfl
  | summary kind c maxEventLength llm =>
    show (∃ a, RollingCondenser.condense c.shouldCondense (fun view => (c.prompt maxEventLength view).bind
      fun prompt => (llm prompt).bind fun r => kind.getCondensation c r view) view = .ok (.condensation a)) ↔ _
    rw [condense_of_shouldCondense (shouldCondense_of_request hrequest), Condenser.Servable]
    constructor
    · rintro ⟨a, ha⟩
      obtain ⟨prompt, -, ha⟩ := Py.bind_ok ha
      obtain ⟨r, -, ha⟩ := Py.bind_ok ha
      rw [SummaryCondenser.getCondensation_eq] at ha
      exact (summary_ok_iff _).mp ⟨a, ha⟩
    · intro h
      obtain ⟨a₀, ha₀⟩ := (summary_ok_iff "").mpr h
      obtain ⟨prompt, hprompt⟩ := prompt_ok_of_getCondensation maxEventLength ha₀
      obtain ⟨r, hr⟩ := hp prompt
      obtain ⟨a, ha⟩ := (summary_ok_iff (kind.summaryText r)).mpr h
      refine ⟨a, ?_⟩
      rw [hprompt]
      show (llm prompt).bind _ = _
      rw [hr]
      show kind.getCondensation c r view = _
      rw [SummaryCondenser.getCondensation_eq, ha]

/-- A short view with a request. -/
def requested (events : List Event) : View := { events, unhandledCondensationRequest := true }

theorem request_answered_iff_attention :
    ∃ a, (Condenser.llmAttention LLMAttentionCondenser.smallest (LLMAttentionCondenser.completion fun _ => [])).condense
      (requested [userGreeting]) = .ok (.condensation a) := by
  refine (request_answered_iff (.llmAttention LLMAttentionCondenser.smallest (LLMAttentionCondenser.completion
    fun _ => [])) ⟨fun _ => [], rfl⟩ (requested [userGreeting]) rfl).mpr ?_
  exact List.forall_mem_singleton.mpr rfl

/-- There is nothing to forget in a view of one event. -/
theorem request_crashes : ¬ ∀ (p : Condenser) (view : View), p.Answering → view.events ≠ [] →
    view.unhandledCondensationRequest = true → ∃ a, p.condense view = .ok (.condensation a) := by
  intro h
  obtain ⟨a, ha⟩ := h (.amortizedForgetting LLMAttentionCondenser.smallest) (requested [userGreeting]) trivial
    (List.cons_ne_nil _ _) rfl
  have hraises : (Condenser.amortizedForgetting LLMAttentionCondenser.smallest).condense (requested [userGreeting]) =
      .error (.valueError "min() arg is an empty sequence") := by decide +kernel
  rw [hraises] at ha
  cases ha

end Requests

end OpenHands
