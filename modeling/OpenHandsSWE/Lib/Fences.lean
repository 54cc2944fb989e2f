import OpenHandsSWE.Lib.Scan

/-! Blocks between an opening mark at the head of a line and the first closing mark after it, found
from left to right. -/

namespace Fences

open Text

variable {α : Type*}

structure Fence (α : Type*) where
  start : ℕ
  body : List α
deriving DecidableEq

/-- Neither mark is empty or goes over the end of a line. -/
structure Marks (e : α) (opener closer : List α) : Prop where
  opener_ne : opener ≠ []
  closer_ne : closer ≠ []
  opener_line : e ∉ opener
  closer_line : e ∉ closer

/-- No line of the text begins with the mark; the first one is only a line when `head` says so. -/
structure Quiet (e : α) (mark : List α) (head : Bool) (text : List α) : Prop where
  first : head = true → ¬ mark <+: text
  later : ∀ u v, text = u ++ e :: v → ¬ mark <+: v

variable [DecidableEq α]

/-- The first `skip` letters belong to the block before. -/
def fences (e : α) (opener closer : List α) : ℕ → ℕ → Bool → List α → List (Fence α)
  | _, _, _, [] => []
  | pos, skip + 1, _, c :: cs => fences e opener closer (pos + 1) skip (c == e) cs
  | pos, 0, head, c :: cs =>
    if head ∧ opener <+: c :: cs then
      match upTo closer ((c :: cs).drop opener.length) with
      | some body =>
        ⟨pos, body⟩ :: fences e opener closer (pos + 1) (opener.length + body.length + closer.length - 1) (c == e) cs
      | none => fences e opener closer (pos + 1) 0 (c == e) cs
    else fences e opener closer (pos + 1) 0 (c == e) cs

/-- Whether the letter after a text is the first of its line. -/
def lineHead (e : α) (head : Bool) (text : List α) : Bool := text.getLast?.elim head (· == e)

/-- A text of lines and whole blocks, in which nothing is left open. -/
inductive Closed (e : α) (opener closer : List α) : Bool → List α → Prop where
  | quiet {head text} : Quiet e opener head text → Closed e opener closer head text
  | line {head text rest} : Quiet e opener head text → Closed e opener closer true rest →
      Closed e opener closer head (text ++ e :: rest)
  | block {body rest} : upTo closer (body ++ closer) = some body → Closed e opener closer false rest →
      Closed e opener closer true (opener ++ (body ++ (closer ++ rest)))

variable {e : α} {opener closer : List α}

/-! ## Lines -/

omit [DecidableEq α] in
theorem Quiet.within {mark text t : List α} {head : Bool} (h : Quiet e mark head text) (ht : t <+: text) :
    Quiet e mark head t where
  first hhead hmark := h.first hhead (hmark.trans ht)
  later u v huv hmark := by
    obtain ⟨w, rfl⟩ := ht
    refine h.later u (v ++ w) ?_ (hmark.trans (List.prefix_append v w))
    rw [huv, List.append_assoc, List.cons_append]

omit [DecidableEq α] in
theorem Quiet.tail {mark text : List α} {head : Bool} {c : α} (h : Quiet e mark head (c :: text)) {next : Bool}
    (hnext : next = true → c = e) : Quiet e mark next text where
  first hhead := h.later [] text (by rw [hnext hhead, List.nil_append])
  later u v huv := h.later (c :: u) v (by rw [huv, List.cons_append])

omit [DecidableEq α] in
theorem quiet_nil {mark : List α} (hmark : mark ≠ []) (head : Bool) : Quiet e mark head [] where
  first _ h := hmark (List.prefix_nil.mp h)
  later u v huv := by simp at huv

omit [DecidableEq α] in
theorem quiet_of_missing {mark text : List α} {c : α} (hmark : c ∈ mark) (htext : c ∉ text) (head : Bool) :
    Quiet e mark head text where
  first _ h := htext (h.mem hmark)
  later u v huv h := htext (huv ▸ List.mem_append_right u (List.mem_cons_of_mem e (h.mem hmark)))

omit [DecidableEq α] in
theorem Quiet.cons {mark text : List α} {head next : Bool} {c : α} (hfirst : head = true → ¬ mark <+: c :: text)
    (hnext : c = e → next = true) (h : Quiet e mark next text) : Quiet e mark head (c :: text) where
  first := hfirst
  later u v huv := by
    cases u with
    | nil =>
      obtain ⟨hc, rfl⟩ := List.cons.inj huv
      exact h.first (hnext hc)
    | cons d u =>
      obtain ⟨-, huv⟩ := List.cons.inj huv
      exact h.later u v huv

/-- A text is quiet, or it begins with the mark, or the first line with the mark follows on a quiet text. -/
theorem quiet_or_marked (e : α) {mark : List α} (hmark : mark ≠ []) (head : Bool) (text : List α) :
    Quiet e mark head text ∨ (head = true ∧ mark <+: text) ∨
      ∃ u v, text = u ++ e :: v ∧ Quiet e mark head u ∧ mark <+: v := by
  by_cases hnow : head = true ∧ mark <+: text
  · exact .inr (.inl hnow)
  induction text generalizing head with
  | nil => exact .inl (quiet_nil hmark head)
  | cons c text ih =>
    have hfirst {t : List α} (ht : t <+: text) (hhead : head = true) : ¬ mark <+: c :: t := fun h =>
      hnow ⟨hhead, h.trans ((List.prefix_cons_inj c).mpr ht)⟩
    by_cases hline : (c == e) = true ∧ mark <+: text
    · obtain rfl := beq_iff_eq.mp hline.1
      exact .inr (.inr ⟨[], text, rfl, quiet_nil hmark head, hline.2⟩)
    · rcases ih (c == e) hline with h | h | ⟨u, v, rfl, hu, hv⟩
      · exact .inl (h.cons (hfirst List.prefix_rfl) beq_iff_eq.mpr)
      · exact absurd h hline
      · exact .inr (.inr ⟨c :: u, v, rfl, hu.cons (hfirst (List.prefix_append u _)) beq_iff_eq.mpr, hv⟩)

theorem lineHead_append (head : Bool) (u v : List α) :
    lineHead e head (u ++ v) = lineHead e (lineHead e head u) v := by
  rw [lineHead, lineHead, lineHead, List.getLast?_append]
  cases v.getLast? <;> rfl

/-! ## What is found -/

theorem start_ge {pos skip : ℕ} {head : Bool} {cs : List α} {f : Fence α}
    (h : f ∈ fences e opener closer pos skip head cs) : pos + skip ≤ f.start := by
  induction cs generalizing pos skip head with
  | nil => cases skip <;> cases h
  | cons c cs ih =>
    cases skip with
    | succ skip =>
      have hlater := ih h
      omega
    | zero =>
      rw [fences] at h
      have hnext {next : Bool} (h : f ∈ fences e opener closer (pos + 1) 0 next cs) : pos ≤ f.start := by
        have hlater := ih h
        omega
      split_ifs at h with hbegins
      · split at h
        · rcases List.mem_cons.mp h with rfl | h
          · exact le_rfl
          · have hlater := ih h
            omega
        · exact hnext h
      · exact hnext h

theorem start_lt {pos skip : ℕ} {head : Bool} {cs : List α} {f : Fence α}
    (h : f ∈ fences e opener closer pos skip head cs) : f.start < pos + cs.length := by
  induction cs generalizing pos skip head with
  | nil => cases skip <;> cases h
  | cons c cs ih =>
    have hnext {k : ℕ} {next : Bool} (h : f ∈ fences e opener closer (pos + 1) k next cs) :
        f.start < pos + (c :: cs).length := by
      have hlater := ih h
      rw [List.length_cons]
      omega
    cases skip with
    | succ skip => exact hnext h
    | zero =>
      rw [fences] at h
      split_ifs at h with hbegins
      · split at h
        · rcases List.mem_cons.mp h with rfl | h
          · exact Nat.lt_add_of_pos_right (Nat.succ_pos _)
          · exact hnext h
        · exact hnext h
      · exact hnext h

theorem fences_skip (pos : ℕ) (head : Bool) (us cs : List α) :
    fences e opener closer pos us.length head (us ++ cs) =
      fences e opener closer (pos + us.length) 0 (lineHead e head us) cs := by
  induction us generalizing pos head with
  | nil => rfl
  | cons u us ih =>
    rw [List.length_cons, List.cons_append, fences, ih, ← List.singleton_append, lineHead_append,
      show pos + 1 + us.length = pos + (us.length + 1) by omega]
    rfl

/-- A line without the mark is passed over. -/
theorem fences_line (hm : Marks e opener closer) {pos : ℕ} {head : Bool} {text : List α}
    (h : Quiet e opener head text) (rest : List α) :
    fences e opener closer pos 0 head (text ++ e :: rest) =
      fences e opener closer (pos + text.length + 1) 0 true rest := by
  induction text generalizing pos head with
  | nil =>
    have hnot : ¬ opener <+: e :: rest := fun hp =>
      hm.opener_ne (List.prefix_nil.mp (begins_before_letter (u := []) hm.opener_line hp))
    rw [List.nil_append, fences, if_neg fun hp => hnot hp.2, beq_self_eq_true]
    rfl
  | cons c text ih =>
    have hnot : ¬ (head = true ∧ opener <+: c :: (text ++ e :: rest)) := fun hp =>
      h.first hp.1 (begins_before_letter (u := c :: text) hm.opener_line hp.2)
    rw [List.cons_append, fences, if_neg hnot, ih (h.tail fun hc => beq_iff_eq.mp hc), List.length_cons,
      show pos + 1 + text.length + 1 = pos + (text.length + 1) + 1 by omega]

theorem fences_quiet {pos : ℕ} {head : Bool} {text : List α} (h : Quiet e opener head text) :
    fences e opener closer pos 0 head text = [] := by
  induction text generalizing pos head with
  | nil => rfl
  | cons c text ih =>
    rw [fences, if_neg fun hp => h.first hp.1 hp.2]
    exact ih (h.tail fun hc => beq_iff_eq.mp hc)

/-- A block that is opened takes everything up to the first closing mark. -/
theorem fences_opened (hm : Marks e opener closer) (pos : ℕ) {cs b : List α} (h : upTo closer cs = some b) :
    ∃ later, fences e opener closer pos 0 true (opener ++ cs) = ⟨pos, b⟩ :: later ∧
      ∀ f ∈ later, pos + opener.length + b.length + closer.length ≤ f.start := by
  obtain ⟨o, mark, rfl⟩ := List.exists_cons_of_ne_nil hm.opener_ne
  have hdrop : (o :: (mark ++ cs)).drop (o :: mark).length = cs := List.drop_left
  rw [List.cons_append, fences, if_pos ⟨rfl, List.prefix_append (o :: mark) cs⟩, hdrop, h]
  refine ⟨_, rfl, fun f hf => ?_⟩
  have hlater := start_ge hf
  rw [List.length_cons] at hlater ⊢
  omega

theorem lineHead_mark {mark : List α} (hne : mark ≠ []) (he : e ∉ mark) (head : Bool) :
    lineHead e head mark = false := by
  obtain ⟨c, hc⟩ : ∃ c, mark.getLast? = some c := ⟨_, List.getLast?_eq_some_getLast hne⟩
  have hother : c ≠ e := fun hce => he (hce ▸ List.mem_of_getLast? hc)
  rw [lineHead, hc]
  exact beq_false_of_ne hother

theorem Marks.lineHead_closer (hm : Marks e opener closer) (head : Bool) : lineHead e head closer = false :=
  lineHead_mark hm.closer_ne hm.closer_line head

theorem fences_block (hm : Marks e opener closer) (pos : ℕ) {body : List α} (rest : List α)
    (h : upTo closer (body ++ closer) = some body) :
    fences e opener closer pos 0 true (opener ++ (body ++ (closer ++ rest))) =
      ⟨pos, body⟩ :: fences e opener closer (pos + (opener ++ (body ++ closer)).length) 0 false rest := by
  have hbody : upTo closer (body ++ (closer ++ rest)) = some body := by
    rw [← List.append_assoc]
    exact upTo_append h rest
  have hline : lineHead e true (opener ++ (body ++ closer)) = false := by
    rw [← List.append_assoc, lineHead_append, hm.lineHead_closer]
  obtain ⟨o, mark, rfl⟩ := List.exists_cons_of_ne_nil hm.opener_ne
  have hdrop : (o :: (mark ++ (body ++ (closer ++ rest)))).drop (o :: mark).length = body ++ (closer ++ rest) :=
    List.drop_left
  rw [List.cons_append, fences, if_pos ⟨rfl, List.prefix_append (o :: mark) (body ++ (closer ++ rest))⟩, hdrop, hbody]
  dsimp only
  have hlength : (o :: mark).length + body.length + closer.length - 1 = (mark ++ (body ++ closer)).length := by
    simp only [List.length_cons, List.length_append]
    omega
  have htext : mark ++ (body ++ (closer ++ rest)) = mark ++ (body ++ closer) ++ rest := by
    simp only [List.append_assoc]
  rw [hlength, htext, fences_skip]
  have hhead : lineHead e (o == e) (mark ++ (body ++ closer)) = false := by
    rw [← List.append_assoc, lineHead_append, hm.lineHead_closer]
  rw [hhead, List.cons_append, List.length_cons, Nat.add_right_comm, Nat.add_assoc]

/-! ## What is closed and what is left open -/

theorem lineHead_line (head : Bool) (u v : List α) : lineHead e head (u ++ e :: v) = lineHead e true v := by
  rw [lineHead_append, ← List.singleton_append, lineHead_append]
  exact congrArg (lineHead e · v) (beq_self_eq_true e)

theorem Marks.lineHead_block (hm : Marks e opener closer) (head : Bool) (body rest : List α) :
    lineHead e head (opener ++ (body ++ (closer ++ rest))) = lineHead e false rest := by
  rw [lineHead_append, lineHead_append, lineHead_append, hm.lineHead_closer]

/-- A text is closed, or it ends in a block that is left open. -/
theorem closed_or_open (hm : Marks e opener closer) (head : Bool) (t : List α) :
    Closed e opener closer head t ∨
      ∃ u v, t = u ++ (opener ++ v) ∧ Closed e opener closer head u ∧ lineHead e head u = true ∧ ¬ closer <:+: v := by
  induction ht : t.length using Nat.strong_induction_on generalizing head t with
  | _ n ih =>
    subst ht
    rcases quiet_or_marked e hm.opener_ne head t with h | ⟨rfl, w, rfl⟩ | ⟨u, v, rfl, hu, -⟩
    · exact .inl (.quiet h)
    · by_cases hw : closer <:+: w
      · obtain ⟨body, hbody⟩ := exists_upTo hw
        obtain ⟨rest, rfl⟩ := upTo_occurs hbody
        have hown : upTo closer (body ++ closer) = some body := by
          obtain ⟨b, hb⟩ := exists_upTo (List.suffix_append body closer).isInfix
          rw [hb, ← upTo_append hb rest, hbody]
        have hshort : rest.length < (opener ++ (body ++ closer ++ rest)).length := by
          have hpos := List.length_pos_iff.mpr hm.opener_ne
          simp only [List.length_append]
          omega
        rw [List.append_assoc body]
        rcases ih _ hshort false rest rfl with h | ⟨u, v, rfl, hu, hline, hv⟩
        · exact .inl (.block hown h)
        · refine .inr ⟨_, v, ?_, .block hown hu, ?_, hv⟩
          · simp only [List.append_assoc]
          · rw [hm.lineHead_block, hline]
      · exact .inr ⟨[], w, rfl, .quiet (quiet_nil hm.opener_ne true), rfl, hw⟩
    · have hshort : v.length < (u ++ e :: v).length := by
        rw [List.length_append, List.length_cons]
        omega
      rcases ih _ hshort true v rfl with h | ⟨u', v', rfl, hu', hline, hv'⟩
      · exact .inl (.line hu h)
      · refine .inr ⟨u ++ e :: u', v', ?_, .line hu hu', ?_, hv'⟩
        · rw [List.append_assoc, List.cons_append]
        · rw [lineHead_line, hline]

/-- After a closed text that ends its line the search begins anew. -/
theorem fences_closed (hm : Marks e opener closer) {pos : ℕ} {head : Bool} {t : List α} (h : Closed e opener closer head t)
    (hline : lineHead e head t = true) (rest : List α) :
    fences e opener closer pos 0 head (t ++ rest) =
      fences e opener closer pos 0 head t ++ fences e opener closer (pos + t.length) 0 true rest := by
  induction h generalizing pos with
  | @quiet head text hquiet =>
    rcases List.eq_nil_or_concat' text with rfl | ⟨line, c, rfl⟩
    · obtain rfl : head = true := hline
      rfl
    · obtain rfl : c = e := by
        rw [lineHead, List.getLast?_concat] at hline
        exact beq_iff_eq.mp hline
      rw [fences_quiet hquiet, List.append_assoc, List.singleton_append,
        fences_line hm (hquiet.within (List.prefix_append line [c])), List.length_append]
      rfl
  | @line head text more hquiet _ ih =>
    rw [lineHead_line] at hline
    rw [List.append_assoc, List.cons_append, fences_line hm hquiet, fences_line hm hquiet, ih hline, List.length_append,
      List.length_cons, Nat.add_assoc pos, Nat.add_assoc pos, Nat.add_assoc text.length, Nat.add_comm 1]
  | @block body more hown _ ih =>
    rw [hm.lineHead_block] at hline
    have htext : opener ++ (body ++ (closer ++ more)) ++ rest = opener ++ (body ++ (closer ++ (more ++ rest))) := by
      simp only [List.append_assoc]
    have hlength : pos + (opener ++ (body ++ (closer ++ more))).length =
        pos + (opener ++ (body ++ closer)).length + more.length := by
      simp only [List.length_append]
      omega
    rw [htext, fences_block hm pos _ hown, fences_block hm pos _ hown, ih hline, hlength, List.cons_append]

/-- The block behind a text is found as it is exactly when the text leaves nothing open and the block's
own closing mark is the first one in it. -/
theorem found_iff (hm : Marks e opener closer) {t : List α} (hline : lineHead e true t = true) (body : List α) :
    ⟨t.length, body⟩ ∈ fences e opener closer 0 0 true (t ++ (opener ++ (body ++ closer))) ↔
      Closed e opener closer true t ∧ upTo closer (body ++ closer) = some body := by
  constructor
  · intro hfound
    rcases closed_or_open hm true t with h | ⟨u, v, rfl, hu, hhead, hv⟩
    · refine ⟨h, ?_⟩
      obtain ⟨b, hb⟩ := exists_upTo (List.suffix_append body closer).isInfix
      obtain ⟨later, hfences, hlater⟩ := fences_opened hm (0 + t.length) hb
      rw [fences_closed hm h hline, hfences] at hfound
      rcases List.mem_append.mp hfound with hfound | hfound
      · have hbefore := start_lt hfound
        rw [Nat.zero_add] at hbefore
        exact absurd hbefore (lt_irrefl _)
      · rcases List.mem_cons.mp hfound with hsame | hfound
        · obtain ⟨-, rfl⟩ := Fence.mk.inj hsame
          exact hb
        · have hpos := List.length_pos_iff.mpr hm.opener_ne
          have hbehind := hlater _ hfound
          dsimp only at hbehind
          omega
    · -- the block that was left open takes the one behind it
      obtain rfl | ⟨line, c, rfl⟩ := List.eq_nil_or_concat' v
      · rw [List.append_nil, lineHead_append, lineHead_mark hm.opener_ne hm.opener_line] at hline
        cases hline
      obtain rfl : c = e := by
        rw [lineHead, ← List.append_assoc, ← List.append_assoc, List.getLast?_concat] at hline
        exact beq_iff_eq.mp hline
      have hclean : ¬ closer <:+: line := fun h => hv (h.trans (List.prefix_append line [c]).isInfix)
      obtain ⟨b, hb⟩ : ∃ b, upTo closer (opener ++ (body ++ closer)) = some b :=
        exists_upTo ((List.suffix_append body closer).trans (List.suffix_append opener _)).isInfix
      have htaken : upTo closer (line ++ c :: (opener ++ (body ++ closer))) = some (line ++ c :: b) := by
        rw [upTo_past_line _ hm.closer_ne hm.closer_line hclean, hb]
        rfl
      obtain ⟨later, hfences, hlater⟩ := fences_opened hm (0 + u.length) htaken
      have htext : u ++ (opener ++ (line ++ [c])) ++ (opener ++ (body ++ closer)) =
          u ++ (opener ++ (line ++ c :: (opener ++ (body ++ closer)))) := by
        simp only [List.append_assoc, List.singleton_append]
      rw [htext, fences_closed hm hu hhead, hfences] at hfound
      have hstart : u.length < (u ++ (opener ++ (line ++ [c]))).length := by
        simp only [List.length_append, List.length_singleton]
        omega
      rcases List.mem_append.mp hfound with hfound | hfound
      · have hbefore := start_lt hfound
        dsimp only at hbefore
        omega
      · rcases List.mem_cons.mp hfound with hsame | hfound
        · obtain ⟨hsame, -⟩ := Fence.mk.inj hsame
          omega
        · have hpos := List.length_pos_iff.mpr hm.closer_ne
          have hbehind := hlater _ hfound
          simp only [List.length_append, List.length_cons, List.length_nil] at hbehind
          omega
  · rintro ⟨hclosed, hown⟩
    have hblock := fences_block hm (0 + t.length) [] hown
    rw [List.append_nil] at hblock
    rw [fences_closed hm hclosed hline, hblock, Nat.zero_add]
    exact List.mem_append_right _ List.mem_cons_self

end Fences
