import OpenHandsSWE.Lib.Text

/-! Keys with slashes seen as a tree of directories, and pages of sorted keys. A directory is named
by the text before its entries, with the slash at its end; the root is the empty text. -/

namespace Directory

/-! ## Children -/

/-- The first name of a path, with its slash where one follows. -/
def firstName (r : List Char) : List Char := r.takeWhile (· ≠ '/') ++ if '/' ∈ r then ['/'] else []

/-- The entry of the directory `d` that the key is, or lies below. -/
def child (d k : List Char) : List Char := d ++ firstName (k.drop d.length)

/-- An object of the directory, or a sub-directory with an object in it. -/
def IsChild (keys : List (List Char)) (d e : List Char) : Prop :=
  ∃ name, '/' ∉ name ∧ ((name ≠ [] ∧ e = d ++ name ∧ e ∈ keys) ∨ (e = d ++ name ++ ['/'] ∧ ∃ k ∈ keys, e <+: k))

theorem firstName_of_notMem {r : List Char} (h : '/' ∉ r) : firstName r = r := by
  have hall : r.takeWhile (· ≠ '/') = r := List.takeWhile_eq_self_iff.mpr fun c hc => by
    have hne : c ≠ '/' := fun heq => h (heq ▸ hc)
    simpa using hne
  rw [firstName, hall, if_neg h, List.append_nil]

theorem firstName_append {name : List Char} (h : '/' ∉ name) (r : List Char) :
    firstName (name ++ '/' :: r) = name ++ ['/'] := by
  have htake : (name ++ '/' :: r).takeWhile (· ≠ '/') = name := by
    rw [List.takeWhile_append_of_pos fun c hc => ?_, List.takeWhile_cons_of_neg (by simp), List.append_nil]
    have hne : c ≠ '/' := fun heq => h (heq ▸ hc)
    simpa using hne
  rw [firstName, htake, if_pos (by simp)]

theorem firstName_cons {c : Char} (hc : c ≠ '/') (r : List Char) : firstName (c :: r) = c :: firstName r := by
  have hmem : '/' ∈ c :: r ↔ '/' ∈ r := by simp [Ne.symm hc]
  rw [firstName, List.takeWhile_cons_of_pos (by simpa using hc), firstName, List.cons_append]
  simp only [hmem]

theorem firstName_eq_nil {r : List Char} (h : firstName r = []) : r = [] := by
  have hslash : '/' ∉ r := fun hmem => by
    rw [firstName, if_pos hmem] at h
    simp at h
  rwa [firstName_of_notMem hslash] at h

/-- A path has no slash, or one after its first name. -/
theorem name_cases (r : List Char) : '/' ∉ r ∨ ∃ name rest, '/' ∉ name ∧ r = name ++ '/' :: rest := by
  induction r with
  | nil => exact .inl List.not_mem_nil
  | cons c r ih =>
    by_cases hc : c = '/'
    · exact .inr ⟨[], r, List.not_mem_nil, by rw [hc]; rfl⟩
    · rcases ih with hnot | ⟨name, rest, hname, rfl⟩
      · exact .inl fun h => (List.mem_cons.mp h).elim (fun heq => hc heq.symm) hnot
      · exact .inr ⟨c :: name, rest, fun h => (List.mem_cons.mp h).elim (fun heq => hc heq.symm) hname, rfl⟩

theorem child_append (d r : List Char) : child d (d ++ r) = d ++ firstName r := by rw [child, List.drop_left]

theorem child_ne {d k : List Char} (hk : d <+: k) (hne : k ≠ d) : child d k ≠ d := by
  obtain ⟨r, rfl⟩ := hk
  rw [child_append]
  intro heq
  have hnil : r = [] := firstName_eq_nil (List.append_right_eq_self.mp heq)
  rw [hnil, List.append_nil] at hne
  exact hne rfl

/-- The children of a directory are the entries of the keys below it. -/
theorem isChild_iff {keys : List (List Char)} {d e : List Char} :
    IsChild keys d e ↔ ∃ k ∈ keys, d <+: k ∧ k ≠ d ∧ child d k = e := by
  constructor
  · rintro ⟨name, hname, ⟨hne, rfl, hmem⟩ | ⟨rfl, k, hk, rest, rfl⟩⟩
    · refine ⟨d ++ name, hmem, List.prefix_append d name, fun heq => hne ?_, ?_⟩
      · exact List.append_right_eq_self.mp heq
      · rw [child_append, firstName_of_notMem hname]
    · refine ⟨_, hk, ⟨name ++ '/' :: rest, by simp⟩, fun heq => ?_, ?_⟩
      · have hlength := congrArg List.length heq
        simp at hlength
      · rw [List.append_assoc, List.append_assoc, List.singleton_append, child_append, firstName_append hname,
          List.append_assoc]
  · rintro ⟨k, hk, ⟨r, rfl⟩, hne, rfl⟩
    rw [child_append]
    rcases name_cases r with hr | ⟨name, rest, hname, rfl⟩
    · rw [firstName_of_notMem hr]
      exact ⟨r, hr, .inl ⟨fun heq => hne (by rw [heq, List.append_nil]), rfl, hk⟩⟩
    · rw [firstName_append hname]
      exact ⟨name, hname, .inr ⟨(List.append_assoc ..).symm, _, hk, rest, by simp⟩⟩

/-- Two keys with one entry: the key itself, or both below one sub-directory. -/
theorem eq_or_below_of_child_eq {d k k' : List Char} (hk : d <+: k) (hk' : d <+: k') (h : child d k = child d k') :
    k = k' ∨ ∃ name, '/' ∉ name ∧ child d k = d ++ name ++ ['/'] ∧ child d k <+: k ∧ child d k <+: k' := by
  obtain ⟨r, rfl⟩ := hk
  obtain ⟨r', rfl⟩ := hk'
  rw [child_append, child_append] at h
  have hfirst := List.append_cancel_left h
  rcases name_cases r with hr | ⟨name, rest, hname, rfl⟩
  · rcases name_cases r' with hr' | ⟨name', rest', hname', rfl⟩
    · rw [firstName_of_notMem hr, firstName_of_notMem hr'] at hfirst
      exact .inl (by rw [hfirst])
    · rw [firstName_of_notMem hr, firstName_append hname'] at hfirst
      exact absurd (by rw [hfirst]; simp) hr
  · right
    rw [firstName_append hname] at hfirst
    refine ⟨name, hname, by rw [child_append, firstName_append hname, List.append_assoc], ⟨rest, ?_⟩, ?_⟩
    · rw [child_append, firstName_append hname]
      simp
    · rw [child_append, firstName_append hname]
      rcases name_cases r' with hr' | ⟨name', rest', hname', rfl⟩
      · rw [firstName_of_notMem hr'] at hfirst
        exact absurd (by rw [← hfirst]; simp) hr'
      · rw [firstName_append hname'] at hfirst
        exact ⟨rest', by rw [hfirst]; simp⟩

theorem child_of_below {d name k : List Char} (hname : '/' ∉ name) (h : d ++ name ++ ['/'] <+: k) :
    child d k = d ++ name ++ ['/'] := by
  obtain ⟨rest, rfl⟩ := h
  rw [List.append_assoc, List.append_assoc, List.singleton_append, child_append, firstName_append hname,
    List.append_assoc]

/-! ## Paths -/

/-- A name that may stand in a normalised path. -/
structure Name where
  text : List Char
  nonempty : text ≠ []
  noSlash : '/' ∉ text
  notDots : text ≠ ['.'] ∧ text ≠ ['.', '.']
deriving DecidableEq

/-- The names from the root on; the root itself has none. -/
abbrev Path := List Name

/-- A name is found again before a slash. -/
theorem Name.eq_of_append_eq {m n : Name} {b₁ b₂ : Bool}
    (h : m.text ++ (if b₁ then ['/'] else []) = n.text ++ if b₂ then ['/'] else []) : m = n := by
  have htake (n : Name) (b : Bool) : (n.text ++ if b then ['/'] else []).takeWhile (· ≠ '/') = n.text := by
    have hall : ∀ c ∈ n.text, decide (c ≠ '/') = true := fun c hc => by
      have hne : c ≠ '/' := fun heq => n.noSlash (heq ▸ hc)
      simpa using hne
    rw [List.takeWhile_append_of_pos hall]
    cases b <;> simp
  have htext : m.text = n.text := by rw [← htake m b₁, h, htake n b₂]
  cases m
  cases n
  cases htext
  rfl

namespace Path

def text (p : Path) : List Char := List.intercalate ['/'] (p.map Name.text)

/-- The text before the entries of a directory. -/
def start : Path → List Char
  | [] => []
  | n :: p => text (n :: p) ++ ['/']

theorem text_cons (n : Name) {p : Path} (hp : p ≠ []) : text (n :: p) = n.text ++ '/' :: text p := by
  have hnames : p.map Name.text ≠ [] := fun h => hp (List.map_eq_nil_iff.mp h)
  rw [text, List.map_cons, Text.intercalate_cons _ _ hnames, List.append_assoc]
  rfl

theorem text_singleton (n : Name) : text [n] = n.text := by simp [text, List.intercalate]

/-- A path below a directory. -/
theorem text_append (p : Path) {r : Path} (hr : r ≠ []) : text (p ++ r) = start p ++ text r := by
  induction p with
  | nil => rfl
  | cons n p ih =>
    rw [List.cons_append, text_cons n (List.append_ne_nil_of_right_ne_nil p hr), ih, start]
    cases p with
    | nil =>
      rw [text_singleton]
      simp [start]
    | cons m p =>
      rw [text_cons n (List.cons_ne_nil m p)]
      simp [start]

theorem split_text {p : Path} (hp : p ≠ []) : Text.split ['/'] (text p) = p.map Name.text := by
  induction p with
  | nil => exact absurd rfl hp
  | cons n p ih =>
    cases p with
    | nil => rw [text_singleton, Text.split_of_notMem n.noSlash]; rfl
    | cons m p =>
      rw [text_cons n (List.cons_ne_nil m p), Text.split_append_letter n.noSlash, ih (List.cons_ne_nil m p)]
      rfl

theorem text_ne_nil {p : Path} (hp : p ≠ []) : text p ≠ [] := by
  obtain ⟨n, p, rfl⟩ := List.exists_cons_of_ne_nil hp
  intro h
  have hsplit := split_text hp
  rw [h, Text.split_nil] at hsplit
  exact n.nonempty (List.cons.inj hsplit).1.symm

theorem map_text_injective : Function.Injective (List.map Name.text) := by
  refine List.map_injective_iff.mpr fun m n h => ?_
  cases m
  cases n
  cases h
  rfl

theorem text_injective : Function.Injective text := by
  intro p q h
  by_cases hp : p = []
  · by_cases hq : q = []
    · rw [hp, hq]
    · rw [hp] at h
      exact absurd h.symm (text_ne_nil hq)
  · have hq : q ≠ [] := fun hq => by
      rw [hq] at h
      exact text_ne_nil hp h
    refine map_text_injective ?_
    rw [← split_text hp, ← split_text hq, h]

/-- A path lies below a directory when its text begins with the directory's. -/
theorem start_begins_iff {p k : Path} (hk : k ≠ []) : start p <+: text k ↔ ∃ r, r ≠ [] ∧ k = p ++ r := by
  constructor
  · rintro ⟨v, hv⟩
    cases p with
    | nil => exact ⟨k, hk, rfl⟩
    | cons n p =>
      have hsplit : k.map Name.text = (n :: p).map Name.text ++ Text.split ['/'] v := by
        rw [← split_text hk, ← split_text (List.cons_ne_nil n p), ← hv, start, List.append_assoc, List.singleton_append,
          Text.split_append_append]
      obtain ⟨k₁, r, rfl, hk₁, hr⟩ := List.map_eq_append_iff.mp hsplit
      refine ⟨r, fun hnil => ?_, by rw [map_text_injective hk₁]⟩
      rw [hnil] at hr
      exact Text.split_ne_nil ['/'] v hr.symm
  · rintro ⟨r, hr, rfl⟩
    rw [text_append p hr]
    exact List.prefix_append _ _

theorem firstName_text (n : Name) (r : Path) : firstName (text (n :: r)) = n.text ++ if r = [] then [] else ['/'] := by
  by_cases hr : r = []
  · rw [hr, text_singleton, firstName_of_notMem n.noSlash, if_pos rfl, List.append_nil]
  · rw [text_cons n hr, firstName_append n.noSlash, if_neg hr]

theorem text_ne_start {p k : Path} (hk : k ≠ []) : text k ≠ start p := by
  intro h
  have hbegins : start p <+: text k := by rw [h]
  obtain ⟨r, hr, rfl⟩ := (start_begins_iff hk).mp hbegins
  rw [text_append p hr] at h
  exact text_ne_nil hr (List.append_right_eq_self.mp h)

theorem getLast?_append_name (d : List Char) (n : Name) : (d ++ n.text).getLast? ≠ some '/' := by
  intro h
  have hlast : n.text.getLast? = some '/' := by
    rwa [List.getLast?_append_of_ne_nil d n.nonempty] at h
  exact n.noSlash (List.mem_of_getLast? hlast)

theorem getLast?_text {p : Path} (hp : p ≠ []) : (text p).getLast? ≠ some '/' := by
  have hsplit := List.dropLast_append_getLast hp
  rw [← hsplit, text_append _ (List.cons_ne_nil _ _), text_singleton]
  exact getLast?_append_name _ _

theorem start_of_ne {p : Path} (hp : p ≠ []) : start p = text p ++ ['/'] := by
  obtain ⟨n, p, rfl⟩ := List.exists_cons_of_ne_nil hp
  rfl

theorem text_begins {p k : Path} (h : p <+: k) : text p <+: text k := by
  obtain ⟨r, rfl⟩ := h
  by_cases hr : r = []
  · rw [hr, List.append_nil]
  · rw [text_append p hr]
    by_cases hp : p = []
    · rw [hp]
      exact List.nil_prefix
    · rw [start_of_ne hp, List.append_assoc]
      exact List.prefix_append _ _

/-- The children of a directory, from the paths of the files below it. -/
theorem isChild_iff {files : List Path} (hfiles : ∀ f ∈ files, f ≠ []) {p : Path} {e : List Char} :
    IsChild (files.map text) (start p) e ↔
      ∃ n r, p ++ n :: r ∈ files ∧ e = start p ++ n.text ++ if r = [] then [] else ['/'] := by
  rw [Directory.isChild_iff]
  constructor
  · rintro ⟨k, hk, hbelow, -, rfl⟩
    obtain ⟨f, hf, rfl⟩ := List.mem_map.mp hk
    obtain ⟨r, hr, rfl⟩ := (start_begins_iff (hfiles f hf)).mp hbelow
    obtain ⟨n, r, rfl⟩ := List.exists_cons_of_ne_nil hr
    refine ⟨n, r, hf, ?_⟩
    rw [text_append p (List.cons_ne_nil n r), child_append, firstName_text, List.append_assoc]
  · rintro ⟨n, r, hf, rfl⟩
    have htext := text_append p (List.cons_ne_nil n r)
    refine ⟨text (p ++ n :: r), List.mem_map_of_mem hf, ⟨_, htext.symm⟩, text_ne_start (hfiles _ hf), ?_⟩
    rw [htext, child_append, firstName_text, List.append_assoc]

end Path

/-! ## Sorted keys -/

section Sorted

variable {α : Type*} [LinearOrder α]

/-- What stands between two texts begins as both of them do. -/
theorem begins_between {q a b c : List α} (hab : a ≤ b) (hbc : b ≤ c) (ha : q <+: a) (hc : q <+: c) : q <+: b := by
  induction q generalizing a b c with
  | nil => exact List.nil_prefix
  | cons x q ih =>
    obtain ⟨a, rfl⟩ := ha
    obtain ⟨c, rfl⟩ := hc
    rw [List.cons_append] at hab hbc
    cases b with
    | nil => exact absurd (List.nil_lt_cons x (q ++ a)) (not_lt.mpr hab)
    | cons y b =>
      have hxy := not_lt.mpr hab
      have hyx := not_lt.mpr hbc
      rw [List.cons_lt_cons_iff, not_or, not_lt, not_and] at hxy hyx
      obtain rfl : x = y := le_antisymm hxy.1 hyx.1
      have hab' := not_lt.mp (hxy.2 rfl)
      have hbc' := not_lt.mp (hyx.2 rfl)
      exact (List.prefix_cons_inj x).mpr (ih hab' hbc' (List.prefix_append q a) (List.prefix_append q c))

theorem append_lt_append_left_iff {q a b : List α} : q ++ a < q ++ b ↔ a < b := by
  induction q with
  | nil => rfl
  | cons x q ih => simp [ih]

theorem le_of_begins {q a : List α} (h : q <+: a) : q ≤ a := by
  induction q generalizing a with
  | nil => exact not_lt.mp (List.not_lt_nil a)
  | cons x q ih =>
    obtain ⟨a, rfl⟩ := h
    refine not_lt.mp fun hlt => ?_
    rw [List.cons_append, List.cons_lt_cons_iff] at hlt
    rcases hlt with hlt | ⟨-, hlt⟩
    · exact lt_irrefl x hlt
    · exact absurd hlt (not_lt.mpr (ih (List.prefix_append q a)))

/-- A key is on the first page when few are before it. -/
theorem mem_take_iff {l : List α} (hl : l.Pairwise (· < ·)) {x : α} (hx : x ∈ l) (n : ℕ) :
    x ∈ l.take n ↔ l.countP (· < x) < n := by
  induction l generalizing n with
  | nil => cases hx
  | cons y l ih =>
    obtain ⟨hy, hl⟩ := List.pairwise_cons.mp hl
    cases n with
    | zero => simp
    | succ n =>
      rcases List.mem_cons.mp hx with rfl | hx
      · have hnone : (x :: l).countP (· < x) = 0 := by
          refine List.countP_eq_zero.mpr fun z hz => ?_
          rcases List.mem_cons.mp hz with rfl | hz
          · simp
          · simpa using (hy z hz).le
        rw [hnone, List.take_succ_cons]
        simp
      · have hne : x ≠ y := (hy x hx).ne'
        rw [List.take_succ_cons, List.mem_cons, ih hl hx n, List.countP_cons_of_pos (by simpa using hy x hx)]
        simp [hne]

end Sorted

end Directory
