import OpenHandsSWE.AppServer.SearchConversations
import OpenHandsSWE.Lib.JsonRoundTrip
import OpenHandsSWE.Storage.FileConversationStore

/-! The search over the conversations of the old and the new server: a page of each at a time, and one page id for both. -/

namespace OpenHands.CombinedSearch

abbrev PageId := Option (List Char)

/-! ## Page ids -/

def given (id : PageId) : Bool := decide (id.getD [] ≠ [])

def textOf : Option Json → Except PyError PageId
  | none | some .null => .ok none
  | some (.str s) => .ok (some s.toList)
  | some _ => .error (.typeError "a page id is no text")

def toJson : PageId → Json
  | none => .null
  | some text => .str (String.ofList text)

/-- The lenient reader takes all that it cannot read for a page id of the old server, the other one only what is no JSON. -/
def parsePageId (lenient : Bool) : PageId → Except PyError (PageId × PageId)
  | none | some [] => .ok (none, none)
  | some text =>
    let unread (e : PyError) : Except PyError (PageId × PageId) := if lenient then .ok (some text, none) else .error e
    match Base64.decode text with
    | none => unread (.valueError "Incorrect padding")
    | some bytes =>
      if bytes.any fun b => 128 ≤ b then unread (.valueError "UnicodeDecodeError")
      else
        match Json.loads (bytes.map Char.ofNat) with
        | none => .ok (some text, none)
        | some (.obj data) =>
          (textOf (Assoc.get? "v0" data)).bind fun v0 => (textOf (Assoc.get? "v1" data)).map fun v1 => (v0, v1)
        | some _ => unread (.attributeError "object has no attribute 'get'")

def createCombinedPageId (v0 v1 : PageId) : PageId :=
  if !given v0 && !given v1 then none
  else some (Base64.encode ((Json.dumps (.obj [("v0", toJson v0), ("v1", toJson v1)])).map Char.toNat))

/-! ## The search -/

/-- A search whose page ids stand for offsets: it hands out the items from there on, and says where the next ones begin
while that is not behind the end. -/
structure Source (β : Type) (limit : ℕ) where
  search : PageId → Except PyError (ResultSet β)
  items : List β
  total : ℕ
  short : items.length ≤ total
  offset : PageId → Option ℕ
  idOf : ℕ → List Char
  offset_none : offset none = some 0
  offset_idOf : ∀ n, offset (some (idOf n)) = some n
  idOf_ne_nil : ∀ n, idOf n ≠ []
  page : ∀ id start, offset id = some start → search id = .ok
    { results := (items.drop start).take limit
      nextPageId := if start + limit < total then some (idOf (start + limit)) else none }

/-- The two servers, what becomes of a conversation of each, and the conditions on it. -/
structure Servers (β γ α : Type) (limit : ℕ) where
  v0 : Source β limit
  v1 : Source γ limit
  recent : β → Bool
  info : β → α
  convert : γ → α
  passes : α → Bool
  createdAt : α → ℤ

namespace Servers

variable {β γ α : Type} {limit : ℕ} (s : Servers β γ α limit)

def newest (a b : α) : Prop := s.createdAt b ≤ s.createdAt a

instance decidableNewest : DecidableRel s.newest := fun a b => inferInstanceAs (Decidable (s.createdAt b ≤ s.createdAt a))

def fromV0 (found : List β) : List α := ((found.filter s.recent).map s.info).filter s.passes

def fromV1 (found : List γ) : List α := (found.map s.convert).filter s.passes

def combined (v0 : List β) (v1 : List γ) : List α := ((s.fromV0 v0 ++ s.fromV1 v1).insertionSort s.newest).take limit

/-- The microagent page takes a new server that raises for an empty one. -/
def fetchV1 (lenient : Bool) (id : PageId) : Except PyError (ResultSet γ) :=
  match s.v1.search id with
  | .ok found => .ok found
  | .error e => if lenient then .ok {} else .error e

def searchConversations (lenient : Bool) (pageId : PageId) : Except PyError (ResultSet α) :=
  (parsePageId lenient pageId).bind fun ids =>
    (s.v0.search ids.1).bind fun found =>
      (s.fetchV1 lenient ids.2).map fun others =>
        { results := s.combined found.results others.results
          nextPageId := createCombinedPageId found.nextPageId others.nextPageId }

end Servers

/-- The pages one gets by following the page ids to the end; without fuel it gives nothing. -/
def walk {α : Type} (search : PageId → Except PyError (ResultSet α)) : ℕ → PageId → Option (List (List α))
  | 0, _ => none
  | fuel + 1, id =>
    match search id with
    | .error _ => none
    | .ok found =>
      match found.nextPageId with
      | none => some [found.results]
      | some next => (walk search fuel (some next)).map fun pages => found.results :: pages

/-! ## Both servers' searches are such sources -/

theorem pageOffset_eq {id : PageId} {start : ℕ} (h : (match SearchConversations.pageOffset id with
      | .ofNat n => some n
      | _ => none) = some start) : SearchConversations.pageOffset id = (start : ℤ) := by
  split at h
  next n hn =>
    cases h
    exact hn
  next => cases h

theorem strInt_ne_nil (n : ℕ) : SearchConversations.strInt n ≠ [] := by simp [SearchConversations.strInt, Nat.toDigits_ne_nil]

/-- Where all rows can be read, a page of them is the page of what they are read as. -/
theorem page_read (env : SearchConversations.Surroundings) {rows : List SearchConversations.TableRow} {items : List AppConversationInfo}
    (hread : rows.map (SearchConversations.toInfo env) = items.map .ok) (limit : ℕ) {id : PageId} {start : ℕ}
    (hoffset : SearchConversations.pageOffset id = (start : ℤ)) : SearchConversations.page env rows id limit = .ok
      { results := (items.drop start).take limit
        nextPageId := if start + limit < rows.length then some (SearchConversations.strInt (start + limit : ℕ)) else none } := by
  have hlength := congrArg List.length hread
  rw [List.length_map, List.length_map] at hlength
  have hpage : ∀ n, ((rows.drop start).take n).mapM (SearchConversations.toInfo env) = .ok ((items.drop start).take n) := by
    intro n
    rw [Py.mapM_ok_iff, List.map_take, List.map_drop, hread, ← List.map_drop, ← List.map_take]
  rw [SearchConversations.page_eq hoffset]
  by_cases hmore : start + limit < rows.length
  · rw [if_pos (by rw [List.length_drop]; omega), hpage, if_pos hmore]
    rfl
  · have hrest := hpage (rows.drop start).length
    rw [List.take_length] at hrest
    rw [if_neg (by rw [List.length_drop]; omega), hrest, if_neg hmore, List.take_of_length_le, List.take_of_length_le]
    · rfl
    · rw [List.length_drop]
      omega
    · rw [List.length_drop, List.length_drop, hlength]

namespace Source

def ofStore (store : FileConversationStore) {paths : List String} (hlist : store.list CONVERSATION_BASE_DIR = .ok paths) (limit : ℕ) :
    Source ConversationMetadata limit where
  search id := store.search id limit
  items := store.sortedConversations (FileConversationStore.conversationIds paths)
  total := (FileConversationStore.conversationIds paths).length
  short := FileConversationStore.length_sortedConversations store _
  offset id := match pageIdToOffset id with
    | .ok (.ofNat n) => some n
    | _ => none
  idOf n := Base64.encode (encodeDigits n)
  offset_none := rfl
  offset_idOf n := by rw [pageIdToOffset_offsetToPageId (show offsetToPageId n true = some _ from rfl)]
  idOf_ne_nil n := Base64.encode_ne_nil (by simp [encodeDigits, Nat.toDigits_ne_nil])
  page id start hstart := by
    have hoffset : pageIdToOffset id = .ok (start : ℤ) := by
      split at hstart
      next n hn =>
        cases hstart
        exact hn
      next => cases hstart
    have hshort := FileConversationStore.length_sortedConversations store (FileConversationStore.conversationIds paths)
    rw [FileConversationStore.search_page limit hlist hoffset _ rfl]
    by_cases hmore : start + limit < (FileConversationStore.conversationIds paths).length
    · rw [Nat.min_eq_left (by omega), if_pos hmore, List.drop_take, Nat.add_sub_cancel, offsetToPageId,
        decide_eq_true (by omega), if_pos rfl, Nat.add_comm limit start]
    · rw [Nat.min_eq_right (by omega), if_neg hmore, List.take_of_length_le hshort, List.take_of_length_le, offsetToPageId,
        decide_eq_false (lt_irrefl _), if_neg Bool.false_ne_true]
      rw [List.length_drop]
      omega

def ofTable (env : SearchConversations.Surroundings) {rows : List SearchConversations.TableRow} {items : List AppConversationInfo}
    (hread : rows.map (SearchConversations.toInfo env) = items.map .ok) (limit : ℕ) : Source AppConversationInfo limit where
  search id := SearchConversations.page env rows id limit
  items := items
  total := rows.length
  short := by
    have hlength := congrArg List.length hread
    rw [List.length_map, List.length_map] at hlength
    exact hlength.ge
  offset id := match SearchConversations.pageOffset id with
    | .ofNat n => some n
    | _ => none
  idOf n := SearchConversations.strInt n
  offset_none := rfl
  offset_idOf n := by rw [SearchConversations.pageOffset_strInt]
  idOf_ne_nil := strInt_ne_nil
  page id start hstart := page_read env hread limit (pageOffset_eq hstart)

end Source

/-! ## The page id and back -/

theorem hexDigit_ascii : ∀ d < 16, (Json.hexDigit d).toNat < 128 := by decide

theorem escapeUnit_ascii (u : ℕ) {c : Char} (h : c ∈ Json.escapeUnit u) : c.toNat < 128 := by
  have hdigit (n : ℕ) := hexDigit_ascii (n % 16) (Nat.mod_lt n (by decide))
  simp only [Json.escapeUnit, List.mem_cons, List.not_mem_nil, or_false] at h
  rcases h with rfl | rfl | rfl | rfl | rfl | rfl
  · decide
  · decide
  all_goals exact hdigit _

theorem escapeChar_ascii (x : Char) {c : Char} (h : c ∈ Json.escapeChar x) : c.toNat < 128 := by
  rw [Json.escapeChar] at h
  have hpair {a b : Char} (ha : a.toNat < 128) (hb : b.toNat < 128) (h : c ∈ [a, b]) : c.toNat < 128 := by
    rcases List.mem_pair.mp h with rfl | rfl
    · exact ha
    · exact hb
  split_ifs at h with h1 h2 h3 h4 h5 h6 h7 hprint hunit
  · exact hpair (by decide) (by decide) h
  · exact hpair (by decide) (by decide) h
  · exact hpair (by decide) (by decide) h
  · exact hpair (by decide) (by decide) h
  · exact hpair (by decide) (by decide) h
  · exact hpair (by decide) (by decide) h
  · exact hpair (by decide) (by decide) h
  · rw [List.mem_singleton.mp h]
    omega
  · exact escapeUnit_ascii _ h
  · exact (List.mem_append.mp h).elim (escapeUnit_ascii _) (escapeUnit_ascii _)

theorem dumpsString_ascii (text : String) : ∀ c ∈ Json.dumpsString text, c.toNat < 128 := by
  intro c hc
  rw [Json.dumpsString, List.mem_cons, List.mem_append, List.mem_flatMap, List.mem_singleton] at hc
  rcases hc with rfl | ⟨x, -, hx⟩ | rfl
  · decide
  · exact escapeChar_ascii x hx
  · decide

theorem dumps_toJson_ascii (id : PageId) : ∀ c ∈ Json.dumps (toJson id), c.toNat < 128 := by
  cases id with
  | none =>
    have hnull : ∀ c ∈ ['n', 'u', 'l', 'l'], c.toNat < 128 := by simp
    rw [toJson, Json.dumps]
    exact hnull
  | some text =>
    rw [toJson, Json.dumps]
    exact dumpsString_ascii _

theorem textOf_toJson (id : PageId) : textOf (some (toJson id)) = .ok id := by
  cases id with
  | none => rfl
  | some text => rw [toJson, textOf, String.toList_ofList]

/-- An encoded ASCII text is read for what it is in JSON. -/
theorem parsePageId_encode (lenient : Bool) {text : List Char} (hne : text ≠ []) (hascii : ∀ c ∈ text, c.toNat < 128) :
    parsePageId lenient (some (Base64.encode (text.map Char.toNat))) =
      match Json.loads text with
      | none => .ok (some (Base64.encode (text.map Char.toNat)), none)
      | some (.obj data) => (textOf (Assoc.get? "v0" data)).bind fun v0 => (textOf (Assoc.get? "v1" data)).map fun v1 => (v0, v1)
      | some _ =>
        if lenient then .ok (some (Base64.encode (text.map Char.toNat)), none)
        else .error (.attributeError "object has no attribute 'get'") := by
  have hbytes : ∀ b ∈ text.map Char.toNat, b < 128 := by
    intro b hb
    obtain ⟨c, hc, rfl⟩ := List.mem_map.mp hb
    exact hascii c hc
  have hany : (text.map Char.toNat).any (fun b => decide (128 ≤ b)) = false := by
    rw [List.any_eq_false]
    intro b hb hlarge
    exact absurd (hbytes b hb) (not_lt.mpr (of_decide_eq_true hlarge))
  have hchars : (text.map Char.toNat).map Char.ofNat = text := by
    rw [List.map_map]
    exact List.map_id'' (fun c => Char.ofNat_toNat c) _
  have hencoded : Base64.encode (text.map Char.toNat) ≠ [] := Base64.encode_ne_nil (by simpa using hne)
  rw [parsePageId]
  · dsimp only
    rw [Base64.decode_encode _ fun b hb => (hbytes b hb).trans (by decide)]
    dsimp only
    rw [hany, if_neg Bool.false_ne_true, hchars]
  · exact fun heq => hencoded heq

/-- A page id that was made gives back the two that it was made of. -/
theorem parsePageId_create (lenient : Bool) {v0 v1 : PageId} (h : given v0 = true ∨ given v1 = true) :
    ∃ text, createCombinedPageId v0 v1 = some text ∧ parsePageId lenient (some text) = .ok (v0, v1) := by
  have hnot : (!given v0 && !given v1) = false := by
    rcases h with h | h <;> simp [h]
  have hmark : ∀ c ∈ ['{', ':', ' ', ',', '}'], c.toNat < 128 := by simp
  have hascii : ∀ c ∈ Json.dumps (.obj [("v0", toJson v0), ("v1", toJson v1)]), c.toNat < 128 := by
    intro c hc
    simp only [Json.dumps, Json.dumpsMembers, List.mem_cons, List.mem_append, List.not_mem_nil, or_false] at hc
    rcases hc with rfl | ((hc | rfl | rfl) | hc) | rfl | rfl | ((hc | rfl | rfl) | hc) | rfl
    all_goals first
      | exact dumpsString_ascii _ _ hc
      | exact dumps_toJson_ascii _ _ hc
      | exact hmark _ (by simp)
  have hwell : (Json.obj [("v0", toJson v0), ("v1", toJson v1)]).WellFormed := by
    have hplain : ∀ id, (toJson id).WellFormed := fun id => by cases id <;> trivial
    exact ⟨List.nodup_cons.mpr ⟨by simp, List.nodup_singleton _⟩, hplain v0, hplain v1, trivial⟩
  have hne : Json.dumps (.obj [("v0", toJson v0), ("v1", toJson v1)]) ≠ [] := by
    rw [Json.dumps]
    exact List.cons_ne_nil _ _
  refine ⟨_, by rw [createCombinedPageId, hnot, if_neg Bool.false_ne_true], ?_⟩
  rw [parsePageId_encode lenient hne hascii, Json.loads_dumps hwell]
  have hv0 : Assoc.get? "v0" [("v0", toJson v0), ("v1", toJson v1)] = some (toJson v0) := rfl
  have hv1 : Assoc.get? "v1" [("v0", toJson v0), ("v1", toJson v1)] = some (toJson v1) := rfl
  dsimp only
  rw [hv0, hv1, textOf_toJson, textOf_toJson]
  rfl

/-- A page id of the old server alone is a number in JSON, which the search does not take. -/
theorem parsePageId_old {offset : ℕ} {id : List Char} (h : offsetToPageId offset true = some id) :
    parsePageId false (some id) = .error (.attributeError "object has no attribute 'get'") ∧
      parsePageId true (some id) = .ok (some id, none) := by
  have hdigits : encodeDigits offset = (Nat.toDigits 10 offset).map Char.toNat := by
    unfold encodeDigits
    rw [if_neg (by omega), List.nil_append, Int.natAbs_natCast]
  have hid : Base64.encode ((Nat.toDigits 10 offset).map Char.toNat) = id := by
    rw [offsetToPageId, if_pos rfl, hdigits] at h
    exact Option.some.inj h
  have hascii : ∀ c ∈ Nat.toDigits 10 offset, c.toNat < 128 := by
    intro c hc
    have hdigit : c.isDigit = true := Nat.isDigit_of_mem_toDigits (by decide) (by decide) hc
    have hrange : 48 ≤ c.toNat ∧ c.toNat ≤ 57 := by simpa [Char.isDigit, UInt32.le_iff_toNat_le] using hdigit
    omega
  have hloads : Json.loads (Nat.toDigits 10 offset) = some (.int offset) := by
    have hdumps : Json.dumps (.int offset) = Nat.toDigits 10 offset := by
      rw [Json.dumps, Json.dumpsInt, if_neg (by omega), Int.natAbs_natCast]
    have hwell : (Json.int offset).WellFormed := trivial
    rw [← hdumps, Json.loads_dumps hwell]
  have hread (lenient : Bool) := parsePageId_encode lenient Nat.toDigits_ne_nil hascii
  rw [hid, hloads] at hread
  exact ⟨hread false, hread true⟩

/-! ## Page after page of both -/

namespace Source

variable {β : Type} {limit : ℕ} (src : Source β limit)

/-- How many pages there are; an empty one is a page. -/
def pages : ℕ := (src.total - 1) / limit + 1

def pageAt (k : ℕ) : List β := (src.items.drop (k * limit)).take limit

/-- The page id one is at after so many pages, where the first page follows the last. -/
def idAt (k : ℕ) : PageId := if k % src.pages = 0 then none else some (src.idOf (k % src.pages * limit))

theorem pages_pos : 0 < src.pages := Nat.succ_pos _

theorem offset_idAt (k : ℕ) : src.offset (src.idAt k) = some (k % src.pages * limit) := by
  rw [idAt]
  split_ifs with h
  · rw [h, Nat.zero_mul, src.offset_none]
  · exact src.offset_idOf _

theorem given_idAt (k : ℕ) : given (src.idAt k) = true ↔ ¬ src.pages ∣ k := by
  rw [idAt, Nat.dvd_iff_mod_eq_zero]
  split_ifs with h
  · exact iff_of_false (by simp [given]) (not_not.mpr h)
  · exact iff_of_true (by simpa [given] using src.idOf_ne_nil _) h

theorem idAt_eq_none_iff (k : ℕ) : src.idAt k = none ↔ src.pages ∣ k := by
  rw [idAt, Nat.dvd_iff_mod_eq_zero]
  by_cases h : k % src.pages = 0
  · rw [if_pos h]
    exact iff_of_true rfl h
  · rw [if_neg h]
    exact iff_of_false (Option.some_ne_none _) h

/-- There is a next page just when the offset behind this one is not behind the end. -/
theorem next_lt_total_iff (hlimit : 0 < limit) (k : ℕ) : k * limit + limit < src.total ↔ k + 1 < src.pages := by
  have hdiv := @Nat.le_div_iff_mul_le limit (k + 1) (src.total - 1) hlimit
  rw [Nat.succ_mul] at hdiv
  rw [pages]
  omega

theorem search_idAt (hlimit : 0 < limit) (k : ℕ) : src.search (src.idAt k) =
    .ok { results := src.pageAt (k % src.pages), nextPageId := src.idAt (k + 1) } := by
  have hlt : k % src.pages < src.pages := Nat.mod_lt k src.pages_pos
  have hstep : (k + 1) % src.pages = if k % src.pages + 1 < src.pages then k % src.pages + 1 else 0 := by
    rw [← Nat.mod_add_mod]
    split_ifs with h
    · exact Nat.mod_eq_of_lt h
    · have heq : k % src.pages + 1 = src.pages := by omega
      rw [heq, Nat.mod_self]
  have hnext : src.idAt (k + 1) = if k % src.pages * limit + limit < src.total then some (src.idOf (k % src.pages * limit + limit)) else none := by
    rw [idAt, hstep]
    by_cases h : k % src.pages + 1 < src.pages
    · rw [if_pos h, if_neg (Nat.succ_ne_zero _), if_pos ((src.next_lt_total_iff hlimit _).mpr h), ← Nat.succ_mul]
    · rw [if_neg h, if_pos rfl, if_neg (mt (src.next_lt_total_iff hlimit _).mp h)]
  rw [src.page _ _ (src.offset_idAt k), hnext]
  rfl

theorem length_pageAt_le (k : ℕ) : (src.pageAt k).length ≤ limit := List.length_take_le _ _

theorem pageAt_of_pages_le (hlimit : 0 < limit) {k : ℕ} (hk : src.pages ≤ k) : src.pageAt k = [] := by
  have htotal : src.total ≤ k * limit := by
    by_contra hlt
    have hnext := (src.next_lt_total_iff hlimit (k - 1)).mp
    have hmul : (k - 1) * limit + limit = k * limit := by
      rw [← Nat.succ_mul, Nat.succ_eq_add_one, Nat.sub_add_cancel (src.pages_pos.trans_le hk)]
    rw [hmul] at hnext
    have hpages := hnext (Nat.lt_of_not_le hlt)
    have hpos := src.pages_pos
    omega
  rw [pageAt, List.drop_eq_nil_of_le (src.short.trans htotal), List.take_nil]

/-- The pages one behind the other are the items. -/
theorem flatten_pageAt (hlimit : 0 < limit) : ((List.range src.pages).map src.pageAt).flatten = src.items := by
  have hfirst : ∀ n, ((List.range n).map src.pageAt).flatten = src.items.take (n * limit) := by
    intro n
    induction n with
    | zero => rw [Nat.zero_mul, List.take_zero]; rfl
    | succ n ih =>
      rw [List.range_succ, List.map_append, List.flatten_append, ih, List.map_singleton, List.flatten_singleton, pageAt,
        Nat.succ_mul, List.take_add]
  have hrest := src.pageAt_of_pages_le hlimit le_rfl
  rw [hfirst]
  refine List.take_of_length_le ?_
  by_contra hlt
  have hdrop : src.items.drop (src.pages * limit) ≠ [] := by
    rw [ne_eq, List.drop_eq_nil_iff]
    exact hlt
  rw [pageAt, List.take_eq_nil_iff] at hrest
  exact hrest.elim hlimit.ne' hdrop

theorem pageAt_of_total_eq_zero (h : src.total = 0) (k : ℕ) : src.pageAt k = [] := by
  have hitems : src.items = [] := List.eq_nil_of_length_eq_zero (Nat.le_zero.mp (src.short.trans h.le))
  rw [pageAt, hitems, List.drop_nil, List.take_nil]

end Source

namespace Servers

variable {β γ α : Type} {limit : ℕ} (s : Servers β γ α limit)

/-- What the search shows after so many pages. -/
def shown (k : ℕ) : List α := s.combined (s.v0.pageAt (k % s.v0.pages)) (s.v1.pageAt (k % s.v1.pages))

/-- The pages of both servers begin together again after so many. -/
def rounds : ℕ := Nat.lcm s.v0.pages s.v1.pages

/-- The page id after so many pages, as long as one of the servers is not at its first one. -/
def pageIdAt (k : ℕ) : PageId := if k = 0 then none else createCombinedPageId (s.v0.idAt k) (s.v1.idAt k)

theorem rounds_pos : 0 < s.rounds := Nat.lcm_pos s.v0.pages_pos s.v1.pages_pos

theorem given_iff (k : ℕ) : (given (s.v0.idAt k) = true ∨ given (s.v1.idAt k) = true) ↔ ¬ s.rounds ∣ k := by
  rw [s.v0.given_idAt, s.v1.given_idAt, ← not_and_or, rounds, Nat.lcm_dvd_iff]

theorem parsePageId_at (lenient : Bool) {k : ℕ} (hk : k < s.rounds) :
    parsePageId lenient (s.pageIdAt k) = .ok (s.v0.idAt k, s.v1.idAt k) := by
  rw [pageIdAt]
  split_ifs with h
  · rw [h, (s.v0.idAt_eq_none_iff 0).mpr (Nat.dvd_zero _), (s.v1.idAt_eq_none_iff 0).mpr (Nat.dvd_zero _)]
    rfl
  · have hgiven := (s.given_iff k).mpr fun hdvd => (Nat.le_of_dvd (Nat.pos_of_ne_zero h) hdvd).not_gt hk
    obtain ⟨text, htext, hread⟩ := parsePageId_create lenient hgiven
    rw [htext, hread]

theorem search_at (hlimit : 0 < limit) (lenient : Bool) {k : ℕ} (hk : k < s.rounds) : s.searchConversations lenient (s.pageIdAt k) =
    .ok { results := s.shown k, nextPageId := createCombinedPageId (s.v0.idAt (k + 1)) (s.v1.idAt (k + 1)) } := by
  rw [searchConversations, s.parsePageId_at lenient hk]
  show (s.v0.search (s.v0.idAt k)).bind _ = _
  rw [s.v0.search_idAt hlimit]
  show (s.fetchV1 lenient (s.v1.idAt k)).map _ = _
  rw [fetchV1, s.v1.search_idAt hlimit]
  rfl

/-- From any page on one comes to the last of the round, and there the pages end. -/
theorem walk_at (hlimit : 0 < limit) (lenient : Bool) {fuel k : ℕ} (hk : k < s.rounds) (hfuel : s.rounds ≤ fuel + k) :
    walk (s.searchConversations lenient) fuel (s.pageIdAt k) = some ((List.range' k (s.rounds - k)).map s.shown) := by
  induction fuel generalizing k with
  | zero => omega
  | succ fuel ih =>
    have hcount : s.rounds - k = (s.rounds - (k + 1)) + 1 := by omega
    rw [walk, s.search_at hlimit lenient hk, hcount, List.range'_succ, List.map_cons]
    dsimp only
    by_cases hlast : k + 1 = s.rounds
    · have hnone : createCombinedPageId (s.v0.idAt (k + 1)) (s.v1.idAt (k + 1)) = none := by
        have hgiven := mt (s.given_iff (k + 1)).mp (not_not.mpr (dvd_of_eq hlast.symm))
        rw [not_or, Bool.not_eq_true, Bool.not_eq_true] at hgiven
        rw [createCombinedPageId, hgiven.1, hgiven.2]
        rfl
      rw [hnone, hlast, Nat.sub_self]
      rfl
    · have hmore : k + 1 < s.rounds := by omega
      have hrest := ih hmore (by omega)
      rw [pageIdAt, if_neg (Nat.succ_ne_zero k)] at hrest
      obtain ⟨text, htext, -⟩ := parsePageId_create lenient ((s.given_iff (k + 1)).mpr fun hdvd =>
        (Nat.le_of_dvd (Nat.succ_pos k) hdvd).not_gt hmore)
      rw [htext] at hrest ⊢
      dsimp only
      rw [hrest, Option.map_some]

/-! ## What is shown of all -/

theorem fromV0_flatMap (ks : List ℕ) : s.fromV0 ((ks.map s.v0.pageAt).flatten) = ks.flatMap fun k => s.fromV0 (s.v0.pageAt k) := by
  induction ks with
  | nil => rfl
  | cons k ks ih =>
    rw [List.map_cons, List.flatten_cons, List.flatMap_cons, ← ih, fromV0, List.filter_append, List.map_append, List.filter_append]
    rfl

theorem fromV1_flatMap (ks : List ℕ) : s.fromV1 ((ks.map s.v1.pageAt).flatten) = ks.flatMap fun k => s.fromV1 (s.v1.pageAt k) := by
  induction ks with
  | nil => rfl
  | cons k ks ih =>
    rw [List.map_cons, List.flatten_cons, List.flatMap_cons, ← ih, fromV1, List.map_append, List.filter_append]
    rfl

theorem length_fromV0_le (found : List β) : (s.fromV0 found).length ≤ found.length := by
  have hmap := List.length_filter_le s.passes ((found.filter s.recent).map s.info)
  rw [List.length_map] at hmap
  exact hmap.trans (List.length_filter_le _ _)

theorem length_fromV1_le (found : List γ) : (s.fromV1 found).length ≤ found.length := by
  have hmap := List.length_filter_le s.passes (found.map s.convert)
  rwa [List.length_map] at hmap

/-- Nothing is cut off while the two pages fit into one. -/
theorem combined_perm {v0 : List β} {v1 : List γ} (h : (s.fromV0 v0).length + (s.fromV1 v1).length ≤ limit) :
    (s.combined v0 v1).Perm (s.fromV0 v0 ++ s.fromV1 v1) := by
  rw [combined, List.take_of_length_le]
  · exact List.perm_insertionSort _ _
  · rw [List.length_insertionSort, List.length_append]
    exact h

theorem pages_of_le {δ : Type} {src : Source δ limit} (hlimit : 0 < limit) (h : src.total ≤ limit) : src.pages = 1 := by
  rw [Source.pages, Nat.div_eq_of_lt (by omega)]

/-- Where each page shows what becomes of the page of one server, all that is shown is what becomes of all it has. -/
theorem flatMap_shown_perm {δ : Type} {src : Source δ limit} (hlimit : 0 < limit) {kept : List δ → List α}
    (hkept : ∀ ks : List ℕ, kept ((ks.map src.pageAt).flatten) = ks.flatMap fun k => kept (src.pageAt k)) (hrounds : s.rounds = src.pages)
    (hpage : ∀ k < src.pages, (s.shown k).Perm (kept (src.pageAt k))) : ((List.range s.rounds).flatMap s.shown).Perm (kept src.items) := by
  rw [hrounds]
  calc ((List.range src.pages).flatMap s.shown).Perm ((List.range src.pages).flatMap fun k => kept (src.pageAt k)) :=
        List.Perm.flatMap_left _ fun k hk => hpage k (List.mem_range.mp hk)
    _ = kept src.items := by rw [← hkept, src.flatten_pageAt hlimit]

/-- A server without conversations leaves the other one's pages as they are. -/
theorem shown_perm_v0 (hlimit : 0 < limit) (h : s.v1.total = 0) : ((List.range s.rounds).flatMap s.shown).Perm (s.fromV0 s.v0.items) := by
  have hpages := pages_of_le hlimit (h.le.trans (Nat.zero_le limit))
  have hnil : s.fromV1 [] = [] := rfl
  refine s.flatMap_shown_perm hlimit s.fromV0_flatMap (by rw [rounds, hpages, Nat.lcm_one_right]) fun k hk => ?_
  have hperm := @combined_perm _ _ _ _ s (s.v0.pageAt k) [] ((s.length_fromV0_le _).trans (s.v0.length_pageAt_le k))
  rw [hnil, List.append_nil] at hperm
  rwa [shown, Nat.mod_eq_of_lt hk, s.v1.pageAt_of_total_eq_zero h]

theorem shown_perm_v1 (hlimit : 0 < limit) (h : s.v0.total = 0) : ((List.range s.rounds).flatMap s.shown).Perm (s.fromV1 s.v1.items) := by
  have hpages := pages_of_le hlimit (h.le.trans (Nat.zero_le limit))
  have hnil : s.fromV0 [] = [] := rfl
  refine s.flatMap_shown_perm hlimit s.fromV1_flatMap (by rw [rounds, hpages, Nat.lcm_one_left]) fun k hk => ?_
  have hperm := @combined_perm _ _ _ _ s [] (s.v1.pageAt k)
    ((Nat.zero_add _).le.trans ((s.length_fromV1_le _).trans (s.v1.length_pageAt_le k)))
  rw [hnil, List.nil_append] at hperm
  rwa [shown, Nat.mod_eq_of_lt hk, s.v0.pageAt_of_total_eq_zero h]

theorem length_shown_le (ks : List ℕ) : (ks.flatMap s.shown).length ≤ ks.length * limit := by
  induction ks with
  | nil => exact Nat.zero_le _
  | cons k ks ih =>
    have hpage : (s.shown k).length ≤ limit := List.length_take_le _ _
    rw [List.flatMap_cons, List.length_append, List.length_cons, Nat.succ_mul]
    omega

/-- With several pages on both servers, as many as each other, there is no room for all on the pages shown. -/
theorem length_shown_lt (hlimit : 0 < limit) (hsame : s.v0.pages = s.v1.pages) (htwo : 2 ≤ s.v0.pages) (h0 : s.v0.items.length = s.v0.total)
    (h1 : s.v1.items.length = s.v1.total) : ((List.range s.rounds).flatMap s.shown).length < s.v0.items.length + s.v1.items.length := by
  obtain ⟨n, hn⟩ := Nat.exists_eq_add_of_le htwo
  have hmany0 := (s.v0.next_lt_total_iff hlimit n).mpr (by omega)
  have hmany1 := (s.v1.next_lt_total_iff hlimit n).mpr (by omega)
  have hshown := s.length_shown_le (List.range s.rounds)
  have hrounds : s.rounds * limit = n * limit + 2 * limit := by
    rw [rounds, ← hsame, Nat.lcm_self, hn, Nat.add_comm, Nat.add_mul]
  rw [List.length_range, hrounds] at hshown
  omega

/-- Following the page ids one comes to the end after as many pages as the least common multiple of the servers' page
numbers: each server begins again after its last page while the other one goes on, and of two pages only as much as fits into
one is shown. So all is shown once where one server has nothing, or where all fits on one page; and not all is shown where both
have equally many pages, but more than one. A page id of the old server alone is refused. -/
theorem searchConversations_pages (hlimit : 0 < limit) (lenient : Bool) :
    (∀ fuel, s.rounds ≤ fuel → walk (s.searchConversations lenient) fuel none = some ((List.range s.rounds).map s.shown)) ∧
      (s.v1.total = 0 → ((List.range s.rounds).map s.shown).flatten.Perm (s.fromV0 s.v0.items)) ∧
      (s.v0.total = 0 → ((List.range s.rounds).map s.shown).flatten.Perm (s.fromV1 s.v1.items)) ∧
      (s.v0.total + s.v1.total ≤ limit → ((List.range s.rounds).map s.shown).flatten.Perm (s.fromV0 s.v0.items ++ s.fromV1 s.v1.items)) ∧
      (s.v0.pages = s.v1.pages → 2 ≤ s.v0.pages → s.v0.items.length = s.v0.total → s.v1.items.length = s.v1.total →
        ((List.range s.rounds).map s.shown).flatten.length < s.v0.items.length + s.v1.items.length) ∧
      ∀ (offset : ℕ) id, offsetToPageId offset true = some id →
        s.searchConversations false (some id) = .error (.attributeError "object has no attribute 'get'") := by
  refine ⟨fun fuel hfuel => ?_, fun h => ?_, fun h => ?_, fun h => ?_, fun hsame htwo h0 h1 => ?_, fun offset id hid => ?_⟩
  · have hwalk := @walk_at _ _ _ _ s hlimit lenient fuel 0 s.rounds_pos hfuel
    rw [pageIdAt, if_pos rfl, Nat.sub_zero, ← List.range_eq_range'] at hwalk
    exact hwalk
  · rw [← List.flatMap_def]
    exact s.shown_perm_v0 hlimit h
  · rw [← List.flatMap_def]
    exact s.shown_perm_v1 hlimit h
  · have hpages0 := @pages_of_le _ _ s.v0 hlimit (by omega)
    have hpages1 := @pages_of_le _ _ s.v1 hlimit (by omega)
    have hall0 := s.v0.flatten_pageAt hlimit
    have hall1 := s.v1.flatten_pageAt hlimit
    rw [hpages0, List.range_one, List.map_singleton, List.flatten_singleton] at hall0
    rw [hpages1, List.range_one, List.map_singleton, List.flatten_singleton] at hall1
    have hfits : (s.fromV0 s.v0.items).length + (s.fromV1 s.v1.items).length ≤ limit :=
      (Nat.add_le_add ((s.length_fromV0_le _).trans s.v0.short) ((s.length_fromV1_le _).trans s.v1.short)).trans h
    rw [rounds, hpages0, hpages1, Nat.lcm_self, List.range_one, List.map_singleton, List.flatten_singleton, shown, Nat.zero_mod,
      Nat.zero_mod, hall0, hall1]
    exact s.combined_perm hfits
  · rw [← List.flatMap_def]
    exact s.length_shown_lt hlimit hsame htwo h0 h1
  · rw [searchConversations, (parsePageId_old hid).1]
    rfl

/-- The same three conversations on both servers, on pages of one. -/
def newYears : Servers ConversationMetadata ConversationMetadata ConversationMetadata 1 where
  v0 := .ofStore FileConversationStore.newYearStore rfl 1
  v1 := .ofStore FileConversationStore.newYearStore rfl 1
  recent _ := true
  info c := c
  convert c := c
  passes _ := true
  createdAt c := c.createdAt.hour

theorem searchConversations_pages_newYears :
    walk (newYears.searchConversations false) newYears.rounds none = some ((List.range newYears.rounds).map newYears.shown) :=
  (newYears.searchConversations_pages Nat.one_pos false).1 _ le_rfl

end Servers

end OpenHands.CombinedSearch
