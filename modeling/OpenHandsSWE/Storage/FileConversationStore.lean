import OpenHandsSWE.Lib.DateTime
import OpenHandsSWE.Lib.JsonText
import OpenHandsSWE.Utils.SearchUtils

/-! Conversations in files: their metadata, and the search that pages through them, newest first. -/

namespace OpenHands

def CONVERSATION_BASE_DIR : String := "sessions"

def getConversationDir (sid : String) : String := CONVERSATION_BASE_DIR ++ "/" ++ sid ++ "/"

def getConversationMetadataFilename (sid : String) : String := getConversationDir sid ++ "metadata.json"

/-- `Path(path).name`. -/
def pathName (path : String) : List Char :=
  (((Text.split ['/'] path.toList).filter fun part => part ≠ [] ∧ part ≠ ['.']).getLast?).getD []

structure ConversationMetadata where
  conversationId : String
  createdAt : DateTime

/-- A file store, and how it is made sure that a dictionary holds metadata. -/
structure FileConversationStore where
  list : String → Except PyError (List String)
  read : String → Except PyError String
  validate : List (String × Json) → Except PyError ConversationMetadata

namespace FileConversationStore

variable (store : FileConversationStore)

def getMetadata (conversationId : String) : Except PyError ConversationMetadata :=
  let path := getConversationMetadataFilename conversationId
  (store.read path).bind fun text =>
    match Json.loads text.toList with
    | none => .error (.valueError "JSONDecodeError")
    | some (.obj kvs) =>
      if Assoc.contains "created_at" kvs then store.validate (Assoc.erase "github_user_id" kvs)
      else .error .fileNotFoundError
    | some _ => .error (.typeError "metadata is not a dictionary")

/-- The entries of the directory that are conversations. -/
def conversationIds (paths : List String) : List String :=
  ((paths.map pathName).filter fun name => name.head? ≠ some '.').map String.ofList

/-- The metadata that loads; the rest is passed over. -/
def conversations (ids : List String) : List ConversationMetadata :=
  ids.filterMap fun id => (store.getMetadata id).toOption

/-- Sorted by text, later ones first and otherwise as they were. -/
def newestFirst (a b : ConversationMetadata) : Prop := b.createdAt.isoformat ≤ a.createdAt.isoformat

instance : DecidableRel newestFirst := fun _ _ => inferInstanceAs (Decidable (_ ≤ _))

def sortedConversations (ids : List String) : List ConversationMetadata :=
  (store.conversations ids).insertionSort newestFirst

def search (pageId : Option (List Char)) (limit : Int) : Except PyError (ResultSet ConversationMetadata) :=
  match store.list CONVERSATION_BASE_DIR with
  | .error .fileNotFoundError => .ok {}
  | .error err => .error err
  | .ok paths =>
    let ids := conversationIds paths
    (pageIdToOffset pageId).map fun start =>
      let stop := min (limit + start) ids.length
      { results := Py.slice (store.sortedConversations ids) start stop
        nextPageId := offsetToPageId stop (stop < ids.length) }

/-- The directory holds these entries; one that is missing holds none. -/
def Lists (paths : List String) : Prop :=
  store.list CONVERSATION_BASE_DIR = .ok paths ∨
    store.list CONVERSATION_BASE_DIR = .error .fileNotFoundError ∧ paths = []

section Pages

variable {store} {paths : List String}

theorem search_page {pageId : Option (List Char)} {start : Nat} (limit : Nat)
    (hlist : store.list CONVERSATION_BASE_DIR = .ok paths) (hstart : pageIdToOffset pageId = .ok (start : Int))
    (stop : Nat) (hstop : stop = min (limit + start) (conversationIds paths).length) :
    store.search pageId limit = .ok
      { results := ((store.sortedConversations (conversationIds paths)).take stop).drop start
        nextPageId := offsetToPageId stop (stop < (conversationIds paths).length) } := by
  have hmin : min ((limit : Int) + start) ((conversationIds paths).length : Int) = (stop : Int) := by
    rw [← Nat.cast_add, ← Nat.cast_min, hstop]
  unfold search
  rw [hlist]
  dsimp only
  rw [hstart]
  show Except.ok _ = _
  dsimp only
  rw [hmin, Py.slice_natCast]
  simp only [Nat.cast_lt]

theorem length_sortedConversations (store : FileConversationStore) (ids : List String) :
    (store.sortedConversations ids).length ≤ ids.length := by
  unfold sortedConversations
  rw [List.length_insertionSort]
  exact List.length_filterMap_le _ _

/-- From an offset on, the pages give what is left of the sorted conversations. -/
theorem iterate_from (hlist : store.list CONVERSATION_BASE_DIR = .ok paths) {limit : Nat} (hlimit : 0 < limit)
    {fuel start : Nat} {pageId : Option (List Char)} (hstart : pageIdToOffset pageId = .ok (start : Int))
    (hfuel : (conversationIds paths).length < fuel + start) (hwithin : start ≤ (conversationIds paths).length) :
    iterate (fun pageId => store.search pageId limit) fuel pageId =
      some ((store.sortedConversations (conversationIds paths)).drop start, none) := by
  induction fuel generalizing start pageId with
  | zero => omega
  | succ fuel ih =>
    have hshort := length_sortedConversations store (conversationIds paths)
    by_cases hmore : limit + start < (conversationIds paths).length
    · have hpage := search_page limit hlist hstart (limit + start) (by omega)
      have hnext : pageIdToOffset (some (Base64.encode (encodeDigits (limit + start : Nat)))) =
          .ok ((limit + start : Nat) : Int) :=
        pageIdToOffset_offsetToPageId (show offsetToPageId (limit + start : Nat) true = some _ from rfl)
      have hrest := ih hnext (by omega) hmore.le
      rw [iterate, hpage]
      unfold offsetToPageId
      rw [decide_eq_true hmore, if_pos rfl]
      dsimp only
      rw [hrest, Option.map_some]
      dsimp only
      rw [List.drop_take, Nat.add_sub_cancel, Nat.add_comm limit start, ← List.drop_drop, List.take_append_drop]
    · have hpage := search_page limit hlist hstart (conversationIds paths).length (by omega)
      rw [iterate, hpage]
      unfold offsetToPageId
      rw [decide_eq_false (lt_irrefl _), if_neg Bool.false_ne_true]
      dsimp only
      rw [List.take_of_length_le hshort]

end Pages

instance : Std.Total newestFirst := ⟨fun _ _ => le_total _ _⟩

instance : IsTrans ConversationMetadata newestFirst := ⟨fun _ _ _ hab hbc => le_trans hbc hab⟩

def newYear (hour : Nat) (hhour : hour < 24) : DateTime where
  year := 2025
  month := 1
  day := 1
  hour := hour
  minute := 0
  second := 0
  microsecond := 0
  offset := some 0
  hyear := by decide
  hmonth := by decide
  hday := by decide
  hhour := hhour
  hminute := by decide
  hsecond := by decide
  hmicrosecond := by decide

def newYearStore : FileConversationStore where
  list _ := .ok ["sessions/a/", "sessions/b/", "sessions/c/", "sessions/.lock"]
  read path :=
    if path = "sessions/a/metadata.json" then .ok "\x7b\"created_at\": \"2025-01-01T07:00:00Z\"\x7d"
    else if path = "sessions/b/metadata.json" then .ok "broken"
    else .ok "\x7b\"created_at\": \"2025-01-01T09:00:00Z\"\x7d"
  validate kvs :=
    if Assoc.get? "created_at" kvs = some (.str "2025-01-01T07:00:00Z") then .ok ⟨"a", newYear 7 (by decide)⟩
    else .ok ⟨"c", newYear 9 (by decide)⟩

example : (newYearStore.conversations (conversationIds ["sessions/a/", "sessions/b/", "sessions/c/", "sessions/.lock"])).map
    (·.conversationId) = ["a", "c"] := by decide +kernel

end FileConversationStore

end OpenHands
