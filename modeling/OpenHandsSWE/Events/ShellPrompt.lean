import OpenHandsSWE.Lib.Binary64
import OpenHandsSWE.Lib.JsonTokens
import OpenHandsSWE.Events.Serialization.Observation

/-! The metadata that the shell prints with its prompt, and how it is read from the terminal. -/

namespace OpenHands

namespace ShellPrompt

def CMD_OUTPUT_PS1_BEGIN : List Char := "\n###PS1JSON###\n".toList

def CMD_OUTPUT_PS1_END : List Char := "\n###PS1END###".toList

/-! ## The prompt -/

/-- `json.dumps` of an object of strings with `indent=2`. -/
def dumpsIndented (fields : List (String × String)) : List Char :=
  let lines := fields.map fun kv => [' ', ' '] ++ Json.dumpsString kv.1 ++ [':', ' '] ++ Json.dumpsString kv.2
  ['{', '\n'] ++ List.intercalate [',', '\n'] lines ++ ['\n', '}']

def toPs1Prompt : List Char :=
  let fields := [("pid", "$!"), ("exit_code", "$?"), ("username", "\\u"), ("hostname", "\\h"),
    ("working_dir", "$(pwd)"), ("py_interpreter_path", "$(which python 2>/dev/null || echo \"\")")]
  CMD_OUTPUT_PS1_BEGIN ++ Text.replace ['"'] ['\\', '"'] (dumpsIndented fields) ++ (CMD_OUTPUT_PS1_END ++ ['\n'])

/-- What the shell puts in; without a background process `$!` is empty. -/
structure ShellValues where
  pid : Option ℕ
  exitCode : UInt8
  username : String
  hostname : String
  workingDir : String
  pyInterpreterPath : String

namespace ShellValues

variable (v : ShellValues)

def pidText : String := v.pid.elim "" fun n => String.ofList (Nat.toDigits 10 n)

def exitText : String := String.ofList (Nat.toDigits 10 v.exitCode.toNat)

/-- The prompt is assigned between double quotes, where a backslash escapes a quote and another
backslash. -/
def table : List (List Char × List Char) :=
  [("$!".toList, v.pidText.toList), ("$?".toList, v.exitText.toList), ("\\\\u".toList, v.username.toList),
    ("\\\\h".toList, v.hostname.toList), ("$(pwd)".toList, v.workingDir.toList),
    ("$(which python 2>/dev/null || echo \\\\\"\\\\\")".toList, v.pyInterpreterPath.toList), ("\\\"".toList, ['"'])]

/-- The prompt as it is printed. -/
def prompt : List Char := Text.substitute v.table 0 toPs1Prompt

end ShellValues

/-! ## Reading it -/

def beginMark : List Char := Text.strip CMD_OUTPUT_PS1_BEGIN

def endMark : List Char := Text.strip CMD_OUTPUT_PS1_END

/-- The groups of the matches of `CMD_OUTPUT_METADATA_PS1_REGEX`: a match begins at the head of a line
and ends as soon as it can; the first `skip` characters belong to the match before. -/
def findFrom : ℕ → Bool → List Char → List (List Char)
  | _, _, [] => []
  | skip + 1, _, c :: cs => findFrom skip (c == '\n') cs
  | 0, lineStart, c :: cs =>
    if lineStart ∧ beginMark <+: c :: cs then
      match Text.upTo endMark ((c :: cs).drop beginMark.length) with
      | some body => body :: findFrom (beginMark.length + body.length + endMark.length - 1) (c == '\n') cs
      | none => findFrom 0 (c == '\n') cs
    else findFrom 0 (c == '\n') cs

def matchesPs1Metadata (string : List Char) : List (List Char) :=
  (findFrom 0 true string).filter fun body => (Json.loads (Text.strip body)).isSome

/-- `int(float(str(value)))`; the texts of the other values are no numbers. -/
def intOfFloat (value : Json) : Except PyError ℤ :=
  let read (cs : List Char) : Except PyError ℤ :=
    match Binary64.parse cs with
    | some (.finite negative q) => .ok (if negative then -⌊q⌋ else ⌊q⌋)
    | some (.infinite _) => .error .overflowError
    | some .nan => .error (.valueError "cannot convert float NaN to integer")
    | none => .error (.valueError "could not convert string to float")
  match value with
  | .str s => read s.toList
  | .int n => read (Json.dumpsInt n)
  | .float x => read (Json.dumpsFloat x)
  | _ => .error (.valueError "could not convert string to float")

/-- A numeric field, where it is there; what is no number becomes -1. -/
def convertField (key : String) (metadata processed : Dict) : Except PyError Dict :=
  match Assoc.get? key metadata with
  | none => .ok processed
  | some value =>
    match intOfFloat value with
    | .ok n => .ok (Assoc.set key (.int n) processed)
    | .error .overflowError => .error .overflowError
    | .error _ => .ok (Assoc.set key (.int (-1)) processed)

def fromPs1Match (body : List Char) : Except PyError CmdOutputMetadata :=
  match Json.loads body with
  | some (.obj metadata) => do
    let processed ← convertField "pid" metadata metadata
    let processed ← convertField "exit_code" metadata processed
    CmdOutputMetadata.ofDict processed
  | some (.arr _) => .error (.typeError "argument after ** must be a mapping")
  | some _ => .error (.attributeError "copy")
  | none => .error (.valueError "JSONDecodeError")

/-- One match is found, and it gives the values back. -/
def Recovers (v : ShellValues) (output : List Char) : Prop :=
  ∃ body metadata, matchesPs1Metadata output = [body] ∧ fromPs1Match body = .ok metadata ∧
    metadata.pid = v.pid.elim (-1) (fun n => (n : ℤ)) ∧ metadata.exitCode = v.exitCode.toNat ∧
    metadata.username = some v.username ∧ metadata.hostname = some v.hostname ∧
    metadata.workingDir = some v.workingDir ∧ metadata.pyInterpreterPath = some v.pyInterpreterPath

/-! ## The printed prompt -/

namespace ShellValues

variable (v : ShellValues)

def fields : List (String × String) :=
  [("pid", v.pidText), ("exit_code", v.exitText), ("username", v.username), ("hostname", v.hostname),
    ("working_dir", v.workingDir), ("py_interpreter_path", v.pyInterpreterPath)]

theorem toPs1Prompt_eq : toPs1Prompt = ("\n###PS1JSON###\n\x7b\n  \\\"pid\\\": \\\"$!\\\",\n  \\\"exit_code\\\": \\\"$?\\\",\n  " ++
    "\\\"username\\\": \\\"\\\\u\\\",\n  \\\"hostname\\\": \\\"\\\\h\\\",\n  \\\"working_dir\\\": \\\"$(pwd)\\\",\n  " ++
    "\\\"py_interpreter_path\\\": \\\"$(which python 2>/dev/null || echo \\\\\"\\\\\")\\\"\n\x7d\n###PS1END###\n").toList := by
  decide +kernel

/-- What is found in the printed prompt. -/
def body : List Char := '\n' :: '{' :: '\n' :: (Json.membersText v.fields ++ ['\n'])

theorem beginMark_eq : beginMark = "###PS1JSON###".toList := by decide

theorem endMark_eq : endMark = "###PS1END###".toList := by decide

set_option maxRecDepth 20000 in
theorem prompt_eq : v.prompt =
    '\n' :: (beginMark ++ '\n' :: '{' :: '\n' :: (Json.membersText v.fields ++ '\n' :: (endMark ++ ['\n']))) := by
  rw [prompt, toPs1Prompt_eq, beginMark_eq, endMark_eq]
  simp only [Json.membersText, fields, Json.memberLine, List.append_assoc, List.cons_append, List.nil_append]
  rfl

end ShellValues

/-! ## Finding it -/

/-- Nothing is found where there is no room for the mark. -/
theorem findFrom_short {n : ℕ} (lineStart : Bool) {cs : List Char} (h : cs.length < n + beginMark.length) :
    findFrom n lineStart cs = [] := by
  induction cs generalizing n lineStart with
  | nil => cases n <;> rfl
  | cons c cs ih =>
    cases n with
    | succ n => exact ih _ (by rw [List.length_cons] at h; omega)
    | zero =>
      have hnot : ¬ beginMark <+: c :: cs := fun hp => absurd hp.length_le (by omega)
      rw [findFrom, if_neg fun hp => hnot hp.2]
      exact ih _ (by rw [List.length_cons] at h; omega)

/-- No match begins in a text without the mark. -/
theorem findFrom_clean {text : List Char} (lineStart : Bool) (h : ¬ beginMark <:+: text) (cs : List Char) :
    findFrom 0 lineStart (text ++ '\n' :: cs) = findFrom 0 true cs := by
  have hnewline : '\n' ∉ beginMark := by decide
  induction text generalizing lineStart with
  | nil =>
    have hnot : ¬ beginMark <+: '\n' :: cs := fun hp => by
      have hnil := Text.begins_before_letter (u := []) hnewline hp
      exact absurd (List.prefix_nil.mp hnil) (by decide)
    rw [List.nil_append, findFrom, if_neg fun hp => hnot hp.2]
    rfl
  | cons c text ih =>
    have hnot : ¬ beginMark <+: c :: (text ++ '\n' :: cs) := fun hp =>
      h (Text.begins_before_letter (u := c :: text) hnewline hp).isInfix
    rw [List.cons_append, findFrom, if_neg fun hp => hnot hp.2]
    exact ih _ fun hwithin => h (hwithin.trans (List.suffix_cons c text).isInfix)

theorem findFrom_within {n : ℕ} {lineStart : Bool} {cs body : List Char} (h : body ∈ findFrom n lineStart cs) :
    body <:+: cs ∧ ¬ endMark <:+: body := by
  have hweaken {c : Char} {cs : List Char} (hcs : body <:+: cs ∧ ¬ endMark <:+: body) :
      body <:+: c :: cs ∧ ¬ endMark <:+: body :=
    ⟨hcs.1.trans (List.suffix_cons c cs).isInfix, hcs.2⟩
  induction cs generalizing n lineStart with
  | nil => 
    cases n <;> cases h
  | cons c cs ih =>
    cases n with
    | succ n => exact hweaken (ih h)
    | zero =>
      rw [findFrom] at h
      split_ifs at h with hbegins
      · split at h
        next b hb =>
          rcases List.mem_cons.mp h with rfl | h
          · have hclean := Text.upTo_clean (by decide) hb
            exact ⟨(Text.upTo_begins hb).isInfix.trans (List.drop_suffix _ _).isInfix, hclean⟩
          · exact hweaken (ih h)
        · exact hweaken (ih h)
      · exact hweaken (ih h)

/-! ## The values come back -/

section Recovery

variable (v : ShellValues)

/-- A value that the prompt can carry. -/
def Carried (s : String) : Prop := Json.Plain s.toList ∧ ¬ endMark <:+: s.toList

instance (s : String) : Decidable (Carried s) := inferInstanceAs (Decidable (_ ∧ _))

def ShellValues.texts : List String := [v.username, v.hostname, v.workingDir, v.pyInterpreterPath]

theorem plain_of_digits {s : String} (h : ∀ c ∈ s.toList, c.isDigit = true) : Carried s := by
  constructor
  · intro c hc
    have hdigit : 48 ≤ c.toNat ∧ c.toNat ≤ 57 := by
      simpa [Char.isDigit, UInt32.le_iff_toNat_le] using h c hc
    refine ⟨le_trans (by decide) hdigit.1, fun heq => ?_, fun heq => ?_⟩
    · rw [heq] at hdigit
      exact absurd hdigit.1 (by decide)
    · rw [heq] at hdigit
      exact absurd hdigit.2 (by decide)
  · intro hwithin
    have hmark : '#' ∈ s.toList := hwithin.subset (by decide)
    exact absurd (h '#' hmark) (by decide)

theorem pidText_digits : ∀ c ∈ v.pidText.toList, c.isDigit = true := by
  unfold ShellValues.pidText
  cases v.pid with
  | none => exact nofun
  | some n =>
    intro c hc
    rw [Option.elim_some, String.toList_ofList] at hc
    exact Nat.isDigit_of_mem_toDigits (by decide) (by decide) hc

theorem exitText_digits : ∀ c ∈ v.exitText.toList, c.isDigit = true := by
  intro c hc
  rw [ShellValues.exitText, String.toList_ofList] at hc
  exact Nat.isDigit_of_mem_toDigits (by decide) (by decide) hc

theorem carried_fields (h : ∀ s ∈ v.texts, Carried s) : ∀ kv ∈ v.fields, Carried kv.2 := by
  have hpid := plain_of_digits (pidText_digits v)
  have hexit := plain_of_digits (exitText_digits v)
  obtain ⟨huser, hhost, hdir, hpython⟩ : Carried v.username ∧ Carried v.hostname ∧ Carried v.workingDir ∧
      Carried v.pyInterpreterPath := by simpa [ShellValues.texts] using h
  simp only [ShellValues.fields, List.forall_mem_cons]
  exact ⟨hpid, hexit, huser, hhost, hdir, hpython, nofun⟩

theorem plain_keys : ∀ kv ∈ v.fields, Json.Plain kv.1.toList := by
  have hkeys : ∀ k ∈ ["pid", "exit_code", "username", "hostname", "working_dir", "py_interpreter_path"],
      Json.Plain k.toList := by simp [Json.Plain]
  intro kv hkv
  exact hkeys kv.1 (List.mem_map_of_mem (f := Prod.fst) hkv)

/-- The end of the prompt does not stand before its place. -/
theorem members_clean (h : ∀ s ∈ v.texts, Carried s) : ¬ endMark <:+: '\n' :: '{' :: '\n' :: Json.membersText v.fields := by
  have hnewline : '\n' ∉ endMark := by decide
  have hlines := Text.NoOverlap.of_notMem (by decide : endMark ≠ []) hnewline
  have hkeys : ∀ k ∈ ["pid", "exit_code", "username", "hostname", "working_dir", "py_interpreter_path"],
      ¬ endMark <:+: k.toList := by decide +kernel
  intro hwithin
  rcases hlines.infix_append (u := []) (v := '{' :: '\n' :: Json.membersText v.fields) hwithin with hwithin | hwithin
  · exact absurd (List.eq_nil_of_infix_nil hwithin) (by decide)
  rcases hlines.infix_append (u := ['{']) (v := Json.membersText v.fields) hwithin with hwithin | hwithin
  · exact absurd hwithin (by decide)
  obtain ⟨kv, hkv, hkey | hvalue⟩ :=
    Json.infix_membersText (d := '#') (by decide) (by decide) (by decide) hnewline hwithin
  · exact hkeys kv.1 (List.mem_map_of_mem (f := Prod.fst) hkv) hkey
  · exact (carried_fields v h kv hkv).2 hvalue

/-- A prompt that carries its values is found with all of them. -/
theorem find_prompt {text : List Char} (htext : ¬ beginMark <:+: text) (h : ∀ s ∈ v.texts, Carried s) :
    findFrom 0 true (text ++ v.prompt) = [v.body] := by
  have hbody : Text.upTo endMark ('\n' :: '{' :: '\n' :: (Json.membersText v.fields ++ '\n' :: (endMark ++ ['\n']))) =
      some v.body := Text.upTo_line ['\n'] (by decide) (by decide) (members_clean v h)
  obtain ⟨c, mark, hmark⟩ : ∃ c mark, beginMark = c :: mark := List.exists_cons_of_ne_nil (by decide)
  rw [v.prompt_eq, findFrom_clean true htext, hmark, List.cons_append, findFrom, if_pos]
  · have hdrop : (c :: (mark ++ '\n' :: '{' :: '\n' :: (Json.membersText v.fields ++ '\n' :: (endMark ++ ['\n'])))).drop
        beginMark.length = '\n' :: '{' :: '\n' :: (Json.membersText v.fields ++ '\n' :: (endMark ++ ['\n'])) := by
      rw [← List.cons_append, ← hmark, List.drop_left]
    rw [hdrop, hbody]
    dsimp only
    have hend : endMark.length = 12 := by decide
    have hlong : 0 < mark.length := by
      have hbegin : beginMark.length = 13 := by decide
      rw [hmark, List.length_cons] at hbegin
      omega
    rw [findFrom_short]
    simp only [ShellValues.body, List.length_cons, List.length_append, List.length_nil, hmark, hend]
    omega
  · rw [← List.cons_append, ← hmark]
    exact ⟨rfl, List.prefix_append _ _⟩

theorem loads_fields (lead tail : List Char) (h : ∀ s ∈ v.texts, Carried s) (hlead : ∀ c ∈ lead, Json.isSpace c = true)
    (htail : ∀ c ∈ tail, Json.isSpace c = true) :
    Json.loads (lead ++ '{' :: '\n' :: (Json.membersText v.fields ++ tail)) =
      some (.obj (v.fields.map fun kv => (kv.1, .str kv.2))) := by
  have hplain : ∀ kv ∈ v.fields, Json.Plain kv.1.toList ∧ Json.Plain kv.2.toList :=
    fun kv hkv => ⟨plain_keys v kv hkv, (carried_fields v h kv hkv).1⟩
  have hkeys : (v.fields.map Prod.fst).Nodup := by
    show ["pid", "exit_code", "username", "hostname", "working_dir", "py_interpreter_path"].Nodup
    decide
  exact Json.loads_membersText lead tail (List.cons_ne_nil _ _) hplain hkeys hlead htail

theorem strip_body : Text.strip v.body = '{' :: '\n' :: Json.membersText v.fields := by
  refine Text.strip_around ['\n'] ('{' :: '\n' :: Json.membersText v.fields) ['\n']
    ?_ ?_ ?_ ?_ (List.cons_ne_nil _ _)
  · simp [Text.isSpace]
  · simp [Text.isSpace]
  · simp [Text.isSpace]
  · rw [← List.singleton_append, ← List.singleton_append (l := Json.membersText _), List.getLast?_append,
      List.getLast?_append, Json.getLast?_membersText]
    simp [Text.isSpace]

/-- A number survives `int(float(..))` exactly when it is a double. -/
theorem intOfFloat_digits (n : ℕ) :
    intOfFloat (.str (.ofList (Nat.toDigits 10 n))) =
      match Binary64.nearest n with
      | some q => .ok ⌊q⌋
      | none => .error .overflowError := by
  unfold intOfFloat
  dsimp only
  rw [String.toList_ofList, Binary64.parse_toDigits, Binary64.ofRat]
  cases Binary64.nearest n <;> rfl

theorem intOfFloat_exact {n : ℕ} (h : Binary64.Exact n) : intOfFloat (.str (.ofList (Nat.toDigits 10 n))) = .ok n := by
  rw [intOfFloat_digits, h]
  exact congrArg Except.ok (Int.floor_natCast n)

def ShellValues.dict : Dict := v.fields.map fun kv => (kv.1, .str kv.2)

theorem convertField_exit (processed : Dict) :
    convertField "exit_code" v.dict processed = .ok (Assoc.set "exit_code" (.int v.exitCode.toNat) processed) := by
  have hexact : Binary64.Exact v.exitCode.toNat :=
    Binary64.exact_of_lt (lt_trans v.exitCode.toNat_lt (by decide))
  have hget : Assoc.get? "exit_code" v.dict = some (.str v.exitText) := rfl
  rw [convertField, hget]
  dsimp only
  rw [ShellValues.exitText, intOfFloat_exact hexact]

theorem fromPs1Match_eq {body : List Char} {metadata processed converted : Dict}
    (hloads : Json.loads body = some (.obj metadata)) (hpid : convertField "pid" metadata metadata = .ok processed)
    (hexit : convertField "exit_code" metadata processed = .ok converted) :
    fromPs1Match body = CmdOutputMetadata.ofDict converted := by
  rw [fromPs1Match, hloads]
  dsimp only
  rw [hpid]
  exact congrArg (fun fields => fields >>= CmdOutputMetadata.ofDict) hexit

theorem recovers_of_carried {text : List Char} (htext : ¬ beginMark <:+: text) (h : ∀ s ∈ v.texts, Carried s)
    (hpid : ∀ n ∈ v.pid, Binary64.Exact n) : Recovers v (text ++ v.prompt) := by
  have hmatches : matchesPs1Metadata (text ++ v.prompt) = [v.body] := by
    have hloads := loads_fields v [] [] h nofun nofun
    rw [List.append_nil, List.nil_append, ← strip_body] at hloads
    rw [matchesPs1Metadata, find_prompt v htext h, List.filter_cons_of_pos (by rw [hloads]; rfl), List.filter_nil]
  have hloads : Json.loads v.body = some (.obj v.dict) :=
    loads_fields v ['\n'] ['\n'] h (by simp [Json.isSpace]) (by simp [Json.isSpace])
  have hconvert : convertField "pid" v.dict v.dict =
      .ok (Assoc.set "pid" (.int (v.pid.elim (-1) fun n => (n : ℤ))) v.dict) := by
    have hget : Assoc.get? "pid" v.dict = some (.str v.pidText) := rfl
    rw [convertField, hget, ShellValues.pidText]
    cases hp : v.pid with
    | none => rfl
    | some n => 
      dsimp only [Option.elim_some]
      rw [intOfFloat_exact (hpid n hp)]
  refine ⟨v.body, ⟨v.exitCode.toNat, v.pid.elim (-1) (fun n => (n : ℤ)), v.username, v.hostname, v.workingDir,
    v.pyInterpreterPath, "", ""⟩, hmatches, ?_, rfl, rfl, rfl, rfl, rfl, rfl⟩
  rw [fromPs1Match_eq hloads hconvert (convertField_exit v _)]
  rfl

theorem optional_str {fields : Dict} {key s : String}
    (h : Fields.optional fields key (Json.opt? Json.str?) none = .ok (some s)) : Assoc.get? key fields = some (.str s) := by
  unfold Fields.optional Fields.readAs at h
  split at h
  next value hvalue =>
    rw [hvalue]
    cases value with
    | str s' =>
      obtain rfl : s' = s := Option.some.inj (Except.ok.inj h)
      rfl
    | null | bool | int | float | arr | obj => cases h
  · cases h

/-- Only its own key is changed. -/
theorem get?_convertField {key k : String} {metadata processed converted : Dict}
    (h : convertField key metadata processed = .ok converted) (hk : k ≠ key) :
    Assoc.get? k converted = Assoc.get? k processed := by
  unfold convertField at h
  split at h
  · rw [Except.ok.inj h]
  · split at h
    · rw [← Except.ok.inj h, Assoc.get?_set_of_ne hk]
    · cases h
    · rw [← Except.ok.inj h, Assoc.get?_set_of_ne hk]

/-- What the constructor read each field from. -/
theorem ofDict_ok {fields : Dict} {m : CmdOutputMetadata} (h : CmdOutputMetadata.ofDict fields = .ok m) :
    Fields.optional fields "pid" Json.int? (-1) = .ok m.pid ∧
      Fields.optional fields "username" (Json.opt? Json.str?) none = .ok m.username ∧
      Fields.optional fields "hostname" (Json.opt? Json.str?) none = .ok m.hostname ∧
      Fields.optional fields "working_dir" (Json.opt? Json.str?) none = .ok m.workingDir ∧
      Fields.optional fields "py_interpreter_path" (Json.opt? Json.str?) none = .ok m.pyInterpreterPath := by
  unfold CmdOutputMetadata.ofDict at h
  obtain ⟨exitCode, -, h⟩ := Py.bind_ok h
  obtain ⟨pid, hpid, h⟩ := Py.bind_ok h
  obtain ⟨username, huser, h⟩ := Py.bind_ok h
  obtain ⟨hostname, hhost, h⟩ := Py.bind_ok h
  obtain ⟨workingDir, hdir, h⟩ := Py.bind_ok h
  obtain ⟨python, hpython, h⟩ := Py.bind_ok h
  obtain ⟨pre, -, h⟩ := Py.bind_ok h
  obtain ⟨suffix, -, h⟩ := Py.bind_ok h
  obtain rfl := Except.ok.inj h
  exact ⟨hpid, huser, hhost, hdir, hpython⟩

/-- What was read before the constructor was called. -/
theorem fromPs1Match_ok {body : List Char} {metadata : CmdOutputMetadata} (h : fromPs1Match body = .ok metadata) :
    ∃ dict converted processed, Json.loads body = some (.obj dict) ∧ convertField "pid" dict dict = .ok converted ∧
      convertField "exit_code" dict converted = .ok processed ∧ CmdOutputMetadata.ofDict processed = .ok metadata := by
  unfold fromPs1Match at h
  split at h
  next dict hdict =>
    obtain ⟨converted, hpid, h⟩ := Py.bind_ok h
    obtain ⟨processed, hexit, h⟩ := Py.bind_ok h
    exact ⟨dict, converted, processed, hdict, hpid, hexit, h⟩
  all_goals cases h

theorem carried_of_recovers {text : List Char} (htext : ¬ beginMark <:+: text) (h : Recovers v (text ++ v.prompt)) :
    ∀ s ∈ v.texts, Carried s := by
  obtain ⟨body, metadata, hmatches, hfrom, -, -, huser, hhost, hdir, hpython⟩ := h
  obtain ⟨dict, converted, processed, hloads, hpid, hexit, hdict⟩ := fromPs1Match_ok hfrom
  obtain ⟨-, hreadUser, hreadHost, hreadDir, hreadPython⟩ := ofDict_ok hdict
  have hkept {key s : String} (hkey : key ≠ "pid" ∧ key ≠ "exit_code")
      (hs : Fields.optional processed key (Json.opt? Json.str?) none = .ok (some s)) :
      ∃ t, Json.Literal t s body := by
    have hget := optional_str hs
    rw [get?_convertField hexit hkey.2, get?_convertField hpid hkey.1] at hget
    exact Json.loads_literal hloads hget
  have hfound : body ∈ findFrom 0 true (text ++ v.prompt) := by
    have hmem : body ∈ matchesPs1Metadata (text ++ v.prompt) := by rw [hmatches]; exact List.mem_singleton.mpr rfl
    exact (List.mem_filter.mp hmem).1
  rw [v.prompt_eq, findFrom_clean true htext] at hfound
  obtain ⟨hwithin, hclean⟩ := findFrom_within hfound
  -- a literal in what was found stands among the members
  have hmembers {t : List Char} {s : String} (ht : Json.Literal t s body) : Json.Literal t s (Json.membersText v.fields) := by
    have hprompt := ht.of_infix hwithin
    rcases hprompt.on_line (u := beginMark) (v := '{' :: '\n' :: (Json.membersText v.fields ++ '\n' :: (endMark ++ ['\n'])))
      with hmark | hprompt
    · exact absurd hmark (Json.not_literal_of_quote (by decide))
    rcases hprompt.on_line (u := ['{']) (v := Json.membersText v.fields ++ '\n' :: (endMark ++ ['\n'])) with hbrace | hprompt
    · exact absurd hbrace (Json.not_literal_of_quote (by decide))
    rcases hprompt.on_line (u := Json.membersText v.fields) (v := endMark ++ ['\n']) with hprompt | hmark
    · exact hprompt
    · exact absurd hmark (Json.not_literal_of_quote (by decide))
  have hread : ∀ s ∈ v.texts, ∃ t, Json.Literal t s body := by
    simp only [ShellValues.texts, List.forall_mem_cons]
    rw [huser] at hreadUser
    rw [hhost] at hreadHost
    rw [hdir] at hreadDir
    rw [hpython] at hreadPython
    exact ⟨hkept (by decide) hreadUser, hkept (by decide) hreadHost, hkept (by decide) hreadDir,
      hkept (by decide) hreadPython, nofun⟩
  have hplain : ∀ kv ∈ v.fields, Json.Plain kv.2.toList := by
    refine Json.plain_of_literals (plain_keys v) fun kv hkv hbad => ?_
    have htexts : kv.2 ∈ v.texts := by
      simp only [ShellValues.fields, List.mem_cons, List.not_mem_nil, or_false] at hkv
      rcases hkv with rfl | rfl | rfl | rfl | rfl | rfl
      · exact absurd (plain_of_digits (pidText_digits v)).1 hbad
      · exact absurd (plain_of_digits (exitText_digits v)).1 hbad
      all_goals simp [ShellValues.texts]
    obtain ⟨t, ht⟩ := hread kv.2 htexts
    exact ⟨t, hmembers ht⟩
  intro s hs
  obtain ⟨t, ht⟩ := hread s hs
  rcases Json.literal_membersText (plain_keys v) (hmembers ht) with ⟨rfl, hs⟩ | ⟨kv, hkv, hbad, -⟩
  · refine ⟨hs, fun hmark => hclean ((hmark.trans ?_).trans ht.stands)⟩
    exact ⟨['"'], ['"'], by simp⟩
  · exact absurd (hplain kv hkv) hbad

/-- A process id that is read back is a double. -/
theorem exact_of_fromPs1Match {n : ℕ} {metadata : CmdOutputMetadata} (hpid : v.pid = some n)
    (hloads : Json.loads v.body = some (.obj v.dict)) (h : fromPs1Match v.body = .ok metadata)
    (hback : metadata.pid = n) : Binary64.Exact n := by
  obtain ⟨dict, converted, processed, hdict, hconvert, hexit, hmetadata⟩ := fromPs1Match_ok h
  obtain rfl : v.dict = dict := by
    rw [hloads] at hdict
    injection hdict with hdict
    injection hdict
  have hget : Assoc.get? "pid" v.dict = some (.str (.ofList (Nat.toDigits 10 n))) := by
    show some (Json.str v.pidText) = _
    rw [ShellValues.pidText, hpid]
    rfl
  rw [convertField, hget] at hconvert
  dsimp only at hconvert
  rw [intOfFloat_digits] at hconvert
  cases hnearest : Binary64.nearest n with
  | none =>
    rw [hnearest] at hconvert
    cases hconvert
  | some q =>
    rw [hnearest] at hconvert
    obtain rfl := Except.ok.inj hconvert
    obtain ⟨k, rfl⟩ := Binary64.nearest_natCast hnearest
    have hread := (ofDict_ok hmetadata).1
    rw [Fields.optional, get?_convertField hexit (by decide), Assoc.get?_set_self] at hread
    have hfloor : ⌊(k : ℚ)⌋ = metadata.pid := Except.ok.inj hread
    rw [Int.floor_intCast, hback] at hfloor
    rw [Binary64.Exact, hnearest, hfloor, Int.cast_natCast]

/-- The metadata come back exactly when the texts have no quote, no backslash, no control character
and no end mark, and the process id is a double. -/
theorem recovers_iff {text : List Char} (htext : ¬ beginMark <:+: text) :
    Recovers v (text ++ v.prompt) ↔ (∀ s ∈ v.texts, Carried s) ∧ ∀ n ∈ v.pid, Binary64.Exact n := by
  constructor
  · intro h
    have hcarried := carried_of_recovers v htext h
    refine ⟨hcarried, fun n hn => ?_⟩
    obtain ⟨body, metadata, hmatches, hfrom, hpid, -⟩ := h
    have hfound : body ∈ matchesPs1Metadata (text ++ v.prompt) := by rw [hmatches]; exact List.mem_singleton.mpr rfl
    rw [matchesPs1Metadata, find_prompt v htext hcarried] at hfound
    obtain rfl := List.mem_singleton.mp (List.mem_filter.mp hfound).1
    have hloads := loads_fields v ['\n'] ['\n'] hcarried (by simp [Json.isSpace]) (by simp [Json.isSpace])
    refine exact_of_fromPs1Match v hn hloads hfrom ?_
    rw [hpid, Option.mem_def.mp hn]
    rfl
  · rintro ⟨hcarried, hpid⟩
    exact recovers_of_carried v htext hcarried hpid

/-- Alice works in a directory whose name holds a quotation mark. -/
def quotedDirectory : ShellValues := ⟨some 4242, 0, "alice", "build-7", "/home/alice/the \"old\" tree", "/usr/bin/python"⟩

def plainDirectory : ShellValues := { quotedDirectory with workingDir := "/home/alice/tree" }

theorem recovers_iff_plainDirectory : ¬ beginMark <:+: "ls\nREADME.md".toList ∧
    Recovers plainDirectory ("ls\nREADME.md".toList ++ plainDirectory.prompt) := by
  have htext : ¬ beginMark <:+: "ls\nREADME.md".toList := by decide +kernel
  refine ⟨htext, (recovers_iff plainDirectory htext).mpr ⟨?_, ?_⟩⟩
  · simp [plainDirectory, quotedDirectory, ShellValues.texts, Carried, Json.Plain]
    decide +kernel
  · intro n hn
    obtain rfl := Option.some.inj hn
    exact Binary64.exact_of_lt (by decide)

/-- The prompt of that directory is not recognised at all. -/
theorem not_recovers_quotedDirectory : ¬ ∀ (text : List Char) (v : ShellValues), ¬ beginMark <:+: text →
    ¬ endMark <:+: text → Recovers v (text ++ v.prompt) := by
  intro h
  obtain ⟨body, metadata, hmatches, -⟩ := h [] quotedDirectory (by decide) (by decide)
  have hnone : matchesPs1Metadata ([] ++ quotedDirectory.prompt) = [] := by decide +kernel
  rw [hnone] at hmatches
  cases hmatches

end Recovery

end ShellPrompt

end OpenHands
