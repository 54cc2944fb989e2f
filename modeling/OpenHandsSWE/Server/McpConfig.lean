import OpenHandsSWE.Lib.JsonCodec
import OpenHandsSWE.Lib.Text

/-! The servers of the tool protocol that a user configures: what their fields have to be, and their stored form. -/

namespace OpenHands.McpConfig

def strip (s : String) : String := String.ofList (Text.strip s.toList)

section
variable (urlparse : String → Option (String × String))

/-- `urlparse` answers the scheme and the host, or raises. -/
def validateMcpUrl (url : String) : Option String :=
  let url := strip url
  if url = "" then none
  else
    match urlparse url with
    | none => none
    | some (scheme, netloc) =>
      if scheme = "" ∨ netloc = "" then none
      else if scheme ∈ ["http", "https", "ws", "wss"] then some url else none

def validateServerName (name : String) : Option String :=
  let v := strip name
  if v = "" then none else if v.toList.all (fun c => c.isAlphanum || c == '-' || c == '_') then some v else none

def validateCommand (command : String) : Option String :=
  let v := strip command
  if v = "" then none else if ' ' ∈ v.toList then none else some v

def ValidTimeout (timeout : Option Int) : Prop := ∀ t ∈ timeout, 0 < t ∧ t ≤ 3600

instance : DecidablePred ValidTimeout := fun timeout =>
  inferInstanceAs (Decidable (∀ t ∈ timeout, 0 < t ∧ t ≤ 3600))

/-- Each validator answers the text without the blanks around it. -/
theorem strip_of_validateMcpUrl {url v : String} (h : validateMcpUrl urlparse url = some v) : strip url = v := by
  unfold validateMcpUrl at h
  dsimp only at h
  split at h
  · exact absurd h (by simp)
  · split at h
    · exact absurd h (by simp)
    · split at h
      · exact absurd h (by simp)
      · split at h
        · exact Option.some.inj h
        · exact absurd h (by simp)

theorem strip_of_validateServerName {name v : String} (h : validateServerName name = some v) : strip name = v := by
  unfold validateServerName at h
  dsimp only at h
  split at h
  · exact absurd h (by simp)
  · split at h
    · exact Option.some.inj h
    · exact absurd h (by simp)

theorem strip_of_validateCommand {command v : String} (h : validateCommand command = some v) : strip command = v := by
  unfold validateCommand at h
  dsimp only at h
  split at h
  · exact absurd h (by simp)
  · split at h
    · exact absurd h (by simp)
    · exact Option.some.inj h

-- what it computes is not needed to elaborate the structures below
attribute [local irreducible] validateMcpUrl

/-- The values that a validator leaves as they are. -/
abbrev Valid (validate : String → Option String) : Type := { v : String // validate v = some v }

structure SseServer where
  url : Valid (validateMcpUrl urlparse)
  apiKey : Option String

structure StdioServer where
  name : Valid validateServerName
  command : Valid validateCommand
  args : List String
  env : { kvs : List (String × String) // (kvs.map Prod.fst).Nodup }

structure ShttpServer where
  url : Valid (validateMcpUrl urlparse)
  apiKey : Option String
  timeout : { t : Option Int // ValidTimeout t }

structure Config where
  sseServers : List (SseServer urlparse)
  stdioServers : List StdioServer
  shttpServers : List (ShttpServer urlparse)

end

open Json (Codec)

def strOrNull : Codec (Option String) := Codec.str.nullable fun _ => nofun

def intOrNull : Codec (Option Int) := Codec.int.nullable fun _ => nofun

def boolOrNull : Codec (Option Bool) := Codec.bool.nullable fun _ => nofun

section
variable {urlparse : String → Option (String × String)}

def urlCodec : Codec (Valid (validateMcpUrl urlparse)) :=
  Codec.str.checked strip _ fun _ => strip_of_validateMcpUrl urlparse

def nameCodec : Codec (Valid validateServerName) := Codec.str.checked strip _ fun _ => strip_of_validateServerName

def commandCodec : Codec (Valid validateCommand) := Codec.str.checked strip _ fun _ => strip_of_validateCommand

def timeoutCodec : Codec { t : Option Int // ValidTimeout t } := intOrNull.checked id ValidTimeout fun _ _ => rfl

def sseCodec : Codec (SseServer urlparse) where
  encode s := .obj [("url", urlCodec.encode s.url), ("api_key", strOrNull.encode s.apiKey)]
  decode
    | .obj kvs => do
      let url ← urlCodec.member "url" none kvs
      let apiKey ← strOrNull.member "api_key" (some none) kvs
      some ⟨url, apiKey⟩
    | _ => none
  decode_encode s := by
    dsimp only
    rw [Codec.member_of_get? urlCodec (a := s.url) rfl, Codec.member_of_get? strOrNull (a := s.apiKey) rfl]
    rfl
  wellFormed s := Json.wellFormed_obj (show ["url", "api_key"].Nodup by decide) <| by
    simp [urlCodec.wellFormed, strOrNull.wellFormed]

def stdioCodec : Codec StdioServer where
  encode s := .obj [("name", nameCodec.encode s.name), ("command", commandCodec.encode s.command),
    ("args", Codec.str.list.encode s.args), ("env", Codec.str.dict.encode s.env)]
  decode
    | .obj kvs => do
      let name ← nameCodec.member "name" none kvs
      let command ← commandCodec.member "command" none kvs
      let args ← Codec.str.list.member "args" (some []) kvs
      let env ← Codec.str.dict.member "env" (some ⟨[], List.nodup_nil⟩) kvs
      some ⟨name, command, args, env⟩
    | _ => none
  decode_encode s := by
    dsimp only
    rw [Codec.member_of_get? nameCodec (a := s.name) rfl, Codec.member_of_get? commandCodec (a := s.command) rfl,
      Codec.member_of_get? Codec.str.list (a := s.args) rfl, Codec.member_of_get? Codec.str.dict (a := s.env) rfl]
    rfl
  wellFormed s := Json.wellFormed_obj (show ["name", "command", "args", "env"].Nodup by decide) <| by
    simp [nameCodec.wellFormed, commandCodec.wellFormed, Codec.str.list.wellFormed, Codec.str.dict.wellFormed]

def shttpCodec : Codec (ShttpServer urlparse) where
  encode s := .obj [("url", urlCodec.encode s.url), ("api_key", strOrNull.encode s.apiKey),
    ("timeout", timeoutCodec.encode s.timeout)]
  decode
    | .obj kvs => do
      let url ← urlCodec.member "url" none kvs
      let apiKey ← strOrNull.member "api_key" (some none) kvs
      let timeout ← timeoutCodec.member "timeout" (some ⟨some 60, by decide⟩) kvs
      some ⟨url, apiKey, timeout⟩
    | _ => none
  decode_encode s := by
    dsimp only
    rw [Codec.member_of_get? urlCodec (a := s.url) rfl, Codec.member_of_get? strOrNull (a := s.apiKey) rfl,
      Codec.member_of_get? timeoutCodec (a := s.timeout) rfl]
    rfl
  wellFormed s := Json.wellFormed_obj (show ["url", "api_key", "timeout"].Nodup by decide) <| by
    simp [urlCodec.wellFormed, strOrNull.wellFormed, timeoutCodec.wellFormed]

/-- No other member may be there. -/
def configCodec : Codec (Config urlparse) where
  encode c := .obj [("sse_servers", sseCodec.list.encode c.sseServers),
    ("stdio_servers", stdioCodec.list.encode c.stdioServers), ("shttp_servers", shttpCodec.list.encode c.shttpServers)]
  decode
    | .obj kvs => do
      let sseServers ← sseCodec.list.member "sse_servers" (some []) kvs
      let stdioServers ← stdioCodec.list.member "stdio_servers" (some []) kvs
      let shttpServers ← shttpCodec.list.member "shttp_servers" (some []) kvs
      if ∀ kv ∈ kvs, kv.1 ∈ ["sse_servers", "stdio_servers", "shttp_servers"] then
        some ⟨sseServers, stdioServers, shttpServers⟩
      else none
    | _ => none
  decode_encode c := by
    dsimp only
    rw [Codec.member_of_get? sseCodec.list (a := c.sseServers) rfl,
      Codec.member_of_get? stdioCodec.list (a := c.stdioServers) rfl,
      Codec.member_of_get? shttpCodec.list (a := c.shttpServers) rfl]
    simp
  wellFormed c := Json.wellFormed_obj (show ["sse_servers", "stdio_servers", "shttp_servers"].Nodup by decide) <| by
    simp [sseCodec.list.wellFormed, stdioCodec.list.wellFormed, shttpCodec.list.wellFormed]

end

end OpenHands.McpConfig
