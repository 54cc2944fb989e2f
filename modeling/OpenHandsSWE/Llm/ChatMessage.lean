import OpenHandsSWE.Lib.Assoc
import OpenHandsSWE.Lib.Python

/-! Messages as they go to an LLM and come from it. -/

namespace OpenHands

namespace Chat

/-- An item of a content list, perhaps marked for caching. -/
inductive ContentItem where
  | text (text : String) (cacheControl : Bool)
  | image (url : String) (cacheControl : Bool)
deriving DecidableEq, Repr

inductive Content where
  | none
  | str (text : String)
  | items (items : List ContentItem)
deriving DecidableEq, Repr

structure FunctionCall where
  name : String
  arguments : String
deriving DecidableEq, Repr

/-- The keys of a tool call; a caller may have left one out. -/
structure ToolCall where
  index : Option Int := none
  id : Option String
  type : Option String
  function : Option FunctionCall
deriving DecidableEq, Repr

inductive Message where
  | system (content : Content)
  | user (content : Content)
  | assistant (content : Content) (toolCalls : Option (List ToolCall))
  | tool (content : Content) (toolCallId : String) (name : Option String) (cacheControl : Bool)
deriving DecidableEq, Repr

namespace Message

def isAssistant : Message → Bool
  | assistant .. => true
  | _ => false

def isTool : Message → Bool
  | tool .. => true
  | _ => false

def toolCalls : Message → List ToolCall
  | assistant _ (some calls) => calls
  | _ => []

def toolCallId : Message → Option String
  | tool _ id _ _ => some id
  | _ => none

end Message

end Chat

end OpenHands
