/-
The conversation between the protocols.  A request decoder turns the body of
a client into a conversation, and a request encoder turns a conversation
into the body for an upstream.

A body is given by its JSON value and by its size.  JSON that a codec passes
on without looking into it (the schema of a tool, the input of a call) is
kept as a value; `Texts` is what the standard library knows about texts: the
value of a JSON text, the text of a value, and the bytes of a base64 text.
-/
import Hoorific.Lib.Unmarshal
import Hoorific.Protocol.Events

namespace Hoorific.Protocol.Request

/-! ### Conversations -/

structure CacheControl where
  type : String := ""
  ttl : String := ""
deriving DecidableEq

structure PromptCache where
  protocol : String := ""
  key : String := ""
  retention : String := ""
  mode : String := ""
  ttl : String := ""
  cachedContent : String := ""
  sessionID : String := ""
  control : Option CacheControl := none
deriving DecidableEq

structure Block extends ContentBlock where
  cacheControl : Option CacheControl := none
  cacheBreakpoint : Bool := false
deriving DecidableEq

inductive Role where
  | system | user | assistant | tool
deriving DecidableEq

def Role.text : Role → String
  | .system => "system"
  | .user => "user"
  | .assistant => "assistant"
  | .tool => "tool"

structure Message where
  role : Role
  content : List Block := []
deriving DecidableEq

structure Tool where
  name : String := ""
  description : String := ""
  schema : Option Json := none
  cacheControl : Option CacheControl := none
  cacheBreakpoint : Bool := false

structure Conversation where
  model : String := ""
  system : List Block := []
  messages : List Message := []
  tools : List Tool := []
  cache : Option PromptCache := none
  maxOutputTokens : Option Int := none
  stop : List String := []
  stream : Bool := false
  streamIncludeUsage : Option Bool := none
  structuredOutput : Option Json := none
  structuredOutputName : String := ""
  structuredOutputDescription : String := ""
  structuredOutputMode : String := ""
  structuredOutputStrict : Option Bool := none

/-- Every block of a conversation. -/
def Conversation.blocks (c : Conversation) : List Block :=
  c.system ++ c.messages.flatMap Message.content

/-! ### Texts -/

/-- What the standard library makes of texts. -/
structure Texts where
  /-- the first JSON value of a text, and whether nothing follows it -/
  parse : String → Option (Json × Bool)
  /-- the text of a JSON value -/
  text : Json → String
  /-- the bytes of a base64 text -/
  base64 : String → Option Bytes
  /-- the numbers of a value can be held by a `float64` -/
  fits : Json → Bool

/-- A text that is not empty, not too long, and on one line. -/
def validCacheString (v : String) (max : ℕ) : Bool :=
  v != "" && decide (v.toList.length ≤ max) &&
    v.toList.all fun c => c != '\x00' && c != '\r' && c != '\n'

/-- The times to live a client may ask for. -/
def validCacheTTL (v : String) : Bool := ["", "5m", "30m", "1h", "24h"].contains v

end Hoorific.Protocol.Request
