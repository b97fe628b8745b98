/-
The request codec of the Chat Completions protocol.  The decoder reads a
body into the wire struct, which has a field for everything the codec
supports and for nothing else, and then turns the struct into a
conversation.  Two dialects share the format: a directive on a block or a
tool, and a session, belong to `openrouter`.
-/
import Hoorific.Protocol.Chat
import Hoorific.Protocol.Requests

namespace Hoorific.Protocol.ChatRequest

open Check Request Unmarshal
open Chat (unsupported)

/-! ### The wire -/

structure StreamOptions where
  includeUsage : Option Bool := none
deriving DecidableEq

structure PromptCacheOptions where
  mode : String := ""
  ttl : String := ""
deriving DecidableEq

structure CacheBreakpoint where
  mode : String := ""
deriving DecidableEq

structure ImageURL where
  url : String := ""
  detail : String := ""
deriving DecidableEq

structure FilePart where
  fileID : String := ""
  fileData : String := ""
  filename : String := ""
deriving DecidableEq

structure ContentPart where
  type : String := ""
  text : String := ""
  imageURL : Option ImageURL := none
  file : Option FilePart := none
  cacheControl : Option CacheControl := none
  promptCacheBreakpoint : Option CacheBreakpoint := none
deriving DecidableEq

structure WireCallFunction where
  name : String := ""
  arguments : String := ""
deriving DecidableEq

structure WireToolCall where
  id : String := ""
  type : String := ""
  function : WireCallFunction := {}
deriving DecidableEq

structure WireMessage where
  role : String := ""
  content : Option Json := none
  name : String := ""
  toolCallID : String := ""
  toolCalls : Slice WireToolCall := {}

structure WireFunction where
  name : String := ""
  description : String := ""
  parameters : Option Json := none
  strict : Option Bool := none

structure WireTool where
  type : String := ""
  function : WireFunction := {}
  cacheControl : Option CacheControl := none

structure WireRequest where
  model : String := ""
  messages : Slice WireMessage := {}
  tools : Slice WireTool := {}
  maxTokens : Option Int := none
  maxCompletionTokens : Option Int := none
  stream : Bool := false
  streamOptions : Option StreamOptions := none
  stop : Option Json := none
  responseFormat : Option Json := none
  promptCacheKey : String := ""
  promptCacheRetention : String := ""
  promptCacheOptions : Option PromptCacheOptions := none
  sessionID : String := ""

/-- The schema of a structured answer. -/
structure WireSchema where
  name : String := ""
  description : String := ""
  schema : Option Json := none
  strict : Option Bool := none

section Fields

variable (spelling : Spelling)

def streamOptionsFields : List (StructField StreamOptions) :=
  [.of "include_usage" (·.includeUsage) ({ · with includeUsage := · })
    (pointer false bool)]

def promptCacheOptionsFields : List (StructField PromptCacheOptions) :=
  [.of "mode" (·.mode) ({ · with mode := · }) string,
   .of "ttl" (·.ttl) ({ · with ttl := · }) string]

def cacheControlFields : List (StructField CacheControl) :=
  [.of "type" (·.type) ({ · with type := · }) string,
   .of "ttl" (·.ttl) ({ · with ttl := · }) string]

def cacheBreakpointFields : List (StructField CacheBreakpoint) :=
  [.of "mode" (·.mode) ({ · with mode := · }) string]

def imageURLFields : List (StructField ImageURL) :=
  [.of "url" (·.url) ({ · with url := · }) string,
   .of "detail" (·.detail) ({ · with detail := · }) string]

def filePartFields : List (StructField FilePart) :=
  [.of "file_id" (·.fileID) ({ · with fileID := · }) string,
   .of "file_data" (·.fileData) ({ · with fileData := · }) string,
   .of "filename" (·.filename) ({ · with filename := · }) string]

def contentPartFields : List (StructField ContentPart) :=
  [.of "type" (·.type) ({ · with type := · }) string,
   .of "text" (·.text) ({ · with text := · }) string,
   .of "image_url" (·.imageURL) ({ · with imageURL := · })
    (structPointer spelling true {} imageURLFields),
   .of "file" (·.file) ({ · with file := · }) (structPointer spelling true {} filePartFields),
   .of "cache_control" (·.cacheControl) ({ · with cacheControl := · })
    (structPointer spelling true {} cacheControlFields),
   .of "prompt_cache_breakpoint" (·.promptCacheBreakpoint)
    ({ · with promptCacheBreakpoint := · })
    (structPointer spelling true {} cacheBreakpointFields)]

def callFunctionFields : List (StructField WireCallFunction) :=
  [.of "name" (·.name) ({ · with name := · }) string,
   .of "arguments" (·.arguments) ({ · with arguments := · }) string]

def toolCallFields : List (StructField WireToolCall) :=
  [.of "id" (·.id) ({ · with id := · }) string,
   .of "type" (·.type) ({ · with type := · }) string,
   .of "function" (·.function) ({ · with function := · })
    (struct spelling true callFunctionFields)]

def messageFields : List (StructField WireMessage) :=
  [.of "role" (·.role) ({ · with role := · }) string,
   .of "content" (·.content) ({ · with content := · }) raw,
   .of "name" (·.name) ({ · with name := · }) string,
   .of "tool_call_id" (·.toolCallID) ({ · with toolCallID := · }) string,
   .of "tool_calls" (·.toolCalls) ({ · with toolCalls := · })
    (structs spelling true {} (toolCallFields spelling))]

def functionFields : List (StructField WireFunction) :=
  [.of "name" (·.name) ({ · with name := · }) string,
   .of "description" (·.description) ({ · with description := · }) string,
   .of "parameters" (·.parameters) ({ · with parameters := · }) raw,
   .of "strict" (·.strict) ({ · with strict := · }) (pointer false bool)]

def toolFields : List (StructField WireTool) :=
  [.of "type" (·.type) ({ · with type := · }) string,
   .of "function" (·.function) ({ · with function := · })
    (struct spelling true functionFields),
   .of "cache_control" (·.cacheControl) ({ · with cacheControl := · })
    (structPointer spelling true {} cacheControlFields)]

def requestFields (fits : Json → Bool) : List (StructField WireRequest) :=
  [.of "model" (·.model) ({ · with model := · }) string,
   .of "messages" (·.messages) ({ · with messages := · })
    (structs spelling true {} (messageFields spelling)),
   .of "tools" (·.tools) ({ · with tools := · })
    (structs spelling true {} (toolFields spelling)),
   .of "max_tokens" (·.maxTokens) ({ · with maxTokens := · }) (pointer 0 Unmarshal.int64),
   .of "max_completion_tokens" (·.maxCompletionTokens)
    ({ · with maxCompletionTokens := · }) (pointer 0 Unmarshal.int64),
   .of "stream" (·.stream) ({ · with stream := · }) bool,
   .of "stream_options" (·.streamOptions) ({ · with streamOptions := · })
    (structPointer spelling true {} streamOptionsFields),
   .of "stop" (·.stop) ({ · with stop := · }) (any fits),
   .of "response_format" (·.responseFormat) ({ · with responseFormat := · }) raw,
   .of "prompt_cache_key" (·.promptCacheKey) ({ · with promptCacheKey := · }) string,
   .of "prompt_cache_retention" (·.promptCacheRetention)
    ({ · with promptCacheRetention := · }) string,
   .of "prompt_cache_options" (·.promptCacheOptions) ({ · with promptCacheOptions := · })
    (structPointer spelling true {} promptCacheOptionsFields),
   .of "session_id" (·.sessionID) ({ · with sessionID := · }) string]

def schemaFields : List (StructField WireSchema) :=
  [.of "name" (·.name) ({ · with name := · }) string,
   .of "description" (·.description) ({ · with description := · }) string,
   .of "schema" (·.schema) ({ · with schema := · }) raw,
   .of "strict" (·.strict) ({ · with strict := · }) (pointer false bool)]

end Fields

/-! ### JSON -/

/-- The error of `strict` for a fault. -/
def jsonFault : Fault → StreamFailure
  | .nesting => unsupported "json.depth"
  | .duplicateKey => unsupported "json.duplicate_key"
  | .unknownField _ | .mismatch => unsupported "json.fields"

/-- `strict`: scan the tokens of a value, then decode it. -/
def strict {α : Type} (into : Into α) (zero : α) (v : Json) : Decoded α :=
  ((scanTokens 256 v).bind fun _ => into zero v).mapError jsonFault

/-- `strict` of a raw member, which may be missing. -/
def strictRaw {α : Type} (into : Into α) (zero : α) : Option Json → Decoded α
  | none => .error (unsupported "json")
  | some v => strict into zero v

def object (v : Option Json) : Decoded Unit := do
  let m ← strictRaw map none v
  require m.isSome (unsupported "schema")

variable (t : Texts)

/-- `arguments`: the text of an object. -/
def arguments (s : String) : Decoded Unit :=
  match t.parse s with
  | none => .error (unsupported "json")
  | some (v, true) => object (some v)
  | some (v, false) => do
    let _ ← (scanTokens 256 v).mapError jsonFault
    throw (unsupported "json.trailing")

/-! ### Cache directives -/

def validateCacheControl (c : Option CacheControl) (param : String) : Decoded Unit :=
  match c with
  | none => .ok ()
  | some c => do
    require (validCacheString c.type 32) (unsupported (param ++ ".type"))
    require (c.type == "ephemeral") (unsupported (param ++ ".type"))
    require (validCacheTTL c.ttl) (unsupported (param ++ ".ttl"))

def validatePromptCache (c : Option PromptCache) : Decoded Unit :=
  match c with
  | none => .ok ()
  | some c => do
    require (["openai-chat", "openrouter", "openai-responses"].contains c.protocol)
      (unsupported "cache.protocol")
    require (c.key == "" || validCacheString c.key 256) (unsupported "prompt_cache_key")
    require (c.sessionID == "" ||
      (c.protocol == "openrouter" && validCacheString c.sessionID 256)) (unsupported "session_id")
    require (["", "in_memory", "24h"].contains c.retention) (unsupported "prompt_cache_retention")
    require (["", "implicit", "explicit"].contains c.mode) (unsupported "prompt_cache_options.mode")
    require (validCacheTTL c.ttl) (unsupported "prompt_cache_options.ttl")
    require (c.cachedContent == "") (unsupported "cache.cached_content")
    validateCacheControl c.control "cache.control"
    require c.control.isNone (unsupported "cache.control")

/-- The check of a block in `validateConversationCache`. -/
def checkBlock (protocol : String) (b : Block) (param : String) : Decoded Unit := do
  require (b.cacheControl.isNone || protocol == "openrouter")
    (unsupported (param ++ ".cache_control"))
  validateCacheControl b.cacheControl (param ++ ".cache_control")
  require (!b.cacheBreakpoint ||
      ["openai-chat", "openrouter", "openai-responses"].contains protocol)
    (unsupported (param ++ ".prompt_cache_breakpoint"))
  require (!b.cacheBreakpoint || b.kind == .text)
    (unsupported (param ++ ".prompt_cache_breakpoint"))

/-- The check of a tool in `validateConversationCache`. -/
def checkTool (protocol : String) (t : Request.Tool) (param : String) : Decoded Unit := do
  require (t.cacheControl.isNone || protocol == "openrouter")
    (unsupported (param ++ ".cache_control"))
  validateCacheControl t.cacheControl (param ++ ".cache_control")
  require (!t.cacheBreakpoint) (unsupported (param ++ ".prompt_cache_breakpoint"))

/-- `name[i]`. -/
def element (name : String) (i : ℕ) : String := name ++ "[" ++ toString i ++ "]"

def validateConversationCache (q : Conversation) : Decoded Unit := do
  validatePromptCache q.cache
  let protocol := q.cache.elim "" (·.protocol)
  forM q.system.zipIdx fun b => checkBlock protocol b.1 (element "system" b.2)
  forM q.messages.zipIdx fun m => forM m.1.content.zipIdx fun b =>
    checkBlock protocol b.1 (element (element "messages" m.2 ++ ".content") b.2)
  forM q.tools.zipIdx fun t => checkTool protocol t.1 (element "tools" t.2)

def cacheControlFromWire (v : Option CacheControl) (param : String) :
    Decoded (Option CacheControl) := do
  validateCacheControl v param
  pure v

def breakpointFromWire (v : Option CacheBreakpoint) (param : String) : Decoded Bool :=
  match v with
  | none => .ok false
  | some v => do
    require (v.mode == "explicit") (unsupported (param ++ ".mode"))
    pure true

/-! ### Content -/

/-- The type and the bytes of a `data:` text. -/
def dataURL (s : String) : String × Bytes :=
  match s.toList with
  | 'd' :: 'a' :: 't' :: 'a' :: ':' :: rest => match Bytes.cut ',' rest with
    | some (head, payload) =>
      if head.isEmpty then ("", [])
      else (String.ofList ((Bytes.cut ';' head).elim head Prod.fst),
        (t.base64 (String.ofList payload)).getD [])
    | none => ("", [])
  | _ => ("", [])

def blockFromPart (p : ContentPart) : Decoded Block := do
  let cache ← cacheControlFromWire p.cacheControl "content.cache_control"
  let breakpoint ← breakpointFromWire p.promptCacheBreakpoint "content.prompt_cache_breakpoint"
  match p.type with
  | "text" => do
    require (p.imageURL.isNone && p.file.isNone) (unsupported "content.text")
    pure { kind := .text, text := p.text, cacheControl := cache, cacheBreakpoint := breakpoint }
  | "image_url" => match p.imageURL with
    | none => .error (unsupported "content.image_url")
    | some image => do
      require (image.url != "" && p.file.isNone) (unsupported "content.image_url")
      require (image.detail == "" || image.detail == "auto")
        (unsupported "content.image_url.detail")
      require (!breakpoint) (unsupported "content.prompt_cache_breakpoint")
      pure { kind := .image, url := image.url, cacheControl := cache }
  | "file" => match p.file with
    | none => .error (unsupported "content.file")
    | some file => do
      require (file.fileID == "" && file.fileData != "") (unsupported "content.file.file_id")
      require (!breakpoint) (unsupported "content.prompt_cache_breakpoint")
      pure { kind := .other "document", url := file.fileData, name := file.filename
             mimeType := (dataURL t file.fileData).1, data := (dataURL t file.fileData).2
             cacheControl := cache }
  | _ => .error (unsupported "content.type")

/-- `blocksFromContent`: a text, or a list of parts. -/
def blocksFromContent (spelling : Spelling) (content : Option Json) (allowNull : Bool) :
    Decoded (List Block) :=
  match content with
  | none | some .null => if allowNull then .ok [] else .error (unsupported "content")
  | some (.str s) => .ok [{ kind := .text, text := s }]
  | some v => do
    let parts ← strict (structs spelling true {} (contentPartFields spelling)) {} v
    parts.items.mapM (blockFromPart t)

/-! ### Messages -/

/-- The block of a tool call. -/
def callBlock (tc : WireToolCall) : Decoded Block := do
  require (tc.type == "function" && tc.id != "" && tc.function.name != "")
    (unsupported "messages.tool_calls")
  arguments t tc.function.arguments
  pure { kind := .toolCall, id := tc.id, name := tc.function.name
         arguments := tc.function.arguments }

/-- A text as the result of a tool. -/
def resultBlock (id : String) (b : Block) : Decoded Block := do
  require (b.kind == .text) (unsupported "messages.content")
  pure { b with kind := .toolResult, id := id }

def messageFromWire (spelling : Spelling) (m : WireMessage) : Decoded Message := do
  require (m.role != "") (unsupported "messages.role")
  require (m.name == "") (unsupported "messages.name")
  match m.role with
  | "system" => do
    let b ← blocksFromContent t spelling m.content false
    pure ⟨.system, b⟩
  | "user" => do
    let b ← blocksFromContent t spelling m.content false
    require (m.toolCalls.items.isEmpty && m.toolCallID == "") (unsupported "messages.tool_calls")
    pure ⟨.user, b⟩
  | "assistant" => do
    let b ← blocksFromContent t spelling m.content true
    let calls ← m.toolCalls.items.mapM (callBlock t)
    require (!(b ++ calls).isEmpty) (unsupported "messages.content")
    pure ⟨.assistant, b ++ calls⟩
  | "tool" => do
    require (m.toolCallID != "" && m.toolCalls.items.isEmpty) (unsupported "messages.tool_call_id")
    let b ← blocksFromContent t spelling m.content false
    let results ← b.mapM (resultBlock m.toolCallID)
    pure ⟨.tool, results⟩
  | _ => .error (unsupported "messages.role")

/-- One message: the text of the system comes before everything else. -/
def addMessage (spelling : Spelling) (conv : Conversation) (m : WireMessage) :
    Decoded Conversation := do
  let cm ← messageFromWire t spelling m
  if cm.role = .system then do
    require conv.messages.isEmpty (unsupported "messages.system_order")
    pure { conv with system := conv.system ++ cm.content }
  else pure { conv with messages := conv.messages ++ [cm] }

/-! ### The rest of a request -/

def promptCacheFromWire (q : WireRequest) : Decoded (Option PromptCache) :=
  if q.promptCacheKey = "" ∧ q.promptCacheRetention = "" ∧ q.promptCacheOptions.isNone ∧
      q.sessionID = "" then .ok none
  else do
    let c : PromptCache :=
      { protocol := if q.sessionID = "" then "openai-chat" else "openrouter"
        key := q.promptCacheKey, retention := q.promptCacheRetention, sessionID := q.sessionID
        mode := q.promptCacheOptions.elim "" (·.mode), ttl := q.promptCacheOptions.elim "" (·.ttl) }
    validatePromptCache (some c)
    pure (some c)

/-- `markDecodedCache`: directives on blocks and tools decide the dialect. -/
def markDecodedCache (conv : Conversation) : Conversation :=
  let hasControl := conv.blocks.any (·.cacheControl.isSome) || conv.tools.any (·.cacheControl.isSome)
  let hasBreakpoint := conv.blocks.any (·.cacheBreakpoint)
  if !hasControl && !hasBreakpoint then conv
  else
    let cache := conv.cache.getD {}
    { conv with cache := some (
        if hasControl then { cache with protocol := "openrouter" }
        else if cache.protocol = "" then { cache with protocol := "openai-chat" }
        else cache) }

/-- A tool of `DecodeRequest`. -/
def toolFromWire (t : WireTool) : Decoded Request.Tool := do
  require (t.type == "function" && t.function.name != "") (unsupported "tools")
  object t.function.parameters
  require (t.function.strict != some false) (unsupported "tools.function.strict")
  let cache ← cacheControlFromWire t.cacheControl "tools.cache_control"
  pure { name := t.function.name, description := t.function.description
         schema := t.function.parameters, cacheControl := cache }

/-- `stop`: one text or several. -/
def stopFromWire : Option Json → Decoded (List String)
  | none => .ok []
  | some (.str s) => .ok [s]
  | some (.arr items) => items.mapM fun
    | .str s => .ok s
    | _ => .error (unsupported "stop")
  | some _ => .error (unsupported "stop")

/-- `validateResponseFormat` of a format with a schema. -/
def validateResponseFormat (spelling : Spelling) (m : List (String × Json)) : Decoded WireSchema := do
  require (m.length == 2 && (memberOf "json_schema" m).isSome)
    (unsupported "response_format.json_schema")
  let s ← strictRaw (struct spelling true schemaFields) {} (memberOf "json_schema" m)
  require (s.name != "" && s.schema.isSome) (unsupported "response_format.json_schema")
  object s.schema
  pure s

/-- `decodeStructured`: the mode of an answer, and its schema. -/
def decodeStructured (spelling : Spelling) (b : Json) : Decoded (String × WireSchema) := do
  let m ← strict map none b
  let type ← strictRaw string "" (memberOf "type" (m.getD []))
  match type with
  | "text" | "json_object" => do
    require ((m.getD []).length == 1) (unsupported "response_format")
    pure (type, {})
  | "json_schema" => do
    let s ← validateResponseFormat spelling (m.getD [])
    pure (type, s)
  | _ => .error (unsupported "response_format.type")

/-- The conversation of a request, without its cache marks. -/
def conversationFromWire (spelling : Spelling) (q : WireRequest) : Decoded Conversation := do
  require (q.model != "" && !q.messages.items.isEmpty) (unsupported "model/messages")
  require (q.maxTokens.isNone || q.maxCompletionTokens.isNone) (unsupported "max_tokens")
  let max := q.maxTokens.or q.maxCompletionTokens
  require (max.all (0 ≤ ·)) (unsupported "max_tokens")
  let cache ← promptCacheFromWire q
  require (q.streamOptions.isNone || q.stream) (unsupported "stream_options")
  let conv : Conversation :=
    { model := q.model, maxOutputTokens := max, stream := q.stream, cache := cache
      streamIncludeUsage := q.streamOptions.bind (·.includeUsage) }
  let conv ← q.messages.items.foldlM (addMessage t spelling) conv
  let tools ← q.tools.items.mapM toolFromWire
  let stop ← stopFromWire q.stop
  let conv := { conv with tools := tools, stop := stop }
  match q.responseFormat with
  | none => pure conv
  | some b => do
    let (mode, s) ← decodeStructured spelling b
    pure { conv with
      structuredOutputMode := mode, structuredOutputName := s.name
      structuredOutputDescription := s.description, structuredOutputStrict := s.strict
      structuredOutput := s.schema }

def maxBody : ℕ := 2 ^ 24

/-- The wire struct of a body. -/
def wire (spelling : Spelling) (size : ℕ) (body : Json) : Decoded WireRequest := do
  require (decide (size ≤ maxBody)) (unsupported "body.size")
  strict (struct spelling true (requestFields spelling t.fits)) {} body

def decodeRequest (spelling : Spelling) (size : ℕ) (body : Json) : Decoded Conversation := do
  let q ← wire t spelling size body
  let conv ← conversationFromWire t spelling q
  validateConversationCache (markDecodedCache conv)
  pure (markDecodedCache conv)

end Hoorific.Protocol.ChatRequest
