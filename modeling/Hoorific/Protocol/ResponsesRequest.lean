/-
The request codec of the Responses protocol.  Objects are decoded into maps
of their members, so names are spelled exactly; each object has a list of the
members it may have.  A text is `input_text` or `output_text`, and either can
carry a breakpoint of the cache.
-/
import Hoorific.Protocol.Requests
import Hoorific.Protocol.Responses

namespace Hoorific.Protocol.ResponsesRequest

open Check Request Unmarshal
open Responses (unsupported)

abbrev Members := List (String × Json)

/-! ### JSON -/

/-- The error of `strict` for a fault. -/
def jsonFault : Fault → StreamFailure
  | .nesting => unsupported "json.depth"
  | .duplicateKey => unsupported "json.duplicate_key"
  | .unknownField _ | .mismatch => unsupported "json"

/-- `strict`: scan the tokens of a value, then decode it. -/
def strict {α : Type} (into : Into α) (zero : α) (v : Json) : Decoded α :=
  ((scanTokens 256 v).bind fun _ => into zero v).mapError jsonFault

/-- `fields`: an object has no other members. -/
def fields (o : Members) (allowed : List String) : Decoded Unit :=
  forM o fun m => require (allowed.contains m.1) (unsupported m.1)

/-- `get`: a member that is not `null`, if it is there. -/
def get? {α : Type} (into : Into α) (zero : α) (o : Members) (k : String) : Decoded (Option α) :=
  match memberOf k o with
  | none => .ok none
  | some .null => .error (unsupported k)
  | some v => ((into zero v).map some).mapError fun _ => unsupported k

/-- `get` of a member that must be there. -/
def get {α : Type} (into : Into α) (zero : α) (o : Members) (k : String) : Decoded α := do
  match ← get? into zero o k with
  | none => .error (unsupported k)
  | some a => pure a

/-- A text whose errors are ignored. -/
def textOr (o : Members) (k : String) : String :=
  match get? string "" o k with
  | .ok (some s) => s
  | _ => ""

def typ (o : Members) : String := textOr o "type"

def obj (b : Json) : Decoded Members := do
  match ← strict map none b with
  | none => .error (unsupported "object")
  | some o => pure o

/-! ### Content -/

/-- `contentMetadata`: whether a part is a breakpoint. -/
def contentMetadata (v : Members) : Decoded Bool := do
  require (memberOf "cache_control" v).isNone (unsupported "input.cache_control")
  match memberOf "prompt_cache_breakpoint" v with
  | none => pure false
  | some raw => do
    let b ← obj raw
    fields b ["mode"]
    let mode ← get string "" b "mode"
    require (mode == "explicit") (unsupported "input.prompt_cache_breakpoint.mode")
    pure true

/-- What stands before and after the first occurrence of a text. -/
def cutText (sub : List Char) : List Char → Option (List Char × List Char)
  | [] => if sub.isEmpty then some ([], []) else none
  | c :: rest =>
    if sub.isPrefixOf (c :: rest) then some ([], (c :: rest).drop sub.length)
    else (cutText sub rest).map fun p => (c :: p.1, p.2)

variable (t : Texts)

/-- The type and the bytes of a `data:` text with base64. -/
def dataURL (s : String) : Option (String × Bytes) :=
  match s.toList with
  | 'd' :: 'a' :: 't' :: 'a' :: ':' :: rest => match cutText ";base64,".toList rest with
    | some (head, payload) =>
      if head.isEmpty then none
      else (t.base64 (String.ofList payload)).map fun data => (String.ofList head, data)
    | none => none
  | _ => none

/-- A file: its address, or its bytes. -/
def fileBlock (v : Members) : Decoded Block :=
  if textOr v "file_url" ≠ "" then pure { kind := .other "document", url := textOr v "file_url" }
  else match dataURL t (textOr v "file_data") with
    | some (mime, data) =>
      pure { kind := .other "document", name := textOr v "filename", mimeType := mime, data := data }
    | none => .error (unsupported "input_file")

def parseContent (v : Members) : Decoded Block := do
  match ← get string "" v "type" with
  | "input_text" | "output_text" => do
    fields v ["type", "text", "prompt_cache_breakpoint", "cache_control"]
    let breakpoint ← contentMetadata v
    let s ← get string "" v "text"
    pure { kind := .text, text := s, cacheBreakpoint := breakpoint }
  | "input_image" => do
    fields v ["type", "image_url", "prompt_cache_breakpoint", "cache_control"]
    let breakpoint ← contentMetadata v
    require (!breakpoint) (unsupported "input.prompt_cache_breakpoint")
    let s ← get string "" v "image_url"
    pure { kind := .image, url := s }
  | "input_file" => do
    fields v ["type", "file_url", "file_data", "filename", "prompt_cache_breakpoint",
      "cache_control"]
    let breakpoint ← contentMetadata v
    require (!breakpoint) (unsupported "input.prompt_cache_breakpoint")
    fileBlock t v
  | _ => .error (unsupported "input.content.type")

/-! ### Input -/

/-- The role of a message. -/
def roleOf : String → Decoded Request.Role
  | "user" => .ok .user
  | "assistant" => .ok .assistant
  | "system" => .ok .system
  | _ => .error (unsupported "input.role")

/-- One item of the input. -/
def parseItem (x : Json) : Decoded Message := do
  let o ← obj x
  match typ o with
  | "function_call" => do
    fields o ["type", "id", "call_id", "name", "arguments", "status"]
    let id ← get string "" o "call_id"
    let name ← get string "" o "name"
    let args ← get string "" o "arguments"
    pure ⟨.assistant, [{ kind := .toolCall, id := id, name := name, arguments := args }]⟩
  | "function_call_output" => do
    fields o ["type", "id", "call_id", "output"]
    let id ← get string "" o "call_id"
    let text ← get string "" o "output"
    pure ⟨.tool, [{ kind := .toolResult, id := id, text := text }]⟩
  | type => do
    fields o ["role", "content", "type"]
    require (type == "" || type == "message") (unsupported "input.type")
    let name ← get string "" o "role"
    let role ← roleOf name
    let cs ← get raws [] o "content"
    let content ← cs.mapM fun cb => do
      let co ← obj cb
      parseContent t co
    pure ⟨role, content⟩

/-- `parseInput`: a list of items, or the text of a user. -/
def parseInput (b : Json) : Decoded (List Message) :=
  match strict raws [] b with
  | .ok items => items.mapM (parseItem t)
  | .error _ => match b with
    | .str s => .ok [⟨.user, [{ kind := .text, text := s }]⟩]
    | _ => .error (unsupported "input")

/-! ### The rest of a request -/

def validatePromptCache (c : Option PromptCache) : Decoded Unit :=
  match c with
  | none => .ok ()
  | some c => do
    require (["", "openai-chat", "openai-responses"].contains c.protocol)
      (unsupported "cache.protocol")
    require (c.key == "" || validCacheString c.key 256) (unsupported "prompt_cache_key")
    require (["", "in_memory", "24h"].contains c.retention) (unsupported "prompt_cache_retention")
    require (["", "implicit", "explicit"].contains c.mode) (unsupported "prompt_cache_options.mode")
    require (validCacheTTL c.ttl) (unsupported "prompt_cache_options.ttl")
    require (c.sessionID == "") (unsupported "session_id")
    require c.control.isNone (unsupported "cache.control")
    require (c.cachedContent == "") (unsupported "cache.cached_content")

/-- The check of a block in `validateResponsesCache`. -/
def checkBlock (b : Block) (param : String) : Decoded Unit := do
  require b.cacheControl.isNone (unsupported (param ++ ".cache_control"))
  require (!b.cacheBreakpoint || b.kind == .text)
    (unsupported (param ++ ".prompt_cache_breakpoint"))

/-- `name[i]`. -/
def element (name : String) (i : ℕ) : String := name ++ "[" ++ toString i ++ "]"

def validateResponsesCache (q : Conversation) : Decoded Unit := do
  validatePromptCache q.cache
  forM q.system.zipIdx fun b => checkBlock b.1 (element "system" b.2)
  forM q.messages.zipIdx fun m => forM m.1.content.zipIdx fun b =>
    checkBlock b.1 (element (element "messages" m.2 ++ ".content") b.2)
  forM q.tools.zipIdx fun t => require (t.1.cacheControl.isNone && !t.1.cacheBreakpoint)
    (unsupported (element "tools" t.2 ++ ".cache_control"))

/-- A text that must be one of a list if it is there. -/
def oneOf (allowed : String → Bool) (o : Members) (k param : String) : Decoded String := do
  match ← get? string "" o k with
  | none => pure ""
  | some s => do
    require (allowed s) (unsupported param)
    pure s

/-- `prompt_cache_options`: the mode and the time to live. -/
def optionsFromObject (raw : Option Json) : Decoded (String × String) :=
  match raw with
  | none => .ok ("", "")
  | some (.obj options) => do
    fields options ["mode", "ttl"]
    let mode ← oneOf ["implicit", "explicit"].contains options "mode" "prompt_cache_options.mode"
    let ttl ← oneOf (fun s => validCacheTTL s && s != "") options "ttl" "prompt_cache_options.ttl"
    pure (mode, ttl)
  | some .null => .error (unsupported "object")
  | some _ => .error (unsupported "prompt_cache_options")

def promptCacheFromObject (m : Members) : Decoded (Option PromptCache) :=
  if (memberOf "prompt_cache_key" m).isNone && (memberOf "prompt_cache_retention" m).isNone &&
      (memberOf "prompt_cache_options" m).isNone then .ok none
  else do
    let key ← oneOf (validCacheString · 256) m "prompt_cache_key" "prompt_cache_key"
    let retention ← oneOf ["in_memory", "24h"].contains m "prompt_cache_retention"
      "prompt_cache_retention"
    let options ← optionsFromObject (memberOf "prompt_cache_options" m)
    let c : PromptCache :=
      { protocol := "openai-responses", key := key, retention := retention
        mode := options.1, ttl := options.2 }
    validatePromptCache (some c)
    pure (some c)

/-- `markDecodedCache`: a breakpoint marks the conversation. -/
def markDecodedCache (q : Conversation) : Conversation :=
  if q.cache.isNone && q.blocks.any (·.cacheBreakpoint) then
    { q with cache := some { protocol := "openai-responses" } }
  else q

/-- A tool of `DecodeRequest`; the errors of its texts are ignored. -/
def toolFromObject (x : Json) : Decoded Request.Tool :=
  match x with
  | .obj x => do
    fields x ["type", "name", "description", "parameters"]
    require (typ x == "function") (unsupported "tools.type")
    let schema ← get raw none x "parameters"
    pure { name := textOr x "name", description := textOr x "description", schema := schema }
  | .null => .error (unsupported "object")
  | _ => .error (unsupported "tools")

/-- The tools of a request: all of them are objects, or the list is refused. -/
def toolsFromObject (b : Option Json) : Decoded (List Request.Tool) :=
  match b with
  | none | some .null => .ok []
  | some (.arr ts) => do
    require (ts.all fun x => (map none x).isOk) (unsupported "tools")
    ts.mapM toolFromObject
  | some _ => .error (unsupported "tools")

/-- The format of an answer. -/
structure Format where
  mode : String := ""
  name : String := ""
  description : String := ""
  strict : Option Bool := none
  schema : Option Json := none

/-- The schema of a format: an object whose numbers can be held. -/
def schemaFromObject (f : Members) : Decoded (Option Json) := do
  let schema ← get raw none f "schema"
  match schema with
  | some (.obj ms) => do
    require (t.fits (.obj ms)) (unsupported "json")
    pure schema
  | _ => .error (unsupported "json")

/-- `text`: the format of the answer. -/
def formatFromObject (b : Option Json) : Decoded Format :=
  match b with
  | none => .ok {}
  | some b => do
    let tx ← obj b
    fields tx ["format"]
    match memberOf "format" tx with
    | none => .error (unsupported "text.format")
    | some fb => do
      let f ← obj fb
      fields f ["type", "name", "description", "schema", "strict"]
      require (typ f == "json_schema" || typ f == "json_object") (unsupported "text.format.type")
      let strictMode ← get? bool false f "strict"
      let schema ← if typ f = "json_schema" then schemaFromObject t f else pure none
      pure ⟨typ f, textOr f "name", textOr f "description", strictMode, schema⟩

/-- A boolean member; `null` is false. -/
def boolMember (m : Members) (k : String) : Decoded Bool :=
  match memberOf k m with
  | none => .ok false
  | some v => (bool false v).mapError fun _ => unsupported k

/-- `max_output_tokens`. -/
def maxFromObject (m : Members) : Decoded (Option Int) := do
  let max ← get? Unmarshal.int64 0 m "max_output_tokens"
  require (max.all (0 ≤ ·)) (unsupported "max_output_tokens")
  pure max

/-- The members of a request. -/
def requestMembers : List String :=
  ["model", "store", "input", "max_output_tokens", "stream", "tools", "text", "prompt_cache_key",
   "prompt_cache_retention", "prompt_cache_options"]

/-- The conversation of a request, without its cache marks. -/
def conversationFromObject (m : Members) : Decoded Conversation := do
  fields m requestMembers
  let model ← get string "" m "model"
  let cache ← promptCacheFromObject m
  require (memberOf "store" m).isSome (unsupported "store")
  let store ← boolMember m "store"
  require (!store) (unsupported "store")
  match memberOf "input" m with
  | none => .error (unsupported "input")
  | some input => do
    let msgs ← parseInput t input
    let max ← maxFromObject m
    let stream ← boolMember m "stream"
    let tools ← toolsFromObject (memberOf "tools" m)
    let f ← formatFromObject t (memberOf "text" m)
    pure
      { model := model, cache := cache
        system := (msgs.filter (·.role == .system)).flatMap Message.content
        messages := msgs.filter (·.role != .system)
        maxOutputTokens := max, stream := stream, tools := tools
        structuredOutputMode := f.mode, structuredOutputName := f.name
        structuredOutputDescription := f.description, structuredOutputStrict := f.strict
        structuredOutput := f.schema }

/-- The limit of `load`. -/
def maxBody : ℕ := 2 ^ 25

/-- The members of a body. -/
def wire (size : ℕ) (body : Json) : Decoded Members := do
  require (decide (size ≤ maxBody)) (unsupported "json.size")
  match ← strict map none body with
  | none => .error (unsupported "object")
  | some m => pure m

def decodeRequest (size : ℕ) (body : Json) : Decoded Conversation := do
  let m ← wire size body
  let q ← conversationFromObject t m
  validateResponsesCache (markDecodedCache q)
  pure (markDecodedCache q)

end Hoorific.Protocol.ResponsesRequest
