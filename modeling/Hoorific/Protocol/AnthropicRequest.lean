/-
The request codec of the Messages protocol.  A block is decoded twice: its
type is read from the map of its members, and then a struct that has the
fields of that type and no others.  The content of a tool result is a text
or a list of blocks, which must be texts; a directive on one of those is
checked and then dropped with the block.
-/
import Hoorific.Protocol.Anthropic
import Hoorific.Protocol.Requests

namespace Hoorific.Protocol.AnthropicRequest

open Check Request Unmarshal
open Anthropic (unsupported)

/-! ### The wire -/

structure OutputFormatWire where
  type : String := ""
  schema : Option Json := none
  name : String := ""
  description : String := ""
  strict : Option Bool := none

structure OutputConfigWire where
  format : OutputFormatWire := {}

structure MessageWire where
  role : String := ""
  content : Option Json := none

structure ToolWire where
  name : String := ""
  description : String := ""
  inputSchema : Option Json := none
  cacheControl : Option CacheControl := none

structure RequestWire where
  model : String := ""
  maxTokens : Option Int := none
  messages : Slice MessageWire := {}
  system : Option Json := none
  tools : Slice ToolWire := {}
  stop : Slice String := {}
  stream : Bool := false
  cacheControl : Option CacheControl := none
  outputConfig : Option OutputConfigWire := none

structure SourceWire where
  type : String := ""
  mediaType : String := ""
  data : String := ""
  url : String := ""
deriving DecidableEq

/-- The fields of a block, of which each type has its own. -/
structure BlockWire where
  type : String := ""
  text : Option String := none
  thinking : Option String := none
  source : SourceWire := {}
  id : String := ""
  name : String := ""
  input : Option Json := none
  toolUseID : String := ""
  content : Option Json := none
  cacheControl : Option CacheControl := none

section Fields

variable (spelling : Spelling)

def cacheControlFields : List (StructField CacheControl) :=
  [.of "type" (·.type) ({ · with type := · }) string,
   .of "ttl" (·.ttl) ({ · with ttl := · }) string]

def outputFormatFields : List (StructField OutputFormatWire) :=
  [.of "type" (·.type) ({ · with type := · }) string,
   .of "schema" (·.schema) ({ · with schema := · }) raw,
   .of "name" (·.name) ({ · with name := · }) string,
   .of "description" (·.description) ({ · with description := · }) string,
   .of "strict" (·.strict) ({ · with strict := · }) (pointer false bool)]

def outputConfigFields : List (StructField OutputConfigWire) :=
  [.of "format" (·.format) ({ · with format := · })
    (struct spelling true outputFormatFields)]

def messageFields : List (StructField MessageWire) :=
  [.of "role" (·.role) ({ · with role := · }) string,
   .of "content" (·.content) ({ · with content := · }) raw]

def toolFields : List (StructField ToolWire) :=
  [.of "name" (·.name) ({ · with name := · }) string,
   .of "description" (·.description) ({ · with description := · }) string,
   .of "input_schema" (·.inputSchema) ({ · with inputSchema := · }) raw,
   .of "cache_control" (·.cacheControl) ({ · with cacheControl := · })
    (structPointer spelling true {} cacheControlFields)]

def requestFields : List (StructField RequestWire) :=
  [.of "model" (·.model) ({ · with model := · }) string,
   .of "max_tokens" (·.maxTokens) ({ · with maxTokens := · }) (pointer 0 Unmarshal.int64),
   .of "messages" (·.messages) ({ · with messages := · })
    (structs spelling true {} messageFields),
   .of "system" (·.system) ({ · with system := · }) raw,
   .of "tools" (·.tools) ({ · with tools := · })
    (structs spelling true {} (toolFields spelling)),
   .of "stop_sequences" (·.stop) ({ · with stop := · }) (slice "" string),
   .of "stream" (·.stream) ({ · with stream := · }) bool,
   .of "cache_control" (·.cacheControl) ({ · with cacheControl := · })
    (structPointer spelling true {} cacheControlFields),
   .of "output_config" (·.outputConfig) ({ · with outputConfig := · })
    (structPointer spelling true {} (outputConfigFields spelling))]

def sourceFields : List (StructField SourceWire) :=
  [.of "type" (·.type) ({ · with type := · }) string,
   .of "media_type" (·.mediaType) ({ · with mediaType := · }) string,
   .of "data" (·.data) ({ · with data := · }) string,
   .of "url" (·.url) ({ · with url := · }) string]

/-- The fields that every block has. -/
def commonFields : List (StructField BlockWire) :=
  [.of "type" (·.type) ({ · with type := · }) string,
   .of "cache_control" (·.cacheControl) ({ · with cacheControl := · })
    (structPointer spelling true {} cacheControlFields)]

def textFields : List (StructField BlockWire) :=
  commonFields spelling ++
    [.of "text" (·.text) ({ · with text := · }) (pointer "" string)]

def thinkingFields : List (StructField BlockWire) :=
  commonFields spelling ++
    [.of "thinking" (·.thinking) ({ · with thinking := · }) (pointer "" string)]

def mediaFields : List (StructField BlockWire) :=
  commonFields spelling ++
    [.of "source" (·.source) ({ · with source := · }) (struct spelling true sourceFields)]

def toolUseFields : List (StructField BlockWire) :=
  commonFields spelling ++
    [.of "id" (·.id) ({ · with id := · }) string,
     .of "name" (·.name) ({ · with name := · }) string,
     .of "input" (·.input) ({ · with input := · }) raw]

def toolResultFields : List (StructField BlockWire) :=
  commonFields spelling ++
    [.of "tool_use_id" (·.toolUseID) ({ · with toolUseID := · }) string,
     .of "content" (·.content) ({ · with content := · }) raw]

end Fields

/-! ### JSON -/

/-- The error of `strict` for a fault. -/
def jsonFault : Fault → StreamFailure
  | .nesting => unsupported "json.depth"
  | .duplicateKey => unsupported "json.duplicate_key"
  | .unknownField _ | .mismatch => unsupported "json.fields"

/-- `strict`: scan the tokens of a value, then decode it. -/
def strict {α : Type} (into : Into α) (zero : α) (v : Json) : Decoded α :=
  ((scanTokens 256 v).bind fun _ => into zero v).mapError jsonFault

def object (v : Json) : Decoded Unit := do
  let m ← strict map none v
  require m.isSome (unsupported "json.object")

def required (s path : String) : Decoded Unit := require (s != "") (unsupported path)

def field (base : String) (i : ℕ) : String := base ++ "[" ++ toString i ++ "]"

/-! ### Blocks -/

def cacheControlFromWire (v : Option CacheControl) (path : String) : Decoded (Option CacheControl) :=
  match v with
  | none => .ok none
  | some v => do
    require (v.type == "ephemeral" && (v.ttl == "" || v.ttl == "5m" || v.ttl == "1h"))
      (unsupported path)
    pure (some v)

def blockType (raw : Json) : Decoded String := do
  let m ← strict map none raw
  match memberOf "type" (m.getD []) with
  | none => .error (unsupported "type")
  | some v => match strict string "" v with
    | .ok t => .ok t
    | .error _ => .error (unsupported "type")

variable (t : Texts)

/-- An image or a document: its address, or its bytes. -/
def mediaBlock (kind : BlockKind) (x : BlockWire) (path : String) : Decoded Block := do
  let cc ← cacheControlFromWire x.cacheControl (path ++ ".cache_control")
  if x.source.type = "url" ∧ x.source.url ≠ "" then
    pure { kind := kind, url := x.source.url, cacheControl := cc }
  else if x.source.type = "base64" ∧ x.source.data ≠ "" ∧ x.source.mediaType ≠ "" then
    match t.base64 x.source.data with
    | none => .error (unsupported (path ++ ".source.data"))
    | some data =>
      pure { kind := kind, mimeType := x.source.mediaType, data := data, cacheControl := cc }
  else .error (unsupported (path ++ ".source"))

/-- A call of a tool. -/
def toolUseBlock (x : BlockWire) (path : String) : Decoded Block :=
  match x.input with
  | none => .error (unsupported path)
  | some input => do
    require (x.id != "" && x.name != "") (unsupported path)
    object input
    let cc ← cacheControlFromWire x.cacheControl (path ++ ".cache_control")
    pure { kind := .toolCall, id := x.id, name := x.name, arguments := t.text input
           cacheControl := cc }

mutual
/-- `blockFromRaw`.  The fuel bounds how deep blocks are nested: the scan of the
body has refused what is deeper. -/
def blockFromRaw (t : Texts) (spelling : Spelling) : ℕ → Json → String → Decoded Block
  | 0, _, _ => .error (unsupported "json.depth")
  | fuel + 1, raw, path => do
    let type ← blockType raw
    match type with
    | "" => .error (unsupported (path ++ ".type"))
    | "text" => do
      let x ← strict (struct spelling true (textFields spelling)) {} raw
      match x.text with
      | none => .error (unsupported (path ++ ".text"))
      | some text => do
        let cc ← cacheControlFromWire x.cacheControl (path ++ ".cache_control")
        pure { kind := .text, text := text, cacheControl := cc }
    | "thinking" => do
      let x ← strict (struct spelling true (thinkingFields spelling)) {} raw
      match x.thinking with
      | none => .error (unsupported (path ++ ".thinking"))
      | some text => do
        let cc ← cacheControlFromWire x.cacheControl (path ++ ".cache_control")
        pure { kind := .reasoning, text := text, cacheControl := cc }
    | "image" => do
      let x ← strict (struct spelling true (mediaFields spelling)) {} raw
      mediaBlock t .image x path
    | "document" => do
      let x ← strict (struct spelling true (mediaFields spelling)) {} raw
      mediaBlock t (.other "document") x path
    | "tool_use" => do
      let x ← strict (struct spelling true (toolUseFields spelling)) {} raw
      toolUseBlock t x path
    | "tool_result" => do
      let x ← strict (struct spelling true (toolResultFields spelling)) {} raw
      require (x.toolUseID != "") (unsupported path)
      let text ← toolResultText t spelling fuel x.content (path ++ ".content")
      let cc ← cacheControlFromWire x.cacheControl (path ++ ".cache_control")
      pure { kind := .toolResult, id := x.toolUseID, text := text, cacheControl := cc }
    | _ => .error (unsupported (path ++ ".type"))

/-- `toolResultText`: a text, or the texts of a list of blocks. -/
def toolResultText (t : Texts) (spelling : Spelling) : ℕ → Option Json → String → Decoded String
  | 0, _, _ => .error (unsupported "json.depth")
  | _ + 1, none, _ => .ok ""
  | fuel + 1, some raw, path => match strict string "" raw with
    | .ok s => .ok s
    | .error _ => do
      let bs ← strict raws [] raw
      let texts ← bs.zipIdx.mapM fun b => do
        let x ← blockFromRaw t spelling fuel b.1 (field path b.2)
        require (x.kind == .text) (unsupported (field path b.2))
        pure x.text
      pure (texts.foldl (· ++ ·) "")
end

/-- More than the blocks a body can nest. -/
def nesting : ℕ := 514

/-- `blocksFromJSON`: a text, or a list of blocks. -/
def blocksFromJSON (spelling : Spelling) (raw : Option Json) (path : String) :
    Decoded (List Block) :=
  match raw with
  | none => .error (unsupported "json")
  | some raw => match strict string "" raw with
    | .ok s => .ok [{ kind := .text, text := s }]
    | .error _ => do
      let blocks ← strict raws [] raw
      blocks.zipIdx.mapM fun b => blockFromRaw t spelling nesting b.1 (field path b.2)

/-! ### Requests -/

/-- A message; results of tools have a role of their own. -/
def messageFromWire (spelling : Spelling) (m : MessageWire) (i : ℕ) : Decoded Message := do
  require (m.role == "user" || m.role == "assistant") (unsupported (field "messages.role" i))
  let b ← blocksFromJSON t spelling m.content (field "messages" i)
  let role : Request.Role :=
    if m.role = "assistant" then .assistant
    else if !b.isEmpty && b.all (·.kind == .toolResult) then .tool else .user
  pure ⟨role, b⟩

def toolFromWire (t : ToolWire) (i : ℕ) : Decoded Request.Tool := do
  required t.name (field "tools.name" i)
  require (t.inputSchema.any fun v => (object v).isOk) (unsupported (field "tools.input_schema" i))
  let cc ← cacheControlFromWire t.cacheControl (field "tools" i ++ ".cache_control")
  pure { name := t.name, description := t.description, schema := t.inputSchema, cacheControl := cc }

/-- The cache of a request: a directive of its own, or the mark that a block or a
tool has one. -/
def cacheFromWire (control : Option CacheControl) (c : Conversation) : Option PromptCache :=
  if control.isSome || c.blocks.any (·.cacheControl.isSome) || c.tools.any (·.cacheControl.isSome) then
    some { protocol := "anthropic-messages", control := control }
  else none

/-- The blocks of the system text, if there is one. -/
def systemFromWire (spelling : Spelling) : Option Json → Decoded (List Block)
  | none => .ok []
  | some raw => blocksFromJSON t spelling (some raw) "system"

def conversationFromWire (spelling : Spelling) (a : RequestWire) : Decoded Conversation := do
  required a.model "model"
  require (a.maxTokens.any (0 < ·)) (unsupported "max_tokens")
  require (!a.messages.items.isEmpty) (unsupported "messages")
  let cc ← cacheControlFromWire a.cacheControl "cache_control"
  let system ← systemFromWire t spelling a.system
  let messages ← a.messages.items.zipIdx.mapM fun m => messageFromWire t spelling m.1 m.2
  let tools ← a.tools.items.zipIdx.mapM fun x => toolFromWire x.1 x.2
  let c : Conversation :=
    { model := a.model, maxOutputTokens := a.maxTokens, stream := a.stream, stop := a.stop.items
      system := system, messages := messages, tools := tools }
  let c := { c with cache := cacheFromWire cc c }
  match a.outputConfig with
  | none => pure c
  | some ⟨f⟩ => do
    require (f.type == "json_schema" && f.schema.any fun v => (object v).isOk)
      (unsupported "output_config.format")
    pure { c with
      structuredOutput := f.schema, structuredOutputName := f.name
      structuredOutputDescription := f.description, structuredOutputMode := "json_schema"
      structuredOutputStrict := f.strict }

/-- The limit of `readJSON`. -/
def maxBody : ℕ := 2 ^ 25

/-- The wire struct of a body. -/
def wire (spelling : Spelling) (size : ℕ) (body : Json) : Decoded RequestWire := do
  require (decide (size ≤ maxBody)) (unsupported "body.size")
  strict (struct spelling true (requestFields spelling)) {} body

def decodeRequest (spelling : Spelling) (size : ℕ) (body : Json) : Decoded Conversation := do
  let a ← wire spelling size body
  conversationFromWire t spelling a

end Hoorific.Protocol.AnthropicRequest
