/-
The request codec of the Converse protocol.  A block has one member that
says what it is.  A cache point is a block of its own: in a conversation it
stays one among the blocks, and among the tools it becomes a directive of the
tool before it.  The model of a request is not in its body.
-/
import Hoorific.Protocol.Requests

namespace Hoorific.Protocol.BedrockRequest

open Check Request Unmarshal

def unsupported (field : String) : StreamFailure :=
  .gateway ⟨"unsupported_feature", 400, "unsupported Converse field", field, "gateway"⟩

def invalid (field : String) : StreamFailure :=
  .gateway ⟨"invalid_request", 400, "invalid Converse payload", field, "gateway"⟩

/-! ### The wire -/

structure CachePoint where
  type : String := ""
  ttl : String := ""
deriving DecidableEq

structure SourceWire where
  bytes : String := ""
deriving DecidableEq

structure ImageContent where
  format : String := ""
  source : SourceWire := {}
deriving DecidableEq

structure DocumentContent where
  format : String := ""
  name : String := ""
  source : SourceWire := {}
deriving DecidableEq

structure ToolUse where
  id : String := ""
  name : String := ""
  input : Option Json := none

structure ResultContent where
  text : Option String := none
  json : Option Json := none

structure ToolResult where
  id : String := ""
  content : Slice ResultContent := {}

structure BlockWire where
  text : Option String := none
  image : Option ImageContent := none
  document : Option DocumentContent := none
  toolUse : Option ToolUse := none
  toolResult : Option ToolResult := none
  cachePoint : Option CachePoint := none

structure MessageWire where
  role : String := ""
  content : Slice BlockWire := {}

structure InputSchema where
  json : Option Json := none

structure Specification where
  name : String := ""
  description : String := ""
  inputSchema : InputSchema := {}

structure ToolWire where
  spec : Specification := {}
  cachePoint : Option CachePoint := none

structure ToolConfig where
  tools : Slice ToolWire := {}

structure Inference where
  max : Option Int := none
  stop : Slice String := {}

structure RequestWire where
  system : Slice BlockWire := {}
  messages : Slice MessageWire := {}
  tools : Option ToolConfig := none
  inference : Option Inference := none

section Fields

variable (spelling : Spelling)

def cachePointFields : List (StructField CachePoint) :=
  [.of "type" (·.type) ({ · with type := · }) string,
   .of "ttl" (·.ttl) ({ · with ttl := · }) string]

def sourceFields : List (StructField SourceWire) :=
  [.of "bytes" (·.bytes) ({ · with bytes := · }) string]

def imageFields : List (StructField ImageContent) :=
  [.of "format" (·.format) ({ · with format := · }) string,
   .of "source" (·.source) ({ · with source := · }) (struct spelling true sourceFields)]

def documentFields : List (StructField DocumentContent) :=
  [.of "format" (·.format) ({ · with format := · }) string,
   .of "name" (·.name) ({ · with name := · }) string,
   .of "source" (·.source) ({ · with source := · }) (struct spelling true sourceFields)]

def toolUseFields : List (StructField ToolUse) :=
  [.of "toolUseId" (·.id) ({ · with id := · }) string,
   .of "name" (·.name) ({ · with name := · }) string,
   .of "input" (·.input) ({ · with input := · }) raw]

def resultContentFields : List (StructField ResultContent) :=
  [.of "text" (·.text) ({ · with text := · }) (pointer "" string),
   .of "json" (·.json) ({ · with json := · }) raw]

def toolResultFields : List (StructField ToolResult) :=
  [.of "toolUseId" (·.id) ({ · with id := · }) string,
   .of "content" (·.content) ({ · with content := · })
    (structs spelling true {} resultContentFields)]

def blockFields : List (StructField BlockWire) :=
  [.of "text" (·.text) ({ · with text := · }) (pointer "" string),
   .of "image" (·.image) ({ · with image := · })
    (structPointer spelling true {} (imageFields spelling)),
   .of "document" (·.document) ({ · with document := · })
    (structPointer spelling true {} (documentFields spelling)),
   .of "toolUse" (·.toolUse) ({ · with toolUse := · })
    (structPointer spelling true {} toolUseFields),
   .of "toolResult" (·.toolResult) ({ · with toolResult := · })
    (structPointer spelling true {} (toolResultFields spelling)),
   .of "cachePoint" (·.cachePoint) ({ · with cachePoint := · })
    (structPointer spelling true {} cachePointFields)]

def messageFields : List (StructField MessageWire) :=
  [.of "role" (·.role) ({ · with role := · }) string,
   .of "content" (·.content) ({ · with content := · })
    (structs spelling true {} (blockFields spelling))]

def inputSchemaFields : List (StructField InputSchema) :=
  [.of "json" (·.json) ({ · with json := · }) raw]

def specificationFields : List (StructField Specification) :=
  [.of "name" (·.name) ({ · with name := · }) string,
   .of "description" (·.description) ({ · with description := · }) string,
   .of "inputSchema" (·.inputSchema) ({ · with inputSchema := · })
    (struct spelling true inputSchemaFields)]

def toolFields : List (StructField ToolWire) :=
  [.of "toolSpec" (·.spec) ({ · with spec := · })
    (struct spelling true (specificationFields spelling)),
   .of "cachePoint" (·.cachePoint) ({ · with cachePoint := · })
    (structPointer spelling true {} cachePointFields)]

def toolConfigFields : List (StructField ToolConfig) :=
  [.of "tools" (·.tools) ({ · with tools := · })
    (structs spelling true {} (toolFields spelling))]

def inferenceFields : List (StructField Inference) :=
  [.of "maxTokens" (·.max) ({ · with max := · }) (pointer 0 Unmarshal.int64),
   .of "stopSequences" (·.stop) ({ · with stop := · }) (slice "" string)]

def requestFields : List (StructField RequestWire) :=
  [.of "system" (·.system) ({ · with system := · })
    (structs spelling true {} (blockFields spelling)),
   .of "messages" (·.messages) ({ · with messages := · })
    (structs spelling true {} (messageFields spelling)),
   .of "toolConfig" (·.tools) ({ · with tools := · })
    (structPointer spelling true {} (toolConfigFields spelling)),
   .of "inferenceConfig" (·.inference) ({ · with inference := · })
    (structPointer spelling true {} inferenceFields)]

end Fields

/-! ### JSON -/

/-- The error of `strict` for a fault. -/
def jsonFault : Fault → StreamFailure
  | .nesting | .duplicateKey | .mismatch => invalid "json"
  | .unknownField name => unsupported name

/-- `strict`: scan the tokens of a value, then decode it. -/
def strict {α : Type} (into : Into α) (zero : α) (v : Json) : Decoded α :=
  ((scanTokens 128 v).bind fun _ => into zero v).mapError jsonFault

/-- `object` of a raw member, which may be missing. -/
def object : Option Json → Decoded Unit
  | none => .error (invalid "json")
  | some v => do
    let m ← strict map none v
    require m.isSome (invalid "json_object")

/-! ### Blocks -/

def validateCachePoint (cp : CachePoint) (path : String) : Decoded Unit :=
  require (cp.type == "default" && (cp.ttl == "" || cp.ttl == "5m" || cp.ttl == "1h"))
    (invalid path)

/-- The members of a block that are there. -/
def BlockWire.count (b : BlockWire) : ℕ :=
  ([b.text.isSome, b.image.isSome, b.document.isSome, b.toolUse.isSome, b.toolResult.isSome,
    b.cachePoint.isSome].filter id).length

variable (t : Texts)

/-- The bytes of an image or a document. -/
def sourceBytes (source : SourceWire) (path : String) : Decoded Bytes :=
  match t.base64 source.bytes with
  | none => .error (invalid path)
  | some data => .ok data

/-- The text of a tool result. -/
def resultText (r : ToolResult) : Decoded String :=
  match r.content.items with
  | [c] => match c.text, c.json with
    | some text, none => .ok text
    | _, _ => .error (unsupported "toolResult.content.json")
  | _ => .error (unsupported "toolResult.content")

/-- One block of `decodeBlocks`; `first` if no block is before it. -/
def decodeBlock (role : Request.Role) (first : Bool) (b : BlockWire) : Decoded Block := do
  require (b.count == 1) (invalid "content")
  match b.text, b.image, b.document, b.toolUse, b.toolResult, b.cachePoint with
  | some text, _, _, _, _, _ => pure { kind := .text, text := text }
  | _, some image, _, _, _, _ => do
    require (role != .system) (unsupported "system.image")
    require (image.source.bytes != "") (invalid "image.source")
    let data ← sourceBytes t image.source "image.bytes"
    pure { kind := .image, mimeType := "image/" ++ image.format, data := data }
  | _, _, some document, _, _, _ => do
    require (role != .system) (unsupported "system.document")
    require (document.source.bytes != "" && document.name != "") (invalid "document.source")
    let data ← sourceBytes t document.source "document.bytes"
    pure { kind := .other "document", mimeType := "application/" ++ document.format
           name := document.name, data := data }
  | _, _, _, some use, _, _ => do
    require (role == .assistant && use.id != "" && use.name != "") (invalid "toolUse")
    object use.input
    pure { kind := .toolCall, id := use.id, name := use.name
           arguments := use.input.elim "" t.text }
  | _, _, _, _, some result, _ => do
    require (role == .user && result.id != "") (unsupported "toolResult.content")
    let text ← resultText result
    pure { kind := .toolResult, id := result.id, text := text }
  | _, _, _, _, _, some cp => do
    require (!first) (invalid "cachePoint.position")
    validateCachePoint cp "cachePoint"
    pure { kind := .other "cache_point", cacheControl := some ⟨"default", cp.ttl⟩ }
  | none, none, none, none, none, none => .error (invalid "content")

def decodeBlocks (role : Request.Role) (bs : List BlockWire) : Decoded (List Block) :=
  bs.foldlM (fun out b => do
    let x ← decodeBlock t role out.isEmpty b
    pure (out ++ [x])) []

/-! ### Requests -/

def messageFromWire (m : MessageWire) : Decoded Message := do
  require (m.role == "user" || m.role == "assistant") (invalid "role")
  let role : Request.Role := if m.role = "user" then .user else .assistant
  let bs ← decodeBlocks t role m.content.items
  require (!bs.isEmpty) (invalid "content")
  pure ⟨role, bs⟩

/-- A directive on the last tool. -/
def markLast (control : CacheControl) (tools : List Request.Tool) : List Request.Tool :=
  match tools.getLast? with
  | none => tools
  | some last => tools.dropLast ++ [{ last with cacheControl := some control }]

/-- One tool, or a cache point behind one. -/
def addTool (tools : List Request.Tool) (t : ToolWire) : Decoded (List Request.Tool) :=
  match t.cachePoint with
  | some cp => do
    require (t.spec.name == "" && !tools.isEmpty) (invalid "tool.cachePoint.position")
    validateCachePoint cp "tool.cachePoint"
    pure (markLast ⟨"default", cp.ttl⟩ tools)
  | none => do
    require (t.spec.name != "") (invalid "toolSpec.name")
    object t.spec.inputSchema.json
    pure (tools ++ [{ name := t.spec.name, description := t.spec.description
                      schema := t.spec.inputSchema.json }])

def conversationHasCache (v : Conversation) : Bool :=
  v.blocks.any (·.kind == .other "cache_point") || v.tools.any (·.cacheControl.isSome)

/-- The conversation of a request. -/
def conversationFromWire (n : RequestWire) : Decoded Conversation := do
  let system ← decodeBlocks t .system n.system.items
  require (!n.messages.items.isEmpty) (invalid "messages")
  let messages ← n.messages.items.mapM (messageFromWire t)
  let max := n.inference.bind (·.max)
  require (max.all (0 < ·)) (invalid "maxTokens")
  let tools ← (n.tools.elim [] (·.tools.items)).foldlM addTool []
  let v : Conversation :=
    { system := system, messages := messages, tools := tools, maxOutputTokens := max
      stop := n.inference.elim [] (·.stop.items) }
  pure { v with cache := if conversationHasCache v then some { protocol := "bedrock-converse" }
    else none }

def maxJSON : ℕ := 2 ^ 24

/-- The wire struct of a body. -/
def wire (spelling : Spelling) (size : ℕ) (body : Json) : Decoded RequestWire := do
  require (decide (size ≤ maxJSON)) (invalid "body")
  strict (struct spelling true (requestFields spelling)) {} body

def decodeRequest (spelling : Spelling) (size : ℕ) (body : Json) : Decoded Conversation := do
  let n ← wire spelling size body
  conversationFromWire t n

end Hoorific.Protocol.BedrockRequest
