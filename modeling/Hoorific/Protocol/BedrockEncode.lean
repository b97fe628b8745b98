/-
The request encoder of the Converse protocol, down to the JSON it writes.  The
system, every content and the tools of a request are lists of tagged unions:
an element is an object with one member.  A block is written with the one
member that is set.  The element of a tool always has a specification, so a
cache point behind a tool is written with an empty one, and a request is made
of unions exactly if no tool carries a directive.
-/
import Hoorific.Lib.Text
import Hoorific.Protocol.BedrockRequest

namespace Hoorific.Protocol.BedrockRequest

open Check Request Unmarshal List

/-! ### Writing -/

/-- The object of the fields that are not left out. -/
def written (fields : List (String × Option Json)) : Json :=
  .obj (fields.filterMap fun f => f.2.map (Prod.mk f.1))

/-- A string that is always written. -/
def text (name s : String) : String × Option Json := (name, some (.str s))

/-- A string that is left out if it is empty. -/
def nonEmpty (s : String) : Option Json := if s = "" then none else some (.str s)

/-- A list that is left out if it is empty. -/
def nonEmptyList (l : List Json) : Option Json := if l.isEmpty then none else some (.arr l)

def CachePoint.value (c : CachePoint) : Json :=
  written [text "type" c.type, ("ttl", nonEmpty c.ttl)]

def SourceWire.value (s : SourceWire) : Json := written [text "bytes" s.bytes]

def ImageContent.value (c : ImageContent) : Json :=
  written [text "format" c.format, ("source", some c.source.value)]

def DocumentContent.value (c : DocumentContent) : Json :=
  written [text "format" c.format, text "name" c.name, ("source", some c.source.value)]

def ToolUse.value (u : ToolUse) : Json :=
  written [text "toolUseId" u.id, text "name" u.name, ("input", some (u.input.getD .null))]

def ResultContent.value (c : ResultContent) : Json :=
  written [("text", c.text.map .str), ("json", c.json)]

def ToolResult.value (r : ToolResult) : Json :=
  written [text "toolUseId" r.id,
    ("content", some (.arr (r.content.items.map ResultContent.value)))]

def BlockWire.value (b : BlockWire) : Json :=
  written [("text", b.text.map .str), ("image", b.image.map ImageContent.value),
    ("document", b.document.map DocumentContent.value), ("toolUse", b.toolUse.map ToolUse.value),
    ("toolResult", b.toolResult.map ToolResult.value),
    ("cachePoint", b.cachePoint.map CachePoint.value)]

def MessageWire.value (m : MessageWire) : Json :=
  written [text "role" m.role, ("content", some (.arr (m.content.items.map BlockWire.value)))]

def Specification.value (s : Specification) : Json :=
  written [text "name" s.name, ("description", nonEmpty s.description),
    ("inputSchema", some (written [("json", some (s.inputSchema.json.getD .null))]))]

/-- The specification is not left out. -/
def ToolWire.value (t : ToolWire) : Json :=
  written [("toolSpec", some t.spec.value), ("cachePoint", t.cachePoint.map CachePoint.value)]

def Inference.value (i : Inference) : Json :=
  written [("maxTokens", i.max.map .int), ("stopSequences", nonEmptyList (i.stop.items.map .str))]

def RequestWire.value (n : RequestWire) : Json :=
  written [("system", nonEmptyList (n.system.items.map BlockWire.value)),
    ("messages", some (.arr (n.messages.items.map MessageWire.value))),
    ("toolConfig", n.tools.map fun c =>
      written [("tools", some (.arr (c.tools.items.map ToolWire.value)))]),
    ("inferenceConfig", n.inference.map Inference.value)]

/-! ### Encoding -/

section Encoding

-- the base64 text of bytes, and the value of a JSON text
variable (base64 : Bytes → String) (t : Texts)

/-- What follows a text in another one, which is to begin with it. -/
def after (p s field : String) : Decoded String := do
  require (hasPrefix s p) (unsupported field)
  pure (String.ofList (s.toList.drop p.length))

/-- `object` of a JSON text. -/
def objectText (s : String) : Decoded Unit :=
  match t.parse s with
  | some (v, true) => object (some v)
  | _ => .error (invalid "json")

/-- A cache point of its own. -/
def encodeCachePoint (b : Block) : Decoded BlockWire := do
  require (b.text == "" && b.url == "" && b.mimeType == "" && b.id == "" && b.name == "" &&
    b.arguments == "" && b.data.isEmpty) (unsupported "cache_point")
  let control := b.cacheControl.getD ⟨"default", ""⟩
  require (control.type == "default") (unsupported "cache_point.type")
  validateCachePoint ⟨"default", control.ttl⟩ "cachePoint"
  pure { cachePoint := some ⟨"default", control.ttl⟩ }

/-- A block of any other kind. -/
def encodeKind (role : Request.Role) (b : Block) : Decoded BlockWire :=
  match b.kind with
  | .text => do
    require (b.id == "" && b.name == "" && b.arguments == "" && b.mimeType == "" &&
      b.data.isEmpty) (unsupported "text")
    pure { text := some b.text }
  | .image => do
    require (role != .system) (unsupported "system.image")
    require (b.text == "" && !b.data.isEmpty && b.mimeType != "" && b.id == "" && b.name == "" &&
      b.arguments == "") (invalid "image")
    let format ← after "image/" b.mimeType "image.mimeType"
    pure { image := some ⟨format, ⟨base64 b.data⟩⟩ }
  | .toolCall => do
    require (role == .assistant && b.id != "" && b.name != "" && b.text == "" &&
      b.mimeType == "" && b.data.isEmpty) (invalid "tool_call")
    objectText t b.arguments
    pure { toolUse := some ⟨b.id, b.name, (t.parse b.arguments).map Prod.fst⟩ }
  | .toolResult => do
    require (role == .user && b.id != "" && b.name == "" && b.arguments == "" &&
      b.mimeType == "" && b.data.isEmpty) (unsupported "tool_result")
    pure { toolResult := some ⟨b.id, { items := [{ text := some b.text }] }⟩ }
  | .reasoning => .error (unsupported "content.reasoning")
  | .other kind =>
    if kind = "document" then do
      require (role != .system) (unsupported "system.document")
      require (b.text == "" && !b.data.isEmpty && b.mimeType != "" && b.name != "" &&
        b.id == "" && b.arguments == "") (invalid "document")
      let format ← after "application/" b.mimeType "document.mimeType"
      pure { document := some ⟨format, b.name, ⟨base64 b.data⟩⟩ }
    else .error (unsupported ("content." ++ kind))

/-- One block of `encodeBlocks`. -/
def encodeBlock (role : Request.Role) (b : Block) (i : ℕ) : Decoded BlockWire := do
  require (!b.cacheBreakpoint) (unsupported s!"content[{i}].cache_breakpoint")
  if b.kind = .other "cache_point" then encodeCachePoint b
  else do
    let w ← encodeKind base64 t role b
    require b.cacheControl.isNone (unsupported s!"content[{i}].cache_control")
    pure w

def encodeBlocks (role : Request.Role) (bs : List Block) : Decoded (List BlockWire) :=
  bs.zipIdx.mapM fun b => encodeBlock base64 t role b.1 b.2

/-- The results of tools are content of the user. -/
def encodeRole (m : Message) : Decoded Request.Role :=
  match m.role with
  | .tool => do
    require (!m.content.isEmpty) (invalid "tool.content")
    require (m.content.all (·.kind == .toolResult)) (unsupported "tool.role")
    pure .user
  | .system => .error (unsupported "role")
  | role => pure role

def encodeMessage (m : Message) : Decoded MessageWire := do
  let role ← encodeRole m
  let bs ← encodeBlocks base64 t role m.content
  require (!bs.isEmpty) (invalid "content")
  pure ⟨role.text, { items := bs }⟩

/-- A tool, and the cache point behind it. -/
def encodeTool (x : Request.Tool) (i : ℕ) : Decoded (List ToolWire) := do
  require (x.name != "") (invalid "tool.name")
  require (!x.cacheBreakpoint) (unsupported s!"tools[{i}].cache_breakpoint")
  object x.schema
  let spec : ToolWire := { spec := ⟨x.name, x.description, ⟨x.schema⟩⟩ }
  match x.cacheControl with
  | none => pure [spec]
  | some control => do
    require (control.type == "default") (unsupported s!"tools[{i}].cache_control.type")
    validateCachePoint ⟨"default", control.ttl⟩ "tool.cachePoint"
    pure [spec, { cachePoint := some ⟨"default", control.ttl⟩ }]

/-- The cache directive of the request is a cache point behind the last message. -/
def encodeCache (cache : Option PromptCache) (ms : List MessageWire) : Decoded (List MessageWire) :=
  match cache with
  | none => pure ms
  | some c => do
    require (["", "bedrock-converse", "anthropic-messages"].contains c.protocol)
      (unsupported "cache.protocol")
    require (c.key == "" && c.retention == "" && c.mode == "" && c.cachedContent == "" &&
      c.sessionID == "" && (c.ttl == "" || c.control.isSome)) (unsupported "cache")
    match c.control with
    | none => pure ms
    | some control => do
      require (control.type == "default") (unsupported "cache.control.type")
      validateCachePoint ⟨"default", control.ttl⟩ "cachePoint"
      match ms.getLast? with
      | none => .error (invalid "cache.control.position")
      | some m => do
        require (!m.content.items.isEmpty) (invalid "cache.control.position")
        let point : BlockWire := { cachePoint := some ⟨"default", control.ttl⟩ }
        pure (ms.dropLast ++ [{ m with content := { items := m.content.items ++ [point] } }])

def encodeRequest (v : Conversation) : Decoded Json := do
  require (v.structuredOutput.isNone && v.structuredOutputName == "" &&
    v.structuredOutputDescription == "" && v.structuredOutputMode == "" &&
    v.structuredOutputStrict.isNone) (unsupported "structured_output")
  let system ← encodeBlocks base64 t .system v.system
  require (!v.messages.isEmpty) (invalid "messages")
  let messages ← v.messages.mapM (encodeMessage base64 t)
  require (v.maxOutputTokens.all (0 < ·)) (invalid "maxTokens")
  let tools ← v.tools.zipIdx.mapM fun x => encodeTool x.1 x.2
  let messages ← encodeCache v.cache messages
  pure (RequestWire.value
    { system := { items := system }, messages := { items := messages }
      tools := if v.tools.isEmpty then none else some ⟨{ items := tools.flatten }⟩
      inference := if v.maxOutputTokens.isSome || !v.stop.isEmpty then
        some ⟨v.maxOutputTokens, { items := v.stop }⟩ else none })

end Encoding

/-! ### Unions -/

/-- A tagged union: an object with one member. -/
def IsUnion (v : Json) : Prop := ∃ ms, v = .obj ms ∧ ms.length = 1

/-- The elements of the array at a path. -/
def elementsAt (path : List String) (v : Json) : List Json :=
  match Json.walk path (some v) with
  | some (.arr items) => items
  | _ => []

/-- The tools of a request. -/
def toolElements (out : Json) : List Json := elementsAt ["toolConfig", "tools"] out

/-- The blocks of a request. -/
def blockElements (out : Json) : List Json :=
  elementsAt ["system"] out ++ (elementsAt ["messages"] out).flatMap (elementsAt ["content"])

/-- The parts of the results of tools. -/
def resultElements : Json → List Json := elementsAt ["toolResult", "content"]

/-- Every element that is to be a union. -/
def unions (out : Json) : List Json :=
  toolElements out ++ blockElements out ++ (blockElements out).flatMap resultElements

/-- The tools that have a specification. -/
def toolSpecs (out : Json) : List Json :=
  (toolElements out).filter fun x => (Json.walk ["toolSpec"] (some x)).isSome

variable {base64 : Bytes → String} {t : Texts} {v : Conversation} {out : Json}

/-- A block that is written as a union, down to the parts of a result. -/
def BlockWire.Tagged (w : BlockWire) : Prop :=
  IsUnion w.value ∧ ∀ x ∈ resultElements w.value, IsUnion x

theorem BlockWire.Tagged.of_plain {w : BlockWire} (hw : IsUnion w.value)
    (hresult : resultElements w.value = []) : w.Tagged :=
  ⟨hw, by simp [hresult]⟩

theorem tagged_cachePoint (cp : CachePoint) : BlockWire.Tagged { cachePoint := some cp } :=
  .of_plain ⟨_, rfl, rfl⟩ rfl

theorem encodeKind_tagged {role : Request.Role} {b : Block} {w : BlockWire}
    (h : encodeKind base64 t role b = .ok w) : w.Tagged := by
  unfold encodeKind at h
  repeat' split at h
  all_goals simp only [bind_ok, pure_ok, reduceCtorEq] at h
  · obtain ⟨-, -, rfl⟩ := h
    exact .of_plain ⟨_, rfl, rfl⟩ rfl
  · obtain ⟨-, -, -, -, format, -, rfl⟩ := h
    exact .of_plain ⟨_, rfl, rfl⟩ rfl
  · obtain ⟨-, -, -, -, rfl⟩ := h
    exact .of_plain ⟨_, rfl, rfl⟩ rfl
  · obtain ⟨-, -, rfl⟩ := h
    refine ⟨⟨_, rfl, rfl⟩, fun x hx => ?_⟩
    obtain rfl := mem_singleton.1 hx
    exact ⟨_, rfl, rfl⟩
  · obtain ⟨-, -, -, -, format, -, rfl⟩ := h
    exact .of_plain ⟨_, rfl, rfl⟩ rfl

/-- **Every block that is encoded is a union.** -/
theorem encodeBlocks_tagged {role : Request.Role} {bs : List Block} {ws : List BlockWire}
    (h : encodeBlocks base64 t role bs = .ok ws) : ∀ w ∈ ws, w.Tagged := by
  intro w hw
  obtain ⟨⟨b, i⟩, -, hb⟩ := exists_of_mem_mapM h hw
  simp only [encodeBlock, bind_ok] at hb
  obtain ⟨-, -, hb⟩ := hb
  split at hb
  · simp only [encodeCachePoint, bind_ok, pure_ok] at hb
    obtain ⟨-, -, -, -, -, -, rfl⟩ := hb
    exact tagged_cachePoint _
  · simp only [bind_ok, pure_ok] at hb
    obtain ⟨w', hkind, -, -, rfl⟩ := hb
    exact encodeKind_tagged hkind

theorem encodeMessages_tagged {ms : List MessageWire}
    (h : v.messages.mapM (encodeMessage base64 t) = .ok ms) :
    ∀ m ∈ ms, ∀ w ∈ m.content.items, w.Tagged := by
  intro m hm
  obtain ⟨m', -, hm'⟩ := exists_of_mem_mapM h hm
  simp only [encodeMessage, bind_ok, pure_ok] at hm'
  obtain ⟨role, -, bs, hbs, -, -, rfl⟩ := hm'
  exact encodeBlocks_tagged hbs

/-- The directive of the request adds one union. -/
theorem encodeCache_tagged {cache : Option PromptCache} {ms ms' : List MessageWire}
    (hms : ∀ m ∈ ms, ∀ w ∈ m.content.items, w.Tagged) (h : encodeCache cache ms = .ok ms') :
    ∀ m ∈ ms', ∀ w ∈ m.content.items, w.Tagged := by
  unfold encodeCache at h
  split at h
  · cases h
    exact hms
  · simp only [bind_ok] at h
    obtain ⟨-, -, -, -, h⟩ := h
    split at h
    · cases h
      exact hms
    · simp only [bind_ok] at h
      obtain ⟨-, -, -, -, h⟩ := h
      split at h
      · cases h
      next last hlast =>
        simp only [bind_ok, pure_ok] at h
        obtain ⟨-, -, rfl⟩ := h
        refine forall_mem_append.2 ⟨fun m hm => hms m (dropLast_subset _ hm), ?_⟩
        refine forall_mem_singleton.2 (forall_mem_append.2 ⟨hms last (mem_of_getLast? hlast), ?_⟩)
        exact forall_mem_singleton.2 (tagged_cachePoint _)

/-- A tool with a directive is followed by a cache point. -/
theorem encodeTool_ok {x : Request.Tool} {i : ℕ} {ws : List ToolWire}
    (h : encodeTool x i = .ok ws) :
    x.cacheControl = none ∧ (∃ spec, ws = [{ spec := spec }]) ∨
      x.cacheControl ≠ none ∧ ∃ spec cp, ws = [{ spec := spec }, { cachePoint := some cp }] := by
  simp only [encodeTool, bind_ok] at h
  obtain ⟨-, -, -, -, -, -, h⟩ := h
  split at h
  next hnone =>
    cases h
    exact .inl ⟨hnone, _, rfl⟩
  next control hsome =>
    simp only [bind_ok, pure_ok] at h
    obtain ⟨-, -, -, -, rfl⟩ := h
    exact .inr ⟨by simp [hsome], _, _, rfl⟩

/-- **The elements of the tools**: none is a cache point, and there are as many as
tools, exactly if no tool carries a directive. -/
theorem encodeTools_iff {l : List (Request.Tool × ℕ)} {ws : List (List ToolWire)}
    (h : l.mapM (fun x => encodeTool x.1 x.2) = .ok ws) :
    ((∀ w ∈ ws.flatten, w.cachePoint = none) ∧ ws.flatten.length = l.length) ↔
      ∀ x ∈ l, x.1.cacheControl = none := by
  rw [mapM_ok] at h
  induction h with
  | nil => simp
  | cons hx _ ih =>
    rcases encodeTool_ok hx with ⟨hnone, spec, rfl⟩ | ⟨hsome, spec, cp, rfl⟩
    · simp only [flatten_cons, singleton_append, forall_mem_cons, length_cons, hnone, true_and,
        Nat.add_right_cancel_iff]
      exact ih
    · refine iff_of_false (fun h => ?_) fun h => hsome (h _ mem_cons_self)
      cases h.1 _ (mem_append_left _ (mem_cons_of_mem _ mem_cons_self))

theorem ToolWire.isUnion_iff (w : ToolWire) : IsUnion w.value ↔ w.cachePoint = none := by
  rcases w with ⟨spec, - | cp⟩
  · exact iff_of_true ⟨_, rfl, rfl⟩ rfl
  · refine iff_of_false ?_ nofun
    rintro ⟨ms, ⟨⟩, hone⟩
    cases hone

theorem RequestWire.elements_value (n : RequestWire) :
    toolElements n.value = (n.tools.elim [] (·.tools.items)).map ToolWire.value ∧
      elementsAt ["system"] n.value = n.system.items.map BlockWire.value ∧
      elementsAt ["messages"] n.value = n.messages.items.map MessageWire.value := by
  rcases n with ⟨⟨- | ⟨b, bs⟩, _⟩, ms, - | c, - | i⟩ <;> exact ⟨rfl, rfl, rfl⟩

theorem blockElements_value (n : RequestWire) :
    blockElements n.value = (n.system.items ++ n.messages.items.flatMap (·.content.items)).map
      BlockWire.value := by
  obtain ⟨-, hsystem, hmessages⟩ := n.elements_value
  rw [blockElements, hsystem, hmessages, flatMap_map, map_append, map_flatMap]
  rfl

/-- **What is written**: every block is a union, and the elements of the tools are
those of the loop over them. -/
theorem encodeRequest_ok (h : encodeRequest base64 t v = .ok out) :
    (∀ x ∈ blockElements out, IsUnion x ∧ ∀ y ∈ resultElements x, IsUnion y) ∧
      ∃ ws, v.tools.zipIdx.mapM (fun x => encodeTool x.1 x.2) = .ok ws ∧
        toolElements out = ws.flatten.map ToolWire.value := by
  simp only [encodeRequest, bind_ok, pure_ok] at h
  obtain ⟨-, -, system, hsystem, -, -, ms, hms, -, -, ws, hws, ms', hms', rfl⟩ := h
  refine ⟨?_, ws, hws, ?_⟩
  · rw [blockElements_value, forall_mem_map, forall_mem_append]
    refine ⟨encodeBlocks_tagged hsystem, fun w hw => ?_⟩
    obtain ⟨m, hm, hw⟩ := mem_flatMap.1 hw
    exact encodeCache_tagged (encodeMessages_tagged hms) hms' m hm w hw
  · rw [(RequestWire.elements_value _).1]
    rcases htools : v.tools with - | ⟨x, xs⟩
    · rw [htools] at hws
      cases hws
      rfl
    · rfl

theorem toolSpecs_map (ws : List ToolWire) :
    (ws.map ToolWire.value).filter (fun x => (Json.walk ["toolSpec"] (some x)).isSome) =
      ws.map ToolWire.value := by
  refine filter_eq_self.2 (forall_mem_map.2 fun w _ => ?_)
  rcases w with ⟨spec, - | cp⟩ <;> rfl

/-- **A request is made of unions**, and has a specification for each tool and no
other, exactly if no tool carries a directive. -/
theorem encodeRequest_unions_iff (h : encodeRequest base64 t v = .ok out) :
    ((∀ x ∈ unions out, IsUnion x) ∧ (toolSpecs out).length = v.tools.length) ↔
      ∀ x ∈ v.tools, x.cacheControl = none := by
  obtain ⟨hblocks, ws, hws, htools⟩ := encodeRequest_ok h
  have hiff := encodeTools_iff hws
  rw [length_zipIdx] at hiff
  have hcontrol : (∀ x ∈ v.tools.zipIdx, x.1.cacheControl = none) ↔
      ∀ x ∈ v.tools, x.cacheControl = none := by
    rw [← forall_mem_map (f := Prod.fst) (P := fun x : Request.Tool => x.cacheControl = none),
      zipIdx_map_fst]
  have hunions : (∀ x ∈ unions out, IsUnion x) ↔ ∀ w ∈ ws.flatten, w.cachePoint = none := by
    rw [unions, htools, forall_mem_append, forall_mem_append, forall_mem_map]
    simp only [ToolWire.isUnion_iff]
    refine ⟨fun h => h.1.1, fun h => ⟨⟨h, fun x hx => (hblocks x hx).1⟩, fun y hy => ?_⟩⟩
    obtain ⟨x, hx, hy⟩ := mem_flatMap.1 hy
    exact (hblocks x hx).2 y hy
  rw [hunions, toolSpecs, htools, toolSpecs_map, length_map, hiff, hcontrol]

/-- The encoder on a request with one tool. -/
def encodeOneTool (control : Option CacheControl) : Decoded Json :=
  encodeRequest (fun _ => "") ⟨fun _ => none, fun _ => "", fun _ => none, fun _ => true⟩
    { messages := [⟨.user, [{ kind := .text, text := "hi" }]⟩]
      tools := [{ name := "f", schema := some (.obj []), cacheControl := control }] }

theorem encodeOneTool_plain :
    ∃ out, encodeOneTool none = .ok out ∧ (∀ x ∈ unions out, IsUnion x) ∧
      (toolSpecs out).length = 1 := by
  have h : encodeOneTool none = .ok _ := rfl
  exact ⟨_, h, (encodeRequest_unions_iff h).2 (forall_mem_singleton.2 rfl)⟩

/-- The cache point of a tool is an element with two members, one of them a second
specification. -/
theorem encodeOneTool_cached :
    ∃ out, encodeOneTool (some ⟨"default", ""⟩) = .ok out ∧ (¬ ∀ x ∈ unions out, IsUnion x) ∧
      (toolSpecs out).length = 2 := by
  refine ⟨_, rfl, fun h => ?_, rfl⟩
  obtain ⟨ms, ⟨⟩, hone⟩ := h _ (mem_cons_of_mem _ mem_cons_self)
  cases hone

end Hoorific.Protocol.BedrockRequest
