/-
The stream of the Chat Completions protocol: the decoder of its chunks, and
the encoder that writes them.  A chunk is a server-sent event, and the reader
of events refuses one of more than a megabyte, so a frame carries its size:
the encoder's frames have the size of the text that is written.

In a chunk a tool call is known by its `index`.  The decoder starts a call
for every new index; the encoder writes the `Tool` part of the index of the
event.
-/
import Mathlib.Data.Finset.Basic
import Mathlib.Data.List.Sort
import Hoorific.Lib.JsonText
import Hoorific.Lib.Push
import Hoorific.Protocol.Framing

namespace Hoorific.Protocol.Chat

open Check Bytes Framing

def unsupported (param : String) : StreamFailure :=
  .gateway ⟨"unsupported_feature", 400,
    "Unsupported or unrepresentable Chat Completions field: " ++ param, param, "gateway"⟩

/-! ### The wire -/

structure PromptDetails where
  cachedTokens : Option Int := none
  cacheWriteTokens : Option Int := none
  cacheReadTokens : Option Int := none
  cacheCreationTokens : Option Int := none
  audioTokens : Option Int := none
deriving DecidableEq

structure CompletionDetails where
  reasoningTokens : Option Int := none
  reasoningOutput : Option Int := none
  audioTokens : Option Int := none
deriving DecidableEq

structure UsageWire where
  promptTokens : Option Int := none
  completionTokens : Option Int := none
  totalTokens : Option Int := none
  promptDetails : Option PromptDetails := none
  completionDetails : Option CompletionDetails := none
deriving DecidableEq

/-- A part of a tool call. -/
structure CallDelta where
  index : Int
  id : String := ""
  type : String := ""
  name : String := ""
  arguments : String := ""
deriving DecidableEq

structure Delta where
  role : String := ""
  content : Option String := none
  toolCalls : List CallDelta := []
deriving DecidableEq

structure Choice where
  index : Int
  delta : Delta := {}
  finishReason : Option String := none
  /-- there are log probabilities, and they are not `null` -/
  logprobs : Bool := false
deriving DecidableEq

/-- A chunk; its time and its fingerprint are read and ignored. -/
structure Chunk where
  id : String := ""
  object : String := ""
  model : String := ""
  choices : List Choice := []
  usage : Option UsageWire := none
deriving DecidableEq

/-- What a server-sent event holds. -/
inductive Body where
  /-- an event without data -/
  | empty
  /-- an event with the name `error` -/
  | error (payload : Decoded ErrorWire)
  /-- the data `[DONE]` -/
  | done
  | chunk (x : Decoded Chunk)
  /-- the reader fails instead -/
  | failed (err : StreamFailure)

/-- An event and its size on the wire, with its names and its blank line. -/
structure Frame where
  size : ℕ
  body : Body

/-- What the decoder makes of an event; JSON decoding of its data is given. -/
def frameOf (error : Bytes → Decoded ErrorWire) (chunk : Bytes → Decoded Chunk) (e : SSEEvent) :
    Frame where
  size := (terminated (fieldLines e) ++ [lf]).length
  body :=
    if e.data = [] then .empty
    else if e.event = ascii "error" then .error (error e.data)
    else if e.data = ascii "[DONE]" then .done
    else .chunk (chunk e.data)

/-- `framing.DefaultMaxEventBytes`. -/
def maxEventBytes : ℕ := 2 ^ 20

def frameTooLarge : StreamFailure := .plain "protocol frame exceeds configured limit"

/-! ### Usage -/

def PromptDetails.counters (d : PromptDetails) : List (Option Int) :=
  [d.cachedTokens, d.cacheWriteTokens, d.cacheReadTokens, d.cacheCreationTokens, d.audioTokens]

def CompletionDetails.counters (d : CompletionDetails) : List (Option Int) :=
  [d.reasoningTokens, d.reasoningOutput, d.audioTokens]

def UsageWire.counters (u : UsageWire) : List (Option Int) :=
  [u.promptTokens, u.completionTokens, u.totalTokens] ++
    (u.promptDetails.elim [] PromptDetails.counters ++
      u.completionDetails.elim [] CompletionDetails.counters)

def decodeUsage (u : UsageWire) : Decoded Usage := do
  require (nonneg u.counters) (unsupported "usage")
  pure
    { input := u.promptTokens, output := u.completionTokens, total := u.totalTokens
      source := "provider"
      cachedInput := u.promptDetails.bind fun d => d.cachedTokens.or d.cacheReadTokens
      cacheWriteInput := u.promptDetails.bind fun d => d.cacheWriteTokens.or d.cacheCreationTokens
      reasoningOutput := u.completionDetails.bind fun d => d.reasoningTokens.or d.reasoningOutput }

/-- A counter that is added to a sum. -/
def addPart (total : Int) : Option Int → Decoded Int
  | none => .ok total
  | some part =>
    if total > maxInt64 - part then .error (unsupported "usage") else .ok (total + part)

/-- The tokens written to the cache: the sum of its parts if it is not known. -/
def cacheWriteAggregate (u : Usage) : Decoded (Option Int) :=
  match u.cacheWriteInput with
  | some n => .ok (some n)
  | none => do
    let total ← addPart 0 u.cacheWrite5mInput
    let total ← addPart total u.cacheWrite1hInput
    pure (if u.cacheWrite5mInput.isSome || u.cacheWrite1hInput.isSome then some total else none)

def encodeUsage (u : Usage) : Decoded UsageWire := do
  require (nonneg u.counters) (unsupported "usage")
  let write ← cacheWriteAggregate u
  pure
    { promptTokens := u.input, completionTokens := u.output, totalTokens := u.total
      promptDetails :=
        if u.cachedInput.isSome || write.isSome then
          some { cachedTokens := u.cachedInput, cacheWriteTokens := write }
        else none
      completionDetails := u.reasoningOutput.map fun n => { reasoningTokens := some n } }

/-! ### Finish -/

def finishFromWire (reason : String) : Decoded Finish :=
  if reason ∈ ["stop", "stop_sequence", "tool_calls", "content_filter"] then
    .ok { status := "completed", reason := reason }
  else if reason = "length" then .ok { status := "incomplete", reason := reason }
  else .error (unsupported "finish_reason")

def finishOK (f : Finish) : Decoded Unit := do
  require (f.cancellation == "" && f.reason != "")
    (.plain "finish cannot be represented by Chat Completions")
  let expected := if f.reason = "length" then "incomplete" else "completed"
  require (f.status == "" || f.status == expected) (unsupported "finish.status")
  require (f.reason ∈ ["stop", "stop_sequence", "tool_calls", "content_filter", "length"])
    (unsupported "finish.reason")

/-! ### The decoder -/

/-- A started call: the entries of `tools`, `toolIDs` and `toolNames`. -/
structure Tool where
  index : Index
  id : String
  name : String
deriving DecidableEq

/-- `streamDecoder` without its queue.  Only the choice 0 is read, so the maps
by choice are single values. -/
structure Decoder where
  started : Bool := false
  finished : Bool := false
  done : Bool := false
  finishEmitted : Bool := false
  finishPending : Option Finish := none
  id : String := ""
  model : String := ""
  blocks : Int := 0
  text : Option Index := none
  /-- the started calls by their index on the wire -/
  tools : List (Int × Tool) := []
deriving DecidableEq

namespace Decoder

variable (d : Decoder)

/-- The content of a choice; its first content starts a block. -/
def content (s : String) : Decoder × List Event :=
  match d.text with
  | some i => (d, [.textDelta i s])
  | none =>
    let i : Index := { block := d.blocks }
    ({ d with blocks := d.blocks + 1, text := some i }, [.blockStart i .text "" "", .textDelta i s])

/-- The arguments in a part of a call. -/
def argumentEvents (i : Index) (arguments : String) : List Event :=
  if arguments = "" then [] else [.toolArgumentsDelta i arguments]

/-- A part of a call that has not been seen. -/
def startCall (tc : CallDelta) : Decoder × List Event :=
  let i : Index := { block := d.blocks, tool := tc.index }
  ({ d with blocks := d.blocks + 1, tools := d.tools ++ [(tc.index, ⟨i, tc.id, tc.name⟩)] },
    .toolCallStart i tc.id tc.name :: argumentEvents i tc.arguments)

def call (tc : CallDelta) : Decoded (Decoder × List Event) := do
  require (0 ≤ tc.index) (unsupported "tool_calls.index")
  require (tc.type == "" || tc.type == "function") (unsupported "tool_calls.type")
  match d.tools.lookup tc.index with
  | none => do
    require (tc.id != "" && tc.name != "") (unsupported "tool_calls.start")
    pure (d.startCall tc)
  | some t => do
    require ((tc.id == "" || tc.id == t.id) && (tc.name == "" || tc.name == t.name))
      (unsupported "tool_calls.identity")
    pure (d, argumentEvents t.index tc.arguments)

/-- The ends of the open blocks: the text first, then the calls by their index. -/
def ends : List Event :=
  (d.text.toList ++ (d.tools.insertionSort fun a b => a.1 ≤ b.1).map fun p => p.2.index).map
    .blockEnd

def finish (d : Decoder) (reason : String) : Decoded (Decoder × List Event) := do
  require (!d.finished && reason != "") (unsupported "finish")
  let f ← finishFromWire reason
  pure ({ d with text := none, tools := [], finished := true, finishPending := some f }, d.ends)

/-- The finish of a choice, if it has one. -/
def finishChoice : Option String → Decoded (Decoder × List Event)
  | none => .ok (d, [])
  | some reason => d.finish reason

/-- The content of a choice, if it has any. -/
def contentChoice : Option String → Decoder × List Event
  | none => (d, [])
  | some s => d.content s

def choice (ch : Choice) : Decoded (Decoder × List Event) := do
  require (ch.index == 0) (unsupported "choices.index")
  require (!ch.logprobs) (unsupported "choices.logprobs")
  require (ch.delta.role == "" || ch.delta.role == "assistant") (unsupported "delta.role")
  let (d, text) := d.contentChoice ch.delta.content
  let (d, calls) ← emitAll call d ch.delta.toolCalls
  let (d, last) ← d.finishChoice ch.finishReason
  pure (d, text ++ (calls ++ last))

/-- The finish, if it waits to be returned. -/
def release : Decoder × List Event :=
  match d.finishPending with
  | some f => if d.finishEmitted then (d, []) else ({ d with finishEmitted := true }, [.finish f])
  | none => (d, [])

/-- The identity of a chunk must be the one of the stream. -/
def identify (x : Chunk) : Decoded Decoder := do
  require (x.id == "" || d.id == "" || d.id == x.id) (unsupported "stream.id")
  require (x.model == "" || d.model == "" || d.model == x.model) (unsupported "stream.model")
  pure
    { d with
      id := if x.id = "" then d.id else x.id
      model := if x.model = "" then d.model else x.model }

def start (d : Decoder) : Decoded (Decoder × List Event) :=
  if d.started then .ok (d, [])
  else do
    require (d.id != "" && d.model != "") (unsupported "stream.identity")
    pure ({ d with started := true }, [.start d.id d.model])

/-- The usage of a chunk, with the finish that waits for it. -/
def usage (d : Decoder) : Option UsageWire → Decoded (Decoder × List Event)
  | none => .ok (d, [])
  | some w => do
    let u ← decodeUsage w
    require d.finished (unsupported "usage.before_finish")
    let (d, last) := d.release
    pure (d, .usage u :: last)

def chunk (d : Decoder) (x : Chunk) : Decoded (Decoder × List Event) := do
  require (int64s (x.usage.elim [] UsageWire.counters)) (unsupported "json.fields")
  require (x.object == "" || x.object == "chat.completion.chunk") (unsupported "stream.object")
  let d ← d.identify x
  let (d, first) ← d.start
  require (!d.finished || x.choices.isEmpty) (unsupported "stream.after_finish")
  let (d, choices) ← emitAll choice d x.choices
  let (d, last) ← d.usage x.usage
  pure (d, first ++ (choices ++ last))

/-- What the events of a stream yield. -/
def body : Body → Decoded (Decoder × List Event)
  | .empty => .ok (d, [])
  | .error payload => do
    let er ← payload
    require (er.message != "") (unsupported "stream.error")
    pure ({ d with done := true },
      [.streamError { er.toError with httpStatus := 400, origin := "provider" }])
  | .done => do
    require d.finished .unexpectedEOF
    pure ({ d with done := true } : Decoder).release
  | .chunk x => do d.chunk (← x)
  | .failed err => .error err

def feed (f : Frame) : Decoded (Decoder × List Event) := do
  require (f.size ≤ maxEventBytes) frameTooLarge
  d.body f.body

def close : Decoded (Decoder × List Event) := do
  require d.finished .unexpectedEOF
  pure d.release

end Decoder

/-- The decoder as a source of events. -/
def decoder : Feeder Decoder StreamFailure Frame Event :=
  ⟨Decoder.feed, Decoder.done, Decoder.close⟩

/-! ### The text of a chunk -/

open JsonText in
def counterText (n : Option Int) : Option String := n.map int

open JsonText in
def usageText (u : UsageWire) : String :=
  object
    [member "prompt_tokens" (counterText u.promptTokens),
      member "completion_tokens" (counterText u.completionTokens),
      member "total_tokens" (counterText u.totalTokens),
      member "prompt_tokens_details" (u.promptDetails.map fun d => object
        [member "cached_tokens" (counterText d.cachedTokens),
          member "cache_write_tokens" (counterText d.cacheWriteTokens),
          member "cache_read_tokens" (counterText d.cacheReadTokens),
          member "cache_creation_input_tokens" (counterText d.cacheCreationTokens),
          member "audio_tokens" (counterText d.audioTokens)]),
      member "completion_tokens_details" (u.completionDetails.map fun d => object
        [member "reasoning_tokens" (counterText d.reasoningTokens),
          member "reasoning_output_tokens" (counterText d.reasoningOutput),
          member "audio_tokens" (counterText d.audioTokens)])]

open JsonText in
def callText (c : CallDelta) : String :=
  object
    [member "index" (some (int c.index)), member "id" (nonEmpty c.id),
      member "type" (nonEmpty c.type),
      member "function" (some (object
        [member "name" (nonEmpty c.name), member "arguments" (nonEmpty c.arguments)]))]

open JsonText in
def choiceText (c : Choice) : String :=
  object
    [member "index" (some (int c.index)),
      member "delta" (some (object
        [member "role" (nonEmpty c.delta.role), member "content" (c.delta.content.map string),
          member "tool_calls" (if c.delta.toolCalls.isEmpty then none
            else some (array (c.delta.toolCalls.map callText)))])),
      member "finish_reason" (some (c.finishReason.elim "null" string))]

open JsonText in
/-- The text of a chunk as it is written. -/
def chunkText (x : Chunk) : String :=
  object
    [member "id" (some (string x.id)), member "object" (nonEmpty x.object),
      member "model" (some (string x.model)),
      member "choices" (some (array (x.choices.map choiceText))),
      member "usage" (x.usage.map usageText)]

open JsonText in
def errorText (e : ErrorWire) : String :=
  object
    [member "error" (some (object
      [member "code" (nonEmpty e.code), member "message" (some (string e.message)),
        member "param" (nonEmpty e.param)]))]

/-- A chunk as an event: `data: `, the text, and two line ends. -/
def chunkFrame (x : Chunk) : Frame := ⟨(chunkText x).utf8ByteSize + 8, .chunk (.ok x)⟩

def errorFrame (e : ErrorWire) : Frame :=
  ⟨"event: error\n".utf8ByteSize + ((errorText e).utf8ByteSize + 8), .error (.ok e)⟩

def doneFrame : Frame := ⟨"[DONE]".utf8ByteSize + 8, .done⟩

/-! ### The encoder -/

structure Encoder where
  started : Bool := false
  finished : Bool := false
  usage : Bool := false
  done : Bool := false
  id : String := ""
  model : String := ""
  pendingUsage : Option Usage := none
  text : Finset Index := ∅
  tools : Finset Index := ∅

namespace Encoder

variable (e : Encoder)

/-- A chunk of the stream with one choice. -/
def choiceFrame (object : String) (ch : Choice) : Frame :=
  chunkFrame { id := e.id, object := object, model := e.model, choices := [ch] }

/-- A chunk with a part of a call. -/
def callFrame (choice : Int) (c : CallDelta) : Frame :=
  e.choiceFrame "" { index := choice, delta := { toolCalls := [c] } }

def start (e : Encoder) (id model : String) : Decoded (Encoder × List Frame) := do
  require (!e.started) (unsupported "stream.start")
  require (id != "" && model != "") (unsupported "stream.identity")
  let e := { e with started := true, id := id, model := model }
  pure (e, [e.choiceFrame "chat.completion.chunk" { index := 0, delta := { role := "assistant" } }])

def toolCallStart (i : Index) (id name : String) : Decoded (Encoder × List Frame) := do
  require (e.started && !e.finished && i.choice == 0 && decide (0 ≤ i.tool) &&
    decide (i ∉ e.tools) && id != "" && name != "") (unsupported "tool.start")
  let e := { e with tools := insert i e.tools }
  pure (e, [e.callFrame 0 { index := i.tool, id := id, type := "function", name := name }])

def blockStart (i : Index) (kind : BlockKind) (id name : String) :
    Decoded (Encoder × List Frame) := do
  require (e.started && !e.finished && i.choice == 0) (unsupported "block.start")
  match kind with
  | .text => do
    require (decide (i ∉ e.text) && i.tool == 0) (unsupported "block.index")
    pure ({ e with text := insert i e.text }, [])
  | .toolCall => do
    require (decide (i ∉ e.tools) && id != "" && name != "") (unsupported "block.tool_call")
    let e := { e with tools := insert i e.tools }
    pure (e, [e.callFrame i.choice { index := i.tool, id := id, type := "function", name := name }])
  | _ => .error (unsupported "block.kind")

def textDelta (i : Index) (s : String) : Decoded (Encoder × List Frame) := do
  require (decide (i ∈ e.text)) (unsupported "text.delta")
  pure (e, [e.choiceFrame "" { index := i.choice, delta := { content := some s } }])

def toolArgumentsDelta (i : Index) (s : String) : Decoded (Encoder × List Frame) := do
  require (decide (i ∈ e.tools)) (unsupported "tool.delta")
  pure (e, [e.callFrame i.choice { index := i.tool, arguments := s }])

/-- The end of a block: of the text if both are open at the index. -/
def blockEnd (i : Index) : Decoded (Encoder × List Frame) :=
  if i ∈ e.text then .ok ({ e with text := e.text.erase i }, [])
  else if i ∈ e.tools then .ok ({ e with tools := e.tools.erase i }, [])
  else .error (unsupported "block.end")

/-- A chunk of the stream with the usage. -/
def usageFrame (w : UsageWire) : Frame :=
  chunkFrame { id := e.id, object := "chat.completion.chunk", model := e.model, usage := some w }

/-- The chunk of a usage that was kept. -/
def usageFrames : Decoded (List Frame) :=
  match e.pendingUsage with
  | none => .ok []
  | some u => do
    let w ← encodeUsage u
    pure [e.usageFrame w]

def finish (e : Encoder) (f : Finish) : Decoded (Encoder × List Frame) := do
  require (e.started && !e.finished && decide (e.text = ∅) && decide (e.tools = ∅))
    (unsupported "finish")
  finishOK f
  let usage ← e.usageFrames
  pure ({ e with finished := true, pendingUsage := none, done := true },
    e.choiceFrame "chat.completion.chunk" { index := 0, finishReason := some f.reason } ::
      (usage ++ [doneFrame]))

def streamError (err : GatewayError) : Decoded (Encoder × List Frame) := do
  require (err.message != "") (unsupported "stream.error")
  pure ({ e with done := true },
    [errorFrame { code := err.code, message := err.message, param := err.param }])

def keepUsage (u : Usage) : Decoded (Encoder × List Frame) := do
  require (e.started && !e.finished && !e.usage) (unsupported "usage")
  require (nonneg [u.input, u.output, u.total]) (unsupported "usage")
  pure ({ e with pendingUsage := some u, usage := true }, [])

/-- `Write`, by the kind of the event. -/
def event : Event → Decoded (Encoder × List Frame)
  | .start id model => e.start id model
  | .toolCallStart i id name => e.toolCallStart i id name
  | .blockStart i kind id name => e.blockStart i kind id name
  | .textDelta i s => e.textDelta i s
  | .toolArgumentsDelta i s => e.toolArgumentsDelta i s
  | .blockEnd i => e.blockEnd i
  | .usage u => e.keepUsage u
  | .finish f => e.finish f
  | .streamError err => e.streamError err

def write (v : Event) : Decoded (Encoder × List Frame) := do
  require (!e.done) (unsupported "stream.after_done")
  e.event v

/-! ### What a write does -/

/-- The state after an event that is accepted, and what is written for it. -/
inductive Writes (e : Encoder) : Event → Encoder → List Frame → Prop
  | start {id model : String} (hs : e.started = false) (hid : id ≠ "") (hmodel : model ≠ "") :
    Writes e (.start id model) { e with started := true, id := id, model := model }
      [({ e with started := true, id := id, model := model } : Encoder).choiceFrame
        "chat.completion.chunk" { index := 0, delta := { role := "assistant" } }]
  | toolCallStart {i : Index} {id name : String} (hs : e.started = true) (hchoice : i.choice = 0)
      (hid : id ≠ "") (hname : name ≠ "") :
    Writes e (.toolCallStart i id name) { e with tools := insert i e.tools }
      [e.callFrame 0 { index := i.tool, id := id, type := "function", name := name }]
  | textStart {i : Index} {id name : String} (hs : e.started = true) (hchoice : i.choice = 0) :
    Writes e (.blockStart i .text id name) { e with text := insert i e.text } []
  | callStart {i : Index} {id name : String} (hs : e.started = true) (hchoice : i.choice = 0)
      (hid : id ≠ "") (hname : name ≠ "") :
    Writes e (.blockStart i .toolCall id name) { e with tools := insert i e.tools }
      [e.callFrame 0 { index := i.tool, id := id, type := "function", name := name }]
  | textDelta {i : Index} {s : String} (hopen : i ∈ e.text) :
    Writes e (.textDelta i s) e
      [e.choiceFrame "" { index := i.choice, delta := { content := some s } }]
  | arguments {i : Index} {s : String} (hopen : i ∈ e.tools) :
    Writes e (.toolArgumentsDelta i s) e [e.callFrame i.choice { index := i.tool, arguments := s }]
  | textEnd {i : Index} (hopen : i ∈ e.text) :
    Writes e (.blockEnd i) { e with text := e.text.erase i } []
  | callEnd {i : Index} (hopen : i ∈ e.tools) :
    Writes e (.blockEnd i) { e with tools := e.tools.erase i } []
  | usage {u : Usage} (hs : e.started = true) (honce : e.usage = false) :
    Writes e (.usage u) { e with pendingUsage := some u, usage := true } []
  | finish {f : Finish} {usage : List Frame} (hs : e.started = true) (hok : finishOK f = .ok ())
      (husage : e.usageFrames = .ok usage) :
    Writes e (.finish f) { e with finished := true, pendingUsage := none, done := true }
      (e.choiceFrame "chat.completion.chunk" { index := 0, finishReason := some f.reason } ::
        (usage ++ [doneFrame]))
  | streamError {err : GatewayError} (hmessage : err.message ≠ "") :
    Writes e (.streamError err) { e with done := true }
      [errorFrame { code := err.code, message := err.message, param := err.param }]

theorem event_ok {e e' : Encoder} {v : Event} {out : List Frame} (h : e.event v = .ok (e', out)) :
    Writes e v e' out := by
  cases v with
  | start id model =>
    simp only [event, start, bind_ok, require_ok, pure_ok, Bool.not_eq_true',
      Bool.and_eq_true, bne_iff_ne, Prod.mk.injEq] at h
    obtain ⟨_, hs, _, ⟨hid, hmodel⟩, rfl, rfl⟩ := h
    exact .start hs hid hmodel
  | toolCallStart i id name =>
    simp only [event, toolCallStart, bind_ok, require_ok, pure_ok, Bool.and_eq_true, bne_iff_ne,
      beq_iff_eq, Prod.mk.injEq] at h
    obtain ⟨_, ⟨⟨⟨⟨⟨⟨hs, -⟩, hchoice⟩, -⟩, -⟩, hid⟩, hname⟩, rfl, rfl⟩ := h
    exact .toolCallStart hs hchoice hid hname
  | blockStart i kind id name =>
    simp only [event, blockStart, bind_ok, require_ok, Bool.and_eq_true, beq_iff_eq] at h
    obtain ⟨_, ⟨⟨hs, -⟩, hchoice⟩, h⟩ := h
    cases kind with
    | text =>
      simp only [bind_ok, pure_ok, Prod.mk.injEq] at h
      obtain ⟨_, -, rfl, rfl⟩ := h
      exact .textStart hs hchoice
    | toolCall =>
      simp only [bind_ok, require_ok, pure_ok, Bool.and_eq_true, bne_iff_ne, Prod.mk.injEq] at h
      obtain ⟨_, ⟨⟨-, hid⟩, hname⟩, rfl, rfl⟩ := h
      rw [hchoice]
      exact .callStart hs hchoice hid hname
    | toolResult | image | reasoning | other kind => cases h
  | textDelta i s =>
    simp only [event, textDelta, bind_ok, require_ok, pure_ok,
      decide_eq_true_eq, Prod.mk.injEq] at h
    obtain ⟨_, hopen, rfl, rfl⟩ := h
    exact .textDelta hopen
  | toolArgumentsDelta i s =>
    simp only [event, toolArgumentsDelta, bind_ok, require_ok, pure_ok,
      decide_eq_true_eq, Prod.mk.injEq] at h
    obtain ⟨_, hopen, rfl, rfl⟩ := h
    exact .arguments hopen
  | blockEnd i =>
    simp only [event, blockEnd] at h
    split at h
    case isTrue hopen =>
      cases h
      exact .textEnd hopen
    case isFalse =>
      split at h
      case isTrue hopen =>
        cases h
        exact .callEnd hopen
      case isFalse => cases h
  | usage u =>
    simp only [event, keepUsage, bind_ok, require_ok, pure_ok, Bool.not_eq_true',
      Bool.and_eq_true, Prod.mk.injEq] at h
    obtain ⟨_, ⟨⟨hs, -⟩, honce⟩, _, -, rfl, rfl⟩ := h
    exact .usage hs honce
  | finish f =>
    simp only [event, finish, bind_ok, require_ok, pure_ok, Bool.and_eq_true, Prod.mk.injEq] at h
    obtain ⟨_, ⟨⟨⟨hs, -⟩, -⟩, -⟩, _, hok, usage, husage, rfl, rfl⟩ := h
    exact .finish hs hok husage
  | streamError err =>
    simp only [event, streamError, bind_ok, require_ok, pure_ok, bne_iff_ne, Prod.mk.injEq] at h
    obtain ⟨_, hmessage, rfl, rfl⟩ := h
    exact .streamError hmessage

theorem write_ok {e e' : Encoder} {v : Event} {out : List Frame} (h : e.write v = .ok (e', out)) :
    e.done = false ∧ Writes e v e' out := by
  simp only [write, bind_ok, require_ok, Bool.not_eq_true'] at h
  obtain ⟨-, hdone, h⟩ := h
  exact ⟨hdone, event_ok h⟩

end Encoder

end Hoorific.Protocol.Chat
