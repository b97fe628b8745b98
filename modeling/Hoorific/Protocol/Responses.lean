/-
The stream of the Responses protocol: its decoder, and the encoder for its
clients.  Output items are known by their index.  The decoder keeps messages
and function calls in two maps, so that one index can be used for both, while
an index ends once; the encoder keeps one map, and an index is used once.
-/
import Mathlib.Data.Finset.Basic
import Mathlib.Data.List.Sort
import Hoorific.Lib.Json
import Hoorific.Lib.Push
import Hoorific.Lib.Table
import Hoorific.Protocol.Framing

namespace Hoorific.Protocol.Responses

open Check Bytes Framing

def unsupported (p : String) : StreamFailure :=
  .gateway ⟨"unsupported_feature", 400, "Unsupported or invalid Responses field: " ++ p, p,
    "gateway"⟩

/-! ### Usage -/

/-- The usage of a response; `cachedTokens` and `reasoningTokens` are the
members of its two objects of details. -/
structure UsageWire where
  input : Option Int := none
  output : Option Int := none
  total : Option Int := none
  cachedTokens : Option Int := none
  reasoningTokens : Option Int := none
deriving DecidableEq

def UsageWire.counters (u : UsageWire) : List (Option Int) :=
  [u.input, u.output, u.total, u.cachedTokens, u.reasoningTokens]

def decodeUsage (u : UsageWire) : Decoded Usage := do
  require (nonneg u.counters) (unsupported "usage")
  pure
    { input := u.input, output := u.output, total := u.total, source := "provider"
      cachedInput := u.cachedTokens, reasoningOutput := u.reasoningTokens }

theorem decodeUsage_sound {w : UsageWire} {u : Usage} (hw : int64s w.counters = true)
    (h : decodeUsage w = .ok u) : Sound u := by
  simp only [decodeUsage, bind_ok, require_ok, pure_ok] at h
  obtain ⟨-, hnonneg, rfl⟩ := h
  refine ⟨?_, fun _ => .inl rfl⟩
  have hcounts := forall_counts_iff.2 ⟨hnonneg, hw⟩
  intro o ho
  simp only [Usage.counters, List.mem_cons, List.not_mem_nil, or_false] at ho
  rcases ho with rfl | rfl | rfl | rfl | rfl | rfl | rfl | rfl | rfl
  all_goals first | exact counts_none | exact hcounts _ (by simp [UsageWire.counters])

/-! ### The decoder -/

/-- An output item that is added.  A member that is absent or has another type
is empty. -/
structure ItemWire where
  type : String := ""
  id : String := ""
  name : String := ""
  callID : String := ""
  arguments : String := ""
deriving DecidableEq

/-- The response of a terminal event. -/
structure ResponseWire where
  id : String := ""
  model : String := ""
  /-- the usage, if the member is there; its text may be refused -/
  usage : Option (Decoded UsageWire) := none

/-- The two indexes of a part of an output item. -/
structure PartIndex where
  output : Int
  content : Int := 0
deriving DecidableEq

/-- A server-sent event, by its name. -/
inductive Frame where
  | error (x : Decoded ErrorWire)
  /-- `response.created` with the id and the model, which may be empty -/
  | created (x : Decoded (String × String))
  | inProgress
  /-- `response.output_item.added`: the index, `none` if there is none, and the item -/
  | itemAdded (index : Option Int) (item : Decoded ItemWire)
  /-- `response.content_part.added`: the indexes and the type of the part -/
  | partAdded (i : Decoded PartIndex) (type : Decoded String)
  | textDelta (i : Decoded PartIndex) (delta : Decoded String)
  | argumentsDelta (index : Decoded Int) (delta : Decoded String)
  /-- the ends of texts, arguments and parts -/
  | partDone
  | itemDone (index : Decoded Int)
  | usage (u : Decoded UsageWire)
  | completed (r : Decoded ResponseWire)
  /-- `response.incomplete` with its details: the reason, if it is a text -/
  | incomplete (r : Decoded ResponseWire) (reason : Decoded (Option String))
  /-- another name -/
  | unknown
  /-- data that is not one JSON value -/
  | refused (err : StreamFailure)
  /-- the reader fails instead -/
  | failed (err : StreamFailure)

/-- What the data of an event decodes to, by its name. -/
structure Payloads where
  error : Bytes → Decoded ErrorWire
  /-- the data is one JSON value -/
  object : Bytes → Decoded Unit
  created : Bytes → Decoded (String × String)
  itemIndex : Bytes → Option Int
  item : Bytes → Decoded ItemWire
  index : Bytes → Decoded Int
  partIndex : Bytes → Decoded PartIndex
  partType : Bytes → Decoded String
  delta : Bytes → Decoded String
  usage : Bytes → Decoded UsageWire
  response : Bytes → Decoded ResponseWire
  reason : Bytes → Decoded (Option String)

/-- What the decoder makes of an event. -/
def frameOf (w : Payloads) : SSEEvent → Frame := fun { event, data, .. } =>
  if event = ascii "error" then .error (w.error data)
  else match w.object data with
    | .error err => .refused err
    | .ok () =>
      if event = ascii "response.created" then .created (w.created data)
      else if event = ascii "response.in_progress" then .inProgress
      else if event = ascii "response.output_item.added" then
        .itemAdded (w.itemIndex data) (w.item data)
      else if event = ascii "response.content_part.added" then
        .partAdded (w.partIndex data) (w.partType data)
      else if event = ascii "response.output_text.delta" then
        .textDelta (w.partIndex data) (w.delta data)
      else if event = ascii "response.function_call_arguments.delta" then
        .argumentsDelta (w.index data) (w.delta data)
      else if event = ascii "response.output_text.done" ∨
          event = ascii "response.function_call_arguments.done" ∨
          event = ascii "response.content_part.done" then
        .partDone
      else if event = ascii "response.output_item.done" then .itemDone (w.index data)
      else if event = ascii "response.usage" then .usage (w.usage data)
      else if event = ascii "response.completed" then .completed (w.response data)
      else if event = ascii "response.incomplete" then
        .incomplete (w.response data) (w.reason data)
      else .unknown

/-- A usage may come after the terminal event. -/
def Frame.isUsage : Frame → Bool
  | .usage _ => true
  | _ => false

/-- `sseDecoder` without its queue. -/
structure Decoder where
  started : Bool := false
  ended : Bool := false
  id : String := ""
  model : String := ""
  /-- the indexes of messages, with their ids -/
  blocks : Table Int String := ∅
  /-- the indexes of function calls, with their ids -/
  tools : Table Int String := ∅
  closed : Finset Int := ∅
  usage : Option Usage := none

namespace Decoder

/-- The counters of a usage are `int64`. -/
def readUsage (u : Decoded UsageWire) : Decoded UsageWire := do
  let u ← u
  require (int64s u.counters) (unsupported "json")
  pure u

def error (d : Decoder) (x : Decoded ErrorWire) : Decoded (Decoder × List Event) := do
  let e ← x
  let e := { e with message := if e.message = "" then "Responses stream error" else e.message }
  pure ({ d with ended := true }, [.streamError e.toError])

def created (d : Decoder) (x : Decoded (String × String)) : Decoded (Decoder × List Event) := do
  require (!d.started) (unsupported "stream.response.created")
  let (id, model) ← x
  pure ({ d with started := true, id := id, model := model }, [.start id model])

/-- The event of arguments that come with a function call. -/
def firstArguments (i : Index) (arguments : String) : List Event :=
  if arguments = "" then [] else [.toolArgumentsDelta i arguments]

variable (d : Decoder)

def item (index : Int) (x : ItemWire) : Decoded (Decoder × List Event) :=
  match x.type with
  | "message" => do
    require (d.blocks.lookup index).isNone (unsupported "output_index")
    pure ({ d with blocks := d.blocks.insert index x.id },
      [.blockStart { block := index } .text x.id ""])
  | "function_call" => do
    require (d.tools.lookup index).isNone (unsupported "output_index")
    let call := if x.callID = "" then x.id else x.callID
    pure ({ d with tools := d.tools.insert index call },
      .toolCallStart { block := index } call x.name ::
        firstArguments { block := index } x.arguments)
  | _ => .error (unsupported "output_item.type")

def itemAdded (index : Option Int) (x : Decoded ItemWire) : Decoded (Decoder × List Event) := do
  require d.started (unsupported "stream.order")
  require (index.any (0 ≤ ·)) (unsupported "output_index")
  d.item (index.getD 0) (← x)

def partAdded (i : Decoded PartIndex) (type : Decoded String) : Decoded (Decoder × List Event) := do
  let i ← i
  require (decide (0 ≤ i.output) && decide (0 ≤ i.content)) (unsupported "content_index")
  let type ← type
  require (type == "output_text") (unsupported "content_part.type")
  pure (d, [])

def textDelta (d : Decoder) (i : Decoded PartIndex) (delta : Decoded String) :
    Decoded (Decoder × List Event) := do
  let i ← i
  require (decide (0 ≤ i.output) && decide (0 ≤ i.content)) (unsupported "output_index")
  require ((d.blocks.lookup i.output).isSome && decide (i.output ∉ d.closed))
    (unsupported "stream.text")
  let s ← delta
  pure (d, [.textDelta { block := i.output, tool := i.content } s])

def argumentsDelta (index : Decoded Int) (delta : Decoded String) :
    Decoded (Decoder × List Event) := do
  let index ← index
  require (0 ≤ index) (unsupported "output_index")
  require ((d.tools.lookup index).isSome && decide (index ∉ d.closed))
    (unsupported "stream.arguments")
  let s ← delta
  pure (d, [.toolArgumentsDelta { block := index } s])

def itemDone (index : Decoded Int) : Decoded (Decoder × List Event) := do
  let index ← index
  require (decide (0 ≤ index) && decide (index ∉ d.closed)) (unsupported "stream.block_end")
  require ((d.blocks.lookup index).isSome || (d.tools.lookup index).isSome)
    (unsupported "stream.block_end")
  pure ({ d with closed := insert index d.closed }, [.blockEnd { block := index }])

/-- A usage is kept and returned once. -/
def takeUsage (u : Decoded UsageWire) : Decoded (Decoder × List Event) := do
  let x ← decodeUsage (← readUsage u)
  pure (if d.usage.isNone then ({ d with usage := some x }, [.usage x]) else (d, []))

/-- The usage of a terminal event is read only if there was none before. -/
def lastUsage (u : Option (Decoded UsageWire)) : Decoded (Decoder × List Event) :=
  match u with
  | none => .ok (d, [])
  | some u => if d.usage.isNone then d.takeUsage u else .ok (d, [])

/-- The checks and the usage of a terminal event. -/
def terminal (r : Decoded ResponseWire) : Decoded (Decoder × List Event) := do
  require d.started (unsupported "stream.order")
  let r ← r
  require (r.id == "" || r.id == d.id) (unsupported "response.id")
  require (r.model == "" || r.model == d.model) (unsupported "response.model")
  d.lastUsage r.usage

/-- The reason of a response with or without function calls. -/
def stopReason : String := if d.tools.isEmpty then "stop" else "tool_calls"

def completed (d : Decoder) (r : Decoded ResponseWire) : Decoded (Decoder × List Event) := do
  let (d, usage) ← d.terminal r
  pure ({ d with ended := true },
    usage ++ [.finish { status := "completed", reason := d.stopReason }])

def incomplete (d : Decoder) (r : Decoded ResponseWire) (reason : Decoded (Option String)) :
    Decoded (Decoder × List Event) := do
  let (d, usage) ← d.terminal r
  let reason ← reason
  let reason := reason.elim d.stopReason fun r => if r = "max_output_tokens" then "length" else r
  pure ({ d with ended := true }, usage ++ [.finish { status := "incomplete", reason := reason }])

/-- `handle`, for an event that is not an error. -/
def event (d : Decoder) : Frame → Decoded (Decoder × List Event)
  | .created x => d.created x
  | .inProgress => do
    require d.started (unsupported "stream.order")
    pure (d, [])
  | .itemAdded index x => d.itemAdded index x
  | .partAdded i type => d.partAdded i type
  | .textDelta i delta => d.textDelta i delta
  | .argumentsDelta index delta => d.argumentsDelta index delta
  | .partDone => do
    require d.started (unsupported "stream.order")
    pure (d, [])
  | .itemDone index => d.itemDone index
  | .usage u => do
    require d.started (unsupported "stream.order")
    d.takeUsage u
  | .completed r => d.completed r
  | .incomplete r reason => d.incomplete r reason
  | _ => .error (unsupported "stream.event")

def feed (f : Frame) : Decoded (Decoder × List Event) :=
  match f with
  | .failed err => .error err
  | .refused err => .error err
  | .error x => d.error x
  | f => do
    require (!d.ended || f.isUsage) (unsupported "stream.after_terminal")
    d.event f

def close : Decoded (Decoder × List Event) := do
  require d.ended .unexpectedEOF
  pure (d, [])

end Decoder

/-- The decoder as a source of events: it reads to the end of its input. -/
def decoder : Feeder Decoder StreamFailure Frame Event :=
  ⟨Decoder.feed, fun _ => false, Decoder.close⟩

namespace Decoder

/-! ### What a frame yields -/

/-- The state after a frame, and the events it yields. -/
inductive Yields (d : Decoder) : Decoder → List Event → Prop
  | nothing : Yields d d []
  | error {err : GatewayError} : Yields d { d with ended := true } [.streamError err]
  | start {id model : String} :
    Yields d { d with started := true, id := id, model := model } [.start id model]
  | message {index : Int} {id : String} :
    Yields d { d with blocks := d.blocks.insert index id }
      [.blockStart { block := index } .text id ""]
  | call {index : Int} {id name arguments : String} :
    Yields d { d with tools := d.tools.insert index id }
      (.toolCallStart { block := index } id name :: firstArguments { block := index } arguments)
  | textDelta {index content : Int} {s : String} :
    Yields d d [.textDelta { block := index, tool := content } s]
  | arguments {index : Int} {s : String} : Yields d d [.toolArgumentsDelta { block := index } s]
  | itemDone {index : Int} :
    Yields d { d with closed := insert index d.closed } [.blockEnd { block := index }]
  | usage {u : Usage} (hu : Sound u) : Yields d { d with usage := some u } [.usage u]
  | finish {f : Finish} : Yields d { d with ended := true } [.finish f]
  | usageFinish {u : Usage} {f : Finish} (hu : Sound u) :
    Yields d { d with usage := some u, ended := true } [.usage u, .finish f]

variable {d d' : Decoder} {out : List Event} {r : Decoded ResponseWire} {f : Frame}

/-- What a usage yields: itself if it is the first. -/
theorem takeUsage_cases {u : Decoded UsageWire} (h : d.takeUsage u = .ok (d', out)) :
    d' = d ∧ out = [] ∨ ∃ x, Sound x ∧ d' = { d with usage := some x } ∧ out = [.usage x] := by
  simp only [takeUsage, readUsage, bind_ok, require_ok, pure_ok] at h
  obtain ⟨w, ⟨w', -, -, hw, rfl⟩, x, hx, heq⟩ := h
  split at heq
  case isTrue =>
    cases heq
    exact .inr ⟨x, decodeUsage_sound hw hx, rfl, rfl⟩
  case isFalse =>
    cases heq
    exact .inl ⟨rfl, rfl⟩

theorem terminal_cases (h : d.terminal r = .ok (d', out)) :
    d' = d ∧ out = [] ∨ ∃ x, Sound x ∧ d' = { d with usage := some x } ∧ out = [.usage x] := by
  simp only [terminal, bind_ok] at h
  obtain ⟨-, -, r, -, -, -, -, -, h⟩ := h
  unfold lastUsage at h
  split at h
  · cases h
    exact .inl ⟨rfl, rfl⟩
  split at h
  · exact takeUsage_cases h
  · cases h
    exact .inl ⟨rfl, rfl⟩

theorem yields_of_terminal {f : Finish} (h : d.terminal r = .ok (d', out)) :
    Yields d { d' with ended := true } (out ++ [.finish f]) := by
  obtain ⟨rfl, rfl⟩ | ⟨x, hx, rfl, rfl⟩ := terminal_cases h
  · exact .finish
  · exact .usageFinish hx

theorem yields_of_item {index : Option Int} {x : Decoded ItemWire}
    (h : d.itemAdded index x = .ok (d', out)) : Yields d d' out := by
  simp only [itemAdded, bind_ok] at h
  obtain ⟨-, -, -, -, x, -, h⟩ := h
  unfold item at h
  split at h
  pick_goal 3
  · cases h
  all_goals
    simp only [bind_ok, pure_ok] at h
    obtain ⟨-, -, heq⟩ := h
    cases heq
  · exact .message
  · exact .call

theorem yields_of_event (h : d.event f = .ok (d', out)) : Yields d d' out := by
  cases f with
  | created x =>
    simp only [event, created, bind_ok, pure_ok] at h
    obtain ⟨-, -, ⟨id, model⟩, -, heq⟩ := h
    cases heq
    exact .start
  | inProgress | partDone =>
    simp only [event, bind_ok, pure_ok] at h
    obtain ⟨-, -, heq⟩ := h
    cases heq
    exact .nothing
  | itemAdded index x => exact yields_of_item h
  | partAdded i type =>
    simp only [event, partAdded, bind_ok, pure_ok] at h
    obtain ⟨i, -, -, -, type, -, -, -, heq⟩ := h
    cases heq
    exact .nothing
  | textDelta i delta =>
    simp only [event, textDelta, bind_ok, pure_ok] at h
    obtain ⟨i, -, -, -, -, -, s, -, heq⟩ := h
    cases heq
    exact .textDelta
  | argumentsDelta index delta =>
    simp only [event, argumentsDelta, bind_ok, pure_ok] at h
    obtain ⟨i, -, -, -, -, -, s, -, heq⟩ := h
    cases heq
    exact .arguments
  | itemDone index =>
    simp only [event, itemDone, bind_ok, pure_ok] at h
    obtain ⟨i, -, -, -, -, -, heq⟩ := h
    cases heq
    exact .itemDone
  | usage u =>
    simp only [event, bind_ok] at h
    obtain ⟨-, -, h⟩ := h
    obtain ⟨rfl, rfl⟩ | ⟨x, hx, rfl, rfl⟩ := takeUsage_cases h
    · exact .nothing
    · exact .usage hx
  | completed r =>
    simp only [event, completed, bind_ok, pure_ok] at h
    obtain ⟨⟨d₁, out₁⟩, hterminal, heq⟩ := h
    cases heq
    exact yields_of_terminal hterminal
  | incomplete r reason =>
    simp only [event, incomplete, bind_ok, pure_ok] at h
    obtain ⟨⟨d₁, out₁⟩, hterminal, reason, -, heq⟩ := h
    cases heq
    exact yields_of_terminal hterminal
  | error x | unknown | refused err | failed err => cases h

theorem yields_of_feed (h : decoder.feed d f = .ok (d', out)) : Yields d d' out := by
  have h : d.feed f = .ok (d', out) := h
  unfold feed at h
  split at h
  · cases h
  · cases h
  · simp only [error, bind_ok, pure_ok] at h
    obtain ⟨e, -, heq⟩ := h
    cases heq
    exact .error
  · exact yields_of_event (bind_ok.1 h).choose_spec.2

end Decoder

end Hoorific.Protocol.Responses
