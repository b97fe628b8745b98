/-
The stream of the Messages protocol: its decoder, and the encoder for its
clients.  Blocks are known by their number; the decoder allows a number again
once its block has ended, and does not ask at the end of the message whether
all blocks have ended.  The encoder does.
-/
import Hoorific.Lib.Json
import Hoorific.Lib.Push
import Hoorific.Lib.Table
import Hoorific.Protocol.Framing

namespace Hoorific.Protocol.Anthropic

open Check Bytes Framing

def unsupported (path : String) : StreamFailure :=
  .gateway ⟨"unsupported_feature", 400, "Unsupported or invalid Anthropic field: " ++ path, path,
    "gateway"⟩

/-! ### Usage -/

structure CacheCreationWire where
  fiveMinute : Option Int := none
  oneHour : Option Int := none
deriving DecidableEq

structure OutputDetailsWire where
  thinking : Option Int := none
deriving DecidableEq

structure UsageWire where
  input : Option Int := none
  output : Option Int := none
  cachedInput : Option Int := none
  cacheWriteInput : Option Int := none
  cacheCreation : Option CacheCreationWire := none
  outputDetails : Option OutputDetailsWire := none
deriving DecidableEq

def CacheCreationWire.counters (c : CacheCreationWire) : List (Option Int) :=
  [c.fiveMinute, c.oneHour]

def OutputDetailsWire.counters (d : OutputDetailsWire) : List (Option Int) := [d.thinking]

def UsageWire.counters (u : UsageWire) : List (Option Int) :=
  [u.input, u.output, u.cachedInput, u.cacheWriteInput] ++
    (u.cacheCreation.elim [] CacheCreationWire.counters ++
      u.outputDetails.elim [] OutputDetailsWire.counters)

/-- A sum on `int64`, if it does not overflow. -/
def addUsage (a b : Int) : Option Int :=
  if b > 0 ∧ a > maxInt64 - b then none
  else if b < 0 ∧ a < -2 ^ 63 - b then none
  else some (a + b)

/-- The sum with a counter that may be unknown. -/
def addCount (n : Int) : Option Int → Decoded Int
  | none => .ok n
  | some k => (addUsage n k).elim (.error (unsupported "usage")) .ok

/-- The tokens written to the cache.  The aggregate counts if it is there. -/
def usageWriteCount (u : UsageWire) : Decoded (Option Int) := do
  require (nonneg [u.cacheWriteInput]) (unsupported "usage.cache_creation_input_tokens")
  match u.cacheCreation with
  | none => pure u.cacheWriteInput
  | some c => do
    require (nonneg c.counters) (unsupported "usage.cache_creation")
    match c.fiveMinute, c.oneHour with
    | some a, some b =>
      match addUsage a b with
      | none => .error (unsupported "usage.cache_creation")
      | some v => pure (u.cacheWriteInput.or (some v))
    | _, _ => pure u.cacheWriteInput

/-- The input with what was read from and written to the cache. -/
def inputTotal (u : UsageWire) (write : Option Int) : Decoded (Option Int) :=
  match u.input with
  | none => .ok none
  | some n => do
    let n ← addCount n u.cachedInput
    let n ← addCount n write
    pure (some n)

def grandTotal : Option Int → Option Int → Decoded (Option Int)
  | some input, some output => (addCount input (some output)).map some
  | _, _ => .ok none

def usageFromWire (u : UsageWire) : Decoded Usage := do
  require (nonneg ([u.input, u.output, u.cachedInput] ++
    u.outputDetails.elim [] OutputDetailsWire.counters)) (unsupported "usage")
  require (nonneg (u.cacheCreation.elim [] CacheCreationWire.counters))
    (unsupported "usage.cache_creation")
  let write ← usageWriteCount u
  let input ← inputTotal u write
  let total ← grandTotal input u.output
  pure
    { input := input, output := u.output, total := total, cachedInput := u.cachedInput
      cacheWriteInput := write, source := "anthropic"
      cacheWrite5mInput := u.cacheCreation.bind CacheCreationWire.fiveMinute
      cacheWrite1hInput := u.cacheCreation.bind CacheCreationWire.oneHour
      reasoningOutput := u.outputDetails.bind OutputDetailsWire.thinking }

def mergeCacheCreation (dst : Option CacheCreationWire) :
    Option CacheCreationWire → Option CacheCreationWire
  | none => dst
  | some c =>
    let d := dst.getD {}
    some ⟨c.fiveMinute.or d.fiveMinute, c.oneHour.or d.oneHour⟩

/-- What is known by `src` replaces what is known by `dst`. -/
def mergeUsageWire (dst src : UsageWire) : UsageWire :=
  { input := src.input.or dst.input
    output := src.output.or dst.output
    cachedInput := src.cachedInput.or dst.cachedInput
    cacheWriteInput := src.cacheWriteInput.or dst.cacheWriteInput
    cacheCreation := mergeCacheCreation dst.cacheCreation src.cacheCreation
    outputDetails :=
      match src.outputDetails.bind OutputDetailsWire.thinking with
      | some n => some ⟨some n⟩
      | none => dst.outputDetails }

/-- The input without a part of it. -/
def withoutPart (base : Int) (part : Int) : Int := if part > base then 0 else base - part

/-- The tokens written to the cache, from the parts if the aggregate is unknown. -/
def cacheWrite (u : Usage) : Decoded (Option Int) :=
  match u.cacheWriteInput with
  | some n => .ok (some n)
  | none => do
    let total ← addCount 0 u.cacheWrite5mInput
    let total ← addCount total u.cacheWrite1hInput
    pure (if u.cacheWrite5mInput.isSome || u.cacheWrite1hInput.isSome then some total else none)

/-- The input and the tokens written to the cache on the wire. -/
def inputToWire (u : Usage) : Decoded (Option Int × Option Int) :=
  match u.input with
  | none => .ok (none, u.cacheWriteInput)
  | some n => do
    let base := u.cachedInput.elim n (withoutPart n)
    let write ← cacheWrite u
    pure (some (write.elim base (withoutPart base)), write)

def usageToWire (u : Usage) : Decoded UsageWire := do
  require (nonneg [u.input, u.output, u.cachedInput, u.cacheWriteInput, u.cacheWrite5mInput,
    u.cacheWrite1hInput, u.reasoningOutput]) (unsupported "usage")
  let (input, write) ← inputToWire u
  pure
    { input := input, output := u.output, cachedInput := u.cachedInput, cacheWriteInput := write
      cacheCreation :=
        if u.cacheWrite5mInput.isSome || u.cacheWrite1hInput.isSome then
          some ⟨u.cacheWrite5mInput, u.cacheWrite1hInput⟩
        else none
      outputDetails := u.reasoningOutput.map fun n => ⟨some n⟩ }

/-! ### What a usage counts -/

theorem addUsage_counts {a b c : Int} (ha : 0 ≤ a ∧ a ≤ maxInt64) (hb : 0 ≤ b)
    (h : addUsage a b = some c) : 0 ≤ c ∧ c ≤ maxInt64 := by
  rw [addUsage] at h
  split at h
  · cases h
  split at h
  · cases h
  · cases h
    omega

theorem addCount_counts {n m : Int} {k : Option Int} (hn : 0 ≤ n ∧ n ≤ maxInt64) (hk : Counts k)
    (h : addCount n k = .ok m) : 0 ≤ m ∧ m ≤ maxInt64 := by
  rcases k with - | k
  · cases h
    exact hn
  obtain ⟨c, hadd, heq⟩ := elim_ok.1 h
  cases heq
  exact addUsage_counts hn (hk k rfl).1 hadd

variable {u : UsageWire} {input : Option Int}

/-- The tokens written to the cache are a counter; they are unknown only if a
part is. -/
theorem usageWriteCount_counts {write : Option Int} (hu : int64s u.counters = true)
    (h : usageWriteCount u = .ok write) :
    Counts write ∧ (write = none → u.cacheCreation.bind CacheCreationWire.fiveMinute = none ∨
      u.cacheCreation.bind CacheCreationWire.oneHour = none) := by
  simp only [usageWriteCount, bind_ok, require_ok] at h
  obtain ⟨-, haggregate, h⟩ := h
  have hwrite : Counts u.cacheWriteInput :=
    counts_of_nonneg hu (by simp [UsageWire.counters]) haggregate List.mem_cons_self
  rcases hc : u.cacheCreation with - | c <;> rw [hc] at h
  · cases h
    exact ⟨hwrite, fun _ => .inl rfl⟩
  simp only [bind_ok, require_ok] at h
  obtain ⟨-, hparts, h⟩ := h
  have hcount : ∀ o ∈ c.counters, Counts o := fun o ho =>
    counts_of_nonneg hu (by simp [UsageWire.counters, hc, ho]) hparts ho
  rcases hfive : c.fiveMinute with - | a
  · rw [hfive] at h
    cases h
    exact ⟨hwrite, fun _ => .inl hfive⟩
  rcases hhour : c.oneHour with - | b
  · rw [hfive, hhour] at h
    cases h
    exact ⟨hwrite, fun _ => .inr hhour⟩
  -- both parts are known, so their sum is
  have ha := hcount (some a) (by simp [CacheCreationWire.counters, hfive]) a rfl
  have hb := hcount (some b) (by simp [CacheCreationWire.counters, hhour]) b rfl
  rw [hfive, hhour] at h
  simp only at h
  rcases hsum : addUsage a b with - | v <;> rw [hsum] at h
  · cases h
  cases h
  have hv : Counts (some v) := fun n hn => by
    cases hn
    exact addUsage_counts ha hb.1 hsum
  refine ⟨counts_or hwrite hv, fun hnone => ?_⟩
  rw [Option.or_eq_none_iff] at hnone
  cases hnone.2

theorem inputTotal_counts {write : Option Int} (hinput : Counts u.input)
    (hcached : Counts u.cachedInput) (hwrite : Counts write) (h : inputTotal u write = .ok input) :
    Counts input := by
  rcases hu : u.input with - | n
  · rw [inputTotal, hu] at h
    cases h
    exact counts_none
  simp only [inputTotal, hu, bind_ok, pure_ok] at h
  obtain ⟨n₁, h₁, n₂, h₂, rfl⟩ := h
  intro m hm
  cases hm
  exact addCount_counts (addCount_counts (hinput n hu) hcached h₁) hwrite h₂

theorem grandTotal_counts {output total : Option Int} (hinput : Counts input)
    (houtput : Counts output) (h : grandTotal input output = .ok total) : Counts total := by
  rcases input with - | i
  · cases h
    exact counts_none
  rcases output with - | o
  · cases h
    exact counts_none
  rw [grandTotal] at h
  rcases hsum : addCount i (some o) with e | t <;> rw [hsum] at h
  · cases h
  cases h
  intro n hn
  cases hn
  exact addCount_counts (hinput i rfl) houtput hsum

theorem usageFromWire_sound {w : UsageWire} {u : Usage} (hw : int64s w.counters = true)
    (h : usageFromWire w = .ok u) : Sound u := by
  simp only [usageFromWire, bind_ok, require_ok, pure_ok] at h
  obtain ⟨-, hnonneg, -, hparts, write, hwrite, input, hinput, total, htotal, rfl⟩ := h
  obtain ⟨hcwrite, hunknown⟩ := usageWriteCount_counts hw hwrite
  have hmain : ∀ o ∈ [w.input, w.output, w.cachedInput], Counts o := fun o ho =>
    counts_of_nonneg hw (by simp [UsageWire.counters] at ho ⊢; tauto) hnonneg
      (List.mem_append_left _ ho)
  have hcinput := inputTotal_counts (hmain _ (by simp)) (hmain _ (by simp)) hcwrite hinput
  refine ⟨?_, hunknown⟩
  intro o ho
  simp only [Usage.counters, List.mem_cons, List.not_mem_nil, or_false] at ho
  rcases ho with rfl | rfl | rfl | rfl | rfl | rfl | rfl | rfl | rfl
  · exact hcinput
  · exact hmain _ (by simp)
  · exact grandTotal_counts hcinput (hmain _ (by simp)) htotal
  · exact hmain _ (by simp)
  · exact hcwrite
  iterate 2
    · rcases hc : w.cacheCreation with - | c
      · exact counts_none
      · exact counts_of_nonneg hw (by simp [UsageWire.counters, hc, CacheCreationWire.counters])
          hparts (by simp [hc, CacheCreationWire.counters])
  · rcases hd : w.outputDetails with - | d
    · exact counts_none
    · exact counts_of_nonneg hw (by simp [UsageWire.counters, hd, OutputDetailsWire.counters])
        hnonneg (by simp [hd, OutputDetailsWire.counters])
  · exact counts_none

theorem all_or {p : Int → Bool} {a b : Option Int} (ha : a.all p = true) (hb : b.all p = true) :
    (a.or b).all p = true := by
  rcases a with - | a
  · exact hb
  · exact ha

theorem int64s_mergeUsageWire {dst src : UsageWire} (hdst : int64s dst.counters = true)
    (hsrc : int64s src.counters = true) : int64s (mergeUsageWire dst src).counters = true := by
  obtain ⟨_, _, _, _, creation, details⟩ := dst
  obtain ⟨_, _, _, _, creation', details'⟩ := src
  simp only [int64s, UsageWire.counters, List.all_append, List.all_cons, List.all_nil,
    Bool.and_eq_true, and_true] at *
  obtain ⟨⟨hinput, houtput, hcached, hwrite⟩, hcreation, hdetails⟩ := hdst
  obtain ⟨⟨hinput', houtput', hcached', hwrite'⟩, hcreation', hdetails'⟩ := hsrc
  refine ⟨⟨all_or hinput' hinput, all_or houtput' houtput, all_or hcached' hcached,
    all_or hwrite' hwrite⟩, ?_, ?_⟩
  · rcases creation' with - | c
    · exact hcreation
    · rcases creation with - | d
      · simpa [mergeUsageWire, mergeCacheCreation] using hcreation'
      · simp only [Option.elim_some, CacheCreationWire.counters, List.all_cons, List.all_nil,
          Bool.and_eq_true, and_true] at hcreation hcreation'
        simp [mergeUsageWire, mergeCacheCreation, CacheCreationWire.counters,
          all_or hcreation'.1 hcreation.1, all_or hcreation'.2 hcreation.2]
  · rcases details' with - | ⟨- | n⟩
    · exact hdetails
    · exact hdetails
    · exact hdetails'

/-! ### Stop reasons -/

/-- The reason and the status of a stop reason. -/
def reasonFromWire (reason : String) : Decoded (String × String) :=
  match reason with
  | "end_turn" => .ok ("stop", "completed")
  | "stop_sequence" => .ok ("stop_sequence", "completed")
  | "tool_use" => .ok ("tool_calls", "completed")
  | "max_tokens" => .ok ("length", "incomplete")
  | "pause_turn" => .ok ("pause_turn", "completed")
  | "refusal" => .ok ("refusal", "completed")
  | "model_context_window_exceeded" => .ok ("context_length_exceeded", "incomplete")
  | _ => .error (unsupported "stop_reason")

/-- The stop reason of a reason, and the status that goes with it. -/
def reasonToWire (reason : String) : Decoded (String × String) :=
  match reason with
  | "stop" => .ok ("end_turn", "completed")
  | "stop_sequence" => .ok ("stop_sequence", "completed")
  | "tool_calls" => .ok ("tool_use", "completed")
  | "length" => .ok ("max_tokens", "incomplete")
  | "pause_turn" => .ok ("pause_turn", "completed")
  | "refusal" => .ok ("refusal", "completed")
  | "context_length_exceeded" => .ok ("model_context_window_exceeded", "incomplete")
  | _ => .error (unsupported "finish.reason")

/-! ### The decoder -/

structure MessageStart where
  type : String := ""
  id : String := ""
  model : String := ""
  usage : Option UsageWire := none
deriving DecidableEq

structure BlockStartWire where
  index : Int := 0
  type : String := ""
  id : String := ""
  name : String := ""
deriving DecidableEq

structure DeltaWire where
  type : String := ""
  text : String := ""
  partialJSON : String := ""
deriving DecidableEq

structure MessageDelta where
  stopReason : Option String := none
  stopSequence : Option String := none
  usage : Option UsageWire := none
deriving DecidableEq

/-- A server-sent event, by its name. -/
inductive Frame where
  | messageStart (x : Decoded MessageStart)
  | contentBlockStart (x : Decoded BlockStartWire)
  | contentBlockDelta (index : Decoded Int) (delta : Decoded DeltaWire)
  | contentBlockStop (index : Decoded Int)
  | messageDelta (x : Decoded MessageDelta)
  | messageStop
  /-- an error, with the type of its event -/
  | error (x : Decoded (String × ErrorWire))
  /-- another name, or no name -/
  | unknown
  /-- no data -/
  | empty
  /-- the reader fails instead -/
  | failed (err : StreamFailure)

/-- What the data of an event decodes to, by its name. -/
structure Payloads where
  messageStart : Bytes → Decoded MessageStart
  contentBlockStart : Bytes → Decoded BlockStartWire
  /-- the index of a delta or a stop -/
  index : Bytes → Decoded Int
  delta : Bytes → Decoded DeltaWire
  messageDelta : Bytes → Decoded MessageDelta
  error : Bytes → Decoded (String × ErrorWire)

/-- What the decoder makes of an event. -/
def frameOf (w : Payloads) : SSEEvent → Frame := fun { event, data, .. } =>
  if event = [] then .unknown
  else if data = [] then .empty
  else if event = ascii "message_start" then .messageStart (w.messageStart data)
  else if event = ascii "content_block_start" then .contentBlockStart (w.contentBlockStart data)
  else if event = ascii "content_block_delta" then
    .contentBlockDelta (w.index data) (w.delta data)
  else if event = ascii "content_block_stop" then .contentBlockStop (w.index data)
  else if event = ascii "message_delta" then .messageDelta (w.messageDelta data)
  else if event = ascii "message_stop" then .messageStop
  else if event = ascii "error" then .error (w.error data)
  else .unknown

/-- `streamDecoder` without its queue. -/
structure Decoder where
  started : Bool := false
  terminal : Bool := false
  finished : Bool := false
  /-- the open blocks -/
  blocks : Table Int BlockKind := ∅
  usage : UsageWire := {}

namespace Decoder

variable (d : Decoder)

def merge : Option UsageWire → Decoder
  | none => d
  | some u => { d with usage := mergeUsageWire d.usage u }

/-- The counters of a usage are `int64`. -/
def readUsage (u : Option UsageWire) : Decoded Unit :=
  require (int64s (u.elim [] UsageWire.counters)) (unsupported "json.fields")

def messageStart (x : Decoded MessageStart) : Decoded (Decoder × List Event) := do
  require (!d.started) (unsupported "message_start")
  let x ← x
  readUsage x.usage
  require (x.type == "message_start" && x.id != "" && x.model != "") (unsupported "message_start")
  pure (({ d with started := true } : Decoder).merge x.usage, [.start x.id x.model])

def blockKind (type : String) : Decoded BlockKind :=
  match type with
  | "text" => .ok .text
  | "thinking" => .ok .reasoning
  | "tool_use" => .ok .toolCall
  | _ => .error (unsupported "content_block.type")

/-- The event of a block that starts. -/
def startEvent (x : BlockStartWire) (kind : BlockKind) : Decoded Event :=
  if kind = .toolCall then do
    require (x.id != "" && x.name != "") (unsupported "content_block")
    pure (.toolCallStart { block := x.index } x.id x.name)
  else .ok (.blockStart { block := x.index } kind x.id x.name)

def contentBlockStart (x : Decoded BlockStartWire) : Decoded (Decoder × List Event) := do
  require (d.started && !d.finished) (unsupported "content_block_start")
  let x ← x
  require (0 ≤ x.index) (unsupported "index")
  let kind ← blockKind x.type
  require (d.blocks.lookup x.index).isNone (unsupported "index")
  let e ← startEvent x kind
  pure ({ d with blocks := d.blocks.insert x.index kind }, [e])

/-- The event of a delta of a block. -/
def deltaEvent (index : Int) (kind : BlockKind) (delta : DeltaWire) : Decoded Event :=
  match delta.type with
  | "text_delta" => do
    require (kind == .text || kind == .reasoning) (unsupported "delta.type")
    pure (.textDelta { block := index } delta.text)
  | "input_json_delta" => do
    require (kind == .toolCall) (unsupported "delta.type")
    pure (.toolArgumentsDelta { block := index } delta.partialJSON)
  | _ => .error (unsupported "delta.type")

/-- The kind of an open block. -/
def openBlock (index : Int) : Decoded BlockKind :=
  (d.blocks.lookup index).elim (.error (unsupported "index")) .ok

def contentBlockDelta (index : Decoded Int) (delta : Decoded DeltaWire) :
    Decoded (Decoder × List Event) := do
  require (d.started && !d.finished) (unsupported "content_block_delta")
  let index ← index
  let kind ← d.openBlock index
  let delta ← delta
  let e ← deltaEvent index kind delta
  pure (d, [e])

def contentBlockStop (index : Decoded Int) : Decoded (Decoder × List Event) := do
  require (d.started && !d.finished) (unsupported "content_block_stop")
  let index ← index
  let _ ← d.openBlock index
  pure ({ d with blocks := d.blocks.erase index }, [.blockEnd { block := index }])

/-- The finish of a message delta, if it has a stop reason. -/
def stopReason (d : Decoder) (x : MessageDelta) : Decoded (Decoder × List Event) :=
  match x.stopReason with
  | none => .ok (d, [])
  | some r => do
    require (!d.finished) (unsupported "finish")
    let (reason, status) ← reasonFromWire r
    require (x.stopSequence.isNone || reason == "stop_sequence") (unsupported "stop_sequence")
    pure ({ d with finished := true }, [.finish { status := status, reason := reason }])

/-- The usage of a message delta. -/
def deltaUsage (u : Option UsageWire) : Decoded (Decoder × List Event) :=
  match u with
  | none => .ok (d, [])
  | some u => do
    let d := { d with usage := mergeUsageWire d.usage u }
    let v ← usageFromWire d.usage
    pure (d, [.usage v])

/-- The usage comes before the finish of the same delta. -/
def messageDelta (x : Decoded MessageDelta) : Decoded (Decoder × List Event) := do
  require d.started (unsupported "message_delta")
  let x ← x
  readUsage x.usage
  let (d, fin) ← d.stopReason x
  let (d, usage) ← d.deltaUsage x.usage
  require (!(usage ++ fin).isEmpty) (unsupported "message_delta")
  pure (d, usage ++ fin)

def messageStop : Decoded (Decoder × List Event) := do
  require d.started (unsupported "message_stop")
  require d.finished .unexpectedEOF
  pure ({ d with terminal := true }, [])

def error (d : Decoder) (x : Decoded (String × ErrorWire)) : Decoded (Decoder × List Event) := do
  let (type, err) ← x
  require (type == "error") (unsupported "error.type")
  pure ({ d with terminal := true }, [.streamError err.toError])

def feed : Frame → Decoded (Decoder × List Event)
  | .messageStart x => d.messageStart x
  | .contentBlockStart x => d.contentBlockStart x
  | .contentBlockDelta index delta => d.contentBlockDelta index delta
  | .contentBlockStop index => d.contentBlockStop index
  | .messageDelta x => d.messageDelta x
  | .messageStop => d.messageStop
  | .error x => d.error x
  | .unknown => .error (unsupported "sse.event")
  | .empty => .error (unsupported "sse.data")
  | .failed err => .error err

/-- The end of the input before the end of the message. -/
def close (_ : Decoder) : Decoded (Decoder × List Event) := .error .unexpectedEOF

end Decoder

/-- The decoder as a source of events. -/
def decoder : Feeder Decoder StreamFailure Frame Event :=
  ⟨Decoder.feed, Decoder.terminal, Decoder.close⟩

namespace Decoder

/-! ### What a frame yields -/

/-- The state after a frame, and the events it yields. -/
inductive Yields (d : Decoder) : Decoder → List Event → Prop
  | start {id model : String} {usage : Option UsageWire}
      (husage : int64s (usage.elim [] UsageWire.counters) = true) :
    Yields d (({ d with started := true } : Decoder).merge usage) [.start id model]
  | blockStart {index : Int} {kind : BlockKind} {id name : String}
      (hkind : kind = .text ∨ kind = .reasoning) :
    Yields d { d with blocks := d.blocks.insert index kind }
      [.blockStart { block := index } kind id name]
  | toolCallStart {index : Int} {id name : String} :
    Yields d { d with blocks := d.blocks.insert index .toolCall }
      [.toolCallStart { block := index } id name]
  | textDelta {index : Int} {s : String} : Yields d d [.textDelta { block := index } s]
  | arguments {index : Int} {s : String} : Yields d d [.toolArgumentsDelta { block := index } s]
  | blockEnd {index : Int} :
    Yields d { d with blocks := d.blocks.erase index } [.blockEnd { block := index }]
  | usage {w : UsageWire} {u : Usage} (hw : int64s w.counters = true)
      (hu : usageFromWire (mergeUsageWire d.usage w) = .ok u) :
    Yields d { d with usage := mergeUsageWire d.usage w } [.usage u]
  | finish {reason status : String} :
    Yields d { d with finished := true } [.finish { status := status, reason := reason }]
  | usageFinish {w : UsageWire} {u : Usage} {reason status : String}
      (hw : int64s w.counters = true) (hu : usageFromWire (mergeUsageWire d.usage w) = .ok u) :
    Yields d { d with finished := true, usage := mergeUsageWire d.usage w }
      [.usage u, .finish { status := status, reason := reason }]
  | messageStop (hf : d.finished = true) : Yields d { d with terminal := true } []
  | error {err : ErrorWire} : Yields d { d with terminal := true } [.streamError err.toError]

variable {d d' : Decoder} {out : List Event}

theorem yields_of_start {x : Decoded BlockStartWire} (h : d.contentBlockStart x = .ok (d', out)) :
    Yields d d' out := by
  simp only [contentBlockStart, bind_ok, pure_ok] at h
  obtain ⟨-, -, x, -, -, -, kind, hkind, -, -, e, he, heq⟩ := h
  cases heq
  rw [startEvent] at he
  split at he
  case isTrue htool =>
    subst htool
    simp only [bind_ok, pure_ok] at he
    obtain ⟨-, -, rfl⟩ := he
    exact .toolCallStart
  case isFalse htool =>
    cases he
    refine .blockStart ?_
    unfold blockKind at hkind
    split at hkind
    · cases hkind
      exact .inl rfl
    · cases hkind
      exact .inr rfl
    · cases hkind
      exact absurd rfl htool
    · cases hkind

theorem yields_of_delta {index : Decoded Int} {delta : Decoded DeltaWire}
    (h : d.contentBlockDelta index delta = .ok (d', out)) : Yields d d' out := by
  simp only [contentBlockDelta, bind_ok, pure_ok] at h
  obtain ⟨-, -, i, -, kind, -, delta, -, e, he, heq⟩ := h
  cases heq
  rw [deltaEvent] at he
  split at he
  · simp only [bind_ok, pure_ok] at he
    obtain ⟨-, -, rfl⟩ := he
    exact .textDelta
  · simp only [bind_ok, pure_ok] at he
    obtain ⟨-, -, rfl⟩ := he
    exact .arguments
  · cases he

theorem yields_of_messageDelta {x : Decoded MessageDelta} (h : d.messageDelta x = .ok (d', out)) :
    Yields d d' out := by
  simp only [messageDelta, readUsage, bind_ok, require_ok, pure_ok] at h
  obtain ⟨-, -, x, -, -, hw, ⟨d₁, fin⟩, hfin, ⟨d₂, usage⟩, husage, -, hne, heq⟩ := h
  cases heq
  rcases hr : x.stopReason with - | r
  · rw [stopReason, hr] at hfin
    cases hfin
    rcases hu : x.usage with - | w
    · rw [hu] at husage
      cases husage
      cases hne
    simp only [deltaUsage, hu, bind_ok, pure_ok] at husage
    obtain ⟨u, hu', heq⟩ := husage
    cases heq
    rw [hu] at hw
    exact .usage hw hu'
  · simp only [stopReason, hr, bind_ok, pure_ok] at hfin
    obtain ⟨-, -, ⟨reason, status⟩, -, -, -, heq⟩ := hfin
    cases heq
    rcases hu : x.usage with - | w
    · rw [hu] at husage
      cases husage
      exact .finish
    simp only [deltaUsage, hu, bind_ok, pure_ok] at husage
    obtain ⟨u, hu', heq⟩ := husage
    cases heq
    rw [hu] at hw
    exact .usageFinish hw hu'

theorem yields_of_feed {f : Frame} (h : decoder.feed d f = .ok (d', out)) : Yields d d' out := by
  have h : d.feed f = .ok (d', out) := h
  cases f with
  | messageStart x =>
    simp only [feed, messageStart, readUsage, bind_ok, require_ok, pure_ok] at h
    obtain ⟨-, -, x, -, -, hw, -, -, heq⟩ := h
    cases heq
    exact .start hw
  | contentBlockStart x => exact yields_of_start h
  | contentBlockDelta index delta => exact yields_of_delta h
  | contentBlockStop index =>
    simp only [feed, contentBlockStop, bind_ok, pure_ok] at h
    obtain ⟨-, -, i, -, kind, -, heq⟩ := h
    cases heq
    exact .blockEnd
  | messageDelta x => exact yields_of_messageDelta h
  | messageStop =>
    simp only [feed, messageStop, bind_ok, require_ok, pure_ok] at h
    obtain ⟨-, -, -, hf, heq⟩ := h
    cases heq
    exact .messageStop hf
  | error x =>
    simp only [feed, error, bind_ok, require_ok, pure_ok] at h
    obtain ⟨⟨type, err⟩, -, -, -, heq⟩ := h
    cases heq
    exact .error
  | unknown | empty | failed err => cases h

end Decoder

/-! ### The encoder -/

/-- An event of a stream as it is written: its name, and its data. -/
structure OutFrame where
  name : String
  data : Json

/-- A member that is left out if it is unknown. -/
def counter (name : String) (n : Option Int) : List (String × Json) :=
  (n.map fun n => (name, Json.int n)).toList

/-- A counter that is written as `null` if it is unknown. -/
def nullable (n : Option Int) : Json := n.elim .null .int

def usageJson (u : UsageWire) : Json :=
  .obj ([("input_tokens", nullable u.input), ("output_tokens", nullable u.output)] ++
    (counter "cache_read_input_tokens" u.cachedInput ++
      (counter "cache_creation_input_tokens" u.cacheWriteInput ++
        ((u.cacheCreation.map fun c => ("cache_creation", Json.obj
            [("ephemeral_5m_input_tokens", nullable c.fiveMinute),
              ("ephemeral_1h_input_tokens", nullable c.oneHour)])).toList ++
          (u.outputDetails.map fun d => ("output_tokens_details", Json.obj
            [("thinking_tokens", nullable d.thinking)])).toList))))

/-- A text that is left out if it is empty. -/
def text (name s : String) : List (String × Json) := if s = "" then [] else [(name, .str s)]

structure Encoder where
  started : Bool := false
  finished : Bool := false
  terminal : Bool := false
  blocks : Table Int BlockKind := ∅
  usage : UsageWire := {}

namespace Encoder

def zeroUsage : UsageWire := { input := some 0, output := some 0 }

def start (e : Encoder) (id model : String) : Decoded (Encoder × List OutFrame) := do
  require (!e.started) (unsupported "start")
  pure ({ e with started := true, usage := zeroUsage },
    [⟨"message_start", .obj [("type", .str "message_start"), ("message", .obj
      [("id", .str id), ("type", .str "message"), ("role", .str "assistant"),
        ("model", .str model), ("content", .arr []), ("stop_reason", .null),
        ("stop_sequence", .null), ("usage", usageJson zeroUsage)])]⟩])

/-- The event of a block that starts. -/
def startFrame (index : Int) (block : List (String × Json)) : OutFrame :=
  ⟨"content_block_start", .obj [("type", .str "content_block_start"), ("index", .int index),
    ("content_block", .obj block)]⟩

def textBlock (id name : String) : List (String × Json) :=
  [("type", .str "text"), ("text", .str "")] ++ (text "id" id ++ text "name" name)

def toolBlock (id name : String) : List (String × Json) :=
  [("type", .str "tool_use")] ++ (text "id" id ++ (text "name" name ++ [("input", .obj [])]))

/-- The block of a kind that can be written. -/
def block (kind : BlockKind) (id name : String) : Decoded (List (String × Json)) :=
  match kind with
  | .text => .ok (textBlock id name)
  | .toolCall => .ok (toolBlock id name)
  | _ => .error (unsupported "block.kind")

variable (e : Encoder)

def blockStart (i : Index) (kind : BlockKind) (id name : String) :
    Decoded (Encoder × List OutFrame) := do
  require (e.started && !e.finished) (unsupported "block_start")
  require (0 ≤ i.block) (unsupported "index")
  require (e.blocks.lookup i.block).isNone (unsupported "index")
  let b ← block kind id name
  pure ({ e with blocks := e.blocks.insert i.block kind }, [startFrame i.block b])

def toolCallStart (i : Index) (id name : String) : Decoded (Encoder × List OutFrame) := do
  require (e.started && !e.finished) (unsupported "tool_call_start")
  require (e.blocks.lookup i.block).isNone (unsupported "index")
  pure ({ e with blocks := e.blocks.insert i.block .toolCall },
    [startFrame i.block (toolBlock id name)])

/-- A delta of an open block of a kind. -/
def delta (e : Encoder) (kind : BlockKind) (param : String) (i : Index)
    (value : List (String × Json)) : Decoded (Encoder × List OutFrame) := do
  require (e.blocks.lookup i.block == some kind) (unsupported param)
  pure (e, [⟨"content_block_delta", .obj [("type", .str "content_block_delta"),
    ("index", .int i.block), ("delta", .obj value)]⟩])

def textDelta (i : Index) (s : String) : Decoded (Encoder × List OutFrame) :=
  e.delta .text "text_delta" i [("type", .str "text_delta"), ("text", .str s)]

def toolArgumentsDelta (i : Index) (s : String) : Decoded (Encoder × List OutFrame) :=
  e.delta .toolCall "input_json_delta" i
    [("type", .str "input_json_delta"), ("partial_json", .str s)]

def blockEnd (i : Index) : Decoded (Encoder × List OutFrame) := do
  require (e.blocks.lookup i.block).isSome (unsupported "block_end")
  pure ({ e with blocks := e.blocks.erase i.block },
    [⟨"content_block_stop", .obj [("type", .str "content_block_stop"), ("index", .int i.block)]⟩])

/-- A delta of the message; every one carries the usage so far. -/
def messageDelta (value : List (String × Json)) : OutFrame :=
  ⟨"message_delta", .obj [("type", .str "message_delta"), ("delta", .obj value),
    ("usage", usageJson e.usage)]⟩

def usageEvent (u : Usage) : Decoded (Encoder × List OutFrame) := do
  let wire ← usageToWire u
  let e := { e with usage := mergeUsageWire e.usage wire }
  pure (e, [e.messageDelta []])

def finish (e : Encoder) (f : Finish) : Decoded (Encoder × List OutFrame) := do
  require (e.started && !e.finished) (unsupported "finish")
  require e.blocks.isEmpty (unsupported "finish.open_blocks")
  let (wire, status) ← reasonToWire (if f.reason = "" then "stop" else f.reason)
  require (f.status == "" || f.status == status) (unsupported "finish.status")
  pure ({ e with finished := true, terminal := true },
    [e.messageDelta [("stop_reason", .str wire)],
      ⟨"message_stop", .obj [("type", .str "message_stop")]⟩])

def streamError (err : GatewayError) : Decoded (Encoder × List OutFrame) :=
  .ok ({ e with terminal := true }, [⟨"error", .obj [("type", .str "error"), ("error", .obj
    ([("code", .str err.code), ("message", .str err.message)] ++ text "param" err.param))]⟩])

/-- `Write`, by the kind of the event. -/
def event : Event → Decoded (Encoder × List OutFrame)
  | .start id model => e.start id model
  | .blockStart i kind id name => e.blockStart i kind id name
  | .toolCallStart i id name => e.toolCallStart i id name
  | .textDelta i s => e.textDelta i s
  | .toolArgumentsDelta i s => e.toolArgumentsDelta i s
  | .blockEnd i => e.blockEnd i
  | .usage u => e.usageEvent u
  | .finish f => e.finish f
  | .streamError err => e.streamError err

def write (v : Event) : Decoded (Encoder × List OutFrame) := do
  require (!e.terminal) (unsupported "stream.terminal")
  e.event v

end Encoder

end Hoorific.Protocol.Anthropic
