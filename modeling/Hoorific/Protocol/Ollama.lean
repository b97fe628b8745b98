/-
The stream decoder of the Ollama chat protocol.  A record of the stream can
stand for many events: they are put in a queue, and a call of `Next` takes
one event from it.  But a call takes an event only after it has read a
record, and after the terminal record it reports the end of the stream
without looking at the queue.  So a stream of `n` records that yield events
returns the first `n` of its events and loses the others: the finish is
always among them (`returned_eq_take`).
-/
import Hoorific.Lib.Check
import Hoorific.Protocol.Events

namespace Hoorific.Protocol.Ollama

open List Check

/-! ### The wire -/

structure CallWire where
  name : String
  /-- the text of the arguments as it was received -/
  arguments : String
deriving DecidableEq

structure MessageWire where
  role : String := ""
  content : String := ""
  /-- `none` is an image that is not base64 -/
  images : List (Option Bytes) := []
  toolCalls : List CallWire := []
  toolName : String := ""
deriving DecidableEq

/-- A record of a stream.  `none` is an absent member. -/
structure ResponseWire where
  model : String := ""
  message : Option MessageWire := none
  done : Option Bool := none
  doneReason : String := ""
  promptEvalCount : Option Int := none
  evalCount : Option Int := none
  error : Option String := none
deriving DecidableEq

/-- A line of a stream. -/
inductive Line where
  | record (v : ResponseWire)
  /-- a line that is not JSON, or has members or types that are not allowed -/
  | refused (err : StreamFailure)
  /-- the reader fails -/
  | failed (message : String)
deriving DecidableEq

def unsupported (field : String) : StreamFailure :=
  .gateway ⟨"unsupported_feature", 400, "Ollama cannot represent this feature", field, "gateway"⟩

def invalid (field : String) : StreamFailure :=
  .gateway ⟨"invalid_request", 400, "Invalid Ollama chat payload", field, "gateway"⟩

def providerError : GatewayError :=
  ⟨"provider_error", 502, "Ollama returned an error", "", "ollama"⟩

/-- `*v.PromptEvalCount + *v.EvalCount` on `int64`. -/
def addInt64 (a b : Int) : Int := (a + b).bmod (2 ^ 64)

section Records

variable (json : String → JsonKind)

def jsonObject (raw field : String) : Except StreamFailure Unit :=
  match json raw with
  | .object => .ok ()
  | .null => .error (invalid field)
  | .refused => .error (invalid "json")

def validateCall (c : CallWire) : Except StreamFailure Unit := do
  require (c.name != "") (invalid "tool_call.name")
  jsonObject json c.arguments "tool_call.arguments"

variable (v : ResponseWire)

def validateResponse : Except StreamFailure Unit :=
  match v.message with
  | some m => m.toolCalls.forM (validateCall json)
  | none => require v.error.isSome (invalid "message")

def normalizeReason (reason : String) : Except StreamFailure String :=
  if reason = "" then .ok "stop"
  else if reason ∈ ["stop", "length", "tool_calls", "content_filter", "error", "stop_sequence"] then
    .ok reason
  else .error (unsupported "done_reason")

/-- The message of a record: empty if it is absent. -/
def ResponseWire.theMessage : MessageWire := v.message.getD {}

/-- A call of a record once more, before it becomes a block or events. -/
def checkCall (calls arguments : String) (c : CallWire) : Except StreamFailure CallWire := do
  require (c.name != "" && c.arguments != "") (invalid calls)
  jsonObject json c.arguments arguments
  pure c

/-- The text of a terminal record as a block. -/
def textBlocks (m : MessageWire) : List ContentBlock :=
  if m.content = "" then []
  else [{ kind := if m.role = "tool" then .toolResult else .text, text := m.content,
          name := m.toolName }]

def imageBlock (image : Option Bytes) : Except StreamFailure ContentBlock :=
  match image with
  | none => .error (invalid "message.images")
  | some data => .ok { kind := .image, data := data, mimeType := "image/*" }

/-- The token counts of a record. -/
def usageOf : Option Usage :=
  if v.promptEvalCount.isNone && v.evalCount.isNone then none
  else some
    { input := v.promptEvalCount, output := v.evalCount, source := "provider"
      total := v.promptEvalCount.bind fun a => v.evalCount.map fun b => addInt64 a b }

def responseResult : Except StreamFailure GenerationResult := do
  require (v.error.getD "" == "") (.gateway providerError)
  require (v.done.getD false) (invalid "done")
  require (v.promptEvalCount.all (0 ≤ ·) && v.evalCount.all (0 ≤ ·)) (invalid "usage")
  let calls ← v.theMessage.toolCalls.mapM
    (checkCall json "message.tool_calls" "message.tool_calls.arguments")
  let images ← v.theMessage.images.mapM imageBlock
  let reason ← normalizeReason v.doneReason
  pure
    { model := v.model
      blocks := textBlocks v.theMessage ++
        calls.map (fun c => { kind := .toolCall, name := c.name, arguments := c.arguments }) ++
        images
      finish := { status := "completed", reason := reason }
      usage := usageOf v }

end Records

/-! ### The decoder -/

/-- `streamDecoder` without its queue. -/
structure Decoder where
  terminal : Bool := false
  started : Bool := false
  textStarted : Bool := false
deriving DecidableEq

/-- What a call does after a record. -/
inductive Verdict where
  /-- it reads the next record -/
  | again
  /-- it returns the head of the queue -/
  | pop
  /-- it returns this event -/
  | answer (e : Event)
deriving DecidableEq

/-- What a record does: the events it puts in the queue, and what follows. -/
structure Received where
  decoder : Decoder
  pushed : List Event
  verdict : Verdict
deriving DecidableEq

/-- The events of a call; in a record with text its block is not started. -/
def callEvents (opens : Bool) (c : CallWire) : List Event :=
  (if opens then [.blockStart {} .toolCall "" ""] else []) ++
    [.toolCallStart {} "" c.name, .toolArgumentsDelta {} c.arguments, .blockEnd {}]

/-- The events of a block of the terminal record: what is not text is a call. -/
def blockEvents (b : ContentBlock) : List Event :=
  match b.kind with
  | .text => [.blockStart {} .text "" "", .textDelta {} b.text, .blockEnd {}]
  | _ => [.blockStart {} .toolCall "" "", .toolCallStart {} "" b.name,
      .toolArgumentsDelta {} b.arguments, .blockEnd {}]

def terminalEvents (r : GenerationResult) : List Event :=
  r.blocks.flatMap blockEvents ++ r.usage.toList.map Event.usage ++ [.finish r.finish]

section Steps

variable (json : String → JsonKind)

/-- The first record starts the stream. -/
def startEvents (d : Decoder) (v : ResponseWire) : List Event :=
  if d.started then [] else [.start "" v.model]

/-- The events of a record with text before the end of the stream. -/
def contentEvents (d : Decoder) (v : ResponseWire) (calls : List CallWire) : List Event :=
  (if d.textStarted then [] else [.blockStart {} .text "" ""]) ++
    calls.flatMap (callEvents false) ++ [.textDelta {} v.theMessage.content]

/-- What `Next` does with a record. -/
def receive (d : Decoder) (v : ResponseWire) : Except StreamFailure Received := do
  validateResponse json v
  require v.done.isSome (invalid "done")
  if v.error.getD "" ≠ "" then
    pure ⟨{ d with terminal := true }, [], .answer (.streamError providerError)⟩
  else if v.done.getD false then
    let r ← responseResult json v
    pure ⟨{ d with terminal := true, started := true }, startEvents d v ++ terminalEvents r, .pop⟩
  else if v.theMessage.content ≠ "" then
    let calls ← v.theMessage.toolCalls.mapM (checkCall json "tool_calls" "tool_calls.arguments")
    pure ⟨{ d with started := true, textStarted := true },
      startEvents d v ++ contentEvents d v calls, .pop⟩
  else if v.theMessage.toolCalls ≠ [] then
    let calls ← v.theMessage.toolCalls.mapM (checkCall json "tool_calls" "tool_calls.arguments")
    pure ⟨{ d with started := true }, startEvents d v ++ calls.flatMap (callEvents true), .pop⟩
  else pure ⟨{ d with started := true }, startEvents d v, .again⟩

/-- The decoder with its queue and the lines it has not read. -/
structure Source where
  decoder : Decoder := {}
  pending : List Event := []
  input : List Line

/-- `Next` after the terminal record: nothing may follow, and the queue is not
looked at. -/
def afterTerminal : List Line → Pulled Source StreamFailure Event
  | [] => .eof
  | .failed message :: _ => .failed (.plain message)
  | .record _ :: _ | .refused _ :: _ => .failed (invalid "stream.after_terminal")

/-- `Next` before the terminal record. -/
def readRecord (d : Decoder) (pending : List Event) : List Line → Pulled Source StreamFailure Event
  | [] => .failed .unexpectedEOF
  | .failed message :: _ => .failed (.plain message)
  | .refused err :: _ => .failed err
  | .record v :: input =>
    match receive json d v with
    | .error err => .failed err
    | .ok r =>
      match r.verdict with
      | .again => readRecord r.decoder (pending ++ r.pushed) input
      | .answer e => .item e ⟨r.decoder, pending ++ r.pushed, input⟩
      | .pop =>
        match pending ++ r.pushed with
        | [] => .eof
        | e :: rest => .item e ⟨r.decoder, rest, input⟩

def next (s : Source) : Pulled Source StreamFailure Event :=
  if s.decoder.terminal then afterTerminal s.input
  else readRecord json s.decoder s.pending s.input

end Steps

/-! ### What a stream carries -/

variable (lines : List Line)

/-- The records of a stream. -/
def recordsOf : List ResponseWire :=
  lines.filterMap fun
    | .record v => some v
    | .refused _ | .failed _ => none

/-- All the text of a stream. -/
def contentsOf : String := String.join ((recordsOf lines).map fun v => v.theMessage.content)

/-- All the calls of a stream, with their arguments. -/
def toolCallsOf : List (String × String) :=
  (recordsOf lines).flatMap fun v => v.theMessage.toolCalls.map fun c => (c.name, c.arguments)

/-- The events carry everything that the stream carries. -/
structure Complete (lines : List Line) (evs : List Event) : Prop where
  text : textOf evs = contentsOf lines
  /-- a call is counted at its start, which follows that of its block -/
  calls : (callsOf (evs.filter fun | .blockStart _ _ _ _ => false | _ => true)).map Prod.snd =
    toolCallsOf lines
  ends : (evs.filter fun | .blockStart _ _ _ _ => true | _ => false).length ≤
    (evs.filter fun | .blockEnd _ => true | _ => false).length
  usage : ∀ v ∈ recordsOf lines, v.done = some true → (usageOf v).isSome = true →
    ∃ u, Event.usage u ∈ evs
  finish : ∃ l f, evs = l ++ [.finish f] ∧ finishesOf l = []

/-! ### What is returned -/

section Runs

variable (json : String → JsonKind)

/-- Everything that the records of a stream put in the queue. -/
def queued : Decoder → List Line → List Event
  | d, .record v :: input =>
    match receive json d v with
    | .error _ => []
    | .ok r => r.pushed ++ if r.decoder.terminal then [] else queued r.decoder input
  | _, _ => []

/-- How often a call takes an event from the queue. -/
def turns : Decoder → List Line → ℕ
  | d, .record v :: input =>
    match receive json d v with
    | .error _ => 0
    | .ok r =>
      (if r.verdict = .pop then 1 else 0) + if r.decoder.terminal then 0 else turns r.decoder input
  | _, _ => 0

variable {json} {d : Decoder} {v : ResponseWire} {r : Received}

theorem finishesOf_append (l l' : List Event) :
    finishesOf (l ++ l') = finishesOf l ++ finishesOf l' := filterMap_append

theorem finishesOf_startEvents : finishesOf (startEvents d v) = [] := by
  unfold startEvents
  split <;> rfl

theorem finishesOf_flatMap {α : Type*} {f : α → List Event} (h : ∀ a, finishesOf (f a) = [])
    (l : List α) : finishesOf (l.flatMap f) = [] := by
  induction l with
  | nil => rfl
  | cons a l ih => rw [flatMap_cons, finishesOf_append, h, ih, nil_append]

/-- What a record does, by what follows it. -/
inductive Effect (d : Decoder) (v : ResponseWire) (r : Received) : Prop
  | again (hv : r.verdict = .again) (hd : r.decoder.terminal = d.terminal)
      (hstarted : r.decoder.started = true) (hpushed : r.pushed = startEvents d v)
  | pop (evs : List Event) (hv : r.verdict = .pop) (hd : r.decoder.terminal = d.terminal)
      (hstarted : r.decoder.started = true) (hpushed : r.pushed = startEvents d v ++ evs)
      (hevs : evs ≠ []) (hfinish : finishesOf evs = [])
  | last (res : GenerationResult) (hv : r.verdict = .pop) (hd : r.decoder.terminal = true)
      (hpushed : r.pushed = startEvents d v ++ terminalEvents res)
  | answer (hv : r.verdict = .answer (.streamError providerError))
      (hd : r.decoder.terminal = true) (hpushed : r.pushed = [])

theorem finishesOf_callEvents (opens : Bool) (c : CallWire) :
    finishesOf (callEvents opens c) = [] := by
  cases opens <;> rfl

theorem checkCalls_eq {calls arguments : String} {l out : List CallWire}
    (h : l.mapM (checkCall json calls arguments) = .ok out) : out = l := by
  refine (eq_map_of_mapM_ok (fun c c' hc => ?_) h).trans (map_id l)
  simp only [checkCall, bind_ok, require_ok, pure_ok] at hc
  obtain ⟨_, -, _, -, rfl⟩ := hc
  rfl

theorem effect_of_receive (h : receive json d v = .ok r) : Effect d v r := by
  simp only [receive, bind_ok, require_ok] at h
  obtain ⟨_, -, _, -, h⟩ := h
  split at h
  · cases h
    exact .answer rfl rfl rfl
  split at h
  · obtain ⟨res, -, h⟩ := bind_ok.1 h
    cases h
    exact .last res rfl rfl rfl
  split at h
  · obtain ⟨calls, -, h⟩ := bind_ok.1 h
    cases h
    refine .pop _ rfl rfl rfl rfl (append_ne_nil_of_right_ne_nil _ (cons_ne_nil _ _)) ?_
    rw [contentEvents, finishesOf_append, finishesOf_append,
      finishesOf_flatMap (finishesOf_callEvents false)]
    split <;> rfl
  · split at h
    next hcalls =>
      obtain ⟨calls, hmap, h⟩ := bind_ok.1 h
      cases h
      refine .pop _ rfl rfl rfl rfl ?_ (finishesOf_flatMap (finishesOf_callEvents true) calls)
      rw [checkCalls_eq hmap]
      obtain ⟨c, rest, hcons⟩ := exists_cons_of_ne_nil hcalls
      rw [hcons]
      exact cons_ne_nil _ _
    · cases h
      exact .again rfl rfl rfl rfl

variable {pending evs : List Event} {input : List Line}

/-- After the terminal record a stream is over. -/
theorem eq_nil_of_pulls_terminal (ht : d.terminal = true)
    (h : Pulls (next json) ⟨d, pending, input⟩ evs) : evs = [] := by
  have hnext : next json ⟨d, pending, input⟩ = afterTerminal input := if_pos ht
  cases h with
  | eof => rfl
  | item h =>
    rw [hnext] at h
    rcases input with _ | ⟨_ | _ | _, input⟩ <;> cases h

theorem length_startEvents_pos (h : d.started = false) : startEvents d v ≠ [] := by
  rw [startEvents, if_neg (by simp [h])]
  exact cons_ne_nil _ _

/-- A stream that is read to its end begins with a record that is accepted. -/
theorem receive_of_pulls {line : Line} (ht : d.terminal = false)
    (h : Pulls (next json) ⟨d, pending, line :: input⟩ evs) :
    ∃ v r, line = .record v ∧ receive json d v = .ok r := by
  have hnext : next json ⟨d, pending, line :: input⟩ =
      readRecord json d pending (line :: input) := if_neg (by simp [ht])
  have hfailed : ∀ err, next json ⟨d, pending, line :: input⟩ ≠ .failed err := by
    intro err herr
    cases h with
    | eof h | item h => cases h.symm.trans herr
  cases line with
  | record v =>
    rcases hr : receive json d v with err | r
    · refine absurd ?_ (hfailed err)
      rw [hnext, readRecord, hr]
    · exact ⟨v, r, rfl, hr⟩
  | refused err => exact absurd hnext (hfailed err)
  | failed message => exact absurd hnext (hfailed (.plain message))

/-- The first record fills the queue, and it stays filled. -/
theorem queue_ne_nil (hs : d.started = true → pending ≠ []) : pending ++ startEvents d v ≠ [] := by
  rcases hstarted : d.started with - | -
  · exact append_ne_nil_of_right_ne_nil _ (length_startEvents_pos hstarted)
  · exact append_ne_nil_of_left_ne_nil (hs hstarted) _

/-- **What is returned**: the first `turns` of the events that were put in the
queue, and the error of the provider if the stream ends with one.  Otherwise
events are left in the queue when the end of the stream is reported.  The queue
is never empty after the first record, and no finish is in it before the
terminal record. -/
theorem returned_eq_take (ht : d.terminal = false) (hp : finishesOf pending = [])
    (hs : d.started = true → pending ≠ []) (h : Pulls (next json) ⟨d, pending, input⟩ evs) :
    finishesOf evs = [] ∧
      ((evs = (pending ++ queued json d input).take (turns json d input) ∧
          turns json d input < (pending ++ queued json d input).length) ∨
        evs = (pending ++ queued json d input).take (turns json d input) ++
          [.streamError providerError]) := by
  induction input generalizing d pending evs with
  | nil =>
    have hnext : next json ⟨d, pending, []⟩ = .failed .unexpectedEOF := if_neg (by simp [ht])
    cases h with
    | eof h | item h =>
      rw [hnext] at h
      cases h
  | cons line input ih =>
    obtain ⟨v, r, rfl, hr⟩ := receive_of_pulls ht h
    have hnext : next json ⟨d, pending, .record v :: input⟩ =
        readRecord json d pending (.record v :: input) := if_neg (by simp [ht])
    simp only [readRecord, hr] at hnext
    -- the head of the queue comes from before the events of this record
    obtain ⟨e, front, hfront⟩ := exists_cons_of_ne_nil (queue_ne_nil (v := v) hs)
    have hno : finishesOf [e] = [] ∧ finishesOf front = [] := by
      rw [← append_eq_nil_iff, ← finishesOf_append, singleton_append, ← hfront,
        finishesOf_append, hp, finishesOf_startEvents, nil_append]
    simp only [queued, turns, hr]
    cases effect_of_receive hr with
    | again hv hd hstarted hpushed =>
      rw [hd, ht, hv, hpushed]
      rw [hv, hpushed] at hnext
      have hrest : Pulls (next json) ⟨r.decoder, pending ++ startEvents d v, input⟩ evs :=
        h.of_next_eq (Eq.trans (if_neg (by simp [hd, ht])) hnext.symm)
      have hq : finishesOf (pending ++ startEvents d v) = [] := by
        rw [finishesOf_append, hp, finishesOf_startEvents, nil_append]
      simpa [append_assoc] using ih (hd.trans ht) hq (fun _ => queue_ne_nil hs) hrest
    | pop out hv hd hstarted hpushed hout hnofinish =>
      have hqueue : pending ++ r.pushed = e :: (front ++ out) := by
        rw [hpushed, ← append_assoc, hfront, cons_append]
      rw [hv, hqueue] at hnext
      rw [hd, ht, hv, ← append_assoc, hqueue]
      cases h with
      | eof h => cases h.symm.trans hnext
      | item h rest =>
        cases h.symm.trans hnext
        have hq : finishesOf (front ++ out) = [] := by
          rw [finishesOf_append, hno.2, hnofinish, nil_append]
        obtain ⟨hfin, hret⟩ := ih (hd.trans ht) hq
          (fun _ => append_ne_nil_of_right_ne_nil _ hout) rest
        refine ⟨?_, ?_⟩
        · rw [← singleton_append, finishesOf_append, hno.1, hfin, nil_append]
        · simp only [if_true, Bool.false_eq_true, if_false, Nat.add_comm 1, cons_append,
            take_succ_cons, length_cons]
          rcases hret with ⟨heq, hlt⟩ | heq
          · exact .inl ⟨congrArg _ heq, Nat.succ_lt_succ hlt⟩
          · exact .inr (congrArg _ heq)
    | last res hv hd hpushed =>
      have hqueue : pending ++ r.pushed = e :: (front ++ terminalEvents res) := by
        rw [hpushed, ← append_assoc, hfront, cons_append]
      rw [hv, hqueue] at hnext
      rw [hd, hv, if_pos rfl, if_pos rfl, if_pos rfl, append_nil, hqueue]
      cases h with
      | eof h => cases h.symm.trans hnext
      | item h rest =>
        cases h.symm.trans hnext
        rw [eq_nil_of_pulls_terminal hd rest]
        refine ⟨hno.1, .inl ⟨rfl, ?_⟩⟩
        simp only [terminalEvents, length_cons, length_append]
        omega
    | answer hv hd hpushed =>
      rw [hv] at hnext
      rw [hd, hv, hpushed]
      cases h with
      | eof h => cases h.symm.trans hnext
      | item h rest =>
        cases h.symm.trans hnext
        rw [eq_nil_of_pulls_terminal hd rest]
        exact ⟨rfl, .inr rfl⟩

end Runs

/-- **No stream is decoded completely.**  Of a stream that is read to its end,
the first events that were put in the queue are returned, one for each record
that has text or calls or is the last; the others are lost, and the finish is
always one of them.  A stream that ends with an error of the provider has no
finish to return. -/
theorem streams_never_complete (json : String → JsonKind) (lines : List Line) (evs : List Event)
    (h : Pulls (next json) { input := lines } evs) :
    ((evs = (queued json {} lines).take (turns json {} lines) ∧
        turns json {} lines < (queued json {} lines).length) ∨
      evs = (queued json {} lines).take (turns json {} lines) ++ [.streamError providerError]) ∧
    finishesOf evs = [] ∧ (Complete lines evs ↔ False) := by
  obtain ⟨hfinish, hreturned⟩ := returned_eq_take rfl rfl (by rintro ⟨⟩) h
  refine ⟨hreturned, hfinish, fun hcomplete => ?_, False.elim⟩
  obtain ⟨l, f, rfl, -⟩ := hcomplete.finish
  rw [finishesOf_append] at hfinish
  exact cons_ne_nil _ _ (append_eq_nil_iff.1 hfinish).2

/-- A greeting and the terminal record with its token counts. -/
def greeting : List Line :=
  [.record { model := "m", message := some { role := "assistant", content := "Hello" },
             done := some false },
   .record { model := "m", message := some { role := "assistant" }, done := some true,
             doneReason := "stop", promptEvalCount := some 3, evalCount := some 1 }]

/-- The decoder that takes every text for an object. -/
def anyObject : String → JsonKind := fun _ => .object

/-- Of the greeting only the start of the stream and of its block are returned:
the text, the token counts and the finish are lost. -/
theorem greeting_loses_text :
    ∃ evs, Pulls (next anyObject) { input := greeting } evs ∧
      evs = [.start "" "m", .blockStart {} .text "" ""] ∧ textOf evs = "" ∧
      contentsOf greeting = "Hello" ∧ ¬ Complete greeting evs := by
  refine ⟨_, .item rfl (.item rfl (.eof rfl)), rfl, rfl, rfl, fun h => ?_⟩
  exact absurd h.text (by decide)

/-- What is left in the queue at the end of the greeting. -/
theorem greeting_leaves_queue :
    (queued anyObject {} greeting).drop (turns anyObject {} greeting) =
      [.textDelta {} "Hello",
        .usage ⟨some 3, some 1, some 4, none, none, none, none, none, none, "provider"⟩,
        .finish { status := "completed", reason := "stop" }] ∧
      ¬ Complete greeting [.start "" "m", .blockStart {} .text "" ""] := by
  refine ⟨by decide, fun h => ?_⟩
  exact ((streams_never_complete anyObject greeting _ (.item rfl (.item rfl (.eof rfl)))).2.2).1 h

end Hoorific.Protocol.Ollama
