/-
The usage a provider reports is the evidence an attempt is settled with.
It reaches the gateway in three ways: a result codec returns it with the
result, a stream decoder returns it as an event, or the observer of a
relayed response (`observeResponse`, and for a Responses stream the loops of
`aggregateCodexSSE` and `relayCodexResponse`) has seen it.
`Exchange.observed` is the last usage that was seen in an exchange, whatever
happens afterwards.

The relay and the stream take the usage over as soon as it is there, so
no later failure loses it.  `aggregateCodexSSE` returns what it has seen
with the terminal response only, and a result is encoded for the client
first and its usage taken over after that (`translated`), so the usage is
lost if the stream breaks off or the encoding fails (`Exchange.loses`); and
an attempt that was handed over to a job has been finalized before its
response is delivered.
-/
import Mathlib.Data.List.ReduceOption
import Hoorific.Gateway.Serve

namespace Hoorific.Gateway

/-! ### Observing a relayed response -/

/-- The usage of an event. -/
def StreamEvent.reported : StreamEvent → Option Usage
  | .usage u => some u
  | _ => none

/-- The last usage among these answers. -/
def lastUsage (seen : List (Option Usage)) : Option Usage := seen.reduceOption.getLast?

/-- An event of a Responses stream, as the loops over it take it. -/
inductive CodexEvent where
  /-- too large, no object, an error, or a usage or a terminal response that is refused -/
  | failing
  /-- `response.usage` -/
  | usage (usage : Option Usage)
  /-- `response.completed` or `response.incomplete`, with the usage of its response -/
  | terminal (usage : Option Usage)
  | other
deriving DecidableEq

structure Observation where
  usage : Option Usage := none
  terminal : Bool := false
  failed : Bool := false
deriving DecidableEq

/-- What the observer of a response is answered. -/
structure Tap where
  /-- the codec of the response can decode it -/
  codec : Bool := true
  newDecoder : Bool := true
  /-- the events of the stream, and whether it ends with `io.EOF` -/
  events : List StreamEvent := []
  eof : Bool := true
  /-- the decoded result and its usage: `none` if decoding fails -/
  result : Option (Option Usage) := some none
  /-- the events of a Responses stream -/
  codexEvents : List CodexEvent := []
deriving DecidableEq

/-- What an event changes. -/
def Observation.see (seen : Observation) : StreamEvent → Observation
  | .usage u => { seen with usage := some u }
  | .finish => { seen with terminal := true }
  | .streamError => { seen with failed := true }
  | .other => seen

def observeResponse (t : Tap) (stream : Bool) : Observation :=
  if !t.codec then {}
  else if stream then
    if !t.newDecoder then { failed := true }
    else
      let seen := t.events.foldl Observation.see {}
      if t.eof then seen else { seen with failed := true }
  else match t.result with
    | none => { failed := true }
    | some usage => { usage := usage, terminal := true }

/-- `relayNative`; `sent` is what `RelayHTTP` reports. -/
def relayNative (t : Tap) (stream : Bool) (sent : Relay) : Relay :=
  let seen := observeResponse t stream
  { sent with
    seenError := seen.failed
    seenTerminal := if !t.codec && !stream then !sent.failed else seen.terminal
    seenUsage := seen.usage }

/-- `aggregateCodexSSE`: the usage it returns with the response, `none` if it
fails; `seen` is the usage of the events before. -/
def aggregateCodexSSE : List CodexEvent → Option Usage → Option (Option Usage)
  | [], _ => none
  | .failing :: _, _ => none
  | .usage u :: rest, seen => aggregateCodexSSE rest (u <|> seen)
  | .terminal u :: _, seen => some (u <|> seen)
  | .other :: rest, seen => aggregateCodexSSE rest seen

/-- What an event changes for the observer of a Responses stream. -/
def Observation.seeCodex (seen : Observation) : CodexEvent → Observation
  | .failing => { seen with failed := true }
  | .usage u => { seen with usage := u <|> seen.usage }
  | .terminal u => { seen with usage := u <|> seen.usage, terminal := true }
  | .other => seen

/-- `relayCodexResponse`; `sent` is what `RelayHTTP` reports, or says whether the
aggregated response could be written. -/
def relayCodexResponse (t : Tap) (stream : Bool) (sent : Relay) : Relay :=
  if stream then
    let seen := t.codexEvents.foldl Observation.seeCodex {}
    { sent with
      seenError := seen.failed || !t.eof || !seen.terminal
      seenTerminal := seen.terminal
      seenUsage := seen.usage }
  else match aggregateCodexSSE t.codexEvents none with
    | none => { failed := true, seenError := true }
    | some usage =>
      { failed := sent.failed, cancellationRequested := sent.failed
        seenTerminal := true, seenUsage := usage }

/-- The last usage the observer is answered. -/
def Tap.observed (t : Tap) (stream : Bool) : Option Usage :=
  if !t.codec then none
  else if stream then
    if t.newDecoder then lastUsage (t.events.map StreamEvent.reported) else none
  else t.result.join

/-- The usage of an event of a Responses stream. -/
def CodexEvent.reported : CodexEvent → Option Usage
  | .usage u => u
  | .terminal u => u
  | _ => none

/-- The usages `aggregateCodexSSE` reads before it fails or returns. -/
def aggregating : List CodexEvent → List (Option Usage)
  | [] => []
  | .failing :: _ => []
  | .usage u :: rest => u :: aggregating rest
  | .terminal u :: _ => [u]
  | .other :: rest => aggregating rest

/-- The last usage in what is read of a Responses stream. -/
def Tap.codexObserved (t : Tap) (stream : Bool) : Option Usage :=
  lastUsage (if stream then t.codexEvents.map CodexEvent.reported else aggregating t.codexEvents)

theorem lastUsage_cons (u : Option Usage) (l : List (Option Usage)) :
    lastUsage (u :: l) = (lastUsage l <|> u) := by
  cases u with
  | none =>
    rw [lastUsage, List.reduceOption_cons_of_none, ← lastUsage]
    cases lastUsage l <;> rfl
  | some u =>
    rw [lastUsage, List.reduceOption_cons_of_some, List.getLast?_cons, lastUsage]
    cases l.reduceOption.getLast? <;> rfl

/-- An observer that takes over what its events report keeps the last usage. -/
theorem foldl_usage {ε : Type*} {see : Observation → ε → Observation} {r : ε → Option Usage}
    (hsee : ∀ seen event, (see seen event).usage = (r event <|> seen.usage))
    (events : List ε) (seen : Observation) :
    (events.foldl see seen).usage = (lastUsage (events.map r) <|> seen.usage) := by
  induction events generalizing seen with
  | nil => rfl
  | cons event events ih =>
    rw [List.foldl_cons, ih, hsee, List.map_cons, lastUsage_cons]
    cases lastUsage (events.map r) <;> rfl

/-- What is aggregated has the last usage that was read. -/
theorem aggregateCodexSSE_some {events : List CodexEvent} {seen usage : Option Usage}
    (h : aggregateCodexSSE events seen = some usage) :
    usage = (lastUsage (aggregating events) <|> seen) := by
  induction events generalizing seen with
  | nil => cases h
  | cons event rest ih =>
    cases event with
    | failing => cases h
    | usage u =>
      rw [ih h, aggregating, lastUsage_cons]
      cases lastUsage (aggregating rest) <;> rfl
    | terminal u =>
      cases h
      cases u <;> rfl
    | other => exact ih h

theorem observeResponse_usage (t : Tap) (stream : Bool) :
    (observeResponse t stream).usage = t.observed stream := by
  have hfold : (t.events.foldl Observation.see {}).usage =
      lastUsage (t.events.map StreamEvent.reported) := by
    rw [foldl_usage (r := StreamEvent.reported) fun _ event => by cases event <;> rfl]
    exact orElse_failure _
  unfold observeResponse Tap.observed
  split
  · rfl
  split
  · cases t.newDecoder
    · rfl
    · simp only [Bool.not_true, Bool.false_eq_true, if_false, if_true]
      split <;> exact hfold
  · cases t.result <;> rfl

/-- The relay of a Responses stream loses the usage exactly if it aggregates
the stream and fails. -/
theorem relayCodexResponse_usage (t : Tap) (stream : Bool) (sent : Relay) :
    (relayCodexResponse t stream sent).seenUsage =
      if !stream && (aggregateCodexSSE t.codexEvents none).isNone then none
      else t.codexObserved stream := by
  cases stream with
  | true =>
    show (t.codexEvents.foldl Observation.seeCodex {}).usage = t.codexObserved true
    rw [foldl_usage (r := CodexEvent.reported) fun _ event => by cases event <;> rfl]
    exact orElse_failure _
  | false =>
    rcases h : aggregateCodexSSE t.codexEvents none with - | usage <;> simp only [relayCodexResponse, h]
    · rfl
    · exact (aggregateCodexSSE_some h).trans (orElse_failure _)

/-! ### What an exchange observes -/

/-- The events a stream decoder returns before the loop over them ends: it
goes on after an event that was suppressed or written. -/
def decoded (req : Prepared) : List (StreamEvent × Bool) → List StreamEvent
  | [] => []
  | (event, written) :: rest =>
    event :: if event.reported.isSome && req.suppressUsage || written then decoded req rest else []

section Http

variable (native : Bool) (req : Prepared) (x : Exchange)

/-- The response reaches the client's side: the flag says that the attempt was
handed over to a job before. -/
def Exchange.delivers : Option Bool :=
  match x.reply with
  | none => none
  | some status =>
    if status = 429 && !native then none
    else if 400 ≤ status then none
    else if success status && !x.accepted then none
    else if !native && req.wireAdapter && x.adapt.isSome then none
    else match x.native with
      | .ready jobPending => some jobPending
      | _ => none

/-- The answers of the relay and of the aggregation are those of their functions;
`t` is what they were answered, and `sent` what was reported of the writing. -/
structure Exchange.Answered (t : Tap) (sent : Relay) : Prop where
  relay : req.nativeWire = true →
    x.relay = (if req.codex then relayCodexResponse else relayNative) t req.stream sent
  aggregate : req.codex = true → x.aggregate = aggregateCodexSSE t.codexEvents none

/-- The last usage that was seen in the delivery of a response. -/
def Exchange.observed (t : Tap) : Option Usage :=
  if req.nativeWire then if req.codex then t.codexObserved req.stream else t.observed req.stream
  else if req.stream then
    if req.streamCodecs && x.newDecoder.isNone && x.newEncoder.isNone then
      lastUsage ((decoded req x.events).map StreamEvent.reported)
    else none
  else
    let aggregated := if req.codex && !native then t.codexObserved false else none
    if req.codex && !native && x.aggregate.isNone || !req.resultCodecs then aggregated
    else x.result.join <|> aggregated

/-- The response was to be translated as a whole and is not. -/
def Exchange.untranslated : Bool := !req.resultCodecs || x.result.isNone || x.encode.isSome

/-- The usage seen so far does not get into the outcome: a Responses stream
cannot be aggregated, or the response not be translated as a whole. -/
def Exchange.loses (t : Tap) : Bool :=
  !req.stream &&
    (req.codex && (req.nativeWire || !native) && (aggregateCodexSSE t.codexEvents none).isNone ||
      !req.nativeWire && x.untranslated req)

end Http

variable {native : Bool} {req : Prepared} {x : Exchange} {o : AttemptOutcome}

theorem relayEvents_cons (event : StreamEvent) (written : Bool) (rest : List (StreamEvent × Bool))
    (s : StreamState) : relayEvents req x ((event, written) :: rest) s =
      if event.reported.isSome && req.suppressUsage || written then
        relayEvents req x rest (s.observe event)
      else ({ s.observe event with marks := (s.observe event).marks ++ [.unknown] }, true) := by
  cases event with
  | usage u => cases hsuppress : req.suppressUsage <;> simp [relayEvents, StreamEvent.reported, hsuppress]
  | finish | streamError | other => simp [relayEvents, StreamEvent.reported]

/-- The loop over the events keeps the last usage the decoder has returned. -/
theorem relayEvents_usage (events : List (StreamEvent × Bool)) (s : StreamState) :
    (relayEvents req x events s).1.usage =
      (lastUsage ((decoded req events).map StreamEvent.reported) <|> s.usage) := by
  induction events generalizing s with
  | nil =>
    rw [relayEvents]
    split <;> rfl
  | cons e rest ih =>
    obtain ⟨event, written⟩ := e
    have hobserve : (s.observe event).usage = (event.reported <|> s.usage) := by
      cases event <;> rfl
    rw [relayEvents_cons, decoded, List.map_cons, lastUsage_cons]
    -- the loop goes on, or this was the last event
    split
    · rw [ih, hobserve]
      cases lastUsage ((decoded req rest).map StreamEvent.reported) <;> rfl
    · exact hobserve

theorem streamed_usage (ho : o.usage = none) :
    (streamed req x o).outcome.usage =
      if req.streamCodecs && x.newDecoder.isNone && x.newEncoder.isNone then
        lastUsage ((decoded req x.events).map StreamEvent.reported)
      else none := by
  have hevents : (relayEvents req x x.events { usage := o.usage }).1.usage =
      lastUsage ((decoded req x.events).map StreamEvent.reported) := by
    rw [relayEvents_usage, ho]
    exact orElse_failure _
  unfold streamed
  rcases req.streamCodecs with - | -
  · exact ho
  rcases x.newDecoder with - | e
  · rcases x.newEncoder with - | e
    · rcases hloop : relayEvents req x x.events { usage := o.usage } with ⟨s, broken⟩
      rw [hloop] at hevents
      simp only [Bool.not_true, Bool.false_eq_true, if_false, Option.isNone_none, Bool.and_self,
        if_true]
      split
      · exact hevents
      · split <;> exact hevents
    · exact ho
  · exact ho

theorem relayed_usage (jobPending : Bool) :
    (relayed req x jobPending o).outcome.usage = x.relay.seenUsage := by
  unfold relayed
  simp only
  split <;> rfl

theorem translated_usage (aggregated : Option Usage) (ho : o.usage = none) :
    (translated req x aggregated o).outcome.usage =
      if x.untranslated req then none
      else if !req.resultCodecs then aggregated else (x.result.join <|> aggregated) := by
  rw [translated, Exchange.untranslated]
  rcases req.resultCodecs with - | -
  · exact ho
  rcases x.result with - | usage
  · exact ho
  rcases x.encode with - | e
  · rfl
  · exact ho

variable {t : Tap} {sent : Relay}

/-- **Delivery**: the last usage seen is in the outcome, unless a stream could
not be aggregated or a result not translated. -/
theorem delivered_usage (jobPending : Bool) {u : Usage} (hanswered : x.Answered req t sent)
    (hobserved : x.observed native req t = some u) (ho : o.usage = none) :
    (delivered native req x jobPending o).outcome.usage =
      if x.loses native req t then none else some u := by
  rw [← hobserved]
  rcases hwire : req.nativeWire with - | -
  · rcases hstream : req.stream with - | -
    · rcases hcodex : req.codex && !native with - | -
      · simp [delivered, Exchange.observed, Exchange.loses, hwire, hstream, hcodex,
          translated_usage none ho]
      -- the stream is aggregated first
      have haggregate := hanswered.aggregate (Bool.and_eq_true_iff.1 hcodex).1
      rcases h : aggregateCodexSSE t.codexEvents none with - | usage
      · have hcancelled : (cancelling o x.ended).usage = none := by
          rw [cancelling]
          split <;> exact ho
        simp [delivered, Exchange.loses, hwire, hstream, hcodex, haggregate, h, hcancelled]
      have husage : t.codexObserved false = usage := by
        rw [aggregateCodexSSE_some h]
        exact (orElse_failure _).symm
      simp [delivered, Exchange.observed, Exchange.loses, hwire, hstream, hcodex, haggregate, h,
        husage, translated_usage usage ho]
    · simp [delivered, Exchange.observed, Exchange.loses, hwire, hstream, streamed_usage ho]
  · rw [delivered, hwire, if_pos rfl, relayed_usage, hanswered.relay hwire]
    rcases hcodex : req.codex with - | -
    · simp [Exchange.observed, Exchange.loses, hwire, hcodex, ← observeResponse_usage, relayNative]
    · simp [Exchange.observed, Exchange.loses, hwire, hcodex, relayCodexResponse_usage]

/-! ### The attempt -/

/-- An exchange that reaches delivery ends as its delivery does. -/
theorem exchanged_delivers {jobPending : Bool} (h : x.delivers native req = some jobPending) :
    (exchanged native req x o).outcome = (delivered native req x jobPending
        (if jobPending then ending o .jobPending else o)).outcome ∧
      (exchanged native req x o).transfer = if jobPending then .done else .none := by
  rcases hreply : x.reply with - | status
  · simp [Exchange.delivers, hreply] at h
  simp only [Exchange.delivers, hreply] at h
  split at h
  · cases h
  next htooMany =>
  split at h
  · cases h
  next hrejected =>
  split at h
  · cases h
  next haccepted =>
  split at h
  · cases h
  next hadapted =>
  have hinspected : responded native req x status o = inspected native req x o := by
    rw [responded, if_neg htooMany, if_neg hrejected, if_neg haccepted]
    rcases hadapt : x.adapt with - | e
    · rfl
    have hnone : (!native && req.wireAdapter) = false := by
      simpa [hadapt] using hadapted
    rw [hnone]
  have hexchanged : exchanged native req x o =
      { inspected native req x o with dispatch := some (.http (some status)) } := by
    rw [exchanged, hreply, ← hinspected]
  have htransfer : ∀ jobPending o, (delivered native req x jobPending o).transfer = .none :=
    fun jobPending _ => (delivered_delivers jobPending).transfer
  rw [hexchanged]
  rcases hnative : x.native with _ | _ | jobPending' <;> rw [hnative] at h
  · cases h
  · cases h
  obtain rfl : jobPending' = jobPending := Option.some.inj h
  rw [inspected, hnative]
  cases jobPending' with
  | false => exact ⟨rfl, htransfer false o⟩
  | true => exact ⟨rfl, rfl⟩

/-- An attempt that is sent in an HTTP exchange finalizes what the exchange says. -/
theorem attempt_exchanged {p : Principal} {env : AttemptEnv} (native : Bool)
    (hsent : env.sent p = some req)
    (hhttp : req.transport = .http) : ∃ permit, (attempt p native env).finalizes =
      (exchanged native req env.exchange (outcomeOf permit .outcomeUnknown)).finalizes permit := by
  unfold AttemptEnv.sent at hsent
  split at hsent
  next req' plan permit hprepare hplan hadmission =>
    split at hsent
    next hopens =>
      obtain rfl : req' = req := Option.some.inj hsent
      simp only [Bool.and_eq_true, Option.isNone_iff_eq_none, Bool.or_eq_true] at hopens
      obtain ⟨⟨hcancelled, hcredentials⟩, -⟩ := hopens
      have hexecute : execute p native env req' plan permit =
          exchanged native req' env.exchange (outcomeOf permit .outcomeUnknown) := by
        rw [execute, hcancelled]
        rcases hcredentials with hcross | ⟨hleased, hauthorized⟩
        · simp [hcross, hhttp]
        · simp [hleased, hauthorized, hhttp]
      exact ⟨permit, by rw [attempt_admitted hprepare hplan hadmission, hexecute]⟩
    next => cases hsent
  next => cases hsent

/-- **Usage is carried** to `FinalizeAttempt` exactly if the attempt was not
handed over to a job and its response, where it is taken as a whole, could be
aggregated and translated. -/
theorem usage_carried_iff (p : Principal) (native : Bool) (env : AttemptEnv) (req : Prepared)
    (hsent : env.sent p = some req) (hhttp : req.transport = .http) (jobPending : Bool)
    (hdelivers : env.exchange.delivers native req = some jobPending) (t : Tap) (sent : Relay)
    (hanswered : env.exchange.Answered req t sent)
    (u : Usage) (hobserved : env.exchange.observed native req t = some u) :
    (∃ o ∈ (attempt p native env).finalizes, o.usage = some u) ↔
      jobPending = false ∧ env.exchange.loses native req t = false := by
  obtain ⟨permit, hfinalizes⟩ := attempt_exchanged native hsent hhttp
  obtain ⟨houtcome, htransfer⟩ := exchanged_delivers hdelivers
  rw [hfinalizes, Executed.finalizes, htransfer]
  cases jobPending with
  | true =>
    simp [outcomeOf]
  | false =>
    have husage := delivered_usage false (o := outcomeOf permit .outcomeUnknown) hanswered
      hobserved rfl
    simp only [Bool.false_eq_true, if_false, List.mem_singleton, exists_eq_left,
      true_and] at houtcome ⊢
    rw [houtcome, husage]
    cases env.exchange.loses native req t <;> simp

/-- A result with a usage, which is translated for the client. -/
def metered (encode : Option StoreError) (written : Bool) : AttemptEnv :=
  answering { reply := some 200, result := some (some { input := some 3, output := some 5 }),
              encode := encode, written := written }

/-- A client that has gone does not lose the usage. -/
theorem usage_survives_disconnect :
    ∃ o ∈ (attempt {} false (metered none false)).finalizes,
      o.usage = some { input := some 3, output := some 5 } :=
  (usage_carried_iff {} false (metered none false) adapted rfl rfl false rfl {} {}
    ⟨Bool.false_ne_true.elim, Bool.false_ne_true.elim⟩ _ rfl).2 ⟨rfl, rfl⟩

/-- A Responses stream with a usage that ends before its response. -/
def truncatedTap : Tap :=
  { codexEvents := [.usage (some { input := some 3, output := some 5 })] }

/-- It is to be relayed as one response. -/
def truncated : AttemptEnv :=
  { answering { reply := some 200, relay := relayCodexResponse truncatedTap false {} } with
    prepare := .ok { adapted with nativeWire := true, codex := true } }

/-- A result that cannot be encoded for the client does, and so does a stream that
cannot be aggregated. -/
theorem usage_lost_when_unencodable :
    (metered (some (.plain "unsupported")) true).exchange.observed false adapted {} =
        some { input := some 3, output := some 5 } ∧
      ((attempt {} false (metered (some (.plain "unsupported")) true)).finalizes.map
        fun o => (o.state, o.usage)) = [(some .outcomeUnknown, none)] ∧
      truncated.exchange.observed false { adapted with nativeWire := true, codex := true }
        truncatedTap = some { input := some 3, output := some 5 } ∧
      ((attempt {} false truncated).finalizes.map fun o => (o.state, o.usage)) =
        [(some .outcomeUnknown, none)] :=
  ⟨rfl, rfl, rfl, rfl⟩

end Hoorific.Gateway
