/-
One attempt of a request (`Gateway.attempt`): the request is prepared,
planned and admitted, sent, and its response delivered.  The planner, the
store, the upstream, the codecs and the client are the environment of an
attempt: what each of them answers is a field of `AttemptEnv`, in the order
in which they are asked.  The model follows every exit of the source after
admission, with its marks, its outcome and its error.

An attempt leaves the upstream in one of four ways: as an HTTP exchange
(`exchanged`), as the setup of a WebRTC session (`executeWebRTC`), as a
WebSocket (`executeRealtime`) or as a duplex stream (`executeDuplex`).

Left out: everything before planning is one answer (`prepare`), since it
marks nothing but the refusal of the client's headers; response headers,
telemetry, metrics and routing hints; the retry loop of `finalize` (see
`Gateway/Finalize.lean`).
-/
import Hoorific.Core
import Hoorific.Gateway.Idempotency
import Hoorific.Lib.Check

namespace Hoorific.Gateway

open Check

/-! ### Errors -/

def failure (code : String) (status : Nat) (message : String) : StoreError :=
  .gateway code status message

/-- What an attempt fails with.  A plan or an admission that was refused
because the configuration has changed is marked. -/
inductive AttemptError where
  | plain (err : StoreError)
  | preIntentStale (cause : StoreError)
deriving DecidableEq

def AttemptError.isPreIntentStale : AttemptError → Bool
  | .preIntentStale _ => true
  | .plain _ => false

/-- A refusal because the configuration has changed. -/
def configurationStale : StoreError → Bool
  | .gateway code _ _ => code == "configuration_stale"
  | _ => false

def markPreIntentStale (err : StoreError) : AttemptError :=
  match err with
  | .gateway _ _ _ => if configurationStale err then .preIntentStale err else .plain err
  | _ => .plain (failure "unavailable" 503 "admission is unavailable")

/-! ### The request to the upstream -/

inductive Framing where
  | duplex | websocket | sdp
  | other (text : String)
deriving DecidableEq

structure RealtimePolicy where
  wholeSessionBound : Bool := false
  directWebRTC : Bool := false
  requirePayloadEnforcement : Bool := false
deriving DecidableEq

structure Binding where
  framing : Framing
  realtime : Option RealtimePolicy := none
deriving DecidableEq

/-- A request that is ready to be planned. -/
structure Prepared where
  binding : Binding
  /-- the response is relayed as it is -/
  nativeWire : Bool := false
  codex : Bool := false
  stream : Bool := false
  crossOrigin : Bool := false
  suppressUsage : Bool := false
  /-- the connector adapts responses -/
  wireAdapter : Bool := false
  /-- both codecs have a stream codec -/
  streamCodecs : Bool := true
  /-- both codecs have a result codec -/
  resultCodecs : Bool := true
deriving DecidableEq

/-- How a request is sent. -/
inductive Transport where
  | duplex | webRTC | websocket | http
deriving DecidableEq

/-- The three tests before `client.Do`. -/
def Prepared.transport (req : Prepared) : Transport :=
  if req.binding.framing = .duplex then .duplex
  else if req.binding.realtime.any RealtimePolicy.directWebRTC then .webRTC
  else if req.binding.framing = .websocket then .websocket
  else .http

/-- A request that was refused before planning; `headers` if it was for the
headers of the client. -/
structure Refusal where
  err : StoreError
  headers : Bool := false
deriving DecidableEq

/-! ### The environment -/

/-- What `prepareNativeResponse` does: it fails, or it has stored a job and
cannot hand the attempt over to it, or it is done. -/
inductive NativeResponse where
  | failed (err : StoreError)
  | notTransferred
  | ready (jobPending : Bool)
deriving DecidableEq

/-- What a relay of the response reports. -/
structure Relay where
  failed : Bool := false
  cancellationRequested : Bool := false
  truncated : Bool := false
  seenError : Bool := false
  seenTerminal : Bool := false
  seenUsage : Option Usage := none
deriving DecidableEq

inductive StreamEvent where
  | usage (usage : Usage)
  | finish
  | streamError
  | other
deriving DecidableEq

/-- The answers in an HTTP exchange. -/
structure Exchange where
  /-- the status of the response; `none` if `client.Do` fails -/
  reply : Option Nat
  /-- the body of an error: `none` if it cannot be read, else whether it is JSON -/
  errorBody : Option Bool := none
  errorWritten : Bool := true
  /-- `MarkAccepted` succeeds -/
  accepted : Bool := true
  /-- the error of `AdaptResponse` -/
  adapt : Option StoreError := none
  native : NativeResponse := .ready false
  relay : Relay := {}
  /-- the context has ended when a relay or an aggregation fails -/
  ended : Bool := false
  /-- `aggregateCodexSSE`: `none` if it fails -/
  aggregate : Option (Option Usage) := some none
  newDecoder : Option StoreError := none
  newEncoder : Option StoreError := none
  /-- the events of the stream, and whether each can be written -/
  events : List (StreamEvent × Bool) := []
  /-- the stream ends with `io.EOF` -/
  eof : Bool := true
  /-- the decoded result and its usage: `none` if decoding fails -/
  result : Option (Option Usage) := some none
  encode : Option StoreError := none
  written : Bool := true
deriving DecidableEq

/-- The answers in the setup of a WebRTC session. -/
structure WebRTCSetup where
  /-- framing, method and content type -/
  checks : Except StoreError Unit := .ok ()
  /-- the status of the response; `none` if there is none -/
  reply : Option Nat := none
  /-- content type and body of the response -/
  answer : Except StoreError Unit := .ok ()
  accepted : Bool := true
  written : Bool := true
deriving DecidableEq

/-- The answers in a WebSocket session. -/
structure RealtimeSession where
  /-- framing, model, control protocol, origin, subprotocols and endpoint -/
  checks : Except StoreError Unit := .ok ()
  /-- `websocket.Dial`: it fails, perhaps with a status -/
  dial : Except (Option Nat) Unit := .ok ()
  accepted : Bool := true
  /-- `websocket.Accept` succeeds -/
  joined : Bool := true
  cancellationRequested : Bool := false
deriving DecidableEq

/-- The answers in a duplex stream. -/
structure DuplexStream where
  /-- content type and model -/
  checks : Except StoreError Unit := .ok ()
  /-- executor, lease, body and first frame, and whether the context has ended
  before the first frame -/
  input : Except (StoreError × Bool) Unit := .ok ()
  failed : Bool := false
  ended : Bool := false
  committed : Bool := false
deriving DecidableEq

/-- What the environment answers in one attempt. -/
structure AttemptEnv where
  prepare : Except Refusal Prepared
  plan : Except StoreError AttemptPlan
  admission : Except StoreError AttemptPermit
  /-- the context has ended when the permit is there -/
  cancelled : Option StoreError := none
  leased : Bool := true
  authorized : Bool := true
  exchange : Exchange := { reply := none }
  webRTC : WebRTCSetup := {}
  realtime : RealtimeSession := {}
  duplex : DuplexStream := {}
deriving DecidableEq

/-! ### Executing an admitted attempt -/

/-- How the upstream was reached; an HTTP exchange with the status of the
response. -/
inductive Dispatch where
  | http (reply : Option Nat)
  | webRTC | websocket | duplex
deriving DecidableEq

/-- What `FinalizeAttempt` was asked inside `prepareNativeResponse`. -/
inductive Transfer where
  | none | refused | done
deriving DecidableEq

/-- The end of an admitted attempt: its outcome, the marks in order, whether
and how it was sent. -/
structure Executed where
  outcome : AttemptOutcome
  marks : List Phase := []
  dispatch : Option Dispatch := none
  transfer : Transfer := .none
  retry : Bool := false
  err : Option StoreError := none
deriving DecidableEq

/-- The outcome of a permit, in this state. -/
def outcomeOf (permit : AttemptPermit) (state : AttemptState) : AttemptOutcome :=
  { tenantID := permit.tenantID, requestID := permit.requestID, attemptID := permit.attemptID,
    state := some state }

/-- The outcome, now in this state. -/
def ending (o : AttemptOutcome) (state : AttemptState) : AttemptOutcome :=
  { o with state := some state }

/-- The outcome, with a cancellation if one was requested. -/
def cancelling (o : AttemptOutcome) (requested : Bool) : AttemptOutcome :=
  if requested then { o with cancellation := "requested" } else o

/-- Statuses 200 to 299. -/
def success (status : Nat) : Bool := decide (200 ≤ status ∧ status < 300)

section Http

variable (native : Bool) (req : Prepared) (x : Exchange)

/-- A response with status 400 or more. -/
def rejected (status : Nat) (o : AttemptOutcome) : Executed :=
  let tooMany := native && status == 429
  let rejection := failure "upstream_error" 429 "upstream rejected the request"
  match x.errorBody with
  | none =>
    if tooMany then
      { outcome := ending o .notExecuted, marks := [.terminal], err := some rejection }
    else
      { outcome := o, marks := [.unknown]
        err := some (failure "upstream_error" 502 "upstream error response was truncated") }
  | some valid =>
    if native && valid then
      if !x.errorWritten then { outcome := o, marks := [.unknown] }
      else if tooMany then { outcome := ending o .notExecuted, marks := [.terminal] }
      else { outcome := o, marks := [.unknown] }
    else if tooMany then
      { outcome := ending o .notExecuted, marks := [.terminal], err := some rejection }
    else
      { outcome := o, marks := [.unknown]
        err := some (failure "upstream_error" status "upstream rejected the request") }

/-- The response is relayed as it is. -/
def relayed (jobPending : Bool) (o : AttemptOutcome) : Executed :=
  let r := x.relay
  let o := { cancelling o (r.cancellationRequested || r.failed && x.ended) with usage := r.seenUsage }
  let settled := !jobPending && !r.failed && !r.seenError && r.seenTerminal
  { outcome := if settled then ending o .settled else o
    marks :=
      if settled then [.terminal]
      else if r.failed || r.seenError || r.truncated then [.unknown]
      else []
    err :=
      if req.codex && !req.stream && (r.failed || r.seenError) && o.cancellation == "" then
        some (failure "upstream_outcome_unknown" 502
          "upstream Responses stream could not be completed")
      else none }

/-- The state of the loop over the events of a stream. -/
structure StreamState where
  terminal : Bool := false
  failed : Bool := false
  usage : Option Usage := none
  marks : List Phase := []
deriving DecidableEq

/-- What an event changes before it is written. -/
def StreamState.observe (s : StreamState) : StreamEvent → StreamState
  | .usage u => { s with usage := some u }
  | .finish => { s with terminal := true }
  | .streamError => { s with failed := true, marks := s.marks ++ [.unknown] }
  | .other => s

/-- The loop over the events; the flag says that the client could not be
written to. -/
def relayEvents : List (StreamEvent × Bool) → StreamState → StreamState × Bool
  | [], s =>
    if x.eof && s.terminal then (s, false)
    else ({ s with failed := true, marks := s.marks ++ [.unknown] }, false)
  | (event, written) :: rest, s =>
    let s := s.observe event
    match event, req.suppressUsage with
    | .usage _, true => relayEvents rest s
    | _, _ =>
      if written then relayEvents rest s
      else ({ s with marks := s.marks ++ [.unknown] }, true)

variable (o : AttemptOutcome)

/-- The response is translated event by event. -/
def streamed : Executed :=
  if !req.streamCodecs then
    { outcome := o, err := some (failure "unsupported_operation" 400 "stream codec unavailable") }
  else match x.newDecoder, x.newEncoder with
    | some e, _ => { outcome := o, marks := [.unknown], err := some e }
    | none, some e => { outcome := o, marks := [.unknown], err := some e }
    | none, none =>
      let (s, broken) := relayEvents req x x.events { usage := o.usage }
      let o := { o with usage := s.usage }
      if broken then { outcome := cancelling o true, marks := s.marks }
      else if s.terminal && !s.failed then
        { outcome := ending o .settled, marks := s.marks ++ [.terminal] }
      else { outcome := o, marks := s.marks }

/-- The response is translated as a whole; `aggregated` is the usage of a
stream that was aggregated. -/
def translated (aggregated : Option Usage) (o : AttemptOutcome) : Executed :=
  if !req.resultCodecs then
    { outcome := o, marks := [.unknown]
      err := some (failure "unsupported_operation" 400 "result codec unavailable") }
  else match x.result, x.encode with
    | none, _ =>
      { outcome := o, marks := [.unknown]
        err := some (failure "upstream_outcome_unknown" 502
          "upstream result could not be decoded") }
    | some _, some e => { outcome := o, marks := [.unknown], err := some e }
    | some usage, none =>
      { outcome := { ending o .settled with usage := usage <|> aggregated }
        marks := if x.written then [.terminal] else [.unknown] }

/-- The response of an upstream that has taken the request. -/
def delivered (jobPending : Bool) (o : AttemptOutcome) : Executed :=
  if req.nativeWire then relayed req x jobPending o
  else if req.codex && !native && !req.stream then
    match x.aggregate with
    | none =>
      { outcome := cancelling o x.ended, marks := [.unknown]
        err := if x.ended then none
          else some (failure "upstream_outcome_unknown" 502
            "upstream Responses stream could not be completed") }
    | some usage => translated req x usage o
  else if req.stream then streamed req x o
  else translated req x none o

/-- The response is inspected for a job, and then delivered. -/
def inspected : Executed :=
  match x.native with
  | .failed e => { outcome := o, marks := [.unknown], err := some e }
  | .notTransferred =>
    { outcome := o, marks := [.unknown], transfer := .refused
      err := some (failure "upstream_outcome_unknown" 503 "native ownership transfer failed") }
  | .ready false => delivered native req x false o
  | .ready true =>
    let e := delivered native req x true (ending o .jobPending)
    { e with marks := .terminal :: e.marks, transfer := .done }

/-- The response with this status. -/
def responded (status : Nat) (o : AttemptOutcome) : Executed :=
  if status = 429 && !native then
    { outcome := ending o .notExecuted, marks := [.terminal], retry := true
      err := some (failure "quota_exceeded" 429 "upstream rejected the request without execution") }
  else if 400 ≤ status then rejected native x status o
  else if success status && !x.accepted then
    { outcome := o, marks := [.unknown]
      err := some (failure "unavailable" 503 "acceptance persistence unavailable") }
  else match x.adapt, !native && req.wireAdapter with
    | some e, true => { outcome := o, err := some e }
    | _, _ => inspected native req x o

/-- `client.Do` and what follows. -/
def exchanged : Executed :=
  match x.reply with
  | none =>
    { outcome := o, marks := [.unknown], dispatch := some (.http none)
      err := some (failure "upstream_outcome_unknown" 502 "upstream execution outcome is unknown") }
  | some status => { responded native req x status o with dispatch := some (.http (some status)) }

end Http

section Sessions

variable (p : Principal) (binding : Binding) (plan : AttemptPlan)

def validateRealtimePolicy : Except StoreError Unit :=
  if !p.realtime || !p.nativeAccount then
    .error (failure "forbidden" 403 "realtime and native account grants are required")
  else match binding.realtime with
    | none => .error (failure "unsupported_operation" 400 "realtime policy descriptor is unavailable")
    | some r =>
      if plan.maximumCost.isSome && !r.wholeSessionBound then
        .error (failure "unsupported_policy" 400
          "realtime hard spending requires an enforceable whole-session maximum")
      else do
        forM plan.allowances fun a => do
          require (!((a.kind == .tokens || a.kind == .cost || a.kind == .other "budget") &&
              !r.wholeSessionBound)) (failure "unsupported_policy" 400
            "realtime allowance requires an enforceable whole-session maximum")
          require (!(r.directWebRTC &&
              (a.kind == .concurrency || a.kind == .other "session_concurrency")))
            (failure "unsupported_policy" 400
              "direct media cannot enforce gateway session concurrency")
        require (!(r.directWebRTC && r.requirePayloadEnforcement))
          (failure "unsupported_policy" 400 "direct media cannot enforce ongoing payload policy")

/-- The policy, and the checks of a session that follow. -/
def sessionChecks (checks : Except StoreError Unit) : Except StoreError Unit := do
  validateRealtimePolicy p binding plan
  checks

/-- A session that was refused before the upstream was reached. -/
def notSent (permit : AttemptPermit) (err : StoreError) : Executed :=
  { outcome := outcomeOf permit .notExecuted, err := some err }

def executeWebRTC (x : WebRTCSetup) (permit : AttemptPermit) : Executed :=
  match sessionChecks p binding plan x.checks with
  | .error err => notSent permit err
  | .ok () =>
    let o := outcomeOf permit .outcomeUnknown
    let unknown (status : Nat) (message : String) : Executed :=
      { outcome := o, dispatch := some .webRTC
        err := some (failure "upstream_outcome_unknown" status message) }
    match x.reply with
    | none => unknown 502 "WebRTC setup outcome is unknown"
    | some status =>
      if !success status then
        { outcome := o, dispatch := some .webRTC
          err := some (failure "upstream_error" 502 "WebRTC setup was rejected") }
      else match x.answer with
        | .error err => { outcome := o, dispatch := some .webRTC, err := some err }
        | .ok () =>
          if !x.accepted then
            { unknown 503 "upstream acceptance could not be persisted" with
              outcome := cancelling o true }
          else if !x.written then { outcome := cancelling o true, dispatch := some .webRTC }
          else { outcome := ending o .settled, dispatch := some .webRTC }

/-- `executeRealtime`.  A session that was established is never settled here. -/
def executeRealtime (x : RealtimeSession) (permit : AttemptPermit) : Executed :=
  match sessionChecks p binding plan x.checks with
  | .error err => notSent permit err
  | .ok () =>
    let o := outcomeOf permit .outcomeUnknown
    match x.dial with
    | .error status =>
      { outcome := if status = some 429 ∨ status = some 401 ∨ status = some 403
          then ending o .notExecuted else o
        dispatch := some .websocket
        err := some <| if status = some 429
          then failure "quota_exceeded" 429 "realtime upstream rejected the session"
          else failure "upstream_outcome_unknown" 502 "realtime upstream connection failed" }
    | .ok () =>
      if !x.accepted then
        { outcome := cancelling o true, dispatch := some .websocket
          err := some (failure "upstream_outcome_unknown" 503
            "upstream acceptance could not be persisted") }
      else
        { outcome := cancelling o (!x.joined || x.cancellationRequested)
          dispatch := some .websocket }

/-- The checks of `executeDuplex`; an error says whether the context has ended. -/
def duplexChecks (x : DuplexStream) : Except (StoreError × Bool) Unit := do
  require p.realtime (failure "forbidden" 403 "duplex access is not granted", false)
  x.checks.mapError (·, false)
  require (!(plan.maximumCost.isSome &&
      !binding.realtime.any RealtimePolicy.wholeSessionBound))
    (failure "unsupported_policy" 400
      "duplex hard spending requires an enforceable whole-session maximum", false)
  x.input

def executeDuplex (x : DuplexStream) (permit : AttemptPermit) : Executed :=
  match duplexChecks p binding plan x with
  | .error (err, ended) =>
    { outcome := cancelling (outcomeOf permit .notExecuted) ended, err := some err }
  | .ok () =>
    let o := outcomeOf permit .outcomeUnknown
    if !x.failed then { outcome := ending o .settled, dispatch := some .duplex }
    else if x.ended || x.committed then { outcome := cancelling o true, dispatch := some .duplex }
    else
      { outcome := o, dispatch := some .duplex
        err := some (failure "upstream_outcome_unknown" 502 "duplex execution outcome is unknown") }

end Sessions

/-- An admitted attempt. -/
def execute (p : Principal) (native : Bool) (env : AttemptEnv) (req : Prepared)
    (plan : AttemptPlan) (permit : AttemptPermit) : Executed :=
  match env.cancelled with
  | some err => notSent permit err
  | none =>
    if !req.crossOrigin && !env.leased then
      notSent permit (failure "unavailable" 503 "upstream credential unavailable")
    else if !req.crossOrigin && !env.authorized then
      notSent permit (failure "unavailable" 503 "upstream authorization failed")
    else match req.transport with
      | .duplex => executeDuplex p req.binding plan env.duplex permit
      | .webRTC => executeWebRTC p req.binding plan env.webRTC permit
      | .websocket => executeRealtime p req.binding plan env.realtime permit
      | .http => exchanged native req env.exchange (outcomeOf permit .outcomeUnknown)

/-! ### The attempt -/

/-- What an attempt has done: its marks, its permit, how it was sent, the
outcomes passed to `FinalizeAttempt`, and what it returns. -/
structure Attempted where
  marks : List Phase := []
  permit : Option AttemptPermit := none
  dispatch : Option Dispatch := none
  finalizes : List AttemptOutcome := []
  retry : Bool := false
  err : Option AttemptError := none
deriving DecidableEq

/-- The outcomes that are finalized.  One that was handed over to a job is not
finalized again. -/
def Executed.finalizes (e : Executed) (permit : AttemptPermit) : List AttemptOutcome :=
  match e.transfer with
  | .none => [e.outcome]
  | .refused => [outcomeOf permit .jobPending, e.outcome]
  | .done => [outcomeOf permit .jobPending]

/-- `Gateway.attempt`. -/
def attempt (p : Principal) (native : Bool) (env : AttemptEnv) : Attempted :=
  match env.prepare with
  | .error refusal =>
    { marks := if refusal.headers then [.terminal] else [], err := some (.plain refusal.err) }
  | .ok req => match env.plan with
    | .error err => { marks := [.notDispatched], err := some (markPreIntentStale err) }
    | .ok plan => match env.admission with
      | .error err => { marks := [.notDispatched], err := some (markPreIntentStale err) }
      | .ok permit =>
        let e := execute p native env req plan permit
        { marks := e.marks, permit := some permit, dispatch := e.dispatch,
          finalizes := e.finalizes permit, retry := e.retry, err := e.err.map .plain }

/-- The upstream was reached. -/
def Attempted.dispatched (a : Attempted) : Bool := a.dispatch.isSome

/-- The state an attempt ended in: the last one passed to `FinalizeAttempt`. -/
def Attempted.ended (a : Attempted) : Option AttemptState :=
  a.finalizes.getLast?.bind AttemptOutcome.state

end Hoorific.Gateway
