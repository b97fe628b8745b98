/-
What the marks of an attempt say about its execution.  An attempt that was
sent marks `terminal` or `unknown`, and `terminal` alone only if it ended
in a definite state.  But it may also end without a mark:

* an HTTP exchange whose response cannot be adapted, is relayed to its end
  without an error and without a terminal event, or is a stream for which
  there is no codec;
* every session (WebRTC, WebSocket, duplex).

`AttemptEnv.quiet` says this of the answers of the environment, and
`AttemptEnv.ambiguous` says that the outcome is then not known either.
-/
import Hoorific.Gateway.Attempt

namespace Hoorific.Gateway

/-! ### Conditions on the environment -/

/-- A state that says whether the request was executed. -/
def definite (state : Option AttemptState) : Bool :=
  state == some .settled || state == some .notExecuted || state == some .jobPending

/-- The exchange ends without a mark. -/
def Exchange.quiet (native : Bool) (req : Prepared) (x : Exchange) : Bool :=
  x.reply.any fun status =>
    decide (status < 400) && (!success status || x.accepted) &&
      if !native && req.wireAdapter && x.adapt.isSome then true
      else x.native == .ready false &&
        if req.nativeWire then
          !x.relay.failed && !x.relay.seenError && !x.relay.truncated && !x.relay.seenTerminal
        else req.stream && !req.streamCodecs

/-- The session of a request can be started. -/
def AttemptEnv.opens (p : Principal) (req : Prepared) (plan : AttemptPlan) (env : AttemptEnv) :
    Bool :=
  match req.transport with
  | .duplex => (duplexChecks p req.binding plan env.duplex).toBool
  | .webRTC => (sessionChecks p req.binding plan env.webRTC.checks).toBool
  | .websocket => (sessionChecks p req.binding plan env.realtime.checks).toBool
  | .http => true

/-- The request that is sent to the upstream, if any. -/
def AttemptEnv.sent (p : Principal) (env : AttemptEnv) : Option Prepared :=
  match env.prepare, env.plan, env.admission with
  | .ok req, .ok plan, .ok _ =>
    if env.cancelled.isNone && (req.crossOrigin || env.leased && env.authorized) &&
        env.opens p req plan then some req
    else none
  | _, _, _ => none

/-- The request is sent and no mark is made. -/
def AttemptEnv.quiet (p : Principal) (native : Bool) (env : AttemptEnv) : Bool :=
  (env.sent p).any fun req => match req.transport with
    | .http => env.exchange.quiet native req
    | .duplex | .webRTC | .websocket => true

/-- The request is sent, no mark is made, and the outcome is not known. -/
def AttemptEnv.ambiguous (p : Principal) (native : Bool) (env : AttemptEnv) : Bool :=
  (env.sent p).any fun req => match req.transport with
    | .http => env.exchange.quiet native req
    | .duplex => env.duplex.failed
    | .webRTC =>
      !(env.webRTC.reply.any success && env.webRTC.answer.toBool && env.webRTC.accepted &&
        env.webRTC.written)
    | .websocket => match env.realtime.dial with
      | .error (some status) => status != 429 && status != 401 && status != 403
      | _ => true

/-- The request is portable, sent in an HTTP exchange and answered with 429. -/
def AttemptEnv.tooMany (p : Principal) (native : Bool) (env : AttemptEnv) : Bool :=
  (env.sent p).any fun req => match req.transport with
    | .http => env.exchange.reply == some 429 && !native
    | .duplex | .webRTC | .websocket => false

/-- The plan or the admission is refused because the configuration has changed. -/
def AttemptEnv.stale (env : AttemptEnv) : Bool :=
  match env.prepare, env.plan, env.admission with
  | .ok _, .error err, _ => configurationStale err
  | .ok _, .ok _, .error err => configurationStale err
  | _, _, _ => false

variable {p : Principal} {native : Bool} {env : AttemptEnv} {e : Executed}

theorem AttemptEnv.native_of_tooMany (h : env.tooMany p native = true) : native = false := by
  obtain ⟨req, -, hreq⟩ := (Option.any_eq_true _ _).1 h
  split at hreq
  · rw [Bool.and_eq_true, Bool.not_eq_true'] at hreq
    exact hreq.2
  all_goals cases hreq

theorem AttemptEnv.sent_of_quiet (h : env.quiet p native = true) : (env.sent p).isSome = true := by
  obtain ⟨req, hreq, -⟩ := (Option.any_eq_true _ _).1 h
  rw [hreq]
  rfl

/-! ### The exits of an exchange -/

/-- The state an admitted attempt is finalized in. -/
def Executed.ended (e : Executed) : Option AttemptState :=
  match e.transfer with
  | .done => some .jobPending
  | .none | .refused => e.outcome.state

/-- The marks of an attempt that was sent: `terminal` alone stands for a
definite state, and no mark leaves the state open. -/
structure Executed.Truthful (e : Executed) : Prop where
  marks : ∀ m ∈ e.marks, m = .terminal ∨ m = .unknown
  definite : .terminal ∈ e.marks → .unknown ∉ e.marks → definite e.ended = true
  quiet : e.marks = [] → e.ended = some .outcomeUnknown

/-- What one mark says, if `terminal` is made only where `P` holds. -/
theorem mark_says {marks : List Phase} {mark : Phase} {P : Prop} (h : marks = [mark])
    (hmark : mark = .unknown ∨ mark = .terminal ∧ P) :
    (∀ m ∈ marks, m = .terminal ∨ m = .unknown) ∧ (.terminal ∈ marks → .unknown ∉ marks → P) ∧
      marks ≠ [] := by
  subst h
  rcases hmark with rfl | ⟨rfl, hP⟩
  · simp
  · simp [hP]

theorem Executed.truthful_of_mark {mark : Phase} (h : e.marks = [mark])
    (hmark : mark = .unknown ∨ mark = .terminal ∧ Gateway.definite e.ended = true) :
    e.Truthful := by
  obtain ⟨hall, hdefinite, hne⟩ := mark_says h hmark
  exact ⟨hall, hdefinite, fun hnil => absurd hnil hne⟩

theorem Executed.truthful_of_unknown (h : e.marks = [.unknown]) : e.Truthful :=
  truthful_of_mark h (.inl rfl)

theorem Executed.truthful_of_quiet (h : e.marks = []) (hended : e.ended = some .outcomeUnknown) :
    e.Truthful :=
  ⟨by simp [h], by simp [h], fun _ => hended⟩

section Exits

variable {native : Bool} {req : Prepared} {x : Exchange} {o : AttemptOutcome}

theorem rejected_marks (status : Nat) :
    (rejected native x status o).marks ≠ [] ∧ (rejected native x status o).retry = false ∧
      (rejected native x status o).Truthful := by
  unfold rejected
  simp only
  -- each exit makes one mark
  repeat' split
  all_goals
    refine ⟨List.cons_ne_nil _ _, rfl, Executed.truthful_of_mark rfl ?_⟩
    first | exact .inl rfl | exact .inr ⟨rfl, rfl⟩

/-- The loop over the events marks `unknown` and nothing else, and does so
unless the stream ends well. -/
theorem relayEvents_marks (req : Prepared) (x : Exchange) (events : List (StreamEvent × Bool)) :
    ∀ s : StreamState, (∀ m ∈ s.marks, m = .unknown) → (s.failed = true → .unknown ∈ s.marks) →
      (∀ m ∈ (relayEvents req x events s).1.marks, m = .unknown) ∧
        (.unknown ∈ (relayEvents req x events s).1.marks ∨
          (relayEvents req x events s).2 = false ∧
            (relayEvents req x events s).1.terminal = true ∧
            (relayEvents req x events s).1.failed = false) := by
  induction events with
  | nil =>
    intro s hmarks hfailed
    unfold relayEvents
    split
    next h =>
      refine ⟨hmarks, ?_⟩
      rcases hf : s.failed with - | -
      · exact .inr ⟨rfl, (Bool.and_eq_true_iff.1 h).2, rfl⟩
      · exact .inl (hfailed hf)
    next => exact ⟨by simpa [or_imp, forall_and] using hmarks, .inl (by simp)⟩
  | cons head rest ih =>
    intro s hmarks hfailed
    obtain ⟨event, written⟩ := head
    -- what the event changes keeps the two facts about the state
    have hobserve : (∀ m ∈ (s.observe event).marks, m = .unknown) ∧
        ((s.observe event).failed = true → .unknown ∈ (s.observe event).marks) := by
      cases event with
      | usage u | finish | other => exact ⟨hmarks, hfailed⟩
      | streamError =>
        exact ⟨List.forall_mem_append.2 ⟨hmarks, by simp⟩,
          fun _ => List.mem_append_right _ (List.mem_singleton_self _)⟩
    unfold relayEvents
    split
    · exact ih _ hobserve.1 hobserve.2
    split
    · exact ih _ hobserve.1 hobserve.2
    · exact ⟨List.forall_mem_append.2 ⟨hobserve.1, by simp⟩,
        .inl (List.mem_append_right _ (List.mem_singleton_self _))⟩

/-- The delivery of a response: it marks nothing exactly if `quiet`, and then
the state is the one it started from. -/
structure Executed.Delivers (e : Executed) (state : Option AttemptState) (quiet : Bool) : Prop where
  retry : e.retry = false
  transfer : e.transfer = .none
  marks : ∀ m ∈ e.marks, m = .terminal ∨ m = .unknown
  settled : .terminal ∈ e.marks → .unknown ∉ e.marks → e.outcome.state = some .settled
  quiet_iff : e.marks = [] ↔ quiet = true
  kept : e.marks = [] → e.outcome.state = state

variable {state : Option AttemptState} {status : Nat}

theorem Executed.delivers_of_mark (mark : Phase) (hretry : e.retry = false)
    (htransfer : e.transfer = .none) (h : e.marks = [mark])
    (hmark : mark = .unknown ∨ mark = .terminal ∧ e.outcome.state = some .settled) :
    e.Delivers state false := by
  obtain ⟨hall, hsettled, hne⟩ := mark_says h hmark
  exact ⟨hretry, htransfer, hall, hsettled, by simp [hne], fun hnil => absurd hnil hne⟩

theorem Executed.delivers_of_quiet (hretry : e.retry = false) (htransfer : e.transfer = .none)
    (h : e.marks = []) (hstate : e.outcome.state = state) : e.Delivers state true :=
  ⟨hretry, htransfer, by simp [h], by simp [h], by simp [h], fun _ => hstate⟩

@[simp] theorem cancelling_state (requested : Bool) : (cancelling o requested).state = o.state := by
  unfold cancelling
  split <;> rfl

theorem relayed_delivers (jobPending : Bool) :
    (relayed req x jobPending o).Delivers o.state
      (!x.relay.failed && !x.relay.seenError && !x.relay.truncated &&
        (jobPending || !x.relay.seenTerminal)) := by
  have hquiet : (!x.relay.failed && !x.relay.seenError && !x.relay.truncated &&
      (jobPending || !x.relay.seenTerminal)) =
      (!(!jobPending && !x.relay.failed && !x.relay.seenError && x.relay.seenTerminal) &&
        !(x.relay.failed || x.relay.seenError || x.relay.truncated)) := by grind
  rw [hquiet]
  rcases hsettled : !jobPending && !x.relay.failed && !x.relay.seenError && x.relay.seenTerminal
    with - | -
  · rcases hbroken : x.relay.failed || x.relay.seenError || x.relay.truncated with - | -
    · -- relayed to the end, without an error and without a terminal event
      refine Executed.delivers_of_quiet rfl rfl ?_ ?_
      · simp [relayed, hsettled, hbroken]
      · simp [relayed, hsettled]
    · refine Executed.delivers_of_mark .unknown rfl rfl ?_ (.inl rfl)
      simp [relayed, hsettled, hbroken]
  · refine Executed.delivers_of_mark .terminal rfl rfl ?_ (.inr ⟨rfl, ?_⟩)
    · simp [relayed, hsettled]
    · simp [relayed, hsettled, ending]

theorem translated_delivers (aggregated : Option Usage) :
    (translated req x aggregated o).Delivers o.state false := by
  unfold translated
  repeat' split
  all_goals refine Executed.delivers_of_mark _ rfl rfl rfl ?_
  all_goals first | exact .inl rfl | exact .inr ⟨rfl, rfl⟩

theorem streamed_delivers : (streamed req x o).Delivers o.state (!req.streamCodecs) := by
  unfold streamed
  rcases hcodecs : req.streamCodecs with - | -
  · exact Executed.delivers_of_quiet rfl rfl rfl rfl
  simp only [Bool.not_true, Bool.false_eq_true, if_false]
  split
  · exact Executed.delivers_of_mark .unknown rfl rfl rfl (.inl rfl)
  · exact Executed.delivers_of_mark .unknown rfl rfl rfl (.inl rfl)
  obtain ⟨hmarks, hend⟩ := relayEvents_marks req x x.events { usage := o.usage } (by simp) (by simp)
  generalize relayEvents req x x.events { usage := o.usage } = out at hmarks hend
  obtain ⟨s, broken⟩ := out
  simp only at hmarks hend ⊢
  have hall : ∀ m ∈ s.marks, m = .terminal ∨ m = .unknown := fun m hm => .inr (hmarks m hm)
  rcases hend with hunknown | ⟨rfl, hterminal, hfailed⟩
  · -- an error was marked, whatever comes of the outcome
    have hdelivers : ∀ e : Executed, e.retry = false → e.transfer = .none →
        (∀ m ∈ e.marks, m = .terminal ∨ m = .unknown) → .unknown ∈ e.marks →
        e.Delivers o.state false := by
      intro e hretry htransfer hall hmem
      refine ⟨hretry, htransfer, hall, fun _ h => absurd hmem h, ?_, ?_⟩
      · simp [List.ne_nil_of_mem hmem]
      · intro hnil
        exact absurd hnil (List.ne_nil_of_mem hmem)
    split
    · exact hdelivers _ rfl rfl hall hunknown
    split
    · exact hdelivers _ rfl rfl (List.forall_mem_append.2 ⟨hall, by simp⟩)
        (List.mem_append_left _ hunknown)
    · exact hdelivers _ rfl rfl hall hunknown
  · simp only [hterminal, hfailed, Bool.false_eq_true, if_false, Bool.not_false, Bool.and_self,
      if_true]
    exact ⟨rfl, rfl, List.forall_mem_append.2 ⟨hall, by simp⟩, fun _ _ => rfl, by simp,
      fun h => by simp at h⟩

/-- The response is delivered without a mark if it is relayed to its end
without an error and without a terminal event, or is a stream that no codec
translates. -/
theorem delivered_delivers (jobPending : Bool) :
    (delivered native req x jobPending o).Delivers o.state
      (if req.nativeWire then !x.relay.failed && !x.relay.seenError && !x.relay.truncated &&
          (jobPending || !x.relay.seenTerminal)
        else req.stream && !req.streamCodecs) := by
  unfold delivered
  split
  next => exact relayed_delivers jobPending
  next =>
    split
    next hcodex =>
      simp only [Bool.and_eq_true, Bool.not_eq_true'] at hcodex
      rw [hcodex.2]
      split
      · exact Executed.delivers_of_mark .unknown rfl rfl rfl (.inl rfl)
      · exact translated_delivers _
    next =>
      split
      next hstream =>
        rw [hstream]
        exact streamed_delivers
      next hstream =>
        rw [Bool.eq_false_iff.2 hstream]
        exact translated_delivers _

/-- The inspection and the delivery of a response. -/
theorem inspected_marks (ho : o.state = some .outcomeUnknown) :
    (inspected native req x o).retry = false ∧ (inspected native req x o).Truthful ∧
      ((inspected native req x o).marks = [] ↔ (x.native == .ready false &&
        if req.nativeWire then
          !x.relay.failed && !x.relay.seenError && !x.relay.truncated && !x.relay.seenTerminal
        else req.stream && !req.streamCodecs) = true) := by
  unfold inspected
  rcases hnative : x.native with err | - | (- | -)
  · exact ⟨rfl, Executed.truthful_of_unknown rfl, by simp⟩
  · exact ⟨rfl, Executed.truthful_of_unknown rfl, by simp⟩
  · have h : (delivered native req x false o).Delivers o.state _ := delivered_delivers false
    have hended : (delivered native req x false o).ended =
        (delivered native req x false o).outcome.state := by
      rw [Executed.ended, h.transfer]
    refine ⟨h.retry, ⟨h.marks, ?_, ?_⟩, ?_⟩
    · intro ht hu
      rw [hended, h.settled ht hu]
      rfl
    · intro hnil
      rw [hended, h.kept hnil, ho]
    · simp only [h.quiet_iff, beq_self_eq_true, Bool.true_and, Bool.false_or]
  · have h : (delivered native req x true (ending o .jobPending)).Delivers _ _ :=
      delivered_delivers true
    exact ⟨h.retry, ⟨List.forall_mem_cons.2 ⟨.inl rfl, h.marks⟩, fun _ _ => rfl, nofun⟩, by simp⟩

/-- The answer with a status is given without a mark if it is no error and has
been accepted, and then it cannot be adapted or is delivered without a mark. -/
theorem responded_marks (ho : o.state = some .outcomeUnknown) :
    (responded native req x status o).retry = (status == 429 && !native) ∧
      (responded native req x status o).Truthful ∧
      ((responded native req x status o).marks = [] ↔
        { x with reply := some status }.quiet native req = true) := by
  unfold responded Exchange.quiet
  split
  next h =>
    have hstatus : status = 429 := by simp at h; exact h.1
    exact ⟨by simpa using h, Executed.truthful_of_mark rfl (.inr ⟨rfl, rfl⟩), by simp [hstatus]⟩
  next hretry =>
    rw [show (status == 429 && !native) = false by simpa using hretry]
    split
    next h =>
      have hrejected : (rejected native x status o).marks ≠ [] ∧ _ := rejected_marks status
      refine ⟨hrejected.2.1, hrejected.2.2, iff_of_false hrejected.1 ?_⟩
      simp [Nat.not_lt.2 h]
    next hstatus =>
      split
      next h =>
        simp only [Bool.and_eq_true, Bool.not_eq_true'] at h
        exact ⟨rfl, Executed.truthful_of_unknown rfl, by simp [h]⟩
      next haccepted =>
        have hlt : status < 400 := by omega
        have hok : (!success status || x.accepted) = true := by simpa [imp_iff_not_or] using haccepted
        split
        next err hadapt hwire =>
          refine ⟨rfl, Executed.truthful_of_quiet rfl ho, ?_⟩
          simp [hlt, hok, hadapt, hwire]
        next hnot =>
          have hadapt : (!native && req.wireAdapter && x.adapt.isSome) = false := by
            rcases ha : x.adapt with - | err
            · simp
            rcases hw : (!native && req.wireAdapter) with - | -
            · simp
            · exact absurd hw (by simpa [ha] using hnot err)
          have hinspected : (inspected native req x o).retry = false ∧ _ := inspected_marks ho
          refine ⟨hinspected.1, hinspected.2.1, ?_⟩
          rw [hinspected.2.2]
          simp [hlt, hok, hadapt]

end Exits

/-! ### The marks of an attempt -/

section Attempts

variable {p : Principal} {native : Bool} {env : AttemptEnv}

/-- What is known of an admitted attempt that was executed: how it was sent,
and, if it was, what its marks say. -/
structure Executed.Reports (e : Executed) (sent quiet ambiguous tooMany : Bool) : Prop where
  dispatched : e.dispatch.isSome = sent
  retry : e.retry = tooMany
  transferred : sent = false → e.transfer = .none
  unsent : sent = false → e.marks = [] ∧ e.outcome.state = some .notExecuted ∧ e.err.isSome = true
  marks : ∀ m ∈ e.marks, m = .terminal ∨ m = .unknown
  definite : .unknown ∉ e.marks → ambiguous = false → Gateway.definite e.ended = true
  quiet : sent = true → (e.marks = [] ↔ quiet = true)
  ambiguous : ambiguous = true → e.marks = [] ∧ e.ended = some .outcomeUnknown
  tooMany : tooMany = true →
    e.marks = [.terminal] ∧ e.transfer = .none ∧ e.outcome.state = some .notExecuted ∧
      e.dispatch = some (.http (some 429)) ∧ e.err.isSome = true

theorem notSent_reports (err : StoreError) (ho : o.state = some .notExecuted) :
    ({ outcome := o, err := some err } : Executed).Reports false false false false :=
  { dispatched := rfl
    retry := rfl
    transferred := fun _ => rfl
    unsent := fun _ => ⟨rfl, ho, rfl⟩
    marks := nofun
    definite := fun _ _ => by rw [Executed.ended, ho]; rfl
    quiet := nofun
    ambiguous := nofun
    tooMany := nofun }

theorem session_reports (hdispatch : e.dispatch.isSome = true) (hretry : e.retry = false)
    (hmarks : e.marks = []) (htransfer : e.transfer = .none) {ambiguous : Bool}
    (hstate : if ambiguous then e.outcome.state = some .outcomeUnknown
      else Gateway.definite e.outcome.state = true) :
    e.Reports true true ambiguous false := by
  have hended : e.ended = e.outcome.state := by rw [Executed.ended, htransfer]
  refine ⟨hdispatch, hretry, nofun, nofun, by simp [hmarks], ?_, by simp [hmarks], ?_, nofun⟩
  · rintro - rfl
    rw [hended]
    exact hstate
  · rintro rfl
    exact ⟨hmarks, hended.trans hstate⟩

variable {binding : Binding} {plan : AttemptPlan} {req : Prepared} {permit : AttemptPermit}

theorem executeDuplex_reports {x : DuplexStream} (permit : AttemptPermit) :
    (executeDuplex p binding plan x permit).Reports (duplexChecks p binding plan x).toBool
      (duplexChecks p binding plan x).toBool
      ((duplexChecks p binding plan x).toBool && x.failed) false := by
  unfold executeDuplex
  rcases duplexChecks p binding plan x with err | ⟨⟩
  · exact notSent_reports err.1 (cancelling_state err.2)
  show Executed.Reports _ true true (true && x.failed) false
  rcases hfailed : x.failed with - | -
  · exact session_reports rfl rfl rfl rfl rfl
  · simp only [Bool.not_true, Bool.false_eq_true, if_false]
    split <;> exact session_reports rfl rfl rfl rfl rfl

theorem executeRealtime_reports {x : RealtimeSession} (permit : AttemptPermit) :
    (executeRealtime p binding plan x permit).Reports (sessionChecks p binding plan x.checks).toBool
      (sessionChecks p binding plan x.checks).toBool
      ((sessionChecks p binding plan x.checks).toBool && match x.dial with
        | .error (some status) => status != 429 && status != 401 && status != 403
        | _ => true) false := by
  unfold executeRealtime
  rcases sessionChecks p binding plan x.checks with err | ⟨⟩
  · exact notSent_reports err rfl
  rcases hdial : x.dial with (- | status) | ⟨⟩
  · exact session_reports rfl rfl rfl rfl rfl
  · refine session_reports rfl rfl rfl rfl ?_
    by_cases hrefused : status = 429 ∨ status = 401 ∨ status = 403
    · rcases hrefused with rfl | rfl | rfl <;> rfl
    have hne : (status != 429 && status != 401 && status != 403) = true := by
      simpa [not_or, and_assoc] using hrefused
    simp [hne, hrefused, Except.toBool, outcomeOf]
  · simp only
    split
    · exact session_reports rfl rfl rfl rfl rfl
    · exact session_reports rfl rfl rfl rfl (cancelling_state _)

theorem executeWebRTC_reports {x : WebRTCSetup} (permit : AttemptPermit) :
    (executeWebRTC p binding plan x permit).Reports (sessionChecks p binding plan x.checks).toBool
      (sessionChecks p binding plan x.checks).toBool
      ((sessionChecks p binding plan x.checks).toBool &&
        !(x.reply.any success && x.answer.toBool && x.accepted && x.written)) false := by
  unfold executeWebRTC
  rcases sessionChecks p binding plan x.checks with err | ⟨⟩
  · exact notSent_reports err rfl
  rcases hreply : x.reply with - | status
  · exact session_reports rfl rfl rfl rfl rfl
  rcases hsuccess : success status with - | -
  · simp only [hsuccess, Bool.not_false, if_true, Option.any_some, Bool.false_and]
    exact session_reports rfl rfl rfl rfl rfl
  simp only [hsuccess, Bool.not_true, Bool.false_eq_true, if_false, Option.any_some, Bool.true_and]
  rcases x.answer with err | ⟨⟩ <;> rcases x.accepted with - | - <;> rcases x.written with - | -
  all_goals exact session_reports rfl rfl rfl rfl rfl

/-- What a session reports, in terms of the request that is sent if it opens. -/
theorem Executed.Reports.opened {opens ambiguous : Bool} {quiet fails tooMany : Prepared → Bool}
    (h : e.Reports opens opens (opens && ambiguous) false) (hquiet : quiet req = true)
    (hfails : fails req = ambiguous) (htooMany : tooMany req = false) :
    e.Reports (if opens then some req else none).isSome
      ((if opens then some req else none).any quiet) ((if opens then some req else none).any fails)
      ((if opens then some req else none).any tooMany) := by
  rcases opens with - | -
  · exact h
  · simpa [hquiet, hfails, htooMany] using h

/-- An HTTP exchange marks `terminal` or `unknown`, or is quiet. -/
theorem exchanged_reports {x : Exchange} {o : AttemptOutcome}
    (ho : o.state = some .outcomeUnknown) :
    (exchanged native req x o).Reports true (x.quiet native req) (x.quiet native req)
      (x.reply == some 429 && !native) := by
  -- it is enough that the marks are truthful, and that quiet exits make none
  have hreports : ∀ e : Executed, e.dispatch.isSome = true → e.Truthful →
      (e.marks = [] ↔ x.quiet native req = true) → e.retry = (x.reply == some 429 && !native) →
      ((x.reply == some 429 && !native) = true → e.marks = [.terminal] ∧ e.transfer = .none ∧
        e.outcome.state = some .notExecuted ∧ e.dispatch = some (.http (some 429)) ∧
        e.err.isSome = true) →
      e.Reports true (x.quiet native req) (x.quiet native req) (x.reply == some 429 && !native) := by
    intro e hdispatch htruthful hquiet hretry htooMany
    refine ⟨hdispatch, hretry, nofun, nofun, htruthful.marks, ?_, fun _ => hquiet, ?_, htooMany⟩
    · intro hunknown hloud
      have hne : e.marks ≠ [] := fun hnil => by
        rw [hquiet.1 hnil] at hloud
        cases hloud
      obtain ⟨m, hm⟩ := List.exists_mem_of_ne_nil _ hne
      rcases htruthful.marks m hm with rfl | rfl
      · exact htruthful.definite hm hunknown
      · exact absurd hm hunknown
    · intro h
      exact ⟨hquiet.2 h, htruthful.quiet (hquiet.2 h)⟩
  rcases Option.eq_none_or_eq_some x.reply with hreply | ⟨status, hreply⟩
  · have hexchanged : exchanged native req x o =
        { outcome := o, marks := [.unknown], dispatch := some (.http none)
          err := some (failure "upstream_outcome_unknown" 502
            "upstream execution outcome is unknown") } := by
      rw [exchanged, hreply]
    rw [hexchanged]
    refine hreports _ rfl (Executed.truthful_of_unknown rfl) ?_ ?_ ?_
    · simp [Exchange.quiet, hreply]
    · simp [hreply]
    · simp [hreply]
  · have hexchanged : exchanged native req x o =
        { responded native req x status o with dispatch := some (.http (some status)) } := by
      rw [exchanged, hreply]
    have hmarks : (responded native req x status o).retry = _ ∧ _ := responded_marks ho
    obtain ⟨hretry, htruthful, hquiet⟩ := hmarks
    rw [show { x with reply := some status } = x by rw [← hreply]] at hquiet
    rw [hexchanged]
    refine hreports _ rfl ⟨htruthful.marks, htruthful.definite, htruthful.quiet⟩ hquiet ?_ ?_
    · rw [hreply]
      exact hretry
    · intro h
      simp only [hreply, Bool.and_eq_true, beq_iff_eq, Option.some.injEq, Bool.not_eq_true'] at h
      obtain ⟨rfl, rfl⟩ := h
      exact ⟨rfl, rfl, rfl, rfl, rfl⟩

/-- What an admitted attempt reports. -/
theorem execute_reports (hprepare : env.prepare = .ok req) (hplan : env.plan = .ok plan)
    (hadmission : env.admission = .ok permit) :
    (execute p native env req plan permit).Reports (env.sent p).isSome (env.quiet p native)
      (env.ambiguous p native) (env.tooMany p native) := by
  have hunsent : env.sent p = none → ∀ err,
      (notSent permit err).Reports (env.sent p).isSome (env.quiet p native)
        (env.ambiguous p native) (env.tooMany p native) := by
    intro hnone err
    rw [AttemptEnv.quiet, AttemptEnv.ambiguous, AttemptEnv.tooMany, hnone]
    exact notSent_reports err rfl
  have hsent : env.sent p = if env.cancelled.isNone &&
      (req.crossOrigin || env.leased && env.authorized) && env.opens p req plan
      then some req else none := by
    rw [AttemptEnv.sent, hprepare, hplan, hadmission]
  unfold execute
  rcases hcancelled : env.cancelled with - | err
  · simp only
    split
    next h =>
      simp only [Bool.and_eq_true, Bool.not_eq_true'] at h
      exact hunsent (by simp [hsent, h]) _
    next hlease =>
      split
      next h =>
        simp only [Bool.and_eq_true, Bool.not_eq_true'] at h
        exact hunsent (by simp [hsent, h]) _
      next hauth =>
        have hready : (req.crossOrigin || env.leased && env.authorized) = true := by
          rcases hcross : req.crossOrigin with - | -
          · simp only [hcross, Bool.not_false, Bool.true_and, Bool.not_eq_true',
              Bool.not_eq_false] at hlease hauth
            simp [hlease, hauth]
          · rfl
        have hopen : env.sent p = if env.opens p req plan then some req else none := by
          rw [hsent, hcancelled, hready]
          simp
        rw [AttemptEnv.quiet, AttemptEnv.ambiguous, AttemptEnv.tooMany, hopen]
        rcases htransport : req.transport with - | - | - | -
        · rw [AttemptEnv.opens, htransport]
          refine (executeDuplex_reports permit).opened ?_ ?_ ?_ <;> rw [htransport]
        · rw [AttemptEnv.opens, htransport]
          refine (executeWebRTC_reports permit).opened ?_ ?_ ?_ <;> rw [htransport]
        · rw [AttemptEnv.opens, htransport]
          refine (executeRealtime_reports permit).opened ?_ ?_ ?_ <;> rw [htransport]
        have h : (exchanged native req env.exchange (outcomeOf permit .outcomeUnknown)).Reports
            _ _ _ _ := exchanged_reports rfl
        simpa [AttemptEnv.opens, htransport] using h
  · exact hunsent (by simp [hsent, hcancelled]) err

theorem attempt_admitted (hprepare : env.prepare = .ok req) (hplan : env.plan = .ok plan)
    (hadmission : env.admission = .ok permit) :
    attempt p native env =
      { marks := (execute p native env req plan permit).marks, permit := some permit
        dispatch := (execute p native env req plan permit).dispatch
        finalizes := (execute p native env req plan permit).finalizes permit
        retry := (execute p native env req plan permit).retry
        err := (execute p native env req plan permit).err.map .plain } := by
  rw [attempt, hprepare]
  simp only [hplan, hadmission]

theorem Executed.getLast_finalizes (e : Executed) (permit : AttemptPermit) :
    (e.finalizes permit).getLast?.bind AttemptOutcome.state = e.ended := by
  unfold Executed.finalizes Executed.ended
  cases e.transfer <;> rfl

/-- What an attempt says of itself, in terms of its environment. -/
structure Attempted.Reports (a : Attempted) (p : Principal) (native : Bool) (env : AttemptEnv) :
    Prop where
  dispatched : a.dispatched = (env.sent p).isSome
  retry : a.retry = env.tooMany p native
  stale : a.err.any AttemptError.isPreIntentStale = env.stale
  /-- an attempt that is not sent fails, and is not executed -/
  unsent : a.dispatched = false →
    a.err.isSome = true ∧ (∀ o ∈ a.finalizes, o.state = some .notExecuted) ∧ .unknown ∉ a.marks
  refused : env.stale = true → a.marks = [.notDispatched] ∧ a.dispatched = false
  marks : a.dispatched = true → ∀ m ∈ a.marks, m = .terminal ∨ m = .unknown
  definite : a.dispatched = true → .unknown ∉ a.marks → env.ambiguous p native = false →
    definite a.ended = true
  quiet : a.dispatched = true → (a.marks = [] ↔ env.quiet p native = true)
  ambiguous : env.ambiguous p native = true →
    a.dispatched = true ∧ a.marks = [] ∧ a.ended = some .outcomeUnknown
  tooMany : env.tooMany p native = true → a.marks = [.terminal] ∧
    a.dispatch = some (.http (some 429)) ∧ a.finalizes.map AttemptOutcome.state = [some .notExecuted]
      ∧ a.err.isSome = true

theorem refused_reports {a : Attempted} (hsent : env.sent p = none) (hdispatch : a.dispatch = none)
    (hretry : a.retry = false) (hfinalizes : a.finalizes = []) (herr : a.err.isSome = true)
    (hstale : a.err.any AttemptError.isPreIntentStale = env.stale) (hunknown : .unknown ∉ a.marks)
    (hrefused : env.stale = true → a.marks = [.notDispatched]) : a.Reports p native env := by
  have hnot : a.dispatched = false := by
    rw [Attempted.dispatched, hdispatch]
    rfl
  have hnone : ∀ f, (env.sent p).any f = false := by
    intro f
    rw [hsent]
    rfl
  have hunsent : ∀ {q : Prop}, a.dispatched = true → q := by
    intro q h
    rw [hnot] at h
    cases h
  refine ⟨?_, ?_, hstale, ?_, fun h => ⟨hrefused h, hnot⟩, hunsent, hunsent, hunsent, ?_, ?_⟩
  · rw [hnot, hsent]
    rfl
  · rw [hretry, AttemptEnv.tooMany, hnone]
  · intro _
    refine ⟨herr, ?_, hunknown⟩
    intro o ho
    rw [hfinalizes] at ho
    cases ho
  · intro h
    rw [AttemptEnv.ambiguous, hnone] at h
    cases h
  · intro h
    rw [AttemptEnv.tooMany, hnone] at h
    cases h

/-- An error of the planner or the admission is marked as stale if it says
that the configuration has changed. -/
theorem markPreIntentStale_stale (err : StoreError) :
    (markPreIntentStale err).isPreIntentStale = configurationStale err := by
  cases err with
  | gateway code status message =>
    unfold markPreIntentStale
    simp only
    split
    next h => exact h.symm
    next h => exact (Bool.eq_false_iff.2 h).symm
  | plain | noRows | constraint => rfl

/-- **What an attempt reports**, in terms of its environment. -/
theorem attempt_reports (p : Principal) (native : Bool) (env : AttemptEnv) :
    (attempt p native env).Reports p native env := by
  rcases hprepare : env.prepare with refusal | req
  · have hattempt : attempt p native env =
        { marks := if refusal.headers then [.terminal] else [],
          err := some (.plain refusal.err) } := by
      rw [attempt, hprepare]
    rw [hattempt]
    refine refused_reports ?_ rfl rfl rfl rfl ?_ ?_ ?_
    · rw [AttemptEnv.sent, hprepare]
    · rw [AttemptEnv.stale, hprepare]
      rfl
    · show Phase.unknown ∉ if refusal.headers then [Phase.terminal] else []
      split <;> simp
    · intro h
      rw [AttemptEnv.stale, hprepare] at h
      cases h
  -- a refused plan and a refused admission are told alike
  have hrefused : ∀ err, env.sent p = none → env.stale = configurationStale err →
      attempt p native env = { marks := [.notDispatched], err := some (markPreIntentStale err) } →
      (attempt p native env).Reports p native env := by
    intro err hsent hstale hattempt
    rw [hattempt]
    refine refused_reports hsent rfl rfl rfl rfl ?_ (by simp) fun _ => rfl
    rw [hstale, ← markPreIntentStale_stale]
    rfl
  rcases hplan : env.plan with err | plan
  · refine hrefused err ?_ ?_ ?_
    · rw [AttemptEnv.sent, hprepare, hplan]
    · rw [AttemptEnv.stale, hprepare, hplan]
    · rw [attempt, hprepare]
      simp only [hplan]
  rcases hadmission : env.admission with err | permit
  · refine hrefused err ?_ ?_ ?_
    · rw [AttemptEnv.sent, hprepare, hplan, hadmission]
    · rw [AttemptEnv.stale, hprepare, hplan, hadmission]
    · rw [attempt, hprepare]
      simp only [hplan, hadmission]
  -- the attempt is admitted
  have h : (execute p native env req plan permit).Reports _ _ _ _ :=
    execute_reports hprepare hplan hadmission
  rw [attempt_admitted hprepare hplan hadmission]
  have hstale : env.stale = false := by rw [AttemptEnv.stale, hprepare, hplan, hadmission]
  have hended := Executed.getLast_finalizes (execute p native env req plan permit) permit
  generalize execute p native env req plan permit = e at h hended
  have hsent : ∀ {b}, e.dispatch.isSome = b → (env.sent p).isSome = b := fun hb =>
    h.dispatched.symm.trans hb
  refine ⟨h.dispatched, h.retry, ?_, ?_, ?_, fun _ => h.marks, ?_, fun hd => h.quiet (hsent hd),
    ?_, ?_⟩
  · rw [hstale]
    rcases e.err with - | err <;> rfl
  · intro hd
    obtain ⟨hmarks, hstate, herr⟩ := h.unsent (hsent hd)
    refine ⟨?_, ?_, ?_⟩
    · rw [Option.isSome_map]
      exact herr
    · show ∀ o ∈ e.finalizes permit, o.state = some .notExecuted
      rw [Executed.finalizes, h.transferred (hsent hd)]
      simpa using hstate
    · show Phase.unknown ∉ e.marks
      rw [hmarks]
      exact List.not_mem_nil
  · intro hs
    rw [hstale] at hs
    cases hs
  · intro _ hunknown hnot
    show definite ((e.finalizes permit).getLast?.bind AttemptOutcome.state) = true
    rw [hended]
    exact h.definite hunknown hnot
  · intro hambiguous
    obtain ⟨hmarks, hstate⟩ := h.ambiguous hambiguous
    refine ⟨?_, hmarks, hended.trans hstate⟩
    rcases hnone : env.sent p with - | req'
    · rw [AttemptEnv.ambiguous, hnone] at hambiguous
      cases hambiguous
    show e.dispatch.isSome = true
    rw [h.dispatched, hnone]
    rfl
  · intro htooMany
    obtain ⟨hmarks, htransfer, hstate, hdispatch, herr⟩ := h.tooMany htooMany
    refine ⟨hmarks, hdispatch, ?_, ?_⟩
    · show (e.finalizes permit).map AttemptOutcome.state = _
      rw [Executed.finalizes, htransfer]
      simpa using hstate
    · rw [Option.isSome_map]
      exact herr

end Attempts

end Hoorific.Gateway
