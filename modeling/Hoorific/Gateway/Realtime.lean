/-
Realtime sessions and the limits they were admitted under.  A session that
is established cannot be metered: `validateRealtimePolicy` refuses a plan
with token or cost allowances unless the binding bounds the whole session,
and a plan with concurrency allowances if the media do not pass through
the gateway.

Here the attempt of a request is put together with the planner and the
store: `attemptWith` plans with `PlanAttempt`, admits with `BeginAttempt`
and executes the plan the gateway holds.  That plan comes from the planner
and has no allowances, so the loop of the check never sees one; the limits
are resolved inside the admission and stand in the stored plan only.  What
is left of the check is the cost, since a cost allowance needs a cost
bound, which the gateway's own plan has too.
-/
import Hoorific.Gateway.Attempt
import Hoorific.Store.Planner
import Hoorific.Store.Resolve

namespace Hoorific.Gateway

/-! ### The attempt with its planner and its store -/

/-- What an attempt is planned from: the snapshot, the selected target, the
operation and the body, and the ids drawn for it. -/
structure PlanInput where
  snapshot : RuntimeSnapshot
  connection : Connection
  /-- the model of the target; empty if it has none -/
  catalogID : String
  target : Target
  operation : Operation
  body : RequestBody
  requestID : String
  attemptID : String
  deadline : Time

/-- The plan the gateway passes to the planner. -/
def PlanInput.submitted (x : PlanInput) (p : Principal) : AttemptPlan :=
  { tenantID := p.tenantID, requestID := x.requestID, attemptID := x.attemptID, keyID := p.keyID,
    keyRevision := p.keyRevision, configRevision := x.snapshot.revision,
    connectionID := x.connection.id, accountID := x.connection.accountID, modelID := x.catalogID,
    deadline := x.deadline }

/-- The answer of the planner. -/
def PlanInput.planned (x : PlanInput) (d : JsonDecoder) (p : Principal) :
    Except StoreError AttemptPlan :=
  planAttempt d p x.snapshot x.target x.operation x.body (x.submitted p)

/-- `Gateway.attempt` with the answers of `PlanAttempt` and of `BeginAttempt` in
the store `s`; `session` is the principal of the context, and the clock is
read twice. -/
def attemptWith (d : JsonDecoder) (p : Principal) (session : Option Principal) (native : Bool)
    (env : AttemptEnv) (x : PlanInput) (s : Store) (now planNow : ℤ) : Attempted × Store :=
  match env.prepare, x.planned d p with
  | .ok _, .ok plan =>
    let (admission, s') := Tx.commit (beginAttempt session plan now planNow) s
    (attempt p native { env with plan := .ok plan, admission := admission }, s')
  | _, answer => (attempt p native { env with plan := answer }, s)

/-! ### What the check sees -/

variable {d : JsonDecoder} {p : Principal} {session : Option Principal} {native : Bool}
  {env : AttemptEnv} {x : PlanInput} {s s' : Store} {now planNow : ℤ} {req : Prepared}
  {plan : AttemptPlan} {permit : AttemptPermit} {binding : Binding}

/-- A plan the check accepts has a cost bound only for a whole session. -/
theorem validateRealtimePolicy_ok (h : validateRealtimePolicy p binding plan = .ok ()) :
    ∃ policy, binding.realtime = some policy ∧
      (policy.wholeSessionBound = false → plan.maximumCost = none) := by
  unfold validateRealtimePolicy at h
  split at h
  · cases h
  rcases hpolicy : binding.realtime with - | policy <;> rw [hpolicy] at h
  · cases h
  simp only at h
  split at h
  · cases h
  next hcost =>
    refine ⟨policy, rfl, fun hbound => ?_⟩
    simpa [hbound] using hcost

/-- The upstream is reached as a session: by `executeRealtime` or `executeWebRTC`. -/
def Dispatch.opensSession : Dispatch → Bool
  | .webRTC | .websocket => true
  | .http _ | .duplex => false

theorem sessionChecks_ok {checks : Except StoreError Unit}
    (h : sessionChecks p binding plan checks = .ok ()) :
    validateRealtimePolicy p binding plan = .ok () := by
  obtain ⟨⟨⟩, hpolicy, -⟩ := Check.bind_ok.1 h
  exact hpolicy

/-- A session that reaches the upstream has passed the check. -/
theorem execute_session
    (h : (execute p native env req plan permit).dispatch.any Dispatch.opensSession = true) :
    validateRealtimePolicy p req.binding plan = .ok () := by
  unfold execute at h
  split at h
  · cases h
  split at h
  · cases h
  split at h
  · cases h
  rcases htransport : req.transport with - | - | - | -
  all_goals rw [htransport] at h
  · simp only [executeDuplex] at h
    repeat' split at h
    all_goals cases h
  · rcases hchecks : sessionChecks p req.binding plan env.webRTC.checks with err | ⟨⟩
    · simp only [executeWebRTC, hchecks] at h
      cases h
    · exact sessionChecks_ok hchecks
  · rcases hchecks : sessionChecks p req.binding plan env.realtime.checks with err | ⟨⟩
    · simp only [executeRealtime, hchecks] at h
      cases h
    · exact sessionChecks_ok hchecks
  · simp only [exchanged] at h
    split at h <;> cases h

/-- **A session is opened with the plan the planner made**, admitted by the store
and checked as the planner left it. -/
theorem attemptWith_session
    (h : (attemptWith d p session native env x s now planNow).1.dispatch.any
      Dispatch.opensSession = true) :
    ∃ req plan permit, env.prepare = .ok req ∧ x.planned d p = .ok plan ∧
      Tx.Runs (beginAttempt session plan now planNow) s permit
        (attemptWith d p session native env x s now planNow).2 ∧
      validateRealtimePolicy p req.binding plan = .ok () := by
  rcases hprepare : env.prepare with refusal | req
  · simp only [attemptWith, hprepare, attempt] at h
    cases h
  rcases hplan : x.planned d p with err | plan
  · simp only [attemptWith, hprepare, hplan, attempt] at h
    cases h
  rcases hbegin : Tx.commit (beginAttempt session plan now planNow) s with ⟨admission, s'⟩
  simp only [attemptWith, hprepare, hplan, hbegin, attempt] at h ⊢
  rcases admission with err | permit
  · cases h
  · refine ⟨req, plan, permit, rfl, rfl, Tx.commit_ok_iff.1 hbegin, ?_⟩
    exact execute_session h

/-! ### What the store admits -/

/-- The plan can be enforced on a session of this policy. -/
def RealtimeRespected (policy : RealtimePolicy) (plan : AttemptPlan) : Prop :=
  (policy.wholeSessionBound = false →
    ∀ a ∈ plan.allowances, a.kind ≠ .tokens ∧ a.kind ≠ .cost) ∧
  (policy.directWebRTC = true → ∀ a ∈ plan.allowances, a.kind ≠ .concurrency)

/-- A stored limit of this kind applies to the plan: a row of `policy_limits` of
the tenant, with a positive maximum, a scope of the plan and a window. -/
def Limited (s : Store) (plan : AttemptPlan) (now : ℤ) (kind : AllowanceKind) : Prop :=
  ∃ e ∈ matchingLimits s plan, e.1.kind = kind ∧ (resolvedWindow s e.1 now).isSome = true

instance (s : Store) (plan : AttemptPlan) (now : ℤ) (kind : AllowanceKind) :
    Decidable (Limited s plan now kind) :=
  inferInstanceAs (Decidable (∃ e ∈ matchingLimits s plan, _))

theorem forall_kind_ne {stored : AttemptPlan}
    (h : Tx.Runs (resolveAllowances plan planNow) s stored s') (kind : AllowanceKind) :
    (∀ a ∈ stored.allowances, a.kind ≠ kind) ↔ ¬ Limited s plan planNow kind := by
  rw [Limited, ← resolveAllowances_kind h]
  simp

/-- **A realtime session respects the limits it was admitted under** exactly if,
unless the whole session is bounded, no limit on tokens applies to it, and
no limit on concurrency if its media bypass the gateway. -/
theorem realtime_respected_iff (d : JsonDecoder) (p : Principal) (session : Option Principal)
    (native : Bool) (env : AttemptEnv) (x : PlanInput) (s : Store) (now planNow : ℤ)
    (hfresh : (⟨p.tenantID, x.attemptID⟩ : AttemptKey) ∉ s.attempts)
    (hsession : (attemptWith d p session native env x s now planNow).1.dispatch.any
      Dispatch.opensSession = true) :
    ∃ req policy plan row, env.prepare = .ok req ∧ req.binding.realtime = some policy ∧
      x.planned d p = .ok plan ∧
      (attemptWith d p session native env x s now planNow).2.attempts.lookup
        ⟨p.tenantID, x.attemptID⟩ = some row ∧
      (RealtimeRespected policy row.data.plan ↔
        (policy.wholeSessionBound = true ∨ ¬ Limited s plan planNow .tokens) ∧
          (policy.directWebRTC = false ∨ ¬ Limited s plan planNow .concurrency)) := by
  obtain ⟨req, plan, permit, hprepare, hplan, hbegin, hcheck⟩ := attemptWith_session hsession
  obtain ⟨policy, hpolicy, hcost⟩ := validateRealtimePolicy_ok hcheck
  have hframe := planAttempt_ok hplan
  have htenant : plan.tenantID = p.tenantID := by rw [hframe]; rfl
  have hattempt : plan.attemptID = x.attemptID := by rw [hframe]; rfl
  obtain ⟨stored, s₁, -, hresolve, hpolicyOnly, hstored, hreplayed | hadmitted⟩ :=
    beginAttempt_runs hbegin
  · -- the id is new, so nothing is answered again
    obtain ⟨-, row, hrow, -⟩ := hreplayed
    rw [hstored, htenant, hattempt] at hrow
    exact absurd (Table.mem_of_lookup hrow) hfresh
  · obtain ⟨subject, held, price, s₂, hnew, hloop, hstore⟩ := hadmitted
    obtain ⟨hheld, hadm⟩ := admitted_of_reserved hnew hloop
    rw [← hstore] at hadm
    have hkey : (⟨stored.tenantID, stored.attemptID⟩ : AttemptKey) = ⟨p.tenantID, x.attemptID⟩ := by
      rw [hstored, ← htenant, ← hattempt]
    refine ⟨req, policy, plan, newAttempt stored plan subject held price s.revision now, hprepare,
      hpolicy, hplan, ?_, ?_⟩
    · rw [hadm.attempts, hkey, AList.lookup_insert]
    · have hbound : stored.maximumCost = plan.maximumCost := by rw [hstored]
      have hnone := forall_kind_ne hresolve .tokens
      show RealtimeRespected policy stored ↔ _
      rw [RealtimeRespected, forall_kind_ne hresolve .concurrency]
      apply and_congr
      · -- without a bound on the session there is no cost allowance either
        rcases hsessionBound : policy.wholeSessionBound with - | -
        · have hunpriced := hbound.trans (hcost hsessionBound)
          have hfree : ∀ a ∈ stored.allowances, a.kind ≠ .cost := by
            intro a ha hkind
            obtain ⟨amount, -, hamount⟩ := forall₂_exists hheld ha
            simp [admissionHold, admissionAmount, requiredAmount, hkind, hunpriced,
              Except.map] at hamount
          rw [← hnone]
          constructor
          · exact fun h => .inr fun a ha => (h rfl a ha).1
          · rintro (h | h)
            · cases h
            · exact fun _ a ha => ⟨h a ha, hfree a ha⟩
        · exact ⟨fun _ => .inl rfl, fun _ h => by cases h⟩
      · rcases policy.directWebRTC with - | -
        · exact ⟨fun _ => .inl rfl, fun _ h => by cases h⟩
        · simp

/-! ### A session on a model with bounds -/

def sampleConnection : Connection :=
  { tenantID := "t", id := "c", version := 1, connector := "openai" }

/-- A realtime model with known limits and without a price. -/
def sampleModel : Model :=
  { catalogID := "m", id := "gpt-realtime", connectionID := "c", version := 1,
    operations := ["realtime"], contextLimit := some 100, outputLimit := some 50 }

def sampleInput : PlanInput :=
  { snapshot :=
      { revision := 0, connections := AList.singleton "c" sampleConnection
        models := AList.singleton "m" sampleModel }
    connection := sampleConnection, catalogID := "m"
    target := .modelCall sampleConnection sampleModel "", operation := "realtime", body := .empty
    requestID := "r1", attemptID := "x", deadline := Time.ofUnix 1000 }

/-- A key with the grants for native realtime sessions. -/
def realtimePrincipal : Principal :=
  { tenantID := "t", keyID := "k", keyRevision := 1, connections := ["c"], nativeAccount := true,
    realtime := true }

def plainDecoder : JsonDecoder := ⟨fun _ _ => false, fun _ => true⟩

/-- A WebSocket session that is not bounded as a whole. -/
def sampleSession : AttemptEnv :=
  { prepare := .ok { binding := ⟨.websocket, some { requirePayloadEnforcement := true }⟩ }
    plan := .error .noRows, admission := .error .noRows }

/-- The tenant with the model and limits on its running attempts and its tokens. -/
def limitedStore (tokensPerMinute : ℤ) : Store :=
  PolicyOp.step
    { sampleStore with
      resources := sampleStore.resources.insert ⟨"t", .models, "m"⟩
        (⟨1, ({ connectionID := "c", upstreamID := "gpt-realtime", operations := ["realtime"],
                contextLimit := some 100, outputLimit := some 50, enabled := true } : ModelData)⟩ :
          Resource .models) }
    (.sync "t" "l" (some { scope := .tenant, scopeID := "t", concurrency := 4,
                           tokensPerMinute := tokensPerMinute }) 100)

/-- The session of the sample in that tenant. -/
def sampleAttempt (tokensPerMinute : ℤ) : Attempted × Store :=
  attemptWith plainDecoder realtimePrincipal none true sampleSession sampleInput
    (limitedStore tokensPerMinute) 100 100

/-- Without a limit on tokens the session is respected. -/
theorem sampleAttempt_respected :
    (sampleAttempt 0).1.dispatch = some .websocket ∧
      ∃ row, (sampleAttempt 0).2.attempts.lookup ⟨"t", "x"⟩ = some row ∧
        RealtimeRespected { requirePayloadEnforcement := true } row.data.plan := by
  have hdispatch : (sampleAttempt 0).1.dispatch = some .websocket := by decide +kernel
  refine ⟨hdispatch, ?_⟩
  have hfresh : (⟨"t", "x"⟩ : AttemptKey) ∉ (limitedStore 0).attempts := by decide +kernel
  have hsession : (sampleAttempt 0).1.dispatch.any Dispatch.opensSession = true := by
    rw [hdispatch]
    rfl
  obtain ⟨req, policy, plan, row, hreq, hpolicy, hplan, hrow, hiff⟩ :=
    realtime_respected_iff plainDecoder realtimePrincipal none true sampleSession sampleInput
      (limitedStore 0) 100 100 hfresh hsession
  obtain rfl : _ = req := Except.ok.inj hreq
  cases hpolicy
  refine ⟨row, hrow, hiff.2 ⟨.inr ?_, .inl rfl⟩⟩
  rintro ⟨e, he, hkind, -⟩
  have hrows : ∀ e ∈ tenantLimits (limitedStore 0) "t", e.1.kind ≠ .tokens := by decide +kernel
  have htenant : plan.tenantID = "t" := by
    rw [planAttempt_ok hplan]
    rfl
  rw [matchingLimits, htenant] at he
  exact hrows e (List.mem_filter.1 he).1 hkind

/-- With one, the session is opened under an allowance it cannot be held to. -/
theorem sampleAttempt_unlimited :
    (⟨"t", "x"⟩ : AttemptKey) ∉ (limitedStore 1000).attempts ∧
      (sampleAttempt 1000).1.dispatch = some .websocket ∧
      ∃ row, (sampleAttempt 1000).2.attempts.lookup ⟨"t", "x"⟩ = some row ∧
        ¬ RealtimeRespected { requirePayloadEnforcement := true } row.data.plan := by
  refine ⟨by decide +kernel, by decide +kernel, ?_⟩
  have hsome : ((sampleAttempt 1000).2.attempts.lookup ⟨"t", "x"⟩).map
      (fun row => row.data.plan.allowances.map Allowance.kind) = some [.tokens, .concurrency] := by
    decide +kernel
  obtain ⟨row, hrow, hkinds⟩ := Option.map_eq_some_iff.1 hsome
  refine ⟨row, hrow, fun h => ?_⟩
  have htokens : AllowanceKind.tokens ∈ row.data.plan.allowances.map Allowance.kind := by
    rw [hkinds]
    exact List.mem_cons_self
  obtain ⟨a, ha, hkind⟩ := List.mem_map.1 htokens
  exact (h.1 rfl a ha).1 hkind

end Hoorific.Gateway
