/-
`PlanAttempt`: the plan a gateway submits.  The planner works on a runtime
snapshot and on the body of the request, without the database: it binds
the attempt to the principal, checks the target against the snapshot and
the grants of the principal, and bounds the tokens and the cost of a model
call (`boundModel`).

A plan leaves the planner without allowances: the limits that apply are
resolved by `BeginAttempt`, inside the admission transaction, and the
caller never sees them (`planAttempt_ok`).
-/
import Hoorific.Lib.Check
import Hoorific.Runtime
import Hoorific.Store.CachePricing
import Hoorific.Store.Plan

namespace Hoorific

open Check

/-! ### Targets and grants -/

/-- What a request is for.  A target may also be a nil pointer or of a type
the planner does not know. -/
inductive Target where
  | modelCall (connection : Connection) (model : Model) («alias» : String)
  | connectionResourceCall (connection : Connection)
  | nilModelCall
  | nilConnectionResourceCall
  | other

def hasOperation (values : List Operation) (want : Operation) : Bool := hasString values want

/-- The connection is granted by name, by permission, or as one of all. -/
def connectionGranted (p : Principal) (connection : String) : Bool :=
  hasString p.connections connection || hasString p.permissions ("connection:" ++ connection) ||
    hasString p.permissions ("connection/" ++ connection) || hasString p.permissions "connections:*"

def permitted (p : Principal) («alias» connection : String) (op : Operation) : Bool :=
  if p.role = .admin then true
  else if «alias» ≠ "" ∧ !(hasString p.aliases «alias» || hasString p.permissions ("alias:" ++ «alias») ||
      hasString p.permissions ("alias/" ++ «alias»)) then false
  else if connection ≠ "" ∧ !connectionGranted p connection then false
  else hasOperation p.operations op || hasString p.permissions ("operation:" ++ op) ||
    hasString p.permissions ("operation/" ++ op)

def planIdentity (p : Principal) (input : AttemptPlan) : Except StoreError Unit := do
  require (p.tenantID != "" && (p.keyID != "" || p.sessionID != ""))
    (problem "authentication_required" 401 "authenticated key or admin session is required")
  require (p.keyID == "" || decide (0 < p.keyRevision))
    (problem "authentication_required" 401 "authenticated key is required")
  require (validRef input.requestID && validRef input.attemptID && !input.deadline.isZero)
    (problem "invalid_attempt" 400 "attempt identity and deadline are required")
  require ((input.tenantID == "" || input.tenantID == p.tenantID) &&
      (input.keyID == "" || input.keyID == p.keyID))
    (problem "forbidden" 403 "attempt binding is immutable")

/-! ### Bounds -/

/-- What decoding JSON needs to know: the names a field is found under, and the
numbers a `float64` can hold. -/
structure JsonDecoder where
  equalFold : String → String → Bool
  inRange : String → Bool

/-- A value decoded into a `*int64`; `none` if it cannot be. -/
def decodeInt64 : Json → Option (Option Int)
  | .null => some none
  | .int n => if -maxInt64 - 1 ≤ n ∧ n ≤ maxInt64 then some (some n) else none
  | _ => none

/-- The `*int64` field of a struct an object is decoded into: the last member
with the name of the field, in any case, decides. -/
def int64Field (d : JsonDecoder) (field : String) (ms : List (String × Json)) :
    Option (Option Int) :=
  ms.foldlM (fun current m =>
    if m.1 == field || d.equalFold m.1 field then decodeInt64 m.2 else some current) none

/-- The caller's bounds on the output: `max_tokens` and `max_output_tokens`. -/
def outputMeta (d : JsonDecoder) : RequestBody → Option (Option Int × Option Int)
  | .empty | .value .null => some (none, none)
  | .value (.obj ms) => do
    let maxTokens ← int64Field d "max_tokens" ms
    let maxOutputTokens ← int64Field d "max_output_tokens" ms
    pure (maxTokens, maxOutputTokens)
  | .malformed | .value _ => none

/-- The output bound: what the caller asks for, within the limit of the model. -/
def outputBound (limit maxTokens maxOutputTokens : Option Int) : Option Int :=
  limit.map fun limit => match maxOutputTokens <|> maxTokens with
    | none => limit
    | some output => if output > limit then limit else output

/-- The token cost bound of `boundModel`; `none` if some rate is unknown. -/
def boundTokenCost (input output : Option Int) (price : PriceSchedule) :
    Except StoreError (Option Int) :=
  match input, output with
  | some i, some o => match estimateBound i o (some price) with
    | .ok cost => .ok (some cost)
    | .error .unknownCost => .ok none
    | .error _ => .error (problem "unsupported_policy" 400 "cost bound is not representable")
  | _, _ => .ok none

/-- The cost of one unit, if it is the unit of this operation. -/
def unitCost (operation : Operation) (price : PriceSchedule) : Option Int :=
  if price.unitOperation = operation then price.maximumUnitCost else none

def boundModel (d : JsonDecoder) (out : AttemptPlan) (m : Model) (body : RequestBody) :
    Except StoreError AttemptPlan :=
  match outputMeta d body with
  | none => .error (problem "invalid_request" 400 "request metadata is invalid")
  | some (maxTokens, maxOutputTokens) => do
    let input := m.contextLimit
    let output := outputBound m.outputLimit maxTokens maxOutputTokens
    require (!(input.any (· < 0) || output.any (· < 0)))
      (problem "unsupported_policy" 400 "negative token bound")
    let out := { out with
      inputBound := input <|> out.inputBound
      outputBound := output <|> out.outputBound }
    match m.price with
    | none => pure out
    | some price =>
      let out := { out with priceVersion := price.version }
      if cachePricingAvailable m.price (cachePricingRequired d.inRange body) then do
        let cost ← boundTokenCost input output price
        pure { out with maximumCost := cost <|> out.maximumCost <|> unitCost out.operation price }
      else pure out

/-! ### Plans -/

/-- The connection of a target is that of the snapshot. -/
def checkSnapshotConnection (p : Principal) (snap : RuntimeSnapshot) (c : Connection) :
    Except StoreError Connection :=
  let stale := problem "invalid_target" 409 "connection snapshot is stale"
  match snap.connections.lookup c.id with
  | none => .error stale
  | some current =>
    if current.tenantID ≠ p.tenantID ∨ (c.version ≠ 0 ∧ c.version ≠ current.version) ∨
        c.accountID ≠ current.accountID then .error stale
    else .ok current

/-- The alias of a model call has the target. -/
def checkAlias (snap : RuntimeSnapshot) («alias» connection model : String) :
    Except StoreError Unit :=
  if «alias» = "" then .ok ()
  else match snap.aliases.lookup «alias» with
    | none => .error (problem "invalid_target" 404 "alias is not configured")
    | some targets =>
      require (targets.any fun t => t.connectionID == connection && t.modelID == model)
        (problem "invalid_target" 400 "alias target is not configured")

/-- What the planner binds an attempt to. -/
structure PlanTarget where
  «alias» : String := ""
  connection : String
  model : String := ""
  account : String

/-- The part of `PlanAttempt` that depends on the kind of target: the plan with
its bounds, and what it is bound to. -/
def planTarget (d : JsonDecoder) (p : Principal) (snap : RuntimeSnapshot) (target : Target)
    (op : Operation) (body : RequestBody) (out : AttemptPlan) :
    Except StoreError (AttemptPlan × PlanTarget) :=
  match target with
  | .modelCall c m name => do
    require (validRef c.id && validRef m.catalogID && validRef m.id &&
        c.tenantID == p.tenantID && m.connectionID == c.id)
      (problem "invalid_target" 400 "model target references are invalid")
    let current ← checkSnapshotConnection p snap c
    match snap.models.lookup m.catalogID with
    | none => throw (problem "invalid_target" 404 "model is not configured")
    | some model => do
      require (model.connectionID == c.id) (problem "invalid_target" 404 "model is not configured")
      checkAlias snap name c.id m.catalogID
      require (hasOperation model.operations op)
        (problem "operation_not_supported" 400 "model does not support operation")
      let out ← boundModel d { out with «alias» := name } model body
      pure (out, { «alias» := name, connection := c.id, model := m.catalogID,
                   account := current.accountID })
  | .connectionResourceCall c => do
    require (validRef c.id && c.tenantID == p.tenantID)
      (problem "invalid_target" 400 "connection target is invalid")
    let current ← checkSnapshotConnection p snap c
    pure (out, { connection := c.id, account := current.accountID })
  | .nilModelCall | .nilConnectionResourceCall | .other =>
    .error (problem "invalid_target" 400 "unsupported target")

/-- The nil pointers `PlanAttempt` refuses before it looks at the plan. -/
def checkTarget : Target → Except StoreError Unit
  | .nilModelCall => .error (problem "invalid_target" 400 "nil model target")
  | .nilConnectionResourceCall => .error (problem "invalid_target" 400 "nil connection target")
  | _ => .ok ()

/-- The grants of the principal cover the target. -/
def checkGrants (p : Principal) (t : PlanTarget) (op : Operation) : Except StoreError Unit :=
  if t.«alias» == "" && op == "realtime" && p.nativeAccount && p.realtime then
    require (connectionGranted p t.connection)
      (problem "forbidden" 403 "native realtime connection grant is required")
  else require (permitted p t.«alias» t.connection op)
    (problem "forbidden" 403 "key is not permitted for target operation")

/-- The plan bound to the principal and the snapshot, without bounds. -/
def AttemptPlan.bound (input : AttemptPlan) (p : Principal) (revision : Int) (op : Operation) :
    AttemptPlan :=
  { input with tenantID := p.tenantID, keyID := p.keyID, keyRevision := p.keyRevision,
               configRevision := revision, allowances := [], maximumCost := none,
               priceVersion := "", operation := op }

def planAttempt (d : JsonDecoder) (p : Principal) (snap : RuntimeSnapshot) (target : Target)
    (op : Operation) (body : RequestBody) (input : AttemptPlan) :
    Except StoreError AttemptPlan := do
  require (validRef op) (problem "invalid_target" 400 "operation is required")
  planIdentity p input
  require (decide (0 ≤ snap.revision))
    (problem "invalid_configuration" 500 "negative configuration revision")
  checkTarget target
  let (out, t) ← planTarget d p snap target op body (input.bound p snap.revision op)
  require ((input.connectionID == "" || input.connectionID == t.connection) &&
      (input.modelID == "" || input.modelID == t.model) &&
      (input.accountID == "" || input.accountID == t.account))
    (problem "forbidden" 403 "attempt target binding is immutable")
  checkGrants p t op
  pure { out with connectionID := t.connection, modelID := t.model, accountID := t.account }

/-! ### What a plan has -/

variable {d : JsonDecoder} {p : Principal} {snap : RuntimeSnapshot} {target : Target}
  {op : Operation} {body : RequestBody} {input out out' plan : AttemptPlan} {t : PlanTarget}

/-- Bounding a plan fills in its bounds and leaves the rest; there is no cost
bound without the rates the body needs. -/
theorem boundModel_ok {m : Model} (h : boundModel d out m body = .ok out') :
    out' = { out with
      priceVersion := out'.priceVersion
      maximumCost := out'.maximumCost
      inputBound := out'.inputBound
      outputBound := out'.outputBound } ∧
      (cachePricingAvailable m.price (cachePricingRequired d.inRange body) = false →
        out'.maximumCost = out.maximumCost) := by
  unfold boundModel at h
  rcases hmeta : outputMeta d body with - | ⟨maxTokens, maxOutputTokens⟩ <;> rw [hmeta] at h
  · cases h
  simp only [bind_ok, require_ok] at h
  obtain ⟨-, -, h⟩ := h
  rcases hprice : m.price with - | price <;> rw [hprice] at h
  · cases h
    exact ⟨rfl, fun _ => rfl⟩
  simp only at h
  split at h
  next hrates =>
    obtain ⟨cost, -, h⟩ := bind_ok.1 h
    cases h
    refine ⟨rfl, fun hnone => ?_⟩
    rw [hrates] at hnone
    cases hnone
  next =>
    cases h
    exact ⟨rfl, fun _ => rfl⟩

/-- The plan of a model call is bounded by a model of the snapshot, that of a
connection resource is not bounded at all. -/
theorem planTarget_ok (h : planTarget d p snap target op body out = .ok (out', t)) :
    (∃ m, snap.models.lookup t.model = some m ∧
      boundModel d { out with «alias» := t.«alias» } m body = .ok out') ∨
    t.model = "" ∧ out' = out := by
  cases target with
  | modelCall c m name =>
    simp only [planTarget, bind_ok, require_ok] at h
    obtain ⟨-, -, current, -, h⟩ := h
    rcases hmodel : snap.models.lookup m.catalogID with - | model <;> rw [hmodel] at h
    · cases h
    simp only [bind_ok, require_ok, pure_ok, Prod.mk.injEq] at h
    obtain ⟨-, -, -, -, -, -, out₁, hbound, rfl, rfl⟩ := h
    exact .inl ⟨model, hmodel, hbound⟩
  | connectionResourceCall c =>
    simp only [planTarget, bind_ok, require_ok, pure_ok, Prod.mk.injEq] at h
    obtain ⟨-, -, current, -, rfl, rfl⟩ := h
    exact .inr ⟨rfl, rfl⟩
  | nilModelCall | nilConnectionResourceCall | other => cases h

/-- **A plan leaves the planner without allowances**, bound to the principal and
the snapshot. -/
theorem planAttempt_ok (h : planAttempt d p snap target op body input = .ok plan) :
    plan = { input.bound p snap.revision op with
      connectionID := plan.connectionID
      accountID := plan.accountID
      modelID := plan.modelID
      priceVersion := plan.priceVersion
      maximumCost := plan.maximumCost
      inputBound := plan.inputBound
      outputBound := plan.outputBound
      «alias» := plan.«alias» } := by
  simp only [planAttempt, bind_ok, require_ok, pure_ok] at h
  obtain ⟨-, -, -, -, -, -, -, -, ⟨out, t⟩, htarget, -, -, -, -, rfl⟩ := h
  rcases planTarget_ok htarget with ⟨m, -, hbound⟩ | ⟨-, rfl⟩
  · rw [(boundModel_ok hbound).1]
  · rfl

end Hoorific
