/-
Admission and settlement of attempts: `BeginAttempt`, `MarkAccepted` and
`FinalizeAttempt`, with the statements they share (`loadAttempt`,
`saveAttempt`, `adjustHoldMode`).

An attempt holds an amount of each allowance of its plan.  The amounts are
kept twice: per attempt in `held`, and summed over all attempts in the
counter rows of `allowances`.  Admission raises the counters, settlement
moves them by the difference between what was held and what the outcome
says; `adjustHoldMode` is the only statement that moves a counter after
admission.

An index outside a slice is a Go panic; it ends the transaction like an
error.  Clock readings are arguments: `now` and `planNow` are the two
readings of the database clock in `BeginAttempt`, `chargedAt` and
`savedAt` those of the wall clock in `FinalizeAttempt`.
-/
import Hoorific.Store.Plan

namespace Hoorific

open Tx

/-! ### Admission -/

/-- `UPDATE allowances SET reserved=reserved+delta ... WHERE key AND guard`,
failing with `e` unless a row is updated. -/
def updateReserved (k : AllowanceKey) (delta : Int) (guard : Int → Bool) (e : StoreError) :
    StoreTx Unit := do
  let s ← get
  let row ← orFail (s.allowances.lookup k) e
  require (guard row.reserved) e
  modify fun s =>
    { s with allowances := s.allowances.insert k ⟨row.reserved + delta, row.version + 1⟩ }

variable (p : AttemptPlan)

/-- What admission reserves of an allowance. -/
def admissionAmount (a : Allowance) : Except StoreError Int :=
  requiredAmount p "cost policy requires a bounded model price" a.kind <|
    match a.kind with
    | .requests | .concurrency | .jobs => 1
    | _ => a.reserve

variable (s : Store)

/-- The stored bounds of a window contain `now`; `total` needs none. -/
def windowOpen (tenantID : String) (wid : WindowID) (now : Int) : Bool :=
  wid == .total || (s.quotaWindows.lookup (tenantID, wid)).any fun w =>
    decide (w.starts ≤ now ∧ now < w.ends)

/-- The reservation loop body of `BeginAttempt`.  A later attempt of a
request that was seen before takes no request unit. -/
def reserveAllowance (seenRequest : Bool) (now : Int) (held : List Int)
    (a : Allowance) : StoreTx (List Int) := do
  let amount ← liftE (admissionAmount p a)
  if amount = 0 ∨ (seenRequest = true ∧ a.kind = .requests) then pure (held ++ [0])
  else do
    let s ← get
    let limit ← orFail (s.policyLimits.lookup (a.key p.tenantID))
      (problem "configuration_stale" 409 "allowance policy is not configured")
    require (decide (0 < a.maximum ∧ 0 < limit.maximum ∧ a.maximum ≤ limit.maximum ∧
        amount ≤ limit.maximum))
      (problem "quota_exceeded" 429 "required allowance exceeds current policy")
    require (windowOpen s p.tenantID a.windowID now)
      (problem "quota_exceeded" 429 "allowance window is expired")
    updateReserved (a.key p.tenantID) amount (fun reserved => decide (reserved + amount ≤ a.maximum))
      (problem "quota_exceeded" 429 "allowance exceeded")
    pure (held ++ [amount])

/-- Attempts of a request that are stored. -/
def requestSeen (tenantID requestID : String) : Bool :=
  (Table.select (fun k row => k.tenantID == tenantID && row.requestID == requestID)
    s.attempts).length != 0

/-- The price pinned with an admission; a model without a row is an error. -/
def pinnedPrice (p : AttemptPlan) : Except StoreError (Option PriceSchedule) :=
  if p.modelID = "" then .ok none
  else match s.resource p.tenantID .models p.modelID with
    | none => .error .noRows
    | some ⟨_, (mx : ModelData)⟩ =>
      if mx.price.all fun price => price.version == p.priceVersion then .ok mx.price
      else .error (problem "configuration_stale" 409 "price version changed")

/-- The row `BeginAttempt` inserts. -/
def newAttempt (p submitted : AttemptPlan) (subjectID : String) (held : List Int)
    (price : Option PriceSchedule) (revision now : Int) : AttemptRow :=
  { requestID := p.requestID, state := .dispatchIntent, version := revision,
    deadline := p.deadline.unix, updatedAt := now,
    data := { plan := p, submitted := submitted, subjectID := subjectID, held := held,
              updatedAt := now, price := price } }

/-- The part of `BeginAttempt` for an attempt that is not stored yet. -/
def admitAttempt (p submitted : AttemptPlan) (subjectID : String) (now : Int) :
    StoreTx AttemptPermit := do
  let s ← get
  let held ← p.allowances.foldlM (reserveAllowance p (requestSeen s p.tenantID p.requestID) now) []
  let price ← liftE (pinnedPrice s p)
  modify fun t => { t with
    attempts := t.attempts.insert ⟨p.tenantID, p.attemptID⟩
      (newAttempt p submitted subjectID held price s.revision now) }
  pure ⟨p.tenantID, p.requestID, p.attemptID, s.revision⟩

def sameAttempt (a b : AttemptPlan) : Bool :=
  a.tenantID == b.tenantID && a.requestID == b.requestID && a.attemptID == b.attemptID &&
  a.keyID == b.keyID && a.connectionID == b.connectionID && a.accountID == b.accountID &&
  a.modelID == b.modelID && a.keyRevision == b.keyRevision &&
  a.configRevision == b.configRevision && a.deadline == b.deadline

/-- The part of `BeginAttempt` for an attempt that is stored already. -/
def replayAttempt (row : AttemptRow) (p submitted : AttemptPlan) : StoreTx AttemptPermit := do
  let old := row.data
  let original := if old.submitted.attemptID = "" then old.plan else old.submitted
  require (sameAttempt original submitted)
    (problem "conflict" 409 "attempt identity is already bound to another plan")
  require (row.state == .dispatchIntent || row.state == .accepted)
    (problem "attempt_already_settled" 409 "attempt already finalized")
  pure ⟨p.tenantID, p.requestID, p.attemptID, old.plan.configRevision⟩

/-- The key of a plan is stored, not revoked and at the plan's revision. -/
def keyCurrent (p : AttemptPlan) : Bool :=
  p.keyID == "" || (s.apiKeys.lookup (p.tenantID, p.keyID)).any fun key =>
    !key.revoked && (p.keyRevision == 0 || key.version == p.keyRevision)

def beginAttempt (principal : Option Principal) (submitted : AttemptPlan) (now planNow : Int) :
    StoreTx AttemptPermit := do
  liftE (validatePlan submitted)
  require (decide (now < submitted.deadline.unix))
    (problem "deadline_exceeded" 408 "attempt deadline has expired")
  let p ← derivePlanTx principal submitted planNow
  let s ← get
  require (keyCurrent s p) (problem "authentication_required" 401 "key was rotated or revoked")
  require (p.configRevision == 0 || s.revision == p.configRevision)
    (problem "configuration_stale" 409 "configuration changed; retry planning")
  match s.attempts.lookup ⟨p.tenantID, p.attemptID⟩ with
  | some row => replayAttempt row p submitted
  | none => admitAttempt p submitted ((principal.map Principal.subjectID).getD "") now

/-! ### Loading and saving -/

variable (env : AttemptEnvelope)

/-- What `loadAttempt` completes in an envelope: a charge is known when there
is evidence of it, and missing holds are the plan's reserves. -/
def AttemptEnvelope.completed : AttemptEnvelope :=
  { env with
    chargedCostKnown := env.chargedCostKnown || env.chargedCost != 0 ||
      env.outcome.any fun o => o.actualCost.isSome
    held := env.held ++ (env.plan.allowances.drop env.held.length).map Allowance.reserve }

/-- The envelope with other holds. -/
def AttemptEnvelope.withHeld (held : List Int) : AttemptEnvelope := { env with held := held }

def loadAttempt (tenantID id : String) : Except StoreError (AttemptEnvelope × AttemptState × Int) :=
  match s.attempts.lookup ⟨tenantID, id⟩ with
  | none => .error .noRows
  | some row =>
    let env := row.data.completed
    if env.plan.tenantID ≠ tenantID ∨ env.plan.attemptID ≠ id ∨ env.plan.requestID = "" then
      .error (problem "conflict" 409 "stored attempt identity differs")
    else .ok (env, row.state, row.version)

/-- The row after a save. -/
def AttemptRow.saved (row : AttemptRow) (env : AttemptEnvelope) (state : AttemptState) :
    AttemptRow :=
  { row with state := state, version := row.version + 1, deadline := env.plan.deadline.unix,
             updatedAt := env.updatedAt, data := env }

/-- `saveAttempt`: the row is found by the plan's own coordinates and the
version it was loaded at. -/
def saveAttempt (state : AttemptState) (version : Int) : StoreTx Unit := do
  let s ← get
  let changed := StoreError.plain "attempt changed during finalization"
  let row ← orFail (s.attempts.lookup ⟨env.plan.tenantID, env.plan.attemptID⟩) changed
  require (row.version == version) changed
  modify fun s => { s with
    attempts := s.attempts.insert ⟨env.plan.tenantID, env.plan.attemptID⟩ (row.saved env state) }

/-! ### Moving a hold -/

/-- `adjustHoldMode`: move the hold at `index` to `target`, and the counter
by the difference.  Only an incurred amount may pass the maximum. -/
def adjustHoldMode (index : Nat) (target : Int) (allowOverrun : Bool) :
    StoreTx AttemptEnvelope := do
  let a ← orFail env.plan.allowances[index]? (.plain "invalid hold adjustment")
  require (decide (0 ≤ target)) (.plain "invalid hold adjustment")
  let current ← orFail env.held[index]? (.plain "index out of range")
  let k := a.key env.plan.tenantID
  if target = current then pure env
  else do
    if target < current then
      updateReserved k (target - current) (fun reserved => decide (current - target ≤ reserved))
        (.plain "allowance changed during settlement")
    else if allowOverrun then
      updateReserved k (target - current)
        (fun reserved => decide (reserved ≤ maxInt64 - (target - current)))
        (.plain "allowance changed or overflows during settlement")
    else do
      let exceeded := problem "quota_exceeded" 429 "allowance adjustment exceeded"
      require (decide (target - current ≤ a.maximum)) exceeded
      updateReserved k (target - current)
        (fun reserved => decide (reserved ≤ a.maximum - (target - current))) exceeded
    pure (env.withHeld (env.held.set index target))

def adjustHold (index : Nat) (target : Int) : StoreTx AttemptEnvelope :=
  adjustHoldMode env index target false

def adjustIncurredHold (index : Nat) (target : Int) : StoreTx AttemptEnvelope :=
  adjustHoldMode env index target true

/-! ### Settlement -/

/-- Some count of a usage is negative. -/
def Usage.negative (u : Usage) : Bool :=
  [u.input, u.output, u.total, u.cachedInput, u.cacheWriteInput, u.cacheWrite5mInput,
    u.cacheWrite1hInput, u.reasoningOutput, u.toolInput].any fun v => v.any (· < 0)

/-- What `normalizeUsage` makes of a usage without a negative count. -/
def Usage.totalled (u : Usage) : Option Usage × Bool × Bool :=
  match u.input, u.output with
  | some i, some o => match checkedAdd i o, u.total with
    | .error _, _ => (some u, true, false)
    | .ok sum, none => (some { u with total := some sum }, true, true)
    | .ok sum, some total => (some u, true, total == sum)
  | _, _ => (some u, true, u.total.isSome)

/-- `normalizeUsage`: the usage with its total filled in, whether it is
valid, and whether its total is known. -/
def normalizeUsage : Option Usage → Option Usage × Bool × Bool
  | none => (none, true, false)
  | some u => if u.negative then (none, false, false) else u.totalled

variable (o : AttemptOutcome)

/-- The state an outcome asks for; the empty text asks for `settled`. -/
def AttemptOutcome.requested : AttemptState := o.state.getD .settled

/-- The states an outcome may ask for. -/
def AttemptState.terminal (next : AttemptState) : Bool :=
  next == .settled || next == .outcomeUnknown || next == .notExecuted || next == .jobPending

/-- Whether `FinalizeAttempt` has work to do in `state`: `true` to settle,
`false` if the attempt is already in the requested state. -/
def finalizable (state next : AttemptState) : Except StoreError Bool :=
  let finalized := .error (problem "attempt_already_settled" 409 "attempt already finalized")
  match state with
  | .settled | .notExecuted | .outcomeUnknown => if state = next then .ok false else finalized
  | .jobPending =>
    if next = .jobPending then .ok false
    else if next = .settled ∨ next = .outcomeUnknown then .ok true
    else finalized
  | .dispatchIntent | .accepted => .ok true
  | .other _ => .error (.plain "invalid attempt state")

/-- What an outcome establishes about an attempt: the state it ends in, its
usage and its cost. -/
structure Evidence where
  next : AttemptState
  usage : Option Usage
  totalKnown : Bool
  actualCost : Option Int
deriving DecidableEq

variable (e : Evidence)

/-- The cost is known and charged. -/
def Evidence.costKnown : Bool := e.next != .notExecuted && e.actualCost.isSome

def AttemptPlan.needs (kind : AllowanceKind) : Bool := p.allowances.any fun a => a.kind == kind

/-- The evidence of an outcome before the plan's needs are looked at: a
negative cost is dropped, a missing one is estimated from the usage. -/
def rawEvidence (o : AttemptOutcome) : Evidence :=
  let (usage, usageValid, totalKnown) := normalizeUsage o.usage
  let negative := o.actualCost.any (· < 0)
  let cost := if negative then none else o.actualCost
  let next := if negative ∧ o.requested = .settled then .outcomeUnknown else o.requested
  let cost := if next = .settled ∧ cost = none ∧ usageValid = true then
      (estimateUsageCost usage env.price).toOption
    else cost
  { next := next, usage := usage, totalKnown := totalKnown, actualCost := cost }

/-- The outcome is demoted: it asks for `settled` but lacks the cost or the
token total that the allowances of the plan need. -/
def Evidence.demoted (p : AttemptPlan) : Bool :=
  e.next == .settled &&
    (p.needs .cost && !e.costKnown || p.needs .tokens && !e.totalKnown)

/-- The evidence `FinalizeAttempt` settles with. -/
def evidence (o : AttemptOutcome) : Evidence :=
  let e := rawEvidence env o
  if e.demoted env.plan then { e with next := .outcomeUnknown } else e

/-- What an attempt holds of an allowance after settlement. -/
def holdTarget (a : Allowance) (held : Int) : Int :=
  let incurred := e.next == .settled || e.next == .outcomeUnknown
  if e.next = .notExecuted then 0
  else match a.kind, e.usage.bind Usage.total, e.actualCost with
    | .concurrency, _, _ => if e.next = .settled ∨ e.next = .jobPending then 0 else held
    | .jobs, _, _ => if e.next = .settled then 0 else held
    | .tokens, some total, _ => if incurred && e.totalKnown then total else held
    | .cost, _, some cost => if incurred then cost else held
    | _, _, _ => held

/-- The settlement loop body of `FinalizeAttempt`. -/
def settleHold (env : AttemptEnvelope) (item : Allowance × Nat) : StoreTx AttemptEnvelope := do
  let held ← orFail env.held[item.2]? (.plain "index out of range")
  let target := holdTarget e item.1 held
  if target > held then adjustIncurredHold env item.2 target
  else adjustHold env item.2 target

/-- `INSERT INTO usage_ledger`.  Effects are unique by id and by attempt and
kind; `ignore` is `ON CONFLICT (tenant_id, effect_id) DO NOTHING`. -/
def insertLedger (k : LedgerKey) (row : LedgerRow) (ignore : Bool) : StoreTx Unit := do
  let s ← get
  match s.usageLedger.lookup k with
  | some _ => require ignore (.constraint "usage_ledger")
  | none => do
    require ((Table.select (fun k' row' => k'.tenantID == k.tenantID &&
        row'.attemptID == row.attemptID && row'.effectKind == row.effectKind)
      s.usageLedger).length == 0) (.constraint "usage_ledger")
    modify fun s => { s with usageLedger := s.usageLedger.insert k row }

/-- The envelope with a charge. -/
def AttemptEnvelope.charged (cost : Int) : AttemptEnvelope :=
  { env with chargedCost := cost, chargedCostKnown := true }

/-- The charge of `FinalizeAttempt`: at most once per attempt. -/
def chargeAttempt (o : AttemptOutcome) (env : AttemptEnvelope) (chargedAt : Int) :
    StoreTx AttemptEnvelope :=
  match e.actualCost with
  | none => pure env
  | some cost =>
    if (e.next = .settled ∨ e.next = .outcomeUnknown) ∧ env.chargedCostKnown = false then do
      insertLedger ⟨o.tenantID, o.attemptID ++ ":charge"⟩
        ⟨o.attemptID, "charge", some cost, chargedAt⟩ true
      pure (env.charged cost)
    else pure env

/-- The outcome as it is stored. -/
def AttemptOutcome.settledWith (e : Evidence) : AttemptOutcome :=
  { o with state := some e.next, usage := e.usage, actualCost := e.actualCost }

/-- The envelope with its outcome. -/
def AttemptEnvelope.finished (o : AttemptOutcome) (savedAt : Int) : AttemptEnvelope :=
  { env with outcome := some o, updatedAt := savedAt }

def finalizeAttempt (chargedAt savedAt : Int) : StoreTx Unit := do
  require (o.tenantID != "" && o.attemptID != "") (.plain "attempt identity is required")
  let s ← get
  let (env, state, version) ← liftE (loadAttempt s o.tenantID o.attemptID)
  require (o.requestID == "" || o.requestID == env.plan.requestID)
    (problem "conflict" 409 "request identity differs")
  require o.requested.terminal (.plain "invalid terminal attempt state")
  let proceed ← liftE (finalizable state o.requested)
  if proceed = false then pure ()
  else do
    let e := evidence env o
    let env ← env.plan.allowances.zipIdx.foldlM (settleHold e) env
    let env ← chargeAttempt e o env chargedAt
    saveAttempt (env.finished (o.settledWith e) savedAt) e.next version

/-- The envelope with the evidence of its acceptance. -/
def AttemptEnvelope.accept (acceptedEvidence : String) (savedAt : Int) : AttemptEnvelope :=
  { env with acceptedEvidence := acceptedEvidence, updatedAt := savedAt }

def markAccepted (permit : AttemptPermit) (acceptedEvidence : String) (savedAt : Int) :
    StoreTx Unit := do
  require (permit.tenantID != "" && permit.attemptID != "" && acceptedEvidence != "")
    (.plain "accepted evidence is required")
  let s ← get
  let (env, state, version) ← liftE (loadAttempt s permit.tenantID permit.attemptID)
  if state = .accepted then
    require (env.acceptedEvidence == acceptedEvidence)
      (problem "conflict" 409 "accepted evidence differs")
  else do
    require (state == .dispatchIntent) (.plain "attempt is not dispatchable")
    require (permit.requestID == "" || permit.requestID == env.plan.requestID)
      (problem "conflict" 409 "request identity differs")
    saveAttempt (env.accept acceptedEvidence savedAt) .accepted version

end Hoorific
