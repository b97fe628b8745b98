/-
`Reconcile`: the correction of an attempt whose outcome is unknown.  A
reconciliation fixes the charge of the attempt, either from evidence of
the provider or at the maximum that was reserved, posts the difference to
the previous charge as a ledger row of its own, and moves the cost, token
and concurrency holds.  The same request is answered again from its row.

Audit events are not part of the model.
-/
import Hoorific.Store.Admission

namespace Hoorific

open Tx

/-- The largest cost allowance of a plan. -/
def maximumCostAllowance (p : AttemptPlan) : Option Int :=
  (p.allowances.filter fun a => a.kind == .cost).foldl
    (fun best a => match best with
      | none => some a.maximum
      | some charge => some (if a.maximum > charge then a.maximum else charge)) none

/-- The checks of `Reconcile` on the request alone, and its usage normalized. -/
def checkReconciliation (expected : Int) (r : Reconciliation) :
    Except StoreError Reconciliation := do
  if expected ≤ 0 then throw (storeError "invalid_version" 400)
  if trimSpace r.reason = "" ∨
      ¬ (r.mode = .providerEvidence ∨ r.mode = .chargeReservedMaximum) then
    throw (storeError "invalid_reconciliation" 400)
  if r.cost.any (· < 0) then throw (storeError "invalid_reconciliation_cost" 400)
  if r.mode = .providerEvidence ∧
      (trimSpace r.sourceReference = "" ∨ r.usage = none ∧ r.cost = none) then
    throw (storeError "reconciliation_evidence_required" 400)
  match r.usage with
  | none => pure r
  | some _ =>
    match normalizeUsage r.usage with
    | (some u, true, totalKnown) =>
      if u.input.isSome ∧ u.output.isSome ∧ totalKnown = false then
        throw (storeError "invalid_reconciliation_usage" 400)
      pure { r with usage := some u }
    | _ => throw (storeError "invalid_reconciliation_usage" 400)

/-- The charge a reconciliation fixes; `none` if it stays unknown. -/
def reconciledCharge (env : AttemptEnvelope) (r : Reconciliation) :
    Except StoreError (Option Int) := do
  let previous := if env.chargedCostKnown || env.chargedCost != 0 then some env.chargedCost else none
  let charge ← match r.mode with
    | .providerEvidence => match r.cost, r.usage with
      | some cost, _ => pure (some cost)
      | none, some _ => match estimateUsageCost r.usage env.price with
        | .ok estimated => pure (some estimated)
        | .error .unknownCost => pure previous
        | .error _ => pure none
      | none, none => pure previous
    | .chargeReservedMaximum => match env.plan.maximumCost, maximumCostAllowance env.plan with
      | some cost, _ => pure (some cost)
      | none, some cost => pure (some cost)
      | none, none => throw (storeError "reconciliation_maximum_unavailable" 409)
    | .other _ => pure previous
  if charge.any (· < 0) then throw (storeError "reconciliation_maximum_unavailable" 409)
  pure charge

/-- The token total a reconciliation brings evidence of. -/
def reconciledTokens (r : Reconciliation) : Option Int :=
  if r.mode = .providerEvidence then r.usage.bind Usage.total else none

/-- What an attempt holds of an allowance after a reconciliation. -/
def reconcileTarget (charge tokens : Option Int) (a : Allowance) : Option Int :=
  match a.kind with
  | .cost => charge
  | .tokens => tokens
  | .concurrency => some 0
  | _ => none

/-- The loop body of `Reconcile`. -/
def reconcileHold (charge tokens : Option Int) (env : AttemptEnvelope) (item : Allowance × Nat) :
    StoreTx AttemptEnvelope :=
  match reconcileTarget charge tokens item.1 with
  | none => pure env
  | some target => do
    let held ← orFail env.held[item.2]? (.plain "index out of range")
    if target > held then adjustIncurredHold env item.2 target
    else adjustHold env item.2 target

/-- The envelope after a reconciliation. -/
def AttemptEnvelope.reconciledWith (env : AttemptEnvelope) (r : Reconciliation)
    (charge : Option Int) (tenantID admission : String) (savedAt : Int) : AttemptEnvelope :=
  let outcome := env.outcome.getD
    { tenantID := tenantID, requestID := env.plan.requestID, attemptID := admission,
      state := some .outcomeUnknown }
  { env with
    reconciled := true
    chargedCost := charge.getD env.chargedCost
    chargedCostKnown := env.chargedCostKnown || charge.isSome
    updatedAt := savedAt
    acceptedEvidence :=
      if r.mode = .providerEvidence then r.sourceReference else env.acceptedEvidence
    outcome := some { outcome with
      actualCost := charge.orElse fun _ => outcome.actualCost
      usage := if r.mode = .providerEvidence ∧ r.usage.isSome then r.usage else outcome.usage } }

/-- The effect id, and effect kind, of a reconciliation. -/
def reconciliationEffect (id : String) : String := "reconciliation:" ++ id

/-- The part of `Reconcile` for a reconciliation that is not stored yet. -/
def applyReconciliation (tenantID admission : String) (expected : Int) (request : Reconciliation)
    (chargedAt savedAt : Int) : StoreTx (Int × ReconciliationResult) := do
  let r ← liftE (checkReconciliation expected request)
  let s ← get
  let (env, state, version) ← liftE (match loadAttempt s tenantID admission with
    | .error .noRows => .error (storeError "not_found" 404)
    | result => result)
  require (version == expected) (storeError "version_conflict" 412)
  require (version != maxInt64) (storeError "version_exhausted" 409)
  require (state == .outcomeUnknown) (storeError "attempt_not_reconcilable" 409)
  let charge ← liftE (reconciledCharge env r)
  let env ← env.plan.allowances.zipIdx.foldlM (reconcileHold charge (reconciledTokens r)) env
  require (decide (0 ≤ env.chargedCost)) (storeError "invalid_accounting_state" 409)
  let delta := charge.map (· - env.chargedCost)
  let result : ReconciliationResult := ⟨r, admission, version + 1, state, true, charge, delta⟩
  insertLedger ⟨tenantID, reconciliationEffect r.reconciliationID⟩
    ⟨admission, reconciliationEffect r.reconciliationID, delta, chargedAt⟩ false
  saveAttempt (env.reconciledWith r charge tenantID admission savedAt) state version
  modify fun s => { s with
    reconciliations := s.reconciliations.insert (tenantID, r.reconciliationID)
      ⟨1, admission, expected, request, result⟩ }
  pure (1, result)

def reconcile (principal : Principal) (admission : String) (expected : Int) (r : Reconciliation)
    (chargedAt savedAt : Int) : StoreTx (Int × ReconciliationResult) := do
  require (trimSpace r.reconciliationID != "" && trimSpace admission != "")
    (storeError "invalid_reconciliation" 400)
  let s ← get
  let current ← liftE (resolvePrincipalTx s principal)
  liftE (authorize current true)
  match s.reconciliations.lookup (current.tenantID, r.reconciliationID) with
  | some prior => do
    require (prior.admission == admission && prior.expected == expected && prior.request == r)
      (storeError "conflict" 409)
    pure (prior.version, prior.result)
  | none => applyReconciliation current.tenantID admission expected r chargedAt savedAt

end Hoorific
