/-
`RunMaintenance`: attempts whose deadline passed more than 30 seconds ago
give back their concurrency and become `outcome_unknown`; settled attempts
older than 30 days and charges older than a year are deleted.  Each run
looks at 256 attempts at most.

Rows that a query reads in a partial order are taken in the order of the
table within a tie.  Audit events and idempotency records are cleaned up
in tables of their own, which are not part of this model.
-/
import Hoorific.Store.Admission

namespace Hoorific

def attemptRetentionSeconds : Int := 30 * 24 * 3600
def usageRetentionSeconds : Int := 365 * 24 * 3600
def attemptCancellationGraceSeconds : Int := 30

/-- The attempts the deadline sweep looks at. -/
def sweepable (cutoff : Int) (row : AttemptRow) : Bool :=
  decide (0 < row.deadline ∧ row.deadline ≤ cutoff) &&
    (row.state == .dispatchIntent || row.state == .accepted ||
      row.state == .outcomeUnknown && !row.data.concurrencyReleased)

/-- `ORDER BY deadline, tenant_id, attempt_id LIMIT 256`. -/
def pendingAttempts (s : Store) (cutoff : Int) : List (AttemptKey × AttemptRow) :=
  ((Table.select (fun _ row => sweepable cutoff row) s.attempts).insertionSort fun a b =>
    a.2.deadline < b.2.deadline ∨ a.2.deadline = b.2.deadline ∧
      [a.1.tenantID, a.1.attemptID] ≤ [b.1.tenantID, b.1.attemptID]).take 256

/-- The loop body that gives back the concurrency of one allowance. -/
def releaseConcurrency (env : AttemptEnvelope) (item : Allowance × Nat) : StoreTx AttemptEnvelope :=
  match env.held[item.2]? with
  | some held =>
    if item.1.kind = .concurrency ∧ 0 < held then adjustHold env item.2 0 else pure env
  | none => pure env

/-- The envelope after a sweep. -/
def AttemptEnvelope.released (env : AttemptEnvelope) (now : Int) : AttemptEnvelope :=
  { env with concurrencyReleased := true, updatedAt := now }

variable (now : Int)

/-- The sweep of one attempt. -/
def sweepAttempt (row : AttemptRow) : StoreTx Unit := do
  let env ← row.data.plan.allowances.zipIdx.foldlM releaseConcurrency row.data
  saveAttempt (env.released now) .outcomeUnknown row.version

/-- `SELECT ... WHERE state='settled' ORDER BY updated_at LIMIT 256`. -/
def settledAttempts (s : Store) : List (AttemptKey × AttemptRow) :=
  ((Table.select (fun _ row => row.state == .settled) s.attempts).insertionSort
    fun a b => a.2.updatedAt ≤ b.2.updatedAt).take 256

/-- A settled attempt is past its retention. -/
def expired (row : AttemptRow) : Bool :=
  decide (0 < row.data.updatedAt ∧ row.data.updatedAt < now - attemptRetentionSeconds)

/-- `DELETE FROM attempts WHERE tenant_id, attempt_id, state='settled'`. -/
def Store.retireAttempt (s : Store) (item : AttemptKey × AttemptRow) : Store :=
  if expired now item.2 then
    { s with
      attempts := Table.deleteWhere (fun k row => k == item.1 && row.state == .settled) s.attempts }
  else s

/-- `DELETE FROM usage_ledger WHERE created_at<? AND effect_kind NOT LIKE 'reconciliation:%'`. -/
def Store.retireCharges (s : Store) (cutoff : Int) : Store :=
  { s with
    usageLedger := Table.deleteWhere (fun _ row =>
      decide (row.createdAt < cutoff) && !hasPrefix row.effectKind "reconciliation:") s.usageLedger }

def runMaintenance : StoreTx Unit := do
  let s ← get
  let _ ← (pendingAttempts s (now - attemptCancellationGraceSeconds)).foldlM
    (fun _ item => sweepAttempt now item.2) ()
  modify fun s => (settledAttempts s).foldl (Store.retireAttempt now) s
  modify fun s => s.retireCharges (now - usageRetentionSeconds)

end Hoorific
