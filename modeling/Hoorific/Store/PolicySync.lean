/-
The statements that maintain the policy tables, and `syncPolicyLimit`,
which projects one `policy_limits` resource onto them.

The projection deletes every row of the resource's old scope and then
upserts one row per dimension with a positive maximum, under the window
that is current at the time of the sync.  It opens counters at zero and
never touches one that exists.
-/
import Hoorific.Windows
import Hoorific.Store.Schema

namespace Hoorific

/-! ### Statements -/

variable (s : Store)

/-- `INSERT INTO quota_windows ... ON CONFLICT DO UPDATE`. -/
def Store.putWindow (tenantID : String) (id : WindowID) (bounds : Int × Int) : Store :=
  { s with quotaWindows := s.quotaWindows.insert (tenantID, id) ⟨bounds.1, bounds.2⟩ }

/-- `INSERT INTO policy_limits ... ON CONFLICT DO UPDATE`. -/
def Store.putPolicyLimit (k : AllowanceKey) (maximum reserve : Int) : Store :=
  let version := match s.policyLimits.lookup k with
    | none => 1
    | some old => old.version + 1
  { s with policyLimits := s.policyLimits.insert k ⟨maximum, reserve, version⟩ }

/-- `INSERT INTO policy_limits ... ON CONFLICT DO NOTHING`. -/
def Store.addPolicyLimit (k : AllowanceKey) (maximum reserve : Int) : Store :=
  match s.policyLimits.lookup k with
  | none => { s with policyLimits := s.policyLimits.insert k ⟨maximum, reserve, 1⟩ }
  | some _ => s

/-- `INSERT INTO allowances ... ON CONFLICT DO NOTHING`: open a counter at zero. -/
def Store.openAllowance (k : AllowanceKey) : Store :=
  match s.allowances.lookup k with
  | none => { s with allowances := s.allowances.insert k ⟨0, 1⟩ }
  | some _ => s

/-- `DELETE FROM policy_limits WHERE tenant_id, scope_kind, scope_id`. -/
def Store.deleteScope (tenantID : String) (scope : ScopeKind) (scopeID : String) : Store :=
  { s with
    policyLimits := Table.deleteWhere
      (fun k _ => k.tenantID == tenantID && k.scopeKind == scope && k.scopeID == scopeID)
      s.policyLimits }

/-! ### Synchronizing one resource -/

/-- One dimension of a limit: what it counts, its maximum and its window. -/
structure Dimension where
  kind : AllowanceKind
  maximum : Int
  window : Window
deriving DecidableEq

/-- The dimensions of a limit; an absent cost window is `total`. -/
def PolicyLimitData.dimensions (d : PolicyLimitData) : List Dimension :=
  [⟨.requests, d.requestsPerMinute, .minute⟩, ⟨.tokens, d.tokensPerMinute, .minute⟩,
   ⟨.concurrency, d.concurrency, .total⟩,
   ⟨.jobs, d.outstandingJobs, .total⟩,
   ⟨.cost, d.maxCost, if d.costWindow = .other "" then .total else d.costWindow⟩]

/-- The window id a dimension is counted under at `now`. -/
def Dimension.windowID (d : Dimension) (now : Int) : WindowID :=
  if d.window = .total then .total else currentWindowID now d.window

/-- The row a dimension of a limit is projected to at `now`. -/
def Dimension.key (d : Dimension) (tenantID : String) (limit : PolicyLimitData) (now : Int) :
    AllowanceKey :=
  ⟨tenantID, limit.scope, limit.scopeID, d.windowID now, d.kind⟩

/-- The loop body of `syncPolicyLimit`. -/
def syncDimension (tenantID : String) (limit : PolicyLimitData) (now : Int) (s : Store)
    (d : Dimension) : Store :=
  if d.maximum ≤ 0 then s
  else
    let s := if d.window = .total then s
      else s.putWindow tenantID (d.windowID now) (windowBounds now d.window)
    let reserve := if d.kind = .cost then d.maximum else 1
    (s.putPolicyLimit (d.key tenantID limit now) d.maximum reserve).openAllowance
      (d.key tenantID limit now)

/-- `syncPolicyLimit` for the resource `id`: `next` is the new data, `none`
for a deletion.  The old data is what the resource table still holds. -/
def syncPolicyLimit (tenantID id : String) (next : Option PolicyLimitData) (now : Int) :
    StoreTx Unit := do
  modify fun s => match s.resource tenantID .policyLimits id with
    | none => s
    | some ⟨_, old⟩ =>
      if PolicyLimitData.scope old = .other "" then s
      else s.deleteScope tenantID (PolicyLimitData.scope old) (PolicyLimitData.scopeID old)
  match next with
  | none => pure ()
  | some next => do
    Tx.require (next.scope != .other "" && next.scopeID != "") (.plain "policy scope is required")
    modify fun s => next.dimensions.foldl (syncDimension tenantID next now) s

end Hoorific
