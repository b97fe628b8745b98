/-
The authoritative plan of an attempt.  `derivePlanTx` checks a submitted
plan against the stored configuration (key or session, revision,
connection, model, price) and replaces its allowances by those
`resolveAllowances` finds in the policy tables.

`resolveAllowances` walks the tenant's `policy_limits` rows.  A row whose
window has passed is *rolled*: the current window is opened, a row for it
is left behind, and the allowance is taken from the new window.  SQLite reads
the query through the primary key while the loop inserts into the same table:
a row that is inserted after the cursor is returned by the same query, one
before it is not.
-/
import Mathlib.Data.List.Sort
import Mathlib.Data.String.Basic
import Hoorific.Policy
import Hoorific.Store.PolicySync
import Hoorific.Store.Tenancy

namespace Hoorific

/-! ### Checks on a submitted plan -/

variable (p : AttemptPlan)

def validatePlan : Except StoreError Unit :=
  if p.tenantID = "" ∨ p.requestID = "" ∨ p.attemptID = "" then
    .error (.plain "attempt identity is required")
  else if p.deadline.isZero then .error (.plain "attempt deadline is required")
  else if p.allowances.all fun a => a.scopeKind != .other "" && a.scopeID != "" &&
      a.windowID != .other "" && a.kind != .other "" &&
      decide (0 ≤ a.maximum ∧ 0 ≤ a.reserve ∧ a.reserve ≤ a.maximum) then .ok ()
  else .error (.plain "invalid allowance")

/-- `hasString`: the value or the wildcard. -/
def hasString (values : List String) (want : String) : Bool :=
  values.any fun v => v == "*" || v == want

variable (s : Store)

/-- The admin-session path of `derivePlanTx`. -/
def checkSession (principal : Option Principal) (p : AttemptPlan) (now : Int) :
    Except StoreError Unit :=
  match principal with
  | none => .error (problem "authentication_required" 401 "admin session is required")
  | some principal =>
    if principal.tenantID ≠ p.tenantID ∨ principal.sessionID = "" ∨ principal.subjectID = "" then
      .error (problem "authentication_required" 401 "admin session is required")
    else match s.adminSessions.lookup principal.sessionID with
      | none => .error (problem "authentication_required" 401 "admin session is invalid")
      | some session =>
        if session.expiresAt.unix ≤ now ∨ session.tenantID ≠ p.tenantID ∨
            session.subjectID ≠ principal.subjectID then
          .error (problem "authentication_required" 401 "admin session is invalid")
        else match resolveMembershipTx s p.tenantID principal.subjectID with
          | .error _ => .error (problem "authentication_required" 401 "admin session is invalid")
          | .ok current => match current.role with
            | .owner | .admin | .operator => .ok ()
            | _ => .error (problem "forbidden" 403 "admin role cannot execute playground")

/-- The key path of `derivePlanTx`. -/
def checkKey (p : AttemptPlan) : Except StoreError Unit :=
  match resolveActiveKeyTx s p.tenantID p.keyID p.keyRevision with
  | .error _ => .error (problem "authentication_required" 401 "key is not active")
  | .ok key =>
    if key.role == .admin || hasString key.connections p.connectionID ||
        hasString key.permissions ("connection:" ++ p.connectionID) ||
        hasString key.permissions ("connection/" ++ p.connectionID) ||
        hasString key.permissions "connections:*" || hasString key.permissions "*" then .ok ()
    else .error (problem "forbidden" 403 "key is not permitted for connection")

/-- `planMaximumCost`: the cost bound a plan may carry. -/
def planMaximumCost (input output : Option Int) (price : Option PriceSchedule)
    (operation : Operation) : Except PolicyError (Option Int) :=
  match price with
  | none => .ok none
  | some schedule =>
    let unitBound := if schedule.unitOperation = operation then schedule.maximumUnitCost else none
    match input, output with
    | some i, some o => match estimateBound i o price with
      | .ok cost => .ok (some cost)
      | .error .unknownCost => .ok unitBound
      | .error e => .error e
    | _, _ => .ok unitBound

/-- The connection check of `derivePlanTx`. -/
def checkConnection (p : AttemptPlan) : Except StoreError Unit :=
  if !validRef p.connectionID then
    .error (problem "invalid_target" 400 "connection reference is required")
  else match s.resource p.tenantID .connections p.connectionID with
    | none => .error (problem "invalid_target" 404 "connection is not configured")
    | some ⟨_, (cx : ConnectionData)⟩ =>
      if !cx.enabled || cx.connector == "" || p.accountID != cx.accountID then
        .error (problem "configuration_stale" 409 "connection binding invalid")
      else .ok ()

/-- The price check of `derivePlanTx`: a bound the plan carries is the one
the stored price gives; a withheld bound stays withheld. -/
def checkPrice (price : Option PriceSchedule) : Except StoreError Unit :=
  match price with
  | none =>
    if p.maximumCost ≠ none ∨ p.priceVersion ≠ "" then
      .error (problem "configuration_stale" 409 "price bound changed")
    else .ok ()
  | some schedule =>
    if schedule.version ≠ p.priceVersion then
      .error (problem "configuration_stale" 409 "price version changed")
    else match p.maximumCost with
      | none => .ok ()
      | some cost => match planMaximumCost p.inputBound p.outputBound price p.operation with
        | .error _ => .error (problem "invalid_configuration" 500 "stored price is invalid")
        | .ok want =>
          if want = some cost then .ok ()
          else .error (problem "configuration_stale" 409 "cost bound changed")

/-- The model check of `derivePlanTx`. -/
def checkModel (p : AttemptPlan) : Except StoreError Unit :=
  if p.modelID = "" then .ok ()
  else match s.resource p.tenantID .models p.modelID with
    | none => .error (problem "invalid_target" 404 "model is not configured")
    | some ⟨_, (mx : ModelData)⟩ =>
      if !mx.enabled || mx.upstreamID == "" || mx.connectionID != p.connectionID then
        .error (problem "invalid_configuration" 500 "stored model reference is invalid")
      else if !hasString mx.operations p.operation then
        .error (problem "unsupported_operation" 400 "model operation is disabled")
      else if p.inputBound.any fun i =>
          mx.contextLimit.all fun c => decide (c < 0) || i != c then
        .error (problem "configuration_stale" 409 "approved input context bound changed")
      else if p.outputBound.any fun o =>
          mx.outputLimit.all fun c => decide (c < 0 ∨ o < 0 ∨ o > c) then
        .error (problem "configuration_stale" 409 "approved output bound changed")
      else checkPrice p mx.price

/-- Everything `derivePlanTx` checks before it resolves the allowances. -/
def checkPlan (principal : Option Principal) (p : AttemptPlan) (now : Int) :
    Except StoreError Unit := do
  validatePlan p
  if p.keyID = "" then checkSession s principal p now else checkKey s p
  if s.revision < 0 ∨ p.configRevision < 0 ∨ s.revision ≠ p.configRevision then
    throw (problem "configuration_stale" 409 "configuration changed; retry planning")
  checkConnection s p
  checkModel s p

/-! ### Resolving allowances -/

def policyScopeMatches (scope : ScopeKind) (id : String) (p : AttemptPlan) : Bool :=
  match scope with
  | .tenant => id == p.tenantID
  | .key => id == p.keyID
  | .connection => id == p.connectionID
  | .account => id == p.accountID
  | .model => id == p.modelID
  | .other _ => false

/-- The amount an attempt needs of an allowance of `kind`: the token sum or
the cost bound of the plan, which must be known, and `otherwise` for the
kinds counted in units. -/
def requiredAmount (unboundedCost : String) (kind : AllowanceKind)
    (otherwise : Int) : Except StoreError Int :=
  match kind with
  | .tokens => match p.inputBound, p.outputBound with
    | some input, some output => match checkedAdd input output with
      | .ok sum => .ok sum
      | .error _ => .error (problem "unsupported_policy" 400 "token bound is not representable")
    | _, _ =>
      .error (problem "unsupported_policy" 400 "token policy requires bounded input and output")
  | .cost => match p.maximumCost with
    | some cost => .ok cost
    | none => .error (problem "unsupported_policy" 400 unboundedCost)
  | _ => .ok otherwise

/-- Whether a window contains `now`: `total` always does, others by their
stored bounds, and a minute window without a row by its own id. -/
def windowActive (tenantID : String) (wid : WindowID) (now : Int) : Bool :=
  if wid = .total then true
  else match s.quotaWindows.lookup (tenantID, wid), wid with
    | some w, _ => decide (w.starts ≤ now ∧ now < w.ends)
    | none, .minute start => decide (start ≤ now ∧ now < start + 60)
    | none, _ => false

/-- The row of the same limit in the window that is current at `now`. -/
def AllowanceKey.rolled (k : AllowanceKey) (now : Int) : AllowanceKey :=
  { k with windowID := currentWindowID now k.windowID.window }

/-- Open the window that is current at `now` for a limit whose own window has passed. -/
def Store.rollWindow (k : AllowanceKey) (row : PolicyLimitRow) (now : Int) : Store :=
  ((s.putWindow k.tenantID (k.rolled now).windowID (windowBounds now k.windowID.window)).addPolicyLimit
    (k.rolled now) row.maximum row.reserve).openAllowance (k.rolled now)

/-- The window a limit is counted under at `now`, if any. -/
def resolvedWindow (k : AllowanceKey) (now : Int) : Option WindowID :=
  if windowActive s k.tenantID k.windowID now then some k.windowID
  else if currentWindowID now k.windowID.window = .other "" then none
  else some (currentWindowID now k.windowID.window)

/-- The loop body of `resolveAllowances` (with `create`). -/
def resolveRow (now : Int) (allowances : List Allowance)
    (row : AllowanceKey × PolicyLimitRow) : StoreTx (List Allowance) := do
  let (k, limit) := row
  if !policyScopeMatches k.scopeKind k.scopeID p || limit.maximum ≤ 0 then pure allowances
  else do
    let s ← get
    match resolvedWindow s k now with
    | none => pure allowances
    | some wid => do
      modify fun s => if windowActive s k.tenantID k.windowID now then s
        else s.rollWindow k limit now
      let required ← Tx.liftE (requiredAmount p "cost policy requires bounded price" k.kind 1)
      pure (allowances ++ [⟨k.scopeKind, k.scopeID, wid, k.kind, limit.maximum, required⟩])

/-- The order of the `policy_limits` query. -/
def AllowanceKey.texts (k : AllowanceKey) : List String :=
  [k.scopeKind.text, k.scopeID, k.windowID.text, k.kind.text]

/-- `SELECT ... FROM policy_limits WHERE tenant_id=? ORDER BY ...`. -/
def tenantLimits (tenantID : String) : List (AllowanceKey × PolicyLimitRow) :=
  (Table.select (fun k _ => k.tenantID == tenantID) s.policyLimits).insertionSort
    fun a b => a.1.texts ≤ b.1.texts

/-- The keys that the cursor of the query passes, in their order: a row is
there from the beginning, or is inserted for the current window of another. -/
def cursorKeys (tenantID : String) (now : Int) : List AllowanceKey :=
  let keys := (tenantLimits s tenantID).map Prod.fst
  (keys ++ keys.map fun k => k.rolled now).dedup.insertionSort fun a b => a.texts ≤ b.texts

/-- The cursor at a key: the row is returned that is there by now. -/
def resolveKey (now : Int) (allowances : List Allowance) (k : AllowanceKey) :
    StoreTx (List Allowance) := do
  let s ← get
  match s.policyLimits.lookup k with
  | none => pure allowances
  | some row => resolveRow p now allowances (k, row)

def resolveAllowances (now : Int) : StoreTx AttemptPlan := do
  let s ← get
  let allowances ← (cursorKeys s p.tenantID now).foldlM (resolveKey p now) []
  pure { p with allowances := allowances }

def derivePlanTx (principal : Option Principal) (p : AttemptPlan) (now : Int) :
    StoreTx AttemptPlan := do
  let s ← get
  Tx.liftE (checkPlan s principal p now)
  resolveAllowances p now

theorem mem_tenantLimits {s : Store} {tenantID : String} {k : AllowanceKey} {row : PolicyLimitRow} :
    (k, row) ∈ tenantLimits s tenantID ↔
      s.policyLimits.lookup k = some row ∧ k.tenantID = tenantID := by
  rw [tenantLimits, List.mem_insertionSort, Table.mem_select_iff]
  simp

theorem mem_cursorKeys {s : Store} {tenantID : String} {now : Int} {k : AllowanceKey} :
    k ∈ cursorKeys s tenantID now ↔
      ∃ e ∈ tenantLimits s tenantID, k = e.1 ∨ k = e.1.rolled now := by
  simp only [cursorKeys, List.mem_insertionSort, List.mem_dedup, List.mem_append, List.mem_map]
  constructor
  · rintro (⟨e, he, rfl⟩ | ⟨_, ⟨e, he, rfl⟩, rfl⟩)
    · exact ⟨e, he, .inl rfl⟩
    · exact ⟨e, he, .inr rfl⟩
  · rintro ⟨e, he, rfl | rfl⟩
    · exact .inl ⟨e, he, rfl⟩
    · exact .inr ⟨e.1, ⟨e, he, rfl⟩, rfl⟩

theorem tenantID_of_mem_cursorKeys {s : Store} {tenantID : String} {now : Int} {k : AllowanceKey}
    (h : k ∈ cursorKeys s tenantID now) : k.tenantID = tenantID := by
  obtain ⟨e, he, rfl | rfl⟩ := mem_cursorKeys.1 h <;> exact (mem_tenantLimits.1 he).2

end Hoorific
