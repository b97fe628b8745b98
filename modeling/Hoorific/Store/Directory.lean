/-
Who belongs to which tenant, and how that changes: the tables of tenants,
operators and role bindings with their versions, the claims of external
identities, and the bootstrap of a first owner.  `mutateTenancy` changes
one row of one of the three tables; `CreateBootstrap` reserves a subject as
the first owner of a tenant and `ConsumeBootstrap` makes it that owner.

The tables hold what is decoded from the stored JSON texts.  A key of a
durable record is the tuple it encodes.  The principal records
(`ensurePrincipal`) and the audit events are left out: they are written
here and read by nothing in the model; what `ensurePrincipal` refuses is
kept.  Where the source sorts the tenants of an operator, the order decides
only which of several refusals is given; they stand in table order here.
-/
import Hoorific.Lib.Check
import Hoorific.Lib.Run
import Hoorific.Store.Tenancy

namespace Hoorific

open Check Tx

/-! ### Tables -/

/-- A row of a table with versions. -/
structure Versioned (α : Type) where
  version : ℤ
  data : α
deriving DecidableEq

/-- The data of an operator, with the member that only people read. -/
structure OperatorRecord extends OperatorData where
  displayName : String := ""
deriving DecidableEq

structure RoleBindingData where
  subject : String
  tenantID : String
  role : Role
deriving DecidableEq

/-- The row that is stored for the data of a role binding. -/
def RoleBindingData.row (d : RoleBindingData) : RoleBindingRow :=
  ⟨d.role, d.subject, d.tenantID, d.role⟩

structure StoredBootstrap where
  tenantID : String
  subjectID : String
  expiresAt : Time
deriving DecidableEq

/-- The tables of the tenancy.  `identities` has the stored principal of an
external identity as its tenant and its subject; a bootstrap code is found
under its tenant and its hash. -/
structure Directory where
  tenants : Table String (Versioned TenantData) := ∅
  operators : Table String (Versioned OperatorRecord) := ∅
  roleBindings : Table (String × String) (Versioned RoleBindingRow) := ∅
  identitySubjects : Table String (String × String) := ∅
  identities : Table (String × String) (String × String) := ∅
  bootstrapOwners : Table String BootstrapClaim := ∅
  bootstrapReservations : Table String BootstrapClaim := ∅
  bootstraps : Table (String × String) StoredBootstrap := ∅
  revision : ℤ := 0

namespace Directory

/-! One row written into each table. -/

variable (d : Directory)

def withTenant (id : String) (row : Versioned TenantData) : Directory :=
  { d with tenants := d.tenants.insert id row }

def withOperator (id : String) (row : Versioned OperatorRecord) : Directory :=
  { d with operators := d.operators.insert id row }

def withBinding (tenant subject : String) (row : Versioned RoleBindingRow) : Directory :=
  { d with roleBindings := d.roleBindings.insert (tenant, subject) row }

def withClaim (subject : String) (identity : String × String) : Directory :=
  { d with identitySubjects := d.identitySubjects.insert subject identity }

def withIdentity (identity : String × String) (tenant subject : String) : Directory :=
  { d with identities := d.identities.insert identity (tenant, subject) }

end Directory

/-- The row of a new role binding. -/
def newBinding (tenant subject : String) (role : Role) : Versioned RoleBindingRow :=
  ⟨1, RoleBindingData.row ⟨subject, tenant, role⟩⟩

/-- Transaction bodies over the directory. -/
abbrev DirectoryTx := Tx Directory StoreError

/-- A store with the tenancy of a directory. -/
def Store.withDirectory (s : Store) (d : Directory) : Store :=
  { s with
    tenants := Table.mapValues Versioned.data d.tenants
    operators := Table.mapValues (fun o => o.data.toOperatorData) d.operators
    roleBindings := Table.mapValues Versioned.data d.roleBindings
    identitySubjects := d.identitySubjects
    identities := Table.mapValues Prod.snd d.identities
    bootstrapOwners := d.bootstrapOwners
    revision := d.revision }

namespace Directory

variable (d : Directory)

/-- `resolveMembershipTx` in a directory. -/
def membership (tenant subject : String) : Except StoreError Principal :=
  resolveMembershipTx (({} : Store).withDirectory d) tenant subject

/-! ### Owners -/

/-- `requireTenantOwnerTx`. -/
def requireTenantOwner (tenant subject : String) : Except StoreError Unit := do
  let p ← d.membership tenant subject
  Check.require (p.role == .owner) (storeError "forbidden" 403)

/-- `requireTenantOwnerManagementTx`: the tenant itself may be disabled. -/
def requireTenantOwnerManagement (tenant subject : String) : Except StoreError Unit :=
  match d.roleBindings.lookup (tenant, subject), d.operators.lookup subject with
  | some binding, some operator =>
    if binding.data.role = .owner then
      Check.require (operator.data.subject == subject && operator.data.enabled)
        (storeError "unauthorized" 401)
    else .error .noRows
  | _, _ => .error .noRows

/-- `operatorTenantsTx`. -/
def operatorTenants (subject : String) : List String :=
  (Table.select (fun k _ => k.2 == subject) d.roleBindings).map fun e => e.1.1

/-- The tenant has an owner whose operator is enabled. -/
def hasEnabledOwner (tenant : String) : Bool :=
  (Table.select (fun k b => k.1 == tenant && b.data.role == .owner) d.roleBindings).any fun e =>
    (d.operators.lookup e.1.2).any fun o => o.data.enabled

/-- `preserveEnabledOwnerTx`. -/
def preserveEnabledOwner (tenant : String) : Except StoreError Unit :=
  Check.require (d.hasEnabledOwner tenant) (storeError "last_enabled_owner" 409)

/-! ### Identities -/

/-- The issuer of a subject that is reserved for the bootstrap of a tenant. -/
def bootstrapIssuer (tenant : String) : String := "bootstrap:" ++ tenant

/-- The subject an external identity is claimed for. -/
def claimedBy (issuer identitySubject : String) : Option String :=
  (Table.select (fun _ v => v == (issuer, identitySubject)) d.identitySubjects).head?.map Prod.fst

/-- `claimIdentitySubjectTx`.  A claim that is inserted is the one that is read
back, because neither its subject nor its identity has another. -/
def claimIdentitySubjectTx (subject issuer identitySubject : String)
    (allowBootstrapReplacement : Bool) : DirectoryTx Unit := do
  let d ← get
  let claim : DirectoryTx Unit := do
    Tx.require ((d.claimedBy issuer identitySubject).all (· == subject))
      (storeError "identity_collision" 409)
    modify fun d => d.withClaim subject (issuer, identitySubject)
  match d.identitySubjects.lookup subject with
  | some (existingIssuer, existingIdentity) =>
    if existingIssuer = issuer ∧ existingIdentity = identitySubject then pure ()
    else do
      Tx.require (allowBootstrapReplacement && hasPrefix existingIssuer "bootstrap:")
        (storeError "identity_collision" 409)
      claim
  | none => claim

/-! ### Mutations -/

end Directory

/-- The roles a binding may have. -/
def Role.isKnown : Role → Bool
  | .owner | .admin | .operator | .auditor | .viewer => true
  | .other _ => false

inductive TenancyKind where
  | tenants | operators | roleBindings
deriving DecidableEq

abbrev TenancyKind.Data : TenancyKind → Type
  | .tenants => TenantData
  | .operators => OperatorRecord
  | .roleBindings => RoleBindingData

/-- A change of one row; `data = none` is data that does not decode. -/
structure TenancyMutation where
  kind : TenancyKind
  id : String
  expectedVersion : ℤ
  delete : Bool := false
  data : Option kind.Data

/-- The version a mutation finds, 0 for a row that does not exist.  Only the
bootstrap claimant need not name it. -/
def TenancyMutation.version (m : TenancyMutation) (found : Option ℤ) (bootstrap : Bool) :
    Except StoreError ℤ :=
  match found with
  | none =>
    if m.expectedVersion ≠ 0 ∨ m.delete = true then .error (storeError "version_conflict" 412)
    else .ok 0
  | some version =>
    if bootstrap = false ∧ (m.expectedVersion ≤ 0 ∨ m.expectedVersion ≠ version) then
      .error (storeError "version_conflict" 412)
    else if version = 2 ^ 63 - 1 then .error (storeError "version_exhausted" 409)
    else .ok version

/-- `validateTenantData`; `validOrigin` is the check of a parsed origin. -/
def validateTenantData (validOrigin : String → Bool) (data : Option TenantData) :
    Except StoreError TenantData :=
  match data with
  | none => .error (storeError "invalid_tenant" 400)
  | some d => do
    Check.require (trimSpace d.name != "" && decide (0 ≤ d.maxBodyBytes) &&
      decide (0 ≤ d.maxEventBytes)) (storeError "invalid_tenant" 400)
    Check.require (d.allowedOrigins.all validOrigin) (storeError "invalid_origin" 400)
    pure d

namespace Directory

variable (d : Directory)

/-- The version of the row a mutation is about. -/
def versionOf (tenant id : String) : TenancyKind → Option ℤ
  | .tenants => (d.tenants.lookup id).map Versioned.version
  | .operators => (d.operators.lookup id).map Versioned.version
  | .roleBindings => (d.roleBindings.lookup (tenant, id)).map Versioned.version

/-- `bootstrapResourceTx`: the bootstrap claimant creates over the seed of version 1. -/
def bootstrapResource (p : Principal) (m : TenancyMutation) (version : ℤ) : Bool :=
  !m.delete && m.expectedVersion == 0 && version == 1 &&
    (if m.kind = .tenants then m.id == p.tenantID else m.id == p.subjectID) &&
    (d.bootstrapOwners.lookup p.tenantID).any fun claim =>
      claim.tenantID == p.tenantID && claim.subjectID == p.subjectID && p.role == .owner

/-- The principal owns the tenant of the row; a tenant that is created needs an
owner of the principal's own. -/
def requireManager (p : Principal) (kind : TenancyKind) (tenant : String)
    (found : Bool) : Except StoreError Unit :=
  if kind = .tenants ∧ found = true then d.requireTenantOwnerManagement tenant p.subjectID
  else d.requireTenantOwner (if kind = .tenants then p.tenantID else tenant) p.subjectID

/-- The tenants a mutation affects, which the principal must own. -/
def affected (p : Principal) (tokenTenant : Bool) (m : TenancyMutation)
    (tenant : String) (found : Bool) : Except StoreError (List String) := do
  d.requireManager p m.kind tenant found
  if m.kind = .operators ∧ found = true then
    let tenants := d.operatorTenants m.id
    Check.require (tenants.contains p.tenantID) (storeError "operator_collision" 409)
    forM tenants fun bound => do
      Check.require (!(tokenTenant && bound != p.tenantID)) (storeError "forbidden" 403)
      d.requireTenantOwner bound p.subjectID
    pure tenants
  else pure [tenant]

/-- An insertion into the role bindings. -/
def insertBinding (tenant subject : String) (role : Role) : DirectoryTx Unit := do
  let d ← get
  Tx.require (d.roleBindings.lookup (tenant, subject)).isNone (.constraint "role_bindings")
  modify fun d => d.withBinding tenant subject (newBinding tenant subject role)

variable (validOrigin : String → Bool)

/-- The change of a tenant. -/
def writeTenant (p : Principal) (activeSession : Bool) (id : String)
    (found : Bool) (version : ℤ) (delete : Bool) (data : Option TenantData) :
    DirectoryTx Unit := do
  Tx.require (!delete) (storeError "tenant_delete_not_supported" 409)
  let data ← liftE (validateTenantData validOrigin data)
  Tx.require (!(activeSession && !data.enabled && id == p.tenantID))
    (storeError "tenant_disable_would_lockout" 409)
  modify fun d => d.withTenant id ⟨version + 1, data⟩
  if found then pure () else insertBinding id p.subjectID .owner

/-- The rules for the data of an operator; `previous` is what it replaces. -/
def checkOperator (id : String) (previous : Option OperatorRecord) (bootstrap : Bool)
    (data : Option OperatorRecord) : Except StoreError OperatorRecord :=
  match data with
  | none => .error (storeError "invalid_operator" 400)
  | some d => do
    Check.require (d.subject == id && (d.issuer == "") == (d.identitySubject == ""))
      (storeError "invalid_operator" 400)
    Check.require (!(previous.isNone && d.issuer == "" || hasPrefix d.issuer "bootstrap:"))
      (storeError "invalid_operator" 400)
    match previous with
    | none => pure d
    | some old => do
      Check.require (!(old.subject != d.subject || (old.issuer != "" || old.identitySubject != "") &&
        (old.issuer != d.issuer || old.identitySubject != d.identitySubject)))
        (storeError "immutable_identity" 409)
      Check.require (!(old.issuer == "" && !bootstrap))
        (storeError "bootstrap_identity_protected" 409)
      pure d

variable (tenant id : String)

/-- The record of an external identity: it names its operator, and it stays
when the operator is deleted. -/
def recordIdentity (found : Bool) (key : String × String) : DirectoryTx Unit := do
  let d ← get
  match d.identities.lookup key with
  | some (_, subject) =>
    Tx.require (subject == id && found) (storeError "identity_collision" 409)
  | none => modify fun d => d.withIdentity key tenant id

/-- The claim and the record of the external identity of an operator that has one. -/
def identify (found bootstrap : Bool) (data : OperatorRecord) : DirectoryTx Unit :=
  if data.issuer = "" then pure ()
  else do
    claimIdentitySubjectTx id data.issuer data.identitySubject bootstrap
    recordIdentity tenant id found (data.issuer, data.identitySubject)

/-- The change of an operator that is not a deletion. -/
def putOperator (previous : Option OperatorRecord) (version : ℤ)
    (bootstrap : Bool) (data : Option OperatorRecord) : DirectoryTx Unit := do
  let data ← liftE (checkOperator id previous bootstrap data)
  identify tenant id previous.isSome bootstrap data
  Tx.require (previous.isSome || tenant != "" && id != "") (.plain "principal identity required")
  modify fun d => d.withOperator id ⟨version + 1, data⟩
  if previous.isSome then pure () else insertBinding tenant id .viewer

/-- The change of an operator.  A deletion takes its role bindings with it. -/
def writeOperator (version : ℤ) (bootstrap delete : Bool)
    (data : Option OperatorRecord) : DirectoryTx Unit := do
  let d ← get
  let previous := (d.operators.lookup id).map Versioned.data
  Tx.require (!(previous.any fun old => old.issuer == "" && (delete || !bootstrap)))
    (storeError "bootstrap_identity_protected" 409)
  if delete then
    modify fun d => { d with
      operators := d.operators.erase id
      roleBindings := Table.deleteWhere (fun k _ => k.2 == id) d.roleBindings }
  else putOperator tenant id previous version bootstrap data

/-- The change of a role binding. -/
def writeBinding (version : ℤ) (delete : Bool) (data : Option RoleBindingData) : DirectoryTx Unit :=
  if delete then
    modify fun d => { d with roleBindings := d.roleBindings.erase (tenant, id) }
  else do
    let data ← orFail data (storeError "invalid_role_binding" 400)
    Tx.require (data.subject == id && data.tenantID == tenant)
      (storeError "invalid_role_binding" 400)
    Tx.require data.role.isKnown (storeError "invalid_role" 400)
    let d ← get
    Tx.require (d.operators.lookup id).isSome (storeError "operator_not_found" 404)
    modify fun d => d.withBinding tenant id ⟨version + 1, data.row⟩

/-- The change of the row, by kind. -/
def write (p : Principal) (activeSession : Bool) (tenant : String)
    (found : Bool) (version : ℤ) (bootstrap : Bool) (id : String) (delete : Bool) :
    (kind : TenancyKind) → Option kind.Data → DirectoryTx Unit
  | .tenants, data => writeTenant validOrigin p activeSession id found version delete data
  | .operators, data => writeOperator tenant id version bootstrap delete data
  | .roleBindings, data => writeBinding tenant id version delete data

def mutateTenancy (p : Principal) (m : TenancyMutation) : DirectoryTx Unit := do
  Tx.require (validRef m.id) (storeError "invalid_resource" 400)
  let tokenTenant := p.authSource == "admin_token"
  let activeSession := p.sessionID != "" || tokenTenant
  let d ← get
  let p ← liftE (d.membership p.tenantID p.subjectID)
  Tx.require (!(tokenTenant && decide (m.kind = .tenants) && m.id != p.tenantID))
    (storeError "forbidden" 403)
  let tenant := if m.kind = .tenants then m.id else p.tenantID
  let found := d.versionOf tenant m.id m.kind
  let affected ← liftE (d.affected p tokenTenant m tenant found.isSome)
  let bootstrap := found.any (d.bootstrapResource p m)
  let version ← liftE (m.version found bootstrap)
  write validOrigin p activeSession tenant found.isSome version bootstrap m.id m.delete m.kind m.data
  let d ← get
  liftE (forM affected d.preserveEnabledOwner)
  modify fun d => { d with revision := d.revision + 1 }

/-! ### The first owner -/

/-- The tenant has neither a claimed owner nor an owner binding. -/
def requireNoOwner (tenant : String) : Except StoreError Unit := do
  Check.require (d.bootstrapOwners.lookup tenant).isNone (.plain "owner already bootstrapped")
  Check.require (Table.select (fun k b => k.1 == tenant && b.data.role == .owner)
    d.roleBindings).isEmpty (.plain "owner already bootstrapped")

/-- The reservation of a tenant for its first owner. -/
def reserve (tenant subject : String) : DirectoryTx Unit := do
  let d ← get
  match d.bootstrapReservations.lookup tenant with
  | some reservation =>
    Tx.require (reservation.tenantID == tenant && reservation.subjectID == subject)
      (storeError "identity_collision" 409)
  | none => modify fun d => { d with
      bootstrapReservations := d.bootstrapReservations.insert tenant ⟨tenant, subject⟩ }

/-- `CreateBootstrap`; `hash` is the digest of the code it returns. -/
def createBootstrap (tenant subject hash : String) (now : Time) : DirectoryTx Unit := do
  Tx.require (tenant != "" && subject != "") (.plain "bootstrap identity required")
  let d ← get
  liftE (d.requireNoOwner tenant)
  Tx.require (d.operators.lookup subject).isNone (storeError "identity_collision" 409)
  reserve tenant subject
  claimIdentitySubjectTx subject (bootstrapIssuer tenant) subject false
  let d ← get
  Tx.require (d.bootstraps.lookup (tenant, hash)).isNone (.constraint "durable_records")
  modify fun d => { d with
    bootstraps := d.bootstraps.insert (tenant, hash)
      ⟨tenant, subject, ⟨now.nanos + 600 * 1000000000⟩⟩ }

/-- The rows of the first owner: the tenant, the operator and its binding. -/
def seedOwner (tenant subject : String) : Directory :=
  { d with
    tenants := Table.insertAbsent d.tenants tenant ⟨1, { name := tenant, enabled := true }⟩
    operators := Table.insertAbsent d.operators subject ⟨1, { subject := subject, enabled := true }⟩
    roleBindings := Table.insertAbsent d.roleBindings (tenant, subject)
                      (newBinding tenant subject .owner) }

/-- The record of the identity a first owner has before it is given another. -/
def recordBootstrap (tenant subject : String) : DirectoryTx Unit := do
  let d ← get
  match d.identities.lookup (bootstrapIssuer tenant, subject) with
  | some identity =>
    Tx.require (identity == (tenant, subject)) (storeError "identity_collision" 409)
  | none => modify fun d => d.withIdentity (bootstrapIssuer tenant, subject) tenant subject

/-- `ConsumeBootstrap`; `tenant` is the tenant of the record found under the hash. -/
def consumeBootstrap (tenant hash : String) (now : Time) : DirectoryTx Unit := do
  let d ← get
  let row ← orFail (d.bootstraps.lookup (tenant, hash)) .noRows
  Tx.require (decide (now.nanos < row.expiresAt.nanos)) .noRows
  liftE (d.requireNoOwner tenant)
  let reservation ← orFail (d.bootstrapReservations.lookup tenant) .noRows
  Tx.require (reservation.tenantID == tenant && reservation.subjectID == row.subjectID)
    (storeError "identity_collision" 409)
  let reserved ← orFail (d.identitySubjects.lookup row.subjectID) .noRows
  Tx.require (row.tenantID == tenant && reserved.1 == bootstrapIssuer tenant &&
    reserved.2 == row.subjectID) (storeError "identity_collision" 409)
  modify fun d => d.seedOwner tenant row.subjectID
  recordBootstrap tenant row.subjectID
  Tx.require (row.tenantID != "" && row.subjectID != "") (.plain "principal identity required")
  modify fun d => { d with
    bootstrapOwners := d.bootstrapOwners.insert tenant ⟨tenant, row.subjectID⟩
    bootstraps := d.bootstraps.erase (tenant, hash) }

end Directory

/-! ### Runs -/

/-- A change of the directory. -/
inductive DirectoryOp where
  | mutate (p : Principal) (m : TenancyMutation)
  | createBootstrap (tenant subject hash : String) (now : Time)
  | consumeBootstrap (tenant hash : String) (now : Time)

/-- The transaction of a change. -/
def DirectoryOp.tx (validOrigin : String → Bool) : DirectoryOp → DirectoryTx Unit
  | .mutate p m => Directory.mutateTenancy validOrigin p m
  | .createBootstrap tenant subject hash now => Directory.createBootstrap tenant subject hash now
  | .consumeBootstrap tenant hash now => Directory.consumeBootstrap tenant hash now

/-- One step of a run; a change that fails leaves the directory. -/
def DirectoryOp.step (validOrigin : String → Bool) (d : Directory) (op : DirectoryOp) : Directory :=
  (commit (op.tx validOrigin) d).2

/-! ### What a change does -/

namespace Directory

variable {d d' : Directory} {u : Unit} {issuer identitySubject subject tenant id hash : String}
  {allow found delete bootstrap : Bool} {validOrigin : String → Bool} {p : Principal} {version : ℤ}
  {data previous : Option OperatorRecord} {next : OperatorRecord} {now : Time}

/-- Nobody has claimed an identity for which no claim is found. -/
theorem claimedBy_eq_none (h : d.claimedBy issuer identitySubject = none) (subject : String) :
    d.identitySubjects.lookup subject ≠ some (issuer, identitySubject) := by
  intro hclaim
  have hmem : (subject, (issuer, identitySubject)) ∈
      Table.select (fun _ v => v == (issuer, identitySubject)) d.identitySubjects :=
    Table.mem_select_iff.2 ⟨hclaim, beq_self_eq_true _⟩
  rw [claimedBy, Option.map_eq_none_iff, List.head?_eq_none_iff] at h
  rw [h] at hmem
  cases hmem

theorem claimedBy_eq_some (h : d.claimedBy issuer identitySubject = some subject) :
    d.identitySubjects.lookup subject = some (issuer, identitySubject) := by
  obtain ⟨⟨k, v⟩, hhead, rfl⟩ := Option.map_eq_some_iff.1 h
  obtain ⟨hlookup, hv⟩ := Table.mem_select_iff.1 (List.mem_of_mem_head? hhead)
  rw [hlookup, beq_iff_eq.1 hv]

/-- **`claimIdentitySubjectTx`**: the subject has the identity already, or
nobody has it and the subject had none but a bootstrap reservation that may be
replaced. -/
theorem claimIdentitySubjectTx_runs
    (h : Runs (claimIdentitySubjectTx subject issuer identitySubject allow) d u d') :
    (d.identitySubjects.lookup subject = some (issuer, identitySubject) ∧ d' = d) ∨
      ((∀ x, d.identitySubjects.lookup x ≠ some (issuer, identitySubject)) ∧
        (∀ e, d.identitySubjects.lookup subject = some e →
          allow = true ∧ hasPrefix e.1 "bootstrap:" = true) ∧
        d' = d.withClaim subject (issuer, identitySubject)) := by
  -- the subject of a claim that is found has the identity itself
  have hnone : d.identitySubjects.lookup subject ≠ some (issuer, identitySubject) →
      (d.claimedBy issuer identitySubject).all (· == subject) = true →
      d.claimedBy issuer identitySubject = none := by
    intro hother hall
    rcases hc : d.claimedBy issuer identitySubject with - | x
    · rfl
    · rw [hc, Option.all_some, beq_iff_eq] at hall
      exact absurd (hall ▸ claimedBy_eq_some hc) hother
  simp only [claimIdentitySubjectTx, runs_get_bind] at h
  rcases hrow : d.identitySubjects.lookup subject with - | ⟨i, e⟩
  · simp only [hrow, runs_require_bind, runs_modify] at h
    obtain ⟨hall, rfl⟩ := h
    refine .inr ⟨claimedBy_eq_none (hnone ?_ hall), by rintro _ ⟨⟩, rfl⟩
    simp [hrow]
  · simp only [hrow, runs_ite, runs_pure, runs_require_bind, runs_modify, Bool.and_eq_true] at h
    rcases h with ⟨⟨rfl, rfl⟩, -, rfl⟩ | ⟨hne, hallow, hall, rfl⟩
    · exact .inl ⟨rfl, rfl⟩
    refine .inr ⟨claimedBy_eq_none (hnone ?_ hall), ?_, rfl⟩
    · rw [hrow]
      intro heq
      cases heq
      exact hne ⟨rfl, rfl⟩
    · rintro _ ⟨⟩
      exact hallow

theorem recordIdentity_runs {key : String × String}
    (h : Runs (recordIdentity tenant id found key) d u d') :
    d' = d ∨ d' = d.withIdentity key tenant id := by
  simp only [recordIdentity, runs_get_bind] at h
  rcases hrow : d.identities.lookup key with - | ⟨t, subject⟩
  · simp only [hrow, runs_modify] at h
    exact .inr h.symm
  · simp only [hrow, runs_require] at h
    exact .inl h.2.symm

theorem insertBinding_runs {role : Role} (h : Runs (insertBinding tenant subject role) d u d') :
    d.roleBindings.lookup (tenant, subject) = none ∧
      d' = d.withBinding tenant subject (newBinding tenant subject role) := by
  simp only [insertBinding, runs_get_bind, runs_require_bind, runs_modify,
    Option.isNone_iff_eq_none] at h
  exact ⟨h.1, h.2.symm⟩

/-- A tenant is written, and a new one gets an owner. -/
theorem writeTenant_runs {active : Bool} {data : Option TenantData}
    (h : Runs (writeTenant validOrigin p active id found version delete data) d u d') :
    ∃ next : TenantData, delete = false ∧
      ((found = true ∧ d' = d.withTenant id ⟨version + 1, next⟩) ∨
        (found = false ∧ d.roleBindings.lookup (id, p.subjectID) = none ∧
          d' = (d.withTenant id ⟨version + 1, next⟩).withBinding id p.subjectID
            (newBinding id p.subjectID .owner))) := by
  simp only [writeTenant, runs_require_bind, runs_liftE_bind, runs_modify_bind,
    Bool.not_eq_true'] at h
  obtain ⟨hdelete, next, -, -, h⟩ := h
  refine ⟨next, hdelete, ?_⟩
  cases found with
  | true =>
    simp only [if_true, runs_pure] at h
    exact .inl ⟨rfl, h.2.symm⟩
  | false =>
    obtain ⟨hfree, rfl⟩ := insertBinding_runs h
    exact .inr ⟨rfl, hfree, rfl⟩

/-- An operator is not given the issuer of a bootstrap. -/
theorem checkOperator_ok (h : checkOperator id previous bootstrap data = .ok next) :
    hasPrefix next.issuer "bootstrap:" = false := by
  rcases data with - | x
  · cases h
  simp only [checkOperator, bind_ok, require_ok, Bool.not_eq_true', Bool.or_eq_false_iff] at h
  obtain ⟨_, -, _, ⟨-, hexternal⟩, h⟩ := h
  rcases previous with - | old
  · cases h
    exact hexternal
  · simp only [bind_ok, pure_ok] at h
    obtain ⟨_, -, _, -, rfl⟩ := h
    exact hexternal

/-- The claim and the record of an operator's identity, if it has one. -/
inductive Identified (tenant id : String) (found bootstrap : Bool) (next : OperatorRecord) :
    Directory → Directory → Prop
  | none (d : Directory) (h : next.issuer = "") : Identified tenant id found bootstrap next d d
  | claimed {d d₀ d₁ : Directory} (h : next.issuer ≠ "")
    (hclaim : Runs (claimIdentitySubjectTx id next.issuer next.identitySubject bootstrap) d () d₀)
    (hrecord : Runs (recordIdentity tenant id found (next.issuer, next.identitySubject)) d₀ ()
      d₁) : Identified tenant id found bootstrap next d d₁

/-- The tables of members are the same. -/
structure SameMembers (d d' : Directory) : Prop where
  tenants : d'.tenants = d.tenants
  operators : d'.operators = d.operators
  roleBindings : d'.roleBindings = d.roleBindings

theorem SameMembers.trans {d₁ d₂ d₃ : Directory} (h : SameMembers d₁ d₂) (h' : SameMembers d₂ d₃) :
    SameMembers d₁ d₃ :=
  ⟨h'.tenants.trans h.tenants, h'.operators.trans h.operators, h'.roleBindings.trans h.roleBindings⟩

theorem sameMembers_claim
    (h : Runs (claimIdentitySubjectTx subject issuer identitySubject allow) d u d') :
    SameMembers d d' := by
  rcases claimIdentitySubjectTx_runs h with ⟨-, rfl⟩ | ⟨-, -, rfl⟩ <;> exact ⟨rfl, rfl, rfl⟩

theorem Identified.sameMembers (h : Identified tenant id found bootstrap next d d') :
    SameMembers d d' := by
  cases h with
  | none => exact ⟨rfl, rfl, rfl⟩
  | claimed _ hclaim hrecord =>
    have hm := sameMembers_claim hclaim
    rcases recordIdentity_runs hrecord with rfl | rfl
    · exact hm
    · exact ⟨hm.tenants, hm.operators, hm.roleBindings⟩

theorem putOperator_runs (h : Runs (putOperator tenant id previous version bootstrap data) d u d') :
    ∃ next d₁, hasPrefix next.issuer "bootstrap:" = false ∧
      Identified tenant id previous.isSome bootstrap next d d₁ ∧
      ((previous.isSome = true ∧ d' = d₁.withOperator id ⟨version + 1, next⟩) ∨
        (previous = none ∧ d₁.roleBindings.lookup (tenant, id) = none ∧
          d' = (d₁.withOperator id ⟨version + 1, next⟩).withBinding tenant id
            (newBinding tenant id .viewer))) := by
  simp only [putOperator, runs_liftE_bind] at h
  obtain ⟨next, hcheck, h⟩ := h
  obtain ⟨_, d₁, hid, h⟩ := runs_bind.1 h
  have hidentified : Identified tenant id previous.isSome bootstrap next d d₁ := by
    rw [identify, runs_ite] at hid
    rcases hid with ⟨hempty, hid⟩ | ⟨hne, hid⟩
    · obtain ⟨-, rfl⟩ := runs_pure.1 hid
      exact .none _ hempty
    · obtain ⟨_, d₀, hclaim, hrecord⟩ := runs_bind.1 hid
      exact .claimed hne hclaim hrecord
  simp only [runs_require_bind, runs_modify_bind] at h
  obtain ⟨-, h⟩ := h
  refine ⟨next, d₁, checkOperator_ok hcheck, hidentified, ?_⟩
  rcases previous with - | old
  · obtain ⟨hfree, rfl⟩ := insertBinding_runs h
    exact .inr ⟨rfl, hfree, rfl⟩
  · simp only [Option.isSome_some, if_true, runs_pure] at h
    exact .inl ⟨rfl, h.2.symm⟩

/-- The directory without an operator and its bindings. -/
def withoutOperator (d : Directory) (id : String) : Directory :=
  { d with
    operators := d.operators.erase id
    roleBindings := Table.deleteWhere (fun k _ => k.2 == id) d.roleBindings }

/-- What a change of an operator can be. -/
theorem writeOperator_runs
    (h : Runs (writeOperator tenant id version bootstrap delete data) d u d') :
    d' = d.withoutOperator id ∨
      (delete = false ∧ Runs (putOperator tenant id ((d.operators.lookup id).map Versioned.data)
        version bootstrap data) d u d') := by
  simp only [writeOperator, runs_get_bind, runs_require_bind] at h
  cases delete with
  | true =>
    simp only [if_true, runs_modify] at h
    exact .inl h.2.symm
  | false => exact .inr ⟨rfl, h.2⟩

theorem writeBinding_runs {data : Option RoleBindingData}
    (h : Runs (writeBinding tenant id version delete data) d u d') :
    d' = { d with roleBindings := d.roleBindings.erase (tenant, id) } ∨
      ∃ next : RoleBindingData, delete = false ∧
        d' = d.withBinding tenant id ⟨version + 1, next.row⟩ := by
  cases delete with
  | true =>
    simp only [writeBinding, if_true, runs_modify] at h
    exact .inl h.symm
  | false =>
    simp only [writeBinding, Bool.false_eq_true, if_false, runs_orFail_bind, runs_require_bind] at h
    obtain ⟨next, -, -, -, h⟩ := h
    simp only [runs_get_bind, runs_require_bind, runs_modify] at h
    exact .inr ⟨next, rfl, h.2.symm⟩

/-- **`mutateTenancy`**: the row was changed, and the affected tenants have an
enabled owner afterwards. -/
theorem mutateTenancy_runs {m : TenancyMutation} (h : Runs (mutateTenancy validOrigin p m) d u d') :
    ∃ current token affected version active d₁,
      current.subjectID = p.subjectID ∧
      let tenant := if m.kind = .tenants then m.id else p.tenantID
      let found := d.versionOf tenant m.id m.kind
      let bootstrap := found.any (d.bootstrapResource current m)
      d.affected current token m tenant found.isSome = .ok affected ∧
      m.version found bootstrap = .ok version ∧
      Runs (write validOrigin current active tenant found.isSome version bootstrap m.id m.delete
        m.kind m.data) d () d₁ ∧
      (∀ t ∈ affected, d₁.hasEnabledOwner t = true) ∧
      d' = { d₁ with revision := d₁.revision + 1 } := by
  simp only [mutateTenancy, runs_require_bind, runs_get_bind, runs_liftE_bind] at h
  obtain ⟨-, current, hcurrent, -, affected, haffected, version, hversion, h⟩ := h
  obtain ⟨_, d₁, hwrite, h⟩ := runs_bind.1 h
  simp only [runs_get_bind, runs_liftE_bind, runs_modify] at h
  obtain ⟨_, hpreserve, rfl⟩ := h
  have htenant : current.tenantID = p.tenantID := resolveMembershipTx_tenantID hcurrent
  rw [htenant] at haffected hversion hwrite
  refine ⟨current, _, affected, version, _, d₁, resolveMembershipTx_subjectID hcurrent,
    haffected, hversion, hwrite, ?_, rfl⟩
  intro t ht
  exact require_ok.1 (forM_ok.1 hpreserve t ht)

/-- The tables of identities are the same. -/
structure SameIdentities (d d' : Directory) : Prop where
  identitySubjects : d'.identitySubjects = d.identitySubjects
  identities : d'.identities = d.identities

theorem reserve_runs (h : Runs (reserve tenant subject) d u d') :
    SameMembers d d' ∧ SameIdentities d d' := by
  simp only [reserve, runs_get_bind] at h
  split at h
  · obtain ⟨-, rfl⟩ := runs_require.1 h
    exact ⟨⟨rfl, rfl, rfl⟩, rfl, rfl⟩
  · obtain rfl := runs_modify.1 h
    exact ⟨⟨rfl, rfl, rfl⟩, rfl, rfl⟩

/-- **`CreateBootstrap`** claims the subject and changes no member. -/
theorem createBootstrap_runs (h : Runs (createBootstrap tenant subject hash now) d u d') :
    ∃ d₁ d₂, SameMembers d d₁ ∧ SameIdentities d d₁ ∧
      Runs (claimIdentitySubjectTx subject (bootstrapIssuer tenant) subject false) d₁ () d₂ ∧
      SameMembers d₂ d' ∧ SameIdentities d₂ d' := by
  simp only [createBootstrap, runs_require_bind, runs_get_bind, runs_liftE_bind] at h
  obtain ⟨-, _, -, -, h⟩ := h
  obtain ⟨_, d₁, hreserve, h⟩ := runs_bind.1 h
  obtain ⟨_, d₂, hclaim, h⟩ := runs_bind.1 h
  simp only [runs_get_bind, runs_require_bind, runs_modify] at h
  obtain ⟨-, rfl⟩ := h
  obtain ⟨hm, hi⟩ := reserve_runs hreserve
  exact ⟨d₁, d₂, hm, hi, hclaim, ⟨rfl, rfl, rfl⟩, rfl, rfl⟩

theorem recordBootstrap_runs (h : Runs (recordBootstrap tenant subject) d u d') :
    d' = d ∨ d' = d.withIdentity (bootstrapIssuer tenant, subject) tenant subject := by
  simp only [recordBootstrap, runs_get_bind] at h
  split at h
  · exact .inl (runs_require.1 h).2.symm
  · exact .inr (runs_modify.1 h).symm

/-- **`ConsumeBootstrap`** seeds the rows of an owner that are not there. -/
theorem consumeBootstrap_runs (h : Runs (consumeBootstrap tenant hash now) d u d') :
    ∃ subject d₁, (d₁ = d.seedOwner tenant subject ∨
        d₁ = (d.seedOwner tenant subject).withIdentity (bootstrapIssuer tenant, subject) tenant
          subject) ∧
      SameMembers d₁ d' ∧ SameIdentities d₁ d' := by
  simp only [consumeBootstrap, runs_get_bind, runs_orFail_bind, runs_require_bind,
    runs_liftE_bind, runs_modify_bind, Bool.and_eq_true, beq_iff_eq] at h
  obtain ⟨row, -, -, _, -, _, -, -, ⟨issuer, identity⟩, -, -, h⟩ := h
  obtain ⟨_, d₁, hrecord, h⟩ := runs_bind.1 h
  simp only [runs_require_bind, runs_modify] at h
  obtain ⟨-, rfl⟩ := h
  exact ⟨row.subjectID, d₁, recordBootstrap_runs hrecord, ⟨rfl, rfl, rfl⟩, rfl, rfl⟩

end Directory

end Hoorific
