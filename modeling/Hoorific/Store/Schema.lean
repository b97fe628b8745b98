/-
The authoritative store: its resources, its tables and their row types.
A row that the source keeps as JSON text is kept here as the value it
decodes to, so a stored row is always one that its own decoder accepts.
Resources are one table whose row type depends on the kind in the key.

`Store` is the whole database.  `StoreTx` is the type of transaction
bodies over it; `WithTx` is `Tx.commit`.
-/
import Hoorific.Lib.Table
import Hoorific.Lib.Tx
import Hoorific.Core

namespace Hoorific

/-! ### Resources -/

/-- The presets of a client profile. -/
inductive Preset where
  | custom | codexCli | codexDesktop | zcodeDesktop | codexPassthrough | codexExec
  | other (text : String)
deriving DecidableEq

structure ClientProfile where
  preset : Preset
  version : String := ""
  installationID : String := ""
  headers : List (String × String) := []
deriving DecidableEq

/-- A connection.  `identity` has the members of the JSON text that
`preserveIdentity` compares, each with its raw text. -/
structure ConnectionData where
  connector : String
  accountID : String
  baseURL : String := ""
  region : String := ""
  project : String := ""
  dedicated : Bool := false
  enabled : Bool
  settings : List (String × String) := []
  clientProfile : Option ClientProfile := none
  identity : List (String × String) := []
deriving DecidableEq

/-- `settings[key]`: the empty text for an absent key. -/
def ConnectionData.setting (c : ConnectionData) (key : String) : String :=
  (c.settings.lookup key).getD ""

/-- Whether a model is known to support a feature. -/
inductive Support where
  | supported | unsupported | unknown
  | other (text : String)
deriving DecidableEq

structure ModelData where
  connectionID : String
  upstreamID : String
  operations : List Operation
  features : List (String × Support) := []
  inputModalities : List String := []
  outputModalities : List String := []
  contextLimit : Option Int := none
  outputLimit : Option Int := none
  provenance : String := ""
  price : Option PriceSchedule := none
  enabled : Bool
deriving DecidableEq

structure RouteTarget where
  connectionID : String
  modelID : String
  priority : Int
  weight : Int
  region : String := ""
deriving DecidableEq

structure AliasData where
  targets : List RouteTarget := []
  modelIDs : List String
  description : String := ""
  enabled : Bool
deriving DecidableEq

structure RoutePolicyData where
  «alias» : String
  targets : List RouteTarget
  residency : List String := []
  fallback : Bool := false
  accountPoolID : String := ""
  affinity : Bool := false
deriving DecidableEq

structure PolicyLimitData where
  scope : ScopeKind
  scopeID : String
  requestsPerMinute : Int := 0
  tokensPerMinute : Int := 0
  maxCost : Int := 0
  concurrency : Int := 0
  costWindow : Window := .other ""
  outstandingJobs : Int := 0
deriving DecidableEq

structure AccountData where
  connector : String := ""
  name : String := ""
  provider : String := ""
  accountIDs : List String := []
deriving DecidableEq

structure PriceData where
  modelID : String
  currency : String
  inputPerMillion : Int
  outputPerMillion : Int
  cachedInputPerMillion : Option Int := none
  cacheWriteInputPerMillion : Option Int := none
  cacheWrite5mPerMillion : Option Int := none
  cacheWrite1hPerMillion : Option Int := none
deriving DecidableEq

structure KeyData where
  name : String := ""
  permissions : List String
  aliases : List String := []
  connections : List String := []
  operations : List Operation := []
  portable : Bool := false
  nativeAccount : Bool := false
  realtime : Bool := false
  role : Role
  version : Int := 0
deriving DecidableEq

/-- The kinds of rows of the `resources` table. -/
inductive ResourceKind where
  | connections | models | modelAliases | routePolicies | policyLimits | accountPools
  | prices | apiKeys
deriving DecidableEq

/-- What a resource of each kind holds. -/
def ResourceKind.Data : ResourceKind → Type
  | .connections => ConnectionData
  | .models => ModelData
  | .modelAliases => AliasData
  | .routePolicies => RoutePolicyData
  | .policyLimits => PolicyLimitData
  | .accountPools => AccountData
  | .prices => PriceData
  | .apiKeys => KeyData

instance : ∀ k : ResourceKind, DecidableEq k.Data
  | .connections => inferInstanceAs (DecidableEq ConnectionData)
  | .models => inferInstanceAs (DecidableEq ModelData)
  | .modelAliases => inferInstanceAs (DecidableEq AliasData)
  | .routePolicies => inferInstanceAs (DecidableEq RoutePolicyData)
  | .policyLimits => inferInstanceAs (DecidableEq PolicyLimitData)
  | .accountPools => inferInstanceAs (DecidableEq AccountData)
  | .prices => inferInstanceAs (DecidableEq PriceData)
  | .apiKeys => inferInstanceAs (DecidableEq KeyData)

structure ResourceKey where
  tenantID : String
  kind : ResourceKind
  id : String
deriving DecidableEq

structure Resource (k : ResourceKind) where
  version : Int
  data : k.Data
deriving DecidableEq

/-- The `resources` table: a row's data has the type its key says. -/
abbrev Resources := AList fun k : ResourceKey => Resource k.kind

/-! ### Tenancy -/

structure TenantData where
  name : String := ""
  enabled : Bool
  allowedOrigins : List String := []
  maxBodyBytes : Int := 0
  maxEventBytes : Int := 0
deriving DecidableEq

structure OperatorData where
  subject : String
  issuer : String := ""
  identitySubject : String := ""
  enabled : Bool
deriving DecidableEq

/-- A role binding: the role column and the stored data. -/
structure RoleBindingRow where
  role : Role
  dataSubject : String
  dataTenantID : String
  dataRole : Role
deriving DecidableEq

structure BootstrapClaim where
  tenantID : String
  subjectID : String
deriving DecidableEq

structure StoredSession where
  tenantID : String
  subjectID : String
  expiresAt : Time
deriving DecidableEq

structure ApiKeyRow where
  version : Int
  revoked : Bool
deriving DecidableEq

/-! ### Accounting -/

/-- The key of the `allowances` and `policy_limits` tables. -/
structure AllowanceKey where
  tenantID : String
  scopeKind : ScopeKind
  scopeID : String
  windowID : WindowID
  kind : AllowanceKind
deriving DecidableEq

/-- The row an allowance of a tenant is counted in. -/
def Allowance.key (a : Allowance) (tenantID : String) : AllowanceKey :=
  ⟨tenantID, a.scopeKind, a.scopeID, a.windowID, a.kind⟩

structure AllowanceRow where
  reserved : Int
  version : Int
deriving DecidableEq

structure PolicyLimitRow where
  maximum : Int
  reserve : Int
  version : Int
deriving DecidableEq

structure QuotaWindowRow where
  starts : Int
  ends : Int
deriving DecidableEq

/-- What the store keeps about an attempt: the plan it was admitted with,
the plan as submitted, the amounts it holds (`held` runs parallel to
`plan.allowances`) and its charges. -/
structure AttemptEnvelope where
  plan : AttemptPlan
  submitted : AttemptPlan
  subjectID : String := ""
  outcome : Option AttemptOutcome := none
  held : List Int
  chargedCost : Int := 0
  chargedCostKnown : Bool := false
  reconciled : Bool := false
  acceptedEvidence : String := ""
  updatedAt : Int
  concurrencyReleased : Bool := false
  price : Option PriceSchedule := none
deriving DecidableEq

structure AttemptKey where
  tenantID : String
  attemptID : String
deriving DecidableEq

structure AttemptRow where
  requestID : String
  state : AttemptState
  version : Int
  deadline : Int
  updatedAt : Int
  data : AttemptEnvelope
deriving DecidableEq

structure LedgerKey where
  tenantID : String
  effectID : String
deriving DecidableEq

/-- A `usage_ledger` row; `amount = none` is SQL `NULL`. -/
structure LedgerRow where
  attemptID : String
  effectKind : String
  amount : Option Int
  createdAt : Int
deriving DecidableEq

inductive ReconciliationMode where
  | providerEvidence | chargeReservedMaximum
  | other (text : String)
deriving DecidableEq

structure Reconciliation where
  reconciliationID : String
  mode : ReconciliationMode
  reason : String
  sourceReference : String := ""
  cost : Option Int := none
  usage : Option Usage := none
deriving DecidableEq

/-- What a reconciliation answers; the usage in it is the normalized one. -/
structure ReconciliationResult where
  reconciliation : Reconciliation
  admission : String
  admissionVersion : Int
  state : AttemptState
  reconciled : Bool
  chargedCost : Option Int
  delta : Option Int
deriving DecidableEq

/-- A stored reconciliation: the request as it was made, and its result. -/
structure ReconciliationRow where
  version : Int
  admission : String
  expected : Int
  request : Reconciliation
  result : ReconciliationResult
deriving DecidableEq

/-! ### The store -/

structure Store where
  tenants : Table String TenantData := ∅
  operators : Table String OperatorData := ∅
  roleBindings : Table (String × String) RoleBindingRow := ∅
  identitySubjects : Table String (String × String) := ∅
  identities : Table (String × String) String := ∅
  bootstrapOwners : Table String BootstrapClaim := ∅
  adminSessions : Table String StoredSession := ∅
  apiKeys : Table (String × String) ApiKeyRow := ∅
  resources : Resources := ∅
  revision : Int := 0
  policyLimits : Table AllowanceKey PolicyLimitRow := ∅
  quotaWindows : Table (String × WindowID) QuotaWindowRow := ∅
  allowances : Table AllowanceKey AllowanceRow := ∅
  attempts : Table AttemptKey AttemptRow := ∅
  usageLedger : Table LedgerKey LedgerRow := ∅
  reconciliations : Table (String × String) ReconciliationRow := ∅

/-- The resource of a tenant with a given kind and id. -/
def Store.resource (s : Store) (tenantID : String) (kind : ResourceKind) (id : String) :
    Option (Resource kind) :=
  s.resources.lookup ⟨tenantID, kind, id⟩

/-- The data of a resource. -/
def Store.datum (s : Store) (tenant : String) (kind : ResourceKind) (id : String) :
    Option kind.Data :=
  (s.resource tenant kind id).map Resource.data

/-- Transaction bodies over the store. -/
abbrev StoreTx := Tx Store StoreError

end Hoorific
