/-
The two ways a tenant's configuration changes: `Mutate`, which creates,
updates or deletes one resource under its version, and `ApplyConfig`,
which writes a whole candidate configuration under the global revision
and can delete everything that was there before.  Both keep the policy
tables in step with the `policy_limits` resources (`syncPolicyLimit`) and
validate the whole graph before they commit.

The audit event of a change is left out; it is written last and read by
nothing here.
-/
import Hoorific.Store.Graph
import Hoorific.Store.PolicySync

namespace Hoorific

open Tx

/-! ### Identity -/

/-- The members of a connection that no update changes. -/
def identityKeys : List String := ["id", "ID", "tenant_id", "TenantID", "account_id", "AccountID"]

/-- `preserveIdentity` for connections: the raw texts agree, absent ones are empty. -/
def preserveIdentity (old next : ConnectionData) : Except StoreError Unit :=
  Check.require (identityKeys.all fun k =>
      (old.identity.lookup k).getD "" == (next.identity.lookup k).getD "")
    (storeError "immutable_identity" 409)

/-- The identity check of `Mutate`: only connections have one. -/
def identityKept : (kind : ResourceKind) → (old next : kind.Data) → Except StoreError Unit
  | .connections, old, next => preserveIdentity old next
  | .models, _, _ | .modelAliases, _, _ | .routePolicies, _, _ | .policyLimits, _, _
  | .accountPools, _, _ | .prices, _, _ | .apiKeys, _, _ => .ok ()

/-! ### Keys -/

def roleRank : Role → Nat
  | .viewer => 1 | .operator => 2 | .admin => 3 | .owner => 4 | .auditor => 0 | .other _ => 0

variable (p : Principal)

/-- Whether the permissions of a principal include one. -/
def Principal.permits (permission : String) : Bool :=
  p.permissions.any fun x => x == "*" || x == permission

/-- `issuerAllowsKey`: nobody grants more than they have. -/
def issuerAllowsKey (kd : KeyData) : Bool :=
  decide (roleRank kd.role ≤ roleRank p.role) && kd.permissions.all p.permits &&
  kd.aliases.all (fun v => p.permits ("alias:" ++ v) || p.permits "aliases:*" || p.permits "*") &&
  kd.connections.all (fun v =>
    p.permits ("connection:" ++ v) || p.permits "connections:*" || p.permits "*") &&
  kd.operations.all (fun v =>
    p.permits ("operation:" ++ v) || p.permits "operations:*" || p.permits "*")

/-- `syncKeyMetadataTx`: `next` is the new metadata, `none` for a deletion,
which revokes the key. -/
def syncKeyMetadataTx (id : String) (next : Option KeyData) (version : Int) : StoreTx Unit := do
  require (id != "") (storeError "invalid_resource" 400)
  require (decide (1 < version)) (storeError "invalid_key_mutation" 400)
  let s ← get
  let old ← orFail (s.apiKeys.lookup (p.tenantID, id)) (storeError "not_found" 404)
  require (old.version + 1 == version) (storeError "version_conflict" 412)
  match next with
  | none => modify fun s =>
      { s with apiKeys := s.apiKeys.insert (p.tenantID, id) ⟨version, true⟩ }
  | some data => do
    let kd ← liftE (decodeKeyData data)
    require (issuerAllowsKey p kd) (storeError "forbidden" 403)
    modify fun s => { s with apiKeys := s.apiKeys.insert (p.tenantID, id) ⟨version, old.revoked⟩ }

/-! ### `Mutate` -/

/-- A change of one resource; `data = none` is data that does not decode. -/
structure Mutation where
  kind : ResourceKind
  id : String
  expectedVersion : Int
  delete : Bool := false
  data : Option kind.Data

/-- What a mutation keeps in step: the metadata of keys and the policy tables. -/
def syncTables (id : String) (version now : Int) :
    (kind : ResourceKind) → Option kind.Data → StoreTx Unit
  | .apiKeys, next => syncKeyMetadataTx p id next (version + 1)
  | .policyLimits, next => syncPolicyLimit p.tenantID id next now
  | .connections, _ | .models, _ | .modelAliases, _ | .routePolicies, _ | .accountPools, _
  | .prices, _ => pure ()

/-- The row a mutation writes: no data deletes the resource. -/
def Store.writeResource (s : Store) (k : ResourceKey) (version : Int) (next : Option k.kind.Data) :
    Store :=
  match next with
  | none => { s with resources := s.resources.erase k }
  | some data => { s with resources := s.resources.insert k ⟨version + 1, data⟩ }

/-- `bumpRevisionTx`. -/
def Store.bumpRevision (s : Store) : Store := { s with revision := s.revision + 1 }

section Changes

variable (platform : Platform) (order : MapOrder)

/-- The data a mutation writes: `none` deletes. -/
def Mutation.validated (m : Mutation) : Except StoreError (Option m.kind.Data) :=
  if m.delete then .ok none
  else (validateResource platform m.kind m.data).map some

/-- The version a mutation finds: 0 for a resource that does not exist.  A
mutation names the version it changes. -/
def Mutation.version (m : Mutation) (current : Option (Resource m.kind)) : Except StoreError Int :=
  match current with
  | none =>
    if m.expectedVersion ≠ 0 ∨ m.delete = true then .error (storeError "version_conflict" 412)
    else .ok 0
  | some r =>
    if m.expectedVersion ≤ 0 ∨ m.expectedVersion ≠ r.version then
      .error (storeError "version_conflict" 412)
    else if r.version = 2 ^ 63 - 1 then .error (storeError "version_exhausted" 409)
    else .ok r.version

/-- The identity check of a mutation, for an update. -/
def Mutation.identity (m : Mutation) (current : Option (Resource m.kind))
    (next : Option m.kind.Data) : Except StoreError Unit :=
  match current, next with
  | some r, some data => identityKept m.kind r.data data
  | _, _ => .ok ()

/-- The transaction of `Mutate` that writes. -/
def mutateTx (current : Principal) (m : Mutation) (data : Option m.kind.Data) (now : Int) :
    StoreTx Unit := do
  let s ← get
  let current ← liftE (resolveMembershipTx s current.tenantID current.subjectID)
  liftE (authorize current true)
  let found := s.resource current.tenantID m.kind m.id
  let version ← liftE (m.version found)
  liftE (m.identity found data)
  syncTables current m.id version now m.kind data
  modify fun s => s.writeResource ⟨current.tenantID, m.kind, m.id⟩ version data
  let s ← get
  liftE (validateTenantTx platform order s current.tenantID)
  modify Store.bumpRevision

/-- `Mutate`.  A transaction that only authorizes comes first; it is taken in
the state of the one that writes. -/
def mutate (p : Principal) (m : Mutation) (now : Int) : StoreTx Unit := do
  require (validRef m.id) (storeError "invalid_resource" 400)
  let s ← get
  let current ← liftE (resolveMembershipTx s p.tenantID p.subjectID)
  liftE (authorize current true)
  let data ← liftE (m.validated platform)
  mutateTx platform order current m data now

/-! ### `ApplyConfig` -/

/-- A candidate configuration: for each kind a map from ids to data. -/
structure Candidate where
  connections : Table String (Option ConnectionData) := ∅
  models : Table String (Option ModelData) := ∅
  modelAliases : Table String (Option AliasData) := ∅
  routePolicies : Table String (Option RoutePolicyData) := ∅
  policyLimits : Table String (Option PolicyLimitData) := ∅
  accountPools : Table String (Option AccountData) := ∅
  prices : Table String (Option PriceData) := ∅

/-- One resource of a candidate, with its data as submitted. -/
structure ConfigItem where
  kind : ResourceKind
  id : String
  data : kind.Data

/-- How a kind is called in the error about an id. -/
def ResourceKind.identityName : ResourceKind → String
  | .connections => "connection" | .models => "model" | .modelAliases => "alias"
  | .routePolicies => "route" | .policyLimits => "policy" | .accountPools => "account-pool"
  | .prices => "price" | .apiKeys => "key"

/-- The loop body over one map of the candidate: the data is stored as submitted. -/
def checkItem (kind : ResourceKind) (e : (_ : String) × Option kind.Data) :
    Except StoreError ConfigItem := do
  Check.require (validRef e.1)
    (problem "invalid_configuration" 400 ("invalid " ++ kind.identityName ++ " identity"))
  let _ ← validateResource platform kind e.2
  match e.2 with
  | none => .error (problem "invalid_configuration" 400 "invalid configuration")
  | some data => pure ⟨kind, e.1, data⟩

/-- The items of a candidate, in the order they are applied. -/
def Candidate.items (c : Candidate) : Except StoreError (List ConfigItem) := do
  let connections ← c.connections.entries.mapM (checkItem platform .connections)
  let models ← c.models.entries.mapM (checkItem platform .models)
  let modelAliases ← c.modelAliases.entries.mapM (checkItem platform .modelAliases)
  let routePolicies ← c.routePolicies.entries.mapM (checkItem platform .routePolicies)
  let policyLimits ← c.policyLimits.entries.mapM (checkItem platform .policyLimits)
  let accountPools ← c.accountPools.entries.mapM (checkItem platform .accountPools)
  let prices ← c.prices.entries.mapM (checkItem platform .prices)
  pure (connections ++ models ++ modelAliases ++ routePolicies ++ policyLimits ++ accountPools ++
    prices)

/-- Everything a configuration consists of. -/
def ResourceKind.configured : ResourceKind → Bool
  | .connections | .models | .modelAliases | .routePolicies | .policyLimits | .accountPools
  | .prices => true
  | .apiKeys => false

/-- What `prune` deletes first: the policy rows and the resources of the tenant. -/
def Store.prune (s : Store) (tenant : String) : Store :=
  { s with
    policyLimits := Table.deleteWhere (fun k _ => k.tenantID == tenant) s.policyLimits
    resources := Table.filterKeys (fun k : ResourceKey =>
      !(k.tenantID == tenant && k.kind.configured)) s.resources }

/-- The loop body over the items of a candidate.  `clock` is the time at which
the policy rows of an item are written. -/
def applyItem (tenant : String) (clock : String → Int) (it : ConfigItem) : StoreTx Unit := do
  match it with
  | ⟨.policyLimits, id, data⟩ => syncPolicyLimit tenant id (some data) (clock id)
  | _ => pure ()
  modify fun s => s.writeResource ⟨tenant, it.kind, it.id⟩
    (((s.resource tenant it.kind it.id).map Resource.version).getD 0) (some it.data)

/-- `ApplyConfig`: the revision it leaves. -/
def applyConfig (p : Principal) (expected : Int) (candidate : Option Candidate) (prune : Bool)
    (clock : String → Int) : StoreTx Int := do
  let candidate ← orFail candidate (problem "invalid_configuration" 400 "invalid configuration")
  let items ← liftE (candidate.items platform)
  let s ← get
  let current ← liftE (resolvePrincipalTx s p)
  liftE (authorize current true)
  require (s.revision == expected) (storeError "version_conflict" 412)
  if prune then modify fun s => s.prune current.tenantID
  items.forM (applyItem current.tenantID clock)
  let s ← get
  liftE (validateTenantTx platform order s current.tenantID)
  modify Store.bumpRevision
  pure (expected + 1)

end Changes

end Hoorific
