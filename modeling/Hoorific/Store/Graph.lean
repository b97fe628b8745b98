/-
The configuration of a tenant as a graph of resources, and the rules the
whole graph has to meet at the end of a change (`validateTenantTx`): every
reference leads to a resource, what is enabled leads to what is enabled,
a route's targets belong to its alias, its residency and its pool.

The graph is read through lookups by id; a loop over the resources of a
kind goes through them in the order of the table.  Go ranges over its maps
in any order, which matters in one place: a pool takes the first matching
connection and then looks at its consent.  There the order is an argument.
-/
import Hoorific.Store.Validation

namespace Hoorific

open Check

/-! ### Reading the graph -/

/-- `SELECT id, version, data FROM resources WHERE tenant_id AND kind`. -/
def Store.rowsOf (s : Store) (tenant : String) (kind : ResourceKind) :
    List (String × Resource kind) :=
  s.resources.entries.filterMap fun e =>
    if h : e.1.tenantID = tenant ∧ e.1.kind = kind then some (e.1.id, h.2 ▸ e.2) else none

variable {s : Store} {tenant id : String} {kind : ResourceKind}

theorem mem_rowsOf {r : Resource kind} :
    (id, r) ∈ s.rowsOf tenant kind ↔ s.resource tenant kind id = some r := by
  have hlookup : s.resource tenant kind id = some r ↔
      (⟨⟨tenant, kind, id⟩, r⟩ : Sigma fun k : ResourceKey => Resource k.kind) ∈
        s.resources.entries := AList.mem_lookup_iff
  rw [hlookup, Store.rowsOf, List.mem_filterMap]
  constructor
  · rintro ⟨⟨⟨t, k, i⟩, row⟩, hmem, he⟩
    split at he
    next h =>
      obtain ⟨rfl, rfl⟩ : t = tenant ∧ k = kind := h
      cases he
      exact hmem
    next => cases he
  · intro hmem
    exact ⟨_, hmem, dif_pos ⟨rfl, rfl⟩⟩

/-- The data of the tenant's resources of a kind, by id. -/
def Store.dataOf (s : Store) (tenant : String) (kind : ResourceKind) : List (String × kind.Data) :=
  (s.rowsOf tenant kind).map fun e => (e.1, e.2.data)

theorem mem_dataOf {x : kind.Data} :
    (id, x) ∈ s.dataOf tenant kind ↔ s.datum tenant kind id = some x := by
  simp only [Store.dataOf, Store.datum, List.mem_map, Option.map_eq_some_iff, ← mem_rowsOf]
  constructor
  · rintro ⟨⟨i, r⟩, hmem, he⟩
    cases he
    exact ⟨r, hmem, rfl⟩
  · rintro ⟨r, hmem, rfl⟩
    exact ⟨(id, r), hmem, rfl⟩

section Views

variable (s : Store) (tenant : String)

def Store.connections : List (String × ConnectionData) := s.dataOf tenant .connections
def Store.models : List (String × ModelData) := s.dataOf tenant .models
def Store.modelAliases : List (String × AliasData) := s.dataOf tenant .modelAliases
def Store.routePolicies : List (String × RoutePolicyData) := s.dataOf tenant .routePolicies
def Store.accountPools : List (String × AccountData) := s.dataOf tenant .accountPools
def Store.prices : List (String × PriceData) := s.dataOf tenant .prices
def Store.limits : List (String × PolicyLimitData) := s.dataOf tenant .policyLimits

def Store.connection (id : String) : Option ConnectionData := s.datum tenant .connections id
def Store.model (id : String) : Option ModelData := s.datum tenant .models id
def Store.modelAlias (id : String) : Option AliasData := s.datum tenant .modelAliases id
def Store.accountPool (id : String) : Option AccountData := s.datum tenant .accountPools id

end Views

/-! ### The rules of the graph -/

/-- The order in which a loop goes through a map of connections. -/
structure MapOrder where
  order : List (String × ConnectionData) → List (String × ConnectionData)
  perm : ∀ l, (order l).Perm l

/-- What every broken rule but one is answered with. -/
def invalidConfiguration : StoreError := storeError "invalid_configuration" 409

/-- The provider a connection counts for in pools: the setting overrides the connector. -/
def ConnectionData.provider (c : ConnectionData) : String :=
  if c.setting "provider" ≠ "" then c.setting "provider" else c.connector

section Rules

variable (platform : Platform) (order : MapOrder) (s : Store) (tenant : String)

/-- A subscription that has not been consented to. -/
def ConnectionData.unconsented (c : ConnectionData) : Bool :=
  platform.equalFold (c.setting "subscription") "true" && c.setting "consent_ack" != "true"

namespace Graph

def checkModel (m : ModelData) : Except StoreError Unit :=
  match s.connection tenant m.connectionID with
  | none => .error invalidConfiguration
  | some c => require (!m.enabled || c.enabled) invalidConfiguration

/-- A member of an alias: whether it is active. -/
def checkMember (active : Nat) (id : String) : Except StoreError Nat :=
  match s.model tenant id with
  | none => .error invalidConfiguration
  | some m =>
    if !m.enabled then .ok active
    else match s.connection tenant m.connectionID with
      | none => .error invalidConfiguration
      | some c => if c.enabled then .ok (active + 1) else .error invalidConfiguration

def checkAlias (a : AliasData) : Except StoreError Unit :=
  if !a.enabled then .ok ()
  else do
    require (!a.modelIDs.isEmpty) invalidConfiguration
    let active ← a.modelIDs.foldlM (checkMember s tenant) 0
    require (active != 0) invalidConfiguration

/-- The rules of a route's target; `pool` is the pool the route names. -/
def checkTarget (a : AliasData) (r : RoutePolicyData) (pool : Option AccountData)
    (t : RouteTarget) : Except StoreError Unit :=
  match s.model tenant t.modelID, s.connection tenant t.connectionID with
  | some m, some c => do
    require (m.enabled && m.connectionID == t.connectionID) invalidConfiguration
    require (c.enabled && a.modelIDs.contains t.modelID && decide (0 < t.weight) &&
      decide (0 ≤ t.priority)) invalidConfiguration
    require (t.region == "" || c.region == "" || t.region == c.region) invalidConfiguration
    require (r.residency.isEmpty || r.residency.contains c.region) invalidConfiguration
    match pool with
    | none => pure ()
    | some pool => do
      require (pool.provider == c.provider && pool.accountIDs.contains c.accountID)
        invalidConfiguration
      require (!c.unconsented platform) (storeError "consent_required" 403)
  | _, _ => .error invalidConfiguration

/-- The pool a route names: `none` if it names none. -/
def routePool (r : RoutePolicyData) : Except StoreError (Option AccountData) :=
  if r.accountPoolID = "" then .ok none
  else match s.accountPool tenant r.accountPoolID with
    | none => .error invalidConfiguration
    | some pool => .ok (some pool)

/-- One route: `seen` are the aliases that have a route already. -/
def checkRoute (seen : List String) (e : String × RoutePolicyData) :
    Except StoreError (List String) :=
  let r := e.2
  match s.modelAlias tenant r.alias with
  | none => .error invalidConfiguration
  | some a => do
    require a.enabled invalidConfiguration
    require (!seen.contains r.alias) invalidConfiguration
    let pool ← routePool s tenant r
    forM r.residency fun region => require (validRef region) invalidConfiguration
    forM r.targets (checkTarget platform s tenant a r pool)
    pure (r.alias :: seen)

/-- An account of a pool: the first connection that matches counts. -/
def checkPoolAccount (pool : AccountData) (account : String) : Except StoreError Unit :=
  match (order.order (s.connections tenant)).find? fun e =>
      e.2.enabled && e.2.accountID == account && e.2.provider == pool.provider with
  | none => .error invalidConfiguration
  | some e => require (!e.2.unconsented platform) (storeError "consent_required" 403)

def checkPool (pool : AccountData) : Except StoreError Unit := do
  require (validRef pool.provider && validNames pool.accountIDs false) invalidConfiguration
  forM pool.accountIDs (checkPoolAccount platform order s tenant pool)

def checkLimit (limit : PolicyLimitData) : Except StoreError Unit :=
  let ok : Bool := match limit.scope with
    | .tenant => limit.scopeID == tenant
    | .connection => (s.connection tenant limit.scopeID).any (·.enabled)
    | .model => (s.model tenant limit.scopeID).any (·.enabled)
    | .account => (s.connections tenant).any fun e =>
        e.2.enabled && e.2.accountID == limit.scopeID
    | .key => (s.apiKeys.lookup (tenant, limit.scopeID)).isSome
    | .other _ => false
  require ok invalidConfiguration

end Graph

open Hoorific.Graph in
def validateTenantTx : Except StoreError Unit := do
  require (tenant != "") (storeError "unauthorized" 401)
  forM (s.models tenant) fun e => require (e.2.connectionID != "") invalidConfiguration
  forM (s.models tenant) fun e => checkModel s tenant e.2
  forM (s.prices tenant) fun e =>
    require (s.model tenant e.2.modelID).isSome invalidConfiguration
  forM (s.modelAliases tenant) fun e => checkAlias s tenant e.2
  let _ ← (s.routePolicies tenant).foldlM (checkRoute platform s tenant) []
  forM (s.accountPools tenant) fun e => checkPool platform order s tenant e.2
  forM (s.limits tenant) fun e => checkLimit s tenant e.2

end Rules

end Hoorific
