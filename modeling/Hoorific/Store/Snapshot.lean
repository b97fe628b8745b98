/-
The runtime view of a tenant, read from the store (`snapshot`).  What is
not enabled is left out: a disabled model or alias does not appear, a
disabled connection is marked, and targets and models behind a connection
that is marked are dropped.  An alias with a route has the targets of the
route, any other alias has its members.

The rows are read in the order of the table.
-/
import Hoorific.Runtime
import Hoorific.Store.Graph

namespace Hoorific

open Table

/-! ### Resources at run time -/

/-- The settings of a connection; a disabled one is marked. -/
def ConnectionData.runtimeSettings (x : ConnectionData) : List (String × String) :=
  if x.enabled then x.settings
  else ("disabled", "true") :: x.settings.filter fun e => e.1 != "disabled"

def ConnectionData.runtime (x : ConnectionData) (tenant id : String) (version : Int) : Connection :=
  { tenantID := tenant, id := id, version := version, connector := x.connector,
    accountID := x.accountID, baseURL := x.baseURL, region := x.region, project := x.project,
    dedicated := x.dedicated, settings := x.runtimeSettings, clientProfile := x.clientProfile }

def ModelData.runtime (x : ModelData) (id : String) (version : Int) : Model :=
  { catalogID := id, id := x.upstreamID, connectionID := x.connectionID, version := version,
    operations := x.operations, inputModalities := x.inputModalities,
    outputModalities := x.outputModalities, features := x.features,
    contextLimit := x.contextLimit, outputLimit := x.outputLimit, provenance := x.provenance,
    price := x.price }

def RoutePolicyData.runtime (r : RoutePolicyData) : RoutePolicy :=
  { residency := r.residency, fallback := r.fallback, accountPoolID := r.accountPoolID,
    affinity := r.affinity }

def AccountData.runtime (x : AccountData) : AccountPool :=
  { provider := x.provider, accountIDs := x.accountIDs }

def TenantData.policy (t : TenantData) : TenantPolicy :=
  { allowedOrigins := t.allowedOrigins, maxBodyBytes := t.maxBodyBytes,
    maxEventBytes := t.maxEventBytes }

/-- The loop body over the connections. -/
def runtimeConnection (platform : Platform) (tenant : String)
    (e : String × Resource .connections) : Except StoreError (String × Connection) :=
  let x : ConnectionData := e.2.data
  match validateClientProfile platform x.clientProfile x.connector with
  | .error err => .error (problem "invalid_configuration" 500 err.message)
  | .ok _ => .ok (e.1, x.runtime tenant e.1 e.2.version)

/-- The enabled models of a tenant. -/
def Store.runtimeModels (s : Store) (tenant : String) : Table String Model :=
  Table.insertAll ∅ (((s.rowsOf tenant .models).filter fun e => ModelData.enabled e.2.data).map
    fun e => (e.1, ModelData.runtime e.2.data e.1 e.2.version))

section Targets

variable (connections : Table String Connection) (models : Table String Model)

/-- A connection that exists and is not marked. -/
def usable (id : String) : Bool := (connections.lookup id).any fun c => !c.disabled

/-- The target a member of an alias stands for. -/
def memberTarget (mid : String) : Option RouteTarget :=
  match models.lookup mid with
  | none => none
  | some m =>
    if usable connections m.connectionID then
      some { connectionID := m.connectionID, modelID := mid, priority := 0, weight := 1 }
    else none

/-- A target of a route stays if its model is there, on its connection, and
the connection is usable. -/
def survives (t : RouteTarget) : Bool :=
  (models.lookup t.modelID).any (fun m => m.connectionID == t.connectionID) &&
    usable connections t.connectionID

/-- The check of the last loop over the models. -/
def checkModelConnection (e : (_ : String) × Model) : Except StoreError Unit := do
  Check.require (e.2.connectionID != "")
    (problem "invalid_configuration" 500 "model connection required")
  Check.require (connections.lookup e.2.connectionID).isSome
    (problem "invalid_configuration" 500 "model connection invalid")

end Targets

/-! ### The snapshot -/

/-- The enabled aliases of a tenant. -/
def Store.enabledAliases (s : Store) (tenant : String) : List (String × AliasData) :=
  (s.modelAliases tenant).filter fun e => e.2.enabled

/-- The routes of enabled aliases. -/
def Store.activeRoutes (s : Store) (tenant : String) : List (String × RoutePolicyData) :=
  (s.routePolicies tenant).filter fun e => (s.enabledAliases tenant).any fun a => a.1 == e.2.alias

section Assemble

variable (s : Store) (tenant : String) (connections : Table String Connection)

/-- The members of the aliases that have any. -/
def Store.memberTargets : List (String × List RouteTarget) :=
  ((s.enabledAliases tenant).map fun e =>
    (e.1, e.2.modelIDs.filterMap (memberTarget connections (s.runtimeModels tenant)))).filter
      fun e => !e.2.isEmpty

/-- The targets of the routes. -/
def Store.routeTargets : List (String × List RouteTarget) :=
  (s.activeRoutes tenant).map fun e =>
    (e.2.alias, e.2.targets.filter (survives connections (s.runtimeModels tenant)))

/-- The snapshot with these connections. -/
def Store.assemble : RuntimeSnapshot :=
  { revision := s.revision
    policy := ((s.tenants.lookup tenant).map TenantData.policy).getD {}
    connections := connections
    -- the models behind a marked connection are deleted last
    models := Table.deleteWhere (fun _ m => !usable connections m.connectionID)
      (s.runtimeModels tenant)
    aliases := Table.insertAll (Table.insertAll ∅ (s.memberTargets tenant connections))
      (s.routeTargets tenant connections)
    routePolicies := Table.insertAll ∅ ((s.activeRoutes tenant).map fun e =>
      (e.2.alias, e.2.runtime))
    accountPools := Table.insertAll ∅ ((s.accountPools tenant).map fun e => (e.1, e.2.runtime)) }

end Assemble

/-- The snapshot of a tenant, once its principal is known. -/
def snapshotOf (platform : Platform) (s : Store) (tenant : String) :
    Except StoreError RuntimeSnapshot := do
  let rows ← (s.rowsOf tenant .connections).mapM (runtimeConnection platform tenant)
  let connections := Table.insertAll ∅ rows
  forM (s.runtimeModels tenant).entries (checkModelConnection connections)
  pure (s.assemble tenant connections)

/-- The principal a snapshot is read for; `resolve` asks for the current one. -/
def snapshotPrincipal (s : Store) (p : Principal) (resolve : Bool) : Except StoreError Principal :=
  if resolve = true ∧ p.subjectID ≠ "" then
    if p.keyID ≠ "" then resolveActiveKeyTx s p.tenantID p.keyID p.keyRevision
    else resolveMembershipTx s p.tenantID p.subjectID
  else .ok p

def snapshot (platform : Platform) (s : Store) (p : Principal) (resolve : Bool) :
    Except StoreError RuntimeSnapshot := do
  let p ← snapshotPrincipal s p resolve
  snapshotOf platform s p.tenantID

/-! ### What the tables of a snapshot hold -/

variable {s : Store} {tenant : String}

theorem snapshotPrincipal_tenantID {p q : Principal} {resolve : Bool}
    (h : snapshotPrincipal s p resolve = .ok q) : q.tenantID = p.tenantID := by
  unfold snapshotPrincipal at h
  split at h
  · split at h
    · exact resolveActiveKeyTx_tenantID h
    · exact resolveMembershipTx_tenantID h
  · rw [Except.ok.inj h]

theorem rowsOf_nodup (s : Store) (tenant : String) (kind : ResourceKind) :
    ((s.rowsOf tenant kind).map Prod.fst).Nodup := by
  have hkeys : (s.rowsOf tenant kind).map Prod.fst = s.resources.keys.filterMap fun k =>
      if k.tenantID = tenant ∧ k.kind = kind then some k.id else none := by
    simp only [Store.rowsOf, AList.keys, List.keys, List.map_filterMap, List.filterMap_map]
    refine List.filterMap_congr fun e _ => ?_
    by_cases h : e.1.tenantID = tenant ∧ e.1.kind = kind <;> simp [h]
  rw [hkeys]
  refine List.Nodup.filterMap ?_ s.resources.nodupKeys
  intro k k' id hk hk'
  simp only [Option.mem_def, Option.ite_none_right_eq_some, Option.some.injEq] at hk hk'
  rcases k with ⟨t, kd, i⟩
  obtain ⟨⟨rfl, rfl⟩, rfl⟩ := hk
  obtain ⟨⟨rfl, rfl⟩, rfl⟩ := hk'
  rfl

theorem dataOf_nodup (s : Store) (tenant : String) (kind : ResourceKind) :
    ((s.dataOf tenant kind).map Prod.fst).Nodup := by
  rw [Store.dataOf, List.map_map]
  exact rowsOf_nodup s tenant kind

/-- The connections of a tenant at run time. -/
def Store.runtimeConnections (s : Store) (tenant : String) : Table String Connection :=
  Table.insertAll ∅ ((s.rowsOf tenant .connections).map fun e =>
    (e.1, ConnectionData.runtime e.2.data tenant e.1 e.2.version))

theorem runtimeConnections_lookup {id : String} {c : Connection} :
    (s.runtimeConnections tenant).lookup id = some c ↔
      ∃ r : Resource .connections, s.resource tenant .connections id = some r ∧
        c = ConnectionData.runtime r.data tenant id r.version := by
  rw [Store.runtimeConnections, lookup_insertAll_map (rowsOf_nodup s tenant .connections)
    fun e => ConnectionData.runtime e.2.data tenant e.1 e.2.version]
  simp only [mem_rowsOf]

theorem runtimeModels_lookup {id : String} {m : Model} :
    (s.runtimeModels tenant).lookup id = some m ↔
      ∃ r : Resource .models, s.resource tenant .models id = some r ∧
        ModelData.enabled r.data = true ∧ m = ModelData.runtime r.data id r.version := by
  have hnodup := (rowsOf_nodup s tenant .models).sublist
    ((List.filter_sublist (p := fun e => ModelData.enabled e.2.data)).map Prod.fst)
  rw [Store.runtimeModels, lookup_insertAll_map hnodup
    fun e => ModelData.runtime e.2.data e.1 e.2.version]
  simp only [List.mem_filter, mem_rowsOf, and_assoc]

theorem accountPools_lookup {connections : Table String Connection} {id : String}
    {pool : AccountPool} :
    (s.assemble tenant connections).accountPools.lookup id = some pool ↔
      ∃ x, s.accountPool tenant id = some x ∧ pool = x.runtime := by
  have hrows := lookup_insertAll_map (dataOf_nodup s tenant .accountPools)
    (fun e => AccountData.runtime e.2) (k := id) (v := pool)
  exact hrows.trans (exists_congr fun x => and_congr mem_dataOf Iff.rfl)

end Hoorific
