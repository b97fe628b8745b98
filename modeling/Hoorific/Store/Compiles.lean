/-
Accepted configurations and the catalog.  The catalog has rules of its own
for what it compiles.  Most of them follow from the rules a configuration
was accepted under: those of each resource, and those of the graph.  Two do
not: the catalog wants no target of an alias twice, and no account pool
without accounts.  `Store.Compilable` says that the stored configuration
meets these two, and `runtimeReady_iff` that nothing else is needed, in
every accepted store.
-/
import Hoorific.Catalog
import Hoorific.Store.Accepted
import Hoorific.Store.Snapshot

namespace Hoorific

open List Check Table

variable {platform : Platform} {s : Store} {tenant : String}

/-! ### What validation gives the catalog -/

theorem ne_empty_of_validRef {x : String} (h : validRef x = true) : x ≠ "" := by
  rintro rfl
  cases h

theorem validNames_spec {xs : List String} :
    validNames xs false = true → (∀ x ∈ xs, x ≠ "") ∧ xs.Nodup := by
  simp only [validNames, Bool.and_eq_true, all_eq_true, decide_eq_true_eq]
  rintro ⟨hall, hnodup⟩
  exact ⟨fun x hx => ne_empty_of_validRef (hall x hx).1, hnodup⟩

variable {x c : ConnectionData} {id name : String} {t : RouteTarget} {m : ModelData}
  {r : RoutePolicyData} {pool : Option AccountData} {targets : List RouteTarget}

theorem profile_of_valid (h : ValidData platform .connections x) :
    validateClientProfile platform x.clientProfile x.connector = .ok () := by
  have hx := h invalidConfiguration
  simp only [validateData, validateConnection, bind_ok] at hx
  obtain ⟨-, -, hrest⟩ := hx
  split at hrest
  next u hok => exact hok
  next => cases hrest

theorem validModel_of_valid {x : ModelData} (h : ValidData platform .models x) :
    validModel x = true := by
  have hx := h invalidConfiguration
  simpa only [validateData, require_ok] using hx

/-- The rules for one model that the catalog has are among those of the store. -/
theorem sound_of_valid {x : ModelData} (h : validModel x = true) (id : String) (version : ℤ) :
    (x.runtime id version).Sound := by
  simp only [validModel, Bool.and_eq_true, all_eq_true] at h
  obtain ⟨⟨⟨⟨⟨⟨-, hctx⟩, hout⟩, -⟩, -⟩, hfeatures⟩, hprice⟩ := h
  refine ⟨hctx, hout, ?_, ?_⟩
  · intro f hf
    have hvalid := hfeatures f hf
    simp only [validFeature, Bool.and_eq_true] at hvalid
    simp only [catalogFeature, Bool.and_eq_true, bne_iff_ne]
    exact ⟨ne_empty_of_validRef hvalid.1, hvalid.2⟩
  · intro price hp
    have hvalid : validPriceSchedule price = true := by
      rw [show x.price = some price from hp] at hprice
      exact hprice
    simp only [validPriceSchedule, Bool.and_eq_true, all_eq_true] at hvalid
    exact ⟨ne_empty_of_validRef hvalid.1, hvalid.2⟩

theorem residency_of_valid {x : RoutePolicyData}
    (h : ValidData platform .routePolicies x) : ∀ region ∈ x.residency, region ≠ "" := by
  have hx := h invalidConfiguration
  simp only [validateData, require_ok, validRoutePolicy, Bool.and_eq_true] at hx
  exact (validNames_spec hx.1.1.2).1

/-! ### The snapshot of an accepted configuration -/

theorem setting_runtime (hen : x.enabled = true) (id : String) (version : ℤ) (key : String) :
    (x.runtime tenant id version).setting key = x.setting key := by
  simp [Connection.setting, ConnectionData.setting, ConnectionData.runtime,
    ConnectionData.runtimeSettings, hen]

theorem disabled_runtime (x : ConnectionData) (id : String) (version : ℤ) :
    (x.runtime tenant id version).disabled = (!x.enabled || x.setting "disabled" == "true") := by
  rcases hen : x.enabled with - | -
  · simp [Connection.disabled, Connection.setting, ConnectionData.runtime,
      ConnectionData.runtimeSettings, hen]
  · rw [Connection.disabled, setting_runtime hen]
    rfl

theorem runtimeConnections_of_stored (h : s.connection tenant id = some x) :
    ∃ version, (s.runtimeConnections tenant).lookup id = some (x.runtime tenant id version) := by
  obtain ⟨r, hr, rfl⟩ := Option.map_eq_some_iff.1 h
  exact ⟨r.version, runtimeConnections_lookup.2 ⟨r, hr, rfl⟩⟩

theorem runtimeModels_of_stored {x : ModelData} (h : s.model tenant id = some x)
    (hen : x.enabled = true) :
    ∃ version, (s.runtimeModels tenant).lookup id = some (x.runtime id version) := by
  obtain ⟨r, hr, rfl⟩ := Option.map_eq_some_iff.1 h
  exact ⟨r.version, runtimeModels_lookup.2 ⟨r, hr, hen, rfl⟩⟩

/-- The snapshot of a configuration that can be read. -/
def Store.runtimeView (s : Store) (tenant : String) : RuntimeSnapshot :=
  s.assemble tenant (s.runtimeConnections tenant)

theorem connectionOf_stored (h : s.connection tenant id = some x) :
    ∃ version, (s.runtimeConnections tenant).lookup id = some (x.runtime tenant id version) ∧
      connectionOf (s.runtimeView tenant).connections id = x.runtime tenant id version := by
  obtain ⟨version, hlookup⟩ := runtimeConnections_of_stored h
  refine ⟨version, hlookup, ?_⟩
  show ((s.runtimeConnections tenant).lookup id).getD _ = _
  rw [hlookup]
  rfl

theorem snapshotOf_eq {out : RuntimeSnapshot} (h : snapshotOf platform s tenant = .ok out) :
    out = s.runtimeView tenant := by
  simp only [snapshotOf, bind_ok, pure_ok] at h
  obtain ⟨rows, hrows, -, -, rfl⟩ := h
  have heq : rows = (s.rowsOf tenant .connections).map fun e =>
      (e.1, ConnectionData.runtime e.2.data tenant e.1 e.2.version) := by
    refine eq_map_of_mapM_ok ?_ hrows
    intro e b hb
    unfold runtimeConnection at hb
    simp only at hb
    split at hb
    · cases hb
    · exact (Except.ok.inj hb).symm
  rw [heq]
  rfl

theorem snapshotOf_accepted (h : s.Accepted platform tenant) :
    snapshotOf platform s tenant = .ok (s.runtimeView tenant) := by
  have hrows : (s.rowsOf tenant .connections).mapM (runtimeConnection platform tenant) =
      .ok ((s.rowsOf tenant .connections).map fun e =>
        (e.1, ConnectionData.runtime e.2.data tenant e.1 e.2.version)) := by
    refine mapM_eq_map ?_
    rintro ⟨id, r⟩ hmem
    have hdatum : s.datum tenant .connections id = some r.data :=
      Option.map_eq_some_iff.2 ⟨r, mem_rowsOf.1 hmem, rfl⟩
    have hprofile := profile_of_valid (h.resources .connections id r.data rfl hdatum).2
    simp only [runtimeConnection, hprofile]
  have hmodels : forM (s.runtimeModels tenant).entries
      (checkModelConnection (s.runtimeConnections tenant)) = .ok () := by
    rw [forM_ok]
    rintro ⟨id, m⟩ hmem
    obtain ⟨r, hr, -, rfl⟩ := runtimeModels_lookup.1 (mem_entries_iff.1 hmem)
    have hdatum : s.datum tenant .models id = some r.data := Option.map_eq_some_iff.2 ⟨r, hr, rfl⟩
    obtain ⟨c, hc, -⟩ := h.graph.models id r.data hdatum
    obtain ⟨version, hlookup⟩ := runtimeConnections_of_stored hc
    have hvalid := validModel_of_valid (h.resources .models id r.data rfl hdatum).2
    simp only [validModel, Bool.and_eq_true] at hvalid
    have hid : ModelData.connectionID r.data ≠ "" := ne_empty_of_validRef hvalid.1.1.1.1.1.1.1.1.1
    simp only [checkModelConnection, bind_ok, require_ok, bne_iff_ne]
    refine ⟨(), hid, ?_⟩
    rw [show (ModelData.runtime r.data id r.version).connectionID =
      ModelData.connectionID r.data from rfl, hlookup]
    rfl
  simp only [snapshotOf, bind_ok, pure_ok]
  exact ⟨_, hrows, (), hmodels, rfl⟩

/-! ### The rules of the catalog, kind by kind -/

theorem connection_compiles (h : s.Accepted platform tenant) {c : Connection}
    (hc : (s.runtimeConnections tenant).lookup id = some c) : c.Compiles platform id := by
  obtain ⟨r, hr, rfl⟩ := runtimeConnections_lookup.1 hc
  obtain ⟨hid, hvalid⟩ := h.resources .connections id r.data rfl
    (Option.map_eq_some_iff.2 ⟨r, hr, rfl⟩)
  exact ⟨ne_empty_of_validRef hid, rfl, profile_of_valid hvalid⟩

/-- The models of the snapshot: those whose connection is usable. -/
theorem runtimeView_models {m : Model} :
    (s.runtimeView tenant).models.lookup id = some m ↔
      (s.runtimeModels tenant).lookup id = some m ∧
        usable (s.runtimeConnections tenant) m.connectionID = true := by
  show (Table.deleteWhere _ _).lookup id = some m ↔ _
  rw [lookup_deleteWhere_iff]
  simp

theorem model_compiles (h : s.Accepted platform tenant) {m : Model}
    (hm : (s.runtimeView tenant).models.lookup id = some m) :
    m.Compiles (s.runtimeView tenant) id := by
  obtain ⟨hlookup, husable⟩ := runtimeView_models.1 hm
  obtain ⟨r, hr, -, rfl⟩ := runtimeModels_lookup.1 hlookup
  obtain ⟨hid, hvalid⟩ := h.resources .models id r.data rfl (Option.map_eq_some_iff.2 ⟨r, hr, rfl⟩)
  have hmodel := validModel_of_valid hvalid
  have hrefs := hmodel
  simp only [validModel, Bool.and_eq_true] at hrefs
  refine ⟨ne_empty_of_validRef hid, rfl, ?_, ?_, ?_, sound_of_valid hmodel id r.version⟩
  · exact ne_empty_of_validRef hrefs.1.1.1.1.1.1.1.1.2
  · exact ne_empty_of_validRef hrefs.1.1.1.1.1.1.1.1.1
  · rw [usable, Option.any_eq_true] at husable
    obtain ⟨c, hc, hdis⟩ := husable
    exact ⟨c, hc, by simpa using hdis⟩

theorem target_compiles {m : Model} (hm : (s.runtimeModels tenant).lookup t.modelID = some m)
    (hmc : m.connectionID = t.connectionID) (hx : s.connection tenant t.connectionID = some x)
    (husable : usable (s.runtimeConnections tenant) t.connectionID = true) (hp : 0 ≤ t.priority)
    (hw : 0 < t.weight) (hr : t.region = "" ∨ x.region = "" ∨ t.region = x.region) :
    t.Compiles (s.runtimeView tenant) := by
  obtain ⟨version, hlookup, hconn⟩ := connectionOf_stored hx
  refine ⟨⟨m, runtimeView_models.2 ⟨hm, hmc ▸ husable⟩, hmc⟩, ?_, hp, hw, ?_⟩
  · rw [hconn]
    rw [usable, hlookup] at husable
    simpa using husable
  · rw [hconn]
    exact hr

/-- A target that the catalog gets to see: its connection is not disabled by
its settings. -/
def RouteTarget.live (s : Store) (tenant : String) (t : RouteTarget) : Bool :=
  (s.connection tenant t.connectionID).any fun c => c.setting "disabled" != "true"

theorem survives_eq_live (h : TargetAccepted s tenant r pool t m c) :
    survives (s.runtimeConnections tenant) (s.runtimeModels tenant) t = t.live s tenant := by
  obtain ⟨version, hlookup⟩ := runtimeModels_of_stored h.model h.modelEnabled
  obtain ⟨version', hconnection⟩ := runtimeConnections_of_stored h.connection
  rw [survives, hlookup, usable, hconnection, RouteTarget.live, h.connection]
  simp [disabled_runtime, h.connectionEnabled, bne, ModelData.runtime, h.modelConnection]

/-- The targets of an accepted route that the catalog gets to see. -/
def RoutePolicyData.liveTargets (r : RoutePolicyData) (s : Store) (tenant : String) :
    List RouteTarget :=
  r.targets.filter fun t => t.live s tenant

section

variable (h : GraphAccepted s tenant)
include h

theorem survivors_eq (hr : s.datum tenant .routePolicies id = some r) :
    r.targets.filter (survives (s.runtimeConnections tenant) (s.runtimeModels tenant)) =
      r.liveTargets s tenant := by
  obtain ⟨-, pool, -, htargets⟩ := h.routes id r hr
  refine filter_congr fun t ht => ?_
  obtain ⟨m, c, htarget⟩ := htargets t ht
  exact survives_eq_live htarget

/-! ### Aliases and routes of the snapshot -/

theorem mem_activeRoutes {e : String × RoutePolicyData} :
    e ∈ s.activeRoutes tenant ↔ s.datum tenant .routePolicies e.1 = some e.2 := by
  rw [Store.activeRoutes, mem_filter]
  constructor
  · rintro ⟨hmem, -⟩
    exact mem_dataOf.1 hmem
  · intro hr
    obtain ⟨⟨a, ha, hen⟩, -⟩ := h.routes e.1 e.2 hr
    refine ⟨mem_dataOf.2 hr, any_eq_true.2 ⟨(e.2.alias, a), ?_, by simp⟩⟩
    exact mem_filter.2 ⟨mem_dataOf.2 ha, hen⟩

theorem activeRoutes_nodup : ((s.activeRoutes tenant).map fun e => e.2.alias).Nodup := by
  have hnodup : (s.activeRoutes tenant).Nodup :=
    (List.Nodup.of_map _ (dataOf_nodup s tenant .routePolicies)).filter _
  refine hnodup.map_on ?_
  rintro ⟨id, r⟩ hmem ⟨id', r'⟩ hmem' halias
  have hr := (mem_activeRoutes h).1 hmem
  have hr' := (mem_activeRoutes h).1 hmem'
  obtain rfl := h.unique id id' r r' hr hr' halias
  cases hr.symm.trans hr'
  rfl

theorem routeTargets_nodup :
    ((s.routeTargets tenant (s.runtimeConnections tenant)).map Prod.fst).Nodup := by
  rw [Store.routeTargets, map_map]
  exact activeRoutes_nodup h

/-- The targets of the routes, alias by alias. -/
theorem mem_routeTargets :
    (name, targets) ∈ s.routeTargets tenant (s.runtimeConnections tenant) ↔
      ∃ id r, s.datum tenant .routePolicies id = some r ∧ RoutePolicyData.alias r = name ∧
        RoutePolicyData.liveTargets r s tenant = targets := by
  simp only [Store.routeTargets, mem_map, Prod.mk.injEq]
  constructor
  · rintro ⟨⟨id, r⟩, hmem, rfl, rfl⟩
    have hr := (mem_activeRoutes h).1 hmem
    exact ⟨id, r, hr, rfl, (survivors_eq h hr).symm⟩
  · rintro ⟨id, r, hr, rfl, rfl⟩
    exact ⟨(id, r), (mem_activeRoutes h).2 hr, rfl, survivors_eq h hr⟩

/-- An alias of the snapshot has the targets of its route, or its members. -/
theorem runtimeView_aliases (hlookup : (s.runtimeView tenant).aliases.lookup name = some targets) :
    (∃ id r, s.datum tenant .routePolicies id = some r ∧ RoutePolicyData.alias r = name ∧
        RoutePolicyData.liveTargets r s tenant = targets) ∨
      ∃ a, s.modelAlias tenant name = some a ∧ targets = a.modelIDs.filterMap
        (memberTarget (s.runtimeConnections tenant) (s.runtimeModels tenant)) := by
  rcases (lookup_insertAll_iff (routeTargets_nodup h)).1 hlookup with hroute | ⟨-, hmember⟩
  · exact .inl ((mem_routeTargets h).1 hroute)
  have hnodup : ((s.memberTargets tenant (s.runtimeConnections tenant)).map Prod.fst).Nodup := by
    refine List.Nodup.sublist (filter_sublist.map _) ?_
    rw [map_map]
    exact (dataOf_nodup s tenant .modelAliases).sublist (filter_sublist.map _)
  rcases (lookup_insertAll_iff hnodup).1 hmember with hmem | ⟨-, hnone⟩
  · obtain ⟨⟨id, a⟩, ha, heq⟩ := mem_map.1 (mem_of_mem_filter hmem)
    cases heq
    exact .inr ⟨a, mem_dataOf.1 (mem_of_mem_filter ha), rfl⟩
  · cases hnone

theorem runtimeView_aliases_of_route (hr : s.datum tenant .routePolicies id = some r) :
    (s.runtimeView tenant).aliases.lookup r.alias = some (r.liveTargets s tenant) :=
  (lookup_insertAll_iff (routeTargets_nodup h)).2
    (.inl ((mem_routeTargets h).2 ⟨id, r, hr, rfl, rfl⟩))

theorem runtimeView_routePolicies {policy : RoutePolicy} :
    (s.runtimeView tenant).routePolicies.lookup name = some policy ↔
      ∃ id r, s.datum tenant .routePolicies id = some r ∧ RoutePolicyData.alias r = name ∧
        policy = RoutePolicyData.runtime r := by
  have hnodup : (((s.activeRoutes tenant).map fun e => (e.2.alias, e.2.runtime)).map
      Prod.fst).Nodup := by
    rw [map_map]
    exact activeRoutes_nodup h
  refine (lookup_insertAll_iff hnodup).trans ?_
  simp only [mem_map, Prod.mk.injEq, AList.lookup_empty, reduceCtorEq, and_false, or_false]
  constructor
  · rintro ⟨⟨id, r⟩, hroute, rfl, rfl⟩
    exact ⟨id, r, (mem_activeRoutes h).1 hroute, rfl, rfl⟩
  · rintro ⟨id, r, hr, rfl, rfl⟩
    exact ⟨(id, r), (mem_activeRoutes h).2 hr, rfl, rfl⟩

end

/-- The members of an alias compile, and none appears twice. -/
theorem members_compile (h : s.Accepted platform tenant) {a : AliasData}
    (ha : s.modelAlias tenant name = some a) :
    AliasCompiles (s.runtimeView tenant) name (a.modelIDs.filterMap
      (memberTarget (s.runtimeConnections tenant) (s.runtimeModels tenant))) := by
  have hmember : ∀ {mid t},
      memberTarget (s.runtimeConnections tenant) (s.runtimeModels tenant) mid = some t →
      ∃ m, (s.runtimeModels tenant).lookup mid = some m ∧
        usable (s.runtimeConnections tenant) m.connectionID = true ∧
        t = { connectionID := m.connectionID, modelID := mid, priority := 0, weight := 1 } := by
    intro mid t ht
    unfold memberTarget at ht
    rcases hm : (s.runtimeModels tenant).lookup mid with - | m
    · rw [hm] at ht
      cases ht
    · simp only [hm, Option.ite_none_right_eq_some, Option.some.injEq] at ht
      exact ⟨m, rfl, ht.1, ht.2.symm⟩
  obtain ⟨hid, hvalid⟩ := h.resources .modelAliases name a rfl ha
  refine ⟨ne_empty_of_validRef hid, ?_, ?_⟩
  · intro t ht
    obtain ⟨mid, -, hsome⟩ := mem_filterMap.1 ht
    obtain ⟨m, hm, husable, rfl⟩ := hmember hsome
    obtain ⟨r, hr, -, rfl⟩ := runtimeModels_lookup.1 hm
    obtain ⟨c, hc, -⟩ := h.graph.models mid r.data (Option.map_eq_some_iff.2 ⟨r, hr, rfl⟩)
    exact target_compiles hm rfl hc husable (le_refl _) Int.one_pos (.inl rfl)
  · -- the members are different models
    have hmodels : (AliasData.modelIDs a).Nodup := by
      have hx := hvalid invalidConfiguration
      simp only [validateData, require_ok] at hx
      exact (validNames_spec hx).2
    rw [map_filterMap]
    refine hmodels.filterMap ?_
    intro mid mid' pair hp hp'
    obtain ⟨t, ht, rfl⟩ := Option.map_eq_some_iff.1 hp
    obtain ⟨t', ht', heq⟩ := Option.map_eq_some_iff.1 hp'
    obtain ⟨m, -, -, rfl⟩ := hmember ht
    obtain ⟨m', -, -, rfl⟩ := hmember ht'
    exact (Prod.mk.inj heq).2.symm

/-- The targets of an accepted route compile if none is repeated. -/
theorem route_compiles (h : s.Accepted platform tenant)
    (hr : s.datum tenant .routePolicies id = some r)
    (hnodup : ((r.liveTargets s tenant).map RouteTarget.pair).Nodup) :
    AliasCompiles (s.runtimeView tenant) r.alias (r.liveTargets s tenant) := by
  obtain ⟨⟨a, ha, -⟩, pool, -, htargets⟩ := h.graph.routes id r hr
  obtain ⟨hid, -⟩ := h.resources .modelAliases r.alias a rfl ha
  refine ⟨ne_empty_of_validRef hid, ?_, hnodup⟩
  intro t ht
  obtain ⟨hmem, hlive⟩ := mem_filter.1 ht
  obtain ⟨m, c, htarget⟩ := htargets t hmem
  obtain ⟨version, hm⟩ := runtimeModels_of_stored htarget.model htarget.modelEnabled
  have hsurvives := survives_eq_live htarget
  rw [hlive, survives, Bool.and_eq_true] at hsurvives
  exact target_compiles hm htarget.modelConnection htarget.connection hsurvives.2
    htarget.priority htarget.weight htarget.region

/-- The pool that a target was accepted for holds it. -/
theorem poolHolds_accepted {pool : AccountData} (h : TargetAccepted s tenant r (some pool) t m c) :
    poolHolds (s.runtimeView tenant).connections pool.runtime t = true := by
  obtain ⟨version, -, hconn⟩ := connectionOf_stored h.connection
  obtain ⟨hprovider, haccount⟩ := h.pool pool rfl
  simp only [poolHolds, hconn, setting_runtime h.connectionEnabled, Bool.and_eq_true,
    Bool.or_eq_true, beq_iff_eq, contains_iff_mem]
  refine ⟨?_, haccount⟩
  rw [← show pool.provider = pool.runtime.provider from rfl, hprovider]
  unfold ConnectionData.provider
  split
  · exact .inr rfl
  · exact .inl rfl

/-- The region of an accepted target is one the route admits. -/
theorem regionOf_accepted (h : TargetAccepted s tenant r pool t m c)
    (hnamed : ∀ region ∈ r.residency, region ≠ "") :
    r.residency = [] ∨ regionOf (s.runtimeView tenant).connections t ∈ r.residency := by
  obtain ⟨version, -, hconn⟩ := connectionOf_stored h.connection
  rcases h.residency with hnone | hin
  · exact .inl hnone
  right
  rw [regionOf, hconn]
  split
  next => exact hin
  next hregion =>
    -- the region of the connection is named, so the target's must be the same
    rcases h.region with hempty | hempty | hsame
    · exact absurd hempty hregion
    · exact absurd hempty (hnamed _ hin)
    · rw [hsame]
      exact hin

theorem policy_compiles (h : s.Accepted platform tenant)
    (hr : s.datum tenant .routePolicies id = some r) :
    r.runtime.Compiles (s.runtimeView tenant) (r.liveTargets s tenant) := by
  have hnamed := residency_of_valid (h.resources .routePolicies id r rfl hr).2
  obtain ⟨-, pool, hpool, htargets⟩ := h.graph.routes id r hr
  refine ⟨hnamed, ?_, ?_⟩
  · rcases hpool with ⟨hid, -⟩ | ⟨-, hp, hne⟩
    · exact .inl hid
    · obtain ⟨p, rfl⟩ := Option.ne_none_iff_exists'.1 hne
      refine .inr ⟨p.runtime, accountPools_lookup.2 ⟨p, hp, rfl⟩, ?_⟩
      intro t ht
      obtain ⟨m, c, htarget⟩ := htargets t (mem_of_mem_filter ht)
      exact poolHolds_accepted htarget
  · intro t ht
    obtain ⟨m, c, htarget⟩ := htargets t (mem_of_mem_filter ht)
    exact regionOf_accepted htarget hnamed

theorem pool_compiles (h : s.Accepted platform tenant) {x : AccountData}
    (hx : s.accountPool tenant id = some x) (hne : x.accountIDs ≠ []) :
    x.runtime.Compiles id := by
  obtain ⟨hid, hvalid⟩ := h.resources .accountPools id x rfl hx
  have hpool := hvalid invalidConfiguration
  simp only [validateData, require_ok, validAccountPool, Bool.and_eq_true] at hpool
  obtain ⟨hnamed, hnodup⟩ := validNames_spec hpool.2
  exact ⟨ne_empty_of_validRef hid, ne_empty_of_validRef hpool.1, hne, hnamed, hnodup⟩

/-! ### Accepted configurations compile -/

/-- What the catalog asks of an accepted configuration: of the targets of a
route whose connections are not disabled by their settings none is repeated,
and every account pool has accounts. -/
structure Store.Compilable (s : Store) (tenant : String) : Prop where
  routes : ∀ id r, s.datum tenant .routePolicies id = some r →
    ((RoutePolicyData.liveTargets r s tenant).map RouteTarget.pair).Nodup
  pools : ∀ id x, s.accountPool tenant id = some x → x.accountIDs ≠ []

theorem runtimeView_compiles_iff (h : s.Accepted platform tenant) (hrev : 0 ≤ s.revision) :
    (s.runtimeView tenant).Compiles platform ↔ s.Compilable tenant := by
  constructor
  · intro hc
    constructor
    · intro id r hr
      exact (hc.aliases _ _ (runtimeView_aliases_of_route h.graph hr)).nodup
    · intro id x hx
      exact (hc.accountPools id x.runtime (accountPools_lookup.2 ⟨x, hx, rfl⟩)).nonempty
  · intro hc
    refine ⟨hrev, fun id c => connection_compiles h, fun id m => model_compiles h, ?_, ?_, ?_⟩
    · intro name targets hlookup
      rcases runtimeView_aliases h.graph hlookup with ⟨id, r, hr, rfl, rfl⟩ | ⟨a, ha, rfl⟩
      · exact route_compiles h hr (hc.routes id r hr)
      · exact members_compile h ha
    · intro id pool hlookup
      obtain ⟨x, hx, rfl⟩ := accountPools_lookup.1 hlookup
      exact pool_compiles h hx (hc.pools id x hx)
    · intro name policy hlookup
      obtain ⟨id, r, hr, rfl, rfl⟩ := (runtimeView_routePolicies h.graph).1 hlookup
      exact ⟨_, runtimeView_aliases_of_route h.graph hr, policy_compiles h hr⟩

/-- The runtime of a principal's tenant can be started: its snapshot can be
read and compiles. -/
def RuntimeReady (platform : Platform) (quote : String → String) (s : Store) (p : Principal)
    (resolve : Bool) : Prop :=
  ∃ out c, snapshot platform s p resolve = .ok out ∧ compile platform quote out = .ok c

theorem runtimeReady_iff {quote : String → String} {p q : Principal} {resolve : Bool}
    (hs : ∀ t, s.Accepted platform t) (hrev : 0 ≤ s.revision)
    (hq : snapshotPrincipal s p resolve = .ok q) :
    RuntimeReady platform quote s p resolve ↔ s.Compilable q.tenantID := by
  have hsnapshot : snapshot platform s p resolve = .ok (s.runtimeView q.tenantID) := by
    simp only [snapshot, bind_ok]
    exact ⟨q, hq, snapshotOf_accepted (hs q.tenantID)⟩
  rw [RuntimeReady, ← runtimeView_compiles_iff (hs q.tenantID) hrev,
    ← (yields_compile platform quote (s.runtimeView q.tenantID)).1, hsnapshot]
  constructor
  · rintro ⟨out, c, hout, hc⟩
    cases hout
    exact ⟨c, hc⟩
  · rintro ⟨c, hc⟩
    exact ⟨_, c, rfl, hc⟩

/-- A resource the catalog takes: a route without repeated targets, a pool
with accounts, any other resource. -/
def ConfigItem.neat : ConfigItem → Bool
  | ⟨.routePolicies, _, r⟩ => decide ((RoutePolicyData.targets r).map RouteTarget.pair).Nodup
  | ⟨.accountPools, _, x⟩ => !(AccountData.accountIDs x).isEmpty
  | ⟨.connections, _, _⟩ | ⟨.models, _, _⟩ | ⟨.modelAliases, _, _⟩ | ⟨.policyLimits, _, _⟩
  | ⟨.prices, _, _⟩ | ⟨.apiKeys, _, _⟩ => true

/-- An operation that submits only such resources. -/
def ConfigOp.neat (platform : Platform) (op : ConfigOp) : Bool :=
  (op.submitted platform).all ConfigItem.neat

/-- Only such resources are stored. -/
def Store.Neat (s : Store) : Prop :=
  ∀ t kind id x, ResourceKind.configured kind = true → s.datum t kind id = some x →
    (⟨kind, id, x⟩ : ConfigItem).neat = true

theorem Store.Neat.step {op : ConfigOp} (hs : s.Neat) (hop : op.neat platform = true) :
    (op.step platform s).Neat := by
  intro t kind id x hkind hx
  rcases (step_reconfigured platform op s).origin t kind id x hkind hx with hold | hnew
  · exact hs t kind id x hkind hold
  · exact all_eq_true.1 hop _ hnew

theorem Store.Neat.compilable (hs : s.Neat) : s.Compilable tenant := by
  constructor
  · intro id r hr
    have hneat := hs tenant .routePolicies id r rfl hr
    have hnodup : (r.targets.map RouteTarget.pair).Nodup := of_decide_eq_true hneat
    exact hnodup.sublist (filter_sublist.map _)
  · intro id x hx hempty
    have hneat := hs tenant .accountPools id x rfl hx
    simp [ConfigItem.neat, hempty] at hneat

/-- **Accepted configurations and the catalog**: after every run of
configuration changes, the runtime of a tenant can be started exactly if no
route repeats a live target and no account pool is empty; so in a run that
submits no repeated target and no empty pool it can be started after every
step. -/
theorem configured_runtime_ready (platform : Platform) (quote : String → String)
    (ops : List ConfigOp) :
    (∀ p resolve q, snapshotPrincipal (configuredBy platform ops) p resolve = .ok q →
      (RuntimeReady platform quote (configuredBy platform ops) p resolve ↔
        (configuredBy platform ops).Compilable q.tenantID)) ∧
    (Along (ConfigOp.step platform) (fun _ op => op.neat platform = true) {} ops →
      ∀ n p resolve q, snapshotPrincipal (configuredBy platform (ops.take n)) p resolve = .ok q →
        RuntimeReady platform quote (configuredBy platform (ops.take n)) p resolve) := by
  have hready : ∀ ops p resolve q, snapshotPrincipal (configuredBy platform ops) p resolve = .ok q →
      (RuntimeReady platform quote (configuredBy platform ops) p resolve ↔
        (configuredBy platform ops).Compilable q.tenantID) := by
    intro ops p resolve q hq
    obtain ⟨hs, hrev⟩ := configuredBy_accepted platform ops
    exact runtimeReady_iff hs hrev hq
  refine ⟨hready ops, ?_⟩
  intro hneat n p resolve q hq
  have hstored : (configuredBy platform (ops.take n)).Neat := by
    refine run_inv ?_ ?_ (hneat.take n)
    · intro t op ht hop
      exact ht.step hop
    · intro t kind id x _ hx
      cases hx
  exact (hready _ p resolve q hq).2 hstored.compilable

/-- The quoting of names without special characters. -/
def plainQuote (name : String) : String := "\"" ++ name ++ "\""

def sampleConnection : ConnectionData :=
  { connector := "openai", accountID := "acct", enabled := true }

def sampleModel : ModelData :=
  { connectionID := "c", upstreamID := "up", operations := ["generate"], enabled := true }

/-- A connection, a model on it and an alias of the model. -/
def aliasedModel : List ConfigOp :=
  [.background ownedTenant, ownerPut .connections "c" 0 sampleConnection,
   ownerPut .models "m" 0 sampleModel,
   ownerPut .modelAliases "a" 0 ({ modelIDs := ["m"], enabled := true } : AliasData)]

/-- The target of the alias. -/
def sampleTarget : RouteTarget :=
  { connectionID := "c", modelID := "m", priority := 0, weight := 1 }

/-- A route of the alias to these many copies of its target. -/
def routeTo (copies : ℕ) : RoutePolicyData :=
  { «alias» := "a", targets := List.replicate copies sampleTarget }

def emptyPool : AccountData := { provider := "openai" }

theorem single_target_ready :
    (configuredBy samplePlatform (aliasedModel ++ [ownerPut .routePolicies "r" 0 (routeTo 1)])).datum
        "t" .routePolicies "r" = some (routeTo 1) ∧
      RuntimeReady samplePlatform plainQuote
        (configuredBy samplePlatform (aliasedModel ++ [ownerPut .routePolicies "r" 0 (routeTo 1)]))
        ownerPrincipal false := by
  exact ⟨rfl, (configured_runtime_ready samplePlatform plainQuote
    (aliasedModel ++ [ownerPut .routePolicies "r" 0 (routeTo 1)])).2
    ⟨rfl, rfl, rfl, rfl, rfl, trivial⟩ 5 ownerPrincipal false ownerPrincipal rfl⟩

/-- A route that repeats its target, and a pool without accounts, are accepted;
the snapshot is read, and does not compile. -/
theorem accepted_not_compiled :
    (∃ out, (configuredBy samplePlatform
          (aliasedModel ++ [ownerPut .routePolicies "r" 0 (routeTo 2)])).datum
            "t" .routePolicies "r" = some (routeTo 2) ∧
        snapshot samplePlatform (configuredBy samplePlatform
          (aliasedModel ++ [ownerPut .routePolicies "r" 0 (routeTo 2)])) ownerPrincipal false =
            .ok out ∧
        compile samplePlatform plainQuote out =
          .error (.plain "alias \"a\" has duplicate target")) ∧
    (∃ out, (configuredBy samplePlatform
          (aliasedModel ++ [ownerPut .accountPools "p" 0 emptyPool])).datum
            "t" .accountPools "p" = some emptyPool ∧
        snapshot samplePlatform (configuredBy samplePlatform
          (aliasedModel ++ [ownerPut .accountPools "p" 0 emptyPool])) ownerPrincipal false =
            .ok out ∧
        compile samplePlatform plainQuote out =
          .error (.plain "account pool \"p\" has no accounts")) :=
  ⟨⟨_, rfl, rfl, rfl⟩, ⟨_, rfl, rfl, rfl⟩⟩

end Hoorific
