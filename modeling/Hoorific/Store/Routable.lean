/-
Accepted routes and the router.  Three components decide whether the
connection of a target belongs to an account pool, each with its own notion
of the provider of a connection:

* validation takes the setting "provider", and the connector without one;
* the catalog takes either of the two;
* the router takes the connector only.

So the first two agree on what was accepted, and the router drops a target
whose connection names another provider than its connector.
-/
import Hoorific.Routing
import Hoorific.Store.Compiles

namespace Hoorific

variable {platform : Platform} {s : Store} {tenant : String}

/-- The provider of a connection is its connector, unless it names another. -/
theorem provider_eq_connector_iff (c : ConnectionData) :
    c.provider = c.connector ↔ c.setting "provider" = "" ∨ c.setting "provider" = c.connector := by
  unfold ConnectionData.provider
  by_cases h : c.setting "provider" = "" <;> simp [h]

/-! ### Accepted targets at the router -/

section Target

variable {r : RoutePolicyData} {t : RouteTarget} {m : ModelData} {c : ConnectionData}

/-- The pool a target was accepted for admits it at the router if the provider
of its connection is the connector. -/
theorem poolAdmits_accepted {pool : AccountData} (h : TargetAccepted s tenant r (some pool) t m c)
    (hid : r.accountPoolID ≠ "") (hpool : s.accountPool tenant r.accountPoolID = some pool)
    (version : ℤ) :
    poolAdmits (s.runtimeView tenant) r.runtime (c.runtime tenant t.connectionID version) = true ↔
      c.provider = c.connector := by
  obtain ⟨hprovider, haccount⟩ := h.pool pool rfl
  have hlookup : (s.runtimeView tenant).accountPools.lookup r.runtime.accountPoolID =
      some pool.runtime := accountPools_lookup.2 ⟨pool, hpool, rfl⟩
  have hne : r.runtime.accountPoolID ≠ "" := hid
  rw [← hprovider]
  simp [poolAdmits, hlookup, hne, AccountData.runtime, ConnectionData.runtime, haccount]

/-- A live target of a route that compiles is admitted for every request that
its model supports, if the pool rule of the router admits it. -/
theorem admits_accepted {pool : Option AccountData} {req : Requirements} {version : ℤ}
    (h : TargetAccepted s tenant r pool t m c) (hlive : t.live s tenant = true)
    (hresidency : r.residency = [] ∨ regionOf (s.runtimeView tenant).connections t ∈ r.residency)
    (hregion : req.region = "") (hsupports : supports (m.runtime t.modelID version) req = true) :
    ∃ v, admits (s.runtimeView tenant) r.runtime req t =
      poolAdmits (s.runtimeView tenant) r.runtime (c.runtime tenant t.connectionID v) := by
  obtain ⟨v, hc⟩ := runtimeConnections_of_stored h.connection
  obtain ⟨w, hm⟩ := runtimeModels_of_stored h.model h.modelEnabled
  have husable : usable (s.runtimeConnections tenant) t.connectionID = true := by
    have hsurvives := survives_eq_live h
    rw [hlive, survives, Bool.and_eq_true] at hsurvives
    exact hsurvives.2
  have hsame : (m.runtime t.modelID w).connectionID = t.connectionID := h.modelConnection
  have hmodel : (s.runtimeView tenant).models.lookup t.modelID = some (m.runtime t.modelID w) :=
    runtimeView_models.2 ⟨hm, hsame.symm ▸ husable⟩
  have hconn : (s.runtimeView tenant).connections.lookup t.connectionID =
      some (c.runtime tenant t.connectionID v) := hc
  have henabled : (c.runtime tenant t.connectionID v).disabled = false := by
    rw [usable, hc] at husable
    simpa using husable
  -- the version of a model is not among what a request asks for
  have hsupported : supports (m.runtime t.modelID w) req = true := hsupports
  have hin : r.runtime.residency = [] ∨
      (if t.region = "" then (c.runtime tenant t.connectionID v).region else t.region) ∈
        r.runtime.residency := by
    rw [regionOf, connectionOf, hconn] at hresidency
    exact hresidency
  have hregions : (t.region == "" || (c.runtime tenant t.connectionID v).region == "" ||
      t.region == (c.runtime tenant t.connectionID v).region) = true := by
    simpa [ConnectionData.runtime, or_assoc] using h.region
  refine ⟨v, ?_⟩
  simp only [admits, hmodel, hconn, henabled, hsame, hsupported, hregions, hregion, Bool.not_false,
    beq_self_eq_true, Bool.true_or, Bool.and_true, Bool.true_and]
  rw [Bool.and_eq_right_iff_imp]
  intro _
  simpa using hin

end Target

/-! ### The eligible targets of an accepted route -/

/-- **Routes to a pool at the router**: of a configuration that was accepted
and compiles, a target of a route to an account pool is eligible for a request
its model supports exactly if its connection is not disabled in its settings
and names no other provider than its connector. -/
theorem pooled_target_eligible_iff (platform : Platform) (mapOrder : MapOrder)
    (quote : String → String) (s : Store) (p : Principal) (resolve : Bool) {out : RuntimeSnapshot}
    {compiled : Catalog} (hvalid : validateTenantTx platform mapOrder s p.tenantID = .ok ())
    (hsnapshot : snapshot platform s p resolve = .ok out)
    (hcompile : compile platform quote out = .ok compiled)
    (id : String) {r : RoutePolicyData} (hr : s.datum p.tenantID .routePolicies id = some r)
    (hpool : r.accountPoolID ≠ "") (t : RouteTarget) (ht : t ∈ r.targets)
    {m : ModelData} (hm : s.model p.tenantID t.modelID = some m)
    {c : ConnectionData} (hc : s.connection p.tenantID t.connectionID = some c)
    (req : Requirements) (hregion : req.region = "") (version : ℤ)
    (hsupports : supports (m.runtime t.modelID version) req = true) :
    ∃ eligible, eligibleTargets out r.alias req none = .ok eligible ∧
      (t ∈ eligible ↔ c.setting "disabled" ≠ "true" ∧
        (c.setting "provider" = "" ∨ c.setting "provider" = c.connector)) := by
  have hgraph := validateTenantTx_accepts hvalid
  obtain rfl : out = s.runtimeView p.tenantID := by
    simp only [snapshot, Check.bind_ok] at hsnapshot
    obtain ⟨q, hq, hread⟩ := hsnapshot
    rw [← snapshotPrincipal_tenantID hq]
    exact snapshotOf_eq hread
  have hcompiles : (s.runtimeView p.tenantID).Compiles platform :=
    (yields_compile platform quote _).1.1 ⟨compiled, hcompile⟩
  have halias := runtimeView_aliases_of_route hgraph hr
  have hlookup := (runtimeView_routePolicies hgraph).2 ⟨id, r, hr, rfl, rfl⟩
  have hpolicy : (s.runtimeView p.tenantID).policyOf r.alias = r.runtime := by
    rw [RuntimeSnapshot.policyOf, hlookup]
    rfl
  -- what the catalog has checked of the targets of the alias
  have hweights := fun x hx =>
    let hx := (hcompiles.aliases _ _ halias).each x hx
    And.intro hx.priority hx.weight
  obtain ⟨targets, htargets, hroute⟩ := hcompiles.routePolicies _ _ hlookup
  cases halias.symm.trans htargets
  refine ⟨_, eligibleTargets_eq_filter halias hweights req, ?_⟩
  -- what validation has checked of the target
  obtain ⟨-, pool, hpools, haccepted⟩ := hgraph.routes id r hr
  obtain ⟨m', c', htarget⟩ := haccepted t ht
  cases htarget.model.symm.trans hm
  obtain rfl := Option.some.inj (htarget.connection.symm.trans hc)
  rw [hpolicy, List.mem_filter, RoutePolicyData.liveTargets, List.mem_filter,
    ← provider_eq_connector_iff]
  have hlive : t.live s p.tenantID = true ↔ c'.setting "disabled" ≠ "true" := by
    simp [RouteTarget.live, hc]
  rcases hpools with ⟨hnone, -⟩ | ⟨-, hstored, hne⟩
  · exact absurd hnone hpool
  obtain ⟨x, rfl⟩ := Option.ne_none_iff_exists'.1 hne
  rw [← hlive, and_iff_right ht]
  refine and_congr_right fun hl => ?_
  have hresidency := hroute.residency t (List.mem_filter.2 ⟨ht, hl⟩)
  obtain ⟨v, hadmits⟩ := admits_accepted htarget hl hresidency hregion hsupports
  rw [hadmits]
  exact poolAdmits_accepted htarget hpool hstored v

/-- A connection that names this provider, with a pool for it and a route of its
alias to the pool. -/
def pooledRoute (provider : String) : List ConfigOp :=
  [.background ownedTenant,
   ownerPut .connections "c" 0 { sampleConnection with settings := [("provider", provider)] },
   ownerPut .models "m" 0 sampleModel,
   ownerPut .modelAliases "a" 0 ({ modelIDs := ["m"], enabled := true } : AliasData),
   ownerPut .accountPools "p" 0 ({ provider := provider, accountIDs := ["acct"] } : AccountData),
   ownerPut .routePolicies "r" 0 { routeTo 1 with accountPoolID := "p" }]

/-- A request for text. -/
def generateRequest : Requirements := { operation := "generate" }

/-- The tenant is accepted with the pool of its own connector, and its target is
eligible. -/
theorem own_provider_eligible :
    validateTenantTx samplePlatform tableOrder
        (configuredBy samplePlatform (pooledRoute "openai")) "t" = .ok () ∧
      ∃ out eligible, snapshot samplePlatform (configuredBy samplePlatform (pooledRoute "openai"))
          ownerPrincipal false = .ok out ∧
        eligibleTargets out "a" generateRequest none = .ok eligible ∧ sampleTarget ∈ eligible := by
  obtain ⟨eligible, hok, hiff⟩ := pooled_target_eligible_iff samplePlatform tableOrder plainQuote
    (configuredBy samplePlatform (pooledRoute "openai")) ownerPrincipal false rfl rfl rfl
    "r" rfl (by decide) sampleTarget (List.mem_singleton.2 rfl) rfl rfl generateRequest rfl 1 rfl
  exact ⟨rfl, _, eligible, rfl, hok, hiff.2 ⟨by decide, .inr rfl⟩⟩

/-- A route to the pool of the provider that the connection names is accepted
and compiles, its model supports the request, and the router has no target. -/
theorem named_provider_dropped :
    validateTenantTx samplePlatform tableOrder
        (configuredBy samplePlatform (pooledRoute "azure")) "t" = .ok () ∧
      ∃ out compiled m, snapshot samplePlatform (configuredBy samplePlatform (pooledRoute "azure"))
          ownerPrincipal false = .ok out ∧
        compile samplePlatform plainQuote out = .ok compiled ∧
        out.aliases.lookup "a" = some [sampleTarget] ∧
        out.models.lookup "m" = some m ∧ supports m generateRequest = true ∧
        order none out plainQuote "a" generateRequest none (fun _ => .ok 0) =
          .error "no healthy compatible target for alias \"a\"" :=
  ⟨rfl, _, _, _, rfl, rfl, rfl, rfl, rfl, rfl⟩

end Hoorific
