/-
What holds of every configuration that was accepted.  A change is stored
only if the resource it writes meets the rules of its kind
(`validateResource`) and the graph of the tenant then meets the rules of
the whole (`validateTenantTx`).  Here this becomes an invariant of runs:
in every reachable store the resources of every tenant are valid one by
one, and their graph is (`configuredBy_accepted`).

The invariant is about the data of configured resources only, so a step
that leaves those alone keeps it (`Store.Accepted.congr`).
-/
import Hoorific.Store.Configure

namespace Hoorific

open Check

/-! ### The graph of an accepted configuration -/

/-- A target that was accepted for a route: its model and its connection exist
and belong together, both are enabled, and region, residency and pool agree. -/
structure TargetAccepted (s : Store) (tenant : String) (r : RoutePolicyData)
    (pool : Option AccountData) (t : RouteTarget) (m : ModelData) (c : ConnectionData) : Prop where
  model : s.model tenant t.modelID = some m
  connection : s.connection tenant t.connectionID = some c
  modelEnabled : m.enabled = true
  modelConnection : m.connectionID = t.connectionID
  connectionEnabled : c.enabled = true
  weight : 0 < t.weight
  priority : 0 ≤ t.priority
  region : t.region = "" ∨ c.region = "" ∨ t.region = c.region
  residency : r.residency = [] ∨ c.region ∈ r.residency
  pool : ∀ p, pool = some p → p.provider = c.provider ∧ c.accountID ∈ p.accountIDs

/-- A route that was accepted: its alias is enabled, the pool it names exists
and its targets are accepted. -/
structure RouteAccepted (s : Store) (tenant : String) (r : RoutePolicyData) : Prop where
  «alias» : ∃ a, s.modelAlias tenant r.alias = some a ∧ a.enabled = true
  targets : ∃ pool, (r.accountPoolID = "" ∧ pool = none ∨
      r.accountPoolID ≠ "" ∧ s.accountPool tenant r.accountPoolID = pool ∧ pool ≠ none) ∧
    ∀ t ∈ r.targets, ∃ m c, TargetAccepted s tenant r pool t m c

/-- The graph of a tenant was accepted. -/
structure GraphAccepted (s : Store) (tenant : String) : Prop where
  models : ∀ id m, s.model tenant id = some m →
    ∃ c, s.connection tenant m.connectionID = some c ∧ (m.enabled = true → c.enabled = true)
  routes : ∀ id r, s.datum tenant .routePolicies id = some r → RouteAccepted s tenant r
  unique : ∀ id id' r r', s.datum tenant .routePolicies id = some r →
    s.datum tenant .routePolicies id' = some r' → RoutePolicyData.alias r = RoutePolicyData.alias r' →
    id = id'

variable {platform : Platform} {order : MapOrder} {s s' : Store} {tenant : String}

theorem checkModel_ok {m : ModelData} (h : Graph.checkModel s tenant m = .ok ()) :
    ∃ c, s.connection tenant m.connectionID = some c ∧ (m.enabled = true → c.enabled = true) := by
  unfold Graph.checkModel at h
  rcases hc : s.connection tenant m.connectionID with - | c <;> rw [hc] at h
  · cases h
  simp only [require_ok, Bool.or_eq_true, Bool.not_eq_true'] at h
  refine ⟨c, rfl, fun hm => ?_⟩
  rcases h with h | h
  · rw [hm] at h
    cases h
  · exact h

variable {r : RoutePolicyData} {pool : Option AccountData} {seen : List String} {t id : String}
  {kind : ResourceKind} {version : ℤ} {p : Principal} {u : Unit} {prune : Bool} {clock : String → ℤ}

theorem checkTarget_accepts {a : AliasData} {t : RouteTarget}
    (h : Graph.checkTarget platform s tenant a r pool t = .ok ()) :
    ∃ m c, TargetAccepted s tenant r pool t m c := by
  unfold Graph.checkTarget at h
  rcases hm : s.model tenant t.modelID with - | m
  · simp only [hm] at h
    cases h
  rcases hc : s.connection tenant t.connectionID with - | c
  · simp only [hm, hc] at h
    cases h
  simp only [hm, hc, bind_ok, require_ok, Bool.and_eq_true, Bool.or_eq_true,
    beq_iff_eq, decide_eq_true_eq, List.isEmpty_iff, List.contains_iff_mem, or_assoc] at h
  obtain ⟨-, ⟨hme, hmc⟩, -, ⟨⟨⟨hce, -⟩, hw⟩, hp⟩, -, hregion, -, hres, hpool⟩ := h
  refine ⟨m, c, hm, hc, hme, hmc, hce, hw, hp, hregion, hres, ?_⟩
  rintro p rfl
  simp only [bind_ok, require_ok, Bool.and_eq_true, beq_iff_eq, List.contains_iff_mem] at hpool
  obtain ⟨-, h, -⟩ := hpool
  exact h

theorem routePool_ok (h : Graph.routePool s tenant r = .ok pool) :
    r.accountPoolID = "" ∧ pool = none ∨
      r.accountPoolID ≠ "" ∧ s.accountPool tenant r.accountPoolID = pool ∧ pool ≠ none := by
  unfold Graph.routePool at h
  split at h
  next hid =>
    cases h
    exact .inl ⟨hid, rfl⟩
  next hid =>
    rcases hp : s.accountPool tenant r.accountPoolID with - | p <;> rw [hp] at h
    · cases h
    · cases h
      exact .inr ⟨hid, rfl, Option.some_ne_none p⟩

/-- An accepted route, and the aliases that have a route after it. -/
theorem checkRoute_accepts {seen' : List String} {e : String × RoutePolicyData}
    (h : Graph.checkRoute platform s tenant seen e = .ok seen') :
    RouteAccepted s tenant e.2 ∧ e.2.alias ∉ seen ∧ seen' = e.2.alias :: seen := by
  unfold Graph.checkRoute at h
  rcases ha : s.modelAlias tenant e.2.alias with - | a
  · simp only [ha] at h
    cases h
  simp only [ha, bind_ok, require_ok, forM_ok, pure_ok, Bool.not_eq_true',
    List.contains_eq_mem, decide_eq_false_iff_not] at h
  obtain ⟨-, hen, -, hnew, pool, hpool, -, -, -, htargets, rfl⟩ := h
  exact ⟨⟨⟨a, ha, hen⟩, pool, routePool_ok hpool, fun t ht => checkTarget_accepts (htargets t ht)⟩,
    hnew, rfl⟩

/-- The loop over the routes: every route is accepted, and no alias has two. -/
theorem checkRoutes_accept {l : List (String × RoutePolicyData)} {out : List String}
    (h : l.foldlM (Graph.checkRoute platform s tenant) seen = .ok out) :
    (∀ e ∈ l, RouteAccepted s tenant e.2) ∧ (l.map fun e => e.2.alias).Nodup ∧
      ∀ e ∈ l, e.2.alias ∉ seen := by
  induction l generalizing seen with
  | nil => simp
  | cons e l ih =>
    rw [List.foldlM_cons, bind_ok] at h
    obtain ⟨seen', he, hl⟩ := h
    obtain ⟨hroute, hnew, rfl⟩ := checkRoute_accepts he
    obtain ⟨hall, hnodup, hseen⟩ := ih hl
    refine ⟨List.forall_mem_cons.2 ⟨hroute, hall⟩, ?_, ?_⟩
    · rw [List.map_cons, List.nodup_cons, List.mem_map]
      refine ⟨?_, hnodup⟩
      rintro ⟨x, hx, hxe⟩
      exact hseen x hx (hxe ▸ List.mem_cons_self)
    · rw [List.forall_mem_cons]
      exact ⟨hnew, fun x hx hxs => hseen x hx (List.mem_cons_of_mem _ hxs)⟩

/-- **`validateTenantTx`** accepts the graph. -/
theorem validateTenantTx_accepts (h : validateTenantTx platform order s tenant = .ok ()) :
    GraphAccepted s tenant := by
  simp only [validateTenantTx, bind_ok, require_ok, forM_ok] at h
  obtain ⟨-, -, -, -, -, hmodels, -, -, -, -, seen, hroutes, -⟩ := h
  obtain ⟨hall, hnodup, -⟩ := checkRoutes_accept hroutes
  refine ⟨?_, ?_, ?_⟩
  · intro id m hm
    exact checkModel_ok (hmodels (id, m) (mem_dataOf.2 hm))
  · intro id r hr
    exact hall (id, r) (mem_dataOf.2 hr)
  · intro id id' r r' hr hr' halias
    have hsame : (id, r) = (id', r') :=
      List.inj_on_of_nodup_map hnodup (mem_dataOf.2 hr) (mem_dataOf.2 hr') halias
    exact congrArg Prod.fst hsame

/-- The graph is made of the data of the configured resources. -/
theorem GraphAccepted.congr (h : GraphAccepted s tenant)
    (hdata : ∀ kind id, ResourceKind.configured kind = true →
      s'.datum tenant kind id = s.datum tenant kind id) : GraphAccepted s' tenant := by
  have hmodel : ∀ id, s'.model tenant id = s.model tenant id := fun id => hdata .models id rfl
  have hconn : ∀ id, s'.connection tenant id = s.connection tenant id :=
    fun id => hdata .connections id rfl
  have halias : ∀ id, s'.modelAlias tenant id = s.modelAlias tenant id :=
    fun id => hdata .modelAliases id rfl
  have hpool : ∀ id, s'.accountPool tenant id = s.accountPool tenant id :=
    fun id => hdata .accountPools id rfl
  refine ⟨?_, ?_, ?_⟩
  · intro id m hm
    rw [hmodel] at hm
    rw [hconn]
    exact h.models id m hm
  · intro id r hr
    rw [hdata .routePolicies id rfl] at hr
    obtain ⟨ha, pool, hp, htargets⟩ := h.routes id r hr
    refine ⟨by rw [halias]; exact ha, pool, by rw [hpool]; exact hp, fun t ht => ?_⟩
    obtain ⟨m, c, htarget⟩ := htargets t ht
    refine ⟨m, c, { htarget with model := ?_, connection := ?_ }⟩
    · rw [hmodel]
      exact htarget.model
    · rw [hconn]
      exact htarget.connection
  · intro id id' r r' hr hr'
    rw [hdata .routePolicies id rfl] at hr
    rw [hdata .routePolicies id' rfl] at hr'
    exact h.unique id id' r r' hr hr'

/-! ### What a step does to the data -/

/-- The resources an operation writes if it is accepted. -/
def ConfigOp.submitted (platform : Platform) : ConfigOp → List ConfigItem
  | .mutate _ _ m _ =>
    if validRef m.id then
      match m.validated platform with
      | .ok (some data) => [⟨m.kind, m.id, data⟩]
      | _ => []
    else []
  | .apply _ _ _ (some c) _ _ => ((c.items platform).toOption).getD []
  | .apply _ _ _ none _ _ => []
  | .background _ => []

/-- What is submitted has a valid id and valid data. -/
theorem submitted_valid {op : ConfigOp} {it : ConfigItem} (h : it ∈ op.submitted platform) :
    validRef it.id = true ∧ ValidData platform it.kind it.data := by
  rcases op with ⟨order, p, m, now⟩ | ⟨order, p, expected, candidate, prune, clock⟩ | other
  · simp only [ConfigOp.submitted] at h
    split at h
    next hid =>
      split at h
      next data hdata =>
        obtain rfl := List.mem_singleton.1 h
        rcases validated_ok hdata with ⟨-, hnone⟩ | ⟨x, -, -, hvalid, hsome⟩
        · cases hnone
        · cases hsome
          exact ⟨hid, hvalid.marshalled⟩
      next => cases h
    next => cases h
  · rcases candidate with - | c
    · cases h
    · simp only [ConfigOp.submitted] at h
      rcases hitems : c.items platform with e | items <;> rw [hitems] at h
      · cases h
      · obtain ⟨hid, hvalid, -⟩ := (items_ok hitems).1 it h
        exact ⟨hid, hvalid⟩
  · cases h

/-- **A step of a configuration**: what is stored after it was stored before or
was submitted, and the graph of every tenant was accepted or has not changed. -/
structure Reconfigured (platform : Platform) (op : ConfigOp) (s s' : Store) : Prop where
  origin : ∀ t kind id x, ResourceKind.configured kind = true → s'.datum t kind id = some x →
    s.datum t kind id = some x ∨ (⟨kind, id, x⟩ : ConfigItem) ∈ op.submitted platform
  graph : ∀ t, GraphAccepted s' t ∨ ∀ kind id, ResourceKind.configured kind = true →
    s'.datum t kind id = s.datum t kind id
  revision : s.revision ≤ s'.revision

/-- What is stored after a write was stored before or has been written. -/
theorem writeResource_datum_origin {kind' : ResourceKind} {id' : String} {next : Option kind.Data}
    {x : kind'.Data}
    (h : (s.writeResource ⟨tenant, kind, id⟩ version next).datum t kind' id' = some x) :
    s.datum t kind' id' = some x ∨
      ∃ y, next = some y ∧ (⟨kind', id', x⟩ : ConfigItem) = ⟨kind, id, y⟩ := by
  by_cases hkind : kind' = kind
  · subst hkind
    rcases writeResource_datum_iff.1 h with ⟨-, rfl, hnext⟩ | ⟨-, hold⟩
    · exact .inr ⟨x, hnext, rfl⟩
    · exact .inl hold
  · have hsame : (s.writeResource ⟨tenant, kind, id⟩ version next).datum t kind' id' =
        s.datum t kind' id' := writeResource_datum_ne hkind
    rw [hsame] at h
    exact .inl h

/-- What the items written so far have made of the store. -/
structure Applied (tenant : String) (s t : Store) (done : List ConfigItem) : Prop where
  origin : ∀ t' kind id x, t.datum t' kind id = some x →
    s.datum t' kind id = some x ∨ (⟨kind, id, x⟩ : ConfigItem) ∈ done
  others : ∀ t', t' ≠ tenant → ∀ kind id, t.datum t' kind id = s.datum t' kind id
  revision : t.revision = s.revision

/-- One more write, with the tables in step. -/
theorem Applied.write {t t₁ : Store} {done : List ConfigItem} (h : Applied tenant s t done)
    (htables : TablesOnly t t₁) (kind : ResourceKind) (id : String) (version : ℤ)
    (next : Option kind.Data) :
    Applied tenant s (t₁.writeResource ⟨tenant, kind, id⟩ version next)
      (done ++ next.toList.map fun x => ⟨kind, id, x⟩) := by
  refine ⟨?_, ?_, ?_⟩
  · intro t' kind' id' x hx
    rcases writeResource_datum_origin hx with hold | ⟨y, rfl, heq⟩
    · rw [htables.datum] at hold
      exact (h.origin t' kind' id' x hold).imp_right (List.mem_append_left _)
    · rw [heq]
      exact .inr (List.mem_append_right _ List.mem_cons_self)
  · intro t' ht kind' id'
    rw [← h.others t' ht, ← htables.datum kind' id']
    apply writeResource_datum_of_key_ne
    intro hkey
    exact ht (congrArg ResourceKey.tenantID hkey)
  · rw [← h.revision, ← htables.revision]
    cases next <;> rfl

/-- A deletion of everything stores nothing. -/
theorem applied_prune (prune : Bool) (s : Store) (tenant : String) :
    Applied tenant s (if prune = true then s.prune tenant else s) [] := by
  cases prune with
  | false => exact ⟨fun _ _ _ _ hx => .inl hx, fun _ _ _ _ => rfl, rfl⟩
  | true =>
    refine ⟨fun _ _ _ _ hx => .inl (prune_datum_iff.1 hx).1, fun t' ht kind id => ?_, rfl⟩
    ext x
    exact prune_datum_iff.trans (and_iff_left fun hsame => ht hsame.1)

/-- The loop over the items, after a deletion if asked for. -/
theorem applied_items {items : List ConfigItem}
    (h : Tx.Runs (forM items (applyItem tenant clock)) (if prune = true then s.prune tenant else s)
      u s') : Applied tenant s s' items := by
  refine Tx.runs_forM_induct (fun done t => Applied tenant s t done) h
    (applied_prune prune s tenant) ?_
  intro done it t v t' _ hP hitem
  obtain rfl := applyItem_runs hitem
  exact hP.write (syncedWith_tablesOnly t tenant clock it) it.kind it.id _ (some it.data)

/-- What a step does: a call fails, or it writes what was submitted and the graph
of its tenant is accepted. -/
inductive ConfigEffect (platform : Platform) (op : ConfigOp) (s : Store) : Store → Prop
  | failed : ConfigEffect platform op s s
  | wrote {tenant : String} {s₁ : Store} (happlied : Applied tenant s s₁ (op.submitted platform))
      (hgraph : GraphAccepted s₁.bumpRevision tenant) : ConfigEffect platform op s s₁.bumpRevision
  | background {other : Store} (hop : op = .background other) :
      ConfigEffect platform op s (s.background other)

theorem step_effect (platform : Platform) (op : ConfigOp) (s : Store) :
    ConfigEffect platform op s (op.step platform s) := by
  rcases op with ⟨order, p, m, now⟩ | ⟨order, p, expected, candidate, prune, clock⟩ | other
  · refine Tx.commit_induct (P := ConfigEffect platform _ s) .failed fun u s' hrun => ?_
    obtain ⟨data, _, version, s₁, hid, hdata, -, -, -, -, htables, hvalid, rfl⟩ := mutate_runs hrun
    refine .wrote ?_ (validateTenantTx_accepts hvalid)
    have hwrite := (applied_prune false s p.tenantID).write htables m.kind m.id version data
    cases data <;> simpa [ConfigOp.submitted, hid, hdata] using hwrite
  · refine Tx.commit_induct (P := ConfigEffect platform _ s) .failed fun out s' hrun => ?_
    obtain ⟨c, items, s₁, rfl, hitems, hloop, hvalid, rfl⟩ := applyConfig_runs hrun
    refine .wrote ?_ (validateTenantTx_accepts hvalid)
    rw [ConfigOp.submitted, hitems]
    exact applied_items hloop
  · exact .background rfl

/-- **Every step** reconfigures. -/
theorem step_reconfigured (platform : Platform) (op : ConfigOp) (s : Store) :
    Reconfigured platform op s (op.step platform s) := by
  have heffect := step_effect platform op s
  generalize op.step platform s = s' at heffect ⊢
  cases heffect with
  | failed => exact ⟨fun _ _ _ _ _ hx => .inl hx, fun _ => .inr fun _ _ _ => rfl, le_refl _⟩
  | @wrote tenant s₁ happlied hgraph =>
    refine ⟨fun t kind id x _ hx => happlied.origin t kind id x hx, ?_, ?_⟩
    · intro t
      by_cases ht : t = tenant
      · subst ht
        exact .inl hgraph
      · exact .inr fun kind id _ => happlied.others t ht kind id
    · show s.revision ≤ s₁.revision + 1
      rw [happlied.revision]
      omega
  | @background other hop =>
    have hdata : ∀ t kind id, ResourceKind.configured kind = true →
        (s.background other).datum t kind id = s.datum t kind id := by
      intro t kind id hkind
      rw [Store.datum, background_resource hkind]
      rfl
    refine ⟨?_, fun t => .inr fun kind id hkind => hdata t kind id hkind, le_max_left _ _⟩
    intro t kind id x hkind hx
    rw [← hdata t kind id hkind]
    exact .inl hx

/-! ### Accepted configurations -/

/-- The configuration of a tenant was accepted: every resource is valid, and
the graph is. -/
structure Store.Accepted (platform : Platform) (s : Store) (tenant : String) : Prop where
  resources : ∀ kind id x, ResourceKind.configured kind = true → s.datum tenant kind id = some x →
    validRef id = true ∧ ValidData platform kind x
  graph : GraphAccepted s tenant

theorem accepted_empty (platform : Platform) (tenant : String) :
    Store.Accepted platform {} tenant := by
  have hnone : ∀ kind id x, ({} : Store).datum tenant kind id ≠ some x := by
    intro kind id x h
    cases h
  exact ⟨fun kind id x _ h => absurd h (hnone kind id x),
    fun id m h => absurd h (hnone .models id m),
    fun id r h => absurd h (hnone .routePolicies id r),
    fun id id' r r' h => absurd h (hnone .routePolicies id r)⟩

/-- A step keeps every tenant's configuration accepted. -/
theorem Store.Accepted.step (hs : ∀ t, s.Accepted platform t) (op : ConfigOp) (t : String) :
    (op.step platform s).Accepted platform t := by
  have hop := step_reconfigured platform op s
  constructor
  · intro kind id x hkind hx
    rcases hop.origin t kind id x hkind hx with hold | hnew
    · exact (hs t).resources kind id x hkind hold
    · exact submitted_valid hnew
  · rcases hop.graph t with hgraph | hdata
    · exact hgraph
    · exact (hs t).graph.congr hdata

/-- **In every reachable store** the configuration of every tenant was
accepted, and the revision is not negative. -/
theorem configuredBy_accepted (platform : Platform) (ops : List ConfigOp) :
    (∀ t, (configuredBy platform ops).Accepted platform t) ∧
      0 ≤ (configuredBy platform ops).revision := by
  refine run_inv_of_step (I := fun s : Store => (∀ t, s.Accepted platform t) ∧ 0 ≤ s.revision) ?_
    ⟨accepted_empty platform, le_refl _⟩ ops
  rintro s op ⟨hs, hrev⟩
  exact ⟨Store.Accepted.step hs op, hrev.trans (step_reconfigured platform op s).revision⟩

end Hoorific
