/-
The catalog: a snapshot compiled into lookup tables.  `compile` goes
through the maps of the snapshot one after the other, checks every entry
and copies it.  A later loop reads what the earlier ones have built, so
the catalog is the state of the loops, as in the source.

`yields_compile` says when it succeeds: every entry of the snapshot meets
the rule of its kind, each rule read off the snapshot itself.  The catalog
then holds what the snapshot does.

`quote` is the quoting of a name in a message.
-/
import Hoorific.Lib.Load
import Hoorific.Runtime
import Hoorific.Store.Validation

namespace Hoorific

open Check

structure Catalog where
  revision : Int
  policy : TenantPolicy
  connections : Table String Connection := ∅
  models : Table String Model := ∅
  modelsByConnection : Table (String × String) Model := ∅
  uniqueModels : Table String Model := ∅
  ambiguousModels : List String := []
  aliases : Table String (List RouteTarget) := ∅
  routePolicies : Table String RoutePolicy := ∅
  accountPools : Table String AccountPool := ∅

/-- The errors of `Compile` are plain, or those of a client profile. -/
abbrev CompileError := ProfileError

section Compile

variable (platform : Platform) (quote : String → String)

variable (c : Catalog)

/-- The loop body over the connections. -/
def Catalog.addConnection (e : (_ : String) × Connection) : Except CompileError Catalog := do
  let value := e.2
  require (e.1 != "" && value.id != "" && e.1 == value.id)
    (.plain "connection key and ID must match")
  validateClientProfile platform value.clientProfile value.connector
  require (c.connections.lookup e.1).isNone (.plain ("duplicate connection " ++ quote e.1))
  pure { c with connections := c.connections.insert e.1 value }

/-- A feature is declared by name, as supported, unsupported or unknown. -/
def catalogFeature (f : String × Support) : Bool :=
  f.1 != "" && (f.2 == .supported || f.2 == .unsupported || f.2 == .unknown)

/-- The rules of a model that need no other resource. -/
def checkCatalogModel (key : String) (value : Model) : Except CompileError Unit := do
  let about (text : String) : CompileError := .plain ("model " ++ quote key ++ text)
  require (value.contextLimit.all fun n => decide (0 ≤ n)) (about " has negative context limit")
  require (value.outputLimit.all fun n => decide (0 ≤ n)) (about " has negative output limit")
  forM value.features fun f =>
    require (catalogFeature f) (about " has invalid feature declaration")
  match value.price with
  | none => pure ()
  | some price => do
    require (price.version != "") (about " has invalid price version")
    forM price.rates fun rate =>
      require (validPriceRate rate) (about " has negative price bound")

/-- The catalog with a model under its three indices. -/
def Catalog.withModel (key : String) (value : Model) : Catalog :=
  { c with
    models := c.models.insert key value
    modelsByConnection := c.modelsByConnection.insert (value.connectionID, value.catalogID) value
    uniqueModels :=
      if (c.uniqueModels.lookup value.catalogID).isSome then c.uniqueModels.erase value.catalogID
      else if c.ambiguousModels.contains value.catalogID then c.uniqueModels
      else c.uniqueModels.insert value.catalogID value
    ambiguousModels :=
      if (c.uniqueModels.lookup value.catalogID).isSome then value.catalogID :: c.ambiguousModels
      else c.ambiguousModels }

/-- The loop body over the models. -/
def Catalog.addModel (e : (_ : String) × Model) : Except CompileError Catalog := do
  let value := e.2
  let about (text : String) : CompileError := .plain ("model " ++ quote e.1 ++ text)
  require (e.1 != "" && value.catalogID != "" && e.1 == value.catalogID && value.id != "")
    (.plain "model identity is invalid")
  require (value.connectionID != "") (about " has no connection")
  match c.connections.lookup value.connectionID with
  | none => .error (about " references unknown connection")
  | some connection => do
    require (!connection.disabled) (about " references disabled connection")
    checkCatalogModel quote e.1 value
    require (c.modelsByConnection.lookup (value.connectionID, value.catalogID)).isNone
      (.plain ("duplicate model " ++ quote value.catalogID ++ " on connection " ++
        quote value.connectionID))
    pure (c.withModel e.1 value)

variable (connections : Table String Connection)

/-- A connection by id; the zero connection if there is none. -/
def connectionOf (id : String) : Connection :=
  (connections.lookup id).getD {}

/-- The loop body over the targets of an alias; `seen` are the earlier pairs. -/
def Catalog.checkTarget (name : String) (seen : List (String × String))
    (target : RouteTarget) : Except CompileError (List (String × String)) := do
  let about (text : String) : CompileError := .plain ("alias " ++ quote name ++ text)
  require ((c.modelsByConnection.lookup target.pair).any
    fun model => model.connectionID == target.connectionID) (about " references incompatible model")
  let connection := connectionOf c.connections target.connectionID
  require (!connection.disabled) (about " references disabled connection")
  require (decide (0 ≤ target.priority) && decide (0 < target.weight))
    (about " has invalid priority or weight")
  require (target.region == "" || connection.region == "" ||
    target.region == connection.region) (about " target region mismatches connection")
  require (!seen.contains target.pair) (about " has duplicate target")
  pure (target.pair :: seen)

/-- The loop body over the aliases. -/
def Catalog.addAlias (e : (_ : String) × List RouteTarget) : Except CompileError Catalog := do
  require (e.1 != "") (.plain "empty alias")
  let _ ← e.2.foldlM (c.checkTarget quote e.1) []
  pure { c with aliases := c.aliases.insert e.1 e.2 }

/-- The loop body over the account pools. -/
def Catalog.addAccountPool (e : (_ : String) × AccountPool) : Except CompileError Catalog := do
  let about (text : String) : CompileError := .plain ("account pool " ++ quote e.1 ++ text)
  require (e.1 != "" && e.2.provider != "") (about " identity is invalid")
  require (!e.2.accountIDs.isEmpty) (about " has no accounts")
  require (e.2.accountIDs.all (· != "") && decide e.2.accountIDs.Nodup)
    (about " has invalid account membership")
  pure { c with accountPools := c.accountPools.insert e.1 e.2 }

/-- The pool holds the account of a target's connection. -/
def poolHolds (pool : AccountPool) (target : RouteTarget) : Bool :=
  let connection := connectionOf connections target.connectionID
  (pool.provider == connection.connector || pool.provider == connection.setting "provider") &&
    pool.accountIDs.contains connection.accountID

/-- The region a target is in: its own, or that of its connection. -/
def regionOf (target : RouteTarget) : String :=
  if target.region = "" then (connectionOf connections target.connectionID).region
  else target.region

/-- The pool of a route policy, if it names one, holds the accounts of the targets. -/
def Catalog.checkRoutePool (name : String) (policy : RoutePolicy)
    (targets : List RouteTarget) : Except CompileError Unit :=
  let about (text : String) : CompileError := .plain ("route policy " ++ quote name ++ text)
  if policy.accountPoolID = "" then .ok ()
  else match c.accountPools.lookup policy.accountPoolID with
    | none => .error (about " references unknown account pool")
    | some pool =>
      require (targets.all (poolHolds c.connections pool))
        (about " account pool does not contain target account")

/-- The loop body over the route policies. -/
def Catalog.addRoutePolicy (e : (_ : String) × RoutePolicy) : Except CompileError Catalog := do
  let policy := e.2
  let about (text : String) : CompileError := .plain ("route policy " ++ quote e.1 ++ text)
  match c.aliases.lookup e.1 with
  | none => .error (about " references unknown alias")
  | some targets => do
    require (policy.residency.all (· != "")) (about " has invalid residency")
    c.checkRoutePool quote e.1 policy targets
    require (targets.all fun t =>
        policy.residency.isEmpty || policy.residency.contains (regionOf c.connections t))
      (about " residency does not match target region")
    pure { c with routePolicies := c.routePolicies.insert e.1 policy }

def compile (s : RuntimeSnapshot) : Except CompileError Catalog := do
  require (decide (0 ≤ s.revision)) (.plain "negative snapshot revision")
  let c ← s.connections.entries.foldlM (Catalog.addConnection platform quote)
    { revision := s.revision, policy := s.policy }
  let c ← s.models.entries.foldlM (Catalog.addModel quote) c
  let c ← s.aliases.entries.foldlM (Catalog.addAlias quote) c
  let c ← s.accountPools.entries.foldlM (Catalog.addAccountPool quote) c
  s.routePolicies.entries.foldlM (Catalog.addRoutePolicy quote) c

end Compile

/-! ### The rules of each kind -/

section Rules

variable (platform : Platform) (s : RuntimeSnapshot)

/-- A connection compiles. -/
structure Connection.Compiles (key : String) (value : Connection) : Prop where
  named : key ≠ ""
  id : value.id = key
  profile : validateClientProfile platform value.clientProfile value.connector = .ok ()

/-- The rules of a model that need no other resource. -/
structure Model.Sound (value : Model) : Prop where
  contextLimit : (value.contextLimit.all fun n => decide (0 ≤ n)) = true
  outputLimit : (value.outputLimit.all fun n => decide (0 ≤ n)) = true
  features : ∀ f ∈ value.features, catalogFeature f = true
  price : ∀ price, value.price = some price →
    price.version ≠ "" ∧ ∀ rate ∈ price.rates, validPriceRate rate = true

/-- A model compiles. -/
structure Model.Compiles (key : String) (value : Model) : Prop where
  named : key ≠ ""
  catalogID : value.catalogID = key
  id : value.id ≠ ""
  connectionID : value.connectionID ≠ ""
  connection : ∃ c, s.connections.lookup value.connectionID = some c ∧ c.disabled = false
  sound : value.Sound

/-- A target compiles. -/
structure RouteTarget.Compiles (t : RouteTarget) : Prop where
  model : ∃ m, s.models.lookup t.modelID = some m ∧ m.connectionID = t.connectionID
  enabled : (connectionOf s.connections t.connectionID).disabled = false
  priority : 0 ≤ t.priority
  weight : 0 < t.weight
  region : t.region = "" ∨ (connectionOf s.connections t.connectionID).region = "" ∨
    t.region = (connectionOf s.connections t.connectionID).region

/-- The targets of an alias compile. -/
structure AliasCompiles (name : String) (targets : List RouteTarget) : Prop where
  named : name ≠ ""
  each : ∀ t ∈ targets, t.Compiles s
  nodup : (targets.map RouteTarget.pair).Nodup

/-- An account pool compiles. -/
structure AccountPool.Compiles (id : String) (pool : AccountPool) : Prop where
  named : id ≠ ""
  provider : pool.provider ≠ ""
  nonempty : pool.accountIDs ≠ []
  accounts : ∀ account ∈ pool.accountIDs, account ≠ ""
  nodup : pool.accountIDs.Nodup

/-- A route policy compiles with the targets of its alias. -/
structure RoutePolicy.Compiles (policy : RoutePolicy) (targets : List RouteTarget) : Prop where
  named : ∀ region ∈ policy.residency, region ≠ ""
  pool : policy.accountPoolID = "" ∨
    ∃ pool, s.accountPools.lookup policy.accountPoolID = some pool ∧
      ∀ t ∈ targets, poolHolds s.connections pool t = true
  residency : ∀ t ∈ targets, policy.residency = [] ∨ regionOf s.connections t ∈ policy.residency

/-- A snapshot compiles: every entry does. -/
structure RuntimeSnapshot.Compiles : Prop where
  revision : 0 ≤ s.revision
  connections : ∀ k v, s.connections.lookup k = some v → v.Compiles platform k
  models : ∀ k v, s.models.lookup k = some v → v.Compiles s k
  aliases : ∀ k v, s.aliases.lookup k = some v → AliasCompiles s k v
  accountPools : ∀ k v, s.accountPools.lookup k = some v → v.Compiles k
  routePolicies : ∀ k v, s.routePolicies.lookup k = some v →
    ∃ targets, s.aliases.lookup k = some targets ∧ v.Compiles s targets

end Rules

/-! ### The loops of `Compile` -/

section Loops

variable {platform : Platform} {quote : String → String} {s : RuntimeSnapshot} {c c' : Catalog}
  {k : String} {c₀ : Catalog} {v : Model} {t t' : Table String Connection}
  {seen : List (String × String)} {targets : List RouteTarget} {policy : RoutePolicy}

theorem addConnection_ok {v : Connection} (hnone : c.connections.lookup k = none) :
    c.addConnection platform quote ⟨k, v⟩ = .ok c' ↔
      v.Compiles platform k ∧ c' = { c with connections := c.connections.insert k v } := by
  simp only [Catalog.addConnection, bind_ok, require_ok, pure_ok,
    Bool.and_eq_true, bne_iff_ne, beq_iff_eq, Option.isNone_iff_eq_none]
  constructor
  · rintro ⟨-, ⟨⟨hk, -⟩, hid⟩, ⟨⟩, hprofile, -, -, rfl⟩
    exact ⟨⟨hk, hid.symm, hprofile⟩, rfl⟩
  · rintro ⟨⟨hk, hid, hprofile⟩, rfl⟩
    exact ⟨(), ⟨⟨hk, hid ▸ hk⟩, hid.symm⟩, (), hprofile, (), hnone, rfl⟩

theorem checkCatalogModel_ok {key : String} {value : Model} :
    checkCatalogModel quote key value = .ok () ↔ value.Sound := by
  simp only [checkCatalogModel, bind_ok, require_ok, forM_ok]
  constructor
  · rintro ⟨-, hc, -, ho, ⟨⟩, hf, hp⟩
    refine ⟨hc, ho, hf, ?_⟩
    intro price hprice
    simp only [hprice, bind_ok, require_ok, forM_ok, bne_iff_ne] at hp
    obtain ⟨-, hv, hr⟩ := hp
    exact ⟨hv, hr⟩
  · rintro ⟨hc, ho, hf, hp⟩
    refine ⟨(), hc, (), ho, (), hf, ?_⟩
    rcases hprice : value.price with - | price
    · rfl
    simp only [bind_ok, require_ok, forM_ok, bne_iff_ne]
    obtain ⟨hv, hr⟩ := hp price hprice
    exact ⟨(), hv, hr⟩

/-- The models on record, by connection and by id. -/
def Catalog.Indexed (c : Catalog) : Prop :=
  ∀ cid mid m, c.modelsByConnection.lookup (cid, mid) = some m ↔
    c.models.lookup mid = some m ∧ m.connectionID = cid

theorem addModel_ok (hc : c.Indexed) (hnone : c.models.lookup k = none)
    (hconn : ∀ id, c.connections.lookup id = s.connections.lookup id) :
    c.addModel quote ⟨k, v⟩ = .ok c' ↔ v.Compiles s k ∧ c' = c.withModel k v := by
  -- a model under a new id has a new pair
  have hpair : v.catalogID = k → c.modelsByConnection.lookup (v.connectionID, v.catalogID) = none := by
    rintro rfl
    by_contra hne
    obtain ⟨m, hm⟩ := Option.ne_none_iff_exists'.1 hne
    rw [((hc _ _ _).1 hm).1] at hnone
    cases hnone
  simp only [Catalog.addModel, bind_ok, require_ok, Bool.and_eq_true, bne_iff_ne, beq_iff_eq, hconn]
  rcases hfound : s.connections.lookup v.connectionID with - | connection
  · constructor
    · rintro ⟨-, -, -, -, h⟩
      cases h
    · rintro ⟨h, -⟩
      obtain ⟨connection, hsome, -⟩ := h.connection
      rw [hfound] at hsome
      cases hsome
  · simp only [bind_ok, require_ok, pure_ok, Option.isNone_iff_eq_none, Bool.not_eq_true']
    constructor
    · rintro ⟨-, ⟨⟨⟨hk, -⟩, hid⟩, hup⟩, -, hcid, -, hdis, ⟨⟩, hsound, -, -, rfl⟩
      exact ⟨⟨hk, hid.symm, hup, hcid, ⟨connection, hfound, hdis⟩, checkCatalogModel_ok.1 hsound⟩,
        rfl⟩
    · rintro ⟨h, rfl⟩
      obtain ⟨connection', hfound', hdis⟩ := h.connection
      cases hfound.symm.trans hfound'
      exact ⟨(), ⟨⟨⟨h.named, h.catalogID ▸ h.named⟩, h.catalogID.symm⟩, h.id⟩, (), h.connectionID,
        (), hdis, (), checkCatalogModel_ok.2 h.sound, (), hpair h.catalogID, rfl⟩

theorem Catalog.Indexed.withModel (hc : c.Indexed) (hnone : c.models.lookup k = none)
    (hid : v.catalogID = k) : (c.withModel k v).Indexed := by
  intro cid mid m
  show (c.modelsByConnection.insert (v.connectionID, v.catalogID) v).lookup (cid, mid) = some m ↔
    (c.models.insert k v).lookup mid = some m ∧ m.connectionID = cid
  rw [Table.lookup_insert_iff, Table.lookup_insert_iff, hc, hid]
  constructor
  · rintro (⟨heq, rfl⟩ | ⟨hne, hm, hcid⟩)
    · obtain ⟨rfl, rfl⟩ := Prod.mk.inj heq
      exact ⟨.inl ⟨rfl, rfl⟩, rfl⟩
    · refine ⟨.inr ⟨?_, hm⟩, hcid⟩
      rintro rfl
      rw [hnone] at hm
      cases hm
  · rintro ⟨⟨rfl, rfl⟩ | ⟨hne, hm⟩, rfl⟩
    · exact .inl ⟨rfl, rfl⟩
    · exact .inr ⟨fun heq => hne (Prod.mk.inj heq).2, hm, rfl⟩

/-- What the loop over the models changes. -/
def Catalog.ModelsOnly (c₀ c : Catalog) : Prop :=
  c = { c₀ with models := c.models, modelsByConnection := c.modelsByConnection,
                uniqueModels := c.uniqueModels, ambiguousModels := c.ambiguousModels }

theorem yields_models (hm : c₀.models = ∅) (hb : c₀.modelsByConnection = ∅)
    (hconn : ∀ id, c₀.connections.lookup id = s.connections.lookup id) :
    Yields (s.models.entries.foldlM (Catalog.addModel quote) c₀)
      (∀ k v, s.models.lookup k = some v → v.Compiles s k) fun c =>
        (∀ k, c.models.lookup k = s.models.lookup k) ∧ c.Indexed ∧ c₀.ModelsOnly c := by
  have hidx₀ : c₀.Indexed := by
    intro cid mid m
    rw [hm, hb]
    simp
  -- the second index is carried along, it decides whether a pair is new
  have hstep : ∀ c k v, (c.Indexed ∧ c₀.ModelsOnly c) ∧ v.Compiles s k →
      c.models.lookup k = none → (c.withModel k v).Indexed ∧ c₀.ModelsOnly (c.withModel k v) := by
    rintro c k v ⟨⟨hidx, hframe⟩, h⟩ hnone
    refine ⟨hidx.withModel hnone h.catalogID, ?_⟩
    rw [hframe]
    rfl
  refine Table.yields_load Catalog.models (fun c => c.Indexed ∧ c₀.ModelsOnly c)
    (fun k v => v.Compiles s k) hm ⟨hidx₀, rfl⟩ ?_
  rintro c k v ⟨hidx, hframe⟩ hnone
  have hconn' : ∀ id, c.connections.lookup id = s.connections.lookup id := by
    intro id
    rw [hframe]
    exact hconn id
  unfold Yields
  simp only [addModel_ok hidx hnone hconn']
  refine ⟨⟨fun ⟨_, h, _⟩ => h, fun h => ⟨_, h, rfl⟩⟩, ?_⟩
  rintro c' ⟨h, rfl⟩
  exact ⟨rfl, hstep c k v ⟨⟨hidx, hframe⟩, h⟩ hnone⟩

theorem connectionOf_congr (h : ∀ id, t.lookup id = t'.lookup id) (id : String) :
    connectionOf t id = connectionOf t' id := by
  rw [connectionOf, connectionOf, h id]

/-- The catalog knows the connections and the models of the snapshot. -/
structure Catalog.Knows (c : Catalog) (s : RuntimeSnapshot) : Prop where
  connections : ∀ k, c.connections.lookup k = s.connections.lookup k
  models : ∀ k, c.models.lookup k = s.models.lookup k
  indexed : c.Indexed

theorem checkTarget_ok (hc : c.Knows s) {name : String} {seen' : List (String × String)}
    {t : RouteTarget} :
    c.checkTarget quote name seen t = .ok seen' ↔
      t.Compiles s ∧ t.pair ∉ seen ∧ seen' = t.pair :: seen := by
  have hmodel : ((c.modelsByConnection.lookup t.pair).any
      fun model => model.connectionID == t.connectionID) = true ↔
      ∃ m, s.models.lookup t.modelID = some m ∧ m.connectionID = t.connectionID := by
    simp only [Option.any_eq_true, beq_iff_eq, ← hc.models]
    constructor
    · rintro ⟨m, hm, hcid⟩
      exact ⟨m, ((hc.indexed _ _ _).1 hm).1, hcid⟩
    · rintro ⟨m, hm, hcid⟩
      exact ⟨m, (hc.indexed _ _ _).2 ⟨hm, hcid⟩, hcid⟩
  simp only [Catalog.checkTarget, bind_ok, require_ok, pure_ok, hmodel,
    connectionOf_congr hc.connections, Bool.and_eq_true, Bool.or_eq_true, decide_eq_true_eq,
    Bool.not_eq_true', beq_iff_eq, List.contains_eq_mem, decide_eq_false_iff_not, or_assoc]
  constructor
  · rintro ⟨-, hm, -, hdis, -, ⟨hp, hw⟩, -, hr, -, hnew, rfl⟩
    exact ⟨⟨hm, hdis, hp, hw, hr⟩, hnew, rfl⟩
  · rintro ⟨⟨hm, hdis, hp, hw, hr⟩, hnew, rfl⟩
    exact ⟨(), hm, (), hdis, (), ⟨hp, hw⟩, (), hr, (), hnew, rfl⟩

/-- The targets of an alias pass if each does and no pair is repeated. -/
theorem checkTargets_ok (quote : String → String) (hc : c.Knows s) (name : String) :
    (∃ out, targets.foldlM (c.checkTarget quote name) seen = .ok out) ↔
      (∀ t ∈ targets, t.Compiles s) ∧ (targets.map RouteTarget.pair).Nodup ∧
        ∀ t ∈ targets, t.pair ∉ seen := by
  induction targets generalizing seen with
  | nil => simp [pure_ok]
  | cons t targets ih =>
    simp only [List.foldlM_cons, bind_ok, checkTarget_ok hc, List.forall_mem_cons,
      List.map_cons, List.nodup_cons, List.mem_map, not_exists, not_and]
    constructor
    · rintro ⟨out, seen', ⟨ht, hnew, rfl⟩, hrest⟩
      obtain ⟨hall, hnodup, hseen⟩ := ih.1 ⟨out, hrest⟩
      refine ⟨⟨ht, hall⟩, ⟨fun x hx hxt => ?_, hnodup⟩, hnew, fun x hx hxs => ?_⟩
      · exact hseen x hx (hxt ▸ List.mem_cons_self)
      · exact hseen x hx (List.mem_cons_of_mem _ hxs)
    · rintro ⟨⟨ht, hall⟩, ⟨hfirst, hnodup⟩, hnew, hseen⟩
      have hseen' : ∀ x ∈ targets, x.pair ∉ t.pair :: seen := by
        intro x hx
        rw [List.mem_cons, not_or]
        exact ⟨hfirst x hx, hseen x hx⟩
      obtain ⟨out, hout⟩ := ih.2 ⟨hall, hnodup, hseen'⟩
      exact ⟨out, _, ⟨ht, hnew, rfl⟩, hout⟩

theorem addAlias_ok (hc : c.Knows s) :
    c.addAlias quote ⟨k, targets⟩ = .ok c' ↔
      AliasCompiles s k targets ∧ c' = { c with aliases := c.aliases.insert k targets } := by
  simp only [Catalog.addAlias, bind_ok, require_ok, pure_ok, bne_iff_ne]
  constructor
  · rintro ⟨-, hk, out, hout, rfl⟩
    obtain ⟨hall, hnodup, -⟩ := (checkTargets_ok quote hc k).1 ⟨out, hout⟩
    exact ⟨⟨hk, hall, hnodup⟩, rfl⟩
  · rintro ⟨⟨hk, hall, hnodup⟩, rfl⟩
    obtain ⟨out, hout⟩ := (checkTargets_ok quote hc k).2 ⟨hall, hnodup, fun t _ => List.not_mem_nil⟩
    exact ⟨(), hk, out, hout, rfl⟩

theorem addAccountPool_ok {pool : AccountPool} :
    c.addAccountPool quote ⟨k, pool⟩ = .ok c' ↔
      pool.Compiles k ∧ c' = { c with accountPools := c.accountPools.insert k pool } := by
  simp only [Catalog.addAccountPool, bind_ok, require_ok, pure_ok,
    Bool.and_eq_true, bne_iff_ne, Bool.not_eq_true', List.isEmpty_eq_false_iff, List.all_eq_true,
    decide_eq_true_eq]
  constructor
  · rintro ⟨-, ⟨hk, hp⟩, -, hne, -, ⟨hall, hnodup⟩, rfl⟩
    exact ⟨⟨hk, hp, hne, hall, hnodup⟩, rfl⟩
  · rintro ⟨⟨hk, hp, hne, hall, hnodup⟩, rfl⟩
    exact ⟨(), ⟨hk, hp⟩, (), hne, (), ⟨hall, hnodup⟩, rfl⟩

/-- The catalog also knows the aliases and the pools. -/
structure Catalog.Complete (c : Catalog) (s : RuntimeSnapshot) : Prop where
  knows : c.Knows s
  aliases : ∀ k, c.aliases.lookup k = s.aliases.lookup k
  accountPools : ∀ k, c.accountPools.lookup k = s.accountPools.lookup k

theorem poolHolds_congr (h : ∀ id, t.lookup id = t'.lookup id) : poolHolds t = poolHolds t' := by
  funext pool target
  rw [poolHolds, poolHolds, connectionOf_congr h]

theorem regionOf_congr (h : ∀ id, t.lookup id = t'.lookup id) : regionOf t = regionOf t' := by
  funext target
  rw [regionOf, regionOf, connectionOf_congr h]

theorem checkRoutePool_ok (hc : c.Complete s) :
    c.checkRoutePool quote k policy targets = .ok () ↔
      policy.accountPoolID = "" ∨
        ∃ pool, s.accountPools.lookup policy.accountPoolID = some pool ∧
          ∀ t ∈ targets, poolHolds s.connections pool t = true := by
  unfold Catalog.checkRoutePool
  simp only [hc.accountPools, poolHolds_congr hc.knows.connections]
  by_cases hid : policy.accountPoolID = ""
  · simp [hid]
  rcases hpool : s.accountPools.lookup policy.accountPoolID with - | pool
  · simp [hid]
  · simp [hid, List.all_eq_true]

theorem addRoutePolicy_ok (hc : c.Complete s) :
    c.addRoutePolicy quote ⟨k, policy⟩ = .ok c' ↔
      (∃ targets, s.aliases.lookup k = some targets ∧ policy.Compiles s targets) ∧
        c' = { c with routePolicies := c.routePolicies.insert k policy } := by
  rcases halias : s.aliases.lookup k with - | targets
  · simp [Catalog.addRoutePolicy, hc.aliases, halias]
  simp only [Catalog.addRoutePolicy, hc.aliases, halias, bind_ok, require_ok,
    pure_ok, regionOf_congr hc.knows.connections, List.all_eq_true, bne_iff_ne,
    Bool.or_eq_true, List.isEmpty_iff, List.contains_iff_mem]
  constructor
  · rintro ⟨-, hnamed, ⟨⟩, hpool, -, hres, rfl⟩
    exact ⟨⟨targets, rfl, hnamed, (checkRoutePool_ok hc).1 hpool, hres⟩, rfl⟩
  · rintro ⟨⟨targets', ht, hnamed, hpool, hres⟩, rfl⟩
    cases ht
    exact ⟨(), hnamed, (), (checkRoutePool_ok hc).2 hpool, (), hres, rfl⟩

end Loops

/-! ### `Compile` -/

/-- The catalog holds the snapshot. -/
structure Catalog.Holds (c : Catalog) (s : RuntimeSnapshot) : Prop extends c.Complete s where
  routePolicies : ∀ k, c.routePolicies.lookup k = s.routePolicies.lookup k

/-- What `Compile` does with the entries and with the two values it copies. -/
theorem yields_compile_copied (platform : Platform) (quote : String → String)
    (s : RuntimeSnapshot) :
    Yields (compile platform quote s) (s.Compiles platform)
      fun c => c.Holds s ∧ c.revision = s.revision ∧ c.policy = s.policy := by
  have hall : Yields (compile platform quote s)
      (decide (0 ≤ s.revision) = true ∧
        (∀ k v, s.connections.lookup k = some v → v.Compiles platform k) ∧
        (∀ k v, s.models.lookup k = some v → v.Compiles s k) ∧
        (∀ k v, s.aliases.lookup k = some v → AliasCompiles s k v) ∧
        (∀ k v, s.accountPools.lookup k = some v → v.Compiles k) ∧
        (∀ k v, s.routePolicies.lookup k = some v →
          ∃ targets, s.aliases.lookup k = some targets ∧ v.Compiles s targets))
      fun c => c.Holds s ∧ c.revision = s.revision ∧ c.policy = s.policy := by
    refine yields_require.bind fun _ _ => ?_
    refine (Table.yields_copies Catalog.connections (fun c t => { c with connections := t })
      (fun k v => v.Compiles platform k) rfl rfl (fun _ => rfl)
      fun _ _ _ _ hnone => addConnection_ok hnone).bind ?_
    rintro _ ⟨connections, hconn, rfl⟩
    refine (yields_models rfl rfl hconn).bind ?_
    rintro c ⟨hmodels, hidx, hframe⟩
    have hconn' : ∀ k, c.connections.lookup k = s.connections.lookup k := by
      rw [hframe]
      exact hconn
    refine (Table.yields_copies Catalog.aliases (fun c t => { c with aliases := t })
      (fun k v => AliasCompiles s k v) (by rw [hframe]) rfl (fun _ => rfl)
      fun _ _ _ _ _ => addAlias_ok ⟨hconn', hmodels, hidx⟩).bind ?_
    rintro _ ⟨aliases, haliases, rfl⟩
    refine (Table.yields_copies Catalog.accountPools (fun c t => { c with accountPools := t })
      (fun k v => v.Compiles k) (by rw [hframe]) rfl (fun _ => rfl)
      fun _ _ _ _ _ => addAccountPool_ok).bind ?_
    rintro _ ⟨pools, hpools, rfl⟩
    have hcomplete : ∀ t, Catalog.Complete
        { c with aliases := aliases, accountPools := pools, routePolicies := t } s :=
      fun _ => ⟨⟨hconn', hmodels, hidx⟩, haliases, hpools⟩
    refine (Table.yields_copies Catalog.routePolicies (fun c t => { c with routePolicies := t })
      (fun k v => ∃ targets, s.aliases.lookup k = some targets ∧ v.Compiles s targets)
      (by rw [hframe]) rfl (fun _ => rfl)
      fun _ _ _ _ _ => addRoutePolicy_ok (hcomplete _)).mono ?_
    rintro _ ⟨routes, hroutes, rfl⟩
    exact ⟨⟨hcomplete routes, hroutes⟩, by rw [hframe], by rw [hframe]⟩
  refine ⟨hall.1.trans ?_, hall.2⟩
  constructor
  · rintro ⟨hrev, hconn, hmodels, haliases, hpools, hroutes⟩
    exact ⟨of_decide_eq_true hrev, hconn, hmodels, haliases, hpools, hroutes⟩
  · intro h
    exact ⟨decide_eq_true h.revision, h.connections, h.models, h.aliases, h.accountPools,
      h.routePolicies⟩

/-- **`Compile`** succeeds exactly if every entry of the snapshot compiles, and
then the catalog holds the snapshot. -/
theorem yields_compile (platform : Platform) (quote : String → String) (s : RuntimeSnapshot) :
    Yields (compile platform quote s) (s.Compiles platform) fun c => c.Holds s :=
  (yields_compile_copied platform quote s).mono fun _ h => h.1

end Hoorific
