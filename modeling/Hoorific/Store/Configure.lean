/-
Runs of configuration changes.  A run is a list of `Mutate` and
`ApplyConfig` calls, interleaved with background steps that change
anything but the configuration: tenancy, keys, attempts.  The runs start
at the empty store; a background step is what sets up the tenants.

One lemma for each call says what a successful one did (`mutate_runs`,
`applyConfig_runs`): the policy tables were synchronized, the resources
written, and the graph that resulted was valid.
-/
import Hoorific.Lib.Run
import Hoorific.Store.Holds
import Hoorific.Store.Resources

namespace Hoorific

open Tx

/-! ### Steps -/

/-- A step that leaves the configuration alone: the resources a configuration
consists of and the policy rows stay, the revision does not fall. -/
def Store.background (s other : Store) : Store :=
  { other with
    resources := Table.filterKeys (fun k : ResourceKey => k.kind.configured) s.resources ∪
      Table.filterKeys (fun k : ResourceKey => !k.kind.configured) other.resources
    policyLimits := s.policyLimits
    revision := max s.revision other.revision }

/-- A change of the configuration, or a step of the rest of the system. -/
inductive ConfigOp where
  | mutate (order : MapOrder) (p : Principal) (m : Mutation) (now : ℤ)
  | apply (order : MapOrder) (p : Principal) (expected : ℤ) (candidate : Option Candidate)
      (prune : Bool) (clock : String → ℤ)
  | background (other : Store)

/-- One step of a run; a call that fails changes nothing. -/
def ConfigOp.step (platform : Platform) (s : Store) : ConfigOp → Store
  | .mutate order p m now => (commit (Hoorific.mutate platform order p m now) s).2
  | .apply order p expected candidate prune clock =>
    (commit (applyConfig platform order p expected candidate prune clock) s).2
  | .background other => s.background other

/-- The store after a run from the empty one. -/
def configuredBy (platform : Platform) (ops : List ConfigOp) : Store :=
  run (ConfigOp.step platform) {} ops

/-! ### What a step does -/

variable {platform : Platform} {order : MapOrder} {s s' : Store} {tenant : String}
  {kind : ResourceKind} {p : Principal} {version now : ℤ} {u : Unit} {k : ResourceKey} {t : String}
  {m : Mutation} {clock : String → ℤ} {it : ConfigItem} {out : List ConfigItem}

theorem background_resource {other : Store} (hkind : kind.configured = true) (id : String) :
    (s.background other).resource tenant kind id = s.resource tenant kind id :=
  Table.lookup_filterKeys_union hkind

/-- What synchronizing the tables leaves alone. -/
structure TablesOnly (s s' : Store) : Prop where
  resources : s'.resources = s.resources
  revision : s'.revision = s.revision

theorem TablesOnly.refl (s : Store) : TablesOnly s s := ⟨rfl, rfl⟩

theorem TablesOnly.trans {s₁ s₂ s₃ : Store} (h : TablesOnly s₁ s₂) (h' : TablesOnly s₂ s₃) :
    TablesOnly s₁ s₃ :=
  ⟨h'.resources.trans h.resources, h'.revision.trans h.revision⟩

theorem TablesOnly.resource (h : TablesOnly s s') (kind : ResourceKind) (id : String) :
    s'.resource tenant kind id = s.resource tenant kind id := by
  rw [Store.resource, h.resources]
  rfl

theorem PolicyOnly.tablesOnly (h : PolicyOnly s s') : TablesOnly s s' := by
  rw [h.frame]
  exact ⟨rfl, rfl⟩

/-- **`syncKeyMetadataTx`**: the row had the version before, and takes the new
one; a deletion revokes it. -/
theorem syncKeyMetadataTx_ok {id : String} {next : Option KeyData}
    (h : Runs (syncKeyMetadataTx p id next version) s u s') :
    1 < version ∧ ∃ old, s.apiKeys.lookup (p.tenantID, id) = some old ∧
      old.version + 1 = version ∧
      s' = { s with
        apiKeys := s.apiKeys.insert (p.tenantID, id) ⟨version, next.isNone || old.revoked⟩ } ∧
      ∀ kd, next = some kd → decodeKeyData kd = .ok kd := by
  simp only [syncKeyMetadataTx, runs_require_bind, runs_get_bind, runs_orFail_bind,
    decide_eq_true_eq, beq_iff_eq] at h
  obtain ⟨-, hversion, old, hold, hnext, h⟩ := h
  rcases next with - | data
  · simp only [runs_modify] at h
    exact ⟨hversion, old, hold, hnext, h.symm, by rintro _ ⟨⟩⟩
  simp only [runs_liftE_bind, runs_require_bind, runs_modify] at h
  obtain ⟨kd, hkd, -, rfl⟩ := h
  refine ⟨hversion, old, hold, hnext, rfl, ?_⟩
  rintro _ ⟨⟩
  exact (decodeKeyData_ok hkd).symm ▸ hkd

theorem syncKeyMetadataTx_runs {id : String} {next : Option KeyData}
    (h : Runs (syncKeyMetadataTx p id next version) s u s') :
    s' = { s with apiKeys := s'.apiKeys } := by
  obtain ⟨-, old, -, -, rfl, -⟩ := syncKeyMetadataTx_ok h
  rfl

theorem syncTables_tablesOnly {id : String} {next : Option kind.Data}
    (h : Runs (syncTables p id version now kind next) s u s') : TablesOnly s s' := by
  cases kind with
  | apiKeys =>
    rw [syncKeyMetadataTx_runs h]
    exact ⟨rfl, rfl⟩
  | policyLimits =>
    rw [syncPolicyLimit_eq h]
    exact (policyOnly_synced s p.tenantID id next now).tablesOnly
  | connections | models | modelAliases | routePolicies | accountPools | prices =>
    obtain ⟨-, rfl⟩ := h
    exact .refl s

theorem writeResource_resource {id : String} {next : Option kind.Data} :
    (s.writeResource ⟨tenant, kind, id⟩ version next).resource tenant kind id =
      next.map (Resource.mk (version + 1)) := by
  rcases next with - | y <;> simp [Store.resource, Store.writeResource]

theorem writeResource_resource_of_key_ne {id : String} (hkey : (⟨t, kind, id⟩ : ResourceKey) ≠ k)
    {next : Option k.kind.Data} :
    (s.writeResource k version next).resource t kind id = s.resource t kind id := by
  rcases next with - | y
  · simp [Store.resource, Store.writeResource, AList.lookup_erase_ne hkey]
  · simp [Store.resource, Store.writeResource, AList.lookup_insert_ne hkey]

theorem writeResource_datum_of_key_ne {id : String} (hkey : (⟨t, kind, id⟩ : ResourceKey) ≠ k)
    {next : Option k.kind.Data} :
    (s.writeResource k version next).datum t kind id = s.datum t kind id := by
  rw [Store.datum, writeResource_resource_of_key_ne hkey]
  rfl

/-- The resource under a key after it has been written. -/
theorem writeResource_datum_iff {id id' : String} {next : Option kind.Data} {x : kind.Data} :
    (s.writeResource ⟨tenant, kind, id⟩ version next).datum t kind id' = some x ↔
      (t = tenant ∧ id' = id ∧ next = some x) ∨
        (¬ (t = tenant ∧ id' = id) ∧ s.datum t kind id' = some x) := by
  by_cases hsame : t = tenant ∧ id' = id
  · obtain ⟨rfl, rfl⟩ := hsame
    rw [Store.datum, writeResource_resource]
    rcases next with - | y <;> simp
  have hkey : (⟨t, kind, id'⟩ : ResourceKey) ≠ ⟨tenant, kind, id⟩ := by
    intro h
    injection h with h₁ _ h₂
    exact hsame ⟨h₁, h₂⟩
  have hold : (s.writeResource ⟨tenant, kind, id⟩ version next).datum t kind id' =
      s.datum t kind id' := writeResource_datum_of_key_ne hkey
  rw [hold]
  constructor
  · exact fun h => .inr ⟨hsame, h⟩
  · rintro (⟨h₁, h₂, -⟩ | ⟨-, h⟩)
    · exact absurd ⟨h₁, h₂⟩ hsame
    · exact h

theorem writeResource_datum_ne (hkind : kind ≠ k.kind) {id : String} {next : Option k.kind.Data} :
    (s.writeResource k version next).datum t kind id = s.datum t kind id := by
  apply writeResource_datum_of_key_ne
  rintro rfl
  exact hkind rfl

theorem prune_datum_iff {id : String} {x : kind.Data} :
    (s.prune tenant).datum t kind id = some x ↔
      s.datum t kind id = some x ∧ ¬ (t = tenant ∧ kind.configured = true) := by
  have hkept : (!(t == tenant && kind.configured)) = true ↔
      ¬ (t = tenant ∧ kind.configured = true) := by
    rw [Bool.not_eq_true', ← Bool.not_eq_true, Bool.and_eq_true, beq_iff_eq]
  have hlookup : ∀ r, (s.prune tenant).resource t kind id = some r ↔
      s.resource t kind id = some r ∧ (!(t == tenant && kind.configured)) = true := fun r =>
    Table.lookup_filterKeys_iff (k := (⟨t, kind, id⟩ : ResourceKey))
  simp only [Store.datum, Option.map_eq_some_iff, hlookup, hkept]
  constructor
  · rintro ⟨r, ⟨hr, hkeep⟩, rfl⟩
    exact ⟨⟨r, hr, rfl⟩, hkeep⟩
  · rintro ⟨⟨r, hr, rfl⟩, hkeep⟩
    exact ⟨r, ⟨hr, hkeep⟩, rfl⟩

theorem TablesOnly.datum (h : TablesOnly s s') (kind : ResourceKind) (id : String) :
    s'.datum tenant kind id = s.datum tenant kind id := by
  rw [Store.datum, h.resource]
  rfl

/-- What a mutation writes: nothing for a deletion, else submitted data that
meets its rules, as it is marshalled. -/
theorem validated_ok {data : Option m.kind.Data} (h : m.validated platform = .ok data) :
    (m.delete = true ∧ data = none) ∨
      ∃ x, m.delete = false ∧ m.data = some x ∧ ValidData platform m.kind x ∧
        data = some (m.kind.marshalled platform x) := by
  unfold Mutation.validated at h
  split at h
  next hdel =>
    cases h
    exact .inl ⟨hdel, rfl⟩
  next hdel =>
    rcases hv : validateResource platform m.kind m.data with e | x <;> rw [hv] at h
    · cases h
    cases h
    obtain ⟨y, hy, hvalid, rfl⟩ := validateResource_ok platform hv
    exact .inr ⟨y, by simpa using hdel, hy, hvalid, rfl⟩

/-- The version a mutation finds. -/
theorem Mutation.version_ok {current : Option (Resource m.kind)}
    (h : m.version current = .ok version) :
    (current = none ∧ m.expectedVersion = 0 ∧ version = 0) ∨
      ∃ r, current = some r ∧ m.expectedVersion = r.version ∧ version = r.version := by
  unfold Mutation.version at h
  split at h
  · split at h
    · cases h
    · next hcond =>
      cases h
      rw [not_or, not_not] at hcond
      exact .inl ⟨rfl, hcond.1, rfl⟩
  · next r =>
    split at h
    · cases h
    next hcond =>
    split at h
    · cases h
    cases h
    rw [not_or, not_not] at hcond
    exact .inr ⟨r, rfl, hcond.2, rfl⟩

/-- **`Mutate`**: the data is valid and keeps its identity, the tables were
synchronized, the resource was written, and the graph is valid. -/
theorem mutate_runs (h : Runs (mutate platform order p m now) s u s') :
    ∃ data current version s₁, validRef m.id = true ∧ m.validated platform = .ok data ∧
      Principal.tenantID current = p.tenantID ∧
      m.version (s.resource p.tenantID m.kind m.id) = .ok version ∧
      m.identity (s.resource p.tenantID m.kind m.id) data = .ok () ∧
      Runs (syncTables current m.id version now m.kind data) s () s₁ ∧ TablesOnly s s₁ ∧
      validateTenantTx platform order
        (s₁.writeResource ⟨p.tenantID, m.kind, m.id⟩ version data) p.tenantID = .ok () ∧
      s' = (s₁.writeResource ⟨p.tenantID, m.kind, m.id⟩ version data).bumpRevision := by
  simp only [mutate, mutateTx, runs_require_bind, runs_get_bind, runs_liftE_bind] at h
  obtain ⟨hid, first, hfirst, -, -, data, hdata, current, hcurrent, -, -, version, hversion,
    ⟨⟩, hidentity, h⟩ := h
  obtain ⟨_, s₁, hsync, h⟩ := runs_bind.1 h
  simp only [runs_modify_bind, runs_get_bind, runs_liftE_bind, runs_modify] at h
  obtain ⟨⟨⟩, hvalid, rfl⟩ := h
  have htenant : current.tenantID = p.tenantID := by
    rw [resolveMembershipTx_tenantID hcurrent, resolveMembershipTx_tenantID hfirst]
  rw [htenant] at hversion hidentity hvalid ⊢
  exact ⟨data, current, version, s₁, hid, hdata, htenant, hversion, hidentity, hsync,
    syncTables_tablesOnly hsync, hvalid, rfl⟩

/-- **`ApplyConfig`**: what the candidate consists of was written item by item,
after a deletion if asked for, and the graph is valid. -/
theorem applyConfig_runs {expected out : ℤ} {candidate : Option Candidate} {prune : Bool}
    (h : Runs (applyConfig platform order p expected candidate prune clock) s out s') :
    ∃ c items s₁, candidate = some c ∧ c.items platform = .ok items ∧
      Runs (forM items (applyItem p.tenantID clock))
        (if prune = true then s.prune p.tenantID else s) () s₁ ∧
      validateTenantTx platform order s₁ p.tenantID = .ok () ∧ s' = s₁.bumpRevision := by
  simp only [applyConfig, runs_require_bind, runs_get_bind, runs_liftE_bind, runs_orFail_bind] at h
  obtain ⟨c, hc, items, hitems, current, hcurrent, -, -, -, hrest⟩ := h
  simp only [runs_bind, runs_get, runs_liftE, runs_modify, runs_ite, runs_pure] at hrest
  have htenant : current.tenantID = p.tenantID := resolvePrincipalTx_tenantID hcurrent
  rw [htenant] at hrest
  refine ⟨c, items, ?_⟩
  rcases hrest with ⟨hprune, _, _, rfl, _, s₁, hloop, _, _, ⟨rfl, rfl⟩, _, _, ⟨hvalid, rfl⟩, _, _,
      rfl, -, rfl⟩ |
    ⟨hprune, _, s₁, hloop, _, _, ⟨rfl, rfl⟩, _, _, ⟨hvalid, rfl⟩, _, _, rfl, -, rfl⟩
  · exact ⟨s₁, hc, hitems, by rw [if_pos hprune]; exact hloop, hvalid, rfl⟩
  · exact ⟨s₁, hc, hitems, by rw [if_neg hprune]; exact hloop, hvalid, rfl⟩

/-! ### The items of a candidate -/

/-- The limit an item writes, if it is one. -/
def ConfigItem.limit : ConfigItem → Option (String × PolicyLimitData)
  | ⟨.policyLimits, id, data⟩ => some (id, data)
  | ⟨.connections, _, _⟩ | ⟨.models, _, _⟩ | ⟨.modelAliases, _, _⟩ | ⟨.routePolicies, _, _⟩
  | ⟨.accountPools, _, _⟩ | ⟨.prices, _, _⟩ | ⟨.apiKeys, _, _⟩ => none

/-- The store before an item is written: its policy rows are in step. -/
def Store.syncedWith (s : Store) (tenant : String) (clock : String → ℤ) (it : ConfigItem) : Store :=
  match it.limit with
  | none => s
  | some (id, data) => s.synced tenant id (some data) (clock id)

theorem syncedWith_tablesOnly (s : Store) (tenant : String) (clock : String → ℤ)
    (it : ConfigItem) : TablesOnly s (s.syncedWith tenant clock it) := by
  unfold Store.syncedWith
  split
  · exact .refl s
  · exact (policyOnly_synced _ _ _ _ _).tablesOnly

/-- **One item**: its policy rows are synchronized, then it is written over the
version that is there. -/
theorem applyItem_runs (h : Runs (applyItem tenant clock it) s u s') :
    s' = (s.syncedWith tenant clock it).writeResource ⟨tenant, it.kind, it.id⟩
      (((s.resource tenant it.kind it.id).map Resource.version).getD 0) (some it.data) := by
  rw [← (syncedWith_tablesOnly s tenant clock it).resource it.kind it.id]
  rcases it with ⟨kind, id, data⟩
  cases kind with
  | policyLimits =>
    simp only [applyItem, runs_bind, runs_modify] at h
    obtain ⟨_, s₁, hsync, rfl⟩ := h
    rw [syncPolicyLimit_eq hsync]
    rfl
  | connections | models | modelAliases | routePolicies | accountPools | prices | apiKeys =>
    change Runs (modify fun s : Store => _) s u s' at h
    rw [runs_modify] at h
    exact h.symm

/-- An item comes from the map of its kind, under a valid id and with valid data. -/
theorem checkItem_ok {e : (_ : String) × Option kind.Data}
    (h : checkItem platform kind e = .ok it) :
    validRef e.1 = true ∧ ∃ data, e.2 = some data ∧ ValidData platform kind data ∧
      it = ⟨kind, e.1, data⟩ := by
  rcases e with ⟨id, data⟩
  simp only [checkItem, Check.bind_ok, Check.require_ok] at h
  obtain ⟨_, hid, x, hx, hit⟩ := h
  obtain ⟨y, rfl, hvalid, -⟩ := validateResource_ok platform hx
  cases hit
  exact ⟨hid, y, rfl, hvalid, rfl⟩

theorem checkItems_ok {l : List ((_ : String) × Option kind.Data)}
    (h : l.mapM (checkItem platform kind) = .ok out) :
    ∀ it ∈ out, it.kind = kind ∧ it.id ∈ l.keys ∧ validRef it.id = true ∧
      ValidData platform it.kind it.data := by
  intro it hit
  obtain ⟨e, he, hitem⟩ := Check.exists_of_mem_mapM h hit
  obtain ⟨hid, data, -, hvalid, rfl⟩ := checkItem_ok hitem
  exact ⟨rfl, List.mem_map_of_mem he, hid, hvalid⟩

theorem limits_of_items {l : List ((_ : String) × Option PolicyLimitData)}
    (h : List.Forall₂ (fun e it => checkItem platform .policyLimits e = .ok it) l out) :
    out.filterMap ConfigItem.limit = l.filterMap fun e => e.2.map fun data => (e.1, data) := by
  induction h with
  | nil => rfl
  | cons hab _ ih =>
    obtain ⟨-, data, hdata, -, rfl⟩ := checkItem_ok hab
    rw [List.filterMap_cons, List.filterMap_cons, hdata, ih]
    rfl

/-- The ids a candidate has of a kind. -/
def Candidate.ids (c : Candidate) : ResourceKind → List String
  | .connections => c.connections.keys
  | .models => c.models.keys
  | .modelAliases => c.modelAliases.keys
  | .routePolicies => c.routePolicies.keys
  | .policyLimits => c.policyLimits.keys
  | .accountPools => c.accountPools.keys
  | .prices => c.prices.keys
  | .apiKeys => []

/-- The items of a candidate: each has a valid id of the candidate and valid
data, none is a key, and the limits among them are those of the candidate. -/
theorem items_ok {c : Candidate} {items : List ConfigItem} (h : c.items platform = .ok items) :
    (∀ it ∈ items, validRef it.id = true ∧ ValidData platform it.kind it.data ∧
      it.kind.configured = true ∧ it.id ∈ c.ids it.kind) ∧
    items.filterMap ConfigItem.limit =
      c.policyLimits.entries.filterMap fun e => e.2.map fun data => (e.1, data) := by
  simp only [Candidate.items, Check.bind_ok, Check.pure_ok] at h
  obtain ⟨l₁, h₁, l₂, h₂, l₃, h₃, l₄, h₄, l₅, h₅, l₆, h₆, l₇, h₇, rfl⟩ := h
  constructor
  · intro it hit
    simp only [List.mem_append] at hit
    have hof : ∀ {kind : ResourceKind} {l : List ((_ : String) × Option kind.Data)} {out},
        kind.configured = true → l.keys = c.ids kind → l.mapM (checkItem platform kind) = .ok out →
        it ∈ out → validRef it.id = true ∧ ValidData platform it.kind it.data ∧
          it.kind.configured = true ∧ it.id ∈ c.ids it.kind := by
      intro kind l out hkind hids hl hmem
      obtain ⟨rfl, hmem, hid, hvalid⟩ := checkItems_ok hl it hmem
      exact ⟨hid, hvalid, hkind, hids ▸ hmem⟩
    rcases hit with (((((hit | hit) | hit) | hit) | hit) | hit) | hit
    · exact hof rfl rfl h₁ hit
    · exact hof rfl rfl h₂ hit
    · exact hof rfl rfl h₃ hit
    · exact hof rfl rfl h₄ hit
    · exact hof rfl rfl h₅ hit
    · exact hof rfl rfl h₆ hit
    · exact hof rfl rfl h₇ hit
  · have hnone : ∀ {kind : ResourceKind} {l : List ((_ : String) × Option kind.Data)} {out},
        kind ≠ .policyLimits → l.mapM (checkItem platform kind) = .ok out →
        out.filterMap ConfigItem.limit = [] := by
      intro kind l out hkind hl
      rw [List.filterMap_eq_nil_iff]
      intro it hit
      obtain ⟨hk, -⟩ := checkItems_ok hl it hit
      rcases it with ⟨k, id, data⟩
      obtain rfl : k = kind := hk
      cases k <;> first | rfl | exact absurd rfl hkind
    simp only [List.filterMap_append]
    rw [hnone (by decide) h₁, hnone (by decide) h₂, hnone (by decide) h₃, hnone (by decide) h₄,
      hnone (by decide) h₆, hnone (by decide) h₇, limits_of_items (Check.mapM_ok.1 h₅)]
    simp

/-! ### A tenant to configure -/

/-- A platform for ASCII texts that admits every base URL. -/
def samplePlatform : Platform where
  letters := asciiCase
  equalFold a b := asciiCase.toLower a == asciiCase.toLower b
  marshal s := "\"" ++ s ++ "\""
  validBaseURL _ _ := true

/-- Maps are gone through in the order of the table. -/
def tableOrder : MapOrder := ⟨id, fun l => List.Perm.refl l⟩

/-- A tenant with its bootstrap owner. -/
def ownedTenant : Store :=
  { tenants := AList.singleton "t" { enabled := true }
    operators := AList.singleton "o" { subject := "o", enabled := true }
    roleBindings := AList.singleton ("t", "o") ⟨.owner, "o", "t", .owner⟩
    identitySubjects := AList.singleton "o" ("bootstrap:t", "o")
    bootstrapOwners := AList.singleton "t" ⟨"t", "o"⟩ }

def ownerPrincipal : Principal := { tenantID := "t", subjectID := "o" }

/-- The owner creates or updates a resource. -/
def ownerPut (kind : ResourceKind) (id : String) (expectedVersion : ℤ) (data : kind.Data) :
    ConfigOp :=
  .mutate tableOrder ownerPrincipal
    { kind := kind, id := id, expectedVersion := expectedVersion, data := some data } 0

/-- The owner deletes a resource. -/
def ownerDelete (kind : ResourceKind) (id : String) (expectedVersion : ℤ) : ConfigOp :=
  .mutate tableOrder ownerPrincipal
    { kind := kind, id := id, expectedVersion := expectedVersion, delete := true, data := none } 0

end Hoorific
