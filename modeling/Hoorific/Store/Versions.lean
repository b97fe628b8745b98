/-
Optimistic concurrency over whole runs.  A row of a resource carries a
version, and a mutation names the version it changes.  That protects a
reader as long as a version stands for one content; a row that is deleted
and created again starts over at version 1.

`Advances` says what a step may do to a row so that versions keep their
meaning: leave it, delete it, or raise its version.  Every step does that
to every row, except to the rows it creates (`advances_step`).
-/
import Hoorific.Store.Compiles
import Hoorific.Store.Directory

namespace Hoorific

open Tx Table

/-! ### Rows -/

/-- The key of a row with a version: of the resources of a tenant, or of one of
the three tables of the tenancy. -/
inductive RowKey where
  | resource (k : ResourceKey)
  | tenant (id : String)
  | operator (id : String)
  | binding (tenant id : String)
deriving DecidableEq

abbrev RowKey.Data : RowKey → Type
  | .resource k => k.kind.Data
  | .tenant _ => TenantData
  | .operator _ => OperatorRecord
  | .binding _ _ => RoleBindingRow

/-- What the administrators of all tenants change. -/
structure Console where
  directory : Directory := {}
  store : Store := {}

/-- The store with its present tenancy. -/
def Console.current (c : Console) : Store := c.store.withDirectory c.directory

/-- The console after a change of the store. -/
def Console.withStore (c : Console) (s : Store) : Console :=
  ⟨{ c.directory with revision := s.revision }, s⟩

/-- A row of the resources. -/
def Store.versioned (s : Store) (k : ResourceKey) : Option (Versioned k.kind.Data) :=
  (s.resources.lookup k).map fun r => ⟨r.version, r.data⟩

def Console.row (c : Console) : (k : RowKey) → Option (Versioned k.Data)
  | .resource k => c.store.versioned k
  | .tenant id => c.directory.tenants.lookup id
  | .operator id => c.directory.operators.lookup id
  | .binding tenant id => c.directory.roleBindings.lookup (tenant, id)

/-! ### Steps -/

/-- A call of `Mutate`, which sends the kinds of the tenancy to
`mutateTenancy`, or of `ApplyConfig`. -/
inductive ConsoleOp where
  | mutate (order : MapOrder) (p : Principal) (m : Mutation) (now : ℤ)
  | mutateTenancy (p : Principal) (m : TenancyMutation)
  | applyConfig (order : MapOrder) (p : Principal) (expected : ℤ) (candidate : Option Candidate)
      (prune : Bool) (clock : String → ℤ)

section Steps

variable (platform : Platform) (validOrigin : String → Bool)

/-- One step; a call that fails changes nothing. -/
def ConsoleOp.step (c : Console) : ConsoleOp → Console
  | .mutate order p m now =>
    c.withStore (commit (Hoorific.mutate platform order p m now) c.current).2
  | .mutateTenancy p m =>
    ⟨(commit (Directory.mutateTenancy validOrigin p m) c.directory).2, c.store⟩
  | .applyConfig order p expected candidate prune clock =>
    c.withStore (commit (Hoorific.applyConfig platform order p expected candidate prune clock)
      c.current).2

/-- Whether a call of `Mutate` succeeds. -/
def ConsoleOp.mutates (c : Console) : ConsoleOp → Bool
  | .mutate order p m now =>
    (commit (Hoorific.mutate platform order p m now) c.current).1.isOk
  | .mutateTenancy p m =>
    (commit (Directory.mutateTenancy validOrigin p m) c.directory).1.isOk
  | .applyConfig .. => false

/-- The console after a run. -/
def Console.after (c : Console) (ops : List ConsoleOp) : Console :=
  run (ConsoleOp.step platform validOrigin) c ops

end Steps

/-- The row a mutation of the tenancy is about. -/
def TenancyMutation.key (m : TenancyMutation) (p : Principal) : RowKey :=
  match m.kind with
  | .tenants => .tenant m.id
  | .operators => .operator m.id
  | .roleBindings => .binding p.tenantID m.id

/-- The row a call of `Mutate` is about, and the version it expects. -/
def ConsoleOp.target : ConsoleOp → Option (RowKey × ℤ)
  | .mutate _ p m _ => some (.resource ⟨p.tenantID, m.kind, m.id⟩, m.expectedVersion)
  | .mutateTenancy p m => some (m.key p, m.expectedVersion)
  | .applyConfig .. => none

/-- The rows a call creates, if it succeeds: those it names and does not find.
A new tenant gets the binding of an owner, a new operator that of a viewer;
`ApplyConfig` finds nothing after it has pruned. -/
def ConsoleOp.Creates (c : Console) (k : RowKey) : ConsoleOp → Prop
  | .mutate _ p m _ =>
    m.delete = false ∧ k = .resource ⟨p.tenantID, m.kind, m.id⟩ ∧ c.row k = none
  | .mutateTenancy p m =>
    m.delete = false ∧ c.row (m.key p) = none ∧
      (k = m.key p ∨ (m.kind = .tenants ∧ k = .binding m.id p.subjectID) ∨
        (m.kind = .operators ∧ k = .binding p.tenantID m.id))
  | .applyConfig _ p _ candidate prune _ =>
    ∃ given kind id, candidate = some given ∧ id ∈ given.ids kind ∧
      k = .resource ⟨p.tenantID, kind, id⟩ ∧ (prune = true ∨ c.row k = none)

/-! ### Versions that keep their meaning -/

/-- The row stays, goes, or gets a higher version. -/
def Advances {α : Type} (r r' : Option (Versioned α)) : Prop :=
  ∀ new, r' = some new → r = some new ∨ ∃ old, r = some old ∧ old.version < new.version

variable {α : Type} {v version : ℤ} {p : Principal} {u : Unit} {tenant : String}
  {m : TenancyMutation} {validOrigin : String → Bool}

theorem Advances.refl (r : Option (Versioned α)) : Advances r r := fun _ h => .inl h

theorem advances_some {old new : Versioned α} (h : old.version < new.version) :
    Advances (some old) (some new) :=
  fun _ hnew => .inr ⟨old, rfl, Option.some.inj hnew ▸ h⟩

theorem Advances.trans {r₁ r₂ r₃ : Option (Versioned α)} (h : Advances r₁ r₂) (h' : Advances r₂ r₃)
    : Advances r₁ r₃ := by
  intro new hnew
  rcases h' new hnew with hmid | ⟨mid, hmid, hlt⟩
  · exact h new hmid
  rcases h mid hmid with hold | ⟨old, hold, hlt'⟩
  · exact .inr ⟨mid, hold, hlt⟩
  · exact .inr ⟨old, hold, hlt'.trans hlt⟩

/-- A version that is seen again after advances stands for the same data. -/
theorem Advances.data_eq {r r' : Option (Versioned α)} (h : Advances r r') {a a' : α}
    (hr : r = some ⟨v, a⟩) (hr' : r' = some ⟨v, a'⟩) : a' = a := by
  rcases h _ hr' with hsame | ⟨old, hold, hlt⟩
  · rw [hr] at hsame
    cases hsame
    rfl
  · rw [hr] at hold
    cases hold
    exact absurd hlt (lt_irrefl v)

/-! ### Resources -/

section Resources

variable {platform : Platform} {order : MapOrder} {s s' : Store} {k : ResourceKey}

theorem TablesOnly.versioned (h : TablesOnly s s') (k : ResourceKey) :
    s'.versioned k = s.versioned k := by
  rw [Store.versioned, h.resources]
  rfl

variable {k' : ResourceKey} {it : ConfigItem} {items : List ConfigItem} {clock : String → ℤ}

/-- A write over the version that is there advances every row but one that is
not there. -/
theorem advances_writeResource {s₁ : Store} {next : Option k'.kind.Data} (htables : TablesOnly s s₁)
    (hversion : ∀ row, s.resources.lookup k' = some row → row.version = version)
    (hfound : k = k' → next ≠ none → s.versioned k ≠ none) :
    Advances (s.versioned k) ((s₁.writeResource k' version next).versioned k) := by
  rw [← htables.versioned k] at hfound ⊢
  by_cases hk : k = k'
  · subst hk
    rcases next with - | data
    · have hgone : (s₁.writeResource k version none).versioned k = none := by
        simp [Store.versioned, Store.writeResource]
      rw [hgone]
      exact fun _ h => by cases h
    · have hnew : (s₁.writeResource k version (some data)).versioned k =
          some ⟨version + 1, data⟩ := by
        simp [Store.versioned, Store.writeResource]
      obtain ⟨old, hold⟩ := Option.ne_none_iff_exists'.1 (hfound rfl (Option.some_ne_none _))
      rw [hnew, hold]
      rw [htables.versioned] at hold
      obtain ⟨row, hrow, rfl⟩ := Option.map_eq_some_iff.1 hold
      exact advances_some (hversion row hrow ▸ Int.lt_succ _)
  · have hsame : (s₁.writeResource k' version next).versioned k = s₁.versioned k := by
      rcases next with - | data
      · simp [Store.versioned, Store.writeResource, AList.lookup_erase_ne hk]
      · simp [Store.versioned, Store.writeResource, AList.lookup_insert_ne hk]
    rw [hsame]
    exact .refl _

/-- A write of data takes no row away. -/
theorem writeResource_versioned_ne_none {data : k'.kind.Data} (h : s.versioned k ≠ none) :
    (s.writeResource k' version (some data)).versioned k ≠ none := by
  by_cases hk : k = k'
  · subst hk
    simp [Store.versioned, Store.writeResource]
  · simpa [Store.versioned, Store.writeResource, AList.lookup_insert_ne hk] using h

/-- **`Mutate`** advances every row but the one it creates. -/
theorem advances_mutate {m : Mutation} {now : ℤ} (h : Runs (mutate platform order p m now) s u s')
    (hk : ¬ (m.delete = false ∧ k = ⟨p.tenantID, m.kind, m.id⟩ ∧ s.versioned k = none)) :
    Advances (s.versioned k) (s'.versioned k) := by
  obtain ⟨data, current, version, s₁, -, hdata, -, hversion, -, -, htables, -, rfl⟩ := mutate_runs h
  show Advances (s.versioned k)
    ((s₁.writeResource ⟨p.tenantID, m.kind, m.id⟩ version data).versioned k)
  refine advances_writeResource htables ?_ ?_
  · intro r hr
    rcases Mutation.version_ok hversion with ⟨hnone, -⟩ | ⟨r', hr', -, rfl⟩
    · rw [show s.resource p.tenantID m.kind m.id = some r from hr] at hnone
      cases hnone
    rw [show s.resource p.tenantID m.kind m.id = some r from hr] at hr'
    cases hr'
    rfl
  · intro hkey hnext hnone
    rcases validated_ok hdata with ⟨-, rfl⟩ | ⟨x, hdelete, -⟩
    · exact hnext rfl
    · exact hk ⟨hdelete, hkey, hnone⟩

theorem advances_applyItem (h : Runs (applyItem tenant clock it) s u s')
    (hk : ¬ (k = ⟨tenant, it.kind, it.id⟩ ∧ s.versioned k = none)) :
    Advances (s.versioned k) (s'.versioned k) := by
  obtain rfl := applyItem_runs h
  refine advances_writeResource (syncedWith_tablesOnly s tenant clock it) ?_ ?_
  · intro r hr
    rw [show s.resource tenant it.kind it.id = some r from hr]
    rfl
  · intro hkey _ hnone
    exact hk ⟨hkey, hnone⟩

/-- What a loop over items does to a row that none of them creates: an item
that finds the row leaves one behind. -/
theorem advances_applyItems (h : Runs (forM items (applyItem tenant clock)) s u s')
    (hk : ∀ it ∈ items, k = ⟨tenant, it.kind, it.id⟩ → s.versioned k ≠ none) :
    Advances (s.versioned k) (s'.versioned k) := by
  -- a row that an item may write is never missing
  refine (runs_forM_induct (fun _ t => Advances (s.versioned k) (t.versioned k) ∧
    (s.versioned k ≠ none → t.versioned k ≠ none)) h ⟨.refl _, id⟩ ?_).1
  rintro done it t v t' hpre ⟨hadv, hstays⟩ hitem
  have hmem : it ∈ items := hpre.subset (List.mem_append_right _ (List.mem_singleton_self it))
  refine ⟨hadv.trans (advances_applyItem hitem ?_), ?_⟩
  · rintro ⟨hkey, hnone⟩
    exact hstays (hk it hmem hkey) hnone
  · intro hs hnone
    obtain rfl := applyItem_runs hitem
    rw [← (syncedWith_tablesOnly t tenant clock it).versioned k] at hstays
    exact writeResource_versioned_ne_none (hstays hs) hnone

theorem advances_prune (s : Store) (tenant : String) (k : ResourceKey) :
    Advances (s.versioned k) ((s.prune tenant).versioned k) := by
  intro new hnew
  obtain ⟨r, hr, rfl⟩ := Option.map_eq_some_iff.1 hnew
  exact .inl (Option.map_eq_some_iff.2 ⟨r, (lookup_filterKeys_iff.1 hr).1, rfl⟩)

/-- **`ApplyConfig`** advances every row but those it creates. -/
theorem advances_applyConfig {expected out : ℤ} {candidate : Option Candidate} {prune : Bool}
    (h : Runs (applyConfig platform order p expected candidate prune clock) s out s')
    (hk : ¬ ∃ given kind id, candidate = some given ∧ id ∈ Candidate.ids given kind ∧
      k = ⟨p.tenantID, kind, id⟩ ∧ (prune = true ∨ s.versioned k = none)) :
    Advances (s.versioned k) (s'.versioned k) := by
  obtain ⟨c, items, s₁, rfl, hitems, hloop, -, rfl⟩ := applyConfig_runs h
  show Advances (s.versioned k) (s₁.versioned k)
  have hstored : ∀ it ∈ items, k = ⟨p.tenantID, it.kind, it.id⟩ →
      prune = false ∧ s.versioned k ≠ none := by
    intro it hit hkey
    have hnot : ¬ (prune = true ∨ s.versioned k = none) := fun hcond =>
      hk ⟨c, it.kind, it.id, rfl, ((items_ok hitems).1 it hit).2.2.2, hkey, hcond⟩
    rw [not_or, Bool.not_eq_true] at hnot
    exact hnot
  cases prune with
  | false =>
    rw [if_neg Bool.false_ne_true] at hloop
    exact advances_applyItems hloop fun it hit hkey => (hstored it hit hkey).2
  | true =>
    rw [if_pos rfl] at hloop
    have hno : ∀ it ∈ items, k ≠ ⟨p.tenantID, it.kind, it.id⟩ := fun it hit hkey =>
      Bool.noConfusion (hstored it hit hkey).1
    exact (advances_prune s p.tenantID k).trans
      (advances_applyItems hloop fun it hit hkey => absurd hkey (hno it hit))

end Resources

/-! ### The tenancy -/

section Tenancy

variable {d d' : Directory} {s : Store} {u : Unit} {k : RowKey} {version : ℤ} {κ : Type}
  {bootstrap delete : Bool} {id : String}

theorem advances_lookup_insert [DecidableEq κ] {t : Table κ (Versioned α)} {k k' : κ}
    {new : Versioned α} (h : k = k' → ∃ old, t.lookup k' = some old ∧ old.version < new.version) :
    Advances (t.lookup k) ((t.insert k' new).lookup k) := by
  by_cases hk : k = k'
  · subst hk
    obtain ⟨old, hold, hlt⟩ := h rfl
    rw [AList.lookup_insert, hold]
    exact advances_some hlt
  · rw [AList.lookup_insert_ne hk]
    exact .refl _

theorem advances_of_subtable [DecidableEq κ] {t t' : Table κ (Versioned α)} {k : κ}
    (h : ∀ v, t'.lookup k = some v → t.lookup k = some v) :
    Advances (t.lookup k) (t'.lookup k) :=
  fun new hnew => .inl (h new hnew)

theorem TenancyMutation.version_ok {found : Option ℤ}
    (h : m.version found bootstrap = .ok version) :
    (found = none ∧ m.expectedVersion = 0) ∨
      (found = some version ∧ (bootstrap = false → m.expectedVersion = version)) := by
  unfold TenancyMutation.version at h
  split at h
  · split at h
    · cases h
    · next hcond =>
      cases h
      rw [not_or, not_not] at hcond
      exact .inl ⟨rfl, hcond.1⟩
  · split at h
    · cases h
    · next hcond =>
      split at h
      · cases h
      cases h
      refine .inr ⟨rfl, fun hb => ?_⟩
      by_contra hne
      exact hcond ⟨hb, .inr hne⟩

/-- A change of a tenant that is there, or of one that is created with its owner. -/
theorem advances_writeTenant {active found : Bool} {data : Option TenantData}
    (h : Runs (Directory.writeTenant validOrigin p active id found version delete data) d u d')
    (hfound : found = true → ∃ old, d.tenants.lookup id = some old ∧ old.version = version)
    (hk : found = false → k ≠ .tenant id ∧ k ≠ .binding id p.subjectID) :
    Advances (Console.row ⟨d, s⟩ k) (Console.row ⟨d', s⟩ k) := by
  obtain ⟨next, -, ⟨hf, rfl⟩ | ⟨hf, -, rfl⟩⟩ := Directory.writeTenant_runs h
  · cases k with
    | tenant id' =>
      refine advances_lookup_insert fun _ => ?_
      obtain ⟨old, hold, hversion⟩ := hfound hf
      exact ⟨old, hold, hversion ▸ Int.lt_succ _⟩
    | resource | operator | binding => exact .refl _
  · obtain ⟨hnot, hnot'⟩ := hk hf
    cases k with
    | tenant id' => exact advances_lookup_insert fun heq => absurd (congrArg _ heq) hnot
    | binding t x =>
      refine advances_lookup_insert fun heq => absurd ?_ hnot'
      cases heq
      rfl
    | resource | operator => exact .refl _

/-- A change of an operator that is there, or of one that is created with a binding. -/
theorem advances_writeOperator {data : Option OperatorRecord}
    (h : Runs (Directory.writeOperator tenant id version bootstrap delete data) d u d')
    (hfound : ∀ old, d.operators.lookup id = some old → old.version = version)
    (hk : delete = false → d.operators.lookup id = none → k ≠ .operator id ∧ k ≠ .binding tenant id) :
    Advances (Console.row ⟨d, s⟩ k) (Console.row ⟨d', s⟩ k) := by
  rcases Directory.writeOperator_runs h with rfl | ⟨hdelete, hput⟩
  · cases k with
    | operator id' =>
      exact advances_of_subtable fun v hv => (lookup_erase_iff.1 hv).2
    | binding t x =>
      exact advances_of_subtable fun v hv => (lookup_deleteWhere_iff.1 hv).1
    | resource | tenant => exact .refl _
  · obtain ⟨next, d₁, -, hid, hcases⟩ := Directory.putOperator_runs hput
    have hm := hid.sameMembers
    have hrow : Console.row ⟨d₁, s⟩ k = Console.row ⟨d, s⟩ k := by
      cases k <;> simp only [Console.row, hm.tenants, hm.operators, hm.roleBindings]
    rw [← hrow]
    rcases hcases with ⟨hsome, rfl⟩ | ⟨hnone, -, rfl⟩
    · cases k with
      | operator id' =>
        refine advances_lookup_insert fun _ => ?_
        rw [Option.isSome_map] at hsome
        obtain ⟨old, hold⟩ := Option.isSome_iff_exists.1 hsome
        exact ⟨old, hm.operators ▸ hold, hfound old hold ▸ Int.lt_succ _⟩
      | resource | tenant | binding => exact .refl _
    · obtain ⟨hnot, hnot'⟩ := hk hdelete (Option.map_eq_none_iff.1 hnone)
      cases k with
      | operator id' => exact advances_lookup_insert fun heq => absurd (congrArg _ heq) hnot
      | binding t x =>
        refine advances_lookup_insert fun heq => absurd ?_ hnot'
        cases heq
        rfl
      | resource | tenant => exact .refl _

/-- A change of a binding that is there, or of one that is created. -/
theorem advances_writeBinding {data : Option RoleBindingData}
    (h : Runs (Directory.writeBinding tenant id version delete data) d u d')
    (hfound : ∀ old, d.roleBindings.lookup (tenant, id) = some old → old.version = version)
    (hk : delete = false → d.roleBindings.lookup (tenant, id) = none → k ≠ .binding tenant id) :
    Advances (Console.row ⟨d, s⟩ k) (Console.row ⟨d', s⟩ k) := by
  rcases Directory.writeBinding_runs h with rfl | ⟨next, hdelete, rfl⟩
  · cases k with
    | binding t x =>
      exact advances_of_subtable fun v hv => (lookup_erase_iff.1 hv).2
    | resource | tenant | operator => exact .refl _
  · cases k with
    | binding t x =>
      refine advances_lookup_insert fun heq => ?_
      cases heq
      rcases hold : d.roleBindings.lookup (tenant, id) with - | old
      · exact absurd rfl (hk hdelete hold)
      · exact ⟨old, rfl, hfound old hold ▸ Int.lt_succ _⟩
    | resource | tenant | operator => exact .refl _

end Tenancy

/-! ### Steps and runs -/

section Runs

variable {platform : Platform} {validOrigin : String → Bool} {c : Console} {k : RowKey}

/-- The version of the row a mutation of the tenancy is about. -/
theorem versionOf_eq_row (c : Console) (p : Principal) (m : TenancyMutation) :
    c.directory.versionOf (if m.kind = .tenants then m.id else p.tenantID) m.id m.kind =
      (c.row (m.key p)).map Versioned.version := by
  rcases m with ⟨kind, id, expected, delete, data⟩
  cases kind <;> rfl

theorem advances_mutateTenancy {d' : Directory}
    (h : Runs (Directory.mutateTenancy validOrigin p m) c.directory u d')
    (hk : ¬ (ConsoleOp.mutateTenancy p m).Creates c k) :
    Advances (c.row k) (Console.row ⟨d', c.store⟩ k) := by
  obtain ⟨current, token, l, version, active, d₁, hsubject, -, hversion, hw, -, rfl⟩ :=
    Directory.mutateTenancy_runs h
  rw [versionOf_eq_row] at hversion hw
  have hrow : ∀ d : Directory, Console.row ⟨{ d with revision := d.revision + 1 }, c.store⟩ k =
      Console.row ⟨d, c.store⟩ k := fun d => by cases k <;> rfl
  rw [hrow]
  -- what is found has the version, and what is not found is created
  have hfound : ∀ old, c.row (m.key p) = some old → old.version = version := by
    intro old hold
    rw [hold] at hversion
    rcases TenancyMutation.version_ok hversion with ⟨hnone, -⟩ | ⟨hsome, -⟩
    · cases hnone
    · exact Option.some.inj hsome
  have hcreated : m.delete = false → c.row (m.key p) = none → ¬ (k = m.key p ∨
      (m.kind = .tenants ∧ k = .binding m.id p.subjectID) ∨
        (m.kind = .operators ∧ k = .binding p.tenantID m.id)) :=
    fun hdelete hnone hkey => hk ⟨hdelete, hnone, hkey⟩
  rcases m with ⟨kind, id, expected, delete, data⟩
  cases kind with
  | tenants =>
    refine advances_writeTenant hw ?_ ?_
    · intro hsome
      rw [Option.isSome_map] at hsome
      obtain ⟨old, hold⟩ := Option.isSome_iff_exists.1 hsome
      exact ⟨old, hold, hfound old hold⟩
    · intro hnone
      rw [Option.isSome_map, Option.isSome_eq_false_iff, Option.isNone_iff_eq_none] at hnone
      obtain ⟨_, hdelete, -⟩ := Directory.writeTenant_runs hw
      have hnot := hcreated hdelete hnone
      refine ⟨fun heq => hnot (.inl heq), fun heq => hnot (.inr (.inl ⟨rfl, ?_⟩))⟩
      rw [heq, hsubject]
  | operators =>
    refine advances_writeOperator hw hfound fun hdelete hnone => ?_
    have hnot := hcreated hdelete hnone
    exact ⟨fun heq => hnot (.inl heq), fun heq => hnot (.inr (.inr ⟨rfl, heq⟩))⟩
  | roleBindings =>
    refine advances_writeBinding hw hfound fun hdelete hnone heq => ?_
    exact hcreated hdelete hnone (.inl heq)

variable {op : ConsoleOp}

/-- **One step** advances every row but those it creates. -/
theorem advances_step (hk : ¬ op.Creates c k) :
    Advances (c.row k) ((op.step platform validOrigin c).row k) := by
  -- a step of the store leaves the rows of the tenancy
  have hstore : ∀ {β : Type} (tx : StoreTx β), (∀ r out s', k = .resource r →
      Runs tx c.current out s' → Advances (c.current.versioned r) (s'.versioned r)) →
      Advances (c.row k) ((c.withStore (commit tx c.current).2).row k) := by
    intro β tx htx
    cases k with
    | resource r =>
      exact commit_induct (P := fun s : Store => Advances _ (s.versioned r)) (.refl _)
        fun out s' hrun => htx r out s' rfl hrun
    | tenant | operator | binding => exact .refl _
  cases op with
  | mutate order p m now =>
    refine hstore _ ?_
    rintro r out s' rfl hrun
    refine advances_mutate hrun fun ⟨hdelete, hkey, hnone⟩ => ?_
    exact hk ⟨hdelete, congrArg _ hkey, hnone⟩
  | mutateTenancy p m =>
    exact commit_induct (P := fun d => Advances (c.row k) (Console.row ⟨d, c.store⟩ k)) (.refl _)
      fun u d hrun => advances_mutateTenancy hrun hk
  | applyConfig order p expected candidate prune clock =>
    refine hstore _ ?_
    rintro r out s' rfl hrun
    refine advances_applyConfig hrun fun ⟨given, kind, id, hgiven, hid, hkey, hcond⟩ => ?_
    exact hk ⟨given, kind, id, hgiven, hid, congrArg _ hkey, hcond⟩

theorem row_of_mutates (hv : 0 < v) (ht : op.target = some (k, v))
    (h : op.mutates platform validOrigin c = true) : ∃ data, c.row k = some ⟨v, data⟩ := by
  cases op with
  | mutate order p m now =>
    cases ht
    obtain ⟨u, hrun⟩ := runs_of_isOk h
    obtain ⟨_, _, version, _, -, -, -, hversion, -⟩ := mutate_runs hrun
    rcases Mutation.version_ok hversion with ⟨-, hzero, -⟩ | ⟨r, hr, hexpected, -⟩
    · exact absurd hzero hv.ne'
    refine ⟨r.data, ?_⟩
    show Option.map _ (c.store.resources.lookup _) = _
    rw [show c.store.resources.lookup ⟨p.tenantID, m.kind, m.id⟩ = some r from hr, hexpected]
    rfl
  | mutateTenancy p m =>
    cases ht
    obtain ⟨u, hrun⟩ := runs_of_isOk h
    obtain ⟨current, _, _, version, _, _, -, -, hversion, -⟩ := Directory.mutateTenancy_runs hrun
    rw [versionOf_eq_row] at hversion
    rcases TenancyMutation.version_ok hversion with ⟨-, hzero⟩ | ⟨hfound, hexpected⟩
    · exact absurd hzero hv.ne'
    obtain ⟨row, hrow, rfl⟩ := Option.map_eq_some_iff.1 hfound
    refine ⟨row.data, ?_⟩
    -- the bootstrap claimant expects version 0
    have hno : (Option.map Versioned.version (c.row (m.key p))).any
        (c.directory.bootstrapResource current m) = false := by
      rw [hfound, Option.any_some, Directory.bootstrapResource, beq_eq_false_iff_ne.2 hv.ne']
      simp
    rw [hrow, hexpected hno]
  | applyConfig => cases ht

end Runs

/-- **No lost update**: a mutation that succeeds for a version that was read
before changes the data that was read. -/
def NoLostUpdate (platform : Platform) (validOrigin : String → Bool) (c : Console)
    (ops : List ConsoleOp) : Prop :=
  ∀ i j op k v data, i ≤ j → 0 < v →
    (c.after platform validOrigin (ops.take i)).row k = some ⟨v, data⟩ →
    ops[j]? = some op → op.target = some (k, v) →
    op.mutates platform validOrigin (c.after platform validOrigin (ops.take j)) = true →
    (c.after platform validOrigin (ops.take j)).row k = some ⟨v, data⟩

/-- No step of the run creates a row that was stored at an earlier moment. -/
def NeverRecreates (platform : Platform) (validOrigin : String → Bool) (c : Console)
    (ops : List ConsoleOp) : Prop :=
  ∀ n op k, ops[n]? = some op → op.Creates (c.after platform validOrigin (ops.take n)) k →
    ∀ m ≤ n, (c.after platform validOrigin (ops.take m)).row k = none

/-- Between two moments of a run that never creates a row anew, a row that is
stored at the first only advances. -/
theorem advances_after {platform : Platform} {c : Console} {ops : List ConsoleOp}
    (h : NeverRecreates platform validOrigin c ops) {i j : ℕ} (hij : i ≤ j) {k : RowKey}
    (hk : (c.after platform validOrigin (ops.take i)).row k ≠ none) :
    Advances ((c.after platform validOrigin (ops.take i)).row k)
      ((c.after platform validOrigin (ops.take j)).row k) := by
  induction j, hij using Nat.le_induction with
  | base => exact .refl _
  | succ j hij ih =>
    rcases run_take_succ_cases (ConsoleOp.step platform validOrigin) c ops j with
      hover | ⟨op, hop, hnext⟩
    · rw [show c.after platform validOrigin (ops.take (j + 1)) = _ from hover]
      exact ih
    · rw [show c.after platform validOrigin (ops.take (j + 1)) = _ from hnext]
      exact ih.trans (advances_step fun hcreates => hk (h j op k hop hcreates i hij))

/-- **Versions protect readers** in every run, from any console, that never
creates a row that was stored before. -/
theorem no_lost_update_of_never_recreates (platform : Platform) (validOrigin : String → Bool)
    (c : Console) (ops : List ConsoleOp) (h : NeverRecreates platform validOrigin c ops) :
    NoLostUpdate platform validOrigin c ops := by
  intro i j op k v data hij hv hread hop htarget hmutates
  obtain ⟨data', hfound⟩ := row_of_mutates hv htarget hmutates
  have hadv := advances_after h hij (by rw [hread]; exact Option.some_ne_none _)
  rw [hfound, hadv.data_eq hread hfound]

/-! ### A row that starts over -/

/-- A bootstrapped tenant without resources. -/
def ownedConsole : Console :=
  { directory := run (DirectoryOp.step fun _ => true) {}
      [.createBootstrap "t" "o" "h" ⟨0⟩, .consumeBootstrap "t" "h" ⟨1⟩] }

/-- The owner writes the connection `c` over a version. -/
def putConnection (expectedVersion : ℤ) (region : String) : ConsoleOp :=
  .mutate tableOrder ownerPrincipal
    { kind := .connections, id := "c", expectedVersion := expectedVersion,
      data := some { sampleConnection with region := region } } 0

def deleteConnection : ConsoleOp :=
  .mutate tableOrder ownerPrincipal
    { kind := .connections, id := "c", expectedVersion := 1, delete := true, data := none } 0

def connectionKey : RowKey := .resource ⟨"t", .connections, "c"⟩

/-- The version and the region of the connection at a moment of a run. -/
def connectionAt (ops : List ConsoleOp) (n : ℕ) : Option (ℤ × String) :=
  ((ownedConsole.after samplePlatform (fun _ => true) (ops.take n)).row connectionKey).map
    fun r => (r.version, ConnectionData.region r.data)

/-- The connection is deleted and created again between the read and the
mutation for the version that was read. -/
def recreatedConnection : List ConsoleOp :=
  [putConnection 0 "us", deleteConnection, putConnection 0 "eu", putConnection 1 "asia"]

theorem recreatedConnection_loses_update :
    ¬ NoLostUpdate samplePlatform (fun _ => true) ownedConsole recreatedConnection := by
  intro h
  have hread : connectionAt recreatedConnection 1 = some (1, "us") := by decide +kernel
  have hreplaced : connectionAt recreatedConnection 3 = some (1, "eu") := by decide +kernel
  obtain ⟨⟨v, data⟩, hrow, hpair⟩ := Option.map_eq_some_iff.1 hread
  obtain ⟨rfl, hregion⟩ := Prod.mk.inj hpair
  have hsame := h 1 3 (putConnection 1 "asia") connectionKey 1 data (by decide) (by decide) hrow
    rfl rfl (by decide +kernel)
  rw [connectionAt, hsame, Option.map_some] at hreplaced
  have hregion' : ConnectionData.region data = "eu" := (Prod.mk.inj (Option.some.inj hreplaced)).2
  exact absurd (hregion.symm.trans hregion') (by decide)

/-- The connection is changed twice. -/
def updatedConnection : List ConsoleOp := [putConnection 0 "us", putConnection 1 "eu"]

theorem updatedConnection_keeps_update :
    NoLostUpdate samplePlatform (fun _ => true) ownedConsole updatedConnection := by
  refine no_lost_update_of_never_recreates _ _ _ _ ?_
  intro n op k hop hcreates m hm
  match n, hop with
  | 0, hop =>
    cases hop
    obtain rfl : m = 0 := Nat.le_zero.1 hm
    exact hcreates.2.2
  | 1, hop =>
    -- the second step finds what the first has created
    cases hop
    obtain ⟨-, rfl, hnone⟩ := hcreates
    have hstored : (connectionAt updatedConnection 1).isSome = true := by decide +kernel
    rw [connectionAt, Option.isSome_map] at hstored
    obtain ⟨row, hrow⟩ := Option.isSome_iff_exists.1 hstored
    exact absurd (hrow.symm.trans hnone) (Option.some_ne_none row)
  | n + 2, hop => cases hop

end Hoorific
