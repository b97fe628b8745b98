/-
Configured limits stay enforced.  The `policy_limits` rows are a projection
of the `policy_limits` resources, kept up by the side effects of single
changes: a change deletes every row of the scope the resource had, and
writes the rows of the scope it gets.  As long as the resources a change
touches share their scope with no other resource (or are at least as
strict as the others of it), every positive maximum of every stored
resource has a row that is as strict.  Two resources of one scope show
that without the condition a limit is lost.
-/
import Hoorific.Store.Configure

namespace Hoorific

open List Tx Table

/-! ### Limits and their rows -/

namespace PolicyLimitData

/-- Two limits are about the same scope. -/
def SameScope (a b : PolicyLimitData) : Prop := a.scope = b.scope ∧ a.scopeID = b.scopeID

instance (a b : PolicyLimitData) : Decidable (a.SameScope b) := by
  unfold SameScope
  infer_instance

/-- Where both limit the same thing, `a` is at least as strict as `b`. -/
def Within (a b : PolicyLimitData) : Prop :=
  ∀ d ∈ a.dimensions, ∀ d' ∈ b.dimensions, d.kind = d'.kind → 0 < d.maximum → 0 < d'.maximum →
    d.maximum ≤ d'.maximum

end PolicyLimitData

/-- Every positive maximum of the limit has a row that is as strict. -/
def Covers (rows : Table AllowanceKey PolicyLimitRow) (tenant : String)
    (limit : PolicyLimitData) : Prop :=
  ∀ d ∈ limit.dimensions, 0 < d.maximum → ∃ k row, rows.lookup k = some row ∧
    k.tenantID = tenant ∧ k.scopeKind = limit.scope ∧ k.scopeID = limit.scopeID ∧
    k.kind = d.kind ∧ row.maximum ≤ d.maximum

/-- Every stored limit is enforced. -/
def Store.Enforced (s : Store) : Prop :=
  ∀ tenant id limit, s.datum tenant .policyLimits id = some limit →
    Covers s.policyLimits tenant limit

variable {s s' : Store} {tenant : String} {now : ℤ}

/-! ### The rows after a synchronization -/

/-- One dimension: a positive maximum is written to its row. -/
theorem syncDimension_policyLimits (tenant : String) (limit : PolicyLimitData) (now : ℤ)
    (s : Store) (d : Dimension) :
    (d.maximum ≤ 0 ∧ (syncDimension tenant limit now s d).policyLimits = s.policyLimits) ∨
      (0 < d.maximum ∧ ∃ row : PolicyLimitRow, row.maximum = d.maximum ∧
        (syncDimension tenant limit now s d).policyLimits =
          s.policyLimits.insert (d.key tenant limit now) row) := by
  unfold syncDimension
  split
  next h => exact .inl ⟨h, rfl⟩
  next h =>
    refine .inr ⟨not_le.1 h, ?_⟩
    rw [openAllowance_policyLimits]
    split <;> exact ⟨_, rfl, rfl⟩

variable {k : AllowanceKey} {row : PolicyLimitRow} {id : String} {next : Option PolicyLimitData}
  {version : ℤ} {platform : Platform} {order : MapOrder} {p : Principal} {clock : String → ℤ}

/-- A row survives a synchronization, or one of the new dimensions is written to it. -/
theorem syncDimensions_kept (tenant : String) (limit : PolicyLimitData) (now : ℤ)
    (ds : List Dimension) (s : Store) (hrow : s.policyLimits.lookup k = some row) :
    ∃ row', (ds.foldl (syncDimension tenant limit now) s).policyLimits.lookup k = some row' ∧
      (row' = row ∨ ∃ d ∈ ds, 0 < d.maximum ∧ k = d.key tenant limit now ∧
        row'.maximum = d.maximum) := by
  induction ds generalizing s row with
  | nil => exact ⟨row, hrow, .inl rfl⟩
  | cons d ds ih =>
    obtain ⟨now', hnow, hfirst⟩ : ∃ now', (syncDimension tenant limit now s d).policyLimits.lookup k
        = some now' ∧ (now' = row ∨ 0 < d.maximum ∧ k = d.key tenant limit now ∧
          now'.maximum = d.maximum) := by
      rcases syncDimension_policyLimits tenant limit now s d with ⟨-, hsame⟩ | ⟨hpos, new, hmax, hins⟩
      · exact ⟨row, hsame ▸ hrow, .inl rfl⟩
      by_cases hk : k = d.key tenant limit now
      · exact ⟨new, by rw [hins, hk, AList.lookup_insert], .inr ⟨hpos, hk, hmax⟩⟩
      · exact ⟨row, by rw [hins, AList.lookup_insert_ne hk, hrow], .inl rfl⟩
    -- a row that is overwritten here may be overwritten once more
    obtain ⟨row', hrow', rfl | ⟨d', hd', hrest⟩⟩ := ih _ hnow
    · exact ⟨row', hrow', hfirst.imp_right fun h => ⟨d, mem_cons_self, h⟩⟩
    · exact ⟨row', hrow', .inr ⟨d', mem_cons_of_mem d hd', hrest⟩⟩

/-- A positive maximum is in its row at the end, when the dimensions count
different things. -/
theorem syncDimensions_written (tenant : String) (limit : PolicyLimitData) (now : ℤ)
    (ds : List Dimension) (s : Store) (hkinds : (ds.map Dimension.kind).Nodup) {d : Dimension}
    (hd : d ∈ ds) (hpos : 0 < d.maximum) :
    ∃ row, (ds.foldl (syncDimension tenant limit now) s).policyLimits.lookup
      (d.key tenant limit now) = some row ∧ row.maximum = d.maximum := by
  induction ds generalizing s with
  | nil => cases hd
  | cons d₀ ds ih =>
    rw [map_cons, nodup_cons] at hkinds
    rcases mem_cons.1 hd with rfl | hd
    · rcases syncDimension_policyLimits tenant limit now s d with ⟨hle, -⟩ | ⟨-, new, hmax, hins⟩
      · exact absurd hpos (not_lt.2 hle)
      · have hnow : (syncDimension tenant limit now s d).policyLimits.lookup
            (d.key tenant limit now) = some new := by
          rw [hins, AList.lookup_insert]
        obtain ⟨row', hrow', rfl | ⟨d', hd', -, hkey, -⟩⟩ :=
          syncDimensions_kept tenant limit now ds _ hnow
        · exact ⟨row', hrow', hmax⟩
        -- no later dimension counts the same thing
        have hkind : d.kind = d'.kind := congrArg AllowanceKey.kind hkey
        exact absurd (mem_map.2 ⟨d', hd', hkind.symm⟩) hkinds.1
    · exact ih _ hkinds.2 hd

/-- Rows outside the old scope survive. -/
theorem unsynced_kept (hrow : s.policyLimits.lookup k = some row)
    (hold : k.tenantID = tenant → ∀ old, s.datum tenant .policyLimits id = some old →
      ¬ (PolicyLimitData.scope old = k.scopeKind ∧ PolicyLimitData.scopeID old = k.scopeID)) :
    (s.unsynced tenant id).policyLimits.lookup k = some row := by
  unfold Store.unsynced
  split
  · exact hrow
  next old hdatum =>
    split
    · exact hrow
    refine lookup_deleteWhere_iff.2 ⟨hrow, ?_⟩
    simp only [Bool.and_eq_false_iff, beq_eq_false_iff_ne]
    by_contra hall
    push Not at hall
    obtain ⟨⟨ht, hscope⟩, hid⟩ := hall
    exact hold ht old hdatum ⟨hscope.symm, hid.symm⟩

theorem covers_synced (s : Store) (tenant id : String) (limit : PolicyLimitData) (now : ℤ) :
    Covers (s.synced tenant id (some limit) now).policyLimits tenant limit := by
  intro d hd hpos
  obtain ⟨row, hrow, hmax⟩ := syncDimensions_written tenant limit now limit.dimensions
    (s.unsynced tenant id) (by simp [PolicyLimitData.dimensions]) hd hpos
  exact ⟨d.key tenant limit now, row, hrow, rfl, rfl, rfl, rfl, le_of_eq hmax⟩

/-- Another limit stays enforced, if it is of another scope than the old
limit, and the new one is as strict where they share theirs. -/
theorem Covers.synced {t : String} {other : PolicyLimitData} (h : Covers s.policyLimits t other)
    (hold : t = tenant → ∀ old, s.datum tenant .policyLimits id = some old →
      ¬ PolicyLimitData.SameScope old other)
    (hnext : t = tenant → ∀ limit, next = some limit → limit.SameScope other →
      limit.Within other) :
    Covers (s.synced tenant id next now).policyLimits t other := by
  intro d hd hpos
  obtain ⟨k, row, hrow, htenant, hscope, hid, hkind, hmax⟩ := h d hd hpos
  have hkept : (s.unsynced tenant id).policyLimits.lookup k = some row := by
    refine unsynced_kept hrow fun ht old hdatum hsame => ?_
    exact hold (htenant.symm.trans ht) old hdatum ⟨hsame.1.trans hscope, hsame.2.trans hid⟩
  rcases next with - | limit
  · exact ⟨k, row, hkept, htenant, hscope, hid, hkind, hmax⟩
  obtain ⟨row', hrow', rfl | ⟨d', hd', hpos', hkey, hmax'⟩⟩ :=
    syncDimensions_kept tenant limit now limit.dimensions _ hkept
  · exact ⟨k, row', hrow', htenant, hscope, hid, hkind, hmax⟩
  -- the row is overwritten by the new limit, which is of the same scope
  refine ⟨k, row', hrow', htenant, hscope, hid, hkind, ?_⟩
  have ht : t = tenant := htenant.symm.trans (congrArg AllowanceKey.tenantID hkey)
  have hsame : limit.SameScope other :=
    ⟨(congrArg AllowanceKey.scopeKind hkey).symm.trans hscope,
      (congrArg AllowanceKey.scopeID hkey).symm.trans hid⟩
  have hkinds : d'.kind = d.kind := (congrArg AllowanceKey.kind hkey).symm.trans hkind
  rw [hmax']
  exact hnext ht limit rfl hsame d' hd' d hd hkinds hpos' hpos

/-! ### The condition on changes -/

/-- The changed limits do not take rows from the others: with a resource that
is stored or changed along with it, no changed resource shares its old
scope, and if it shares its new one it is at least as strict.  A change
without data is a deletion. -/
def Unshared (s : Store) (tenant : String) (changes : List (String × Option PolicyLimitData)) :
    Prop :=
  ∀ c ∈ changes, ∀ id (other : PolicyLimitData), id ≠ c.1 →
    (s.datum tenant .policyLimits id = some other ∨ (id, some other) ∈ changes) →
      (∀ old : PolicyLimitData, s.datum tenant .policyLimits c.1 = some old →
        ¬ old.SameScope other) ∧
      (∀ next, c.2 = some next → next.SameScope other → next.Within other)

/-- The limit a mutation changes, if it is about one. -/
def Mutation.limitChange : Mutation → Option (String × Option PolicyLimitData)
  | ⟨.policyLimits, id, _, delete, data⟩ => some (id, if delete then none else data)
  | ⟨.connections, _, _, _, _⟩ | ⟨.models, _, _, _, _⟩ | ⟨.modelAliases, _, _, _, _⟩
  | ⟨.routePolicies, _, _, _, _⟩ | ⟨.accountPools, _, _, _, _⟩ | ⟨.prices, _, _, _, _⟩
  | ⟨.apiKeys, _, _, _, _⟩ => none

/-- What has to hold when the configuration is changed. -/
def LimitStep (s : Store) : ConfigOp → Prop
  | .mutate _ p m _ => ∀ c, m.limitChange = some c → Unshared s p.tenantID [c]
  | .apply _ p _ candidate prune _ => ∀ c : Candidate, candidate = some c →
      Unshared (if prune = true then s.prune p.tenantID else s) p.tenantID
        (c.policyLimits.entries.map fun e => (e.1, e.2))
  | .background _ => True

/-! ### One change -/

theorem Store.Enforced.changed (h : s.Enforced) (hshare : Unshared s tenant [(id, next)]) :
    ((s.synced tenant id next now).writeResource ⟨tenant, .policyLimits, id⟩ version next).Enforced
      := by
  intro t id' limit hdatum
  have hrows : ((s.synced tenant id next now).writeResource ⟨tenant, .policyLimits, id⟩ version
      next).policyLimits = (s.synced tenant id next now).policyLimits := by
    rcases next with - | x <;> rfl
  rw [hrows]
  rcases writeResource_datum_iff.1 hdatum with ⟨rfl, rfl, hnew⟩ | ⟨hne, hold⟩
  · obtain rfl : next = some limit := hnew
    exact covers_synced s t id' limit now
  rw [(policyOnly_synced s tenant id next now).tablesOnly.datum] at hold
  have hothers := fun ht : t = tenant => hshare (id, next) mem_cons_self id' limit
    (fun he => hne ⟨ht, he⟩) (.inl (ht ▸ hold))
  exact (h t id' limit hold).synced (fun ht => (hothers ht).1) fun ht => (hothers ht).2

theorem Store.Enforced.wrote (h : s.Enforced) {k : ResourceKey} (hkind : k.kind ≠ .policyLimits)
    (hrows : s'.policyLimits = s.policyLimits) (htables : TablesOnly s s')
    {next : Option k.kind.Data} : (s'.writeResource k version next).Enforced := by
  intro t id limit hdatum
  rw [writeResource_datum_ne hkind.symm, htables.datum] at hdatum
  have hsame : (s'.writeResource k version next).policyLimits = s.policyLimits := by
    rw [← hrows]
    rcases next with - | x <;> rfl
  rw [hsame]
  exact h t id limit hdatum

theorem Store.Enforced.bumpRevision (h : s.Enforced) : s.bumpRevision.Enforced := h

/-- A deletion of everything leaves the other tenants' limits. -/
theorem Store.Enforced.prune (h : s.Enforced) (tenant : String) : (s.prune tenant).Enforced := by
  intro t id limit hdatum d hd hpos
  obtain ⟨hkept, hkeep⟩ := prune_datum_iff.1 hdatum
  have ht : t ≠ tenant := fun he => hkeep ⟨he, rfl⟩
  obtain ⟨k, row, hrow, htenant, hrest⟩ := h t id limit hkept d hd hpos
  refine ⟨k, row, lookup_deleteWhere_iff.2 ⟨hrow, ?_⟩, htenant, hrest⟩
  rw [htenant]
  exact beq_eq_false_iff_ne.2 ht

/-- **A mutation** that meets the condition keeps the limits enforced. -/
theorem Store.Enforced.mutate {m : Mutation} {u : Unit} (h : s.Enforced)
    (hshare : ∀ c, m.limitChange = some c → Unshared s p.tenantID [c])
    (hrun : Runs (Hoorific.mutate platform order p m now) s u s') : s'.Enforced := by
  obtain ⟨data, current, version, s₁, -, hdata, htenant, -, -, hsync, htables, -, rfl⟩ :=
    mutate_runs hrun
  rcases m with ⟨kind, id, expected, delete, submitted⟩
  cases kind with
  | policyLimits =>
    obtain rfl := syncPolicyLimit_eq hsync
    have hchange : data = if delete = true then none else submitted := by
      rcases validated_ok hdata with ⟨hdel, rfl⟩ | ⟨x, hdel, hx, -, rfl⟩
      · exact (if_pos hdel).symm
      · rw [if_neg (Bool.eq_false_iff.1 hdel)]
        exact hx.symm
    subst hchange
    rw [htenant]
    exact h.changed (hshare _ rfl)
  | apiKeys =>
    have hlimits : s₁.policyLimits = s.policyLimits := by rw [syncKeyMetadataTx_runs hsync]
    exact h.wrote (by simp) hlimits htables
  | connections | models | modelAliases | routePolicies | accountPools | prices =>
    obtain ⟨-, rfl⟩ := hsync
    exact h.wrote (by simp) rfl htables

/-! ### A whole configuration -/

/-- What is known while the items of a candidate are written one after the
other: `done` are the limits written so far. -/
structure Applying (s₀ t : Store) (tenant : String) (done : List (String × PolicyLimitData)) :
    Prop where
  enforced : t.Enforced
  origin : ∀ id limit, t.datum tenant .policyLimits id = some limit →
    s₀.datum tenant .policyLimits id = some limit ∨ (id, limit) ∈ done
  untouched : ∀ id, id ∉ done.map Prod.fst →
    t.datum tenant .policyLimits id = s₀.datum tenant .policyLimits id

theorem Applying.item {s₀ t : Store} {done : List (String × PolicyLimitData)}
    {changes : List (String × Option PolicyLimitData)} {it : ConfigItem}
    (h : Applying s₀ t tenant done) (hshare : Unshared s₀ tenant changes)
    (hdone : ∀ c ∈ done ++ it.limit.toList, (c.1, some c.2) ∈ changes)
    (hfresh : ∀ c ∈ it.limit.toList, c.1 ∉ done.map Prod.fst) :
    Applying s₀ ((t.syncedWith tenant clock it).writeResource ⟨tenant, it.kind, it.id⟩ version
      (some it.data)) tenant (done ++ it.limit.toList) := by
  rcases it with ⟨kind, id, data⟩
  by_cases hkind : kind = .policyLimits
  · subst hkind
    let new : String × PolicyLimitData := (id, data)
    have hnew : new ∈ done ++ [new] := mem_append_right _ mem_cons_self
    have hsame : t.datum tenant .policyLimits id = s₀.datum tenant .policyLimits id :=
      h.untouched id (hfresh (id, data) mem_cons_self)
    refine ⟨?_, ?_, ?_⟩
    · -- what the item shares is what the candidate shares
      show ((t.synced tenant id (some data) (clock id)).writeResource
        ⟨tenant, .policyLimits, id⟩ version (some data)).Enforced
      apply h.enforced.changed
      intro c hc id' other hne hother
      obtain rfl := mem_singleton.1 hc
      have hpresent : s₀.datum tenant .policyLimits id' = some other ∨
          (id', some other) ∈ changes := by
        rcases hother with hstored | hlisted
        · rcases h.origin id' other hstored with hold | hwritten
          · exact .inl hold
          · exact .inr (hdone _ (mem_append_left _ hwritten))
        · cases mem_singleton.1 hlisted
          exact absurd rfl hne
      obtain ⟨hold, hnext⟩ := hshare (id, some data) (hdone _ hnew) id' other hne hpresent
      exact ⟨fun old hdat => hold old (hsame ▸ hdat), hnext⟩
    · intro id' limit hdatum
      rcases writeResource_datum_iff.1 hdatum with ⟨-, rfl, hx⟩ | ⟨-, hold⟩
      · cases hx
        exact .inr hnew
      · rw [(syncedWith_tablesOnly t tenant clock _).datum] at hold
        exact (h.origin id' limit hold).imp_right (mem_append_left _)
    · intro id' hid'
      simp only [ConfigItem.limit, Option.toList_some, map_append, map_cons,
        map_nil, mem_append, mem_singleton, not_or] at hid'
      rw [← h.untouched id' hid'.1]
      ext limit
      rw [writeResource_datum_iff, (syncedWith_tablesOnly t tenant clock _).datum]
      constructor
      · rintro (⟨-, he, -⟩ | ⟨-, hold⟩)
        · exact absurd he hid'.2
        · exact hold
      · exact fun hold => .inr ⟨fun he => hid'.2 he.2, hold⟩
  · -- an item that is no limit
    have hnone : ConfigItem.limit ⟨kind, id, data⟩ = none := by
      cases kind <;> first | rfl | exact absurd rfl hkind
    have hsync : t.syncedWith tenant clock ⟨kind, id, data⟩ = t := by
      rw [Store.syncedWith, hnone]
    have hdatum : ∀ id', (t.writeResource ⟨tenant, kind, id⟩ version (some data)).datum tenant
        .policyLimits id' = t.datum tenant .policyLimits id' := fun id' =>
      writeResource_datum_ne (Ne.symm hkind)
    rw [hsync, hnone, Option.toList_none, append_nil]
    refine ⟨h.enforced.wrote hkind rfl (.refl t), ?_, ?_⟩
    · intro id' limit hd
      exact h.origin id' limit ((hdatum id').symm.trans hd)
    · intro id' hid'
      exact (hdatum id').trans (h.untouched id' hid')

theorem limits_sublist (l : List ((_ : String) × Option PolicyLimitData)) :
    ((l.filterMap fun e => e.2.map fun data => (e.1, data)).map Prod.fst).Sublist
      (l.map Sigma.fst) := by
  induction l with
  | nil => exact List.Sublist.refl _
  | cons e l ih =>
    rcases e with ⟨id, - | data⟩
    · exact ih.cons id
    · exact ih.cons_cons id

/-- **A configuration** that meets the condition keeps the limits enforced. -/
theorem Store.Enforced.apply {expected out : ℤ} {candidate : Option Candidate} {prune : Bool}
    (h : s.Enforced) (hshare : ∀ c : Candidate, candidate = some c →
      Unshared (if prune = true then s.prune p.tenantID else s) p.tenantID
        (c.policyLimits.entries.map fun e => (e.1, e.2)))
    (hrun : Runs (applyConfig platform order p expected candidate prune clock) s out s') :
    s'.Enforced := by
  obtain ⟨c, items, s₁, rfl, hitems, hloop, -, rfl⟩ := applyConfig_runs hrun
  have hchanges := hshare c rfl
  obtain ⟨-, hlimits⟩ := items_ok hitems
  generalize hs₀ : (if prune = true then s.prune p.tenantID else s) = s₀ at hloop hchanges
  have h₀ : s₀.Enforced := by
    rw [← hs₀]
    split
    · exact h.prune p.tenantID
    · exact h
  -- the limits of a candidate have different ids, and come from its map
  have hids : ((items.filterMap ConfigItem.limit).map Prod.fst).Nodup := by
    rw [hlimits]
    exact c.policyLimits.keys_nodup.sublist (limits_sublist c.policyLimits.entries)
  have hmem : ∀ x ∈ items.filterMap ConfigItem.limit,
      (x.1, some x.2) ∈ c.policyLimits.entries.map fun e => (e.1, e.2) := by
    rw [hlimits]
    intro x hx
    obtain ⟨e, he, hdata⟩ := mem_filterMap.1 hx
    obtain ⟨data, hd, rfl⟩ := Option.map_eq_some_iff.1 hdata
    exact mem_map.2 ⟨e, he, by rw [hd]⟩
  have key := runs_forM_induct
    (fun done t => Applying s₀ t p.tenantID (done.filterMap ConfigItem.limit)) hloop
    ⟨h₀, fun id limit hd => .inl hd, fun id _ => rfl⟩ ?_
  · exact Store.Enforced.bumpRevision key.enforced
  · intro done it t v t' hpre hP hitem
    obtain rfl := applyItem_runs hitem
    obtain ⟨rest, hsplit⟩ := hpre
    have hall : items.filterMap ConfigItem.limit = done.filterMap ConfigItem.limit ++
        (it.limit.toList ++ rest.filterMap ConfigItem.limit) := by
      rw [← hsplit, filterMap_append, filterMap_append, append_assoc]
      congr 2
    have hsofar : (done ++ [it]).filterMap ConfigItem.limit =
        done.filterMap ConfigItem.limit ++ it.limit.toList := by
      rw [filterMap_append]
      congr 1
    rw [hsofar]
    refine hP.item hchanges ?_ ?_
    · intro x hx
      apply hmem
      rw [hall, ← append_assoc]
      exact mem_append_left _ hx
    · intro x hx hdup
      rw [hall, map_append, nodup_append] at hids
      exact hids.2.2 x.1 hdup x.1 (mem_map.2 ⟨x, mem_append_left _ hx, rfl⟩) rfl

/-! ### Runs -/

theorem Store.Enforced.background (h : s.Enforced) (other : Store) :
    (s.background other).Enforced := by
  intro t id limit hdatum
  rw [Store.datum, background_resource rfl] at hdatum
  exact h t id limit hdatum

/-- **Every step that meets the condition keeps the limits enforced.** -/
theorem Store.Enforced.step (h : s.Enforced) {op : ConfigOp} (hop : LimitStep s op) :
    (op.step platform s).Enforced := by
  cases op with
  | mutate order p m now =>
    exact commit_induct (P := Store.Enforced) h fun _ _ hrun => h.mutate hop hrun
  | apply order p expected candidate prune clock =>
    exact commit_induct (P := Store.Enforced) h fun _ _ hrun => h.apply hop hrun
  | background other => exact h.background other

/-- **Configured limits stay enforced**, in every run whose changes meet the
condition: for every positive maximum of every stored limit there is a row
of the same tenant, scope and kind that is at most as large. -/
theorem configured_limits_enforced (platform : Platform) (ops : List ConfigOp)
    (h : Along (ConfigOp.step platform) LimitStep {} ops) :
    (configuredBy platform ops).Enforced := by
  refine run_inv (fun s op hs hop => hs.step hop) ?_ h
  intro t id limit hdatum
  cases hdatum

theorem unshared_of_only (h : ∀ e ∈ s.limits tenant, e.1 = id) :
    Unshared s tenant [(id, next)] := by
  intro c hc id' other hne hother
  obtain rfl := mem_singleton.1 hc
  rcases hother with hstored | hlisted
  · exact absurd (h (id', other) (mem_dataOf.2 hstored)) hne
  · cases mem_singleton.1 hlisted
    exact absurd rfl hne

/-- Limits of the tenant on requests and on concurrency. -/
def requestLimit (n : ℤ) : PolicyLimitData :=
  { scope := .tenant, scopeID := "t", requestsPerMinute := n }

def concurrencyLimit (n : ℤ) : PolicyLimitData :=
  { scope := .tenant, scopeID := "t", concurrency := n }

/-- A limit is created and then tightened. -/
def tightened : List ConfigOp :=
  [.background ownedTenant, ownerPut .policyLimits "a" 0 (requestLimit 10),
   ownerPut .policyLimits "a" 1 (requestLimit 5)]

theorem tightened_limit_enforced :
    (configuredBy samplePlatform tightened).datum "t" .policyLimits "a" = some (requestLimit 5) ∧
      (configuredBy samplePlatform tightened).Enforced := by
  refine ⟨rfl, configured_limits_enforced samplePlatform tightened ⟨trivial, ?_, ?_, trivial⟩⟩
  all_goals
    rintro c ⟨⟩
    exact unshared_of_only (by decide)

/-- Two limits of one scope: the second, looser one is written over the first;
and when a limit of something else is deleted, the first loses its row. -/
theorem shared_scope_loses_limit :
    (∃ s, s = configuredBy samplePlatform [.background ownedTenant,
        ownerPut .policyLimits "a" 0 (requestLimit 10),
        ownerPut .policyLimits "b" 0 (requestLimit 20)] ∧
      s.datum "t" .policyLimits "a" = some (requestLimit 10) ∧ ¬ s.Enforced) ∧
    (∃ s, s = configuredBy samplePlatform [.background ownedTenant,
        ownerPut .policyLimits "a" 0 (requestLimit 10),
        ownerPut .policyLimits "b" 0 (concurrencyLimit 3), ownerDelete .policyLimits "b" 1] ∧
      s.datum "t" .policyLimits "a" = some (requestLimit 10) ∧ ¬ s.Enforced) := by
  have hlost : ∀ s : Store, s.datum "t" .policyLimits "a" = some (requestLimit 10) →
      (∀ row ∈ Table.rows s.policyLimits, 10 < row.maximum) → ¬ s.Enforced := by
    intro s hdatum hrows henforced
    obtain ⟨k, row, hrow, -, -, -, -, hmax⟩ := henforced "t" "a" _ hdatum
      ⟨.requests, 10, .minute⟩ (by decide) (by decide)
    exact absurd hmax (not_le.2 (hrows row (mem_rows_iff.2 ⟨k, hrow⟩)))
  refine ⟨⟨_, rfl, rfl, ?_⟩, ⟨_, rfl, rfl, ?_⟩⟩
  all_goals
    exact hlost _ rfl (by decide)

end Hoorific
