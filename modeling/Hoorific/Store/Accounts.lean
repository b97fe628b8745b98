/-
The account of a connection over runs of configuration changes.  `Mutate`
compares the texts of the identity members of the stored and the new data,
so an update through it keeps the account (`mutate_sameAccounts`).
`ApplyConfig` writes the connections of its candidate as they come, so it
keeps the accounts exactly if the candidate does
(`applyConfig_sameAccounts_iff`).
-/
import Hoorific.Store.Accepted

namespace Hoorific

open Tx Table

/-! ### Accounts -/

/-- The account of a connection of a tenant. -/
def Store.account (s : Store) (tenant id : String) : Option String :=
  (s.connection tenant id).map ConnectionData.accountID

/-- No connection has another account in `s'` than in `s`. -/
def SameAccounts (s s' : Store) : Prop :=
  ∀ tenant id a b, s.account tenant id = some a → s'.account tenant id = some b → a = b

/-- **A connection keeps its account**: between any two states of the run
between which it exists all the time. -/
def AccountsKept (platform : Platform) (ops : List ConfigOp) : Prop :=
  ∀ tenant id, Steady (ConfigOp.step platform) (Store.account · tenant id) {} ops

/-- The account was decoded from the member `account_id`, if the text of that
member is the text of a string. -/
def ConnectionData.Decoded (platform : Platform) (c : ConnectionData) : Prop :=
  ∀ account, c.identity.lookup "account_id" = some (platform.marshal account) →
    c.accountID = account

/-- The text of a marshalled string: never empty, and different for different
strings. -/
structure Platform.Marshals (platform : Platform) : Prop where
  injective : Function.Injective platform.marshal
  nonempty : ∀ text, platform.marshal text ≠ ""

/-- The connections of a candidate were decoded. -/
def ConfigOp.Decoded (platform : Platform) : ConfigOp → Prop
  | .apply _ _ _ (some candidate) _ _ => ∀ id c, candidate.connections.lookup id = some (some c) →
      c.Decoded platform
  | .apply _ _ _ none _ _ | .mutate _ _ _ _ | .background _ => True

/-- A candidate gives every connection the tenant has the account it is stored
with. -/
def ConfigOp.KeepsAccounts (s : Store) : ConfigOp → Prop
  | .apply _ p _ (some candidate) _ _ => ∀ id old next, s.connection p.tenantID id = some old →
      candidate.connections.lookup id = some (some next) → next.accountID = old.accountID
  | .apply _ _ _ none _ _ | .mutate _ _ _ _ | .background _ => True

/-- The call does not fail. -/
def ConfigOp.succeeds (platform : Platform) (s : Store) : ConfigOp → Bool
  | .mutate order p m now => (commit (Hoorific.mutate platform order p m now) s).1.isOk
  | .apply order p expected candidate prune clock =>
    (commit (applyConfig platform order p expected candidate prune clock) s).1.isOk
  | .background _ => true

variable {platform : Platform} {order : MapOrder} {s s' : Store} {tenant id : String}

theorem account_eq_some {a : String} :
    s.account tenant id = some a ↔ ∃ c, s.connection tenant id = some c ∧ c.accountID = a :=
  Option.map_eq_some_iff

theorem SameAccounts.refl (s : Store) : SameAccounts s s :=
  fun _ _ _ _ ha hb => Option.some.inj (ha.symm.trans hb)

theorem sameAccounts_of_eq (h : ∀ tenant id, s'.connection tenant id = s.connection tenant id) :
    SameAccounts s s' := by
  intro tenant id a b ha hb
  rw [Store.account, h] at hb
  exact Option.some.inj (ha.symm.trans hb)

/-! ### `Mutate` -/

/-- Data that passes the identity check of a connection whose account was
decoded has that account. -/
theorem accountID_of_identity {old next : ConnectionData} (hmarshal : platform.Marshals)
    (hold : old.Decoded platform)
    (h : preserveIdentity old (ResourceKind.marshalled platform .connections next) = .ok ()) :
    old.accountID = next.accountID := by
  unfold preserveIdentity at h
  rw [Check.require_ok, List.all_eq_true] at h
  have hmember : (old.identity.lookup "account_id").getD "" = platform.marshal next.accountID :=
    beq_iff_eq.1 (h "account_id" (by decide))
  rcases hlookup : old.identity.lookup "account_id" with - | text <;> rw [hlookup] at hmember
  · exact absurd hmember.symm (hmarshal.nonempty _)
  · exact hold _ (hlookup.trans (congrArg some hmember))

/-- The stored connections of every tenant were decoded. -/
def Store.Decoded (platform : Platform) (s : Store) : Prop :=
  ∀ tenant id c, s.connection tenant id = some c → c.Decoded platform

variable {p : Principal}

/-- **`Mutate` keeps the accounts.** -/
theorem mutate_sameAccounts {m : Mutation} {now : ℤ} {u : Unit}
    (hmarshal : platform.Marshals) (hs : s.Decoded platform)
    (h : Runs (mutate platform order p m now) s u s') : SameAccounts s s' := by
  obtain ⟨data, current, version, s₁, -, hdata, -, -, hidentity, -, htables, -, rfl⟩ :=
    mutate_runs h
  rcases m with ⟨kind, id, expectedVersion, delete, submitted⟩
  intro tenant id' a b ha hb
  obtain ⟨old, hold, rfl⟩ := account_eq_some.1 ha
  obtain ⟨next, hnext, rfl⟩ := account_eq_some.1 hb
  have hold₁ : s₁.connection tenant id' = some old := (htables.datum .connections id').trans hold
  -- only the update of this very connection is of interest
  by_cases hkind : kind = .connections
  · subst hkind
    rcases writeResource_datum_iff.1 hnext with ⟨rfl, rfl, rfl⟩ | ⟨-, hkept⟩
    · rcases validated_ok hdata with ⟨-, hnone⟩ | ⟨x, -, -, -, hx⟩
      · cases hnone
      · cases hx
        obtain ⟨r, hr, rfl⟩ := Option.map_eq_some_iff.1 hold
        rw [hr] at hidentity
        exact accountID_of_identity hmarshal (hs _ _ _ hold) hidentity
    · exact congrArg ConnectionData.accountID (Option.some.inj (hold₁.symm.trans hkept))
  · have hkept : s₁.connection tenant id' = some next :=
      (writeResource_datum_ne (Ne.symm hkind)).symm.trans hnext
    exact congrArg ConnectionData.accountID (Option.some.inj (hold₁.symm.trans hkept))

/-! ### `ApplyConfig` -/

theorem mem_checkItems {kind : ResourceKind} {l : List ((_ : String) × Option kind.Data)}
    {out : List ConfigItem} (h : l.mapM (checkItem platform kind) = .ok out) {x : kind.Data} :
    (⟨kind, id, x⟩ : ConfigItem) ∈ out ↔ ⟨id, some x⟩ ∈ l := by
  rw [Check.mapM_ok] at h
  induction h with
  | nil => exact ⟨nofun, nofun⟩
  | @cons e _ _ _ hab _ ih =>
    obtain ⟨-, y, hy, -, rfl⟩ := checkItem_ok hab
    rcases e with ⟨id', data⟩
    obtain rfl : data = some y := hy
    simp only [List.mem_cons, ih, ConfigItem.mk.injEq, Sigma.mk.injEq, heq_eq_eq, true_and,
      Option.some.injEq]

variable {c : Candidate}

theorem mem_items_connections {items : List ConfigItem}
    (h : c.items platform = .ok items) {next : ConnectionData} :
    (⟨.connections, id, next⟩ : ConfigItem) ∈ items ↔
      c.connections.lookup id = some (some next) := by
  simp only [Candidate.items, Check.bind_ok, Check.pure_ok] at h
  obtain ⟨l₁, h₁, l₂, h₂, l₃, h₃, l₄, h₄, l₅, h₅, l₆, h₆, l₇, h₇, rfl⟩ := h
  have hother : ∀ {kind : ResourceKind} {l : List ((_ : String) × Option kind.Data)} {out},
      kind ≠ .connections → l.mapM (checkItem platform kind) = .ok out →
      (⟨.connections, id, next⟩ : ConfigItem) ∉ out := fun hkind hl hmem =>
    hkind (checkItems_ok hl _ hmem).1.symm
  simp only [List.mem_append, hother (by decide) h₂, hother (by decide) h₃,
    hother (by decide) h₄, hother (by decide) h₅, hother (by decide) h₆, hother (by decide) h₇,
    or_false]
  exact (mem_checkItems h₁).trans mem_entries_iff

variable {clock : String → ℤ}

/-- The connections among the items written so far are stored. -/
theorem applyItems_connection {items : List ConfigItem}
    {u : Unit} (hitems : c.items platform = .ok items)
    (h : Runs (forM items (applyItem tenant clock)) s u s') {next : ConnectionData}
    (hnext : c.connections.lookup id = some (some next)) :
    s'.connection tenant id = some next := by
  refine runs_forM_induct (fun done t => (⟨.connections, id, next⟩ : ConfigItem) ∈ done →
    t.connection tenant id = some next) h nofun ?_
    ((mem_items_connections hitems).2 hnext)
  intro done it t v t' hpre hP hitem hmem
  obtain rfl := applyItem_runs hitem
  have htables := syncedWith_tablesOnly t tenant clock it
  by_cases hsame : it.kind = .connections ∧ it.id = id
  · -- the ids of a map are distinct, so this is the item itself
    rcases it with ⟨kind, id', y⟩
    obtain ⟨rfl, rfl⟩ : kind = .connections ∧ id' = id := hsame
    have hy : c.connections.lookup id' = some (some y) :=
      (mem_items_connections hitems).1
        (hpre.subset (List.mem_append_right _ (List.mem_singleton_self _)))
    refine writeResource_datum_iff.2 (.inl ⟨rfl, rfl, ?_⟩)
    exact Option.some.inj (hy.symm.trans hnext)
  · have hdone : t.connection tenant id = some next := by
      rcases List.mem_append.1 hmem with hmem | hmem
      · exact hP hmem
      · obtain rfl := List.mem_singleton.1 hmem
        exact absurd ⟨rfl, rfl⟩ hsame
    refine Eq.trans (writeResource_datum_of_key_ne ?_) ((htables.datum .connections id).trans hdone)
    intro hkey
    injection hkey with _ hkind hid
    exact hsame ⟨hkind.symm, hid.symm⟩

/-- **`ApplyConfig` writes the connections of the candidate**: the tenant has
them afterwards, and any other connection was there before. -/
theorem applyConfig_connection {expected out : ℤ} {prune : Bool}
    (h : Runs (applyConfig platform order p expected (some c) prune clock) s out s') :
    (∀ id next, c.connections.lookup id = some (some next) →
      s'.connection p.tenantID id = some next) ∧
    ∀ tenant id next, s'.connection tenant id = some next →
      s.connection tenant id = some next ∨
        (tenant = p.tenantID ∧ c.connections.lookup id = some (some next)) := by
  obtain ⟨c', items, s₁, hc, hitems, hloop, -, rfl⟩ := applyConfig_runs h
  cases hc
  have happlied : Applied p.tenantID s s₁ items := applied_items hloop
  refine ⟨fun id next hnext => applyItems_connection hitems hloop hnext, ?_⟩
  intro tenant id next hnext
  by_cases htenant : tenant = p.tenantID
  · rcases happlied.origin tenant .connections id next hnext with hold | hmem
    · exact .inl hold
    · exact .inr ⟨htenant, (mem_items_connections hitems).1 hmem⟩
  · exact .inl ((happlied.others tenant htenant .connections id).symm.trans hnext)

/-- `ApplyConfig` keeps the accounts exactly if the candidate does. -/
theorem applyConfig_sameAccounts_iff {expected out : ℤ}
    {candidate : Option Candidate} {prune : Bool}
    (h : Runs (applyConfig platform order p expected candidate prune clock) s out s') :
    SameAccounts s s' ↔
      (ConfigOp.apply order p expected candidate prune clock).KeepsAccounts s := by
  obtain ⟨c, -, -, rfl, -⟩ := applyConfig_runs h
  obtain ⟨hwritten, horigin⟩ := applyConfig_connection h
  constructor
  · intro hsame id old next hold hnext
    exact (hsame p.tenantID id _ _ (account_eq_some.2 ⟨old, hold, rfl⟩)
      (account_eq_some.2 ⟨next, hwritten id next hnext, rfl⟩)).symm
  · intro hkeeps tenant id a b ha hb
    obtain ⟨old, hold, rfl⟩ := account_eq_some.1 ha
    obtain ⟨next, hnext, rfl⟩ := account_eq_some.1 hb
    rcases horigin tenant id next hnext with hsame | ⟨rfl, hlookup⟩
    · exact congrArg ConnectionData.accountID (Option.some.inj (hold.symm.trans hsame))
    · exact (hkeeps id old next hold hlookup).symm

/-! ### Runs -/

theorem background_connection (s other : Store) (tenant id : String) :
    (s.background other).connection tenant id = s.connection tenant id := by
  show ((s.background other).resource tenant .connections id).map Resource.data = _
  rw [background_resource rfl]
  rfl

/-- **One step** keeps the accounts exactly if a call that succeeds does. -/
theorem step_sameAccounts_iff (hmarshal : platform.Marshals) (hs : s.Decoded platform)
    (op : ConfigOp) :
    SameAccounts s (op.step platform s) ↔
      (op.succeeds platform s = true → op.KeepsAccounts s) := by
  rcases op with ⟨order, p, m, now⟩ | ⟨order, p, expected, candidate, prune, clock⟩ | other
  · refine iff_of_true ?_ fun _ => trivial
    exact commit_induct (P := SameAccounts s) (.refl s) fun _ _ hrun =>
      mutate_sameAccounts hmarshal hs hrun
  · simp only [ConfigOp.step, ConfigOp.succeeds]
    rcases hcommit : commit (applyConfig platform order p expected candidate prune clock) s with
      ⟨e | out, s'⟩
    · obtain rfl := commit_error hcommit
      exact iff_of_true (.refl _) (by rintro ⟨⟩)
    · rw [applyConfig_sameAccounts_iff (commit_ok_iff.1 hcommit)]
      exact ⟨fun h _ => h, fun h => h rfl⟩
  · exact iff_of_true (sameAccounts_of_eq (background_connection s other)) fun _ => trivial

theorem step_decoded (hmarshal : platform.Marshals) (hs : s.Decoded platform) {op : ConfigOp}
    (hop : op.Decoded platform) : (op.step platform s).Decoded platform := by
  rcases op with ⟨order, p, m, now⟩ | ⟨order, p, expected, candidate, prune, clock⟩ | other
  · refine commit_induct (P := (Store.Decoded platform ·)) hs fun u s' hrun => ?_
    obtain ⟨data, current, version, s₁, -, hdata, -, -, -, -, htables, -, rfl⟩ := mutate_runs hrun
    intro tenant id c hc
    rcases writeResource_datum_origin hc with hold | ⟨y, hy, heq⟩
    · exact hs tenant id c ((htables.datum .connections id).symm.trans hold)
    rcases m with ⟨kind, id', expectedVersion, delete, submitted⟩
    injection heq with hkind _ hdatum
    subst hkind
    rcases validated_ok hdata with ⟨-, hnone⟩ | ⟨x, -, -, -, hx⟩
    · rw [hnone] at hy
      cases hy
    cases hy.symm.trans hx
    rw [eq_of_heq hdatum]
    exact fun account haccount => hmarshal.injective (Option.some.inj haccount)
  · refine commit_induct (P := (Store.Decoded platform ·)) hs fun out s' hrun => ?_
    obtain ⟨c, -, -, rfl, -⟩ := applyConfig_runs hrun
    intro tenant id next hnext
    rcases (applyConfig_connection hrun).2 tenant id next hnext with hold | ⟨-, hlookup⟩
    · exact hs tenant id next hold
    · exact hop id next hlookup
  · intro tenant id c hc
    rw [ConfigOp.step, background_connection] at hc
    exact hs tenant id c hc

/-- Every state of a run with decoded candidates is decoded. -/
theorem run_decoded (hmarshal : platform.Marshals) {ops : List ConfigOp}
    (hops : ∀ op ∈ ops, op.Decoded platform) (n : ℕ) :
    (run (ConfigOp.step platform) {} (ops.take n)).Decoded platform := by
  refine run_inv (fun s op hs hop => step_decoded hmarshal hs hop) ?_ ((Along.of_mem hops).take n)
  intro tenant id c hc
  cases hc

/-- **The account of a connection over runs**: it is kept exactly if every
`ApplyConfig` that succeeds gives the connections that exist the accounts they
have.  `Mutate` never changes an account. -/
theorem accounts_kept_iff (hmarshal : platform.Marshals) (ops : List ConfigOp)
    (hops : ∀ op ∈ ops, op.Decoded platform) :
    AccountsKept platform ops ↔
      Along (ConfigOp.step platform)
        (fun s op => op.succeeds platform s = true → op.KeepsAccounts s) {} ops := by
  have hstep : ∀ n op, ops[n]? = some op →
      (SameAccounts (run (ConfigOp.step platform) {} (ops.take n))
          (op.step platform (run (ConfigOp.step platform) {} (ops.take n))) ↔ _) :=
    fun n op _ => step_sameAccounts_iff hmarshal (run_decoded hmarshal hops n) op
  simp only [AccountsKept, steady_iff_along, along_iff_getElem]
  constructor
  · exact fun h n op hop => (hstep n op hop).1 fun tenant id => h tenant id n op hop
  · exact fun h tenant id n op hop => (hstep n op hop).2 (h n op hop) tenant id

/-! ### A connection that is applied again -/

theorem samplePlatform_marshals : samplePlatform.Marshals := by
  constructor
  · intro a b hab
    have hlists := congrArg String.toList hab
    simp only [samplePlatform, String.toList_append] at hlists
    exact String.toList_injective (List.append_cancel_left (List.append_cancel_right hlists))
  · intro text hempty
    have hlength := congrArg String.length hempty
    have hquote : "\"".length = 1 := by decide
    simp only [samplePlatform, String.length_append, hquote, String.length_empty] at hlength
    omega

/-- A connection is created with the account `a`, then applied with another one. -/
def appliedAgain (account : String) : List ConfigOp :=
  [.background ownedTenant,
   ownerPut .connections "c" 0
    ({ connector := "openai", accountID := "a", enabled := true } : ConnectionData),
   .apply tableOrder ownerPrincipal 1
    (some { connections := AList.singleton "c"
              (some { connector := "openai", accountID := account, enabled := true }) })
    false fun _ => 0]

theorem appliedAgain_kept : AccountsKept samplePlatform (appliedAgain "a") := by
  refine (accounts_kept_iff samplePlatform_marshals _ ?_).2 ⟨?_, ?_, ?_, trivial⟩
  · intro op hop
    simp only [appliedAgain, List.mem_cons, List.not_mem_nil, or_false] at hop
    rcases hop with rfl | rfl | rfl
    · trivial
    · trivial
    intro id c hc account haccount
    obtain rfl := Option.some.inj (eq_of_lookup_singleton hc).2
    cases haccount
  · exact fun _ => trivial
  · exact fun _ => trivial
  · intro _ id old next hold hnext
    obtain ⟨rfl, hsome⟩ := eq_of_lookup_singleton hnext
    cases hsome
    have haccount : (configuredBy samplePlatform ((appliedAgain "a").take 2)).account "t" "c" =
        some "a" := by decide +kernel
    exact Option.some.inj (haccount.symm.trans (account_eq_some.2 ⟨old, hold, rfl⟩))

/-- `ApplyConfig` gives a connection that exists another account. -/
theorem appliedAgain_changes :
    (configuredBy samplePlatform ((appliedAgain "b").take 2)).account "t" "c" = some "a" ∧
    (configuredBy samplePlatform (appliedAgain "b")).account "t" "c" = some "b" ∧
    ¬ AccountsKept samplePlatform (appliedAgain "b") := by
  have hbefore : (configuredBy samplePlatform ((appliedAgain "b").take 2)).account "t" "c" =
      some "a" := by decide +kernel
  have hafter : (configuredBy samplePlatform (appliedAgain "b")).account "t" "c" = some "b" := by
    decide +kernel
  refine ⟨hbefore, hafter, fun hkept => ?_⟩
  have hsame : "a" = "b" := by
    refine hkept "t" "c" 2 3 "a" "b" (by omega) (fun k hk hk' => ?_) hbefore hafter
    obtain rfl | rfl : k = 2 ∨ k = 3 := by omega
    · exact Option.isSome_iff_exists.2 ⟨_, hbefore⟩
    · exact Option.isSome_iff_exists.2 ⟨_, hafter⟩
  exact absurd hsame (by decide)

end Hoorific
