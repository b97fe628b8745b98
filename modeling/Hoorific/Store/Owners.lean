/-
A tenant that has an enabled owner keeps one.  Ownership is the join of the
role bindings with the operators, so a change of one operator can take the
owners of several tenants.  Every change names the tenants it affects and
checks them after it has written; a tenant that is not among them keeps the
rows of all its owners (`Keeps`).
-/
import Hoorific.Store.Directory

namespace Hoorific

open Tx Table

namespace Directory

variable {d d' : Directory} {u : Unit} {t : String}

theorem hasEnabledOwner_iff :
    d.hasEnabledOwner t = true ↔ ∃ subject binding operator,
      d.roleBindings.lookup (t, subject) = some binding ∧ binding.data.role = .owner ∧
      d.operators.lookup subject = some operator ∧ operator.data.enabled = true := by
  simp only [hasEnabledOwner, List.any_eq_true, Option.any_eq_true, Prod.exists,
    mem_select_iff, Bool.and_eq_true, beq_iff_eq]
  constructor
  · rintro ⟨_, subject, binding, ⟨hb, rfl, hrole⟩, operator, ho, henabled⟩
    exact ⟨subject, binding, operator, hb, hrole, ho, henabled⟩
  · rintro ⟨subject, binding, operator, hb, hrole, ho, henabled⟩
    exact ⟨t, subject, binding, ⟨hb, rfl, hrole⟩, operator, ho, henabled⟩

/-- The rows of the members of the tenant stay. -/
def Keeps (t : String) (d d' : Directory) : Prop :=
  ∀ subject binding operator, d.roleBindings.lookup (t, subject) = some binding →
    d.operators.lookup subject = some operator →
    d'.roleBindings.lookup (t, subject) = some binding ∧
      d'.operators.lookup subject = some operator

theorem Keeps.hasEnabledOwner (h : Keeps t d d') (hd : d.hasEnabledOwner t = true) :
    d'.hasEnabledOwner t = true := by
  obtain ⟨subject, binding, operator, hb, hrole, ho, henabled⟩ := hasEnabledOwner_iff.1 hd
  obtain ⟨hb', ho'⟩ := h subject binding operator hb ho
  exact hasEnabledOwner_iff.2 ⟨subject, binding, operator, hb', hrole, ho', henabled⟩

theorem SameMembers.keeps (h : SameMembers d d') : Keeps t d d' := by
  intro subject binding operator hb ho
  rw [h.roleBindings, h.operators]
  exact ⟨hb, ho⟩

variable {tenant subject id : String} {binding : Versioned RoleBindingRow}
  {validOrigin : String → Bool} {p : Principal} {active found delete bootstrap token : Bool}
  {version : ℤ} {m : TenancyMutation} {l : List String}

/-- A row under a key that is taken is not the one that is inserted. -/
theorem lookup_withBinding {row : Versioned RoleBindingRow} {k : String × String}
    (hfree : d.roleBindings.lookup (tenant, subject) = none)
    (h : d.roleBindings.lookup k = some binding) :
    (d.withBinding tenant subject row).roleBindings.lookup k = some binding := by
  have hne : k ≠ (tenant, subject) := by
    rintro rfl
    rw [hfree] at h
    cases h
  exact (AList.lookup_insert_ne hne).trans h

/-- A change of a tenant takes no member from any tenant. -/
theorem keeps_writeTenant {data : Option TenantData}
    (h : Runs (writeTenant validOrigin p active id found version delete data) d u d') :
    Keeps t d d' := by
  obtain ⟨next, -, ⟨-, rfl⟩ | ⟨-, hfree, rfl⟩⟩ := writeTenant_runs h
  · exact fun _ _ _ hb ho => ⟨hb, ho⟩
  · intro subject binding operator hb ho
    exact ⟨lookup_withBinding hfree hb, ho⟩

theorem mem_operatorTenants (h : d.roleBindings.lookup (t, subject) = some binding) :
    t ∈ d.operatorTenants subject :=
  List.mem_map.2 ⟨((t, subject), binding), mem_select_iff.2 ⟨h, beq_self_eq_true _⟩, rfl⟩

/-- A change of an operator takes no member from a tenant it is not bound to. -/
theorem keeps_writeOperator {data : Option OperatorRecord}
    (h : Runs (writeOperator tenant id version bootstrap delete data) d u d')
    (ht : (d.operators.lookup id).isSome = true → t ∉ d.operatorTenants id) : Keeps t d d' := by
  -- a member of the tenant is another operator
  have hother : ∀ {subject binding operator}, d.roleBindings.lookup (t, subject) = some binding →
      d.operators.lookup subject = some operator → subject ≠ id := by
    rintro subject binding operator hb ho rfl
    exact ht (by rw [ho]; rfl) (mem_operatorTenants hb)
  rcases writeOperator_runs h with rfl | ⟨-, hput⟩
  · intro subject binding operator hb ho
    refine ⟨lookup_deleteWhere_iff.2 ⟨hb, ?_⟩, ?_⟩
    · simpa using hother hb ho
    · exact (AList.lookup_erase_ne (hother hb ho)).trans ho
  · obtain ⟨next, d₁, -, hid, hcases⟩ := putOperator_runs hput
    have hm := hid.sameMembers
    intro subject binding operator hb ho
    have hb₁ : d₁.roleBindings.lookup (t, subject) = some binding := by rw [hm.roleBindings, hb]
    have ho₁ : (d₁.withOperator id ⟨version + 1, next⟩).operators.lookup subject =
        some operator := by
      refine (AList.lookup_insert_ne (hother hb ho)).trans ?_
      rw [hm.operators, ho]
    rcases hcases with ⟨-, rfl⟩ | ⟨-, hfree, rfl⟩
    · exact ⟨hb₁, ho₁⟩
    · exact ⟨lookup_withBinding hfree hb₁, ho₁⟩

/-- A change of a binding takes no member from another tenant. -/
theorem keeps_writeBinding {data : Option RoleBindingData} (ht : t ≠ tenant)
    (h : Runs (writeBinding tenant id version delete data) d u d') : Keeps t d d' := by
  have hkey : ∀ subject, (t, subject) ≠ (tenant, id) := fun subject heq =>
    ht (congrArg Prod.fst heq)
  rcases writeBinding_runs h with rfl | ⟨next, -, rfl⟩
  all_goals intro subject binding operator hb ho
  · exact ⟨(AList.lookup_erase_ne (hkey subject)).trans hb, ho⟩
  · exact ⟨(AList.lookup_insert_ne (hkey subject)).trans hb, ho⟩

theorem affected_ok (h : d.affected p token m tenant found = .ok l) :
    (m.kind = .operators ∧ l = d.operatorTenants m.id) ∨
      (¬ (m.kind = .operators ∧ found = true) ∧ l = [tenant]) := by
  simp only [affected, Check.bind_ok] at h
  obtain ⟨_, -, h⟩ := h
  split at h
  · next hop =>
    simp only [Check.bind_ok, Check.pure_ok] at h
    obtain ⟨_, -, _, -, rfl⟩ := h
    exact .inl ⟨hop.1, rfl⟩
  · next hop =>
    cases h
    exact .inr ⟨hop, rfl⟩

theorem keeps_write
    (ha : d.affected p token m tenant (d.versionOf tenant m.id m.kind).isSome = .ok l)
    (hw : Runs (write validOrigin p active tenant (d.versionOf tenant m.id m.kind).isSome version
      bootstrap m.id m.delete m.kind m.data) d u d') (ht : t ∉ l) : Keeps t d d' := by
  rcases m with ⟨kind, id, expectedVersion, delete, data⟩
  cases kind with
  | tenants => exact keeps_writeTenant hw
  | operators =>
    refine keeps_writeOperator hw fun hfound => ?_
    have hfound : (d.versionOf tenant id .operators).isSome = true := by
      rw [versionOf, Option.isSome_map]
      exact hfound
    rcases affected_ok ha with ⟨-, rfl⟩ | ⟨hnot, -⟩
    · exact ht
    · exact absurd ⟨rfl, hfound⟩ hnot
  | roleBindings =>
    rcases affected_ok ha with ⟨hkind, -⟩ | ⟨-, rfl⟩
    · cases hkind
    · exact keeps_writeBinding (fun heq => ht (List.mem_singleton.2 heq)) hw

theorem keeps_seedOwner (tenant subject : String) : Keeps t d (d.seedOwner tenant subject) :=
  fun _ _ _ hb ho => ⟨lookup_insertAbsent_of_some hb, lookup_insertAbsent_of_some ho⟩

theorem Keeps.trans_sameMembers {d₁ : Directory} (h : Keeps t d d₁) (hm : SameMembers d₁ d') :
    Keeps t d d' := by
  intro subject binding operator hb ho
  rw [hm.roleBindings, hm.operators]
  exact h subject binding operator hb ho

/-- **One change**: a tenant with an enabled owner has one afterwards. -/
theorem hasEnabledOwner_tx {op : DirectoryOp} (h : Runs (op.tx validOrigin) d u d')
    (hd : d.hasEnabledOwner t = true) :
    d'.hasEnabledOwner t = true := by
  cases op with
  | mutate p m =>
    obtain ⟨current, token, l, version, active, d₁, -, ha, -, hw, hpreserved, rfl⟩ :=
      mutateTenancy_runs h
    show d₁.hasEnabledOwner t = true
    by_cases ht : t ∈ l
    · exact hpreserved t ht
    · exact (keeps_write ha hw ht).hasEnabledOwner hd
  | createBootstrap tenant subject hash now =>
    obtain ⟨d₁, d₂, hm₁, -, hclaim, hm₂, -⟩ := createBootstrap_runs h
    exact ((hm₁.trans (sameMembers_claim hclaim)).trans hm₂).keeps.hasEnabledOwner hd
  | consumeBootstrap tenant hash now =>
    obtain ⟨subject, d₁, hd₁, hm, -⟩ := consumeBootstrap_runs h
    have hk : Keeps t d d₁ := by
      rcases hd₁ with rfl | rfl <;> exact keeps_seedOwner tenant subject
    exact (hk.trans_sameMembers hm).hasEnabledOwner hd

theorem hasEnabledOwner_step (op : DirectoryOp) (hd : d.hasEnabledOwner t = true) :
    (op.step validOrigin d).hasEnabledOwner t = true := by
  exact commit_induct (P := fun d => d.hasEnabledOwner t = true) hd fun u d' hrun =>
    hasEnabledOwner_tx hrun hd

end Directory

/-- **The last enabled owner.**  In every run of changes of the directory, from
any directory, a tenant that has an enabled owner at one moment has one at
every later moment. -/
theorem enabled_owner_kept (validOrigin : String → Bool) (d : Directory) (ops : List DirectoryOp)
    (t : String) (i j : ℕ) (hij : i ≤ j)
    (h : (run (DirectoryOp.step validOrigin) d (ops.take i)).hasEnabledOwner t = true) :
    (run (DirectoryOp.step validOrigin) d (ops.take j)).hasEnabledOwner t = true :=
  run_take_inv (I := fun d : Directory => d.hasEnabledOwner t = true) hij h
    fun _ op _ _ _ hd => Directory.hasEnabledOwner_step op hd

/-- A tenant is bootstrapped, and its only owner asks to become a viewer. -/
def lastOwnerLeaves : List DirectoryOp :=
  [.createBootstrap "t" "a" "h" ⟨0⟩, .consumeBootstrap "t" "h" ⟨1⟩,
    .mutate { tenantID := "t", subjectID := "a" }
      { kind := .roleBindings, id := "a", expectedVersion := 1, data := some ⟨"a", "t", .viewer⟩ }]

theorem lastOwnerLeaves_refused :
    (run (DirectoryOp.step fun _ => true) {} (lastOwnerLeaves.take 2)).hasEnabledOwner "t" = true ∧
      (run (DirectoryOp.step fun _ => true) {} (lastOwnerLeaves.take 3)).hasEnabledOwner "t" =
        true :=
  ⟨by decide +kernel,
    enabled_owner_kept (fun _ => true) {} lastOwnerLeaves "t" 2 3 (by decide) (by decide +kernel)⟩

end Hoorific
