/-
An external identity is bound to one operator for ever.  Three places know
about it: the claim of a subject (`identity_subjects`), the data of the
operator and the record of the identity (`durable_records`).  The claims are
the authority: whatever the other two say, the claims say too (`Bound.claim`),
no two subjects claim the same external identity, and a claim of an external
identity is never changed or deleted (`KeepsClaims`) -- a deleted operator
leaves its claim behind.
-/
import Hoorific.Store.Directory

namespace Hoorific

open Tx Table

/-- An external identity: an issuer that is not reserved for a bootstrap, and a
subject. -/
def External (identity : String × String) : Prop := hasPrefix identity.1 "bootstrap:" = false

variable {identity : String × String} {id : String}

namespace Directory

/-- The identity is bound to the operator: by a claim, by the operator's data
or by the record of the identity. -/
def Bound (d : Directory) (identity : String × String) (id : String) : Prop :=
  d.identitySubjects.lookup id = some identity ∨
    (∃ o, d.operators.lookup id = some o ∧ o.data.issuer ≠ "" ∧
      (o.data.issuer, o.data.identitySubject) = identity) ∨
    ∃ tenant, d.identities.lookup identity = some (tenant, id)

/-- The claims agree with the operators and the records, and are unique. -/
structure Agrees (d : Directory) : Prop where
  operator : ∀ id o, d.operators.lookup id = some o → o.data.issuer ≠ "" →
    External (o.data.issuer, o.data.identitySubject) ∧
      d.identitySubjects.lookup id = some (o.data.issuer, o.data.identitySubject)
  record : ∀ identity tenant id, External identity →
    d.identities.lookup identity = some (tenant, id) → d.identitySubjects.lookup id = some identity
  unique : ∀ identity id id', External identity → d.identitySubjects.lookup id = some identity →
    d.identitySubjects.lookup id' = some identity → id = id'

/-- The claims of external identities stay. -/
def KeepsClaims (d d' : Directory) : Prop :=
  ∀ identity id, External identity → d.identitySubjects.lookup id = some identity →
    d'.identitySubjects.lookup id = some identity

variable {d d' : Directory} {u : Unit}

theorem Agrees.claim (h : d.Agrees) (hexternal : External identity) (hbound : d.Bound identity id) :
    d.identitySubjects.lookup id = some identity := by
  rcases hbound with hclaim | ⟨o, ho, hissuer, rfl⟩ | ⟨tenant, hrecord⟩
  · exact hclaim
  · exact (h.operator id o ho hissuer).2
  · exact h.record identity tenant id hexternal hrecord

theorem KeepsClaims.refl (d : Directory) : KeepsClaims d d := fun _ _ _ h => h

theorem KeepsClaims.trans {d₁ d₂ d₃ : Directory} (h : KeepsClaims d₁ d₂) (h' : KeepsClaims d₂ d₃) :
    KeepsClaims d₁ d₃ :=
  fun identity id he hc => h' identity id he (h identity id he hc)

theorem SameIdentities.keepsClaims (h : SameIdentities d d') : KeepsClaims d d' := by
  intro identity id _ hc
  rw [h.identitySubjects]
  exact hc

variable {issuer subject identitySubject tenant : String} {allow found bootstrap delete : Bool}
  {data : Option OperatorRecord} {version : ℤ} {validOrigin : String → Bool}

/-! ### Claims -/

theorem not_external_bootstrap (h : hasPrefix issuer "bootstrap:" = true) :
    ¬ External (issuer, subject) := by
  intro he
  rw [External, h] at he
  cases he

/-- A claim replaces none but a reservation. -/
theorem keepsClaims_claim
    (h : Runs (claimIdentitySubjectTx subject issuer identitySubject allow) d u d') :
    KeepsClaims d d' := by
  rcases claimIdentitySubjectTx_runs h with ⟨-, rfl⟩ | ⟨-, hreserved, rfl⟩
  · exact .refl _
  intro identity id he hc
  have hne : id ≠ subject := by
    rintro rfl
    exact not_external_bootstrap (hreserved _ hc).2 he
  exact (AList.lookup_insert_ne hne).trans hc

theorem lookup_claim
    (h : Runs (claimIdentitySubjectTx subject issuer identitySubject allow) d u d') :
    d'.identitySubjects.lookup subject = some (issuer, identitySubject) := by
  rcases claimIdentitySubjectTx_runs h with ⟨hc, rfl⟩ | ⟨-, -, rfl⟩
  · exact hc
  · exact AList.lookup_insert _

section

variable (h : d.Agrees)
include h

/-- A claim keeps the agreement: it is of an identity nobody has. -/
theorem Agrees.claimed
    (hr : Runs (claimIdentitySubjectTx subject issuer identitySubject allow) d u d') :
    d'.Agrees := by
  rcases claimIdentitySubjectTx_runs hr with ⟨-, rfl⟩ | ⟨hfree, -, rfl⟩
  · exact h
  have hkept := keepsClaims_claim hr
  refine ⟨?_, ?_, ?_⟩
  · intro id o ho hissuer
    obtain ⟨he, hc⟩ := h.operator id o ho hissuer
    exact ⟨he, hkept _ _ he hc⟩
  · intro identity tenant id he hi
    exact hkept _ _ he (h.record identity tenant id he hi)
  · intro identity id id' he hc hc'
    rcases lookup_insert_iff.1 hc with ⟨rfl, rfl⟩ | ⟨-, hold⟩
    · rcases lookup_insert_iff.1 hc' with ⟨rfl, -⟩ | ⟨-, hold'⟩
      · rfl
      · exact absurd hold' (hfree id')
    · rcases lookup_insert_iff.1 hc' with ⟨rfl, rfl⟩ | ⟨-, hold'⟩
      · exact absurd hold (hfree id)
      · exact h.unique identity id id' he hold hold'

theorem Agrees.of_same (hi : SameIdentities d d')
    (ho : ∀ id o, d'.operators.lookup id = some o → o.data.issuer ≠ "" →
      d.operators.lookup id = some o) : d'.Agrees := by
  refine ⟨?_, ?_, ?_⟩
  · intro id o hid hissuer
    rw [hi.identitySubjects]
    exact h.operator id o (ho id o hid hissuer) hissuer
  · rw [hi.identities, hi.identitySubjects]
    exact h.record
  · rw [hi.identitySubjects]
    exact h.unique

/-! ### Records and operators -/

/-- A record of an identity its subject has claimed, or of no external one. -/
theorem Agrees.withIdentity
    (hc : External identity → d.identitySubjects.lookup id = some identity) :
    (d.withIdentity identity tenant id).Agrees := by
  refine ⟨h.operator, ?_, h.unique⟩
  intro identity' tenant' id' he hi
  rcases lookup_insert_iff.1 hi with ⟨rfl, heq⟩ | ⟨-, hi⟩
  · cases heq
    exact hc he
  · exact h.record identity' tenant' id' he hi

/-- An operator whose external identity, if it has one, is claimed. -/
theorem Agrees.withOperator {row : Versioned OperatorRecord}
    (hc : row.data.issuer ≠ "" → External (row.data.issuer, row.data.identitySubject) ∧
      d.identitySubjects.lookup id = some (row.data.issuer, row.data.identitySubject)) :
    (d.withOperator id row).Agrees := by
  refine ⟨?_, h.record, h.unique⟩
  intro id' o ho hissuer
  rcases lookup_insert_iff.1 ho with ⟨rfl, rfl⟩ | ⟨-, ho⟩
  · exact hc hissuer
  · exact h.operator id' o ho hissuer

theorem Identified.agrees {next : OperatorRecord}
    (hi : Identified tenant id found bootstrap next d d') :
    d'.Agrees ∧ KeepsClaims d d' ∧ (next.issuer ≠ "" →
      d'.identitySubjects.lookup id = some (next.issuer, next.identitySubject)) := by
  cases hi with
  | none hempty => exact ⟨h, .refl d, fun hne => absurd hempty hne⟩
  | claimed _ hclaim hrecord =>
    have hagrees := h.claimed hclaim
    have hlookup := lookup_claim hclaim
    rcases recordIdentity_runs hrecord with rfl | rfl
    · exact ⟨hagrees, keepsClaims_claim hclaim, fun _ => hlookup⟩
    have hkept := keepsClaims_claim hclaim
    exact ⟨hagrees.withIdentity fun _ => hlookup, fun _ _ he hc => hkept _ _ he hc,
      fun _ => hlookup⟩

theorem agrees_putOperator {previous : Option OperatorRecord}
    (hr : Runs (putOperator tenant id previous version bootstrap data) d u d') :
    d'.Agrees ∧ KeepsClaims d d' := by
  obtain ⟨next, d₁, hexternal, hi, hcases⟩ := putOperator_runs hr
  obtain ⟨hagrees, hkept, hlookup⟩ := hi.agrees h
  have hput : (d₁.withOperator id ⟨version + 1, next⟩).Agrees :=
    hagrees.withOperator fun hne => ⟨hexternal, hlookup hne⟩
  rcases hcases with ⟨-, rfl⟩ | ⟨-, -, rfl⟩
  · exact ⟨hput, hkept⟩
  · exact ⟨hput.of_same ⟨rfl, rfl⟩ fun _ _ ho _ => ho, hkept⟩

theorem agrees_writeOperator
    (hr : Runs (writeOperator tenant id version bootstrap delete data) d u d') :
    d'.Agrees ∧ KeepsClaims d d' := by
  rcases writeOperator_runs hr with rfl | ⟨-, hput⟩
  · -- the claim and the record of a deleted operator stay
    exact ⟨h.of_same ⟨rfl, rfl⟩ fun id' o ho _ => (lookup_erase_iff.1 ho).2, .refl _⟩
  · exact agrees_putOperator h hput

theorem agrees_write {p : Principal} {active : Bool} {kind : TenancyKind} {data : Option kind.Data}
    (hr : Runs (write validOrigin p active tenant found version bootstrap id delete kind data)
      d u d') : d'.Agrees ∧ KeepsClaims d d' := by
  -- nothing but the operators is about identities
  have hsame : ∀ {d' : Directory}, d'.operators = d.operators → SameIdentities d d' →
      d'.Agrees ∧ KeepsClaims d d' := fun ho hi =>
    ⟨h.of_same hi fun _ _ hid _ => ho ▸ hid, hi.keepsClaims⟩
  cases kind with
  | tenants =>
    obtain ⟨next, -, ⟨-, rfl⟩ | ⟨-, -, rfl⟩⟩ := writeTenant_runs hr
    all_goals
      exact hsame rfl ⟨rfl, rfl⟩
  | operators => exact agrees_writeOperator h hr
  | roleBindings =>
    rcases writeBinding_runs hr with rfl | ⟨next, -, rfl⟩
    · exact hsame rfl ⟨rfl, rfl⟩
    · exact hsame rfl ⟨rfl, rfl⟩

/-! ### Runs -/

theorem agrees_seedOwner (tenant subject : String) : (d.seedOwner tenant subject).Agrees := by
  refine h.of_same ⟨rfl, rfl⟩ fun id o ho hissuer => ?_
  rcases lookup_insertAbsent_cases ho with hold | rfl
  · exact hold
  · exact absurd rfl hissuer

end

theorem hasPrefix_bootstrapIssuer (tenant : String) :
    hasPrefix (bootstrapIssuer tenant) "bootstrap:" = true := by
  rw [hasPrefix, bootstrapIssuer, List.isPrefixOf_iff_prefix, String.toList_append]
  exact List.prefix_append _ _

/-- **One change** keeps the agreement and the claims of external identities. -/
theorem agrees_tx {op : DirectoryOp} (h : d.Agrees) (hr : Runs (op.tx validOrigin) d u d') :
    d'.Agrees ∧ KeepsClaims d d' := by
  cases op with
  | mutate p m =>
    obtain ⟨_, _, _, _, _, d₁, -, -, -, hw, -, rfl⟩ := mutateTenancy_runs hr
    obtain ⟨hagrees, hkept⟩ := agrees_write h hw
    exact ⟨hagrees.of_same ⟨rfl, rfl⟩ fun _ _ ho _ => ho, hkept⟩
  | createBootstrap tenant subject hash now =>
    obtain ⟨d₁, d₂, hm₁, hi₁, hclaim, hm₂, hi₂⟩ := createBootstrap_runs hr
    have hagrees : d₁.Agrees := h.of_same hi₁ fun _ _ ho _ => hm₁.operators ▸ ho
    exact ⟨(hagrees.claimed hclaim).of_same hi₂ fun _ _ ho _ => hm₂.operators ▸ ho,
      (hi₁.keepsClaims.trans (keepsClaims_claim hclaim)).trans hi₂.keepsClaims⟩
  | consumeBootstrap tenant hash now =>
    obtain ⟨subject, d₁, hd₁, hm, hi⟩ := consumeBootstrap_runs hr
    have hseed := agrees_seedOwner h tenant subject
    have hagrees : d₁.Agrees ∧ KeepsClaims d d₁ := by
      rcases hd₁ with rfl | rfl
      · exact ⟨hseed, fun _ _ _ hc => hc⟩
      exact ⟨hseed.withIdentity fun he =>
        absurd he (not_external_bootstrap (hasPrefix_bootstrapIssuer tenant)),
        fun _ _ _ hc => hc⟩
    exact ⟨hagrees.1.of_same hi fun _ _ ho _ => hm.operators ▸ ho, hagrees.2.trans hi.keepsClaims⟩

theorem agrees_step (op : DirectoryOp) (h : d.Agrees) :
    (op.step validOrigin d).Agrees ∧ KeepsClaims d (op.step validOrigin d) := by
  exact commit_induct (P := fun d' => d'.Agrees ∧ KeepsClaims d d') ⟨h, .refl d⟩ fun u d' hrun =>
    agrees_tx h hrun

end Directory

/-- The directory after a run from the empty one. -/
def directoryAfter (validOrigin : String → Bool) (ops : List DirectoryOp) : Directory :=
  run (DirectoryOp.step validOrigin) {} ops

section Runs

variable {validOrigin : String → Bool} {ops : List DirectoryOp}

theorem agrees_directoryAfter (n : ℕ) : (directoryAfter validOrigin (ops.take n)).Agrees := by
  refine run_inv_of_step (I := Directory.Agrees) (fun d op h => (Directory.agrees_step op h).1) ?_ _
  exact ⟨(fun _ _ h => nomatch h), (fun _ _ _ _ h => nomatch h), (fun _ _ _ _ h => nomatch h)⟩

/-- A claim of an external identity stays to the end of the run. -/
theorem claim_directoryAfter {i j : ℕ} (hij : i ≤ j) (he : External identity)
    (hc : (directoryAfter validOrigin (ops.take i)).identitySubjects.lookup id = some identity) :
    (directoryAfter validOrigin (ops.take j)).identitySubjects.lookup id = some identity := by
  refine run_take_inv (I := fun d : Directory => d.identitySubjects.lookup id = some identity)
    hij hc fun m op _ _ _ hm => ?_
  exact (Directory.agrees_step op (agrees_directoryAfter m)).2 identity id he hm

end Runs

/-- **Identities are bound for ever.**  In every run from the empty directory,
an external identity that is bound to two operators, at whatever moments, is
bound to one; and an operator that is bound to two external identities, at
whatever moments, is bound to one. -/
theorem identities_bound_forever (validOrigin : String → Bool) (ops : List DirectoryOp) (i j : ℕ)
    (identity identity' : String × String) (id id' : String) (he : External identity)
    (he' : External identity')
    (h : (directoryAfter validOrigin (ops.take i)).Bound identity id)
    (h' : (directoryAfter validOrigin (ops.take j)).Bound identity' id') :
    identity = identity' ↔ id = id' := by
  -- both are claimed at the later of the two moments
  have hc := claim_directoryAfter (le_max_left i j) he ((agrees_directoryAfter i).claim he h)
  have hc' := claim_directoryAfter (le_max_right i j) he' ((agrees_directoryAfter j).claim he' h')
  constructor
  · rintro rfl
    exact (agrees_directoryAfter (max i j)).unique identity id id' he hc hc'
  · rintro rfl
    exact Option.some.inj (hc.symm.trans hc')

/-- An operator is created and deleted, and its identity is offered for another. -/
def reRegistered : List DirectoryOp :=
  let owner : Principal := { tenantID := "t", subjectID := "a" }
  let operator (id : String) : OperatorRecord :=
    { subject := id, issuer := "iss", identitySubject := "sub", enabled := true }
  [.createBootstrap "t" "a" "h" ⟨0⟩, .consumeBootstrap "t" "h" ⟨1⟩,
    .mutate owner { kind := .operators, id := "b", expectedVersion := 0, data := operator "b" },
    .mutate owner { kind := .operators, id := "b", expectedVersion := 1, delete := true,
                    data := none },
    .mutate owner { kind := .operators, id := "c", expectedVersion := 0, data := operator "c" }]

theorem reRegistered_refused :
    ((directoryAfter (fun _ => true) (reRegistered.take 3)).operators.lookup "b").isSome = true ∧
      (directoryAfter (fun _ => true) (reRegistered.take 3)).Bound ("iss", "sub") "b" ∧
      ((directoryAfter (fun _ => true) (reRegistered.take 5)).operators.lookup "b").isSome = false ∧
      ¬ (directoryAfter (fun _ => true) (reRegistered.take 5)).Bound ("iss", "sub") "c" := by
  have hbound : (directoryAfter (fun _ => true) (reRegistered.take 3)).Bound ("iss", "sub") "b" :=
    .inl (by decide +kernel)
  refine ⟨by decide +kernel, hbound, by decide +kernel, fun h => ?_⟩
  have heq := (identities_bound_forever (fun _ => true) reRegistered 3 5 ("iss", "sub")
    ("iss", "sub") "b" "c" (by rfl) (by rfl) hbound h).1 rfl
  exact absurd heq (by decide)

end Hoorific
