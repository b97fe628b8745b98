/-
Replayed admissions.  A second `BeginAttempt` for a stored attempt is
answered with the permit of the first, if `sameAttempt` finds the two
plans alike.  It compares identity, target, revisions and deadline, and
none of the fields that decided what was reserved.

Some of those are pinned all the same: both plans passed `checkModel` at
the same revision of the configuration, so against the same model, and a
bound a plan carries is the one its model gives.  What is left open is
the operation, the alias, the output bound, and whether a bound is carried
at all; for a plan without a model, which `checkModel` lets through, the
bounds themselves.

`Op.Governed` restricts the changes of the configuration in a run to those
of the code, since it is the code that raises the revision with every
change of a model.
-/
import Hoorific.Store.Compiles
import Hoorific.Store.Lifecycle

namespace Hoorific

open Check

variable {platform : Platform} {s s' : Store} {k : AttemptKey} {row row' : AttemptRow}

/-! ### The models of a revision -/

/-- The revision did not fall, and the models changed only if it rose. -/
structure ModelsVersioned (s s' : Store) : Prop where
  revision : s.revision ≤ s'.revision
  models : s'.revision = s.revision → ∀ tenant id,
    s'.resource tenant .models id = s.resource tenant .models id

theorem ModelsVersioned.of_tablesOnly (h : TablesOnly s s') : ModelsVersioned s s' :=
  ⟨h.revision.ge, fun _ _ _ => h.resource .models _⟩

theorem ModelsVersioned.of_raised (h : s'.revision = s.revision + 1) : ModelsVersioned s s' :=
  ⟨by omega, fun hsame => by omega⟩

/-- **Every change of the configuration** that the code makes raises the revision. -/
theorem configOp_versioned (platform : Platform) (s : Store) (change : ConfigOp) :
    ModelsVersioned s (change.step platform s) := by
  have heffect := step_effect platform change s
  generalize change.step platform s = s' at heffect ⊢
  cases heffect with
  | failed => exact .of_tablesOnly (.refl s)
  | wrote happlied _ => exact .of_raised (congrArg (· + 1) happlied.revision)
  | background => exact ⟨le_max_left _ _, fun _ _ id => background_resource rfl id⟩

/-- The configuration is changed by the code alone. -/
def Op.Governed (platform : Platform) (s : Store) : Op → Prop
  | .configure c => ∃ change : ConfigOp, c = change.step platform s
  | _ => True

variable {op : Op} {p : AttemptPlan}

theorem Effect.tablesOnly (h : Effect s s' op) (hop : ∀ c, op ≠ .configure c) :
    TablesOnly s s' := by
  have hsweeps : ∀ {now t}, Relation.ReflTransGen (SweepStep now) s t → TablesOnly s t := by
    intro now t hreach
    induction hreach with
    | refl => exact .refl s
    | tail _ hstep ih =>
      obtain ⟨_, _, hswept⟩ := hstep
      exact ih.trans (by rw [hswept.replaced.frame]; exact ⟨rfl, rfl⟩)
  cases h with
  | policy h => exact h.tablesOnly
  | configured => exact absurd rfl (hop _)
  | admitted _ _ hpolicy _ _ hadm =>
    rw [hadm.frame]
    rw [hpolicy.frame]
    exact ⟨rfl, rfl⟩
  | accepted _ hrep _ | finalized _ hrep _ => rw [hrep.frame]; exact ⟨rfl, rfl⟩
  | reconciled hby => rw [hby.replaced.frame]; exact ⟨rfl, rfl⟩
  | maintained hreach hretired =>
    refine (hsweeps hreach).trans ?_
    rw [hretired.frame]
    exact ⟨rfl, rfl⟩

theorem step_versioned (hs : WellFormed s) (hop : op.Governed platform s) :
    ModelsVersioned s (op.step s) := by
  by_cases hconfigure : ∃ c, op = .configure c
  · obtain ⟨c, rfl⟩ := hconfigure
    obtain ⟨change, rfl⟩ := hop
    have hchange := configOp_versioned platform s change
    exact ⟨hchange.revision, hchange.models⟩
  · apply ModelsVersioned.of_tablesOnly
    exact (execute_effect op hs).tablesOnly fun c hc => hconfigure ⟨c, hc⟩

/-! ### The plan an attempt was begun with -/

/-- What `BeginAttempt` has found out about a plan it accepts. -/
theorem checkPlan_ok {principal : Option Principal} {now : ℤ}
    (h : checkPlan s principal p now = .ok ()) :
    p.attemptID ≠ "" ∧ p.configRevision = s.revision ∧ checkModel s p = .ok () := by
  have hrevision : ¬ (s.revision < 0 ∨ p.configRevision < 0 ∨ s.revision ≠ p.configRevision) := by
    intro hstale
    simp only [checkPlan, if_pos hstale] at h
    split at h
    all_goals
      obtain ⟨_, -, h⟩ := bind_ok.1 h
      obtain ⟨_, -, h⟩ := bind_ok.1 h
      cases h
  simp only [checkPlan, if_neg hrevision] at h
  obtain ⟨_, hvalid, h⟩ := bind_ok.1 h
  have hnamed : p.attemptID ≠ "" := by
    intro hempty
    simp [validatePlan, hempty] at hvalid
  have hmodel : checkModel s p = .ok () := by
    split at h
    all_goals
      obtain ⟨_, -, h⟩ := bind_ok.1 h
      obtain ⟨_, -, h⟩ := bind_ok.1 h
      exact h
  exact ⟨hnamed, by omega, hmodel⟩

/-- The plan a stored attempt was begun with is named and passes the check of
its model as long as the configuration is the one it was planned for. -/
structure BegunWith (s : Store) (p : AttemptPlan) : Prop where
  named : p.attemptID ≠ ""
  revision : p.configRevision ≤ s.revision
  model : p.configRevision = s.revision → checkModel s p = .ok ()

theorem BegunWith.of_versioned (h : BegunWith s p) (hs : ModelsVersioned s s') :
    BegunWith s' p := by
  refine ⟨h.named, h.revision.trans hs.revision, fun hsame => ?_⟩
  -- the revision has not moved since the plan was accepted
  have hrevision : p.configRevision = s.revision := le_antisymm h.revision (hsame ▸ hs.revision)
  rw [checkModel, hs.models (hsame ▸ hrevision)]
  exact h.model hrevision

/-- Only admission decides the submitted plan of a row. -/
theorem RowChange.submitted (h : RowChange s k op (some row) (some row')) :
    row'.data.submitted = row.data.submitted := by
  cases h with
  | kept => rfl
  | accepted | reconciled | swept => rfl
  | finalized =>
    show (AttemptEnvelope.chargedWith _ _).submitted = _
    unfold AttemptEnvelope.chargedWith
    split <;> rfl

/-- **Step**: stored attempts keep the plan they were begun with. -/
theorem step_begunWith (hs : WellFormed s) (hop : op.Governed platform s)
    (hrows : ∀ k row, s.attempts.lookup k = some row → BegunWith s row.data.submitted)
    (hrow : (op.step s).attempts.lookup k = some row) :
    BegunWith (op.step s) row.data.submitted := by
  have hversioned := step_versioned hs hop
  have hchange := rowChange_of_step hs hrow
  rcases hr : s.attempts.lookup k with - | old <;> rw [hr] at hchange
  · cases hchange with
    | @admitted principal submitted now planNow =>
      rcases begin_checked principal submitted now planNow s with hsame | ⟨-, hcheck⟩
      · rw [show Op.step s (.begin principal submitted now planNow) = s from hsame, hr] at hrow
        cases hrow
      · obtain ⟨hnamed, hrevision, hmodel⟩ := checkPlan_ok hcheck
        exact BegunWith.of_versioned ⟨hnamed, hrevision.le, fun _ => hmodel⟩ hversioned
  · rw [hchange.submitted]
    exact (hrows k old hr).of_versioned hversioned

/-- **Run**: so they do in every run that the code governs. -/
theorem run_begunWith {ops : List Op} (hops : Along Op.step (Op.Governed platform) {} ops) :
    ∀ k row, (run Op.step {} ops).attempts.lookup k = some row →
      BegunWith (run Op.step {} ops) row.data.submitted := by
  have hinv : WellFormed (run Op.step {} ops) ∧ ∀ k row,
      (run Op.step {} ops).attempts.lookup k = some row →
        BegunWith (run Op.step {} ops) row.data.submitted := by
    refine run_inv (I := fun s => WellFormed s ∧ ∀ k row, s.attempts.lookup k = some row →
      BegunWith s row.data.submitted) ?_ ⟨wellFormed_empty, fun _ _ h => nomatch h⟩ hops
    rintro s op ⟨hs, hrows⟩ hop
    exact ⟨(execute_effect op hs).wellFormed hs, fun _ _ hrow => step_begunWith hs hop hrows hrow⟩
  exact hinv.2

theorem run_submitted (ops : List Op) : ∀ k row,
    (run Op.step {} ops).attempts.lookup k = some row →
      ∃ caller now planNow, Op.begin caller row.data.submitted now planNow ∈ ops := by
  induction ops using List.reverseRecOn with
  | nil =>
    intro k row hrow
    cases hrow
  | append_singleton ops op ih =>
    intro k row hrow
    rw [run_append] at hrow
    have hchange := rowChange_of_step (run_wellFormed ops) hrow
    rcases hr : (run Op.step {} ops).attempts.lookup k with - | old <;> rw [hr] at hchange
    · cases hchange with
      | @admitted caller submitted now planNow =>
        exact ⟨caller, now, planNow, List.mem_append_right _ List.mem_cons_self⟩
    · obtain ⟨caller, now, planNow, hmem⟩ := ih k old hr
      rw [hchange.submitted]
      exact ⟨caller, now, planNow, List.mem_append_left _ hmem⟩

/-! ### What a replay agrees in -/

/-- The plans agree in identity, target and revisions and in everything that
decided what was reserved and at which price. -/
structure AttemptPlan.AgreesWith (q p : AttemptPlan) : Prop where
  tenantID : q.tenantID = p.tenantID
  requestID : q.requestID = p.requestID
  attemptID : q.attemptID = p.attemptID
  keyID : q.keyID = p.keyID
  connectionID : q.connectionID = p.connectionID
  accountID : q.accountID = p.accountID
  modelID : q.modelID = p.modelID
  keyRevision : q.keyRevision = p.keyRevision
  configRevision : q.configRevision = p.configRevision
  operation : q.operation = p.operation
  «alias» : q.alias = p.alias
  inputBound : q.inputBound = p.inputBound
  outputBound : q.outputBound = p.outputBound
  maximumCost : q.maximumCost = p.maximumCost
  priceVersion : q.priceVersion = p.priceVersion

/-- The part of it that `BeginAttempt` does not see to. -/
structure AttemptPlan.SameBounds (q p : AttemptPlan) : Prop where
  operation : q.operation = p.operation
  «alias» : q.alias = p.alias
  outputBound : q.outputBound = p.outputBound
  inputKnown : q.inputBound.isSome = p.inputBound.isSome
  costKnown : q.maximumCost.isSome = p.maximumCost.isSome
  unmodeled : q.modelID = "" → q.inputBound = p.inputBound ∧ q.maximumCost = p.maximumCost ∧
    q.priceVersion = p.priceVersion

/-- Values that are determined where they are given agree if they are both given. -/
theorem eq_of_isSome_eq {α : Type*} {x y : Option α} {c : α → Prop}
    (hunique : ∀ a b, c a → c b → a = b) (hx : ∀ a, x = some a → c a) (hy : ∀ b, y = some b → c b)
    (h : x.isSome = y.isSome) : x = y := by
  rcases x with - | a
  · rw [Option.isSome_none, eq_comm, Option.isSome_eq_false_iff, Option.isNone_iff_eq_none] at h
    exact h.symm
  · obtain ⟨b, rfl⟩ := Option.isSome_iff_exists.1 h.symm
    rw [hunique a b (hx a rfl) (hy b rfl)]

/-- The price version of a plan is that of the price, and a cost bound is the
one the price gives. -/
theorem checkPrice_pins {price : Option PriceSchedule} (h : checkPrice p price = .ok ()) :
    p.priceVersion = (price.map PriceSchedule.version).getD "" ∧
      ∀ cost, p.maximumCost = some cost →
        planMaximumCost p.inputBound p.outputBound price p.operation = .ok (some cost) := by
  rcases price with - | schedule <;> simp only [checkPrice] at h
  · split at h
    next => cases h
    next hnone =>
      push Not at hnone
      refine ⟨hnone.2, fun cost hcost => ?_⟩
      rw [hnone.1] at hcost
      cases hcost
  · split at h
    next => cases h
    next hversion =>
      refine ⟨(not_not.1 hversion).symm, fun cost hcost => ?_⟩
      simp only [hcost] at h
      split at h
      next => cases h
      next want hwant =>
        split at h
        next heq =>
          rw [hwant, heq]
        next => cases h

/-- What `checkModel` pins of a plan with a model. -/
theorem checkModel_pins (h : checkModel s p = .ok ()) (hmodel : p.modelID ≠ "") {version : ℤ}
    {mx : ModelData} (hresource : s.resource p.tenantID .models p.modelID = some ⟨version, mx⟩) :
    (∀ i, p.inputBound = some i → mx.contextLimit = some i) ∧ checkPrice p mx.price = .ok () := by
  simp only [checkModel, if_neg hmodel, hresource] at h
  split at h
  · cases h
  split at h
  · cases h
  split at h
  · cases h
  next hinput =>
    split at h
    · cases h
    refine ⟨fun i hi => ?_, h⟩
    simp only [hi, Option.any_some, Option.all_eq_true, Bool.or_eq_true, decide_eq_true_eq,
      bne_iff_ne, not_forall] at hinput
    obtain ⟨c, hc, hnot⟩ := hinput
    have hic : i = c := by
      by_contra hne
      exact hnot (.inr hne)
    rw [hic]
    exact hc

theorem checkModel_stored (h : checkModel s p = .ok ()) (hmodel : p.modelID ≠ "") :
    ∃ version, ∃ mx : ModelData, s.resource p.tenantID .models p.modelID = some ⟨version, mx⟩ := by
  rcases hr : s.resource p.tenantID .models p.modelID with - | ⟨version, mx⟩
  · simp only [checkModel, if_neg hmodel, hr] at h
    cases h
  · exact ⟨version, mx, rfl⟩

/-- Two plans for one model that leave the same bounds open have the same bounds. -/
theorem AttemptPlan.SameBounds.bounds {q : AttemptPlan} (h : q.SameBounds p)
    (hq : checkModel s q = .ok ()) (hp : checkModel s p = .ok ())
    (htenant : p.tenantID = q.tenantID) (hmodelID : p.modelID = q.modelID) :
    q.inputBound = p.inputBound ∧ q.maximumCost = p.maximumCost ∧
      q.priceVersion = p.priceVersion := by
  by_cases hmodel : q.modelID = ""
  · exact h.unmodeled hmodel
  obtain ⟨version, mx, hresource⟩ := checkModel_stored hq hmodel
  obtain ⟨hinput, hprice⟩ := checkModel_pins hq hmodel hresource
  obtain ⟨hinput', hprice'⟩ := checkModel_pins hp (hmodelID ▸ hmodel)
    (by rw [htenant, hmodelID]; exact hresource)
  obtain ⟨hversion, hcost⟩ := checkPrice_pins hprice
  obtain ⟨hversion', hcost'⟩ := checkPrice_pins hprice'
  have hsame : q.inputBound = p.inputBound :=
    eq_of_isSome_eq
      (fun a b ha hb => Option.some.inj (ha.symm.trans hb)) hinput hinput' h.inputKnown
  -- the price is applied to the same operation and the same bounds
  rw [← hsame, ← h.outputBound, ← h.operation] at hcost'
  refine ⟨hsame, ?_, hversion.trans hversion'.symm⟩
  exact eq_of_isSome_eq
    (fun a b ha hb => Option.some.inj (Except.ok.inj (ha.symm.trans hb))) hcost hcost' h.costKnown

/-- **A replayed plan agrees** with the plan its attempt was begun with exactly
if it has the same operation, alias and output bound and carries a bound where
the other does; without a model also the same bounds. -/
theorem replayed_plan_agrees_iff (platform : Platform) (ops : List Op)
    (hops : Along Op.step (Op.Governed platform) {} ops) (principal : Option Principal)
    (q : AttemptPlan) (now planNow : ℤ) (row : AttemptRow)
    (hrow : (run Op.step {} ops).attempts.lookup ⟨q.tenantID, q.attemptID⟩ = some row)
    (permit : AttemptPermit)
    (hpermit : (Tx.commit (beginAttempt principal q now planNow) (run Op.step {} ops)).1 =
      .ok permit) :
    (∃ caller t t', Op.begin caller row.data.submitted t t' ∈ ops) ∧
      (q.AgreesWith row.data.submitted ↔ q.SameBounds row.data.submitted) := by
  refine ⟨run_submitted ops _ row hrow, ?_⟩
  obtain ⟨_, hrun⟩ := Tx.runs_of_isOk (s := run Op.step {} ops) (by rw [hpermit]; rfl)
  obtain ⟨p, s₁, ⟨-, -, hcheck⟩, -, hpolicy, hplan, hend⟩ := beginAttempt_runs hrun
  obtain ⟨-, hrevision, hq⟩ := checkPlan_ok hcheck
  have hbegun := run_begunWith hops _ row hrow
  rw [hpolicy.attempts, hplan] at hend
  obtain ⟨-, row', hrow', hsame⟩ | ⟨_, _, _, _, hfresh, -⟩ := hend
  swap
  · cases hrow.symm.trans hfresh
  cases hrow.symm.trans hrow'
  rw [if_neg hbegun.named] at hsame
  simp only [sameAttempt, Bool.and_eq_true, beq_iff_eq, and_assoc] at hsame
  obtain ⟨htenant, hrequest, hattempt, hkey, hconnection, haccount, hmodel, hkeyRevision,
    hconfigRevision, -⟩ := hsame
  have hp := hbegun.model (hconfigRevision.trans hrevision)
  constructor
  · intro h
    exact ⟨h.operation, h.alias, h.outputBound, by rw [h.inputBound], by rw [h.maximumCost],
      fun _ => ⟨h.inputBound, h.maximumCost, h.priceVersion⟩⟩
  · intro h
    obtain ⟨hinput, hcost, hversion⟩ := h.bounds hq hp htenant hmodel
    exact ⟨htenant.symm, hrequest.symm, hattempt.symm, hkey.symm, hconnection.symm, haccount.symm,
      hmodel.symm, hkeyRevision.symm, hconfigRevision.symm, h.operation, h.alias, hinput,
      h.outputBound, hcost, hversion⟩

/-! ### A replay for more than was reserved -/

/-- Changes of the configuration as operations of a run. -/
def configures (platform : Platform) : Store → List ConfigOp → List Op
  | _, [] => []
  | s, change :: rest => .configure (change.step platform s) ::
      configures platform (s.configured (change.step platform s)) rest

/-- A tenant with its owner and an administrator's key. -/
def keyedTenant : Store :=
  { ownedTenant with
    apiKeys := AList.singleton ("t", "k") ⟨1, false⟩
    resources := AList.singleton (⟨"t", .apiKeys, "k"⟩ : ResourceKey)
      (⟨1, ({ permissions := ["*"], role := .admin } : KeyData)⟩ : Resource .apiKeys) }

/-- A model with limits, on a connection of that tenant. -/
def boundedModel : List ConfigOp :=
  [.background keyedTenant, ownerPut .connections "c" 0 sampleConnection,
   ownerPut .models "m" 0 { sampleModel with contextLimit := some 100, outputLimit := some 4096 }]

/-- A plan for an output of so many tokens of that model. -/
def planForOutput (output : ℤ) : AttemptPlan :=
  { samplePlan "r" "x" with
    accountID := "acct", modelID := "m", configRevision := 2, inputBound := some 100
    outputBound := some output }

/-- The attempt for ten tokens is begun under a limit of a thousand a minute. -/
def begunForTen : List Op :=
  configures samplePlatform {} boundedModel ++
    [.sync "t" "l" (some { scope := .tenant, scopeID := "t", tokensPerMinute := 1000 }) 100,
     .begin none (planForOutput 10) 100 100]

theorem begunForTen_governed : Along Op.step (Op.Governed samplePlatform) {} begunForTen :=
  ⟨⟨_, rfl⟩, ⟨_, rfl⟩, ⟨_, rfl⟩, trivial, trivial, trivial⟩

/-- The same plan again agrees with itself. -/
theorem replay_for_ten_agrees :
    ∃ row, (run Op.step {} begunForTen).attempts.lookup ⟨"t", "x"⟩ = some row ∧
      (planForOutput 10).AgreesWith row.data.submitted := by
  have hsome : ((run Op.step {} begunForTen).attempts.lookup ⟨"t", "x"⟩).map
      (fun row => row.data.submitted) = some (planForOutput 10) := by decide +kernel
  obtain ⟨row, hrow, hsubmitted⟩ := Option.map_eq_some_iff.1 hsome
  have hiff := (replayed_plan_agrees_iff samplePlatform begunForTen begunForTen_governed none
    (planForOutput 10) 100 100 row hrow ⟨"t", "r", "x", 2⟩ rfl).2
  refine ⟨row, hrow, hiff.2 ?_⟩
  rw [hsubmitted]
  exact ⟨rfl, rfl, rfl, rfl, rfl, fun _ => ⟨rfl, rfl, rfl⟩⟩

/-- A plan for 900 tokens is answered with the permit of the attempt, which
holds 110 tokens. -/
theorem replay_for_more_than_reserved :
    ∃ row, (run Op.step {} begunForTen).attempts.lookup ⟨"t", "x"⟩ = some row ∧
      row.data.held = [110] ∧
      (Tx.commit (beginAttempt none (planForOutput 900) 100 100) (run Op.step {} begunForTen)).1 =
        .ok ⟨"t", "r", "x", 2⟩ ∧
      ¬ (planForOutput 900).AgreesWith row.data.submitted := by
  have hsome : ((run Op.step {} begunForTen).attempts.lookup ⟨"t", "x"⟩).map
      (fun row => (row.data.held, row.data.submitted.outputBound)) = some ([110], some 10) := by
    decide +kernel
  obtain ⟨row, hrow, hparts⟩ := Option.map_eq_some_iff.1 hsome
  simp only [Prod.mk.injEq] at hparts
  obtain ⟨hheld, houtput⟩ := hparts
  refine ⟨row, hrow, hheld, rfl, fun h => ?_⟩
  have hbound := h.outputBound
  rw [houtput] at hbound
  revert hbound
  decide

end Hoorific
