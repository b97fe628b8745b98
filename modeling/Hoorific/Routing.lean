/-
Routing: the targets of an alias that may serve a request, in the order in
which they are tried (`Order`).  A first loop keeps the targets that are
eligible; the others are then drawn tier by tier, the lower priority
first, within a tier by weight.  Without fallback one target is returned.

The environment of a call is in its arguments: what the health source
answers and whether the context has ended (`Health`), and the random draws
(`random`, one for each weighted choice, or the error of the source).

The code removes a target from its tier in place, in the array that the tiers
share.  In the model a removal is `List.eraseIdx`: the tier shows just that
afterwards, and the tiers to come are untouched (`shown_removed`).
-/
import Mathlib.Data.List.Sort
import Mathlib.Data.List.TakeWhile
import Hoorific.Lib.Check
import Hoorific.Policy
import Hoorific.Runtime

namespace Hoorific

open List Check

/-! ### Requirements -/

structure Requirements where
  operation : Operation
  features : List String := []
  inputModalities : List String := []
  outputModalities : List String := []
  inputTokens : Option Int := none
  outputTokens : Option Int := none
  region : String := ""
  preferred : Option RouteTarget := none
deriving DecidableEq

/-- The tokens of a request fit a model; without counts they do. -/
def Requirements.tokensFit (req : Requirements) (m : Model) : Bool :=
  req.inputTokens.isNone && req.outputTokens.isNone ||
    (validateTokens (req.inputTokens.getD 0) (req.outputTokens.getD 0) m.contextLimit
      m.outputLimit).toBool

def supports (m : Model) (req : Requirements) : Bool :=
  m.operations.contains req.operation &&
    req.features.all (fun f => f != "" && m.features.lookup f == some .supported) &&
    req.inputModalities.all (fun x => x != "" && m.inputModalities.contains x) &&
    req.outputModalities.all (fun x => x != "" && m.outputModalities.contains x) &&
    req.tokensFit m

/-! ### Health -/

structure HealthScope where
  tenantID : String
  revision : Int
deriving DecidableEq

def targetScope (s : RuntimeSnapshot) (target : RouteTarget) : Option HealthScope :=
  if s.revision < 0 ∨ target.connectionID = "" ∨ target.modelID = "" then none
  else match s.connections.lookup target.connectionID, s.models.lookup target.modelID with
    | some connection, some model =>
      if connection.id ≠ target.connectionID ∨ connection.tenantID = "" then none
      else if model.connectionID ≠ target.connectionID then none
      else some ⟨connection.tenantID, s.revision⟩
    | _, _ => none

/-- A health source, and whether the context has ended once it has answered. -/
structure Health where
  healthyScoped : HealthScope → RouteTarget → Except String Bool
  ended : RouteTarget → Option String

/-- The health check of a target.  Only a definite answer drops it: without a
scope the source is not asked, and an error counts as no answer. -/
def healthy (s : RuntimeSnapshot) (health : Option Health) (t : RouteTarget) : Except String Bool :=
  match health with
  | none => .ok true
  | some source =>
    let answer : Except String Bool := match targetScope s t with
      | none => .ok true
      | some scope => source.healthyScoped scope t
    match source.ended t with
    | some err => .error err
    | none => .ok (answer.toOption.getD true)

/-! ### Eligible targets -/

section Eligible

variable (s : RuntimeSnapshot) (p : RoutePolicy) (req : Requirements)

/-- The account-pool rule: the pool is there, for the connector, and has the account. -/
def poolAdmits (c : Connection) : Bool :=
  p.accountPoolID == "" || (s.accountPools.lookup p.accountPoolID).any fun pool =>
    pool.provider == c.connector && pool.accountIDs.contains c.accountID

/-- A target of the alias that the request may go to. -/
def admits (t : RouteTarget) : Bool :=
  match s.connections.lookup t.connectionID, s.models.lookup t.modelID with
  | some c, some m =>
    let region := if t.region = "" then c.region else t.region
    !c.disabled && m.connectionID == t.connectionID && supports m req &&
      (t.region == "" || c.region == "" || t.region == c.region) &&
      (req.region == "" || region == req.region) &&
      (p.residency.isEmpty || p.residency.contains region) && poolAdmits s p c
  | _, _ => false

/-- The body of the first loop of `Order`. -/
def addEligible (health : Option Health) (eligible : List RouteTarget) (t : RouteTarget) :
    Except String (List RouteTarget) :=
  if admits s p req t = false then .ok eligible
  else if t.priority < 0 ∨ t.weight ≤ 0 then .error "invalid route priority or weight"
  else match healthy s health t with
    | .error err => .error err
    | .ok true => .ok (eligible ++ [t])
    | .ok false => .ok eligible

end Eligible

/-- The policy of an alias; the zero policy if it has none. -/
def RuntimeSnapshot.policyOf (s : RuntimeSnapshot) (name : String) : RoutePolicy :=
  (s.routePolicies.lookup name).getD {}

/-- The first loop of `Order`. -/
def eligibleTargets (s : RuntimeSnapshot) (name : String) (req : Requirements)
    (health : Option Health) : Except String (List RouteTarget) :=
  ((s.aliases.lookup name).getD []).foldlM (addEligible s (s.policyOf name) req health) []

/-- Without a health source the eligible targets are those the request may go
to, if priorities and weights are in order. -/
theorem eligibleTargets_eq_filter {s : RuntimeSnapshot} {name : String} {targets : List RouteTarget}
    (halias : s.aliases.lookup name = some targets)
    (hweights : ∀ t ∈ targets, 0 ≤ t.priority ∧ 0 < t.weight) (req : Requirements) :
    eligibleTargets s name req none = .ok (targets.filter (admits s (s.policyOf name) req)) := by
  have hloop : ∀ (l acc : List RouteTarget), (∀ t ∈ l, 0 ≤ t.priority ∧ 0 < t.weight) →
      l.foldlM (addEligible s (s.policyOf name) req none) acc =
        .ok (acc ++ l.filter (admits s (s.policyOf name) req)) := by
    intro l
    induction l with
    | nil =>
      intro acc _
      rw [filter_nil, append_nil]
      rfl
    | cons t l ih =>
      intro acc hl
      obtain ⟨ht, hrest⟩ := forall_mem_cons.1 hl
      rw [foldlM_cons]
      rcases hadm : admits s (s.policyOf name) req t with - | -
      · have hstep : addEligible s (s.policyOf name) req none acc t = .ok acc := by
          simp [addEligible, hadm]
        rw [hstep, filter_cons_of_neg (by simp [hadm])]
        exact ih acc hrest
      · have hstep : addEligible s (s.policyOf name) req none acc t = .ok (acc ++ [t]) := by
          have horder : ¬ (t.priority < 0 ∨ t.weight ≤ 0) := by omega
          simp [addEligible, hadm, horder, healthy]
        have hrun := ih (acc ++ [t]) hrest
        rw [append_assoc] at hrun
        rw [hstep, filter_cons_of_pos hadm]
        exact hrun
  rw [eligibleTargets, halias]
  exact hloop targets [] hweights

/-! ### Drawing -/

/-- The weights of a tier, added with a check for overflow. -/
def addWeight (total : Int) (x : RouteTarget) : Except String Int :=
  if x.weight ≤ 0 ∨ x.weight > maxInt64 - total then .error "route weight overflow"
  else .ok (total + x.weight)

/-- The target a pick falls on. -/
def pickIndex : List RouteTarget → Int → Except String Nat
  | [], _ => .error "weighted selection exhausted"
  | x :: xs, pick => if pick < x.weight then .ok 0 else (pickIndex xs (pick - x.weight)).map (· + 1)

/-- `weightedIndex`; the draw is taken below the total weight. -/
def weightedIndex (xs : List RouteTarget) (draw : Except String Nat) : Except String Nat := do
  let total ← xs.foldlM addWeight 0
  match draw with
  | .error err => .error ("weighted selection: " ++ err)
  | .ok n => pickIndex xs (n % total)

/-- What a slice shows of its array. -/
def shown {α : Type*} (a : Nat → α) (offset length : Nat) : List α :=
  (range length).map fun j => a (offset + j)

/-- The array after `append(tier[:i], tier[i+1:]...)`, for element `n` of the array
and a slice that ends at `stop`: what follows is copied down. -/
def removed {α : Type*} (a : Nat → α) (n stop : Nat) : Nat → α := fun m =>
  if n ≤ m ∧ m + 1 < stop then a (m + 1) else a m

/-- **A removal in place** takes one element from its slice, and changes nothing
behind it. -/
theorem shown_removed {α : Type*} (a : Nat → α) (offset : Nat) {i length : Nat} (hi : i < length) :
    shown (removed a (offset + i) (offset + length)) offset (length - 1) =
        (shown a offset length).eraseIdx i ∧
      ∀ behind n, offset + length ≤ behind →
        shown (removed a (offset + i) (offset + length)) behind n = shown a behind n := by
  constructor
  · refine ext_getElem (by simp [shown, length_eraseIdx, hi]) fun j hj _ => ?_
    simp only [shown, length_map, length_range] at hj
    rw [getElem_eraseIdx]
    simp only [shown, getElem_map, getElem_range, removed]
    split_ifs <;> first | rfl | omega
  · intro behind n hbehind
    refine map_congr_left fun j _ => if_neg ?_
    omega

/-- The loop over one tier: `n` bounds its length, `k` counts the draws. -/
def drawTier (fallback : Bool) (random : Nat → Except String Nat) :
    Nat → List RouteTarget → List RouteTarget → Nat → Except String (List RouteTarget × Nat)
  | 0, _, ordered, k => .ok (ordered, k)
  | n + 1, tier, ordered, k =>
    if tier.isEmpty || !ordered.isEmpty && !fallback then .ok (ordered, k)
    else do
      let i ← weightedIndex tier (random k)
      drawTier fallback random n (tier.eraseIdx i) (ordered ++ tier[i]?.toList) (k + 1)

def same (a b : RouteTarget) : Bool :=
  a.connectionID == b.connectionID && a.modelID == b.modelID && a.region == b.region

/-- The preferred target goes first, if it is in the first tier. -/
def prefer (p : RoutePolicy) (preferred : Option RouteTarget) (ordered tier : List RouteTarget) :
    List RouteTarget × List RouteTarget :=
  match preferred with
  | none => (ordered, tier)
  | some hint =>
    if ordered.isEmpty && p.affinity then
      match tier.findIdx? fun t => same t hint with
      | none => (ordered, tier)
      | some i => (ordered ++ tier[i]?.toList, tier.eraseIdx i)
    else (ordered, tier)

/-- The loop over the tiers: `n` bounds their number. -/
def orderTiers (p : RoutePolicy) (preferred : Option RouteTarget)
    (random : Nat → Except String Nat) :
    Nat → List RouteTarget → List RouteTarget → Nat → Except String (List RouteTarget)
  | 0, _, ordered, _ => .ok ordered
  | _ + 1, [], ordered, _ => .ok ordered
  | n + 1, t :: ts, ordered, k => do
    let tier := t :: ts.takeWhile fun x => x.priority == t.priority
    let rest := ts.dropWhile fun x => x.priority == t.priority
    let (ordered, tier) := prefer p preferred ordered tier
    let (ordered, k) ← drawTier p.fallback random tier.length tier ordered k
    if p.fallback then orderTiers p preferred random n rest ordered k
    else .ok (ordered.take 1)

/-- `Order`.  `ended` is the state of the context when it is called. -/
def order (ended : Option String) (s : RuntimeSnapshot) (quote : String → String) (name : String)
    (req : Requirements) (health : Option Health) (random : Nat → Except String Nat) :
    Except String (List RouteTarget) := do
  require (name != "" && req.operation != "") "alias and operation are required"
  match ended with
  | some err => .error err
  | none => do
    let eligible ← eligibleTargets s name req health
    require (!eligible.isEmpty) ("no healthy compatible target for alias " ++ quote name)
    let sorted := eligible.insertionSort fun a b => a.priority ≤ b.priority
    orderTiers (s.policyOf name) req.preferred random sorted.length sorted [] 0

/-! ### What `Order` returns -/

section Law

variable {s : RuntimeSnapshot} {p : RoutePolicy} {req : Requirements} {health : Option Health}
  {preferred : Option RouteTarget} {random : Nat → Except String Nat}
  {tier ordered out l : List RouteTarget}

/-- A target that the request may go to and that is not known to be unhealthy. -/
def eligible (s : RuntimeSnapshot) (p : RoutePolicy) (req : Requirements) (health : Option Health)
    (t : RouteTarget) : Bool :=
  admits s p req t && (healthy s health t).toOption == some true

variable {t : RouteTarget} {acc acc' : List RouteTarget} {i n k : Nat}

theorem eligible_iff : eligible s p req health t = true ↔
    admits s p req t = true ∧ healthy s health t = .ok true := by
  rw [eligible]
  rcases healthy s health t with e | b <;> simp [Except.toOption]

theorem addEligible_ok (h : addEligible s p req health acc t = .ok acc') :
    acc' = acc ++ [t].filter (eligible s p req health) := by
  rw [addEligible] at h
  rcases hadm : admits s p req t with - | -
  · rw [if_pos hadm] at h
    cases h
    simp [eligible, hadm]
  rw [if_neg (by simp [hadm])] at h
  split at h
  · cases h
  rcases hh : healthy s health t with e | (- | -) <;> rw [hh] at h
  · cases h
  · cases h
    simp [eligible, hh, Except.toOption]
  · cases h
    simp [eligible, hadm, hh, Except.toOption]

theorem eligibleLoop_ok (h : l.foldlM (addEligible s p req health) acc = .ok acc') :
    acc' = acc ++ l.filter (eligible s p req health) := by
  induction l generalizing acc with
  | nil =>
    cases h
    simp
  | cons t l ih =>
    rw [foldlM_cons, bind_ok] at h
    obtain ⟨acc₁, hstep, hrest⟩ := h
    rw [ih hrest, addEligible_ok hstep, append_assoc, ← filter_append, singleton_append]

theorem pickIndex_lt {xs : List RouteTarget} {pick : Int} (h : pickIndex xs pick = .ok i) :
    i < xs.length := by
  induction xs generalizing pick i with
  | nil => cases h
  | cons x xs ih =>
    rw [pickIndex] at h
    split at h
    · cases h
      exact Nat.succ_pos _
    rcases hrest : pickIndex xs (pick - x.weight) with e | j <;> rw [hrest] at h
    · cases h
    · cases h
      exact Nat.succ_lt_succ (ih hrest)

theorem weightedIndex_lt {draw : Except String Nat} (h : weightedIndex tier draw = .ok i) :
    i < tier.length := by
  obtain ⟨total, -, h⟩ := bind_ok.1 h
  rcases draw with e | n
  · cases h
  · exact pickIndex_lt h

/-- What is drawn from a tier, with what is left of it, is the tier.  With
fallback nothing is left. -/
theorem drawTier_ok {fallback : Bool} {k' : Nat} (hn : tier.length ≤ n)
    (h : drawTier fallback random n tier ordered k = .ok (out, k')) :
    ∃ drawn rest, out = ordered ++ drawn ∧ (drawn ++ rest).Perm tier ∧
      (fallback = true → rest = []) ∧ (tier ≠ [] → out ≠ []) := by
  induction n generalizing tier ordered k with
  | zero =>
    obtain rfl := eq_nil_of_length_eq_zero (Nat.le_zero.1 hn)
    cases h
    exact ⟨[], [], (append_nil _).symm, .refl _, fun _ => rfl, fun h => absurd rfl h⟩
  | succ n ih =>
    rw [drawTier] at h
    split at h
    case isTrue hstop =>
      cases h
      refine ⟨[], tier, (append_nil _).symm, .refl _, ?_, ?_⟩
      · rintro rfl
        simpa using hstop
      · rintro hne rfl
        simp [hne] at hstop
    case isFalse =>
      obtain ⟨i, hi, h⟩ := bind_ok.1 h
      have hlt := weightedIndex_lt hi
      rw [List.getElem?_eq_getElem hlt] at h
      obtain ⟨drawn, rest, rfl, hperm, hrest, -⟩ := ih (by
        rw [length_eraseIdx_of_lt hlt]
        omega) h
      refine ⟨tier[i] :: drawn, rest, by simp, ?_, hrest, fun _ => by simp⟩
      exact (hperm.cons _).trans (getElem_cons_eraseIdx_perm hlt)

/-- The preferred target is taken out of the tier and put first. -/
theorem prefer_ok {ordered' tier' : List RouteTarget}
    (h : prefer p preferred ordered tier = (ordered', tier')) :
    ∃ first, ordered' = ordered ++ first ∧ (first ++ tier').Perm tier ∧
      ∀ hint, ordered = [] → p.affinity = true → preferred = some hint →
        (∃ t ∈ tier, same t hint = true) → ∃ t, first = [t] ∧ same t hint = true := by
  rcases preferred with - | hint
  · cases h
    exact ⟨[], (append_nil _).symm, .refl _, fun hint _ _ h => nomatch h⟩
  rw [prefer] at h
  split at h
  case isFalse hno =>
    cases h
    refine ⟨[], (append_nil _).symm, .refl _, fun hint hempty ha _ _ => ?_⟩
    simp [hempty, ha] at hno
  case isTrue =>
    rcases hi : tier.findIdx? fun t => same t hint with - | i
    · rw [hi] at h
      cases h
      refine ⟨[], (append_nil _).symm, .refl _, fun hint' _ _ heq ⟨t, ht, hsame⟩ => ?_⟩
      cases heq
      rw [List.findIdx?_eq_none_iff.1 hi t ht] at hsame
      cases hsame
    · obtain ⟨hlt, hsame, -⟩ := List.findIdx?_eq_some_iff_getElem.1 hi
      simp only [hi, List.getElem?_eq_getElem hlt] at h
      cases h
      refine ⟨[tier[i]], rfl, getElem_cons_eraseIdx_perm hlt, fun hint' _ _ heq _ => ?_⟩
      cases heq
      exact ⟨tier[i], rfl, hsame⟩

/-- Priorities that do not fall. -/
def Ascending (l : List RouteTarget) : Prop := l.Pairwise fun a b => a.priority ≤ b.priority

theorem lt_of_mem_rest {a : Int} {ts : List RouteTarget} (hsorted : Ascending ts)
    (hle : ∀ x ∈ ts, a ≤ x.priority) :
    ∀ x ∈ ts.dropWhile fun x => x.priority == a, a < x.priority := by
  induction ts with
  | nil => exact fun x hx => absurd hx not_mem_nil
  | cons y ts ih =>
    obtain ⟨hy, hrest⟩ := pairwise_cons.1 hsorted
    rw [forall_mem_cons] at hle
    by_cases heq : y.priority = a
    · rw [dropWhile_cons_of_pos (by simp [heq])]
      exact ih hrest hle.2
    rw [dropWhile_cons_of_neg (by simp [heq])]
    refine forall_mem_cons.2 ⟨by omega, fun x hx => ?_⟩
    have := hy x hx
    omega

/-- A target in the list of which no other has a lower number. -/
def Lowest (l : List RouteTarget) (t : RouteTarget) : Prop :=
  t ∈ l ∧ ∀ x ∈ l, t.priority ≤ x.priority

/-- Where every target of the first tier has the number `a` and the others a
higher one, the first tier is what has the lowest number. -/
theorem lowest_iff_mem {a : Int} {rest : List RouteTarget} (hne : tier ≠ [])
    (hequal : ∀ x ∈ tier, x.priority = a) (habove : ∀ x ∈ rest, a < x.priority) :
    Lowest (tier ++ rest) t ↔ t ∈ tier := by
  constructor
  · rintro ⟨ht, hle⟩
    obtain ⟨x, hx⟩ := exists_mem_of_ne_nil tier hne
    refine (mem_append.1 ht).resolve_right fun ht => ?_
    have hlow := hle x (mem_append_left _ hx)
    have hequal := hequal x hx
    have habove := habove t ht
    omega
  · refine fun ht => ⟨mem_append_left _ ht, fun y hy => ?_⟩
    rw [hequal t ht]
    rcases mem_append.1 hy with hy | hy
    · exact (hequal y hy).ge
    · exact (habove y hy).le

/-- What is taken from a tier: the preferred target, and what is drawn after it. -/
theorem taken_ok {ordered' tier' : List RouteTarget} {k' : Nat} (hne : tier ≠ [])
    (hpref : prefer p preferred ordered tier = (ordered', tier'))
    (hdraw : drawTier p.fallback random tier'.length tier' ordered' k = .ok (out, k')) :
    ∃ taken left, out = ordered ++ taken ∧ (taken ++ left).Perm tier ∧
      (p.fallback = true → left = []) ∧ (ordered = [] → taken ≠ []) ∧
      ∀ hint, ordered = [] → p.affinity = true → preferred = some hint →
        (∃ t ∈ tier, same t hint = true) → ∃ t rest, taken = t :: rest ∧ same t hint = true := by
  obtain ⟨first, rfl, hperm, hhint⟩ := prefer_ok hpref
  obtain ⟨drawn, left, rfl, hdrawn, hall, hsome⟩ := drawTier_ok le_rfl hdraw
  refine ⟨first ++ drawn, left, append_assoc _ _ _, ?_, hall, ?_, ?_⟩
  · rw [append_assoc]
    exact (hdrawn.append_left first).trans hperm
  · rintro rfl htaken
    obtain ⟨rfl, rfl⟩ := append_eq_nil_iff.1 htaken
    -- nothing is taken only of an empty tier
    have htier' : tier' = [] := by_contra fun hne => hsome hne rfl
    subst htier'
    exact hne hperm.symm.eq_nil
  · intro hint ho ha hp ht
    obtain ⟨t, rfl, hsame⟩ := hhint hint ho ha hp ht
    exact ⟨t, drawn, rfl, hsame⟩

/-- The list is ordered by priority without losing or repeating a target; or,
without fallback, one target of the first tier is chosen.  The hint is
followed as far as the first tier goes. -/
theorem orderTiers_ok (hn : l.length ≤ n) (hne : l ≠ []) (hsorted : Ascending l)
    (h : orderTiers p preferred random n l ordered k = .ok out) :
    (p.fallback = true → ∃ drawn, out = ordered ++ drawn ∧ drawn.Perm l ∧ Ascending drawn) ∧
    (ordered = [] → p.fallback = false → ∃ t, out = [t] ∧ Lowest l t) ∧
    ∀ hint, ordered = [] → p.affinity = true → preferred = some hint →
      (∃ t, Lowest l t ∧ same t hint = true) →
        ∃ t rest, out = t :: rest ∧ Lowest l t ∧ same t hint = true := by
  induction n generalizing l ordered k with
  | zero => exact absurd (eq_nil_of_length_eq_zero (Nat.le_zero.1 hn)) hne
  | succ n ih =>
    rcases l with - | ⟨t, ts⟩
    · exact absurd rfl hne
    obtain ⟨hfirst, hts⟩ := pairwise_cons.1 hsorted
    rw [orderTiers] at h
    generalize htier : t :: ts.takeWhile (fun x => x.priority == t.priority) = tier at h
    generalize hrest : ts.dropWhile (fun x => x.priority == t.priority) = rest at h
    have hsplit : t :: ts = tier ++ rest := by
      rw [← htier, ← hrest, cons_append, takeWhile_append_dropWhile]
    have hequal : ∀ x ∈ tier, x.priority = t.priority := by
      rw [← htier]
      refine forall_mem_cons.2 ⟨rfl, fun x hx => ?_⟩
      simpa using mem_takeWhile_imp hx
    have habove : ∀ x ∈ rest, t.priority < x.priority := hrest ▸ lt_of_mem_rest hts hfirst
    have htierNe : tier ≠ [] := htier ▸ cons_ne_nil _ _
    have hlowest : ∀ x, Lowest (t :: ts) x ↔ x ∈ tier := fun x =>
      hsplit ▸ lowest_iff_mem htierNe hequal habove
    rcases hpref : prefer p preferred ordered tier with ⟨ordered', tier'⟩
    rw [hpref] at h
    obtain ⟨⟨_, k'⟩, hdraw, h⟩ := bind_ok.1 h
    obtain ⟨taken, left, rfl, htaken, hall, hsome, hhint⟩ := taken_ok htierNe hpref hdraw
    have hmem : ∀ x ∈ taken, x ∈ tier := fun x hx => htaken.mem_iff.1 (mem_append_left _ hx)
    have hpreferred : ∀ hint, ordered = [] → p.affinity = true → preferred = some hint →
        (∃ t', Lowest (t :: ts) t' ∧ same t' hint = true) →
          ∃ t' rest', taken = t' :: rest' ∧ Lowest (t :: ts) t' ∧ same t' hint = true := by
      rintro hint ho ha hp ⟨x, hx, hsame⟩
      obtain ⟨t', rest', rfl, hsame'⟩ := hhint hint ho ha hp ⟨x, (hlowest x).1 hx, hsame⟩
      exact ⟨t', rest', rfl, (hlowest t').2 (hmem t' mem_cons_self), hsame'⟩
    rcases hf : p.fallback with - | -
    · -- one target is returned
      rw [hf] at h
      cases h
      refine ⟨Bool.false_ne_true.elim, ?_, ?_⟩
      · rintro rfl -
        obtain ⟨x, rest', rfl⟩ := exists_cons_of_ne_nil (hsome rfl)
        exact ⟨x, rfl, (hlowest x).2 (hmem x mem_cons_self)⟩
      · rintro hint rfl ha hp ht
        obtain ⟨t', rest', rfl, hlow, hsame⟩ := hpreferred hint rfl ha hp ht
        exact ⟨t', [], rfl, hlow, hsame⟩
    · -- the tier has been taken whole, and the rest follows it
      obtain rfl := hall hf
      rw [append_nil] at htaken
      have hgoes : ∃ drawn, out = ordered ++ (taken ++ drawn) ∧ drawn.Perm rest ∧
          Ascending drawn := by
        simp only [hf, if_true] at h
        by_cases hempty : rest = []
        · rw [hempty] at h
          cases n <;> cases h
          all_goals exact ⟨[], by simp, by rw [hempty], List.Pairwise.nil⟩
        have hlen := congrArg List.length hsplit
        rw [← htier] at hlen
        simp only [length_append, length_cons] at hlen hn
        have hsuffix : Ascending rest := hrest ▸ hts.sublist (dropWhile_sublist _)
        obtain ⟨drawn, rfl, hdrawn, hasc⟩ := (ih (by omega) hempty hsuffix h).1 hf
        exact ⟨drawn, by simp, hdrawn, hasc⟩
      obtain ⟨drawn, rfl, hdrawn, hasc⟩ := hgoes
      refine ⟨fun _ => ⟨_, rfl, ?_, ?_⟩, fun _ h => Bool.noConfusion h, ?_⟩
      · rw [hsplit]
        exact htaken.append hdrawn
      · refine pairwise_append.2 ⟨?_, hasc, fun x hx y hy => ?_⟩
        · refine pairwise_of_forall_mem_list fun x hx y hy => ?_
          rw [hequal x (hmem x hx), hequal y (hmem y hy)]
        · rw [hequal x (hmem x hx)]
          exact (habove y (hdrawn.mem_iff.1 hy)).le
      · rintro hint rfl ha hp ht
        obtain ⟨t', rest', rfl, hlow, hsame⟩ := hpreferred hint rfl ha hp ht
        exact ⟨t', rest' ++ drawn, rfl, hlow, hsame⟩

end Law

/-- **The routing order law**: whatever the health source answers and whatever
is drawn, with fallback the result is the eligible targets, each as often as
it is listed, by priority; without fallback it is one eligible target of the
lowest number; a preferred target that is eligible and of the lowest number
comes first; and every target returned may serve the request and is not
known to be unhealthy. -/
theorem order_law (ended : Option String) (s : RuntimeSnapshot) (quote : String → String)
    (name : String) (req : Requirements) (health : Option Health)
    (random : Nat → Except String Nat) (out : List RouteTarget)
    (h : order ended s quote name req health random = .ok out) :
    let p := s.policyOf name
    let targets := ((s.aliases.lookup name).getD []).filter (eligible s p req health)
    (p.fallback = true → out.Perm targets ∧ Ascending out) ∧
    (p.fallback = false → ∃ t, out = [t] ∧ Lowest targets t) ∧
    (∀ hint, p.affinity = true → req.preferred = some hint →
      (∃ t, Lowest targets t ∧ same t hint = true) →
        ∃ t rest, out = t :: rest ∧ Lowest targets t ∧ same t hint = true) ∧
    ∀ t ∈ out, admits s p req t = true ∧ healthy s health t = .ok true := by
  intro p targets
  simp only [order, bind_ok, require_ok] at h
  obtain ⟨-, -, h⟩ := h
  rcases ended with - | err
  · simp only [bind_ok, require_ok] at h
    obtain ⟨found, hfound, -, hne, h⟩ := h
    obtain rfl : found = targets := by simpa using eligibleLoop_ok hfound
    have hperm := perm_insertionSort (fun a b : RouteTarget => a.priority ≤ b.priority) targets
    have hlow : ∀ t, Lowest (targets.insertionSort fun a b => a.priority ≤ b.priority) t ↔
        Lowest targets t := fun t => by simp only [Lowest, mem_insertionSort]
    obtain ⟨hall, hone, hhint⟩ := orderTiers_ok le_rfl
      (fun hnil => by
        rw [hnil] at hperm
        simp [← hperm.nil_eq] at hne)
      (pairwise_insertionSort _ targets) h
    simp only [hlow, forall_const] at hone hhint
    have hfallback : p.fallback = true → out.Perm targets ∧ Ascending out := by
      intro hf
      obtain ⟨drawn, rfl, hdrawn, hasc⟩ := hall hf
      exact ⟨hdrawn.trans hperm, hasc⟩
    refine ⟨hfallback, hone, hhint, fun t ht => ?_⟩
    have hmem : t ∈ targets := by
      rcases hf : p.fallback with - | -
      · obtain ⟨t', rfl, hlow⟩ := hone hf
        exact mem_singleton.1 ht ▸ hlow.1
      · exact (hfallback hf).1.mem_iff.1 ht
    exact eligible_iff.1 (mem_filter.1 hmem).2
  · cases h

/-- A connection with one model, and an alias with two targets for it. -/
def twoTargets : RuntimeSnapshot where
  revision := 1
  connections := AList.insert "c"
    { tenantID := "t", id := "c", version := 1, connector := "openai", accountID := "a" } ∅
  models := AList.insert "m"
    { catalogID := "m", id := "m", connectionID := "c", version := 1, operations := ["generate"] } ∅
  aliases := AList.insert "a" [⟨"c", "m", 2, 1, ""⟩, ⟨"c", "m", 1, 1, ""⟩] ∅
  routePolicies := AList.insert "a" { fallback := true } ∅

/-- The second target is tried first. -/
theorem order_law_twoTargets :
    order none twoTargets id "a" { operation := "generate" } none (fun _ => .ok 0) =
        .ok [⟨"c", "m", 1, 1, ""⟩, ⟨"c", "m", 2, 1, ""⟩] ∧
      Ascending [⟨"c", "m", 1, 1, ""⟩, ⟨"c", "m", 2, 1, ""⟩] :=
  ⟨rfl, ((order_law none twoTargets id "a" { operation := "generate" } none (fun _ => .ok 0) _
    rfl).1 rfl).2⟩

/-! ### Weighted choice -/

section Weights

/-- The total weight of a tier, whose weights are positive. -/
def totalWeight (xs : List RouteTarget) : Nat := (xs.map (·.weight.toNat)).sum

theorem totalWeight_cons {x : RouteTarget} {xs : List RouteTarget} (hx : 0 < x.weight) :
    (totalWeight (x :: xs) : Int) = x.weight + totalWeight xs := by
  simp only [totalWeight, map_cons, sum_cons]
  omega

variable {xs : List RouteTarget} (hpos : ∀ x ∈ xs, 0 < x.weight)

include hpos

/-- Weights whose sum fits pass the check for overflow. -/
theorem addWeights_ok (total : Int) (hsum : total + totalWeight xs ≤ maxInt64) :
    xs.foldlM addWeight total = .ok (total + totalWeight xs) := by
  induction xs generalizing total with
  | nil => simp [totalWeight, pure, Except.pure]
  | cons x xs ih =>
    rw [forall_mem_cons] at hpos
    rw [totalWeight_cons hpos.1, ← add_assoc] at *
    have hstep : addWeight total x = .ok (total + x.weight) := if_neg (by omega)
    rw [foldlM_cons, hstep]
    exact ih hpos.2 _ hsum

/-- A pick below the total weight falls on a target. -/
theorem exists_pickIndex (pick : Int) (hnonneg : 0 ≤ pick) (hlt : pick < totalWeight xs) :
    ∃ i, pickIndex xs pick = .ok i := by
  induction xs generalizing pick with
  | nil => exact absurd hlt (by simpa [totalWeight] using hnonneg)
  | cons x xs ih =>
    rw [forall_mem_cons] at hpos
    rw [totalWeight_cons hpos.1] at hlt
    rw [pickIndex]
    split
    · exact ⟨0, rfl⟩
    · obtain ⟨i, hi⟩ := ih hpos.2 (pick - x.weight) (by omega) (by omega)
      exact ⟨i + 1, by rw [hi]; rfl⟩

/-- Of the picks below the total weight, as many fall on a target as it weighs. -/
theorem countP_pickIndex {i : Nat} (hi : i < xs.length) :
    ((range (totalWeight xs)).countP fun n : Nat => pickIndex xs n = .ok i) =
      xs[i].weight.toNat := by
  induction xs generalizing i with
  | nil => cases hi
  | cons x xs ih =>
    rw [forall_mem_cons] at hpos
    have hfirst : ∀ n ∈ range x.weight.toNat, pickIndex (x :: xs) n = .ok 0 := by
      intro n hn
      rw [mem_range] at hn
      exact if_pos (by omega)
    have hlater : ∀ (n : Nat) i, pickIndex (x :: xs) (x.weight.toNat + n : Nat) = .ok i ↔
        0 < i ∧ pickIndex xs n = .ok (i - 1) := by
      intro n i
      have hpick : ((x.weight.toNat + n : Nat) : Int) - x.weight = n := by omega
      rw [pickIndex, if_neg (by omega), hpick]
      rcases pickIndex xs n with e | j
      · simp [Except.map]
      · simp only [Except.map, Except.ok.injEq]
        omega
    rw [totalWeight, map_cons, sum_cons, range_add, countP_append, countP_map]
    simp only [Function.comp_def, hlater]
    cases i with
    | zero =>
      rw [countP_eq_length.2 (by simpa using hfirst)]
      simp
    | succ i =>
      rw [countP_eq_zero.2 (by intro n hn; simp [hfirst n hn])]
      simpa [totalWeight] using ih hpos.2 (Nat.lt_of_succ_lt_succ hi)

end Weights

/-- **Weighted choice is exact**: no draw finds the weights exhausted, and of the draws
below the total weight as many fall on a target as it weighs. -/
theorem weightedIndex_exact {xs : List RouteTarget} (hne : xs ≠ []) (hpos : ∀ x ∈ xs, 0 < x.weight)
    (hsum : totalWeight xs ≤ maxInt64) :
    (∀ draw, weightedIndex xs draw ≠ .error "weighted selection exhausted") ∧
      ∀ i (hi : i < xs.length), ((range (totalWeight xs)).countP fun n =>
        weightedIndex xs (.ok n) = .ok i : Int) = xs[i].weight := by
  have htotal : xs.foldlM addWeight 0 = .ok (totalWeight xs : Int) := by
    simpa using addWeights_ok hpos 0 (by omega)
  have hdraw : ∀ n : Nat, weightedIndex xs (.ok n) = pickIndex xs (n % totalWeight xs) := by
    intro n
    rw [weightedIndex, htotal]
    rfl
  constructor
  · rintro (err | n) h
    · rw [weightedIndex, htotal] at h
      injection h with h
      exact absurd (congrArg (·.toList[18]?) h) (by simp)
    · have hlt : 0 < totalWeight xs := by
        obtain ⟨x, rest, rfl⟩ := exists_cons_of_ne_nil hne
        rw [forall_mem_cons] at hpos
        have hcons := @totalWeight_cons x rest hpos.1
        omega
      obtain ⟨i, hi⟩ := exists_pickIndex hpos (n % totalWeight xs)
        (Int.emod_nonneg _ (by omega)) (Int.emod_lt_of_pos _ (by omega))
      rw [hdraw, hi] at h
      cases h
  · intro i hi
    have hcount := countP_pickIndex hpos hi
    rw [countP_congr (q := fun n : Nat => pickIndex xs n = .ok i), hcount]
    · exact Int.toNat_of_nonneg (hpos _ (getElem_mem hi)).le
    · intro n hn
      rw [mem_range] at hn
      rw [hdraw, Int.emod_eq_of_lt (by omega) (by omega)]

/-- Of the three draws, two fall on the heavier target. -/
theorem weightedIndex_twoTargets :
    (range 3).countP (fun n => weightedIndex [⟨"c", "m", 1, 1, ""⟩, ⟨"c", "m", 1, 2, ""⟩] (.ok n) =
      .ok 1) = (2 : Int) :=
  (weightedIndex_exact (by simp) (by simp) (by decide)).2 1 (by decide)

end Hoorific
