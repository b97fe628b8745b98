/-
Stateless checks and cost arithmetic (package `policy`): checked addition,
the limits on token counts, and the estimates that turn token counts and a
price schedule into nanodollars.

A missing rate is an unknown cost, never zero: the estimates distinguish
`unknownCost`, which callers may keep as a reconcilable hold, from an
error in the operands.
-/
import Hoorific.Core

namespace Hoorific

/-- Errors of the policy package. -/
inductive PolicyError where
  | unknownCost
  | plain (message : String)
deriving DecidableEq

def maxInt64 : Int := 9223372036854775807

def checkedAdd (a b : Int) : Except PolicyError Int :=
  if a < 0 ∨ b < 0 ∨ a > maxInt64 - b then .error (.plain "integer addition overflow")
  else .ok (a + b)

theorem checkedAdd_ok_iff {a b c : Int} :
    checkedAdd a b = .ok c ↔ 0 ≤ a ∧ 0 ≤ b ∧ a + b ≤ maxInt64 ∧ c = a + b := by
  unfold checkedAdd
  split
  · simp only [reduceCtorEq, false_iff]
    omega
  · simp only [Except.ok.injEq]
    omega

/-! ### Checks -/

/-- `ValidateTokens`: the counts fit the limits of a model. -/
def validateTokens (input output : Int) (contextLimit outputLimit : Option Int) :
    Except PolicyError Unit := do
  if input < 0 ∨ output < 0 then
    throw (.plain "negative token count")
  if contextLimit.any fun limit => limit < 0 || input > limit || output > limit - input then
    throw (.plain "context token limit exceeded")
  if outputLimit.any fun limit => limit < 0 || output > limit then
    throw (.plain "output token limit exceeded")

/-- What an allowance is about. -/
def Allowance.coordinates (a : Allowance) : ScopeKind × String × WindowID × AllowanceKind :=
  (a.scopeKind, a.scopeID, a.windowID, a.kind)

/-! ### Cost -/

/-- A quantity and the rate it is charged at. -/
structure CostTerm where
  units : Int
  rate : Int
deriving DecidableEq

/-- The summation loop of `estimateTerms`. -/
def sumTerms : Int → List CostTerm → Except PolicyError Int
  | total, [] => .ok total
  | total, t :: rest =>
    if t.units < 0 ∨ t.rate < 0 then .error (.plain "invalid cost operands")
    else if t.units = 0 ∨ t.rate = 0 then sumTerms total rest
    else sumTerms (total + t.units * t.rate) rest

/-- `estimateTerms`: the sum of `units * rate`, divided by `unit` rounding up. -/
def estimateTerms (terms : List CostTerm) (unit : Int) : Except PolicyError Int :=
  if unit ≤ 0 then .error (.plain "invalid cost unit")
  else do
    let total ← sumTerms 0 terms
    let quotient := (total + (unit - 1)).tdiv unit
    if quotient < -maxInt64 - 1 ∨ quotient > maxInt64 then .error (.plain "cost exceeds int64")
    else .ok quotient

/-- `priceRate`: the configured rate, if any. -/
def priceRate (price : Option Int) : Except PolicyError (Option Int) :=
  match price with
  | none => .ok none
  | some rate => if rate < 0 then .error (.plain "negative price rate") else .ok (some rate)

/-- `priceRate` of a rate that must be configured. -/
def requiredRate (price : Option Int) : Except PolicyError Int := do
  match ← priceRate price with
  | none => .error .unknownCost
  | some rate => .ok rate

/-- The loop of `EstimateBound` over the input rates: the highest one. -/
def highestRate : Option Int → List (Option Int) → Except PolicyError (Option Int)
  | best, [] => .ok best
  | best, candidate :: rest => do
    match best, ← priceRate candidate with
    | best, none => highestRate best rest
    | none, some rate => highestRate (some rate) rest
    | some b, some rate => highestRate (some (if rate > b then rate else b)) rest

/-- `EstimateBound`: a token cost bound that charges every input token at
the highest configured input rate. -/
def estimateBound (input output : Int) (price : Option PriceSchedule) : Except PolicyError Int :=
  if input < 0 ∨ output < 0 then .error (.plain "invalid cost operands")
  else match price with
    | none => .error .unknownCost
    | some price => do
      let inputRate ← highestRate none [price.inputPerMillion, price.cachedInputPerMillion,
        price.cacheWriteInputPerMillion, price.cacheWrite5mPerMillion, price.cacheWrite1hPerMillion]
      if input > 0 ∧ inputRate = none then .error .unknownCost
      else do
        let outputRate ← priceRate price.outputPerMillion
        if output > 0 ∧ outputRate = none then .error .unknownCost
        else estimateTerms [⟨input, inputRate.getD 0⟩, ⟨output, outputRate.getD 0⟩] 1000000

/-! ### The cost of reported usage -/

/-- A positive quantity charged at a rate that must be configured. -/
def chargeTerm (units : Int) (rate : Option Int) : Except PolicyError (List CostTerm) :=
  if units > 0 then do
    let rate ← requiredRate rate
    .ok [⟨units, rate⟩]
  else .ok []

/-- `appendWrite`: cache writes of one lifetime, charged at their own rate or
else at the aggregate cache-write rate. -/
def appendWrite (units : Int) (rate aggregate : Option Int) : Except PolicyError (List CostTerm) :=
  if units = 0 then .ok []
  else do
    match ← priceRate rate with
    | some selected => .ok [⟨units, selected⟩]
    | none => match aggregate with
      | some selected => .ok [⟨units, selected⟩]
      | none => .error .unknownCost

/-- The checks of `EstimateUsageCost` on the counters themselves; on success
the counters with absent details read as zero. -/
structure UsageCounts where
  input : Int
  output : Int
  cached : Int
  writes : Int
  write5m : Int
  write1h : Int
deriving DecidableEq

/-- The first half of `EstimateUsageCost`, before the price is looked at. -/
def usageCounts (usage : Option Usage) : Except PolicyError UsageCounts :=
  match usage with
  | none => .error .unknownCost
  | some u =>
    match u.input, u.output with
    | some input, some output => do
      if [u.input, u.output, u.cachedInput, u.cacheWriteInput, u.cacheWrite5mInput,
          u.cacheWrite1hInput, u.reasoningOutput, u.toolInput].any fun v => v.any (· < 0) then
        throw (.plain "negative usage")
      let cached := u.cachedInput.getD 0
      let writes := u.cacheWriteInput.getD 0
      let write5m := u.cacheWrite5mInput.getD 0
      let write1h := u.cacheWrite1hInput.getD 0
      if writes = 0 ∧ (write5m ≠ 0 ∨ write1h ≠ 0) then throw .unknownCost
      if write5m > writes ∨ write1h > writes then
        throw (.plain "cache write detail exceeds aggregate")
      match checkedAdd write5m write1h with
      | .error _ => throw (.plain "cache write detail is not representable")
      | .ok details =>
        if details > writes then throw (.plain "cache write detail is not representable")
      match checkedAdd cached writes with
      | .error _ => throw (.plain "cache input detail exceeds aggregate")
      | .ok details =>
        if details > input then throw (.plain "cache input detail exceeds aggregate")
      return ⟨input, output, cached, writes, write5m, write1h⟩
    | _, _ => .error .unknownCost

/-- The categories `EstimateUsageCost` cannot price: a configured category
rate whose counter is absent and not implied by the other counters. -/
def categoryUnknown (u : Usage) (c : UsageCounts) (price : PriceSchedule) : Bool :=
  let cachedKnown := u.cachedInput.isSome || u.cacheWriteInput.isSome && c.writes == c.input
  let writesKnown := u.cacheWriteInput.isSome || u.cachedInput.isSome && c.cached == c.input
  let writeRateConfigured := price.cacheWriteInputPerMillion.isSome ||
    price.cacheWrite5mPerMillion.isSome || price.cacheWrite1hPerMillion.isSome
  let write5mKnown := u.cacheWrite5mInput.isSome || u.cacheWrite1hInput.isSome && c.write1h == c.writes
  let write1hKnown := u.cacheWrite1hInput.isSome || u.cacheWrite5mInput.isSome && c.write5m == c.writes
  let differs := fun rate : Option Int =>
    rate.isSome && (price.cacheWriteInputPerMillion == none || rate != price.cacheWriteInputPerMillion)
  (decide (c.input > 0) && price.cachedInputPerMillion.isSome && !cachedKnown) ||
  (decide (c.input > 0) && writeRateConfigured && !writesKnown) ||
  (decide (c.writes > 0) && (!write5mKnown && differs price.cacheWrite5mPerMillion ||
    !write1hKnown && differs price.cacheWrite1hPerMillion))

/-- `EstimateUsageCost`: ordinary, cache-read and cache-write rates applied to
inclusive provider usage. -/
def estimateUsageCost (usage : Option Usage) (price : Option PriceSchedule) :
    Except PolicyError Int := do
  let c ← usageCounts usage
  match usage, price with
  | some _, none => if c.input = 0 ∧ c.output = 0 then .ok 0 else .error .unknownCost
  | some u, some price =>
    if categoryUnknown u c price then .error .unknownCost
    else do
      let ordinary ← chargeTerm (c.input - (c.cached + c.writes)) price.inputPerMillion
      let cached ← chargeTerm c.cached price.cachedInputPerMillion
      let aggregate ← priceRate price.cacheWriteInputPerMillion
      let write5m ← appendWrite c.write5m price.cacheWrite5mPerMillion aggregate
      let write1h ← appendWrite c.write1h price.cacheWrite1hPerMillion aggregate
      let writes ← chargeTerm (c.writes - (c.write5m + c.write1h)) aggregate
      let output ← chargeTerm c.output price.outputPerMillion
      estimateTerms (ordinary ++ cached ++ write5m ++ write1h ++ writes ++ output) 1000000
  | none, _ => .error .unknownCost

example : estimateUsageCost
    (some { input := some 10, output := some 5, cachedInput := some 4, cacheWriteInput := some 0 })
    (some { version := "v1", inputPerMillion := some 3000000, outputPerMillion := some 15000000,
            cachedInputPerMillion := some 300000 }) = .ok 95 := by decide

end Hoorific
