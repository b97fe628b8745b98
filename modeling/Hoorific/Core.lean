/-
The value types the gateway and its store share: attempt plans and their
allowances, permits, outcomes, usage and price schedules, principals, and
the errors a store operation returns.

Text the source compares with a fixed vocabulary is an inductive type with
one constructor per word and `other` for the rest, so that every text is
still a value: scope kinds, allowance kinds, attempt states, roles.  The
empty text is `other ""`.  Machine integers are `Int`; where the source
guards against overflow the guard is in the model (`checkedAdd`).
-/
import Mathlib.Algebra.Order.Ring.Int

namespace Hoorific

/-! ### Time -/

/-- An instant, in nanoseconds since the Unix epoch. -/
structure Time where
  nanos : Int
deriving DecidableEq

/-- `time.Time.Unix`: whole seconds, rounded down. -/
def Time.unix (t : Time) : Int := t.nanos / 1000000000

/-- The instant of a whole second. -/
def Time.ofUnix (seconds : Int) : Time := ⟨seconds * 1000000000⟩

/-- The zero `time.Time`: January 1 of year 1. -/
def Time.zero : Time := Time.ofUnix (-62135596800)

/-- `time.Time.IsZero`. -/
def Time.isZero (t : Time) : Bool := t == Time.zero

/-! ### Errors -/

/-- What a store operation fails with: a gateway error with its code, HTTP
status and message, a plain Go error, a missing row, or a violated unique
constraint of the named table. -/
inductive StoreError where
  | gateway (code : String) (status : Nat) (message : String)
  | plain (message : String)
  | noRows
  | constraint (table : String)
deriving DecidableEq

/-- `problem`: a gateway error with its own message. -/
def problem (code : String) (status : Nat) (message : String) : StoreError :=
  .gateway code status message

/-- `storeError`: the message is the code with spaces for underscores. -/
def storeError (code : String) (status : Nat) : StoreError :=
  .gateway code status (String.ofList (code.toList.map fun c => if c = '_' then ' ' else c))

/-! ### Vocabularies -/

/-- The scope an allowance is counted for. -/
inductive ScopeKind where
  | tenant | key | connection | account | model
  | other (text : String)
deriving DecidableEq

/-- What an allowance counts. -/
inductive AllowanceKind where
  | requests | tokens | concurrency | jobs | cost
  | other (text : String)
deriving DecidableEq

/-- The accounting window of a limit, as the text before the colon of a
window id: `60` (a minute), `daily`, `monthly`, or `total`. -/
inductive Window where
  | minute | daily | monthly | total
  | other (text : String)
deriving DecidableEq

/-- A window id: `total`, `60:<start>`, `daily:<year>-<day of year>`,
`monthly:<year>-<month>`, or any other text. -/
inductive WindowID where
  | total
  | minute (start : Int)
  | daily (year yearDay : Int)
  | monthly (year month : Int)
  | other (text : String)
deriving DecidableEq

/-- The states of a stored attempt. -/
inductive AttemptState where
  | dispatchIntent | accepted | settled | outcomeUnknown | notExecuted | jobPending
  | other (text : String)
deriving DecidableEq

/-- The roles of principals and keys. -/
inductive Role where
  | owner | admin | operator | auditor | viewer
  | other (text : String)
deriving DecidableEq

/-- Operations are an open vocabulary: models declare the ones they serve. -/
abbrev Operation := String

/-- The text of a scope kind, as stored. -/
def ScopeKind.text : ScopeKind → String
  | .tenant => "tenant" | .key => "key" | .connection => "connection"
  | .account => "account" | .model => "model" | .other s => s

/-- The text of an allowance kind, as stored. -/
def AllowanceKind.text : AllowanceKind → String
  | .requests => "requests" | .tokens => "tokens" | .concurrency => "concurrency"
  | .jobs => "jobs" | .cost => "cost" | .other s => s

/-- A number with at least `width` digits, as `%0<width>d` prints it. -/
def padded (width : Nat) (n : Int) : String :=
  let digits := (toString n.natAbs).toList
  let sign := if n < 0 then ['-'] else []
  String.ofList (sign ++ List.replicate (width - sign.length - digits.length) '0' ++ digits)

/-- The text of a window id, as stored. -/
def WindowID.text : WindowID → String
  | .total => "total"
  | .minute s => "60:" ++ padded 0 s
  | .daily y d => "daily:" ++ padded 4 y ++ "-" ++ padded 3 d
  | .monthly y m => "monthly:" ++ padded 4 y ++ "-" ++ padded 2 m
  | .other s => s

example : (WindowID.daily 2024 7).text = "daily:2024-007" := by decide

/-! ### Plans, permits and outcomes -/

structure Allowance where
  scopeKind : ScopeKind
  scopeID : String
  windowID : WindowID
  kind : AllowanceKind
  maximum : Int
  reserve : Int
deriving DecidableEq

structure AttemptPlan where
  tenantID : String
  requestID : String
  attemptID : String
  keyID : String := ""
  connectionID : String := ""
  accountID : String := ""
  modelID : String := ""
  priceVersion : String := ""
  keyRevision : Int := 0
  configRevision : Int := 0
  maximumCost : Option Int := none
  deadline : Time
  allowances : List Allowance := []
  operation : Operation := ""
  «alias» : String := ""
  inputBound : Option Int := none
  outputBound : Option Int := none
  unitCount : Option Int := none
deriving DecidableEq

structure AttemptPermit where
  tenantID : String
  requestID : String
  attemptID : String
  configRevision : Int
deriving DecidableEq

/-- Token counters reported by a provider; `none` is an absent counter. -/
structure Usage where
  input : Option Int := none
  output : Option Int := none
  total : Option Int := none
  cachedInput : Option Int := none
  cacheWriteInput : Option Int := none
  cacheWrite5mInput : Option Int := none
  cacheWrite1hInput : Option Int := none
  reasoningOutput : Option Int := none
  toolInput : Option Int := none
  source : String := ""
deriving DecidableEq

/-- The outcome of an attempt.  `state = none` is the empty text. -/
structure AttemptOutcome where
  tenantID : String
  requestID : String
  attemptID : String
  state : Option AttemptState
  cancellation : String := ""
  usage : Option Usage := none
  actualCost : Option Int := none
deriving DecidableEq

/-- Integer nanodollar rates; `none` is an unknown rate, not zero. -/
structure PriceSchedule where
  version : String
  inputPerMillion : Option Int := none
  outputPerMillion : Option Int := none
  cachedInputPerMillion : Option Int := none
  cacheWriteInputPerMillion : Option Int := none
  cacheWrite5mPerMillion : Option Int := none
  cacheWrite1hPerMillion : Option Int := none
  maximumUnitCost : Option Int := none
  unitOperation : Operation := ""
deriving DecidableEq

/-! ### Principals -/

structure Principal where
  tenantID : String := ""
  subjectID : String := ""
  keyID : String := ""
  role : Role := .other ""
  sessionID : String := ""
  authSource : String := ""
  keyRevision : Int := 0
  permissions : List String := []
  aliases : List String := []
  connections : List String := []
  operations : List Operation := []
  portable : Bool := false
  nativeAccount : Bool := false
  realtime : Bool := false
deriving DecidableEq

end Hoorific
