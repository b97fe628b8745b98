/-
The events between the protocols.  A stream decoder turns the frames of an
upstream into events, and a stream encoder turns events into the frames of
a client.  What a client takes from a stream of events is its text, its
tool calls with their arguments, and its finish.

JSON is read and written by the standard library: a frame is given by the
value its text decodes to, and text that is not accepted as such is a frame
without a value.
-/
import Hoorific.Core
import Hoorific.Lib.Bytes
import Hoorific.Lib.Pull

namespace Hoorific

/-- Everything a usage counts. -/
def Usage.counters (u : Usage) : List (Option Int) :=
  [u.input, u.output, u.total, u.cachedInput, u.cacheWriteInput, u.cacheWrite5mInput,
    u.cacheWrite1hInput, u.reasoningOutput, u.toolInput]

end Hoorific

namespace Hoorific.Protocol

/-! ### Events -/

/-- Where an event belongs. -/
structure Index where
  choice : Int := 0
  block : Int := 0
  tool : Int := 0
deriving DecidableEq

inductive BlockKind where
  | text | toolCall | toolResult | image | reasoning
  | other (kind : String)
deriving DecidableEq

/-- Why a generation ended. -/
structure Finish where
  status : String := ""
  reason : String := ""
  cancellation : String := ""
deriving DecidableEq

structure GatewayError where
  code : String := ""
  httpStatus : Int := 0
  message : String := ""
  param : String := ""
  origin : String := ""
deriving DecidableEq

inductive Event where
  | start (id model : String)
  | blockStart (index : Index) (kind : BlockKind) (id name : String)
  | textDelta (index : Index) (text : String)
  | toolCallStart (index : Index) (id name : String)
  | toolArgumentsDelta (index : Index) (fragment : String)
  | blockEnd (index : Index)
  | usage (u : Usage)
  | finish (f : Finish)
  | streamError (err : GatewayError)
deriving DecidableEq

/-- What a stream ends with besides the end of its input. -/
inductive StreamFailure where
  | gateway (err : GatewayError)
  | unexpectedEOF
  | closedPipe
  /-- an error without a code, such as a frame over the limit -/
  | plain (message : String)
deriving DecidableEq

/-- What the text of a frame, or of a part of it, decodes to. -/
abbrev Decoded (α : Type) := Except StreamFailure α

/-- The numbers an `int64` member accepts. -/
def int64 (n : Int) : Bool := decide (-2 ^ 63 ≤ n ∧ n < 2 ^ 63)

def maxInt64 : Int := 2 ^ 63 - 1

/-- Members that are absent or an `int64`. -/
def int64s (ns : List (Option Int)) : Bool := ns.all fun n => n.all int64

/-- Counters that are absent or not negative. -/
def nonneg (ns : List (Option Int)) : Bool := ns.all fun n => n.all (0 ≤ ·)

variable {ns : List (Option Int)}

theorem nonneg_iff : nonneg ns = true ↔ ∀ n : Int, some n ∈ ns → 0 ≤ n := by
  rw [nonneg, List.all_eq_true]
  constructor
  · intro h n hn
    simpa using h (some n) hn
  · intro h o ho
    rcases o with - | n
    · rfl
    · simpa using h n ho

theorem int64s_iff : int64s ns = true ↔ ∀ n : Int, some n ∈ ns → int64 n = true := by
  rw [int64s, List.all_eq_true]
  constructor
  · intro h n hn
    exact h (some n) hn
  · intro h o ho
    rcases o with - | n
    · rfl
    · exact h n ho

/-- A counter of tokens: unknown, or an `int64` that is not negative. -/
def Counts (o : Option Int) : Prop := ∀ n, o = some n → 0 ≤ n ∧ n ≤ maxInt64

theorem counts_none : Counts none := fun _ h => Option.noConfusion rfl (heq_of_eq h)

theorem forall_counts_iff : (∀ o ∈ ns, Counts o) ↔ nonneg ns = true ∧ int64s ns = true := by
  have hmax : maxInt64 = 2 ^ 63 - 1 := rfl
  rw [nonneg_iff, int64s_iff]
  constructor
  · refine fun h => ⟨fun n hn => (h _ hn n rfl).1, fun n hn => decide_eq_true ?_⟩
    have := h _ hn n rfl
    omega
  · rintro ⟨h₀, h₁⟩ o ho n rfl
    have hrange := of_decide_eq_true (h₁ n ho)
    exact ⟨h₀ n ho, by omega⟩

theorem counts_or {a b : Option Int} (ha : Counts a) (hb : Counts b) : Counts (a.or b) := by
  rcases a with - | a
  · exact hb
  · exact ha

theorem counts_of_nonneg {o : Option Int} {ns ms : List (Option Int)} (hms : int64s ms = true)
    (hm : o ∈ ms) (hns : nonneg ns = true) (hn : o ∈ ns) : Counts o := by
  apply forall_counts_iff.2 ⟨?_, ?_⟩ o (List.mem_singleton.2 rfl)
  · exact nonneg_iff.2 fun n h => nonneg_iff.1 hns n (List.mem_singleton.1 h ▸ hn)
  · exact int64s_iff.2 fun n h => int64s_iff.1 hms n (List.mem_singleton.1 h ▸ hm)

/-- A usage whose counters count, and whose writes to the cache have a known sum. -/
structure Sound (u : Usage) : Prop where
  counts : ∀ o ∈ u.counters, Counts o
  parts : u.cacheWriteInput = none → u.cacheWrite5mInput = none ∨ u.cacheWrite1hInput = none

/-- An error as it is read from a stream. -/
structure ErrorWire where
  code : String := ""
  message : String := ""
  param : String := ""
deriving DecidableEq

/-- The error with what is read of it. -/
def ErrorWire.toError (e : ErrorWire) : GatewayError :=
  { code := e.code, message := e.message, param := e.param }

/-! ### Results -/

/-- A part of a generated message. -/
structure ContentBlock where
  kind : BlockKind
  text : String := ""
  url : String := ""
  mimeType : String := ""
  id : String := ""
  name : String := ""
  arguments : String := ""
  data : Bytes := []
deriving DecidableEq

structure GenerationResult where
  id : String := ""
  model : String := ""
  blocks : List ContentBlock := []
  finish : Finish := {}
  usage : Option Usage := none
deriving DecidableEq

/-! ### JSON texts -/

/-- What a JSON text is to a decoder of objects: an object, `null`, or
something it refuses, as is a text that is not JSON. -/
inductive JsonKind where
  | object | null | refused
deriving DecidableEq

/-! ### What a client takes from a stream -/

/-- The text of an event. -/
def Event.text : Event → String
  | .textDelta _ text => text
  | _ => ""

/-- The text of a stream. -/
def textOf : List Event → String
  | [] => ""
  | e :: l => e.text ++ textOf l

theorem textOf_append (l l' : List Event) : textOf (l ++ l') = textOf l ++ textOf l' := by
  induction l with
  | nil => exact (String.empty_append).symm
  | cons e l ih => rw [List.cons_append, textOf, textOf, ih, String.append_assoc]

/-- A tool call of a stream, with the arguments that have arrived. -/
structure ToolCall where
  index : Index
  id : String
  name : String
  arguments : String := ""
deriving DecidableEq

/-- A fragment goes to the latest call at its index; the latest call is first. -/
def addFragment (index : Index) (fragment : String) : List ToolCall → List ToolCall
  | [] => []
  | c :: calls =>
    if c.index = index then { c with arguments := c.arguments ++ fragment } :: calls
    else c :: addFragment index fragment calls

/-- The calls after an event, the latest first. -/
def Event.callsAfter (calls : List ToolCall) : Event → List ToolCall
  | .toolCallStart index id name => ⟨index, id, name, ""⟩ :: calls
  | .blockStart index .toolCall id name => ⟨index, id, name, ""⟩ :: calls
  | .toolArgumentsDelta index fragment => addFragment index fragment calls
  | _ => calls

/-- Id, name and arguments of the calls of a stream, in the order they start. -/
def callsOf (l : List Event) : List (String × String × String) :=
  (l.foldl Event.callsAfter []).reverse.map fun c => (c.id, c.name, c.arguments)

/-- The reasons with which a stream finishes. -/
def finishesOf (l : List Event) : List Finish :=
  l.filterMap fun
    | .finish f => some f
    | _ => none

end Hoorific.Protocol
