/-
A request with an idempotency key, seen from the gateway.  While the
request is served, the exits of an attempt mark what is known about its
execution; when it has been served, `finish` reads the marks and gives the
key back, or stores the response for replay, or makes the key
unreplayable.

The four phases are in fact linearly ordered, and a mark is the maximum of
the phase there is and the phase that is marked (`Phase.mark_eq_max`).  So
the phase `finish` reads is the highest of all marks, in whatever order
they were made, and a path that makes no mark leaves it to the others.

Left out: the headers of the captured response, and the lock of the state.
-/
import Mathlib.Data.List.MinMax
import Mathlib.Algebra.Order.Ring.Int

namespace Hoorific.Gateway

/-! ### Phases -/

/-- What is known of the execution: nothing yet, `not_dispatched`, `terminal`
or `unknown`. -/
inductive Phase where
  | unset | notDispatched | terminal | unknown
deriving DecidableEq

/-- `idempotencyState.mark`. -/
def Phase.mark (current phase : Phase) : Phase :=
  if phase = .unset then current
  else if current = .unknown then current
  else if phase = .unknown ∨ current = .unset ∨ phase = .terminal then phase
  else current

/-- How much a phase overrides. -/
def Phase.rank : Phase → Nat
  | .unset => 0 | .notDispatched => 1 | .terminal => 2 | .unknown => 3

theorem Phase.rank_injective : Function.Injective Phase.rank := by
  intro a b h
  cases a <;> cases b <;> first | rfl | cases h

instance : LinearOrder Phase := LinearOrder.lift' Phase.rank Phase.rank_injective

/-- A mark keeps the higher phase. -/
theorem Phase.mark_eq_max (a b : Phase) : a.mark b = max a b := by
  cases a <;> cases b <;> decide

/-- The phase after these marks. -/
def Phase.marks (current : Phase) (l : List Phase) : Phase := l.foldl Phase.mark current

variable {current bound phase : Phase} {l : List Phase} {discarder : Bool}

/-- The phase after some marks is at most `bound` if it started there and all
marks are. -/
theorem Phase.marks_le_iff : current.marks l ≤ bound ↔ current ≤ bound ∧ ∀ p ∈ l, p ≤ bound := by
  induction l generalizing current with
  | nil => simp [Phase.marks]
  | cons p l ih =>
    show (current.mark p).marks l ≤ bound ↔ _
    rw [ih, Phase.mark_eq_max, max_le_iff, List.forall_mem_cons, and_assoc]

/-! ### The captured response -/

/-- `idempotencyResponseLimit`. -/
def responseLimit : Nat := 32 * 2 ^ 20

structure CaptureWriter where
  status : Nat := 0
  wrote : Bool := false
  body : List UInt8 := []
  oversized : Bool := false
  writeError : Bool := false
deriving DecidableEq

/-- A call on the writer, with what the connection below it does: of the data
of a write it takes `n` bytes, and it may fail. -/
inductive WriterCall where
  | writeHeader (status : Nat)
  | write (data : List UInt8) (n : Nat) (failed : Bool)
  | flush
deriving DecidableEq

variable (w : CaptureWriter)

def CaptureWriter.writeHeader (status : Nat) : CaptureWriter :=
  if w.wrote then w else { w with status := status, wrote := true }

/-- The effect of a call on the capture. -/
def CaptureWriter.call : WriterCall → CaptureWriter
  | .writeHeader status => w.writeHeader status
  | .flush => w.writeHeader 200
  | .write data n failed =>
    let w := w.writeHeader 200
    let w :=
      if n = 0 then w
      else if w.body.length + n ≤ responseLimit then { w with body := w.body ++ data.take n }
      else { w with oversized := true }
    if failed ∨ n ≠ data.length then { w with writeError := true } else w

structure IdempotencyResponse where
  status : Nat
  body : List UInt8
deriving DecidableEq

/-- `snapshot`: the response, if all of it was captured and delivered. -/
def CaptureWriter.snapshot : Option IdempotencyResponse :=
  if !w.wrote || decide (w.status < 100 ∨ 999 < w.status) || w.oversized || w.writeError then none
  else some ⟨w.status, w.body⟩

/-- What has been captured after these calls. -/
def captured (calls : List WriterCall) : Option IdempotencyResponse :=
  (calls.foldl CaptureWriter.call {}).snapshot

/-! ### Finishing -/

/-- What `finish` does with the key. -/
inductive Finish where
  /-- `DiscardIdempotency` -/
  | discard
  /-- `FinishIdempotency` -/
  | record (response : Option IdempotencyResponse)
deriving DecidableEq

/-- `idempotencyExecution.finish`; `discarder` says that the store can give a
key back. -/
def finish (discarder : Bool) (phase : Phase) (calls : List WriterCall) : Finish :=
  if phase = .notDispatched ∧ discarder = true then .discard
  else .record (if phase = .terminal then captured calls else none)

variable {calls : List WriterCall}

theorem finish_eq_discard :
    finish discarder phase calls = .discard ↔ phase = .notDispatched ∧ discarder = true := by
  unfold finish
  split
  next h => simp [h]
  next h => simp [h]

theorem finish_eq_record_some {response : IdempotencyResponse} :
    finish discarder phase calls = .record (some response) ↔
      phase = .terminal ∧ captured calls = some response := by
  unfold finish
  split
  next h => simp [h.1]
  next h => simp

end Hoorific.Gateway
