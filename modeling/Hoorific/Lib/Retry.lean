/-
Retrying a call over a link that loses messages.  A call is a step
`ι → σ → Bool × σ` of the callee: the input `ι` is what differs between
two tries (clock readings), the flag says whether the call succeeded.  The
caller repeats the call until it sees a success.  It may see no answer
although the callee has taken the step, so the callee may take the step
many times.

Whether the loop ends well after a lost answer is decided by what the
callee does in the state the first step left: if every further call
succeeds and changes nothing the loop succeeds (`retry_of_stable`), if
every further call is refused it never does (`retry_of_refused`).
-/
import Mathlib.Tactic.Common

namespace Hoorific

/-- What becomes of one try. -/
inductive Delivery (ι : Type*) where
  /-- the callee takes the step and its answer arrives -/
  | delivered (input : ι)
  /-- the callee takes the step and its answer is lost -/
  | unacknowledged (input : ι)
  /-- the call does not reach the callee -/
  | unreachable

variable {σ ι : Type*}

/-- The answer of a try arrives. -/
def Delivery.arrives : Delivery ι → Bool
  | .delivered _ => true
  | _ => false

/-- Try until a success is seen.  The list ends where the caller's time does. -/
def retry (call : ι → σ → Bool × σ) : List (Delivery ι) → σ → Bool × σ
  | [], s => (false, s)
  | .unreachable :: ds, s => retry call ds s
  | .unacknowledged i :: ds, s => retry call ds (call i s).2
  | .delivered i :: ds, s =>
    if (call i s).1 = true then (true, (call i s).2) else retry call ds (call i s).2

variable {call : ι → σ → Bool × σ} {s : σ}

/-- **A stable call can be retried**: the loop succeeds as soon as one answer
arrives, in the state it started from. -/
theorem retry_of_stable (h : ∀ i, call i s = (true, s)) :
    ∀ ds : List (Delivery ι), ds.any Delivery.arrives = true → retry call ds s = (true, s)
  | .delivered i :: _, _ => by simp [retry, h i]
  | .unacknowledged i :: ds, hd => by
    rw [retry, h i]
    exact retry_of_stable h ds hd
  | .unreachable :: ds, hd => retry_of_stable h ds hd

/-- A refused call is refused at every try. -/
theorem retry_of_refused (h : ∀ i, call i s = (false, s)) :
    ∀ ds : List (Delivery ι), retry call ds s = (false, s)
  | [] => rfl
  | .delivered i :: ds => by
    rw [retry, h i]
    exact retry_of_refused h ds
  | .unacknowledged i :: ds => by
    rw [retry, h i]
    exact retry_of_refused h ds
  | .unreachable :: ds => retry_of_refused h ds

end Hoorific
