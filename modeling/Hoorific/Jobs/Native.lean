/-
What the gateway and the administration make of a provider's answers about
a job: the status word and the usage found in a response, whether a status
is terminal under the policy of the endpoint, and the job as it is written
back after an acknowledgement, a poll, a settlement or an administrative
action.

A status is normalized before it is stored: trimmed, in lower case, and
with one spelling of "cancelled".  The case mapping is a parameter, so
nothing here depends on which letters beyond ASCII have a lower case.
-/
import Hoorific.Lib.Json
import Hoorific.Lib.Text
import Hoorific.Jobs.Record
import Hoorific.Policy

namespace Hoorific

variable (m : CaseMap)

/-! ### Status words -/

def normalizeNativeStatus (value : String) : String :=
  if m.toLower (trimSpace value) = "canceled" then "cancelled" else m.toLower (trimSpace value)

/-- `normalizeJobStatus`: the same rule on the side of the administration. -/
def normalizeJobStatus (status : String) : String := normalizeNativeStatus m status

variable (data : Json)

/-- The string at a path; empty if there is none. -/
def nativeString (path : String) : String :=
  match data.field path with
  | some (.str s) => s
  | _ => ""

/-- `nativeStatus`: a text or a truth value. -/
def nativeStatus (path : String) : String :=
  match data.field path with
  | some (.str s) => normalizeNativeStatus m s
  | some (.bool b) => if b then "true" else "false"
  | _ => ""

def nativeTerminal (policy : NativeResponsePolicy) (status : String) : Bool :=
  (policy.terminalStatuses ++ policy.failureStatuses).any fun candidate =>
    normalizeNativeStatus m candidate == normalizeNativeStatus m status

def isTerminalJobStatus (status : String) : Bool :=
  ["complete", "completed", "succeeded", "failed", "expired", "cancelled"].contains
    (normalizeJobStatus m status)

/-! ### Usage -/

/-- A 64-bit sum, with overflow. -/
def addInt64 (a b : Int) : Int := (a + b + 2 ^ 63) % 2 ^ 64 - 2 ^ 63

/-- A counter of a usage object; `null` reads as zero. -/
def usageCounter (ms : List (String × Json)) (name : String) : Option Int :=
  match memberOf name ms with
  | some (.int n) => if -(2 ^ 63) ≤ n ∧ n < 2 ^ 63 then some n else none
  | some .null => some 0
  | _ => none

def nativeUsage (path : String) : Option Usage :=
  if path = "" then none
  else match (data.field path).bind Json.members with
    | none => none
    | some ms =>
      let input := (usageCounter ms "input").orElse fun _ => usageCounter ms "input_tokens"
      let output := (usageCounter ms "output").orElse fun _ => usageCounter ms "output_tokens"
      let total := (usageCounter ms "total").orElse fun _ => match input, output with
        | some i, some o => some (addInt64 i o)
        | _, _ => none
      some { input := input, output := output, total := total, source := "upstream" }

/-! ### Jobs as they are written -/

/-- The job `prepareNativeResponse` stores for an acknowledgement. -/
def acknowledgedJob (tenantID connectionID accountID resourceID operation requestID : String)
    (attemptID : String) (policy : NativeResponsePolicy) (data : Json) (now : Time) : Job :=
  let found := nativeStatus m data policy.statusField
  let status := if found = "" then "job_pending" else found
  let pending := nativeTerminal m policy status
  { tenantID := tenantID, connectionID := connectionID, accountID := accountID,
    resourceID := resourceID, operation := operation, status := status, requestID := requestID,
    createdAt := now, updatedAt := now, nextPoll := ⟨now.nanos + 2000000000⟩,
    settlementPending := pending,
    usage := if pending then nativeUsage data policy.usageField else none,
    metadata := some ⟨attemptID, policy⟩ }

/-- `UnknownCreate`, with the metadata `recordUnknownNative` adds. -/
def unknownCreate (tenantID connectionID accountID operation requestID attemptID : String)
    (policy : NativeResponsePolicy) (now : Time) : Job :=
  { tenantID := tenantID, connectionID := connectionID, accountID := accountID,
    resourceID := "unknown:" ++ requestID, operation := operation, requestID := requestID,
    status := "outcome_unknown", createdAt := now, updatedAt := now,
    metadata := some ⟨attemptID, policy⟩ }

/-- The job with its lease given back. -/
def Job.released (j : Job) : Job := { j with leaseOwner := "", leaseUntil := Time.zero }

/-- The job after a poll that found a status.  A status that is not terminal
puts the next poll off and releases the lease. -/
def Job.polled (j : Job) (policy : NativeResponsePolicy) (data : Json) (now : Time) : Job :=
  let status := nativeStatus m data policy.statusField
  let j := { j with status := status, usage := nativeUsage data policy.usageField,
                    updatedAt := now, settlementPending := nativeTerminal m policy status }
  if j.settlementPending then j
  else { j with nextPoll := ⟨now.nanos + 2000000000⟩ }.released

/-- The job after its settlement. -/
def Job.settled (j : Job) (now : Time) : Job :=
  { j with settlementPending := false, nextPoll := Time.zero, updatedAt := now }.released

/-- The outcome `settleNativeJob` finalizes the attempt with. -/
def settlementOutcome (j : Job) (attemptID : String) : AttemptOutcome :=
  let word := m.toLower (trimSpace j.status)
  { tenantID := j.tenantID, requestID := j.requestID, attemptID := attemptID,
    state := some .settled, usage := j.usage,
    cancellation := if word = "canceled" ∨ word = "cancelled" then "confirmed" else "" }

/-! ### Cancellation -/

/-- The body of a provider's answer to an action: a JSON value unless it is
empty, and whether its bytes are exactly an empty object. -/
structure Reply where
  value : Option Json
  receipt : Bool
  receipt_obj : receipt = true → value = some (.obj [])

def responseJobStatus (raw : Reply) (path : String) : String :=
  match raw.value with
  | none => ""
  | some data => nativeString data path

/-- The status a cancellation is answered with, if it is answered with one:
a status in the response, or an empty object where none is declared. -/
def cancelEvidence (policy : NativeResponsePolicy) (raw : Reply) : Option String :=
  if responseJobStatus raw policy.statusField ≠ "" then
    some (normalizeJobStatus m (responseJobStatus raw policy.statusField))
  else if policy.statusField = "" ∧ raw.receipt = true then some "cancelled"
  else none

def cancellationJobStatus (current : String) (policy : NativeResponsePolicy) (raw : Reply) :
    String :=
  if isTerminalJobStatus m (normalizeJobStatus m current) then normalizeJobStatus m current
  else (cancelEvidence m policy raw).getD (normalizeJobStatus m current)

/-! ### Normal forms -/

/-- A word in lower case that is not "canceled" is in normal form. -/
theorem normalizeNativeStatus_of_isLowerWord {word : String} (hword : isLowerWord word = true)
    (hne : word ≠ "canceled") : normalizeNativeStatus m word = word := by
  rw [normalizeNativeStatus, m.toLower_trimSpace_of_isLowerWord hword, if_neg hne]

theorem normalizeNativeStatus_idem (value : String) :
    normalizeNativeStatus m (normalizeNativeStatus m value) = normalizeNativeStatus m value := by
  by_cases hc : m.toLower (trimSpace value) = "canceled"
  · have hword : normalizeNativeStatus m value = "cancelled" := if_pos hc
    rw [hword]
    exact normalizeNativeStatus_of_isLowerWord m (by decide) (by decide)
  · have hword : normalizeNativeStatus m value = m.toLower (trimSpace value) := if_neg hc
    rw [hword, normalizeNativeStatus, m.toLower_trimSpace_idem, if_neg hc]

/-- The status found in a response is in normal form. -/
theorem nativeStatus_normal (path : String) :
    normalizeNativeStatus m (nativeStatus m data path) = nativeStatus m data path := by
  unfold nativeStatus
  split
  · exact normalizeNativeStatus_idem m _
  next b _ =>
    cases b <;> exact normalizeNativeStatus_of_isLowerWord m (by decide) (by decide)
  · exact normalizeNativeStatus_of_isLowerWord m (by decide) (by decide)

/-- The status of an acknowledged job is in normal form. -/
theorem acknowledgedJob_normal (tenantID connectionID accountID resourceID operation requestID
    attemptID : String) (policy : NativeResponsePolicy) (data : Json) (now : Time) :
    let j := acknowledgedJob m tenantID connectionID accountID resourceID operation requestID
      attemptID policy data now
    normalizeNativeStatus m j.status = j.status := by
  simp only [acknowledgedJob]
  split
  · exact normalizeNativeStatus_of_isLowerWord m (by decide) (by decide)
  · exact nativeStatus_normal m data policy.statusField

/-- A cancellation is answered with a word in normal form. -/
theorem cancelEvidence_normal {policy : NativeResponsePolicy} {raw : Reply} {word : String}
    (h : cancelEvidence m policy raw = some word) : normalizeNativeStatus m word = word := by
  unfold cancelEvidence at h
  split at h
  · rw [← Option.some.inj h]
    exact normalizeNativeStatus_idem m _
  split at h
  · rw [← Option.some.inj h]
    exact normalizeNativeStatus_of_isLowerWord m (by decide) (by decide)
  · cases h

/-- What a cancellation writes: the old status, or the word the provider has
answered with. -/
theorem cancellationJobStatus_cases {current : String}
    (hnormal : normalizeNativeStatus m current = current) (policy : NativeResponsePolicy)
    (raw : Reply) :
    cancellationJobStatus m current policy raw = current ∨
      isTerminalJobStatus m current = false ∧
        cancelEvidence m policy raw = some (cancellationJobStatus m current policy raw) := by
  have hcurrent : normalizeJobStatus m current = current := hnormal
  unfold cancellationJobStatus
  rw [hcurrent]
  split
  · exact .inl rfl
  next hopen =>
    rcases cancelEvidence m policy raw with - | word
    · exact .inl rfl
    · exact .inr ⟨by simpa using hopen, rfl⟩

end Hoorific
