/-
Logins of administrators at a provider (`internal/credential/types.go`,
`internal/store/auxiliary.go`).

A login leaves a session under the hash of its state, and the callback
consumes it: one transaction checks what it is bound to and deletes it.  In
every order of the calls, a saved session is consumed once or still there.
-/
import Hoorific.Credential.Record
import Hoorific.Lib.Run

namespace Hoorific

open Tx Table

/-- `credential.LoginSession` as it is stored, without the verifier. -/
structure LoginSession where
  stateHash : String
  tenantID : String
  adminSessionID : String
  connector : String
  connectionID : String
  accountID : String
  nonce : String
  redirectURI : String
  verifierEnvelope : Envelope
  connectionVersion : ℤ
  expiresAt : Time

/-- The durable records of kind `credential_login`, by tenant and id. -/
abbrev Logins := Table (String × String) LoginSession

def saveOAuthLogin (l : LoginSession) (now : Time) : Tx Logins CredentialError Unit := do
  require (l.tenantID != "" && l.stateHash != "" && l.adminSessionID != "" && l.connector != "" &&
    decide (now.nanos < l.expiresAt.nanos)) .conflict
  let t ← get
  require (t.lookup (l.tenantID, l.stateHash)).isNone .conflict
  modify (·.insert (l.tenantID, l.stateHash) l)

def consumeOAuthLogin (hash tenant session connector : String) (now : Time) :
    Tx Logins CredentialError LoginSession := do
  let t ← get
  let l ← orFail (t.lookup (tenant, hash)) .noRows
  require (l.tenantID == tenant && l.stateHash == hash && l.adminSessionID == session &&
    l.connector == connector && decide (now.nanos < l.expiresAt.nanos)) .conflict
  modify (·.erase (tenant, hash))
  pure l

inductive LoginCall where
  | save (l : LoginSession) (now : Time)
  | consume (hash tenant session connector : String) (now : Time)

/-- The sessions that are stored, and what the calls saved and consumed. -/
structure LoginLog where
  stored : Logins := ∅
  saved : List LoginSession := []
  consumed : List (LoginCall × LoginSession) := []

def LoginLog.step (s : LoginLog) (c : LoginCall) : LoginLog :=
  match c with
  | .save l now =>
    match commit (saveOAuthLogin l now) s.stored with
    | (.ok _, t) => { s with stored := t, saved := l :: s.saved }
    | (.error _, t) => { s with stored := t }
  | .consume hash tenant session connector now =>
    match commit (consumeOAuthLogin hash tenant session connector now) s.stored with
    | (.ok l, t) => { s with stored := t, consumed := (c, l) :: s.consumed }
    | (.error _, t) => { s with stored := t }

structure LoginLog.Sound (s : LoginLog) : Prop where
  once : (s.saved : Multiset LoginSession) = s.consumed.map Prod.snd + rows s.stored
  bound : ∀ e ∈ s.consumed, ∃ now, now.nanos < e.2.expiresAt.nanos ∧
    e.1 = .consume e.2.stateHash e.2.tenantID e.2.adminSessionID e.2.connector now

variable {s : LoginLog} {l : LoginSession} {t : Logins} {now : Time}

theorem LoginLog.Sound.save {u : Unit} (h : s.Sound)
    (hrun : Runs (saveOAuthLogin l now) s.stored u t) :
    LoginLog.Sound { s with stored := t, saved := l :: s.saved } := by
  simp only [saveOAuthLogin, runs_require_bind, runs_get_bind, runs_modify,
    Option.isNone_iff_eq_none] at hrun
  obtain ⟨-, hnone, rfl⟩ := hrun
  refine ⟨?_, h.bound⟩
  rw [rows_insert_of_lookup_none hnone, Multiset.add_cons, ← h.once, Multiset.cons_coe]

theorem LoginLog.Sound.consume {hash tenant session connector : String} (h : s.Sound)
    (hrun : Runs (consumeOAuthLogin hash tenant session connector now) s.stored l t) :
    LoginLog.Sound { s with
      stored := t, consumed := (.consume hash tenant session connector now, l) :: s.consumed } := by
  simp only [consumeOAuthLogin, runs_require_bind, runs_get_bind, runs_orFail_bind,
    runs_modify_bind, runs_pure, Bool.and_eq_true, beq_iff_eq, decide_eq_true_eq] at hrun
  obtain ⟨_, hrow, ⟨⟨⟨⟨rfl, rfl⟩, rfl⟩, rfl⟩, hnow⟩, rfl, rfl⟩ := hrun
  refine ⟨?_, List.forall_mem_cons.2 ⟨⟨now, hnow, rfl⟩, h.bound⟩⟩
  rw [h.once, rows_of_lookup hrow, Multiset.add_cons]
  rfl

/-- **A login is used once**, before it expires and by the administrator's
session and connector it was saved for. -/
theorem logins_used_once (calls : List LoginCall) : (run LoginLog.step {} calls).Sound := by
  refine run_inv_of_step (fun s c h => ?_) ⟨by simp, by simp⟩ calls
  cases c with
  | save l now =>
    rw [LoginLog.step]
    split
    next hc => exact h.save (commit_ok_iff.1 hc)
    next hc => exact commit_error hc ▸ h
  | consume hash tenant session connector now =>
    rw [LoginLog.step]
    split
    next hc => exact h.consume (commit_ok_iff.1 hc)
    next hc => exact commit_error hc ▸ h

end Hoorific
