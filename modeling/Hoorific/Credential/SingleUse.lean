/-
A refresh token is spent once.  Any number of workers put, rewrap, begin,
commit and fail, in any order (`SingleUse`): against one version of a
credential at most one refresh is begun and at most one is committed; a
record is handed out only while no refresh of it is open; and a commit that
comes after a fresh authentication is refused.

Everything follows from what one transaction can do to one credential
(`CredentialChange`): the version never falls, and an intent goes away only
with its version.
-/
import Hoorific.Credential.Record
import Hoorific.Lib.History

namespace Hoorific

open Tx

/-! ### Calls -/

inductive CredentialOp where
  | put (r : CredentialRecord) (expected : ℤ)
  | rewrap (r : CredentialRecord) (expected : ℤ)
  | begin (i : RefreshIntent) (now : Time)
  | commit (i : RefreshIntent) (r : CredentialRecord) (now : Time)
  | fail (i : RefreshIntent)
  | load (tenantID connectionID : String)

inductive CredentialAnswer where
  | done
  | loaded (r : CredentialRecord)
  | failed (err : CredentialError)
deriving DecidableEq

def CredentialAnswer.ofUnit : Except CredentialError Unit → CredentialAnswer
  | .ok _ => .done
  | .error e => .failed e

def CredentialAnswer.ofRecord : Except CredentialError CredentialRecord → CredentialAnswer
  | .ok r => .loaded r
  | .error e => .failed e

/-- One call. -/
def credentialStep (s : CredentialStore) : CredentialOp → CredentialAnswer × CredentialStore
  | .put r expected => (commit (putCredential r expected) s).map .ofUnit id
  | .rewrap r expected => (commit (rewrapCredential r expected) s).map .ofUnit id
  | .begin i now => (commit (beginRefresh i now) s).map .ofUnit id
  | .commit i r now => (commit (commitRefresh i r now) s).map .ofUnit id
  | .fail i => (commit (failRefresh i) s).map .ofUnit id
  | .load tenantID connectionID =>
    (commit (loadUsableCredential tenantID connectionID) s).map .ofRecord id

/-! ### What one transaction does to one credential -/

/-- The change of one credential by one successful call.  The version of the
durable row, which every write advances, is left out. -/
inductive CredentialChange : CredentialOp → Option StoredCredential → Option StoredCredential → Prop
  | create {r v} (hr : r.identity.version = 1) :
      CredentialChange (.put r 0) none (some { StoredCredential.fresh r with rowVersion := v })
  | replace {r expected old v} (hold : old.record.identity.version = expected)
      (hr : r.identity.version = expected + 1)
      (hsame : old.record.identity.sameCredential r.identity = true) :
      CredentialChange (.put r expected) (some old)
        (some { StoredCredential.fresh r with rowVersion := v })
  | rewrap {r expected old v} (hopen : old.unresolved = false)
      (hr : r.identity = old.record.identity.next) :
      CredentialChange (.rewrap r expected) (some old)
        (some { old with record := r, rowVersion := v })
  | begin {i now old v} (hid : old.record.identity = i.identity) (hopen : old.unresolved = false) :
      CredentialChange (.begin i now) (some old)
        (some { old with intent := some i, refreshStatus := .pending, rowVersion := v })
  | commit {i r now old v} (hid : old.record.identity = i.identity)
      (hr : r.identity = i.identity.next) :
      CredentialChange (.commit i r now) (some old)
        (some { StoredCredential.fresh r with rowVersion := v })
  | fail {i old v} (hid : old.record.identity = i.identity) :
      CredentialChange (.fail i) (some old)
        (some { old with refreshStatus := .reauthRequired, rowVersion := v,
                         record := { old.record with status := "reauth_required" } })

/-- The credential a call is about. -/
def CredentialOp.key : CredentialOp → CredentialKey
  | .put r _ => r.identity.key
  | .rewrap r _ => r.identity.key
  | .begin i _ => i.identity.key
  | .commit i _ _ => i.identity.key
  | .fail i => i.identity.key
  | .load tenantID connectionID => ⟨tenantID, connectionID⟩

variable {s s' : CredentialStore} {u : Unit} {row value : StoredCredential} {op : CredentialOp}
  {r : CredentialRecord} {expected v : ℤ} {i : RefreshIntent} {now : Time} {ops : List CredentialOp}
  {new : Option StoredCredential}

theorem durableGetCredential_runs {k : CredentialKey} :
    Runs (durableGetCredential k) s row s' ↔ s.credentials.lookup k = some row ∧ s = s' := by
  simp only [durableGetCredential, runs_bind, runs_get, runs_orFail]
  constructor
  · rintro ⟨_, _, ⟨rfl, rfl⟩, h⟩
    exact h
  · rintro ⟨h, rfl⟩
    exact ⟨s, s, ⟨rfl, rfl⟩, h, rfl⟩

theorem durablePutCredential_runs {k : CredentialKey} {version : ℤ}
    (h : Runs (durablePutCredential k version value) s u s') :
    s'.credentials = s.credentials.insert k { value with rowVersion := version + 1 } := by
  simp only [durablePutCredential, runs_bind, runs_get, runs_require, runs_modify] at h
  obtain ⟨_, _, ⟨rfl, rfl⟩, -, _, ⟨-, rfl⟩, rfl⟩ := h
  rfl

/-- The effect of a successful call: the credential it is about changes, and no other. -/
structure Writes (op : CredentialOp) (s s' : CredentialStore) : Prop where
  change : CredentialChange op (s.credentials.lookup op.key) (s'.credentials.lookup op.key)
  other : ∀ k, k ≠ op.key → s'.credentials.lookup k = s.credentials.lookup k

/-- A put of the changed credential, then the revision. -/
theorem Writes.of_put {s₁ : CredentialStore} {version : ℤ} {old : Option StoredCredential}
    (hput : Runs (durablePutCredential op.key version value) s u s₁)
    (hrest : s'.credentials = s₁.credentials) (hrow : s.credentials.lookup op.key = old)
    (hchange : CredentialChange op old (some { value with rowVersion := version + 1 })) :
    Writes op s s' := by
  have hs := durablePutCredential_runs hput
  constructor
  · rw [hrest, hs, AList.lookup_insert, hrow]
    exact hchange
  · intro k hk
    rw [hrest, hs, AList.lookup_insert_ne hk]

theorem bumpRevision_runs (h : Runs bumpRevision s u s') : s'.credentials = s.credentials := by
  rw [bumpRevision, runs_modify] at h
  rw [← h]

theorem putCredential_writes (h : Runs (putCredential r expected) s u s') :
    Writes (.put r expected) s s' := by
  simp only [putCredential, putCredentialTx, runs_bind, runs_require, runs_get,
    Bool.and_eq_true, beq_iff_eq] at h
  obtain ⟨-, _, ⟨⟨-, hversion⟩, rfl⟩, _, s₁, ⟨_, _, ⟨rfl, rfl⟩, hbody⟩, hbump⟩ := h
  rcases hrow : s.credentials.lookup r.identity.key with - | old
  all_goals simp only [hrow, runs_bind, runs_require, beq_iff_eq] at hbody
  · obtain ⟨-, _, ⟨rfl, rfl⟩, hput⟩ := hbody
    exact .of_put hput (bumpRevision_runs hbump) hrow (.create hversion)
  · obtain ⟨-, _, ⟨hold, rfl⟩, -, _, ⟨hsame, rfl⟩, hput⟩ := hbody
    exact .of_put hput (bumpRevision_runs hbump) hrow (.replace hold hversion hsame)

theorem rewrapCredential_writes (h : Runs (rewrapCredential r expected) s u s') :
    Writes (.rewrap r expected) s s' := by
  simp only [rewrapCredential, runs_bind, runs_require, durableGetCredential_runs,
    Bool.and_eq_true, beq_iff_eq, Bool.not_eq_eq_eq_not, Bool.not_true] at h
  obtain ⟨-, _, ⟨-, rfl⟩, old, _, ⟨hrow, rfl⟩, -, _, ⟨⟨hopen, -⟩, rfl⟩, -, _, ⟨-, rfl⟩, -, _,
    ⟨⟨hnext, -⟩, rfl⟩, _, s₁, hput, hbump⟩ := h
  exact .of_put hput (bumpRevision_runs hbump) hrow (.rewrap hopen hnext.symm)

theorem beginRefresh_writes (h : Runs (beginRefresh i now) s u s') :
    Writes (.begin i now) s s' := by
  simp only [beginRefresh, runs_bind, runs_require, durableGetCredential_runs,
    Bool.and_eq_true, beq_iff_eq, Bool.not_eq_eq_eq_not, Bool.not_true] at h
  obtain ⟨-, _, ⟨-, rfl⟩, old, _, ⟨hrow, rfl⟩, -, _, ⟨hid, rfl⟩, -, _, ⟨⟨hopen, -⟩, rfl⟩, hput⟩ := h
  exact .of_put hput rfl hrow (.begin hid hopen)

theorem commitRefresh_writes (h : Runs (commitRefresh i r now) s u s') :
    Writes (.commit i r now) s s' := by
  simp only [commitRefresh, refreshMatches, runs_bind, runs_require,
    durableGetCredential_runs, Bool.and_eq_true, beq_iff_eq] at h
  obtain ⟨-, _, ⟨-, rfl⟩, old, _, ⟨hrow, rfl⟩, -, _, ⟨⟨⟨⟨⟨⟨hid, -⟩, -⟩, -⟩, hnext⟩, -⟩, rfl⟩, _, s₁,
    hput, hbump⟩ := h
  exact .of_put hput (bumpRevision_runs hbump) hrow (.commit hid hnext)

theorem failRefresh_writes (h : Runs (failRefresh i) s u s') : Writes (.fail i) s s' := by
  simp only [failRefresh, refreshMatches, runs_bind, runs_require,
    durableGetCredential_runs, Bool.and_eq_true, beq_iff_eq] at h
  obtain ⟨old, _, ⟨hrow, rfl⟩, -, _, ⟨⟨⟨hid, -⟩, -⟩, rfl⟩, _, s₁, hput, hbump⟩ := h
  exact .of_put hput (bumpRevision_runs hbump) hrow (.fail hid)

/-- `LoadUsableCredential` changes nothing, and returns a record in use
without an open refresh. -/
theorem loadUsableCredential_runs {tenantID id : String}
    (h : Runs (loadUsableCredential tenantID id) s r s') :
    s' = s ∧ ∃ row, s.credentials.lookup ⟨tenantID, id⟩ = some row ∧ row.record = r ∧
      row.unresolved = false ∧ r.active = true := by
  simp only [loadUsableCredential, runs_bind, runs_require, durableGetCredential_runs,
    runs_pure, Bool.not_eq_eq_eq_not, Bool.not_true] at h
  obtain ⟨row, _, ⟨hrow, rfl⟩, -, _, ⟨-, rfl⟩, -, _, ⟨hopen, rfl⟩, -, _, ⟨hactive, rfl⟩, rfl, rfl⟩ := h
  exact ⟨rfl, row, hrow, rfl, hopen, hactive⟩

/-- A call that returns an error only: it has written, or nothing has changed. -/
theorem written_or_kept {m : CredentialTx Unit} (hw : ∀ u s', Runs m s u s' → Writes op s s') :
    ((commit m s).map CredentialAnswer.ofUnit id).1 = .done ∧
        Writes op s ((commit m s).map CredentialAnswer.ofUnit id).2 ∨
      ((commit m s).map CredentialAnswer.ofUnit id).1 ≠ .done ∧
        ((commit m s).map CredentialAnswer.ofUnit id).2 = s := by
  rcases hc : commit m s with ⟨e | u, s'⟩
  · obtain rfl := commit_error hc
    exact .inr ⟨nofun, rfl⟩
  · exact .inl ⟨rfl, hw u s' (commit_ok_iff.1 hc)⟩

/-- **A call that succeeds writes its credential; any other changes nothing.** -/
theorem credentialStep_cases (s : CredentialStore) (op : CredentialOp) :
    (credentialStep s op).1 = .done ∧ Writes op s (credentialStep s op).2 ∨
      (credentialStep s op).1 ≠ .done ∧ (credentialStep s op).2 = s := by
  cases op with
  | put r expected => exact written_or_kept fun _ _ => putCredential_writes
  | rewrap r expected => exact written_or_kept fun _ _ => rewrapCredential_writes
  | begin i now => exact written_or_kept fun _ _ => beginRefresh_writes
  | commit i r now => exact written_or_kept fun _ _ => commitRefresh_writes
  | fail i => exact written_or_kept fun _ _ => failRefresh_writes
  | load tenantID connectionID =>
    right
    rcases hc : commit (loadUsableCredential tenantID connectionID) s with ⟨e | r, s'⟩
    · obtain rfl := commit_error hc
      simp only [credentialStep, hc, Prod.map]
      exact ⟨nofun, rfl⟩
    · obtain ⟨rfl, -⟩ := loadUsableCredential_runs (commit_ok_iff.1 hc)
      simp only [credentialStep, hc, Prod.map]
      exact ⟨nofun, rfl⟩

/-! ### Histories -/

abbrev CredentialEvent := Event CredentialStore CredentialOp CredentialAnswer

/-- `BeginRefresh(i)` succeeds. -/
def Begins (i : RefreshIntent) (e : CredentialEvent) : Prop :=
  ∃ now, e.input = .begin i now ∧ e.answer = .done

/-- `CommitRefresh(i, r)` succeeds. -/
def Commits (i : RefreshIntent) (r : CredentialRecord) (e : CredentialEvent) : Prop :=
  ∃ now, e.input = .commit i r now ∧ e.answer = .done

/-- `PutCredential(r)` succeeds. -/
def Puts (r : CredentialRecord) (e : CredentialEvent) : Prop :=
  ∃ expected, e.input = .put r expected ∧ e.answer = .done

/-- The record that a call of `PutCredential`, `RewrapCredential` or
`CommitRefresh` is to store. -/
def CredentialOp.stores : CredentialOp → Option CredentialRecord
  | .put r _ => some r
  | .rewrap r _ => some r
  | .commit _ r _ => some r
  | _ => none

/-- The version of what is stored under a key; 0 if there is nothing yet. -/
def storedVersion (row : Option StoredCredential) : ℤ :=
  (row.map fun row => row.record.identity.version).getD 0

def CredentialStore.version (s : CredentialStore) (k : CredentialKey) : ℤ :=
  storedVersion (s.credentials.lookup k)

/-- A refresh of the stored record is open, or the record is marked for
re-authentication. -/
def StoredCredential.blocked (row : StoredCredential) : Prop :=
  row.intent.isSome = true ∨ row.refreshStatus = .pending ∨ row.refreshStatus = .reauthRequired ∨
    row.record.status = "reauth_required"

/-- **Single use of refresh tokens**, as a property of histories. -/
structure SingleUse (h : List CredentialEvent) : Prop where
  /-- a version is refreshed at most once -/
  begins : ∀ h₁ e₁ h₂ e₂ h₃ i₁ i₂, h = h₁ ++ e₁ :: (h₂ ++ e₂ :: h₃) → Begins i₁ e₁ →
    Begins i₂ e₂ → i₁.identity.key = i₂.identity.key → i₁.identity.version ≠ i₂.identity.version
  /-- a refresh of a version is committed at most once -/
  commits : ∀ h₁ e₁ h₂ e₂ h₃ i₁ r₁ i₂ r₂, h = h₁ ++ e₁ :: (h₂ ++ e₂ :: h₃) → Commits i₁ r₁ e₁ →
    Commits i₂ r₂ e₂ → i₁.identity.key = i₂.identity.key →
    i₁.identity.version ≠ i₂.identity.version
  /-- a record is handed out only while nothing blocks it -/
  loads : ∀ e ∈ h, ∀ tenantID connectionID r, e.input = .load tenantID connectionID →
    e.answer = .loaded r → ∃ row, e.before.credentials.lookup ⟨tenantID, connectionID⟩ = some row ∧
      row.record = r ∧ ¬ row.blocked
  /-- each stored record is the next version of the same credential -/
  raises : ∀ e ∈ h, ∀ r, e.input.stores = some r → e.answer = .done →
    e.after.version r.identity.key = e.before.version r.identity.key + 1 ∧
    (∃ row, e.after.credentials.lookup r.identity.key = some row ∧ row.record = r) ∧
    ∀ row, e.before.credentials.lookup r.identity.key = some row →
      row.record.identity.sameCredential r.identity = true
  /-- a commit of a version that a fresh authentication has replaced is refused -/
  late : ∀ h₁ e₁ h₂ e₂ h₃ r i r' now, h = h₁ ++ e₁ :: (h₂ ++ e₂ :: h₃) → Puts r e₁ →
    e₂.input = .commit i r' now → i.identity.key = r.identity.key →
    i.identity.version < r.identity.version → e₂.answer ≠ .done

variable {e : CredentialEvent}

theorem event_cases (he : e ∈ history credentialStep {} ops) :
    e.answer = .done ∧ Writes e.input e.before e.after ∨ e.answer ≠ .done ∧ e.after = e.before := by
  rw [eq_event_of_mem he]
  exact credentialStep_cases e.before e.input

/-- A successful call of a history has changed its credential. -/
theorem change_of_done (he : e ∈ history credentialStep {} ops) (hin : e.input = op)
    (hdone : e.answer = .done) :
    CredentialChange op (e.before.credentials.lookup op.key) (e.after.credentials.lookup op.key) := by
  subst hin
  rcases event_cases he with ⟨-, hw⟩ | ⟨hne, -⟩
  · exact hw.change
  · exact absurd hdone hne

/-! ### Versions -/

/-- The credential has passed the version `v`, or stands at it with a refresh announced. -/
def Spent (k : CredentialKey) (v : ℤ) (s : CredentialStore) : Prop :=
  ∃ row, s.credentials.lookup k = some row ∧
    (v < row.record.identity.version ∨ row.record.identity.version = v ∧ row.intent.isSome = true)

/-- The credential has passed the version `v`. -/
def Passed (k : CredentialKey) (v : ℤ) (s : CredentialStore) : Prop :=
  ∃ row, s.credentials.lookup k = some row ∧ v < row.record.identity.version

theorem intent_of_unresolved (h : row.unresolved = false) : row.intent.isSome = false := by
  simp only [StoredCredential.unresolved, Bool.or_eq_false_iff] at h
  exact h.1.1

/-- The version never falls, and an announced refresh goes away only with its version. -/
theorem CredentialChange.spent {old : StoredCredential} (h : CredentialChange op (some old) new) :
    ∃ row, new = some row ∧ (old.record.identity.version < row.record.identity.version ∨
      row.record.identity.version = old.record.identity.version ∧
        (old.intent.isSome = true → row.intent.isSome = true)) := by
  cases h with
  | @replace r _ _ _ hold hr =>
    refine ⟨_, rfl, .inl ?_⟩
    show old.record.identity.version < r.identity.version
    omega
  | rewrap _ hr =>
    refine ⟨_, rfl, .inl ?_⟩
    rw [hr]
    exact Int.lt_succ _
  | begin => exact ⟨_, rfl, .inr ⟨rfl, fun _ => rfl⟩⟩
  | @commit i r _ _ _ hid hr =>
    refine ⟨_, rfl, .inl ?_⟩
    show old.record.identity.version < r.identity.version
    rw [hr, hid]
    exact Int.lt_succ _
  | fail => exact ⟨_, rfl, .inr ⟨rfl, fun h => h⟩⟩

section

variable (he : e ∈ history credentialStep {} ops)
include he

theorem kept_by_event {k : CredentialKey} {P : StoredCredential → Prop}
    (hP : ∀ op old new, CredentialChange op (some old) new → P old → ∃ row, new = some row ∧ P row)
    (h : ∃ row, e.before.credentials.lookup k = some row ∧ P row) :
    ∃ row, e.after.credentials.lookup k = some row ∧ P row := by
  rcases event_cases he with ⟨-, hw⟩ | ⟨-, heq⟩
  · obtain ⟨old, hold, hPold⟩ := h
    by_cases hk : k = e.input.key
    · subst hk
      have hchange := hw.change
      rw [hold] at hchange
      exact hP _ _ _ hchange hPold
    · exact ⟨old, (hw.other k hk).trans hold, hPold⟩
  · rw [heq]
    exact h

theorem Spent.kept {k : CredentialKey} (h : Spent k v e.before) : Spent k v e.after := by
  refine kept_by_event he ?_ h
  rintro op old new hchange hv
  obtain ⟨row, rfl, hcase⟩ := hchange.spent
  refine ⟨row, rfl, ?_⟩
  rcases hcase with hgrown | ⟨hsame, hintent⟩
  · omega
  rcases hv with hlt | ⟨heq, hsome⟩
  · omega
  · exact .inr ⟨hsame.trans heq, hintent hsome⟩

theorem Passed.kept {k : CredentialKey} (h : Passed k v e.before) : Passed k v e.after := by
  refine kept_by_event he ?_ h
  rintro op old new hchange hv
  obtain ⟨row, rfl, hcase⟩ := hchange.spent
  exact ⟨row, rfl, by omega⟩

/-- A begun refresh finds the version with no refresh announced, and announces one. -/
theorem Begins.spec (h : Begins i e) :
    ¬ Spent i.identity.key i.identity.version e.before ∧
      Spent i.identity.key i.identity.version e.after := by
  obtain ⟨now, hin, hdone⟩ := h
  have hchange := change_of_done he hin hdone
  generalize hold : e.before.credentials.lookup (CredentialOp.begin i now).key = old at hchange
  generalize hnew : e.after.credentials.lookup (CredentialOp.begin i now).key = new at hchange
  cases hchange with
  | @begin _ _ row v hid hopen =>
    constructor
    · rintro ⟨row', hrow', hcase⟩
      cases hold.symm.trans hrow'
      rw [hid, intent_of_unresolved hopen] at hcase
      rcases hcase with hlt | ⟨-, hsome⟩
      · exact lt_irrefl _ hlt
      · cases hsome
    · refine ⟨_, hnew, .inr ⟨?_, rfl⟩⟩
      show row.record.identity.version = i.identity.version
      rw [hid]

/-- A committed refresh finds the version and leaves the next one. -/
theorem Commits.spec (h : Commits i r e) :
    ¬ Passed i.identity.key i.identity.version e.before ∧
      Passed i.identity.key i.identity.version e.after := by
  obtain ⟨now, hin, hdone⟩ := h
  have hchange := change_of_done he hin hdone
  generalize hold : e.before.credentials.lookup (CredentialOp.commit i r now).key = old at hchange
  generalize hnew : e.after.credentials.lookup (CredentialOp.commit i r now).key = new at hchange
  cases hchange with
  | commit hid hr =>
    constructor
    · rintro ⟨row', hrow', hlt⟩
      cases hold.symm.trans hrow'
      rw [hid] at hlt
      exact lt_irrefl _ hlt
    · refine ⟨_, hnew, ?_⟩
      show i.identity.version < r.identity.version
      rw [hr]
      exact Int.lt_succ _

end

theorem sameCredential_next (i : Identity) : i.sameCredential i.next = true := by
  simp [Identity.sameCredential, Identity.next]

/-- A stored record is the next version of the same credential. -/
theorem CredentialChange.raises {old : Option StoredCredential} (h : CredentialChange op old new)
    (hr : op.stores = some r) :
    op.key = r.identity.key ∧ r.identity.version = storedVersion old + 1 ∧
      (∃ row, new = some row ∧ row.record = r) ∧
      ∀ row, old = some row → row.record.identity.sameCredential r.identity = true := by
  cases h with
  | create hv =>
    cases hr
    exact ⟨rfl, hv, ⟨_, rfl, rfl⟩, nofun⟩
  | replace hold hv hsame =>
    cases hr
    refine ⟨rfl, ?_, ⟨_, rfl, rfl⟩, fun row hrow => Option.some.inj hrow ▸ hsame⟩
    rw [hv, ← hold]
    rfl
  | rewrap _ hid =>
    cases hr
    refine ⟨rfl, ?_, ⟨_, rfl, rfl⟩, fun row hrow => ?_⟩
    · rw [hid]
      rfl
    · rw [hid, Option.some.inj hrow]
      exact sameCredential_next _
  | begin | fail => cases hr
  | commit hid hnext =>
    cases hr
    refine ⟨?_, ?_, ⟨_, rfl, rfl⟩, fun row hrow => ?_⟩
    · rw [hnext]
      rfl
    · rw [hnext, ← hid]
      rfl
    · rw [hnext, ← hid, Option.some.inj hrow]
      exact sameCredential_next _

/-- **Refresh tokens are spent once**: in every history of the six
transactions that starts without credentials. -/
theorem refresh_single_use (ops : List CredentialOp) :
    SingleUse (history credentialStep {} ops) where
  begins h₁ e₁ h₂ e₂ h₃ i₁ i₂ h hfirst hsecond hkey hversion := by
    obtain ⟨hmem₁, hmem₂⟩ := mem_of_split h
    have hspent := (hfirst.spec hmem₁).2
    rw [hkey, hversion] at hspent
    exact (hsecond.spec hmem₂).1 (holds_between h (fun e he => Spent.kept he) hspent)
  commits h₁ e₁ h₂ e₂ h₃ i₁ r₁ i₂ r₂ h hfirst hsecond hkey hversion := by
    obtain ⟨hmem₁, hmem₂⟩ := mem_of_split h
    have hpassed := (hfirst.spec hmem₁).2
    rw [hkey, hversion] at hpassed
    exact (hsecond.spec hmem₂).1 (holds_between h (fun e he => Passed.kept he) hpassed)
  loads e he tenantID connectionID r hin hloaded := by
    have hstep := step_of_event (eq_event_of_mem he) hin
    rw [hloaded, credentialStep] at hstep
    rcases hc : commit (loadUsableCredential tenantID connectionID) e.before with ⟨err | r', s'⟩
    all_goals
      rw [hc] at hstep
      cases hstep
    · obtain ⟨-, row, hrow, rfl, hopen, hactive⟩ := loadUsableCredential_runs (commit_ok_iff.1 hc)
      refine ⟨row, hrow, rfl, ?_⟩
      simp only [StoredCredential.unresolved, Bool.or_eq_false_iff, beq_eq_false_iff_ne] at hopen
      rintro (hintent | hpending | hreauth | hstatus)
      · exact absurd hintent (by rw [hopen.1.1]; exact Bool.false_ne_true)
      · exact hopen.1.2 hpending
      · exact hopen.2 hreauth
      · rw [CredentialRecord.active, hstatus] at hactive
        exact absurd hactive (by decide)
  raises e he r hstores hdone := by
    obtain ⟨hkey, hversion, ⟨row, hrow, hrec⟩, hsame⟩ :=
      (change_of_done he rfl hdone).raises hstores
    rw [hkey] at hversion hrow hsame
    refine ⟨?_, ⟨row, hrow, hrec⟩, hsame⟩
    show storedVersion _ = storedVersion _ + 1
    rw [← hversion, hrow, ← hrec]
    rfl
  late h₁ e₁ h₂ e₂ h₃ r i r' now h hput hin hkey hlt hdone := by
    obtain ⟨hmem₁, hmem₂⟩ := mem_of_split h
    obtain ⟨expected, hin₁, hdone₁⟩ := hput
    obtain ⟨-, -, ⟨row, hrow, hrec⟩, -⟩ := (change_of_done hmem₁ hin₁ hdone₁).raises rfl
    have hpassed : Passed i.identity.key i.identity.version e₁.after := by
      refine ⟨row, ?_, by rw [hrec]; exact hlt⟩
      rw [hkey]
      exact hrow
    have hcommit : Commits i r' e₂ := ⟨now, hin, hdone⟩
    exact (hcommit.spec hmem₂).1 (holds_between h (fun e he => Passed.kept he) hpassed)

end Hoorific
