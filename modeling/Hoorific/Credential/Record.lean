/-
Stored credentials and the transactions on them
(`internal/credential/types.go`, `internal/store/auxiliary.go`).

A credential belongs to a connection of a tenant; each replacement raises
its version.  Refreshing it spends a rotating token at the provider, so a
refresh is announced first: `BeginRefresh` stores an intent,
`CommitRefresh` installs the next version against that intent, and
`FailRefresh` marks the credential for re-authentication and leaves the
intent in place.  `PutCredential` is a fresh authentication and replaces
whatever there is; `RewrapCredential` changes only the envelope.
-/
import Hoorific.Lib.Bytes
import Hoorific.Lib.Table
import Hoorific.Lib.Tx
import Hoorific.Policy

namespace Hoorific

open Tx

/-! ### Records -/

/-- `credential.Envelope`. -/
structure Envelope where
  keyID : Bytes := []
  nonce : Bytes := []
  ciphertext : Bytes := []
deriving DecidableEq

/-- `credential.Keyring`: `none` stands for an error. -/
structure Keyring where
  current : Option (Bytes × Bytes)
  byID : Bytes → Option Bytes

/-- `credential.Identity`. -/
structure Identity where
  tenantID : String
  connectionID : String
  credentialID : String
  accountID : String
  provider : String
  version : ℤ
deriving DecidableEq

/-- `credential.Record`. -/
structure CredentialRecord where
  identity : Identity
  envelope : Envelope := {}
  status : String
  rotatedAt : Time := Time.zero
deriving DecidableEq

/-- `credential.RefreshIntent`. -/
structure RefreshIntent where
  identity : Identity
  attemptID : String
  fence : String
  leaseUntil : Time
deriving DecidableEq

inductive RefreshStatus where
  | completed
  | pending
  | reauthRequired
deriving DecidableEq

/-- `storedCredential`, with the version of its durable record. -/
structure StoredCredential where
  record : CredentialRecord
  intent : Option RefreshIntent := none
  refreshStatus : RefreshStatus
  rowVersion : ℤ
deriving DecidableEq

/-- The key of a durable record of kind `credential`. -/
structure CredentialKey where
  tenantID : String
  connectionID : String
deriving DecidableEq

inductive CredentialError where
  | conflict
  | reauthRequired
  | invalid
  | noRows
deriving DecidableEq

/-- The credentials, and the configuration revision their changes advance. -/
structure CredentialStore where
  credentials : Table CredentialKey StoredCredential := ∅
  revision : ℤ := 0

abbrev CredentialTx := Tx CredentialStore CredentialError

variable (i : Identity)

/-- The credential an identity is a version of. -/
def Identity.key : CredentialKey := ⟨i.tenantID, i.connectionID⟩

/-- The next version of an identity. -/
def Identity.next : Identity := { i with version := i.version + 1 }

/-- The coordinates of an identity: all but its version. -/
def Identity.sameCredential (a b : Identity) : Bool :=
  a.tenantID == b.tenantID && a.connectionID == b.connectionID &&
  a.credentialID == b.credentialID && a.accountID == b.accountID && a.provider == b.provider

/-- Every coordinate is given. -/
def Identity.complete : Bool :=
  i.tenantID != "" && i.connectionID != "" && i.credentialID != "" && i.accountID != "" &&
  i.provider != ""

/-! ### The transactions -/

/-- `durableGet` of a credential. -/
def durableGetCredential (k : CredentialKey) : CredentialTx StoredCredential := do
  let s ← get
  orFail (s.credentials.lookup k) .noRows

/-- `durablePut` of a credential: version 0 inserts, any other version
replaces the row that has it. -/
def durablePutCredential (k : CredentialKey) (version : ℤ) (value : StoredCredential) :
    CredentialTx Unit := do
  let s ← get
  require (if version = 0 then (s.credentials.lookup k).isNone
    else (s.credentials.lookup k).any fun row => row.rowVersion == version) .conflict
  modify fun s => { s with
    credentials := s.credentials.insert k { value with rowVersion := version + 1 } }

/-- The end of `withCredentialRevision`: `bumpRevisionTx`. -/
def bumpRevision : CredentialTx Unit := modify fun s => { s with revision := s.revision + 1 }

variable (r : CredentialRecord)

/-- A record as a fresh authentication or a committed refresh stores it. -/
def StoredCredential.fresh : StoredCredential where
  record := r
  refreshStatus := .completed
  rowVersion := 0

/-- A refresh has been announced and not been resolved. -/
def StoredCredential.unresolved (row : StoredCredential) : Bool :=
  row.intent.isSome || row.refreshStatus == .pending || row.refreshStatus == .reauthRequired

/-- The record is in use: its status is empty or `active`. -/
def CredentialRecord.active (r : CredentialRecord) : Bool := r.status == "" || r.status == "active"

def loadUsableCredential (tenantID id : String) : CredentialTx CredentialRecord := do
  let row ← durableGetCredential ⟨tenantID, id⟩
  require (row.record.identity.tenantID == tenantID &&
    row.record.identity.connectionID == id) .invalid
  require (!row.unresolved) .reauthRequired
  require row.record.active .invalid
  pure row.record

/-- The transaction of `PutCredential`: a first version, or the successor of
the expected one. -/
def putCredentialTx (expected : ℤ) : CredentialTx Unit := do
  let s ← get
  match s.credentials.lookup r.identity.key with
  | none =>
    require (expected == 0) .noRows
    durablePutCredential r.identity.key 0 (.fresh r)
  | some old =>
    require (old.record.identity.version == expected) .conflict
    require (old.record.identity.sameCredential r.identity) .conflict
    durablePutCredential r.identity.key old.rowVersion (.fresh r)

def putCredential (expected : ℤ) : CredentialTx Unit := do
  require (decide (0 ≤ expected) && expected != maxInt64 && r.identity.complete &&
    r.identity.version == expected + 1) .conflict
  putCredentialTx r expected
  bumpRevision

def rewrapCredential (expected : ℤ) : CredentialTx Unit := do
  require (decide (1 ≤ expected) && expected != maxInt64 &&
    r.identity.version == expected + 1) .conflict
  let old ← durableGetCredential r.identity.key
  require (!old.unresolved && old.record.status != "reauth_required") .reauthRequired
  require (old.record.identity.version == expected) .conflict
  require (old.record.identity.next == r.identity && r.status == old.record.status) .conflict
  durablePutCredential r.identity.key old.rowVersion { old with record := r }
  bumpRevision

/-- The check of `BeginRefresh` and `CommitRefresh` on the identity they are given. -/
def Identity.refreshable : Bool := i.complete && decide (1 ≤ i.version) && i.version != maxInt64

def beginRefresh (i : RefreshIntent) (now : Time) : CredentialTx Unit := do
  require (i.identity.refreshable && i.attemptID != "" && i.fence != "" &&
    decide (now.nanos < i.leaseUntil.nanos)) .conflict
  let row ← durableGetCredential i.identity.key
  require (row.record.identity == i.identity) .conflict
  require (!row.unresolved && row.record.active) .reauthRequired
  durablePutCredential i.identity.key row.rowVersion
    { row with intent := some i, refreshStatus := .pending }

/-- The stored intent is the one that was announced with `i`. -/
def refreshMatches (row : StoredCredential) (i : RefreshIntent) : Bool :=
  row.record.identity == i.identity &&
  (row.intent.any fun stored => stored.identity == i.identity && stored.attemptID == i.attemptID &&
    stored.fence == i.fence) &&
  row.refreshStatus == .pending

def commitRefresh (i : RefreshIntent) (r : CredentialRecord) (now : Time) : CredentialTx Unit := do
  require (i.identity.refreshable && r.status == "active") .conflict
  let row ← durableGetCredential i.identity.key
  require (refreshMatches row i && row.record.active && r.identity == i.identity.next &&
    row.intent.any fun stored => decide (now.nanos < stored.leaseUntil.nanos)) .conflict
  durablePutCredential i.identity.key row.rowVersion (.fresh r)
  bumpRevision

def failRefresh (i : RefreshIntent) : CredentialTx Unit := do
  let row ← durableGetCredential i.identity.key
  require (refreshMatches row i) .conflict
  durablePutCredential i.identity.key row.rowVersion
    { row with refreshStatus := .reauthRequired,
               record := { row.record with status := "reauth_required" } }
  bumpRevision

end Hoorific
