/-
The idempotency store (`internal/store/idempotency.go`): an owner claims a
key, does its work, and records the response or a tombstone; whoever asks
for the key later is given the response, or told that there is none.

A row is kept under the tenant, the subject and a hash of the key, and holds
a hash of the fingerprint, the owner's id, and for a completed claim the
sealed response.  Four transactions work on it: `beginIdempotency` claims or
reads, `discardIdempotency` frees, `finishIdempotency` records, and
`cleanupIdempotencyTx` deletes what has expired.

`ClaimChange` lists what one transaction can do to one row, with what it says
about the call and the answer; the protocol is proved from it.
-/
import Hoorific.Credential.Record
import Hoorific.Lib.Crypto
import Hoorific.Lib.History
import Hoorific.Store.ReplayCodec

namespace Hoorific

open Tx Bytes

/-! ### Requests and rows -/

/-- `core.IdempotencyRequest`. -/
structure IdempotencyRequest where
  tenantID : Bytes
  subjectID : Bytes
  key : Bytes
  fingerprint : Bytes
  ownerID : Bytes
  expiresAt : Time
deriving DecidableEq

/-- `core.IdempotencyRecord`. -/
inductive IdempotencyRecord where
  | new
  | pending
  | unreplayable
  | complete (response : IdempotencyResponse)

inductive IdempotencyState where
  | pending
  | complete
  | unreplayable
deriving DecidableEq

/-- The primary key of `idempotency_records`. -/
structure IdempotencyKey where
  tenantID : Bytes
  subjectID : Bytes
  keyHash : Bytes
deriving DecidableEq

/-- A row of `idempotency_records`. -/
structure IdempotencyRow where
  fingerprintHash : Bytes
  ownerID : Bytes
  state : IdempotencyState
  expiresAt : ℤ
  envelope : Envelope := {}
  createdAt : ℤ
  updatedAt : ℤ
deriving DecidableEq

abbrev IdempotencyTable := Table IdempotencyKey IdempotencyRow

/-! ### Validation -/

def maxCoordinateBytes : ℕ := 512
def maxKeyBytes : ℕ := 256
def maxFingerprint : ℕ := 4096
def maxOwnerBytes : ℕ := 512

/-- `idempotencyMaxRetention` in seconds. -/
def maxRetention : ℤ := 86400

def cleanupBatch : ℕ := 256

def validIdempotencyString (value : Bytes) (limit : ℕ) : Bool :=
  value != [] && decide (value.length ≤ limit) && validUTF8 value && !value.contains 0 &&
    Bytes.trimSpace value != []

/-- `validateIdempotencyRequest(req, true)`: every transaction allows a
request whose expiry has passed. -/
def validateIdempotencyRequest (req : IdempotencyRequest) : Except IdempotencyError Unit := do
  Check.require (validIdempotencyString req.tenantID maxCoordinateBytes &&
    validIdempotencyString req.subjectID maxCoordinateBytes &&
    validIdempotencyString req.key maxKeyBytes &&
    validIdempotencyString req.fingerprint maxFingerprint &&
    validIdempotencyString req.ownerID maxOwnerBytes) .invalid
  Check.require (!req.expiresAt.isZero) .invalid

section Store

variable (crypto : Crypto)

/-! ### Hashing and sealing -/

/-- The digest of a value, separated by what it is used for. -/
def idempotencyHash (purpose : String) (value : Bytes) : Bytes :=
  crypto.digest (ascii "hoorific/idempotency/" ++ ascii purpose ++ ascii "/v1\x00" ++ value)

def idempotencyAAD (tenantID subjectID keyHash fingerprintHash : Bytes) : Bytes :=
  ascii "hoorific/idempotency-response/v1\x00" ++
    [tenantID, subjectID, keyHash, fingerprintHash].flatMap fun value =>
      be 4 value.length ++ value

def derivePurposeKey (master : Bytes) : Bytes :=
  crypto.mac master (ascii "hoorific/store-key/v1\x00" ++ ascii "idempotency-response/v1")

/-- `sealIdempotency`; `nonce` is what the random source returns. -/
def sealIdempotency (ring : Keyring) (nonce : Option (Vector UInt8 nonceSize))
    (aad plain : Bytes) : Except IdempotencyError Envelope :=
  match ring.current with
  | none => .error .unavailable
  | some (keyID, master) =>
    if plain.length > maxCiphertextBytes - sealOverhead then .error .invalid
    else match nonce with
      | none => .error .unavailable
      | some nonce => .ok {
          keyID := keyID
          nonce := nonce.toList
          ciphertext := crypto.sealBytes (derivePurposeKey crypto master) nonce.toList plain aad }

def openIdempotency (ring : Keyring) (aad : Bytes) (envelope : Envelope) :
    Except IdempotencyError Bytes :=
  if envelope.ciphertext.length > maxCiphertextBytes then .error .unreplayable
  else match ring.byID envelope.keyID with
    | none => .error .unreplayable
    | some master =>
      if envelope.nonce.length ≠ nonceSize ∨ envelope.ciphertext.length < sealOverhead then
        .error .unreplayable
      else match crypto.openBytes (derivePurposeKey crypto master) envelope.nonce
          envelope.ciphertext aad with
        | none => .error .unreplayable
        | some plain => .ok plain

/-! ### The transactions -/

namespace IdempotencyRequest

variable (req : IdempotencyRequest)

/-- The row a request is about. -/
def rowKey : IdempotencyKey := ⟨req.tenantID, req.subjectID, idempotencyHash crypto "key" req.key⟩

def fingerprintHash : Bytes := idempotencyHash crypto "fingerprint" req.fingerprint

/-- The additional data a response of this request is sealed with. -/
def aad : Bytes :=
  idempotencyAAD req.tenantID req.subjectID (idempotencyHash crypto "key" req.key)
    (req.fingerprintHash crypto)

/-- The row `insertIdempotencyPending` writes: the expiry that was asked for, capped. -/
def pendingRow (now : ℤ) : IdempotencyRow where
  fingerprintHash := req.fingerprintHash crypto
  ownerID := req.ownerID
  state := .pending
  expiresAt := min req.expiresAt.unix (now + maxRetention)
  createdAt := now
  updatedAt := now

end IdempotencyRequest

/-- What is left of a row whose response is lost. -/
def IdempotencyRow.tombstone (row : IdempotencyRow) (now : ℤ) : IdempotencyRow :=
  { row with state := .unreplayable, envelope := {}, updatedAt := now }

/-- A row with its response. -/
def IdempotencyRow.completed (row : IdempotencyRow) (envelope : Envelope) (now : ℤ) :
    IdempotencyRow :=
  { row with
    state := .complete, envelope := envelope, expiresAt := now + maxRetention, updatedAt := now }

/-- The response of a completed row. -/
def replay (req : IdempotencyRequest) (ring : Keyring) (row : IdempotencyRow) :
    Except IdempotencyError IdempotencyResponse := do
  let plain ← openIdempotency crypto ring (req.aad crypto) row.envelope
  decodeIdempotencyResponse plain

/-- The body of `BeginIdempotency`.  A response that cannot be read back is
given up in the same transaction, which commits although the caller gets an
error: the error is part of the value. -/
def beginIdempotencyTx (req : IdempotencyRequest) (now : ℤ) (ring : Keyring) :
    Tx IdempotencyTable IdempotencyError (IdempotencyRecord × Option IdempotencyError) := do
  let t ← get
  match t.lookup (req.rowKey crypto) with
  | none =>
    require (decide (now < req.expiresAt.unix)) .invalid
    modify fun t => t.insert (req.rowKey crypto) (req.pendingRow crypto now)
    pure (.new, none)
  | some row =>
    if row.state = .complete ∧ row.expiresAt ≤ now then
      require (decide (now < req.expiresAt.unix)) .invalid
      modify fun t => (t.erase (req.rowKey crypto)).insert (req.rowKey crypto)
        (req.pendingRow crypto now)
      pure (.new, none)
    else
      require (row.fingerprintHash == req.fingerprintHash crypto) .fingerprintConflict
      match row.state with
      | .pending => pure (.pending, none)
      | .unreplayable => pure (.unreplayable, none)
      | .complete =>
        match replay crypto req ring row with
        | .ok response => pure (.complete response, none)
        | .error _ =>
          modify fun t => t.insert (req.rowKey crypto) (row.tombstone now)
          pure (.unreplayable, some .unreplayable)

def beginIdempotency (req : IdempotencyRequest) (now : ℤ) (ring : Keyring) :
    Tx IdempotencyTable IdempotencyError (IdempotencyRecord × Option IdempotencyError) := do
  liftE (validateIdempotencyRequest req)
  beginIdempotencyTx crypto req now ring

def discardIdempotency (req : IdempotencyRequest) : Tx IdempotencyTable IdempotencyError Unit := do
  liftE (validateIdempotencyRequest req)
  let t ← get
  match t.lookup (req.rowKey crypto) with
  | none => pure ()
  | some row =>
    if row.ownerID ≠ req.ownerID ∨ row.state ≠ .pending then pure ()
    else modify fun t => t.erase (req.rowKey crypto)

/-- The envelope of a response, sealed before the transaction starts. -/
def sealResponse (req : IdempotencyRequest) (ring : Keyring)
    (nonce : Option (Vector UInt8 nonceSize)) (response : IdempotencyResponse) :
    Except IdempotencyError Envelope := do
  let plain ← encodeIdempotencyResponse response
  sealIdempotency crypto ring nonce (req.aad crypto) plain

/-- `FinishIdempotency`; a `nil` response leaves a tombstone. -/
def finishIdempotency (req : IdempotencyRequest) (response : Option IdempotencyResponse)
    (ring : Keyring) (nonce : Option (Vector UInt8 nonceSize)) (now : ℤ) :
    Tx IdempotencyTable IdempotencyError Unit := do
  liftE (validateIdempotencyRequest req)
  let envelope ← liftE (match response with
    | none => .ok none
    | some r => (sealResponse crypto req ring nonce r).map some)
  let t ← get
  let row ← orFail (t.lookup (req.rowKey crypto)) .notFound
  require (row.fingerprintHash == req.fingerprintHash crypto) .fingerprintConflict
  require (row.ownerID == req.ownerID) .ownerFenced
  match row.state with
  | .complete => pure ()
  | .unreplayable => throw .unreplayable
  | .pending =>
    modify fun t => t.insert (req.rowKey crypto) (match envelope with
      | none => row.tombstone now
      | some envelope => row.completed envelope now)

/-- A completed row that has expired. -/
def IdempotencyRow.expired (now : ℤ) (row : IdempotencyRow) : Bool :=
  row.state == .complete && decide (row.expiresAt ≤ now)

/-- `ORDER BY expires_at,tenant_id,subject_id,key_hash`. -/
def cleanupOrder (a b : IdempotencyKey × IdempotencyRow) : Bool :=
  if a.2.expiresAt ≠ b.2.expiresAt then decide (a.2.expiresAt ≤ b.2.expiresAt)
  else if a.1.tenantID ≠ b.1.tenantID then Bytes.le a.1.tenantID b.1.tenantID
  else if a.1.subjectID ≠ b.1.subjectID then Bytes.le a.1.subjectID b.1.subjectID
  else Bytes.le a.1.keyHash b.1.keyHash

/-- The keys one run of the cleanup deletes. -/
def cleanupKeys (now : ℤ) (t : IdempotencyTable) : List IdempotencyKey :=
  (((t.select fun _ row => row.expired now).insertionSort fun a b => cleanupOrder a b).take
    cleanupBatch).map Prod.fst

def cleanupIdempotencyTx (now : ℤ) (t : IdempotencyTable) : IdempotencyTable :=
  t.deleteWhere fun k row => (cleanupKeys now t).contains k && row.expired now

end Store

/-! ### Calls and answers -/

/-- A call of the store, with its clock reading, its key ring and its random bytes. -/
inductive IdempotencyCall where
  | begin (req : IdempotencyRequest) (now : ℤ) (ring : Keyring)
  | discard (req : IdempotencyRequest)
  | finish (req : IdempotencyRequest) (response : Option IdempotencyResponse) (ring : Keyring)
      (nonce : Option (Vector UInt8 nonceSize)) (now : ℤ)
  | cleanup (now : ℤ)

/-- What a caller sees. -/
inductive IdempotencyAnswer where
  | record (record : IdempotencyRecord) (err : Option IdempotencyError)
  | done
  | failed (err : IdempotencyError)

variable (crypto : Crypto)

/-- The answer of `BeginIdempotency`. -/
def IdempotencyAnswer.ofRecord :
    Except IdempotencyError (IdempotencyRecord × Option IdempotencyError) → IdempotencyAnswer
  | .ok (r, e) => .record r e
  | .error e => .failed e

/-- The answer of a call that returns an error only. -/
def IdempotencyAnswer.ofUnit : Except IdempotencyError Unit → IdempotencyAnswer
  | .ok _ => .done
  | .error e => .failed e

/-- One call. -/
def idempotencyStep (t : IdempotencyTable) : IdempotencyCall → IdempotencyAnswer × IdempotencyTable
  | .begin req now ring =>
    (commit (beginIdempotency crypto req now ring) t).map .ofRecord id
  | .discard req => (commit (discardIdempotency crypto req) t).map .ofUnit id
  | .finish req response ring nonce now =>
    (commit (finishIdempotency crypto req response ring nonce now) t).map .ofUnit id
  | .cleanup now => (.done, cleanupIdempotencyTx now t)

/-! ### What a transaction can do to a row -/

/-- The change of one row by one call. -/
inductive ClaimChange : IdempotencyCall → IdempotencyAnswer → IdempotencyKey → Option IdempotencyRow →
    Option IdempotencyRow → Prop
  | keep {call answer k row} : ClaimChange call answer k row row
  /-- the key is free, or its response has expired -/
  | claim {req now ring old} (h : ∀ row, old = some row → row.expired now = true) :
      ClaimChange (.begin req now ring) (.record .new none) (req.rowKey crypto) old
        (some (req.pendingRow crypto now))
  /-- the response cannot be read back -/
  | lose {req now ring row} (h : row.state = .complete) :
      ClaimChange (.begin req now ring) (.record .unreplayable (some .unreplayable)) (req.rowKey crypto)
        (some row) (some (row.tombstone now))
  /-- the owner gives its claim up -/
  | free {req row} (hstate : row.state = .pending) (howner : row.ownerID = req.ownerID) :
      ClaimChange (.discard req) .done (req.rowKey crypto) (some row) none
  /-- the owner does not know what became of its request -/
  | forget {req ring nonce now row} (hstate : row.state = .pending)
      (howner : row.ownerID = req.ownerID) :
      ClaimChange (.finish req none ring nonce now) .done (req.rowKey crypto) (some row)
        (some (row.tombstone now))
  /-- the owner records its response -/
  | complete {req r ring nonce now row envelope} (hstate : row.state = .pending)
      (howner : row.ownerID = req.ownerID)
      (hfp : row.fingerprintHash = req.fingerprintHash crypto)
      (hseal : sealResponse crypto req ring nonce r = .ok envelope) :
      ClaimChange (.finish req (some r) ring nonce now) .done (req.rowKey crypto) (some row)
        (some (row.completed envelope now))
  /-- a response has expired -/
  | expire {now k row} (h : row.expired now = true) : ClaimChange (.cleanup now) .done k (some row) none

variable {crypto} {t t' : IdempotencyTable} {req : IdempotencyRequest} {now : ℤ} {ring : Keyring}
  {row : IdempotencyRow} {record : IdempotencyRecord} {err : Option IdempotencyError} {u : Unit}
  {response : Option IdempotencyResponse} {nonce : Option (Vector UInt8 nonceSize)}

theorem expired_iff : row.expired now = true ↔ row.state = .complete ∧ row.expiresAt ≤ now := by
  simp [IdempotencyRow.expired]

theorem ClaimChange.write {call : IdempotencyCall} {answer : IdempotencyAnswer}
    (k₀ : IdempotencyKey)
    (h : ClaimChange crypto call answer k₀ (t.lookup k₀) (t'.lookup k₀))
    (hother : ∀ k, k ≠ k₀ → t'.lookup k = t.lookup k) (k : IdempotencyKey) :
    ClaimChange crypto call answer k (t.lookup k) (t'.lookup k) := by
  by_cases hk : k = k₀
  · subst hk
    exact h
  · rw [hother k hk]
    exact .keep

/-- What `BeginIdempotency` does, by its answer: a new claim is written over
nothing or over an expired response; a response is read with the
fingerprint it was recorded for, and the table stays. -/
theorem beginIdempotency_spec (h : Runs (beginIdempotency crypto req now ring) t (record, err) t') :
    (∀ k, ClaimChange crypto (.begin req now ring) (.record record err) k (t.lookup k) (t'.lookup k)) ∧
      (record = .new → (∀ row, t.lookup (req.rowKey crypto) = some row → row.expired now = true) ∧
        t'.lookup (req.rowKey crypto) = some (req.pendingRow crypto now)) ∧
      (∀ response, record = .complete response → t' = t ∧ ∃ row,
        t.lookup (req.rowKey crypto) = some row ∧ row.state = .complete ∧
        row.fingerprintHash = req.fingerprintHash crypto ∧
        replay crypto req ring row = .ok response) := by
  simp only [beginIdempotency, beginIdempotencyTx, runs_bind, runs_liftE, runs_get] at h
  obtain ⟨-, _, ⟨-, rfl⟩, _, _, ⟨rfl, rfl⟩, h⟩ := h
  rcases hrow : t.lookup (req.rowKey crypto) with - | row
  · -- nobody has claimed the key
    simp only [hrow, runs_bind, runs_require, runs_modify, runs_pure, Prod.mk.injEq] at h
    obtain ⟨-, _, ⟨-, rfl⟩, -, _, rfl, ⟨rfl, rfl⟩, rfl⟩ := h
    refine ⟨ClaimChange.write _ ?_ fun k hk => AList.lookup_insert_ne hk,
      fun _ => ⟨by rintro _ ⟨⟩, AList.lookup_insert _⟩, by rintro _ ⟨⟩⟩
    rw [AList.lookup_insert, hrow]
    exact .claim (by rintro _ ⟨⟩)
  · simp only [hrow] at h
    split at h
    · -- the response has expired
      rename_i hexpired
      simp only [runs_bind, runs_require, runs_modify, runs_pure, Prod.mk.injEq] at h
      obtain ⟨-, _, ⟨-, rfl⟩, -, _, rfl, ⟨rfl, rfl⟩, rfl⟩ := h
      have hold : ∀ row', some row = some row' → row'.expired now = true := by
        intro row' heq
        cases heq
        exact expired_iff.2 hexpired
      refine ⟨ClaimChange.write (req.rowKey crypto) ?_ fun k hk => ?_, fun _ => ⟨hold, AList.lookup_insert _⟩,
        by rintro _ ⟨⟩⟩
      · rw [AList.lookup_insert, hrow]
        exact .claim hold
      · rw [AList.lookup_insert_ne hk, AList.lookup_erase_ne hk]
    · simp only [runs_bind, runs_require, beq_iff_eq] at h
      obtain ⟨-, _, ⟨hfp, rfl⟩, h⟩ := h
      split at h
      iterate 2
        · obtain ⟨⟨rfl, rfl⟩, rfl⟩ := h
          exact ⟨fun _ => .keep, by rintro ⟨⟩, by rintro _ ⟨⟩⟩
      next hstate =>
        split at h
        next response hreplay =>
          -- the response is read back
          obtain ⟨⟨rfl, rfl⟩, rfl⟩ := h
          refine ⟨fun _ => .keep, by rintro ⟨⟩, fun r hr => ⟨rfl, row, rfl, hstate, hfp, ?_⟩⟩
          obtain rfl := IdempotencyRecord.complete.inj hr
          exact hreplay
        · -- the response is lost
          obtain ⟨-, _, rfl, ⟨rfl, rfl⟩, rfl⟩ := h
          refine ⟨ClaimChange.write _ ?_ fun k hk => AList.lookup_insert_ne hk,
            by rintro ⟨⟩, by rintro _ ⟨⟩⟩
          rw [AList.lookup_insert, hrow]
          exact .lose hstate

theorem discardIdempotency_change (h : Runs (discardIdempotency crypto req) t u t')
    (k : IdempotencyKey) :
    ClaimChange crypto (.discard req) .done k (t.lookup k) (t'.lookup k) := by
  simp only [discardIdempotency, runs_bind, runs_liftE, runs_get] at h
  obtain ⟨-, _, ⟨-, rfl⟩, _, _, ⟨rfl, rfl⟩, h⟩ := h
  rcases hrow : t.lookup (req.rowKey crypto) with - | row
  · simp only [hrow, runs_pure] at h
    rw [h.2]
    exact .keep
  simp only [hrow, runs_ite, runs_pure, runs_modify, not_or, ne_eq, not_not] at h
  rcases h with ⟨-, -, rfl⟩ | ⟨⟨howner, hstate⟩, rfl⟩
  · exact .keep
  refine ClaimChange.write _ ?_ (fun k hk => AList.lookup_erase_ne hk) k
  rw [AList.lookup_erase, hrow]
  exact .free hstate howner

/-- What `FinishIdempotency` does.  It succeeds for the owner of the row and
its fingerprint only; if the row is complete already, the recorded response stays. -/
theorem finishIdempotency_spec
    (h : Runs (finishIdempotency crypto req response ring nonce now) t u t') :
    (∀ k, ClaimChange crypto (.finish req response ring nonce now) .done k (t.lookup k) (t'.lookup k)) ∧
      ∃ row, t.lookup (req.rowKey crypto) = some row ∧ row.ownerID = req.ownerID ∧
        (row.state = .complete ∧ t' = t ∨
          row.state = .pending ∧ (response = none ∧
              t'.lookup (req.rowKey crypto) = some (row.tombstone now) ∨
            ∃ r envelope, response = some r ∧ sealResponse crypto req ring nonce r = .ok envelope ∧
              t'.lookup (req.rowKey crypto) = some (row.completed envelope now))) := by
  simp only [finishIdempotency, runs_liftE_bind, runs_get_bind, runs_orFail_bind,
    runs_require_bind, beq_iff_eq] at h
  obtain ⟨-, -, envelope, henv, row, hrow, hfp, howner, h⟩ := h
  split at h
  · rename_i hstate
    obtain ⟨-, rfl⟩ := runs_pure.1 h
    exact ⟨fun _ => .keep, row, hrow, howner, .inl ⟨hstate, rfl⟩⟩
  · exact absurd h runs_throw
  rename_i hstate
  rw [runs_modify] at h
  subst h
  rcases response with - | r
  · -- a tombstone
    cases henv
    refine ⟨ClaimChange.write _ ?_ fun k hk => AList.lookup_insert_ne hk, row, hrow, howner,
      .inr ⟨hstate, .inl ⟨rfl, AList.lookup_insert _⟩⟩⟩
    rw [AList.lookup_insert, hrow]
    exact .forget hstate howner
  · -- a response
    change (sealResponse crypto req ring nonce r).map some = .ok envelope at henv
    rcases hseal : sealResponse crypto req ring nonce r with e | sealed <;> rw [hseal] at henv
    · cases henv
    cases henv
    refine ⟨ClaimChange.write _ ?_ fun k hk => AList.lookup_insert_ne hk, row, hrow, howner,
      .inr ⟨hstate, .inr ⟨r, sealed, rfl, hseal, AList.lookup_insert _⟩⟩⟩
    rw [AList.lookup_insert, hrow]
    exact .complete hstate howner hfp hseal

theorem cleanupIdempotencyTx_change (k : IdempotencyKey) :
    ClaimChange crypto (.cleanup now) .done k (t.lookup k) ((cleanupIdempotencyTx now t).lookup k) := by
  rcases hnew : (cleanupIdempotencyTx now t).lookup k with - | row
  · rcases hold : t.lookup k with - | row
    · exact .keep
    · -- a row that is gone met the condition of the deletion
      refine .expire ?_
      by_contra hexpired
      have hkept : (cleanupIdempotencyTx now t).lookup k = some row := by
        refine Table.lookup_deleteWhere_iff.2 ⟨hold, ?_⟩
        rw [Bool.eq_false_iff.2 hexpired, Bool.and_false]
      rw [hnew] at hkept
      cases hkept
  · rw [(Table.lookup_deleteWhere_iff.1 hnew).1]
    exact .keep

/-- **Every call changes every row as `ClaimChange` says.** -/
theorem idempotencyStep_change (t : IdempotencyTable) (call : IdempotencyCall)
    (k : IdempotencyKey) :
    ClaimChange crypto call (idempotencyStep crypto t call).1 k (t.lookup k)
      ((idempotencyStep crypto t call).2.lookup k) := by
  cases call with
  | begin req now ring =>
    rcases hc : commit (beginIdempotency crypto req now ring) t with ⟨err | ⟨record, err⟩, t'⟩ <;>
      simp only [idempotencyStep, hc, Prod.map]
    · exact commit_error hc ▸ .keep
    · exact (beginIdempotency_spec (commit_ok_iff.1 hc)).1 k
  | discard req =>
    rcases hc : commit (discardIdempotency crypto req) t with ⟨err | u, t'⟩ <;>
      simp only [idempotencyStep, hc, Prod.map]
    · exact commit_error hc ▸ .keep
    · exact discardIdempotency_change (commit_ok_iff.1 hc) k
  | finish req response ring nonce now =>
    rcases hc : commit (finishIdempotency crypto req response ring nonce now) t with
      ⟨err | u, t'⟩ <;> simp only [idempotencyStep, hc, Prod.map]
    · exact commit_error hc ▸ .keep
    · exact (finishIdempotency_spec (commit_ok_iff.1 hc)).1 k
  | cleanup now => exact cleanupIdempotencyTx_change k

theorem runs_of_record
    (h : idempotencyStep crypto t (.begin req now ring) = (.record record err, t')) :
    Runs (beginIdempotency crypto req now ring) t (record, err) t' := by
  rcases hc : commit (beginIdempotency crypto req now ring) t with ⟨e | ⟨record', err'⟩, s⟩ <;>
    simp only [idempotencyStep, hc, Prod.map] at h <;> cases h
  exact commit_ok_iff.1 hc

theorem runs_of_done
    (h : idempotencyStep crypto t (.finish req response ring nonce now) = (.done, t')) :
    Runs (finishIdempotency crypto req response ring nonce now) t () t' := by
  rcases hc : commit (finishIdempotency crypto req response ring nonce now) t with ⟨e | u, s⟩ <;>
    simp only [idempotencyStep, hc, Prod.map] at h <;> cases h
  exact commit_ok_iff.1 hc

/-! ### Sealed responses are read back -/

/-- What was sealed under a key that is still in the ring is read back. -/
theorem replay_of_seal {req' : IdempotencyRequest} {ring' : Keyring} {r : IdempotencyResponse}
    (hseal : sealResponse crypto req ring nonce r = .ok row.envelope)
    (haad : req'.aad crypto = req.aad crypto)
    (hkey : ∀ id master, ring.current = some (id, master) → ring'.byID id = some master) :
    ∃ r', replay crypto req' ring' row = .ok r' ∧ r'.Same r := by
  rw [sealResponse, Check.bind_ok] at hseal
  obtain ⟨plain, hplain, hseal⟩ := hseal
  unfold sealIdempotency at hseal
  split at hseal
  · cases hseal
  rename_i keyID master hcurrent
  split at hseal
  · cases hseal
  split at hseal
  · cases hseal
  rename_i nonce
  obtain ⟨r', hdecode, hsame⟩ := decode_of_encode hplain
  refine ⟨r', ?_, hsame⟩
  rw [replay, Check.bind_ok, haad, ← Except.ok.inj hseal]
  refine ⟨plain, ?_, hdecode⟩
  have hsize : sealOverhead ≤ maxCiphertextBytes := by decide
  have hnonce : nonce.toList.length = nonceSize := nonce.length_toList
  rw [openIdempotency, if_neg (by rw [crypto.length_seal]; omega), hkey _ _ hcurrent]
  show (if nonce.toList.length ≠ nonceSize ∨ _ then _ else _) = _
  rw [if_neg (by rw [crypto.length_seal]; omega), crypto.open_seal]

end Hoorific
