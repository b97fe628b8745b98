/-
API keys over whole histories.  A key has a row in `api_keys`, with its
version, its verifier, its data and whether it is revoked, and a resource
with its version and its data.  `IssueKey` creates both, `RotateKey` gives
both a new version and the row a new verifier, and `Mutate` changes or
deletes the resource and keeps the row in step; a deletion leaves the row
behind, revoked.

The rows are kept beside the store, which sees of them what the other
transactions read (`KeySystem.current`).  A verifier is the digest of a
token; the source stores it in hexadecimal digits.
-/
import Hoorific.Lib.Crypto
import Hoorific.Store.Configure
import Hoorific.Store.KeyTokens

namespace Hoorific

open Tx

/-! ### The system -/

/-- A row of `api_keys`. -/
structure KeyRow where
  version : ℤ
  verifier : Bytes
  data : KeyData
  revoked : Bool
deriving DecidableEq

structure KeySystem where
  store : Store := {}
  keys : Table (String × String) KeyRow := ∅

/-- Transaction bodies over the keys. -/
abbrev KeyTx := Tx KeySystem StoreError

namespace KeySystem

variable (s : KeySystem)

/-- The store as the other transactions see it. -/
def current : Store :=
  { s.store with
    apiKeys := Table.mapValues (fun row => ⟨row.version, row.revoked⟩) s.keys }

/-- The resource of a key. -/
def resource (s : KeySystem) (k : String × String) : Option (Resource .apiKeys) :=
  s.store.resource k.1 .apiKeys k.2

def withKey (k : String × String) (row : KeyRow) : KeySystem :=
  { s with keys := s.keys.insert k row }

def withResource (k : String × String) (r : Resource .apiKeys) : KeySystem :=
  { s with store := { s.store with resources := s.store.resources.insert ⟨k.1, .apiKeys, k.2⟩ r } }

def bumpRevision (s : KeySystem) : KeySystem := { s with store := s.store.bumpRevision }

/-! ### Transactions -/

/-- The ids `IssueKey` admits. -/
def validKeyID (id : String) : Bool :=
  id != "" && decide (id.utf8ByteSize ≤ 256) &&
    !id.toList.any fun c => c == '\x00' || c == '\r' || c == '\n'

section Transactions

variable (crypto : Crypto) (platform : Platform)

/-- `IssueKey`: the token.  `data = none` is data that does not decode. -/
def issueKey (order : MapOrder) (p : Principal) (id : String) (data : Option KeyData)
    (secret : Bytes) : KeyTx Bytes := do
  require (validKeyID id) (storeError "invalid_resource" 400)
  let data ← orFail data (storeError "invalid_key_metadata" 400)
  let kd ← liftE (decodeKeyData data)
  let token ← liftE (newKeyToken p.tenantID id secret)
  let s ← get
  let current ← liftE (resolvePrincipalTx s.current p)
  liftE (authorize current true)
  require (issuerAllowsKey current kd) (storeError "forbidden" 403)
  require (s.resource (current.tenantID, id)).isNone (storeError "already_exists" 409)
  require (s.keys.lookup (current.tenantID, id)).isNone (.constraint "api_keys")
  modify fun s => (s.withResource (current.tenantID, id) ⟨1, kd⟩).withKey (current.tenantID, id)
    ⟨1, crypto.digest token, kd, false⟩
  let s ← get
  liftE (validateTenantTx platform order s.current current.tenantID)
  modify bumpRevision
  pure token

/-- `RotateKey`: the new token. -/
def rotateKey (p : Principal) (id : String) (expectedVersion : ℤ) (secret : Bytes) :
    KeyTx Bytes := do
  require (id != "" && decide (0 < expectedVersion)) (storeError "invalid_resource" 400)
  let token ← liftE (newKeyToken p.tenantID id secret)
  let s ← get
  let current ← liftE (resolvePrincipalTx s.current p)
  liftE (authorize current true)
  let row ← orFail (s.keys.lookup (current.tenantID, id)) (storeError "not_found" 404)
  require (!row.revoked && row.version == expectedVersion) (storeError "version_conflict" 412)
  let kd ← orFail (decodeKeyData row.data).toOption (storeError "invalid_key_metadata" 500)
  require (issuerAllowsKey current kd) (storeError "forbidden" 403)
  let r ← orFail (s.resource (current.tenantID, id)) (storeError "version_conflict" 412)
  require (r.version == row.version) (storeError "version_conflict" 412)
  modify fun s => (s.withKey (current.tenantID, id)
    ⟨row.version + 1, crypto.digest token, row.data, row.revoked⟩).withResource
      (current.tenantID, id) ⟨row.version + 1, r.data⟩
  modify bumpRevision
  pure token

/-- The rows after a mutation that left the store `next`: the version and the
revocation are those `syncKeyMetadataTx` wrote, the data is the new data or,
for a deletion, the old. -/
def mutatedKeys (s : KeySystem) (k : String × String) (next : Store) :
    Table (String × String) KeyRow :=
  match s.keys.lookup k, next.apiKeys.lookup k with
  | some row, some written =>
    s.keys.insert k
      { row with
        version := written.version
        revoked := written.revoked
        data := ((next.resource k.1 .apiKeys k.2).map Resource.data).getD row.data }
  | _, _ => s.keys

/-- `Mutate` on the system. -/
def mutate (order : MapOrder) (p : Principal) (m : Mutation) (now : ℤ) : KeyTx Unit := fun s =>
  match (Hoorific.mutate platform order p m now).run s.current with
  | .error e => .error e
  | .ok (_, next) =>
    .ok ((), ⟨next, if m.kind = .apiKeys then s.mutatedKeys (p.tenantID, m.id) next else s.keys⟩)

end Transactions

def authenticateKey (crypto : Crypto) (s : KeySystem) (token : Bytes) :
    Except StoreError Principal :=
  let unauthorized := .error (storeError "unauthorized" 401)
  match parseKeyToken token with
  | none => unauthorized
  | some k =>
    match s.keys.lookup k with
    | none => unauthorized
    | some row =>
      if row.revoked = true ∨ row.verifier ≠ crypto.digest token then unauthorized
      else match resolveActiveKeyTx s.current k.1 k.2 row.version with
        | .error _ => unauthorized
        | .ok p => .ok p

/-- A step that leaves the keys and their resources alone. -/
def background (other : Store) : KeySystem :=
  { s with
    store := { other with
      resources := Table.filterKeys (fun k : ResourceKey => decide (k.kind = .apiKeys))
          s.store.resources ∪
        Table.filterKeys (fun k : ResourceKey => !decide (k.kind = .apiKeys)) other.resources } }

end KeySystem

/-! ### Runs -/

/-- A transaction on the keys, or a step of the rest of the system. -/
inductive KeyOp where
  | issue (order : MapOrder) (p : Principal) (id : String) (data : Option KeyData) (secret : Bytes)
  | rotate (p : Principal) (id : String) (expectedVersion : ℤ) (secret : Bytes)
  | mutate (order : MapOrder) (p : Principal) (m : Mutation) (now : ℤ)
  | authenticate (token : Bytes)
  | background (other : Store)

/-- The key a step makes a token for, with the random bytes it reads. -/
def KeyOp.secret : KeyOp → Option ((String × String) × Bytes)
  | .issue _ p id _ secret => some ((p.tenantID, id), secret)
  | .rotate p id _ secret => some ((p.tenantID, id), secret)
  | .mutate _ _ _ _ | .authenticate _ | .background _ => none

/-- The key a step deletes; `revoke` is a deletion. -/
def KeyOp.deletes : KeyOp → Option (String × String)
  | .mutate _ p m _ => if m.kind = .apiKeys ∧ m.delete = true then some (p.tenantID, m.id) else none
  | .issue _ _ _ _ _ | .rotate _ _ _ _ | .authenticate _ | .background _ => none

section Runs

variable (crypto : Crypto) (platform : Platform)

/-- The transaction of a step: the token it returns, if it makes one. -/
def KeyOp.tx : KeyOp → KeyTx (Option Bytes)
  | .issue order p id data secret => do
    let token ← KeySystem.issueKey crypto platform order p id data secret
    pure (some token)
  | .rotate p id expectedVersion secret => do
    let token ← KeySystem.rotateKey crypto p id expectedVersion secret
    pure (some token)
  | .mutate order p m now => do
    KeySystem.mutate platform order p m now
    pure none
  | .authenticate token => do
    let s ← get
    let _ ← liftE (s.authenticateKey crypto token)
    pure none
  | .background other => do
    modify fun s => s.background other
    pure none

/-- One step of a run; a transaction that fails changes nothing. -/
def KeyOp.step (s : KeySystem) (op : KeyOp) : KeySystem := (commit (op.tx crypto platform) s).2

/-- The system after a run from a store without keys. -/
def keysAfter (store : Store) (ops : List KeyOp) : KeySystem :=
  run (KeyOp.step crypto platform) { store := store } ops

end Runs

/-! ### What a step does to a key -/

/-- The row and the resource of a key. -/
def KeySystem.view (s : KeySystem) (k : String × String) :
    Option KeyRow × Option (Resource .apiKeys) :=
  (s.keys.lookup k, s.resource k)

/-- What the step `op` may do to the row and the resource of the key `k`. -/
inductive KeyMoves (crypto : Crypto) (op : KeyOp) (k : String × String) :
    Option KeyRow × Option (Resource .apiKeys) → Option KeyRow × Option (Resource .apiKeys) → Prop
  | same (v) : KeyMoves crypto op k v v
  | issued {kd : KeyData} {secret : Bytes} (hsecret : op.secret = some (k, secret))
      (hkd : decodeKeyData kd = .ok kd) :
    KeyMoves crypto op k (none, none)
      (some ⟨1, crypto.digest (keyToken k.1 k.2 secret), kd, false⟩, some ⟨1, kd⟩)
  | rotated {row : KeyRow} {r : Resource .apiKeys} {secret : Bytes}
      (hsecret : op.secret = some (k, secret)) (hlive : row.revoked = false) :
    KeyMoves crypto op k (some row, some r)
      (some ⟨row.version + 1, crypto.digest (keyToken k.1 k.2 secret), row.data, row.revoked⟩,
        some ⟨row.version + 1, r.data⟩)
  | updated {row : KeyRow} {r : Resource .apiKeys} {kd : KeyData}
      (hkd : decodeKeyData kd = .ok kd) :
    KeyMoves crypto op k (some row, some r)
      (some ⟨row.version + 1, row.verifier, kd, row.revoked⟩, some ⟨row.version + 1, kd⟩)
  | deleted {row : KeyRow} {r : Resource .apiKeys} :
    KeyMoves crypto op k (some row, some r)
      (some ⟨row.version + 1, row.verifier, row.data, true⟩, none)

section Moves

variable {crypto : Crypto} {platform : Platform} {order : MapOrder} {s s' : KeySystem}
  {k : String × String}

namespace KeySystem

theorem view_withKey_withResource (s : KeySystem) (k : String × String) (row : KeyRow)
    (r : Resource .apiKeys) :
    ((s.withResource k r).withKey k row).view = Function.update s.view k (some row, some r) := by
  funext k'
  by_cases hk : k' = k
  · subst hk
    simp [view, withKey, withResource, resource, Store.resource]
  have hkey : (⟨k'.1, .apiKeys, k'.2⟩ : ResourceKey) ≠ ⟨k.1, .apiKeys, k.2⟩ := by
    intro h
    injection h with h₁ _ h₂
    exact hk (Prod.ext h₁ h₂)
  simp [view, withKey, withResource, resource, Store.resource, hk, AList.lookup_insert_ne hkey,
    AList.lookup_insert_ne]

theorem view_background (s : KeySystem) (other : Store) : (s.background other).view = s.view :=
  funext fun k => congrArg (Prod.mk _) (Table.lookup_filterKeys_union
    (k := (⟨k.1, .apiKeys, k.2⟩ : ResourceKey)) (by simp))

theorem current_apiKeys (s : KeySystem) (k : String × String) :
    s.current.apiKeys.lookup k = (s.keys.lookup k).map fun row => ⟨row.version, row.revoked⟩ :=
  Table.lookup_mapValues _ _ _

variable {p : Principal} {id : String} {data : Option KeyData} {secret token : Bytes} {m : Mutation}
  {now : ℤ} {u : Unit}

/-- **A token is made** by `IssueKey` or `RotateKey` for a caller of the tenant of
the key: the row gets its verifier. -/
theorem token_runs {op : KeyOp} {out : Option Bytes} (hsecret : op.secret = some (k, secret))
    (h : Runs (op.tx crypto platform) s out s') :
    ∃ token p current row r, out = some token ∧ newKeyToken k.1 k.2 secret = .ok token ∧
      p.tenantID = k.1 ∧ resolvePrincipalTx s.current p = .ok current ∧
      KeyMoves crypto op k (s.view k) (some row, some r) ∧ row.revoked = false ∧
      row.verifier = crypto.digest token ∧
      s' = ((s.withResource k r).withKey k row).bumpRevision := by
  cases op with
  | issue order p id data secret =>
    cases hsecret
    obtain ⟨token, _, hissue, hpure⟩ := runs_bind.1 h
    obtain ⟨rfl, rfl⟩ := runs_pure.1 hpure
    simp only [issueKey, runs_require_bind, runs_get_bind, runs_liftE_bind,
      runs_orFail_bind, runs_modify_bind, runs_pure] at hissue
    obtain ⟨-, data, -, kd, hkd, _, htoken, current, hcurrent, ⟨⟩, -, -, hresource, hkey, ⟨⟩, -, rfl,
      rfl⟩ := hissue
    rw [resolvePrincipalTx_tenantID hcurrent] at hresource hkey ⊢
    obtain rfl := decodeKeyData_ok hkd
    have hfree : s.view (p.tenantID, id) = (none, none) :=
      Prod.ext (Option.isNone_iff_eq_none.1 hkey) (Option.isNone_iff_eq_none.1 hresource)
    refine ⟨_, p, current, _, _, rfl, htoken, rfl, hcurrent, ?_, rfl, rfl, rfl⟩
    obtain ⟨-, -, rfl⟩ := newKeyToken_eq_ok_iff.1 htoken
    rw [hfree]
    exact .issued rfl hkd
  | rotate p id expectedVersion secret =>
    cases hsecret
    obtain ⟨token, _, hrotate, hpure⟩ := runs_bind.1 h
    obtain ⟨rfl, rfl⟩ := runs_pure.1 hpure
    simp only [rotateKey, runs_require_bind, runs_get_bind, runs_liftE_bind,
      runs_orFail_bind, runs_modify_bind, runs_pure] at hrotate
    obtain ⟨-, _, htoken, current, hcurrent, ⟨⟩, -, row, hrow, hlive, -, -, -, r, hr, -, rfl,
      rfl⟩ := hrotate
    simp only [Bool.and_eq_true, Bool.not_eq_true'] at hlive
    rw [resolvePrincipalTx_tenantID hcurrent] at hrow hr ⊢
    have hview : s.view (p.tenantID, id) = (some row, some r) := Prod.ext hrow hr
    refine ⟨_, p, current, ⟨row.version + 1, crypto.digest _, row.data, row.revoked⟩,
      ⟨row.version + 1, r.data⟩, rfl, htoken, rfl, hcurrent, ?_, hlive.1, rfl, rfl⟩
    obtain ⟨-, -, rfl⟩ := newKeyToken_eq_ok_iff.1 htoken
    rw [hview]
    exact .rotated rfl hlive.1
  | mutate | authenticate | background => cases hsecret

theorem mutate_runs_iff :
    Runs (mutate platform order p m now) s u s' ↔
      ∃ next, Runs (Hoorific.mutate platform order p m now) s.current () next ∧
        s' = ⟨next,
          if m.kind = .apiKeys then s.mutatedKeys (p.tenantID, m.id) next else s.keys⟩ := by
  show (match (Hoorific.mutate platform order p m now).run s.current with
    | .error e => Except.error e
    | .ok (_, next) => Except.ok ((), (⟨next, _⟩ : KeySystem))) = Except.ok (u, s') ↔ _
  rcases hrun : (Hoorific.mutate platform order p m now).run s.current with e | ⟨⟨⟩, next⟩
  · simp [Runs, hrun]
  · simp [Runs, hrun, eq_comm]

theorem view_mutated (data : Option KeyData) {tenant : String} {row : KeyRow} {s₁ : Store} {version : ℤ} {revoked : Bool}
    (hrow : s.keys.lookup (tenant, id) = some row)
    (hwritten : s₁.apiKeys.lookup (tenant, id) = some ⟨row.version + 1, revoked⟩)
    (hresource : ∀ t i, s₁.resource t .apiKeys i = s.resource (t, i))
    (hversion : version = row.version) :
    KeySystem.view ⟨(s₁.writeResource ⟨tenant, .apiKeys, id⟩ version data).bumpRevision,
        s.mutatedKeys (tenant, id)
          (s₁.writeResource ⟨tenant, .apiKeys, id⟩ version data).bumpRevision⟩ =
      Function.update s.view (tenant, id)
        (some ⟨row.version + 1, row.verifier, data.getD row.data, revoked⟩,
          data.map fun kd => (⟨row.version + 1, kd⟩ : Resource .apiKeys)) := by
  subst hversion
  set next := (s₁.writeResource ⟨tenant, .apiKeys, id⟩ row.version data).bumpRevision with hnext
  have hkey : next.resource tenant .apiKeys id = data.map fun kd => (⟨row.version + 1, kd⟩ : Resource .apiKeys) :=
    writeResource_resource
  have hapiKeys : next.apiKeys.lookup (tenant, id) = some ⟨row.version + 1, revoked⟩ := by
    rw [← hwritten]
    rcases data with - | x <;> rfl
  have hkeys : s.mutatedKeys (tenant, id) next = s.keys.insert (tenant, id)
      ⟨row.version + 1, row.verifier, data.getD row.data, revoked⟩ := by
    unfold mutatedKeys
    rw [hrow, hapiKeys]
    simp only [hkey]
    rcases data with - | x <;> rfl
  funext k
  by_cases hk : k = (tenant, id)
  · subst hk
    rw [Function.update_self]
    refine Prod.ext ?_ hkey
    show (s.mutatedKeys _ next).lookup _ = _
    rw [hkeys, AList.lookup_insert]
  · rw [Function.update_of_ne hk]
    refine Prod.ext ?_ ?_
    · show (s.mutatedKeys _ next).lookup _ = _
      rw [hkeys, AList.lookup_insert_ne hk]
      rfl
    · refine Eq.trans (writeResource_resource_of_key_ne ?_) (hresource k.1 k.2)
      intro h
      injection h with h₁ _ h₂
      exact hk (Prod.ext h₁ h₂)

/-- **`Mutate`** of a key: row and resource had one version, and both are
changed, or the resource is deleted and the row revoked. -/
theorem mutate_key_runs (hkind : m.kind = .apiKeys)
    (h : Runs (mutate platform order p m now) s u s') :
    ∃ v, KeyMoves crypto (.mutate order p m now) (p.tenantID, m.id) (s.view (p.tenantID, m.id)) v ∧
      s'.view = Function.update s.view (p.tenantID, m.id) v ∧
      (m.delete = true → ∃ row, v.1 = some row ∧ row.revoked = true) := by
  obtain ⟨kind, id, expectedVersion, delete, submitted⟩ := m
  subst hkind
  obtain ⟨next, hnext, rfl⟩ := mutate_runs_iff.1 h
  obtain ⟨data, current, version, s₁, -, hdata, htenant, hversion, -, hsync, htables, -, rfl⟩ :=
    Hoorific.mutate_runs hnext
  obtain ⟨hone, old, hold, hsucc, hs₁, hdecode⟩ := syncKeyMetadataTx_ok hsync
  rw [htenant, current_apiKeys] at hold
  obtain ⟨row, hrow, rfl⟩ := Option.map_eq_some_iff.1 hold
  -- a key without a resource would be at version 0
  obtain ⟨-, -, rfl⟩ | ⟨r, hr, -, rfl⟩ := Mutation.version_ok hversion
  · exact absurd hone (by decide)
  have hrv : r.version = row.version := by
    have hsucc : row.version + 1 = r.version + 1 := hsucc
    omega
  have hwritten : s₁.apiKeys.lookup (p.tenantID, id) =
      some ⟨row.version + 1, data.isNone || row.revoked⟩ := by
    rw [hs₁, htenant, ← hrv]
    exact AList.lookup_insert _
  have hresource : ∀ t i, s₁.resource t .apiKeys i = s.resource (t, i) := fun t i =>
    htables.resource .apiKeys i
  have hview := view_mutated data hrow hwritten hresource hrv
  rw [show s.view (p.tenantID, id) = (some row, some r) from Prod.ext hrow hr]
  rcases validated_ok hdata with ⟨hdelete, rfl⟩ | ⟨x, hdelete, -, -, rfl⟩
  · exact ⟨_, .deleted, hview, fun _ => ⟨_, rfl, rfl⟩⟩
  · exact ⟨_, .updated (hdecode _ rfl), hview, fun h => nomatch h.symm.trans hdelete⟩

theorem view_mutate_of_kind_ne (hkind : m.kind ≠ .apiKeys)
    (h : Runs (mutate platform order p m now) s u s') :
    s'.view = s.view := by
  obtain ⟨next, hnext, rfl⟩ := mutate_runs_iff.1 h
  obtain ⟨data, current, version, s₁, -, -, -, -, -, -, htables, -, rfl⟩ :=
    Hoorific.mutate_runs hnext
  rw [if_neg hkind]
  funext k
  refine congrArg (Prod.mk _) (Eq.trans (writeResource_resource_of_key_ne ?_)
    (htables.resource .apiKeys k.2))
  rintro h
  injection h with _ h _
  exact hkind h.symm

end KeySystem

variable {op : KeyOp}

theorem KeyMoves.of_update {k' : String × String} {v : Option KeyRow × Option (Resource .apiKeys)}
    (hview : s'.view = Function.update s.view k' v) (hmoves : KeyMoves crypto op k' (s.view k') v)
    (k : String × String) :
    KeyMoves crypto op k (s.view k) (s'.view k) := by
  by_cases hk : k = k'
  · subst hk
    rw [hview, Function.update_self]
    exact hmoves
  · rw [hview, Function.update_of_ne hk]
    exact .same _

/-- **What a transaction does** to every key. -/
theorem moves_of_runs {out : Option Bytes} (h : Runs (op.tx crypto platform) s out s')
    (k : String × String) :
    KeyMoves crypto op k (s.view k) (s'.view k) := by
  rcases hsecret : op.secret with - | ⟨k', secret⟩
  swap
  · obtain ⟨_, _, _, _, _, -, -, -, -, hmoves, -, -, rfl⟩ := KeySystem.token_runs hsecret h
    exact .of_update (s.view_withKey_withResource _ _ _) hmoves k
  cases op with
  | issue | rotate => cases hsecret
  | mutate order p m now =>
    obtain ⟨_, s₁, hmutate, hpure⟩ := runs_bind.1 h
    obtain ⟨-, rfl⟩ := runs_pure.1 hpure
    by_cases hkind : m.kind = .apiKeys
    · obtain ⟨v, hmoves, hafter, -⟩ := KeySystem.mutate_key_runs hkind hmutate
      exact .of_update hafter hmoves k
    · rw [KeySystem.view_mutate_of_kind_ne hkind hmutate]
      exact .same _
  | authenticate token =>
    simp only [KeyOp.tx, runs_get_bind, runs_liftE_bind, runs_pure] at h
    obtain ⟨_, -, -, rfl⟩ := h
    exact .same _
  | background other =>
    obtain ⟨-, rfl⟩ := h
    rw [s.view_background]
    exact .same _

theorem moves_step (s : KeySystem) (op : KeyOp) (k : String × String) :
    KeyMoves crypto op k (s.view k) ((op.step crypto platform s).view k) := by
  exact commit_induct (P := fun s' => KeyMoves crypto op k (s.view k) (s'.view k)) (.same _)
    fun out s' h => moves_of_runs h k

end Moves

end Hoorific
