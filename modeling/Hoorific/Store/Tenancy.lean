/-
Who is asking: the membership of a subject in a tenant, the principal of
an active API key, and the authorization of a principal.  All of these
only read the store, so they are functions of it into `Except`; a
transaction body uses them through `Tx.liftE`.
-/
import Hoorific.Lib.Text
import Hoorific.Store.Schema

namespace Hoorific

/-! ### References -/

/-- `validRef`: a non-empty reference of at most 512 bytes without white
space at its ends and without control characters. -/
def validRef (s : String) : Bool :=
  s != "" && decide (s.utf8ByteSize ≤ 512) && trimSpace s == s && !s.toList.any isControl

/-! ### Membership -/

/-- The external identity of an operator agrees with the store, or the
operator is the claimed bootstrap owner of the tenant its identity names. -/
def identityAgrees (s : Store) (subject : String) (o : OperatorData)
    (authoritativeIssuer authoritativeSubject : String) : Bool :=
  if o.issuer ≠ "" ∨ o.identitySubject ≠ "" then
    o.issuer != "" && o.identitySubject != "" &&
    authoritativeIssuer == o.issuer && authoritativeSubject == o.identitySubject &&
    s.identities.lookup (o.issuer, o.identitySubject) == some subject
  else
    let originTenant := trimLeading authoritativeIssuer "bootstrap:"
    hasPrefix authoritativeIssuer "bootstrap:" && authoritativeSubject == subject &&
    originTenant != "" &&
    s.bootstrapOwners.lookup originTenant == some ⟨originTenant, subject⟩

/-- `resolveMembershipTx`: the principal of an enabled operator with a role
binding in an enabled tenant. -/
def resolveMembershipTx (s : Store) (tenant subject : String) : Except StoreError Principal :=
  if tenant = "" ∨ subject = "" then .error (storeError "unauthorized" 401)
  else
    match s.tenants.lookup tenant, s.operators.lookup subject,
      s.roleBindings.lookup (tenant, subject) with
    | some t, some o, some b =>
      if !t.enabled || !o.enabled || o.subject != subject || b.dataSubject != subject ||
          b.dataTenantID != tenant || b.dataRole != b.role then
        .error (storeError "unauthorized" 401)
      else match s.identitySubjects.lookup subject with
        | none => .error .noRows
        | some (issuer, identitySubject) =>
          if !identityAgrees s subject o issuer identitySubject then
            .error (storeError "unauthorized" 401)
          else match b.role with
            | .other _ => .error (storeError "unauthorized" 401)
            | role => .ok { tenantID := tenant, subjectID := subject, role := role }
    | _, _, _ => .error .noRows

/-! ### Keys -/

/-- The operations a key may be granted. -/
def keyOperations : List Operation :=
  ["generate", "complete", "embed", "rerank", "count_tokens", "image.generate", "image.edit",
   "image.variation", "audio.speech", "audio.transcribe", "audio.translate", "video", "realtime",
   "realtime.ticket", "file", "upload", "batch", "response.resource", "conversation.resource",
   "prediction", "model.list", "native", "chat.resource", "moderation", "model.resource",
   "audio.voice", "audio.voice_consent", "video.extension", "video.character",
   "prediction.create", "prediction.get", "prediction.list", "prediction.cancel", "model.get",
   "model.create", "model.version.get", "model.version.list", "deployment.get",
   "deployment.list", "deployment.create"]

/-- `validKeyOperations`: granted operations are known and not repeated. -/
def validKeyOperations (xs : List Operation) : Bool :=
  xs.all (keyOperations.contains ·) && decide xs.Nodup

/-- `decodeKeyData`: a stored key's metadata carries no version of its own,
an assignable role, some permission and valid operations. -/
def decodeKeyData (kd : KeyData) : Except StoreError KeyData :=
  if kd.version = 0 ∧ (kd.role = .viewer ∨ kd.role = .operator ∨ kd.role = .admin) ∧
      kd.permissions ≠ [] ∧ validKeyOperations kd.operations = true then .ok kd
  else .error (storeError "invalid_key_metadata" 400)

def principalForKey (tenant id : String) (version : Int) (kd : KeyData) : Principal :=
  { tenantID := tenant, subjectID := id, keyID := id, keyRevision := version, role := kd.role,
    permissions := kd.permissions, aliases := kd.aliases, connections := kd.connections,
    operations := kd.operations, portable := kd.portable, nativeAccount := kd.nativeAccount,
    realtime := kd.realtime }

/-- `resolveActiveKeyTx`: the principal of a key that is not revoked, at the
expected version, of an enabled tenant. -/
def resolveActiveKeyTx (s : Store) (tenant id : String) (expectedVersion : Int) :
    Except StoreError Principal :=
  let unauthorized := .error (storeError "unauthorized" 401)
  if tenant = "" ∨ id = "" ∨ expectedVersion ≤ 0 then unauthorized
  else
    match s.tenants.lookup tenant, s.apiKeys.lookup (tenant, id), s.resource tenant .apiKeys id with
    | some t, some key, some resource =>
      if !t.enabled || key.revoked || key.version != expectedVersion ||
          resource.version != key.version then unauthorized
      else match decodeKeyData resource.data with
        | .error _ => unauthorized
        | .ok kd => .ok (principalForKey tenant id key.version kd)
    | _, _, _ => unauthorized

/-- `resolvePrincipalTx`: the current principal behind a presented one. -/
def resolvePrincipalTx (s : Store) (p : Principal) : Except StoreError Principal :=
  if p.keyID ≠ "" then resolveActiveKeyTx s p.tenantID p.keyID p.keyRevision
  else match resolveMembershipTx s p.tenantID p.subjectID with
    | .error e => .error e
    | .ok current => .ok { current with
        sessionID := p.sessionID, authSource := p.authSource, permissions := p.permissions }

/-! ### Authorization -/

/-- `authorize`: owners and admins may write, every role but an unknown one may read. -/
def authorize (p : Principal) (write : Bool) : Except StoreError Unit :=
  if p.tenantID = "" ∨ p.subjectID = "" then .error (storeError "unauthorized" 401)
  else match p.role with
    | .owner | .admin => .ok ()
    | .operator | .auditor | .viewer =>
      if write then .error (storeError "forbidden" 403) else .ok ()
    | .other _ => .error (storeError "forbidden" 403)

variable {s : Store} {tenant subject id : String} {p current : Principal} {version : Int}

section

variable (h : resolveMembershipTx s tenant subject = .ok p)
include h

/-- A resolved membership is that of the subject in the tenant, with a role. -/
theorem resolveMembershipTx_ok :
    p = { tenantID := tenant, subjectID := subject, role := p.role } := by
  unfold resolveMembershipTx at h
  repeat' split at h
  all_goals cases h <;> rfl

theorem resolveMembershipTx_tenantID : p.tenantID = tenant := by
  rw [resolveMembershipTx_ok h]

theorem resolveMembershipTx_subjectID : p.subjectID = subject := by
  rw [resolveMembershipTx_ok h]

theorem resolveMembershipTx_enabled : ∃ t, s.tenants.lookup tenant = some t ∧ t.enabled = true := by
  unfold resolveMembershipTx at h
  split at h
  · cases h
  split at h
  next t _ _ ht _ _ =>
    split at h
    · cases h
    next hchecks =>
      simp only [Bool.or_eq_true, not_or, Bool.not_eq_true, Bool.not_eq_false'] at hchecks
      exact ⟨t, ht, hchecks.1.1.1.1.1⟩
  · cases h

end

theorem decodeKeyData_ok {kd kd' : KeyData} (h : decodeKeyData kd = .ok kd') : kd = kd' := by
  unfold decodeKeyData at h
  split at h
  · exact Except.ok.inj h
  · cases h

/-- **`resolveActiveKeyTx`** resolves exactly the keys whose row is not revoked
and whose row and resource both have the expected version. -/
theorem resolveActiveKeyTx_eq_ok_iff :
    resolveActiveKeyTx s tenant id version = .ok p ↔
      (tenant ≠ "" ∧ id ≠ "" ∧ 0 < version) ∧
      (∃ t, s.tenants.lookup tenant = some t ∧ t.enabled = true) ∧
      s.apiKeys.lookup (tenant, id) = some ⟨version, false⟩ ∧
      ∃ kd, s.resource tenant .apiKeys id = some ⟨version, kd⟩ ∧ decodeKeyData kd = .ok kd ∧
        p = principalForKey tenant id version kd := by
  constructor
  · intro h
    unfold resolveActiveKeyTx at h
    split at h
    · cases h
    next hpresent =>
      split at h
      next t key resource ht hkey hresource =>
        split at h
        · cases h
        next hchecks =>
          obtain ⟨keyVersion, revoked⟩ := key
          simp only [Bool.or_eq_true, bne_iff_ne, not_or, not_not, Bool.not_eq_true,
            Bool.not_eq_false'] at hchecks
          obtain ⟨⟨⟨henabled, rfl⟩, rfl⟩, rfl⟩ := hchecks
          rw [not_or, not_or, not_le] at hpresent
          split at h
          · cases h
          next kd hkd =>
            cases h
            obtain rfl := decodeKeyData_ok hkd
            exact ⟨hpresent, ⟨t, ht, henabled⟩, hkey, _, hresource, hkd, rfl⟩
      · cases h
  · rintro ⟨⟨htenant, hid, hversion⟩, ⟨t, ht, henabled⟩, hkey, kd, hresource, hkd, rfl⟩
    simp [resolveActiveKeyTx, htenant, hid, not_le.2 hversion, ht, hkey, hresource, henabled, hkd]

/-- A resolved principal belongs to the tenant of the presented one. -/
theorem resolveActiveKeyTx_tenantID (h : resolveActiveKeyTx s tenant id version = .ok p) :
    p.tenantID = tenant := by
  obtain ⟨-, -, -, kd, -, -, rfl⟩ := resolveActiveKeyTx_eq_ok_iff.1 h
  rfl

theorem resolvePrincipalTx_enabled (h : resolvePrincipalTx s p = .ok current) :
    ∃ t, s.tenants.lookup p.tenantID = some t ∧ t.enabled = true := by
  unfold resolvePrincipalTx at h
  split at h
  · exact (resolveActiveKeyTx_eq_ok_iff.1 h).2.1
  split at h
  · cases h
  next hm => exact resolveMembershipTx_enabled hm

theorem resolvePrincipalTx_tenantID (h : resolvePrincipalTx s p = .ok current) :
    current.tenantID = p.tenantID := by
  unfold resolvePrincipalTx at h
  split at h
  · exact resolveActiveKeyTx_tenantID h
  rcases hm : resolveMembershipTx s p.tenantID p.subjectID with e | c
  · simp [hm] at h
  simp only [hm, Except.ok.injEq] at h
  have ht := resolveMembershipTx_tenantID hm
  rw [← h]
  exact ht

end Hoorific
