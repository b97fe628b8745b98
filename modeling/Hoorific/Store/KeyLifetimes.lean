/-
What a token is good for, over every history of the keys.  A verifier is
replaced by a rotation and a row stays when its key is deleted, so a token
that has lost its power never regains it.

Everything follows from `moves_step`, what one step does to one key, and
three facts that moves keep: row and resource are in step, a revoked row
stays revoked, and a verifier belongs to a token made since the last
rotation.

Versions are integers here and `int64` in the source: the difference would
need 2^63 rotations of one key.
-/
import Hoorific.Store.Keys

namespace Hoorific

open Tx

variable {crypto : Crypto} {platform : Platform}

/-! ### Facts that moves keep -/

/-- The row and the resource of a key are in step: while the key is not
revoked its resource has the version of the row, and its data decodes. -/
def InStep (v : Option KeyRow × Option (Resource .apiKeys)) : Prop :=
  ∀ row, v.1 = some row → 0 < row.version ∧ (row.revoked = false →
    ∃ kd, v.2 = some ⟨row.version, kd⟩ ∧ decodeKeyData kd = .ok kd)

/-- The row of a key is there and revoked. -/
def Retired (v : Option KeyRow × Option (Resource .apiKeys)) : Prop :=
  ∃ row, v.1 = some row ∧ row.revoked = true

section Moves

variable {op : KeyOp} {k : String × String} {v v' : Option KeyRow × Option (Resource .apiKeys)}

theorem KeyMoves.inStep (h : KeyMoves crypto op k v v') (hv : InStep v) : InStep v' := by
  cases h with
  | same => exact hv
  | issued _ hkd =>
    rintro _ ⟨⟩
    exact ⟨Int.one_pos, fun _ => ⟨_, rfl, hkd⟩⟩
  | @rotated row _ _ _ hlive =>
    obtain ⟨hpos, hres⟩ := hv row rfl
    obtain ⟨kd, hr, hkd⟩ := hres hlive
    cases hr
    rintro _ ⟨⟩
    exact ⟨Int.lt_add_one_of_le hpos.le, fun _ => ⟨kd, rfl, hkd⟩⟩
  | @updated row _ _ hkd =>
    rintro _ ⟨⟩
    exact ⟨Int.lt_add_one_of_le (hv row rfl).1.le, fun _ => ⟨_, rfl, hkd⟩⟩
  | @deleted row =>
    rintro _ ⟨⟩
    exact ⟨Int.lt_add_one_of_le (hv row rfl).1.le, fun h => nomatch h⟩

theorem KeyMoves.retired (h : KeyMoves crypto op k v v') (hv : Retired v) : Retired v' := by
  obtain ⟨row, hrow, hrevoked⟩ := hv
  cases h with
  | same => exact ⟨row, hrow, hrevoked⟩
  | issued => cases hrow
  | rotated _ hlive =>
    cases hrow
    rw [hlive] at hrevoked
    cases hrevoked
  | updated =>
    cases hrow
    exact ⟨_, rfl, hrevoked⟩
  | deleted => exact ⟨_, rfl, rfl⟩

/-- The verifier of the row after a move is the old one or that of the token
the step makes. -/
theorem KeyMoves.verifier (h : KeyMoves crypto op k v v') {row' : KeyRow}
    (hrow : v'.1 = some row') :
    (∃ row, v.1 = some row ∧ row'.verifier = row.verifier) ∨
      ∃ secret, op.secret = some (k, secret) ∧
        row'.verifier = crypto.digest (keyToken k.1 k.2 secret) := by
  cases h with
  | same => exact .inl ⟨row', hrow, rfl⟩
  | issued hsecret | rotated hsecret =>
    cases hrow
    exact .inr ⟨_, hsecret, rfl⟩
  | updated | deleted =>
    cases hrow
    exact .inl ⟨_, rfl, rfl⟩

end Moves

variable {s : KeySystem} {token secret : Bytes} {ops : List KeyOp} {i j : ℕ} {op : KeyOp}
  {k : String × String}

/-! ### Authentication -/

theorem KeySystem.authenticateKey_eq_ok_iff {p : Principal} :
    s.authenticateKey crypto token = .ok p ↔
      ∃ k row, parseKeyToken token = some k ∧ s.keys.lookup k = some row ∧ row.revoked = false ∧
        row.verifier = crypto.digest token ∧
        resolveActiveKeyTx s.current k.1 k.2 row.version = .ok p := by
  unfold authenticateKey
  rcases hparse : parseKeyToken token with - | k
  · simp
  rcases hrow : s.keys.lookup k with - | row
  · simp [hrow]
  simp only [Option.some.injEq, exists_and_left, exists_eq_left', hrow]
  split_ifs with hcond
  · simp only [false_iff, not_and]
    intro hlive hverifier
    rw [hlive] at hcond
    exact absurd hverifier (hcond.resolve_left Bool.false_ne_true)
  · rw [not_or, not_not, Bool.not_eq_true] at hcond
    rcases hactive : resolveActiveKeyTx s.current k.1 k.2 row.version with e | p'
    · simp
    · simp [hcond]

/-! ### Histories -/

/-- The random bytes of a run: 32 for each token, and never the same twice. -/
structure RandomSecrets (ops : List KeyOp) : Prop where
  length : ∀ secret ∈ ops.filterMap KeyOp.secret, secret.2.length = 32
  distinct : ((ops.filterMap KeyOp.secret).map Prod.snd).Nodup

theorem RandomSecrets.index_eq (h : RandomSecrets ops) {op' : KeyOp} {k' : String × String}
    (hi : ops[i]? = some op) (hj : ops[j]? = some op') (hs : op.secret = some (k, secret))
    (hs' : op'.secret = some (k', secret)) : i = j := by
  have hpair := h.distinct
  rw [List.Nodup, List.pairwise_map, List.pairwise_filterMap, List.pairwise_iff_getElem] at hpair
  obtain ⟨hil, rfl⟩ := List.getElem?_eq_some_iff.1 hi
  obtain ⟨hjl, rfl⟩ := List.getElem?_eq_some_iff.1 hj
  rcases Nat.lt_trichotomy i j with hij | hij | hij
  · exact (hpair i j hil hjl hij _ hs _ hs' rfl).elim
  · exact hij
  · exact (hpair j i hjl hil hij _ hs' _ hs rfl).elim

theorem RandomSecrets.length_eq (h : RandomSecrets ops) (hi : ops[i]? = some op)
    (hs : op.secret = some (k, secret)) : secret.length = 32 :=
  h.length (k, secret) (List.mem_filterMap.2 ⟨op, List.mem_of_getElem? hi, hs⟩)

section Histories

variable (crypto : Crypto) (platform : Platform) (store : Store) (ops : List KeyOp)

/-- The step `n` returned the token for the key. -/
def TokenAt (n : ℕ) (k : String × String) (token : Bytes) : Prop :=
  ∃ op secret, ops[n]? = some op ∧ op.secret = some (k, secret) ∧
    (commit (op.tx crypto platform) (keysAfter crypto platform store (ops.take n))).1 =
      .ok (some token)

/-- The step `n` is a successful `RotateKey` of the key. -/
def RotatedAt (n : ℕ) (k : String × String) : Prop :=
  ∃ p id expectedVersion secret, ops[n]? = some (.rotate p id expectedVersion secret) ∧
    (p.tenantID, id) = k ∧
    (commit ((KeyOp.rotate p id expectedVersion secret).tx crypto platform)
      (keysAfter crypto platform store (ops.take n))).1.isOk = true

/-- The step `n` is a successful deletion of the key. -/
def DeletedAt (n : ℕ) (k : String × String) : Prop :=
  ∃ op, ops[n]? = some op ∧ op.deletes = some k ∧
    (commit (op.tx crypto platform) (keysAfter crypto platform store (ops.take n))).1.isOk = true

end Histories

section Runs

variable {store : Store} {ops : List KeyOp} {k : String × String}

theorem inStep_keysAfter (n : ℕ) :
    InStep ((keysAfter crypto platform store (ops.take n)).view k) := by
  refine run_inv_of_step (fun s op h => (moves_step s op k).inStep h) (fun row hrow => ?_) _
  have habsent : (none : Option KeyRow) = some row := hrow
  cases habsent

variable {n : ℕ}

theorem retired_keysAfter (hjn : j ≤ n)
    (h : Retired ((keysAfter crypto platform store (ops.take j)).view k)) :
    Retired ((keysAfter crypto platform store (ops.take n)).view k) :=
  run_take_inv (I := fun s : KeySystem => Retired (s.view k)) hjn h
    fun _ op _ _ _ hm => (moves_step _ op k).retired hm

/-- The verifier of a key comes from a step not before `j`. -/
def VerifiedSince (crypto : Crypto) (ops : List KeyOp) (k : String × String) (j : ℕ)
    (v : Option KeyRow × Option (Resource .apiKeys)) : Prop :=
  ∀ row, v.1 = some row → ∃ m op secret, j ≤ m ∧ ops[m]? = some op ∧
    op.secret = some (k, secret) ∧ row.verifier = crypto.digest (keyToken k.1 k.2 secret)

theorem KeyMoves.verifiedSince {m : ℕ} {v v' : Option KeyRow × Option (Resource .apiKeys)}
    (h : KeyMoves crypto op k v v') (hm : ops[m]? = some op) (hjm : j ≤ m)
    (hv : VerifiedSince crypto ops k j v) :
    VerifiedSince crypto ops k j v' := by
  intro row' hrow'
  rcases h.verifier hrow' with ⟨row, hrow, hsame⟩ | ⟨secret, hsecret, hnew⟩
  · rw [hsame]
    exact hv row hrow
  · exact ⟨m, op, secret, hjm, hm, hsecret, hnew⟩

/-- **A token is made**: it is the token of its key, the row of the key was not
revoked and has its verifier now, and the tenant of the key is enabled. -/
theorem made_of_runs {s' : KeySystem} (hsecret : op.secret = some (k, secret))
    (h : Runs (op.tx crypto platform) s (some token) s') :
    (validKeyCoordinate k.1 = true ∧ validKeyCoordinate k.2 = true ∧
      token = keyToken k.1 k.2 secret) ∧ ¬ Retired (s.view k) ∧
    (∃ row, s'.keys.lookup k = some row ∧ row.revoked = false ∧
      row.verifier = crypto.digest token) ∧
    ∃ t, s'.store.tenants.lookup k.1 = some t ∧ t.enabled = true := by
  obtain ⟨_, p, _, row, _, ⟨⟩, htoken, hp, hcurrent, hmoves, hlive, hverifier, rfl⟩ :=
    KeySystem.token_runs hsecret h
  have henabled := resolvePrincipalTx_enabled hcurrent
  rw [hp] at henabled
  refine ⟨newKeyToken_eq_ok_iff.1 htoken, fun hretired => ?_,
    ⟨row, AList.lookup_insert _, hlive, hverifier⟩, henabled⟩
  obtain ⟨_, ⟨⟩, hrevoked⟩ := hmoves.retired hretired
  rw [hlive] at hrevoked
  cases hrevoked

theorem TokenAt.made (h : TokenAt crypto platform store ops n k token) :
    ∃ op secret, ops[n]? = some op ∧ op.secret = some (k, secret) ∧
      Runs (op.tx crypto platform) (keysAfter crypto platform store (ops.take n)) (some token)
        (keysAfter crypto platform store (ops.take (n + 1))) := by
  obtain ⟨op, secret, hn, hsecret, hok⟩ := h
  have hnext : keysAfter crypto platform store (ops.take (n + 1)) =
      op.step crypto platform (keysAfter crypto platform store (ops.take n)) := run_take_succ hn
  exact ⟨op, secret, hn, hsecret, commit_ok_iff.1 (Prod.ext hok hnext.symm)⟩

/-- A token that was returned is the token of its key with the random bytes
of its step. -/
theorem TokenAt.eq_keyToken (h : TokenAt crypto platform store ops n k token) :
    ∃ op secret, ops[n]? = some op ∧ op.secret = some (k, secret) ∧
      validKeyCoordinate k.1 = true ∧ validKeyCoordinate k.2 = true ∧
      token = keyToken k.1 k.2 secret := by
  obtain ⟨op, secret, hn, hsecret, hruns⟩ := h.made
  exact ⟨op, secret, hn, hsecret, (made_of_runs hsecret hruns).1⟩

/-- After a rotation the verifier is that of the rotation's token. -/
theorem RotatedAt.verifiedSince (h : RotatedAt crypto platform store ops j k) (hjn : j < n) :
    VerifiedSince crypto ops k j ((keysAfter crypto platform store (ops.take n)).view k) := by
  obtain ⟨p, id, expectedVersion, secret, hj, rfl, hok⟩ := h
  refine run_take_inv (I := fun s : KeySystem => VerifiedSince crypto ops (p.tenantID, id) j
    (s.view (p.tenantID, id))) hjn ?_ ?_
  · obtain ⟨out, hruns⟩ := runs_of_isOk hok
    obtain ⟨_, _, _, row, r, -, htoken, -, -, -, -, hverifier, hafter⟩ :=
      KeySystem.token_runs rfl hruns
    obtain ⟨-, -, rfl⟩ := newKeyToken_eq_ok_iff.1 htoken
    have hrow : ((run (KeyOp.step crypto platform) { store := store } (ops.take (j + 1))).view
        (p.tenantID, id)).1 = some row := by
      rw [run_take_succ hj]
      exact (congrArg (fun s : KeySystem => s.keys.lookup (p.tenantID, id)) hafter).trans
        (AList.lookup_insert _)
    intro row' hrow'
    cases hrow.symm.trans hrow'
    exact ⟨j, _, secret, le_rfl, hj, rfl, hverifier⟩
  · intro m op hjm _ hm hsince
    exact (moves_step _ op _).verifiedSince hm (Nat.le_of_succ_le hjm) hsince

theorem DeletedAt.retired (h : DeletedAt crypto platform store ops j k) :
    Retired ((keysAfter crypto platform store (ops.take (j + 1))).view k) := by
  obtain ⟨op, hj, hdeletes, hok⟩ := h
  cases op with
  | mutate order p m now =>
    simp only [KeyOp.deletes, Option.ite_none_right_eq_some, Option.some.injEq] at hdeletes
    obtain ⟨⟨hkind, hdelete⟩, rfl⟩ := hdeletes
    obtain ⟨out, hruns⟩ := runs_of_isOk hok
    obtain ⟨_, s₁, hmutate, hpure⟩ := runs_bind.1 hruns
    obtain ⟨-, hs₁⟩ := runs_pure.1 hpure
    have hnext : keysAfter crypto platform store (ops.take (j + 1)) = s₁ :=
      (run_take_succ hj).trans hs₁.symm
    obtain ⟨v, -, hview, hrevoked⟩ := @KeySystem.mutate_key_runs crypto _ _ _ _ _ _ _ _ hkind hmutate
    rw [hnext, hview, Function.update_self]
    exact hrevoked hdelete
  | issue | rotate | authenticate | background => cases hdeletes

/-- What a token of the key authenticates against: the row of the key. -/
theorem TokenAt.row_of_authenticates {q : Principal} (hsecrets : RandomSecrets ops)
    (h : TokenAt crypto platform store ops i k token)
    (hok : s.authenticateKey crypto token = .ok q) :
    ∃ row op secret, (s.view k).1 = some row ∧ row.revoked = false ∧ ops[i]? = some op ∧
      op.secret = some (k, secret) ∧ row.verifier = crypto.digest (keyToken k.1 k.2 secret) := by
  obtain ⟨op, secret, hi, hsecret, -, -, rfl⟩ := h.eq_keyToken
  obtain ⟨k', row, hparse, hrow, hlive, hverifier, -⟩ := KeySystem.authenticateKey_eq_ok_iff.1 hok
  obtain ⟨-, -, -, -, secret', hlength, htoken⟩ := parseKeyToken_eq_some_iff.1 hparse
  obtain ⟨htenant, hid, -⟩ :=
    keyToken_inj ((hsecrets.length_eq hi hsecret).trans hlength.symm) htoken
  obtain rfl : k = k' := Prod.ext htenant hid
  exact ⟨row, op, secret, hrow, hlive, hi, hsecret, hverifier⟩

/-- A token made before a rotation no longer authenticates after it. -/
theorem TokenAt.refused_of_rotated (hsecrets : RandomSecrets ops)
    (h : TokenAt crypto platform store ops i k token) (hij : i < j)
    (hrotated : RotatedAt crypto platform store ops j k) (hjn : j < n) (q : Principal) :
    (keysAfter crypto platform store (ops.take n)).authenticateKey crypto token ≠ .ok q := by
  intro hok
  obtain ⟨row, op, secret, hrow, -, hi, hsecret, hverifier⟩ := h.row_of_authenticates hsecrets hok
  obtain ⟨m, op', secret', hjm, hm, hsecret', hverifier'⟩ := hrotated.verifiedSince hjn row hrow
  -- the digests agree, so the tokens do, so their random bytes do
  have htoken := crypto.digest_injective (hverifier.symm.trans hverifier')
  obtain ⟨-, -, rfl⟩ := keyToken_inj
    ((hsecrets.length_eq hi hsecret).trans (hsecrets.length_eq hm hsecret').symm) htoken
  have him : i = m := hsecrets.index_eq hi hm hsecret hsecret'
  omega

theorem TokenAt.refused_of_retired (hsecrets : RandomSecrets ops)
    (h : TokenAt crypto platform store ops i k token) (hretired : Retired (s.view k))
    (q : Principal) : s.authenticateKey crypto token ≠ .ok q := by
  intro hok
  obtain ⟨row, -, -, hrow, hlive, -⟩ := h.row_of_authenticates hsecrets hok
  obtain ⟨row', hrow', hrevoked⟩ := hretired
  rw [hrow] at hrow'
  cases hrow'
  rw [hlive] at hrevoked
  cases hrevoked

theorem ne_empty_of_validKeyCoordinate {value : String} (h : validKeyCoordinate value = true) :
    value ≠ "" := by
  simp only [validKeyCoordinate, Bool.and_eq_true, bne_iff_ne] at h
  exact h.1.1

/-- A token authenticates right after it was made exactly if it can be parsed. -/
theorem TokenAt.authenticates_iff
    (hlength : ∀ secret ∈ ops.filterMap KeyOp.secret, secret.2.length = 32)
    (h : TokenAt crypto platform store ops n k token) :
    (∃ q, (keysAfter crypto platform store (ops.take (n + 1))).authenticateKey crypto token =
      .ok q) ↔ NoUnderscore k.1 ∧ NoUnderscore k.2 := by
  obtain ⟨op, secret, hn, hsecret, ht, hid, rfl⟩ := h.eq_keyToken
  have hsecretLength : secret.length = 32 :=
    hlength (k, secret) (List.mem_filterMap.2 ⟨op, List.mem_of_getElem? hn, hsecret⟩)
  constructor
  · rintro ⟨q, hok⟩
    obtain ⟨k', _, hparse, -⟩ := KeySystem.authenticateKey_eq_ok_iff.1 hok
    obtain ⟨-, -, hno, hno', secret', hlength', htoken⟩ := parseKeyToken_eq_some_iff.1 hparse
    obtain ⟨htenant, hkid, -⟩ := keyToken_inj (hsecretLength.trans hlength'.symm) htoken
    rw [htenant, hkid]
    exact ⟨hno, hno'⟩
  · rintro ⟨hno, hno'⟩
    obtain ⟨_, _, -, hsecret', hruns⟩ := h.made
    obtain ⟨-, -, ⟨row, hrow, hlive, hverifier⟩, henabled⟩ := made_of_runs hsecret' hruns
    obtain ⟨hpos, hres⟩ := inStep_keysAfter (n + 1) row hrow
    obtain ⟨kd, hresource, hkd⟩ := hres hlive
    refine ⟨_, KeySystem.authenticateKey_eq_ok_iff.2 ⟨k, row,
      parseKeyToken_eq_some_iff.2 ⟨ht, hid, hno, hno', secret, hsecretLength, rfl⟩, hrow, hlive,
      hverifier, resolveActiveKeyTx_eq_ok_iff.2 ⟨⟨ne_empty_of_validKeyCoordinate ht,
        ne_empty_of_validKeyCoordinate hid, hpos⟩, henabled, ?_, kd, hresource, hkd,
        rfl⟩⟩⟩
    rw [KeySystem.current_apiKeys, hrow, Option.map_some, hlive]

end Runs

/-- **Revocation and rotation are permanent.**  In every run from a store
without keys whose random bytes never repeat: a token made for a key before
one of its rotations authenticates at no moment after it; once a key is
revoked or deleted, none of its tokens authenticates and none is made for its
id; and the resource of every live key has the version of its row. -/
theorem revocation_and_rotation_permanent (crypto : Crypto) (platform : Platform) (store : Store)
    (ops : List KeyOp) (hsecrets : RandomSecrets ops) :
    (∀ i j n k token, TokenAt crypto platform store ops i k token →
      RotatedAt crypto platform store ops j k → i < j → j < n →
      ∀ q, (keysAfter crypto platform store (ops.take n)).authenticateKey crypto token ≠ .ok q) ∧
    (∀ j n k, (Retired ((keysAfter crypto platform store (ops.take j)).view k) ∧ j ≤ n ∨
        DeletedAt crypto platform store ops j k ∧ j < n) →
      (∀ i token, TokenAt crypto platform store ops i k token →
        ∀ q, (keysAfter crypto platform store (ops.take n)).authenticateKey crypto token ≠ .ok q) ∧
      ∀ token, ¬ TokenAt crypto platform store ops n k token) ∧
    ∀ n k row, (keysAfter crypto platform store (ops.take n)).keys.lookup k = some row →
      row.revoked = false →
      ∃ kd, (keysAfter crypto platform store (ops.take n)).resource k = some ⟨row.version, kd⟩ := by
  refine ⟨?_, ?_, ?_⟩
  · intro i j n k token htoken hrotated hij hjn q
    exact htoken.refused_of_rotated hsecrets hij hrotated hjn q
  · intro j n k hgone
    have hretired : Retired ((keysAfter crypto platform store (ops.take n)).view k) := by
      rcases hgone with ⟨hretired, hjn⟩ | ⟨hdeleted, hjn⟩
      · exact retired_keysAfter hjn hretired
      · exact retired_keysAfter hjn hdeleted.retired
    refine ⟨fun i token htoken => htoken.refused_of_retired hsecrets hretired, fun token h => ?_⟩
    obtain ⟨op, secret, -, hsecret, hruns⟩ := h.made
    exact (made_of_runs hsecret hruns).2.1 hretired
  · intro n k row hrow hlive
    obtain ⟨kd, hresource, -⟩ := (inStep_keysAfter n row hrow).2 hlive
    exact ⟨kd, hresource⟩

/-- The owner of the tenant, with every permission. -/
def keyIssuer : Principal := { ownerPrincipal with permissions := ["*"] }

/-- A key is issued, rotated and deleted, and its id is asked for again. -/
def retiredKey : List KeyOp :=
  [.issue tableOrder keyIssuer "k" (some { role := .viewer, permissions := ["read"] })
      (List.replicate 32 0),
    .rotate keyIssuer "k" 1 (List.replicate 32 1),
    .mutate tableOrder keyIssuer
      { kind := .apiKeys, id := "k", expectedVersion := 2, delete := true, data := none } 0,
    .issue tableOrder keyIssuer "k" (some { role := .viewer, permissions := ["read"] })
      (List.replicate 32 2)]

theorem retiredKey_issued : TokenAt .transparent samplePlatform ownedTenant retiredKey 0 ("t", "k")
    (keyToken "t" "k" (List.replicate 32 0)) :=
  ⟨_, _, rfl, rfl, rfl⟩

theorem retiredKey_refused :
    TokenAt .transparent samplePlatform ownedTenant retiredKey 0 ("t", "k")
        (keyToken "t" "k" (List.replicate 32 0)) ∧
      RotatedAt .transparent samplePlatform ownedTenant retiredKey 1 ("t", "k") ∧
      DeletedAt .transparent samplePlatform ownedTenant retiredKey 2 ("t", "k") ∧
      (∀ n q, 1 < n → (keysAfter .transparent samplePlatform ownedTenant
        (retiredKey.take n)).authenticateKey .transparent
          (keyToken "t" "k" (List.replicate 32 0)) ≠ .ok q) ∧
      ∀ token, ¬ TokenAt .transparent samplePlatform ownedTenant retiredKey 3 ("t", "k") token := by
  have hrotated : RotatedAt .transparent samplePlatform ownedTenant retiredKey 1 ("t", "k") :=
    ⟨_, _, _, _, rfl, rfl, by decide +kernel⟩
  have hdeleted : DeletedAt .transparent samplePlatform ownedTenant retiredKey 2 ("t", "k") :=
    ⟨_, rfl, rfl, by decide +kernel⟩
  obtain ⟨hpast, hgone, -⟩ := revocation_and_rotation_permanent .transparent samplePlatform
    ownedTenant retiredKey ⟨by decide, by decide⟩
  exact ⟨retiredKey_issued, hrotated, hdeleted,
    fun n q hn => hpast 0 1 n _ _ retiredKey_issued hrotated Nat.one_pos hn q,
    (hgone 2 3 _ (.inr ⟨hdeleted, Nat.lt_succ_self 2⟩)).2⟩

/-- **Tokens identify their keys** exactly if neither the tenant nor the id has
six ones in an aligned group of six bits.  For all valid coordinates and random
bytes: the token is parsed back to its coordinates exactly then; different
tokens are made for different coordinates or random bytes; what is parsed is a
token that is made for what it is parsed to; and in every run from a store
without keys, a token that was returned authenticates in the next state exactly
then. -/
theorem tokens_identify_keys_iff (crypto : Crypto) (platform : Platform) :
    (∀ tenant id secret token, secret.length = 32 → newKeyToken tenant id secret = .ok token →
      (parseKeyToken token = some (tenant, id) ↔ NoUnderscore tenant ∧ NoUnderscore id)) ∧
    (∀ tenant id secret tenant' id' secret' token, secret.length = 32 → secret'.length = 32 →
      newKeyToken tenant id secret = .ok token → newKeyToken tenant' id' secret' = .ok token →
      tenant = tenant' ∧ id = id' ∧ secret = secret') ∧
    (∀ token tenant id, parseKeyToken token = some (tenant, id) →
      ∃ secret, secret.length = 32 ∧ newKeyToken tenant id secret = .ok token) ∧
    ∀ store ops n k token, (∀ secret ∈ ops.filterMap KeyOp.secret, secret.2.length = 32) →
      TokenAt crypto platform store ops n k token →
      ((∃ q, (keysAfter crypto platform store (ops.take (n + 1))).authenticateKey crypto token =
        .ok q) ↔ NoUnderscore k.1 ∧ NoUnderscore k.2) := by
  refine ⟨?_, ?_, ?_, ?_⟩
  · intro tenant id secret token hlength hnew
    obtain ⟨ht, hid, rfl⟩ := newKeyToken_eq_ok_iff.1 hnew
    rw [parseKeyToken_eq_some_iff]
    exact ⟨fun ⟨_, _, hno, hno', _⟩ => ⟨hno, hno'⟩,
      fun ⟨hno, hno'⟩ => ⟨ht, hid, hno, hno', secret, hlength, rfl⟩⟩
  · intro tenant id secret tenant' id' secret' token hlength hlength' hnew hnew'
    obtain ⟨-, -, rfl⟩ := newKeyToken_eq_ok_iff.1 hnew
    obtain ⟨-, -, htoken⟩ := newKeyToken_eq_ok_iff.1 hnew'
    exact keyToken_inj (hlength.trans hlength'.symm) htoken
  · intro token tenant id hparse
    obtain ⟨ht, hid, -, -, secret, hlength, rfl⟩ := parseKeyToken_eq_some_iff.1 hparse
    exact ⟨secret, hlength, newKeyToken_eq_ok_iff.2 ⟨ht, hid, rfl⟩⟩
  · intro store ops n k token hlength htoken
    exact htoken.authenticates_iff hlength

/-- A key whose id has an underscore in its base64 text. -/
def unusableKey : List KeyOp :=
  [.issue tableOrder keyIssuer "???" (some { role := .viewer, permissions := ["read"] })
    (List.replicate 32 0)]

/-- The token of the key `???` is returned, cannot be parsed, and does not
authenticate. -/
theorem unusableKey_refused :
    newKeyToken "t" "???" (List.replicate 32 0) = .ok (keyToken "t" "???" (List.replicate 32 0)) ∧
      parseKeyToken (keyToken "t" "???" (List.replicate 32 0)) = none ∧
      TokenAt .transparent samplePlatform ownedTenant unusableKey 0 ("t", "???")
        (keyToken "t" "???" (List.replicate 32 0)) ∧
      ((keysAfter .transparent samplePlatform ownedTenant unusableKey).authenticateKey .transparent
        (keyToken "t" "???" (List.replicate 32 0))).isOk = false :=
  ⟨rfl, by decide +kernel, ⟨_, _, rfl, rfl, rfl⟩, by decide +kernel⟩

/-- The token of the key `k` is returned and authenticates. -/
theorem retiredKey_authenticates_first :
    TokenAt .transparent samplePlatform ownedTenant retiredKey 0 ("t", "k")
        (keyToken "t" "k" (List.replicate 32 0)) ∧
      ∃ q, (keysAfter .transparent samplePlatform ownedTenant (retiredKey.take 1)).authenticateKey
        .transparent (keyToken "t" "k" (List.replicate 32 0)) = .ok q :=
  ⟨retiredKey_issued, ((tokens_identify_keys_iff .transparent samplePlatform).2.2.2 ownedTenant
    retiredKey 0 _ _ (by decide) retiredKey_issued).2 (by decide)⟩

end Hoorific
