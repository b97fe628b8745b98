/-
The token of an API key: `hg_`, the base64 texts of the tenant and the key
id with a full stop between them, an underscore, and the base64 text of 32
random bytes.  The underscore is also a character of the base64 alphabet,
so an underscore in the text of the tenant or of the id is taken for the
separator when the token is parsed: such a token is refused
(`parseKeyToken_eq_some_iff`).

A text of the model is a list of Unicode characters; as a byte string it is
its UTF-8 encoding, so the check for valid UTF-8 is the decoding of the
bytes (`ofUTF8`).
-/
import Hoorific.Lib.Base64
import Hoorific.Lib.Check
import Hoorific.Core

namespace Hoorific

open List Check Bytes Base64

/-! ### Tokens -/

def validKeyCoordinate (value : String) : Bool :=
  value != "" && decide (value.utf8ByteSize ≤ 512) && !value.toList.contains '\x00'

/-- The token of a key with its secret. -/
def keyToken (tenant id : String) (secret : Bytes) : Bytes :=
  ascii "hg_" ++ encode (utf8 tenant) ++ [46] ++ encode (utf8 id) ++ [95] ++
    encode secret

/-- `newKeyToken`: the token; the verifier is its digest. -/
def newKeyToken (tenant id : String) (secret : Bytes) : Except StoreError Bytes := do
  require (validKeyCoordinate tenant && validKeyCoordinate id)
    (problem "invalid_key" 400 "invalid key coordinates")
  pure (keyToken tenant id secret)

variable {tenant id value : String} {secret token : Bytes}

theorem newKeyToken_eq_ok_iff :
    newKeyToken tenant id secret = .ok token ↔
      validKeyCoordinate tenant = true ∧ validKeyCoordinate id = true ∧
        token = keyToken tenant id secret := by
  simp only [newKeyToken, bind_ok, require_ok, Bool.and_eq_true, pure_ok]
  constructor
  · rintro ⟨_, ⟨ht, hid⟩, rfl⟩
    exact ⟨ht, hid, rfl⟩
  · rintro ⟨ht, hid, rfl⟩
    exact ⟨(), ⟨ht, hid⟩, rfl⟩

/-- A tenant or an id as it is written in a token. -/
def parseCoordinate (text : Bytes) : Option String :=
  ((decodeCanonical text).bind ofUTF8).filter validKeyCoordinate

/-- `parseKeyToken`.  The token is split at its first two underscores and what
is between them at its full stop, of which there is one. -/
def parseKeyToken (token : Bytes) : Option (String × String) := do
  guard (token.length ≤ 1500)
  let (head, rest) ← cut 95 token
  let (coordinates, text) ← cut 95 rest
  guard (head = ascii "hg")
  let (tenantText, idText) ← cut 46 coordinates
  guard (46 ∉ idText)
  let tenant ← parseCoordinate tenantText
  let id ← parseCoordinate idText
  let secret ← decodeCanonical text
  guard (secret.length = 32)
  pure (tenant, id)

/-! ### Round trips -/

theorem parseCoordinate_eq_some_iff {text : Bytes} :
    parseCoordinate text = some value ↔
      validKeyCoordinate value = true ∧ text = encode (utf8 value) := by
  rw [parseCoordinate, Option.filter_eq_some_iff, Option.bind_eq_some_iff]
  constructor
  · rintro ⟨⟨b, hb, hvalue⟩, hvalid⟩
    rw [ofUTF8_eq_some_iff] at hvalue
    exact ⟨hvalid, hvalue ▸ decodeCanonical_iff.1 hb⟩
  · rintro ⟨hvalid, rfl⟩
    exact ⟨⟨utf8 value, decodeCanonical_iff.2 rfl, ofUTF8_eq_some_iff.2 rfl⟩, hvalid⟩

theorem keyToken_eq (tenant id : String) (secret : Bytes) :
    keyToken tenant id secret = ascii "hg" ++ 95 :: (encode (utf8 tenant) ++
      46 :: (encode (utf8 id) ++ 95 :: encode secret)) := by
  rw [keyToken, show ascii "hg_" = ascii "hg" ++ [95] by decide]
  simp only [append_assoc, cons_append, nil_append]

theorem validKeyCoordinate_length (h : validKeyCoordinate value = true) :
    (utf8 value).length ≤ 512 := by
  simp only [validKeyCoordinate, Bool.and_eq_true, decide_eq_true_eq] at h
  exact h.1.2

theorem length_keyToken_le (ht : validKeyCoordinate tenant = true)
    (hid : validKeyCoordinate id = true) (hs : secret.length = 32) :
    (keyToken tenant id secret).length ≤ 1500 := by
  have ht := validKeyCoordinate_length ht
  have hid := validKeyCoordinate_length hid
  rw [keyToken_eq]
  simp only [length_append, length_cons, length_encode, hs,
    show (ascii "hg").length = 2 by decide]
  omega

/-- No group of six ones is in the text: its base64 has no underscore. -/
def NoUnderscore (value : String) : Prop := 63 ∉ sextets (utf8 value)

instance (value : String) : Decidable (NoUnderscore value) := inferInstanceAs (Decidable (¬ _))

/-- **`parseKeyToken`** accepts exactly the tokens of valid coordinates whose
base64 texts have no underscore. -/
theorem parseKeyToken_eq_some_iff :
    parseKeyToken token = some (tenant, id) ↔
      validKeyCoordinate tenant = true ∧ validKeyCoordinate id = true ∧ NoUnderscore tenant ∧
        NoUnderscore id ∧ ∃ secret, secret.length = 32 ∧ token = keyToken tenant id secret := by
  simp only [parseKeyToken, Option.bind_eq_bind, Option.bind_eq_some_iff, Option.guard_eq_some',
    Option.pure_def, Option.some.injEq, Prod.exists, cut_eq_some_iff, parseCoordinate_eq_some_iff,
    decodeCanonical_iff, Prod.mk.injEq]
  constructor
  · rintro ⟨_, -, _, rest, ⟨-, rfl⟩, _, _, ⟨hno, rfl⟩, _, rfl, _, _, ⟨-, rfl⟩, _, -, _, ⟨ht, rfl⟩, _,
      ⟨hid, rfl⟩, secret, rfl, _, hlength, rfl, rfl⟩
    rw [mem_append, mem_cons, not_or, not_or, underscore_mem_encode_iff,
      underscore_mem_encode_iff] at hno
    refine ⟨ht, hid, hno.1, hno.2.2, secret, hlength, ?_⟩
    rw [keyToken_eq, append_assoc, cons_append]
  · rintro ⟨ht, hid, hno, hno', secret, hlength, rfl⟩
    have hcoordinates : (95 : UInt8) ∉ encode (utf8 tenant) ++
        46 :: encode (utf8 id) := by
      rw [mem_append, mem_cons, not_or, not_or, underscore_mem_encode_iff,
        underscore_mem_encode_iff]
      exact ⟨hno, by decide, hno'⟩
    refine ⟨(), length_keyToken_le ht hid hlength, _, _, ⟨by decide, keyToken_eq _ _ _⟩, _, _,
      ⟨hcoordinates, ?_⟩, (), rfl, _, _, ⟨stop_notMem_encode _, rfl⟩, (),
      stop_notMem_encode _, tenant, ⟨ht, rfl⟩, id, ⟨hid, rfl⟩, secret, rfl, (), hlength, rfl,
      rfl⟩
    rw [append_assoc, cons_append]

/-- Tokens with secrets of one length are equal only if everything in them is. -/
theorem keyToken_inj {tenant' id' : String} {secret' : Bytes} (hs : secret.length = secret'.length)
    (h : keyToken tenant id secret = keyToken tenant' id' secret') :
    tenant = tenant' ∧ id = id' ∧ secret = secret' := by
  rw [keyToken_eq, keyToken_eq] at h
  have hcut := congrArg (cut 46) (List.cons.inj (append_cancel_left h)).2
  rw [cut_append (stop_notMem_encode _), cut_append (stop_notMem_encode _)] at hcut
  obtain ⟨htenant, hrest⟩ := Prod.mk.inj (Option.some.inj hcut)
  have hlength : (95 :: encode secret).length = (95 :: encode secret').length := by
    rw [length_cons, length_cons, length_encode, length_encode, hs]
  obtain ⟨hid, hsecret⟩ := append_inj' hrest hlength
  exact ⟨utf8_injective (encode_injective htenant),
    utf8_injective (encode_injective hid),
    encode_injective (List.cons.inj hsecret).2⟩

end Hoorific
