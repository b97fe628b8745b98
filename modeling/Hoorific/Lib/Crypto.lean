/-
Idealised cryptography over byte strings: a digest without collisions, a
message authentication code used only to derive keys, and authenticated
encryption that opens what it sealed.  `Crypto` carries the laws, so a
development that is given one never assumes them again.
-/
import Hoorific.Lib.Bytes

namespace Hoorific

/-- The nonce size of AES-GCM. -/
def nonceSize : ℕ := 12

/-- What sealing adds to the length: the authentication tag of AES-GCM. -/
def sealOverhead : ℕ := 16

/-- Ideal cryptographic primitives. -/
structure Crypto where
  digest : Bytes → Bytes
  digest_injective : Function.Injective digest
  /-- `mac key message` -/
  mac : Bytes → Bytes → Bytes
  /-- `sealBytes key nonce plain additional` -/
  sealBytes : Bytes → Bytes → Bytes → Bytes → Bytes
  /-- `openBytes key nonce ciphertext additional` -/
  openBytes : Bytes → Bytes → Bytes → Bytes → Option Bytes
  open_seal : ∀ key nonce plain additional,
    openBytes key nonce (sealBytes key nonce plain additional) additional = some plain
  length_seal : ∀ key nonce plain additional,
    (sealBytes key nonce plain additional).length = plain.length + sealOverhead

/-- Primitives that hide nothing: the laws can be met. -/
def Crypto.transparent : Crypto where
  digest := id
  digest_injective := fun _ _ h => h
  mac := fun _ message => message
  sealBytes := fun _ _ plain _ => plain ++ List.replicate sealOverhead 0
  openBytes := fun _ _ ciphertext _ => some (ciphertext.take (ciphertext.length - sealOverhead))
  open_seal := by
    intro _ _ plain _
    rw [List.length_append, List.length_replicate, Nat.add_sub_cancel, List.take_left]
  length_seal := by
    intro _ _ plain _
    rw [List.length_append, List.length_replicate]

end Hoorific
