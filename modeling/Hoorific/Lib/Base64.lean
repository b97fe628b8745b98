/-
The URL-safe base64 text of a byte string, without padding.  Three bytes
are four groups of six bits; one or two bytes at the end are two or three
groups, the last one filled with zeros.  A group is written as a character
of the alphabet `A-Z a-z 0-9 - _`.

Decoding is strict about the bits a last group is filled with, and skips
carriage returns and line feeds.  So not every text that decodes is a text
that is written; `decodeCanonical` admits the written ones only.
-/
import Hoorific.Lib.Bytes
import Mathlib.Tactic.IntervalCases

namespace Hoorific

namespace Base64

/-! ### Groups of six bits -/

/-- The groups of six bits of a byte string. -/
def sextets : Bytes → List ℕ
  | [] => []
  | [a] => [a.toNat / 4, a.toNat % 4 * 16]
  | [a, b] => [a.toNat / 4, a.toNat % 4 * 16 + b.toNat / 16, b.toNat % 16 * 4]
  | a :: b :: c :: rest =>
    a.toNat / 4 :: (a.toNat % 4 * 16 + b.toNat / 16) :: (b.toNat % 16 * 4 + c.toNat / 64) ::
      c.toNat % 64 :: sextets rest

/-- The bytes of groups of six bits; the bits that fill the last group are zero. -/
def octets : List ℕ → Option Bytes
  | [] => some []
  | [_] => none
  | [x, y] => if y % 16 = 0 then some [UInt8.ofNat (x * 4 + y / 16)] else none
  | [x, y, z] =>
    if z % 4 = 0 then some [UInt8.ofNat (x * 4 + y / 16), UInt8.ofNat (y % 16 * 16 + z / 4)]
    else none
  | x :: y :: z :: w :: rest => do
    let bytes ← octets rest
    pure (UInt8.ofNat (x * 4 + y / 16) :: UInt8.ofNat (y % 16 * 16 + z / 4) ::
      UInt8.ofNat (z % 4 * 64 + w) :: bytes)

theorem ofNat_eq {a : UInt8} {n : ℕ} (h : n = a.toNat) : UInt8.ofNat n = a := by
  rw [h]
  exact UInt8.ofNat_toNat

variable (b : Bytes)

theorem octets_sextets : octets (sextets b) = some b := by
  induction b using sextets.induct with
  | case1 => rfl
  | case2 a =>
    have ha : a.toNat / 4 * 4 + a.toNat % 4 * 16 / 16 = a.toNat := by omega
    rw [sextets, octets, if_pos (by omega), ofNat_eq ha]
  | case3 a b =>
    have ha : a.toNat / 4 * 4 + (a.toNat % 4 * 16 + b.toNat / 16) / 16 = a.toNat := by
      have := b.toNat_lt
      omega
    have hb : (a.toNat % 4 * 16 + b.toNat / 16) % 16 * 16 + b.toNat % 16 * 4 / 4 = b.toNat := by
      omega
    rw [sextets, octets, if_pos (by omega), ofNat_eq ha, ofNat_eq hb]
  | case4 a b c rest ih =>
    have ha : a.toNat / 4 * 4 + (a.toNat % 4 * 16 + b.toNat / 16) / 16 = a.toNat := by
      have := b.toNat_lt
      omega
    have hb : (a.toNat % 4 * 16 + b.toNat / 16) % 16 * 16 + (b.toNat % 16 * 4 + c.toNat / 64) / 4 =
        b.toNat := by
      have := c.toNat_lt
      omega
    have hc : (b.toNat % 16 * 4 + c.toNat / 64) % 4 * 64 + c.toNat % 64 = c.toNat := by
      omega
    rw [sextets, octets, ih, ofNat_eq ha, ofNat_eq hb, ofNat_eq hc]
    rfl

theorem sextets_lt {b : Bytes} {n : ℕ} (h : n ∈ sextets b) : n < 64 := by
  induction b using sextets.induct with
  | case1 => cases h
  | case2 a =>
    have := a.toNat_lt
    simp only [sextets, List.mem_cons, List.not_mem_nil, or_false] at h
    omega
  | case3 a b =>
    have := a.toNat_lt
    have := b.toNat_lt
    simp only [sextets, List.mem_cons, List.not_mem_nil, or_false] at h
    omega
  | case4 a b c rest ih =>
    have := a.toNat_lt
    have := b.toNat_lt
    have := c.toNat_lt
    simp only [sextets, List.mem_cons] at h
    rcases h with h | h | h | h | h
    · omega
    · omega
    · omega
    · omega
    · exact ih h

theorem length_sextets : (sextets b).length = (4 * b.length + 2) / 3 := by
  induction b using sextets.induct with
  | case1 => rfl
  | case2 a | case3 a b => simp [sextets]
  | case4 a b c rest ih =>
    simp only [sextets, List.length_cons, ih]
    omega

/-! ### The alphabet -/

/-- The character of a group. -/
def digit (n : ℕ) : UInt8 :=
  if n < 26 then UInt8.ofNat (65 + n)
  else if n < 52 then UInt8.ofNat (71 + n)
  else if n < 62 then UInt8.ofNat (n - 4)
  else if n = 62 then 45
  else 95

/-- The group of a character. -/
def value (c : UInt8) : Option ℕ :=
  if 65 ≤ c.toNat ∧ c.toNat ≤ 90 then some (c.toNat - 65)
  else if 97 ≤ c.toNat ∧ c.toNat ≤ 122 then some (c.toNat - 71)
  else if 48 ≤ c.toNat ∧ c.toNat ≤ 57 then some (c.toNat + 4)
  else if c = 45 then some 62
  else if c = 95 then some 63
  else none

/-- What there is to know about one character. -/
theorem digit_spec {n : ℕ} (h : n < 64) :
    value (digit n) = some n ∧ digit n ≠ 10 ∧ digit n ≠ 13 ∧ digit n ≠ 46 ∧
      (digit n = 95 ↔ n = 63) := by
  interval_cases n <;> decide

/-! ### Texts -/

def encode : Bytes := (sextets b).map digit

/-- The bytes of a text; line ends in it are skipped. -/
def decode (text : Bytes) : Option Bytes := do
  let groups ← (text.filter fun c => c != 13 && c != 10).mapM value
  octets groups

/-- The bytes of a text that is written in this way. -/
def decodeCanonical (text : Bytes) : Option Bytes := (decode text).filter fun b => encode b == text

theorem decode_encode : decode (encode b) = some b := by
  have hfilter : (encode b).filter (fun c => c != 13 && c != 10) = encode b := by
    rw [List.filter_eq_self]
    intro c hc
    obtain ⟨n, hn, rfl⟩ := List.mem_map.1 hc
    have hspec := digit_spec (sextets_lt hn)
    simp [hspec.2.1, hspec.2.2.1]
  have hvalues : (encode b).mapM value = some (sextets b) := by
    have hall : ∀ l : List ℕ, (∀ n ∈ l, n < 64) → (l.map digit).mapM value = some l := by
      intro l hl
      induction l with
      | nil => rfl
      | cons n l ih =>
        have hn := (digit_spec (hl n List.mem_cons_self)).1
        have hrest := ih fun m hm => hl m (List.mem_cons_of_mem n hm)
        rw [List.map_cons, List.mapM_cons, hn, hrest]
        rfl
    exact hall _ fun n hn => sextets_lt hn
  rw [decode, hfilter, hvalues]
  exact octets_sextets b

theorem encode_injective : Function.Injective encode := by
  intro b b' h
  have hdecode := decode_encode b
  rw [h, decode_encode] at hdecode
  exact (Option.some.inj hdecode).symm

theorem decodeCanonical_iff {text b : Bytes} : decodeCanonical text = some b ↔ text = encode b := by
  rw [decodeCanonical, Option.filter_eq_some_iff, beq_iff_eq]
  constructor
  · exact fun h => h.2.symm
  · rintro rfl
    exact ⟨decode_encode b, rfl⟩

theorem length_encode : (encode b).length = (4 * b.length + 2) / 3 := by
  rw [encode, List.length_map, length_sextets]

/-- A text has no full stop. -/
theorem stop_notMem_encode : 46 ∉ encode b := by
  intro h
  obtain ⟨n, hn, heq⟩ := List.mem_map.1 h
  exact (digit_spec (sextets_lt hn)).2.2.2.1 heq

/-- A text has an underscore exactly for a group of six ones. -/
theorem underscore_mem_encode_iff : 95 ∈ encode b ↔ 63 ∈ sextets b := by
  constructor
  · intro h
    obtain ⟨n, hn, heq⟩ := List.mem_map.1 h
    rw [(digit_spec (sextets_lt hn)).2.2.2.2] at heq
    exact heq ▸ hn
  · intro h
    exact List.mem_map.2 ⟨63, h, rfl⟩

end Base64

end Hoorific
