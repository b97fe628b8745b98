/-
Byte strings: big-endian numbers, UTF-8 text, white space and separators.

A string of the programs verified here is a sequence of bytes that need not
be UTF-8, so text is a list of bytes, and what a program asks about text
(is it valid, what is left without its surrounding white space) is asked of
the bytes.
-/
import Mathlib.Algebra.Order.Ring.Int
import Mathlib.Data.List.Basic
import Mathlib.Data.List.Induction

namespace Hoorific

/-- A byte string. -/
abbrev Bytes := List UInt8

namespace Bytes

/-- The bytes of an ASCII literal. -/
def ascii (s : String) : Bytes := s.toList.map fun c => UInt8.ofNat c.toNat

/-! ### Big-endian numbers -/

/-- The low `n` bytes of `v`, most significant first. -/
def be : ℕ → ℕ → Bytes
  | 0, _ => []
  | n + 1, v => be n (v / 256) ++ [UInt8.ofNat v]

/-- The number that big-endian bytes spell. -/
def ofBE (b : Bytes) : ℕ := b.foldl (fun acc byte => acc * 256 + byte.toNat) 0

@[simp] theorem be_length (n v : ℕ) : (be n v).length = n := by
  induction n generalizing v with
  | zero => rfl
  | succ n ih => simp [be, ih]

theorem ofBE_append_byte (b : Bytes) (byte : UInt8) :
    ofBE (b ++ [byte]) = ofBE b * 256 + byte.toNat := by
  simp [ofBE, List.foldl_append]

/-- A number that fits its width is read back. -/
theorem ofBE_be {n v : ℕ} (h : v < 256 ^ n) : ofBE (be n v) = v := by
  induction n generalizing v with
  | zero =>
    obtain rfl : v = 0 := by simpa using h
    rfl
  | succ n ih =>
    have hdiv : v / 256 < 256 ^ n := by
      exact Nat.div_lt_of_lt_mul (by omega)
    rw [be, ofBE_append_byte, ih hdiv, UInt8.toNat_ofNat']
    omega

theorem be_inj {n v w : ℕ} (hv : v < 256 ^ n) (hw : w < 256 ^ n) (h : be n v = be n w) : v = w := by
  rw [← ofBE_be hv, h, ofBE_be hw]

/-- Bytes are the number they spell, at their length. -/
theorem be_ofBE (b : Bytes) : be b.length (ofBE b) = b := by
  induction b using List.reverseRecOn with
  | nil => rfl
  | append_singleton b byte ih =>
    have hbyte : byte.toNat < 256 := byte.toNat_lt
    have hdiv : (ofBE b * 256 + byte.toNat) / 256 = ofBE b := by omega
    have hlow : UInt8.ofNat (ofBE b * 256 + byte.toNat) = byte := by
      apply UInt8.toNat.inj
      rw [UInt8.toNat_ofNat']
      omega
    rw [List.length_append, List.length_singleton, be, ofBE_append_byte, hdiv, hlow, ih]

/-! ### UTF-8 -/

/-- `lo ≤ b ≤ hi`. -/
def within (lo hi b : UInt8) : Bool := decide (lo ≤ b) && decide (b ≤ hi)

/-- A continuation byte. -/
def continues (b : UInt8) : Bool := within 0x80 0xBF b

/-- The bytes are UTF-8: no overlong form, no surrogate, nothing past
U+10FFFF.  The ranges of the second byte depend on the first. -/
def validUTF8 : Bytes → Bool
  | [] => true
  | a :: as =>
    if a < 0x80 then validUTF8 as
    else match as with
      | [] => false
      | b :: bs =>
        if within 0xC2 0xDF a then continues b && validUTF8 bs
        else match bs with
          | [] => false
          | c :: cs =>
            if within 0xE0 0xEF a then
              within (if a == 0xE0 then 0xA0 else 0x80) (if a == 0xED then 0x9F else 0xBF) b &&
                continues c && validUTF8 cs
            else match cs with
              | [] => false
              | d :: ds =>
                within 0xF0 0xF4 a &&
                  within (if a == 0xF0 then 0x90 else 0x80) (if a == 0xF4 then 0x8F else 0xBF) b &&
                  continues c && continues d && validUTF8 ds

/-! ### White space -/

/-- The encodings of the white-space characters of Unicode. -/
def spaces : List Bytes :=
  [[0x09], [0x0A], [0x0B], [0x0C], [0x0D], [0x20], [0xC2, 0x85], [0xC2, 0xA0], [0xE1, 0x9A, 0x80]] ++
    (List.range 11).map (fun i => [0xE2, 0x80, 0x80 + UInt8.ofNat i]) ++
    [[0xE2, 0x80, 0xA8], [0xE2, 0x80, 0xA9], [0xE2, 0x80, 0xAF], [0xE2, 0x81, 0x9F],
      [0xE3, 0x80, 0x80]]

/-- Drop words of `words` from the front, at most `fuel` of them. -/
def trimWords (words : List Bytes) : ℕ → Bytes → Bytes
  | 0, b => b
  | fuel + 1, b =>
    match words.find? (·.isPrefixOf b) with
    | some w => trimWords words fuel (b.drop w.length)
    | none => b

/-- Drop the surrounding white space.  No word is empty, so the length of
the text is fuel enough; the end is the front of the reversed text. -/
def trimSpace (b : Bytes) : Bytes :=
  let front := trimWords spaces b.length b
  (trimWords (spaces.map List.reverse) front.length front.reverse).reverse

theorem trimWords_sublist (words : List Bytes) (fuel : ℕ) (b : Bytes) :
    (trimWords words fuel b).Sublist b := by
  induction fuel generalizing b with
  | zero => exact List.Sublist.refl b
  | succ fuel ih =>
    unfold trimWords
    split
    · exact (ih _).trans (List.drop_sublist _ _)
    · exact List.Sublist.refl b

theorem trimSpace_sublist (b : Bytes) : (trimSpace b).Sublist b := by
  unfold trimSpace
  have h := (trimWords_sublist (spaces.map List.reverse)
    (trimWords spaces b.length b).length (trimWords spaces b.length b).reverse).reverse
  rw [List.reverse_reverse] at h
  exact h.trans (trimWords_sublist _ _ _)

/-- White space on both sides goes, white space inside stays. -/
example : trimSpace (ascii " a b " ++ [0xC2, 0xA0]) = ascii "a b" := by decide

/-! ### Order -/

/-- The lexicographic order of byte strings. -/
def le : Bytes → Bytes → Bool
  | [], _ => true
  | _ :: _, [] => false
  | a :: as, b :: bs => decide (a < b) || (a == b && le as bs)

/-! ### Texts as bytes -/

def utf8 (s : String) : Bytes := s.toByteArray.data.toList

/-- The text with these bytes, if they are valid UTF-8. -/
def ofUTF8 (b : Bytes) : Option String := String.fromUTF8? ⟨b.toArray⟩

theorem ofUTF8_eq_some_iff {b : Bytes} {s : String} : ofUTF8 b = some s ↔ b = utf8 s := by
  have hbytes : b = utf8 s ↔ (⟨b.toArray⟩ : ByteArray) = s.toByteArray := by
    constructor
    · rintro rfl
      rw [utf8]
    · intro h
      rw [utf8, ← h]
  rw [hbytes, ofUTF8, String.fromUTF8?]
  constructor
  · intro h
    split at h
    · cases h
      rfl
    · cases h
  · intro h
    rw [dif_pos (h ▸ s.isValidUTF8)]
    exact congrArg some (String.toByteArray_inj.1 h)

theorem utf8_injective : Function.Injective utf8 := by
  intro s s' h
  have hs := ofUTF8_eq_some_iff.2 (rfl : utf8 s = utf8 s)
  rw [h, ofUTF8_eq_some_iff.2 rfl] at hs
  exact (Option.some.inj hs).symm

/-! ### Separators -/

section Cut

variable {α : Type} [DecidableEq α] {sep : α} {l a b : List α}

/-- What stands before and after the first separator. -/
def cut (sep : α) (l : List α) : Option (List α × List α) :=
  if sep ∈ l then some (l.takeWhile (· ≠ sep), (l.dropWhile (· ≠ sep)).tail) else none

theorem cut_append (h : sep ∉ a) : cut sep (a ++ sep :: b) = some (a, b) := by
  have hall : ∀ x ∈ a, decide (x ≠ sep) = true := fun x hx =>
    decide_eq_true (ne_of_mem_of_not_mem hx h)
  rw [cut, List.takeWhile_append_of_pos hall, List.dropWhile_append_of_pos hall]
  simp

theorem cut_eq_some_iff : cut sep l = some (a, b) ↔ sep ∉ a ∧ l = a ++ sep :: b := by
  constructor
  · intro h
    obtain ⟨x, y, rfl, hx⟩ : ∃ x y, l = x ++ sep :: y ∧ sep ∉ x := by
      by_cases hmem : sep ∈ l
      · exact List.eq_append_cons_of_mem hmem
      · rw [cut, if_neg hmem] at h
        cases h
    rw [cut_append hx] at h
    cases h
    exact ⟨hx, rfl⟩
  · rintro ⟨ha, rfl⟩
    exact cut_append ha

end Cut

/-! ### Codes that end by themselves -/

section Delimits

variable {α β : Type} {f : α → Option (List β)}

/-- What `f` writes, if it can, can be cut off the front of any text. -/
def Delimits (f : α → Option (List β)) : Prop :=
  ∀ ⦃a b x y r s⦄, f a = some x → f b = some y → x ++ r = y ++ s → a = b ∧ r = s

/-- A list is written after its length. -/
def counted (count : ℕ → β) (f : α → Option (List β)) (l : List α) : Option (List β) := do
  let xs ← l.mapM f
  pure (count l.length :: xs.flatten)

/-- The items of a list are cut off one by one. -/
theorem Delimits.mapM (hf : Delimits f) {l l' : List α} {xs ys : List (List β)} {r s : List β}
    (hlength : l.length = l'.length) (hxs : l.mapM f = some xs) (hys : l'.mapM f = some ys)
    (h : xs.flatten ++ r = ys.flatten ++ s) : l = l' ∧ r = s := by
  induction l generalizing l' xs ys with
  | nil =>
    obtain rfl := List.length_eq_zero_iff.1 hlength.symm
    cases hxs
    cases hys
    exact ⟨rfl, h⟩
  | cons a l ih =>
    obtain ⟨b, l', rfl⟩ := List.exists_cons_of_length_eq_add_one hlength.symm
    simp only [List.mapM_cons, Option.bind_eq_bind, Option.bind_eq_some_iff, Option.pure_def,
      Option.some.injEq] at hxs hys
    obtain ⟨⟨x, hx, xs, hxs, rfl⟩, y, hy, ys, hys, rfl⟩ := hxs, hys
    simp only [List.flatten_cons, List.append_assoc] at h
    obtain ⟨rfl, h⟩ := hf hx hy h
    obtain ⟨rfl, hr⟩ := ih (Nat.succ.inj hlength) hxs hys h
    exact ⟨rfl, hr⟩

theorem Delimits.counted (hf : Delimits f) {count : ℕ → β} (hcount : count.Injective) :
    Delimits (counted count f) := by
  intro l l' x y r s hx hy h
  simp only [Bytes.counted, Option.bind_eq_bind, Option.bind_eq_some_iff, Option.pure_def,
    Option.some.injEq] at hx hy
  obtain ⟨⟨xs, hxs, rfl⟩, ys, hys, rfl⟩ := hx, hy
  simp only [List.cons_append, List.cons.injEq] at h
  exact hf.mapM (hcount h.1) hxs hys h.2

end Delimits

end Bytes

end Hoorific
