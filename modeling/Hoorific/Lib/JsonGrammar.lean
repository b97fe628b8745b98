/-
The grammar of JSON texts, over bytes.  A text is derived as a value, as an
item of a bracket (a value in an array; a name, a colon and a value in an
object) or as the items up to the closing bracket.  Whether the characters of
a string are UTF-8 is not asked.
-/
import Hoorific.Lib.Bytes

namespace Hoorific.JsonGrammar

open Bytes List

variable {b w x : Bytes}

def blanks : Bytes := ascii " \t\r\n"

/-- White space. -/
def Space (w : Bytes) : Prop := ∀ c ∈ w, c ∈ blanks

def isHex (c : UInt8) : Bool := (ascii "0123456789abcdefABCDEF").contains c

/-- The characters of a string, with the closing quote. -/
inductive StringText : Bytes → Prop
  | close : StringText [0x22]
  | char {c : UInt8} {s : Bytes} (hc : 0x20 ≤ c) (hquote : c ≠ 0x22) (hescape : c ≠ 0x5C)
      (h : StringText s) : StringText (c :: s)
  | escape {c : UInt8} {s : Bytes} (hc : c ∈ ascii "\"\\/bfnrt") (h : StringText s) :
      StringText (0x5C :: c :: s)
  | unicode {s digits : Bytes} (hlen : digits.length = 4) (hdigits : digits.all isHex)
      (h : StringText s) : StringText (0x5C :: 0x75 :: (digits ++ s))

/-- Digits, at least one. -/
def Digits (b : Bytes) : Prop := b ≠ [] ∧ ∀ c ∈ b, c ∈ ascii "0123456789"

/-- A number: a sign, the integer part without a leading zero, a fraction and
an exponent. -/
inductive Number : Bytes → Prop
  | mk {sign int frac exp : Bytes} (hsign : sign = [] ∨ sign = ascii "-")
      (hint : int = ascii "0" ∨ Digits int ∧ int.head? ≠ some 0x30)
      (hfrac : frac = [] ∨ ∃ d, Digits d ∧ frac = ascii "." ++ d)
      (hexp : exp = [] ∨ ∃ e ∈ [ascii "e", ascii "E"], ∃ s ∈ [[], ascii "+", ascii "-"], ∃ d,
        Digits d ∧ exp = e ++ s ++ d) :
      Number (sign ++ int ++ frac ++ exp)

/-- A number or one of the three names. -/
def Scalar (b : Bytes) : Prop := Number b ∨ b ∈ [ascii "true", ascii "false", ascii "null"]

inductive Bracket
  | array
  | object

def Bracket.opens : Bracket → UInt8
  | .array => 0x5B
  | .object => 0x7B

def Bracket.closes : Bracket → UInt8
  | .array => 0x5D
  | .object => 0x7D

/-- What is derived: a value, an item of a bracket, the items up to its end. -/
inductive Part
  | value
  | item (k : Bracket)
  | items (k : Bracket)

inductive Derives : Part → Bytes → Prop
  | scalar {b : Bytes} (h : Scalar b) : Derives .value b
  | string {s : Bytes} (h : StringText s) : Derives .value (0x22 :: s)
  | empty (k : Bracket) {w : Bytes} (hw : Space w) : Derives .value (k.opens :: (w ++ [k.closes]))
  | bracket {k : Bracket} {w b : Bytes} (hw : Space w) (h : Derives (.items k) b) :
      Derives .value (k.opens :: (w ++ b))
  | element {v : Bytes} (h : Derives .value v) : Derives (.item .array) v
  | member {s w w' v : Bytes} (hs : StringText s) (hw : Space w) (hw' : Space w')
      (h : Derives .value v) : Derives (.item .object) (0x22 :: (s ++ (w ++ 0x3A :: (w' ++ v))))
  | last {k : Bracket} {e w : Bytes} (h : Derives (.item k) e) (hw : Space w) :
      Derives (.items k) (e ++ (w ++ [k.closes]))
  | more {k : Bracket} {e w w' b : Bytes} (h : Derives (.item k) e) (hw : Space w)
      (hw' : Space w') (hb : Derives (.items k) b) :
      Derives (.items k) (e ++ (w ++ 0x2C :: (w' ++ b)))

/-! ### First and last bytes -/

/-- The bytes that end a number or a name. -/
def stops : Bytes := blanks ++ [0x2C, 0x5D, 0x7D]

/-- What may follow a value: nothing, or a byte that ends it. -/
def Ends (rest : Bytes) : Prop := ∀ c ∈ rest.head?, c ∈ stops

theorem Space.ends {c : UInt8} (hw : Space w) (hc : c ∈ stops) : Ends (w ++ c :: x) := by
  rcases w with - | ⟨d, w⟩
  · rintro _ ⟨⟩
    exact hc
  · rintro _ ⟨⟩
    exact mem_append_left _ (hw d mem_cons_self)

theorem Bracket.closes_mem_stops (k : Bracket) : k.closes ∈ stops := by
  cases k <;> decide

/-- The bytes of numbers and names. -/
def scalarBytes : Bytes := ascii "+-.0123456789Eaeflnrstu"

theorem Digits.bytes (h : Digits b) : b.all scalarBytes.contains = true := by
  have hall : (ascii "0123456789").all scalarBytes.contains = true := by decide
  exact all_eq_true.2 fun c hc => all_eq_true.1 hall c (h.2 c hc)

theorem Number.bytes (h : Number b) : b ≠ [] ∧ b.all scalarBytes.contains = true := by
  obtain ⟨hsign, hint, hfrac, hexp⟩ := h
  constructor
  · rcases hint with rfl | ⟨⟨hne, -⟩, -⟩
    · simp [ascii]
    · simp [hne]
  simp only [all_append, Bool.and_eq_true]
  refine ⟨⟨⟨?_, ?_⟩, ?_⟩, ?_⟩
  · rcases hsign with rfl | rfl <;> decide
  · rcases hint with rfl | ⟨hd, -⟩
    · decide
    · exact hd.bytes
  · rcases hfrac with rfl | ⟨d, hd, rfl⟩
    · decide
    · rw [all_append, hd.bytes]
      decide
  · rcases hexp with rfl | ⟨e, he, s, hs, d, hd, rfl⟩
    · decide
    · rw [all_append, all_append, hd.bytes, Bool.and_true, Bool.and_eq_true]
      constructor
      · revert e
        decide
      · revert s
        decide

theorem Scalar.bytes (h : Scalar b) : b ≠ [] ∧ b.all scalarBytes.contains = true := by
  rcases h with h | h
  · exact h.bytes
  · revert b
    decide

/-- A text starts with a byte that ends nothing. -/
theorem Derives.starts {p : Part} (h : Derives p b) : ∃ c x, b = c :: x ∧ c ∉ stops := by
  induction h with
  | scalar h =>
    obtain ⟨hne, hbytes⟩ := h.bytes
    obtain ⟨c, x, rfl⟩ := exists_cons_of_ne_nil hne
    have hall : scalarBytes.all (fun c => !stops.contains c) = true := by decide
    have hc : scalarBytes.contains c = true := all_eq_true.1 hbytes c mem_cons_self
    exact ⟨c, x, rfl, by simpa using all_eq_true.1 hall c (by simpa using hc)⟩
  | string | member => exact ⟨_, _, rfl, by decide⟩
  | empty k | @bracket k => exact ⟨_, _, rfl, by cases k <;> decide⟩
  | element _ ih => exact ih
  | last _ _ ih | more _ _ _ _ ih =>
    obtain ⟨c, x, rfl, hc⟩ := ih
    exact ⟨c, _, rfl, hc⟩

end Hoorific.JsonGrammar
