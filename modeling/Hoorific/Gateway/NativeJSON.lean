/-
Skipping a JSON value in the bytes of a provider's response.  The fields that
hold continuation URLs are rewritten in place, so the offsets must be exact:
a value that the grammar derives is skipped up to the byte after it, whatever
its depth.

An offset into the data is modelled by the bytes from there on.  Strings are
left to the library's decoder, which reads up to the closing quote and no
further; its text is not used here, nor the offset that comes with an error.
-/
import Hoorific.Lib.Check
import Hoorific.Lib.JsonGrammar

namespace Hoorific.Gateway

open Bytes Check JsonGrammar List

inductive SkipError
  | text (message : String)
  /-- The library's error. -/
  | decoder
  /-- The fuel of the model ran out. -/
  | fuel

def skipJSONSpace (data : Bytes) : Bytes := data.dropWhile fun c => blanks.contains c

/-- Where the decoder stands in a string: between characters, after a
backslash, in the digits of a code. -/
inductive StringState
  | plain
  | escape
  | hex (left : ℕ)

/-- The decoder from there on: what stands behind the closing quote. -/
def decodeString : StringState → Bytes → Option Bytes
  | _, [] => none
  | .plain, c :: s =>
    if c = 0x22 then some s
    else if c = 0x5C then decodeString .escape s
    else if c < 0x20 then none
    else decodeString .plain s
  | .escape, c :: s =>
    if c ∈ ascii "\"\\/bfnrt" then decodeString .plain s
    else if c = 0x75 then decodeString (.hex 3) s
    else none
  | .hex left, c :: s =>
    if isHex c then decodeString (if left = 0 then .plain else .hex (left - 1)) s else none

def jsonStringToken (data : Bytes) : Except SkipError Bytes :=
  match skipJSONSpace data with
  | 0x22 :: s => (decodeString .plain s).elim (.error .decoder) .ok
  | _ => .error (.text "JSON string expected")

/-- One round of a loop up to the separator: an element, or a name, a colon
and a value. -/
def skipItem (value : Bytes → Except SkipError Bytes) : Bracket → Bytes → Except SkipError Bytes
  | .array, data => value data
  | .object, data => do
    let rest := skipJSONSpace (← jsonStringToken data)
    if rest.head? = some 0x3A then value rest.tail else .error (.text "JSON colon expected")

def separatorExpected : Bracket → String
  | .array => "JSON array separator expected"
  | .object => "JSON object separator expected"

/-- What follows an opening bracket: the closing one, or items. -/
def skipBracket (items : Bytes → Except SkipError Bytes) (k : Bracket) (data : Bytes) :
    Except SkipError Bytes :=
  let rest := skipJSONSpace data
  if rest.head? = some k.closes then .ok rest.tail else items rest

mutual

/-- The loops over the elements of an array and over the members of an object. -/
def skipItems : ℕ → Bracket → Bytes → Except SkipError Bytes
  | 0, _, _ => .error .fuel
  | fuel + 1, k, data => do
    let rest := skipJSONSpace (← skipItem (skipValue fuel) k data)
    if rest.head? = some k.closes then .ok rest.tail
    else if rest.head? = some 0x2C then skipItems fuel k (skipJSONSpace rest.tail)
    else .error (.text (separatorExpected k))

def skipValue : ℕ → Bytes → Except SkipError Bytes
  | 0, _ => .error .fuel
  | fuel + 1, data =>
    match skipJSONSpace data with
    | [] => .error (.text "unexpected JSON end")
    | c :: rest =>
      if c = 0x22 then jsonStringToken (c :: rest)
      else if c = Bracket.opens .object then skipBracket (skipItems fuel .object) .object rest
      else if c = Bracket.opens .array then skipBracket (skipItems fuel .array) .array rest
      else .ok ((c :: rest).dropWhile fun c => !stops.contains c)

end

/-- A level takes a byte, its bracket, and so does a round of a loop, its
comma: the length of the data is fuel enough. -/
def skipJSONValue (data : Bytes) (pos : ℕ) : Except SkipError ℕ :=
  (skipValue (data.length + 1) (data.drop pos)).map fun rest => data.length - rest.length

/-! ### The parts of a text -/

variable {b w x rest : Bytes}

theorem skipJSONSpace_append {c : UInt8} (hw : Space w) (hc : c ∉ blanks) :
    skipJSONSpace (w ++ c :: x) = c :: x := by
  have hall : ∀ c ∈ w, blanks.contains c = true := fun c hc => contains_iff_mem.2 (hw c hc)
  rw [skipJSONSpace, dropWhile_append_of_pos hall, dropWhile_cons_of_neg (by simpa using hc)]

/-- What is derived starts with no white space. -/
theorem skipJSONSpace_derives {p : Part} (hb : Derives p b) (hw : Space w) :
    skipJSONSpace (w ++ (b ++ rest)) = b ++ rest := by
  obtain ⟨c, x, rfl, hc⟩ := hb.starts
  exact skipJSONSpace_append hw fun hblank => hc (mem_append_left _ hblank)

theorem skipValue_bracket (fuel : ℕ) (k : Bracket) (hw : Space w) :
    skipValue (fuel + 1) (w ++ k.opens :: x) = skipBracket (skipItems fuel k) k x := by
  have hopens : k.opens ∉ blanks := by cases k <;> decide
  simp only [skipValue, skipJSONSpace_append hw hopens]
  cases k <;> simp [Bracket.opens]

/-- The decoder reads a string up to its closing quote. -/
theorem decodeString_append (h : StringText b) : decodeString .plain (b ++ rest) = some rest := by
  induction h with
  | close => rfl
  | char hc hquote hescape h ih => simp [decodeString, hquote, hescape, hc, ih]
  | escape hc h ih => simp [decodeString, hc, ih]
  | unicode hlen hdigits h ih =>
    obtain ⟨d₁, d₂, d₃, d₄, rfl⟩ := length_eq_four.1 hlen
    simp only [all_cons, all_nil, Bool.and_eq_true, and_true] at hdigits
    have hcode : (0x75 : UInt8) ∉ ascii "\"\\/bfnrt" := by decide
    simp [decodeString, hcode, hdigits, ih]

theorem jsonStringToken_append (hw : Space w) (hs : StringText b) :
    jsonStringToken (w ++ 0x22 :: (b ++ rest)) = .ok rest := by
  simp only [jsonStringToken, skipJSONSpace_append hw (show 0x22 ∉ blanks by decide),
    decodeString_append hs, Option.elim_some]

/-- A number or a name is skipped up to a byte that ends it. -/
theorem skipValue_scalar {fuel : ℕ} (hb : Scalar b) (hrest : Ends rest) (hw : Space w) :
    skipValue (fuel + 1) (w ++ (b ++ rest)) = .ok rest := by
  obtain ⟨hne, hbytes⟩ := hb.bytes
  obtain ⟨c, x, rfl⟩ := exists_cons_of_ne_nil hne
  have hall : scalarBytes.all (fun c => !stops.contains c && c != 0x22 &&
      c != Bracket.opens .object && c != Bracket.opens .array) = true := by decide
  simp only [all_eq_true, Bool.and_eq_true, bne_iff_ne, contains_iff_mem] at hall hbytes
  obtain ⟨⟨⟨hstop, hquote⟩, hobject⟩, harray⟩ := hall c (hbytes c mem_cons_self)
  have hblank : c ∉ blanks := fun h => by simp [stops, h] at hstop
  have hskip : (c :: x ++ rest).dropWhile (fun c => !stops.contains c) = rest := by
    rw [dropWhile_append_of_pos fun c hc => (hall c (hbytes c hc)).1.1.1]
    rcases rest with - | ⟨d, rest⟩
    · rfl
    · exact dropWhile_cons_of_neg (by simpa using hrest d rfl)
  rw [cons_append] at hskip ⊢
  simp only [skipValue, skipJSONSpace_append hw hblank, hquote, hobject, harray, if_false, hskip]

/-- What the skipper does with a part of a text. -/
def skipPart (fuel : ℕ) : Part → Bytes → Except SkipError Bytes
  | .value => skipValue fuel
  | .item k => skipItem (skipValue fuel) k
  | .items k => skipItems fuel k

/-- A part of a text is skipped if the fuel is its length. -/
theorem skipPart_append {p : Part} (hb : Derives p b) {fuel : ℕ} (hfuel : b.length ≤ fuel)
    (hrest : Ends rest) (hw : Space w) : skipPart fuel p (w ++ (b ++ rest)) = .ok rest := by
  have hnone : Space [] := nofun
  induction hb generalizing fuel rest w with
  | scalar hb =>
    rcases fuel with - | fuel
    · exact absurd (length_eq_zero_iff.1 (Nat.le_zero.1 hfuel)) hb.bytes.1
    exact skipValue_scalar hb hrest hw
  | string hs =>
    rcases fuel with - | fuel
    · cases hfuel
    have hquote : (0x22 : UInt8) ∉ blanks := by decide
    simp only [skipPart, skipValue, cons_append, skipJSONSpace_append hw hquote, if_true]
    exact jsonStringToken_append hnone hs
  | empty k hw' =>
    rcases fuel with - | fuel
    · cases hfuel
    have hcloses : k.closes ∉ blanks := by cases k <;> decide
    simp only [cons_append, append_assoc, nil_append, skipPart, skipValue_bracket fuel k hw,
      skipBracket, skipJSONSpace_append hw' hcloses, head?_cons, if_true, tail_cons]
  | @bracket k _ b hw' hb ih =>
    rcases fuel with - | fuel
    · cases hfuel
    simp only [length_cons, length_append] at hfuel
    -- the first item does not start with the closing bracket
    have hopen : (b ++ rest).head? ≠ some k.closes := by
      obtain ⟨c, x, rfl, hc⟩ := hb.starts
      exact fun heq => hc (Option.some.inj heq ▸ k.closes_mem_stops)
    simp only [cons_append, append_assoc, skipPart, skipValue_bracket fuel k hw,
      skipBracket, skipJSONSpace_derives hb hw', hopen, if_false]
    exact ih (by omega) hrest hnone
  | element hb ih => exact ih hfuel hrest hw
  | member hs hw₁ hw₂ hb ih =>
    simp only [length_cons, length_append, append_assoc, cons_append] at hfuel ⊢
    have hcolon : (0x3A : UInt8) ∉ blanks := by decide
    refine bind_ok.2 ⟨_, jsonStringToken_append hw hs, ?_⟩
    simp only [skipJSONSpace_append hw₁ hcolon, head?_cons, if_true, tail_cons]
    exact ih (by omega) hrest hw₂
  | @last k _ _ hb hw' ih =>
    rcases fuel with - | fuel
    · simp at hfuel
    simp only [length_append, length_singleton, append_assoc, cons_append, nil_append] at hfuel ⊢
    have hcloses : k.closes ∉ blanks := by cases k <;> decide
    refine bind_ok.2 ⟨_, ih (show _ ≤ fuel by omega) (hw'.ends k.closes_mem_stops) hw, ?_⟩
    simp only [skipJSONSpace_append hw' hcloses, head?_cons, if_true, tail_cons]
  | @more k _ _ _ _ hb hw₁ hw₂ hb' ih ih' =>
    rcases fuel with - | fuel
    · simp at hfuel
    simp only [length_append, length_cons, append_assoc, cons_append] at hfuel ⊢
    have hcomma : (0x2C : UInt8) ∉ blanks ∧ some 0x2C ≠ some k.closes := by cases k <;> decide
    refine bind_ok.2 ⟨_, ih (show _ ≤ fuel by omega) (hw₁.ends (by decide)) hw, ?_⟩
    simp only [skipJSONSpace_append hw₁ hcomma.1, head?_cons, hcomma.2, if_true, if_false, tail_cons,
      skipJSONSpace_derives hb' hw₂]
    exact ih' (by omega) hrest hnone

/-- **Values are skipped exactly**: where a value stands after white space,
with nothing behind it or a byte that may follow a value, the skipper succeeds
and returns the offset just after the value. -/
theorem skipJSONValue_exact {before w v rest : Bytes} (hw : Space w) (hv : Derives .value v)
    (hrest : Ends rest) :
    skipJSONValue (before ++ (w ++ (v ++ rest))) before.length =
      .ok (before.length + w.length + v.length) := by
  have hfuel : v.length ≤ (before ++ (w ++ (v ++ rest))).length + 1 := by
    simp only [length_append]
    omega
  have hskip := skipPart_append hv hfuel hrest hw
  rw [skipPart] at hskip
  rw [skipJSONValue, drop_left, hskip]
  simp only [Except.map, length_append]
  congr 1
  omega

/-- A member with an empty array, behind two bytes and in front of a comma. -/
theorem skipJSONValue_nested :
    skipJSONValue ([0x78] ++ ([0x20] ++ ([0x7B, 0x22, 0x61, 0x22, 0x3A, 0x5B, 0x5D, 0x7D] ++ [0x2C])))
      1 = .ok 10 := by
  have hspace : Space [0x20] := forall_mem_singleton.2 (by decide)
  have hrest : Ends [0x2C] := @Space.ends [] [] _ nofun (by decide)
  have hnone : Space [] := nofun
  have hname : StringText [0x61, 0x22] := .char (by decide) (by decide) (by decide) .close
  have hvalue : Derives .value [0x7B, 0x22, 0x61, 0x22, 0x3A, 0x5B, 0x5D, 0x7D] :=
    .bracket (k := .object) hnone (.last (.member hname hnone hnone (.empty .array hnone)) hnone)
  exact @skipJSONValue_exact [0x78] [0x20] _ [0x2C] hspace hvalue hrest

end Hoorific.Gateway
