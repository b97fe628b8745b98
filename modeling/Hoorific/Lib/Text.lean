/-
Text predicates over the characters of a string, by recursion on the
character list so that they compute: prefixes, white space and control
characters, trimming.
-/
import Mathlib.Data.List.DropRight

namespace Hoorific

/-- `s` begins with `p`. -/
def hasPrefix (s p : String) : Bool := p.toList.isPrefixOf s.toList

/-- `s` without the leading `p`, or `s` itself if it does not begin with `p`. -/
def trimLeading (s p : String) : String :=
  if hasPrefix s p then String.ofList (s.toList.drop p.toList.length) else s

/-- Two texts `id ++ sep ++ _` and `p ++ sep ++ _`, where `p` has no separator,
agree only if `id` is `p` or begins with `p ++ sep`. -/
theorem eq_or_hasPrefix_of_append {id p x y : String} {sep : Char} (hsep : sep ∉ p.toList)
    (h : id ++ String.singleton sep ++ x = p ++ String.singleton sep ++ y) :
    id = p ∨ hasPrefix id (p ++ String.singleton sep) = true := by
  have hl : id.toList ++ sep :: x.toList = p.toList ++ sep :: y.toList := by
    simpa using congrArg String.toList h
  rcases List.append_eq_append_iff.1 hl with ⟨as, hp, htail⟩ | ⟨bs, hid, htail⟩
  · -- `id` ends within `p`: what follows it would put a separator into `p`
    rcases as with - | ⟨c, as⟩
    · left
      rw [← String.toList_inj]
      simpa using hp.symm
    · obtain rfl : sep = c := by simpa using (List.cons.inj htail).1
      exact absurd (by rw [hp]; simp) hsep
  · rcases bs with - | ⟨c, bs⟩
    · left
      rw [← String.toList_inj]
      simpa using hid
    · right
      obtain rfl : sep = c := by simpa using (List.cons.inj htail).1
      rw [hasPrefix, List.isPrefixOf_iff_prefix]
      exact ⟨bs, by simp [hid]⟩

/-- White space as Unicode defines it. -/
def isSpace (c : Char) : Bool :=
  let n := c.toNat
  (9 ≤ n && n ≤ 13) || n == 0x20 || n == 0x85 || n == 0xA0 || n == 0x1680 ||
    (0x2000 ≤ n && n ≤ 0x200A) || n == 0x2028 || n == 0x2029 || n == 0x202F || n == 0x205F ||
    n == 0x3000

/-- Control characters. -/
def isControl (c : Char) : Bool := c.toNat ≤ 0x1F || (0x7F ≤ c.toNat && c.toNat ≤ 0x9F)

/-- The characters without white space at their ends. -/
def trimChars (l : List Char) : List Char := (l.dropWhile isSpace).rdropWhile isSpace

/-- The text without white space at its ends. -/
def trimSpace (s : String) : String := String.ofList (trimChars s.toList)

/-! ### Case -/

/-- A mapping of characters to lower case.  Which letters outside ASCII have a
lower case is left open; white space is not a letter. -/
structure CaseMap where
  lower : Char → Char
  ascii : ∀ c : Char, c.toNat < 128 → lower c = c.toLower
  idem : ∀ c, lower (lower c) = lower c
  space : ∀ c, isSpace (lower c) = isSpace c

variable (m : CaseMap)

/-- The text in lower case. -/
def CaseMap.toLower (s : String) : String := String.ofList (s.toList.map m.lower)

theorem map_dropWhile_of_keeps {f : Char → Char} {p : Char → Bool} (h : ∀ c, p (f c) = p c)
    (l : List Char) : (l.map f).dropWhile p = (l.dropWhile p).map f := by
  induction l with
  | nil => rfl
  | cons c l ih =>
    rw [List.map_cons, List.dropWhile_cons, List.dropWhile_cons, h c]
    split
    · exact ih
    · rfl

/-- Trimming commutes with a change of case. -/
theorem CaseMap.trimChars_map (l : List Char) :
    trimChars (l.map m.lower) = (trimChars l).map m.lower := by
  simp only [trimChars, List.rdropWhile, map_dropWhile_of_keeps m.space, ← List.map_reverse]

theorem trimChars_idem (l : List Char) : trimChars (trimChars l) = trimChars l := by
  -- what is left begins with a character that is not white space, if with any
  have hhead : (trimChars l).dropWhile isSpace = trimChars l := by
    obtain ⟨rest, hrest⟩ : trimChars l <+: l.dropWhile isSpace := List.rdropWhile_prefix _ _
    rcases htrim : trimChars l with - | ⟨c, cs⟩
    · rfl
    have hnot := List.head?_dropWhile_not isSpace l
    rw [← hrest, htrim] at hnot
    exact List.dropWhile_cons_of_neg (by simpa using hnot)
  rw [trimChars, hhead]
  exact List.rdropWhile_idempotent _ _

/-- Trimming and lowering a text once more changes nothing. -/
theorem CaseMap.toLower_trimSpace_idem (s : String) :
    m.toLower (trimSpace (m.toLower (trimSpace s))) = m.toLower (trimSpace s) := by
  simp only [CaseMap.toLower, trimSpace, String.toList_ofList, m.trimChars_map, trimChars_idem,
    List.map_map]
  congr 1
  exact List.map_congr_left fun c _ => m.idem c

/-- A text of ASCII characters without capital letters, and without white
space at its ends. -/
def isLowerWord (s : String) : Bool :=
  s.toList.all (fun c => decide (c.toNat < 128) && c.toLower == c) && trimSpace s == s

theorem CaseMap.toLower_trimSpace_of_isLowerWord {s : String}
    (h : isLowerWord s = true) : m.toLower (trimSpace s) = s := by
  simp only [isLowerWord, Bool.and_eq_true, List.all_eq_true, decide_eq_true_eq, beq_iff_eq] at h
  obtain ⟨hchars, htrim⟩ := h
  have hlower : s.toList.map m.lower = s.toList := by
    conv_rhs => rw [← List.map_id s.toList]
    refine List.map_congr_left fun c hc => ?_
    rw [m.ascii c (hchars c hc).1, (hchars c hc).2, id]
  rw [htrim, CaseMap.toLower, hlower, String.ofList_toList]

/-- A change of case moves a capital letter by 32 and no other character. -/
theorem toLower_cases (c : Char) :
    (65 ≤ c.toNat ∧ c.toNat ≤ 90 ∧ c.toLower.toNat = c.toNat + 32) ∨ c.toLower = c := by
  unfold Char.toLower
  split
  next h =>
    have h' : 65 ≤ c.toNat ∧ c.toNat ≤ 90 := h
    refine .inl ⟨h'.1, h'.2, ?_⟩
    show (c.val + ('a'.val - 'A'.val)).toNat = c.val.toNat + 32
    have hc : c.val.toNat ≤ 90 := h'.2
    show (c.val.toNat + 32) % 2 ^ 32 = _
    omega
  next => exact .inr rfl

/-- Lower case for ASCII letters only. -/
def asciiCase : CaseMap where
  lower := Char.toLower
  ascii _ _ := rfl
  idem c := by
    rcases toLower_cases c with ⟨h₁, h₂, h⟩ | h
    · rcases toLower_cases c.toLower with ⟨-, h₃, -⟩ | h'
      · omega
      · exact h'
    · rw [h, h]
  space c := by
    rcases toLower_cases c with ⟨h₁, h₂, h⟩ | h
    · -- neither a capital letter nor a small one is white space
      unfold isSpace
      simp only [h]
      grind
    · rw [h]

end Hoorific
