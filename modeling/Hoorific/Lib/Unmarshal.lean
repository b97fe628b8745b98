/-
Decoding JSON values into typed variables, as a library for structured data
does it: a member of an object goes to the field of its name, in any case of
its letters, and a value is decoded *into* a variable, over what the variable
holds.  So two members of one object that spell a name differently are
decoded one over the other: texts and numbers are replaced, structs are
merged, and the elements of a list are merged with those at the same place,
also with those that an earlier member left behind the end of the list.

Before that the tokens are scanned for objects that have two members of the
same name and for values that are nested too deep.
-/
import Mathlib.Data.List.Nodup
import Hoorific.Lib.Check
import Hoorific.Lib.Json

namespace Hoorific.Unmarshal

open List Check

/-- What is wrong with a value. -/
inductive Fault where
  | nesting
  | duplicateKey
  | unknownField (name : String)
  | mismatch
deriving DecidableEq

/-! ### Scanning -/

mutual
/-- No value is nested deeper than `depth`, and no object has two members of one name. -/
def scanTokens (depth : ℕ) : Json → Except Fault Unit
  | .arr items => scanItems depth items
  | .obj ms => scanMembers depth [] ms
  | .null | .bool _ | .int _ | .real _ | .str _ => .ok ()

def scanItems (depth : ℕ) : List Json → Except Fault Unit
  | [] => .ok ()
  | v :: rest =>
    if depth = 0 then .error .nesting
    else (scanTokens (depth - 1) v).bind fun _ => scanItems depth rest

def scanMembers (depth : ℕ) (seen : List String) : List (String × Json) → Except Fault Unit
  | [] => .ok ()
  | (name, v) :: rest =>
    if seen.contains name then .error .duplicateKey
    else if depth = 0 then .error .nesting
    else (scanTokens (depth - 1) v).bind fun _ => scanMembers depth (name :: seen) rest
end

/-- The names of the members of an object. -/
def names (ms : List (String × Json)) : List String := ms.map Prod.fst

variable {depth : ℕ} {ms : List (String × Json)} {seen : List String} {u : Unit} {items : List Json}
  {s₀ : String}

theorem scanMembers_nodup (h : scanMembers depth seen ms = .ok u) :
    (names ms).Nodup ∧ ∀ n ∈ names ms, n ∉ seen := by
  induction ms generalizing seen with
  | nil => exact ⟨nodup_nil, nofun⟩
  | cons m rest ih =>
    rw [scanMembers] at h
    split at h
    · cases h
    rename_i hnew
    split at h
    · cases h
    obtain ⟨_, -, hrest⟩ := bind_ok.1 h
    obtain ⟨hnodup, hfresh⟩ := ih hrest
    have hm : m.1 ∉ seen := by simpa using hnew
    refine ⟨nodup_cons.2 ⟨fun hin => hfresh _ hin mem_cons_self, hnodup⟩, ?_⟩
    intro n hn
    rcases mem_cons.1 hn with rfl | hn
    · exact hm
    · exact fun hin => hfresh n hn (mem_cons_of_mem _ hin)

theorem scan_obj_nodup (h : scanTokens depth (.obj ms) = .ok u) : (names ms).Nodup := by
  exact (scanMembers_nodup h).1

variable {m : String × Json}

theorem scan_of_mem (h : scanMembers depth seen ms = .ok u) (hm : m ∈ ms) :
    scanTokens (depth - 1) m.2 = .ok () := by
  induction ms generalizing seen with
  | nil => cases hm
  | cons head rest ih =>
    rw [scanMembers] at h
    split at h
    · cases h
    split at h
    · cases h
    obtain ⟨_, hhead, hrest⟩ := bind_ok.1 h
    rcases mem_cons.1 hm with rfl | hm
    · exact hhead
    · exact ih hrest hm

theorem scan_of_mem_items (h : scanItems depth items = .ok u) {v : Json} (hv : v ∈ items) :
    scanTokens (depth - 1) v = .ok () := by
  induction items with
  | nil => cases hv
  | cons head rest ih =>
    rw [scanItems] at h
    split at h
    · cases h
    obtain ⟨_, hhead, hrest⟩ := bind_ok.1 h
    rcases mem_cons.1 hv with rfl | hv
    · exact hhead
    · exact ih hrest hv

/-! ### Names -/

/-- The letter that stands for a letter and its other case; two letters outside
of ASCII have an ASCII letter as their other case. -/
def foldRune (c : Char) : Char :=
  if 'a' ≤ c ∧ c ≤ 'z' then Char.ofNat (c.toNat - 32)
  else if c.toNat = 0x17f then 'S'
  else if c.toNat = 0x212a then 'K'
  else c

/-- What a name has in common with its other spellings. -/
def foldKey (name : String) : List Char := name.toList.map foldRune

/-- Names that differ in the case of letters only. -/
def equalFold (a b : String) : Bool := foldKey a == foldKey b

/-- How the name of a member may differ from that of its field. -/
abbrev Spelling := String → String → Bool

/-- A name is spelled as the field is. -/
def exactly : Spelling := fun _ _ => false

/-! ### Variables -/

/-- Decoding a value into a variable: what the variable holds before, the
value, and what the variable holds then. -/
abbrev Into (α : Type) := α → Json → Except Fault α

def string : Into String
  | _, .str s => .ok s
  | s, .null => .ok s
  | _, _ => .error .mismatch

def bool : Into Bool
  | _, .bool b => .ok b
  | b, .null => .ok b
  | _, _ => .error .mismatch

def int64 : Into Int
  | _, .int n => if -2 ^ 63 ≤ n ∧ n < 2 ^ 63 then .ok n else .error .mismatch
  | n, .null => .ok n
  | _, _ => .error .mismatch

/-- A value that is kept as it is. -/
def raw : Into (Option Json) := fun _ v => .ok (some v)

/-- A value of no particular type; `fits` tells whether its numbers can be held. -/
def any (fits : Json → Bool) : Into (Option Json)
  | _, .null => .ok none
  | _, v => if fits v then .ok (some v) else .error .mismatch

/-- A pointer: `null` clears it, and a value goes to what it points to. -/
def pointer {α : Type} (zero : α) (into : Into α) : Into (Option α)
  | _, .null => .ok none
  | p, v => (into (p.getD zero) v).map some

/-- A list, and what is left of earlier lists behind its end. -/
structure Slice (α : Type) where
  items : List α := []
  spare : List α := []
deriving DecidableEq

/-- The elements of a list, each over the one that is there already. -/
def elements {α : Type} (zero : α) (into : Into α) : List α → List Json → Except Fault (List α)
  | _, [] => .ok []
  | old, v :: rest => do
    let a ← into (old.headD zero) v
    let others ← elements zero into old.tail rest
    pure (a :: others)

def slice {α : Type} (zero : α) (into : Into α) : Into (Slice α)
  | _, .null => .ok {}
  | _, .arr [] => .ok {}
  | s, .arr items => do
    let decoded ← elements zero into (s.items ++ s.spare) items
    pure ⟨decoded, (s.items ++ s.spare).drop items.length⟩
  | _, _ => .error .mismatch

/-! ### Structs -/

/-- A field of a struct. -/
structure StructField (σ : Type) where
  name : String
  into : Into σ

/-- The field that is read with `get` and written with `set`. -/
def StructField.of {σ α : Type} (name : String) (get : σ → α) (set : σ → α → σ) (into : Into α) :
    StructField σ :=
  ⟨name, fun s v => (into (get s) v).map (set s)⟩

/-- The field a member goes to: that of its name, or else one that is spelled alike. -/
def findField {σ : Type} (spelling : Spelling) (fields : List (StructField σ)) (name : String) :
    Option (StructField σ) :=
  (fields.find? fun f => f.name == name).or (fields.find? fun f => spelling name f.name)

/-- One member.  A member without a field is skipped, or refused by a strict decoder. -/
def member {σ : Type} (spelling : Spelling) (strict : Bool) (fields : List (StructField σ)) (s : σ)
    (m : String × Json) : Except Fault σ :=
  match findField spelling fields m.1 with
  | some f => f.into s m.2
  | none => if strict then .error (.unknownField m.1) else .ok s

/-- A struct. -/
def struct {σ : Type} (spelling : Spelling) (strict : Bool) (fields : List (StructField σ)) : Into σ
  | s, .obj ms => ms.foldlM (member spelling strict fields) s
  | s, .null => .ok s
  | _, _ => .error .mismatch

/-- The struct behind a pointer. -/
def structPointer {σ : Type} (spelling : Spelling) (strict : Bool) (zero : σ)
    (fields : List (StructField σ)) : Into (Option σ) :=
  pointer zero (struct spelling strict fields)

/-- The structs of a list. -/
def structs {σ : Type} (spelling : Spelling) (strict : Bool) (zero : σ)
    (fields : List (StructField σ)) : Into (Slice σ) :=
  slice zero (struct spelling strict fields)

/-- An object that is kept as the map of its members; `null` is no map. -/
def map : Into (Option (List (String × Json)))
  | _, .obj ms => .ok (some ms)
  | _, .null => .ok none
  | _, _ => .error .mismatch

/-- A list whose elements are kept as they are. -/
def raws : Into (List Json)
  | _, .arr items => .ok items
  | _, .null => .ok []
  | _, _ => .error .mismatch

variable {σ α β : Type} {fields : List (StructField σ)} {spelling : Spelling}
  {ms : List (String × Json)}
  {s s' : σ}

variable {into : Into α} {get : σ → α}

theorem StructField.of_ok {name : String} {set : σ → α → σ} {v : Json} :
    (StructField.of name get set into).into s v = .ok s' ↔
      ∃ a, into (get s) v = .ok a ∧ set s a = s' := by
  show (into (get s) v).map _ = _ ↔ _
  rcases into (get s) v with e | a <;> simp [Except.map]

variable {f : StructField σ} {l : Slice α}

theorem findField_mem {name : String} (h : findField spelling fields name = some f) :
    f ∈ fields := by
  rcases Option.or_eq_some_iff.1 h with h | ⟨-, h⟩ <;> exact mem_of_find?_eq_some h

/-- A strict decoder has a field for every member. -/
theorem member_ok :
    member spelling true fields s m = .ok s' ↔
      ∃ f, findField spelling fields m.1 = some f ∧ f.into s m.2 = .ok s' := by
  rw [member]
  split
  · rename_i f hf
    simp [hf]
  · rename_i hf
    simp [hf]

/-- What a strict decoder makes of an object, member by member. -/
theorem foldlM_member_cons (h : (m :: ms).foldlM (member spelling true fields) s = .ok s') :
    ∃ f s₁, findField spelling fields m.1 = some f ∧ f.into s m.2 = .ok s₁ ∧
      ms.foldlM (member spelling true fields) s₁ = .ok s' := by
  rw [foldlM_cons, bind_ok] at h
  obtain ⟨s₁, hm, hrest⟩ := h
  obtain ⟨f, hf, hinto⟩ := member_ok.1 hm
  exact ⟨f, s₁, hf, hinto, hrest⟩

/-- Every member of an object that is accepted has a field that accepts its value. -/
theorem accepts_member (h : ms.foldlM (member spelling true fields) s = .ok s') (hm : m ∈ ms) :
    ∃ f s₁ s₂, findField spelling fields m.1 = some f ∧ f.into s₁ m.2 = .ok s₂ := by
  induction ms generalizing s with
  | nil => cases hm
  | cons head rest ih =>
    obtain ⟨f, s₁, hf, hinto, hrest⟩ := foldlM_member_cons h
    rcases mem_cons.1 hm with rfl | hm
    · exact ⟨f, s, s₁, hf, hinto⟩
    · exact ih hrest hm

/-! ### Names in any case -/

theorem equalFold_iff {a b : String} : equalFold a b = true ↔ foldKey a = foldKey b := by
  rw [equalFold, beq_iff_eq]

/-- The field of a member is spelled alike. -/
theorem foldKey_of_findField {name : String} (h : findField equalFold fields name = some f) :
    foldKey f.name = foldKey name := by
  rcases Option.or_eq_some_iff.1 h with h | ⟨-, h⟩
  · have hname : f.name = name := by simpa using List.find?_some h
    rw [hname]
  · have hfold : equalFold name f.name = true := by simpa using List.find?_some h
    exact (equalFold_iff.1 hfold).symm

/-! ### Names that are spelled exactly -/

theorem findField_exactly {name : String} :
    findField exactly fields name = fields.find? fun f => f.name == name := by
  have hnone : (fields.find? fun f => exactly name f.name) = none :=
    List.find?_eq_none.2 fun f _ => by simp [exactly]
  rw [findField, hnone, Option.or_none]

theorem name_of_findField {name : String} (h : findField exactly fields name = some f) :
    f.name = name := by
  rw [findField_exactly] at h
  simpa using List.find?_some h

/-- The other fields leave alone what `get` reads. -/
def Leaves (fields : List (StructField σ)) (name : String) (get : σ → α) : Prop :=
  ∀ f ∈ fields, f.name ≠ name → ∀ s v s', f.into s v = .ok s' → get s' = get s

theorem foldlM_frame {name : String} (hleaves : Leaves fields name get)
    (h : ms.foldlM (member exactly true fields) s = .ok s') (hname : name ∉ names ms) :
    get s' = get s := by
  induction ms generalizing s with
  | nil =>
    cases h
    rfl
  | cons m rest ih =>
    obtain ⟨f, s₁, hf, hinto, hrest⟩ := foldlM_member_cons h
    obtain ⟨hm, hnot⟩ := not_or.1 (mt mem_cons.2 hname)
    have hother : f.name ≠ name := fun heq => hm ((name_of_findField hf).symm.trans heq).symm
    rw [ih hrest hnot, hleaves f (findField_mem hf) hother _ _ _ hinto]

/-- The member of a name that occurs once. -/
theorem memberOf_eq_some_iff (hnodup : (names ms).Nodup) {name : String} {v : Json} :
    memberOf name ms = some v ↔ (name, v) ∈ ms := by
  rw [memberOf, Option.map_eq_some_iff]
  constructor
  · rintro ⟨m, hm, rfl⟩
    have hin := mem_reverse.1 (mem_of_find?_eq_some hm)
    have hname : m.1 = name := by simpa using List.find?_some hm
    rwa [← hname]
  · intro h
    rcases hfind : ms.reverse.find? (fun m => m.1 == name) with _ | m
    · have := List.find?_eq_none.1 hfind (name, v) (mem_reverse.2 h)
      simp at this
    have hin := mem_reverse.1 (mem_of_find?_eq_some hfind)
    have hname : m.1 = name := by simpa using List.find?_some hfind
    exact ⟨m, hfind, congrArg Prod.snd (inj_on_of_nodup_map hnodup hin h hname)⟩

theorem notMem_names {name : String} (h : memberOf name ms = none) : name ∉ names ms := by
  rw [memberOf, Option.map_eq_none_iff, List.find?_eq_none] at h
  intro hin
  obtain ⟨m, hm, rfl⟩ := mem_map.1 hin
  simpa using h m (mem_reverse.2 hm)

/-- In an object without two members of one name that spells its names exactly,
the field holds what the member of its name decodes to. -/
def Holds (fields : List (StructField σ)) (name : String) (get : σ → α) (into : Into α) : Prop :=
  ∀ (ms : List (String × Json)) (s s' : σ), (names ms).Nodup →
    ms.foldlM (member exactly true fields) s = .ok s' →
      (memberOf name ms = none ∧ get s' = get s) ∨
        ∃ v, memberOf name ms = some v ∧ into (get s) v = .ok (get s')

/-- **The field of a name.**  A field holds its member if only that member is written to it. -/
theorem Holds.of {name : String} {set : σ → α → σ}
    (hfield : findField exactly fields name = some (.of name get set into))
    (hset : ∀ s a, get (set s a) = a) (hleaves : Leaves fields name get) :
    Holds fields name get into := by
  intro ms s s' hnodup h
  rcases hm : memberOf name ms with _ | v
  · exact .inl ⟨rfl, foldlM_frame hleaves h (notMem_names hm)⟩
  have hin := (memberOf_eq_some_iff hnodup).1 hm
  clear hm
  refine .inr ⟨v, rfl, ?_⟩
  induction ms generalizing s with
  | nil => cases hin
  | cons m rest ih =>
    obtain ⟨hnot, hrestnodup⟩ := nodup_cons.1 hnodup
    obtain ⟨f, s₁, hf, hinto, hrest⟩ := foldlM_member_cons h
    rcases mem_cons.1 hin with rfl | hin
    · -- the member itself: nothing after it touches the field
      rw [hfield, Option.some.injEq] at hf
      subst hf
      obtain ⟨a, ha, rfl⟩ := StructField.of_ok.1 hinto
      rw [ha, foldlM_frame hleaves hrest hnot, hset]
    · have hother : f.name ≠ name := by
        intro heq
        apply hnot
        rw [← name_of_findField hf, heq]
        exact mem_map.2 ⟨_, hin, rfl⟩
      rw [← hleaves f (findField_mem hf) hother _ _ _ hinto]
      exact ih s₁ hrestnodup hrest hin

@[simp] theorem leaves_nil {name : String} : Leaves ([] : List (StructField σ)) name get := nofun

/-- The field itself, or one that is written elsewhere. -/
@[simp] theorem leaves_cons {name other : String} {get' : σ → β} {set : σ → β → σ} {into : Into β}
    (hset : other = name ∨ ∀ s b, get (set s b) = get s) :
    Leaves (.of other get' set into :: fields) name get ↔ Leaves fields name get := by
  refine ⟨fun h f hf => h f (mem_cons_of_mem _ hf), fun h f hf hname s v s' hinto => ?_⟩
  rcases mem_cons.1 hf with rfl | hf
  · obtain ⟨b, -, rfl⟩ := StructField.of_ok.1 hinto
    exact hset.resolve_left hname s b
  · exact h f hf hname s v s' hinto

/-! ### Values that say something -/

theorem string_ok {s : String} {v : Json} (h : string s₀ v = .ok s) :
    v = .str s ∨ v = .null ∧ s = s₀ := by
  cases v with
  | str text =>
    cases h
    exact .inl rfl
  | null =>
    cases h
    exact .inr ⟨rfl, rfl⟩
  | bool | int | real | arr | obj => cases h

theorem string_of_ne {s : String} {v : Json} (h : string s₀ v = .ok s) (hs : s ≠ s₀) : v = .str s :=
  (string_ok h).elim id fun hnull => absurd hnull.2 hs

theorem pointer_some {zero : α} {p : Option α} {v : Json} {a : α}
    (h : pointer zero into p v = .ok (some a)) : into (p.getD zero) v = .ok a := by
  have hmap : ∀ {m : Except Fault α}, m.map some = .ok (some a) → m = .ok a := by
    rintro (e | b) hm
    · cases hm
    · cases hm
      rfl
  cases v with
  | null => cases h
  | bool | int | real | str | arr | obj => exact hmap h

/-- A struct that is not what it was comes from an object. -/
theorem struct_ok {v : Json} (h : struct spelling true fields s v = .ok s') :
    (∃ ms, v = .obj ms ∧ ms.foldlM (member spelling true fields) s = .ok s') ∨
      v = .null ∧ s' = s := by
  cases v with
  | obj ms => exact .inl ⟨ms, rfl, h⟩
  | null =>
    cases h
    exact .inr ⟨rfl, rfl⟩
  | bool | int | real | str | arr => cases h

/-- Decoding into a list that is empty decodes each element by itself. -/
theorem elements_nil_ok {zero : α} {l : List α} (h : elements zero into [] items = .ok l) :
    List.Forall₂ (fun v a => into zero v = .ok a) items l := by
  induction items generalizing l with
  | nil =>
    cases h
    exact .nil
  | cons v rest ih =>
    rw [elements] at h
    simp only [bind_ok, pure_ok, headD_nil, tail_nil] at h
    obtain ⟨a, ha, others, hothers, rfl⟩ := h
    exact .cons ha (ih hothers)

/-- A list that was empty is decoded element by element. -/
theorem slice_ok {zero : α} {v : Json} (h : slice zero into {} v = .ok l) :
    (v = .null ∧ l.items = []) ∨
      ∃ items, v = .arr items ∧ List.Forall₂ (fun w a => into zero w = .ok a) items l.items := by
  cases v with
  | null =>
    cases h
    exact .inl ⟨rfl, rfl⟩
  | arr items =>
    refine .inr ⟨items, rfl, ?_⟩
    cases items with
    | nil =>
      cases h
      exact .nil
    | cons w rest =>
      rw [slice] at h
      · obtain ⟨decoded, hdecoded, hl⟩ := bind_ok.1 h
        cases hl
        exact elements_nil_ok hdecoded
      · exact nofun
  | bool | int | real | str | obj => cases h

theorem mem_slice {zero : α} {v : Json} (h : slice zero into {} v = .ok l) {a : α}
    (ha : a ∈ l.items) :
    ∃ items, v = .arr items ∧ ∃ w ∈ items, into zero w = .ok a := by
  rcases slice_ok h with ⟨-, hnil⟩ | ⟨items, rfl, hitems⟩
  · rw [hnil] at ha
    cases ha
  · exact ⟨items, rfl, forall₂_exists hitems.flip ha⟩

theorem arr_of_mem_raws {l l₀ : List Json} {v x : Json} (h : raws l₀ v = .ok l) (hx : x ∈ l) :
    v = .arr l := by
  cases v with
  | arr =>
    cases h
    rfl
  | null =>
    cases h
    cases hx
  | bool | int | real | str | obj => cases h

/-! ### Scanned values -/

theorem scan_member {name : String} {v : Json} (h : scanTokens depth (.obj ms) = .ok u)
    (hv : memberOf name ms = some v) :
    scanTokens (depth - 1) v = .ok () := by
  have hin := (memberOf_eq_some_iff (scan_obj_nodup h)).1 hv
  exact scan_of_mem h hin

theorem scanned_ok {ε : Type} {zero a : α} {v : Json} {f : Fault → ε} :
    ((scanTokens depth v).bind fun _ => into zero v).mapError f = .ok a ↔
      scanTokens depth v = .ok () ∧ into zero v = .ok a := by
  rcases scanTokens depth v with e | ⟨⟩
  · simp [Except.bind, Except.mapError]
  · rcases into zero v with e | b <;> simp [Except.bind, Except.mapError]

/-! ### Objects that spell their names exactly -/

/-- The members of a scanned object, decoded into a struct. -/
structure Reads (fields : List (StructField σ)) (zero : σ) (ms : List (String × Json)) (s : σ) :
    Prop where
  scanned : ∃ depth, scanTokens depth (.obj ms) = .ok ()
  decoded : ms.foldlM (member exactly true fields) zero = .ok s

namespace Reads

variable {τ : Type} {inner : List (StructField τ)} {zero : σ} {zero' w : τ} {name : String}
  {v : Json}

/-- A struct that is not what it was comes from an object. -/
theorem of_struct (hscan : scanTokens depth v = .ok ())
    (h : struct exactly true inner zero' v = .ok w) (hne : w ≠ zero') :
    ∃ ms, v = .obj ms ∧ Reads inner zero' ms w := by
  rcases struct_ok h with ⟨ms, rfl, hms⟩ | ⟨-, rfl⟩
  · exact ⟨ms, rfl, ⟨depth, hscan⟩, hms⟩
  · exact absurd rfl hne

section

variable (h : Reads fields zero ms s)
include h

/-- A field that is not what it was has its member. -/
theorem exists_member {get : σ → α} {into : Into α}
    (hholds : Holds fields name get into) (hne : get s ≠ get zero) :
    ∃ v depth, memberOf name ms = some v ∧ scanTokens depth v = .ok () ∧
      into (get zero) v = .ok (get s) := by
  obtain ⟨depth, hscan⟩ := h.scanned
  rcases hholds ms zero s (scan_obj_nodup hscan) h.decoded with ⟨-, hsame⟩ | ⟨v, hv, hinto⟩
  · exact absurd hsame hne
  · exact ⟨v, _, hv, scan_member hscan hv, hinto⟩

theorem present {get : σ → α} {into : Into α}
    (hholds : Holds fields name get into) (hne : get s ≠ get zero) : (memberOf name ms).isSome := by
  obtain ⟨v, -, hv, -⟩ := h.exists_member hholds hne
  rw [hv]
  rfl

/-- A text that is not what it was is the text of its member. -/
theorem text {get : σ → String} (hholds : Holds fields name get string)
    (hne : get s ≠ get zero) : memberOf name ms = some (.str (get s)) := by
  obtain ⟨v, -, hv, -, hinto⟩ := h.exists_member hholds hne
  rw [hv, string_of_ne hinto hne]

/-- A value that is kept is that of its member. -/
theorem kept {get : σ → Option Json} (hholds : Holds fields name get raw)
    (hzero : get zero = none) (hv : get s = some v) :
    memberOf name ms = some v ∧ ∃ depth, scanTokens depth v = .ok () := by
  obtain ⟨u, depth, hu, hscan, hinto⟩ := h.exists_member hholds (by rw [hzero, hv]; exact nofun)
  cases (Except.ok.inj hinto).trans hv
  exact ⟨hu, depth, hscan⟩

/-- An element of a list is an object of the list of its member. -/
theorem item {get : σ → Slice τ}
    (hholds : Holds fields name get (structs exactly true zero' inner)) (hzero : get zero = {})
    (hw : w ∈ (get s).items) (hne : w ≠ zero') :
    ∃ items o, memberOf name ms = some (.arr items) ∧ Json.obj o ∈ items ∧ Reads inner zero' o w := by
  have hsome : get s ≠ get zero := by
    rw [hzero]
    rintro heq
    rw [heq] at hw
    cases hw
  obtain ⟨v, depth, hv, hscan, hinto⟩ := h.exists_member hholds hsome
  rw [hzero] at hinto
  obtain ⟨items, rfl, x, hx, hstruct⟩ := mem_slice hinto hw
  obtain ⟨o, rfl, ho⟩ := of_struct (scan_of_mem_items hscan hx) hstruct hne
  exact ⟨items, o, hv, hx, ho⟩

/-- What a pointer points to is the object of its member. -/
theorem object {get : σ → Option τ}
    (hholds : Holds fields name get (structPointer exactly true zero' inner))
    (hzero : get zero = none) (hw : get s = some w) (hne : w ≠ zero') :
    ∃ o, memberOf name ms = some (.obj o) ∧ Reads inner zero' o w := by
  obtain ⟨v, depth, hv, hscan, hinto⟩ := h.exists_member hholds (by rw [hzero, hw]; exact nofun)
  rw [hzero, hw] at hinto
  obtain ⟨o, rfl, ho⟩ := of_struct hscan (pointer_some hinto) hne
  exact ⟨o, hv, ho⟩

end

end Reads

end Hoorific.Unmarshal
