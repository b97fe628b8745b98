/-
The stored form of a replayable response (`internal/store/idempotency.go`):
the header normalization, the encoder and the decoder.

A response is written as the tag `HID1`, its status, the number of its
header names and the length of its body, then each header name with its
values, all length-prefixed, then the body.  The encoder accepts only header
names that are canonical already, so normalization only sorts them, and
what the decoder reads back is the response that was written
(`decode_of_encode`).  Conversely what the decoder accepts has this form to
the last byte (`Decode.response_ok`).

The decoder reads the remaining bytes from its state; it is a `Tx` body
over that state.
-/
import Hoorific.Lib.Bytes
import Hoorific.Lib.Check
import Hoorific.Lib.Table
import Hoorific.Lib.Tx
import Mathlib.Data.List.Sort

namespace Hoorific

open List Check Tx Bytes Table

/-! ### Errors, headers, responses -/

/-- The errors of `core/idempotency.go` that the store returns. -/
inductive IdempotencyError where
  | invalid
  | fingerprintConflict
  | ownerFenced
  | notFound
  | unreplayable
  /-- a failure of the key ring or of the random source -/
  | unavailable
deriving DecidableEq

/-- `http.Header`: header names with their values. -/
abbrev Header := Table Bytes (List Bytes)

/-- `core.IdempotencyResponse`. -/
structure IdempotencyResponse where
  status : ℤ
  header : Header := ∅
  body : Bytes

/-- The same response; a header is a map, so the order of its names is no part of it. -/
structure IdempotencyResponse.Same (r r' : IdempotencyResponse) : Prop where
  status : r.status = r'.status
  header : ∀ name, r.header.lookup name = r'.header.lookup name
  body : r.body = r'.body

def maxBodyBytes : ℕ := 33554432
def maxCiphertextBytes : ℕ := 33554432
def maxHeaderCount : ℕ := 128
def maxHeaderValues : ℕ := 512
def maxHeaderBytes : ℕ := 65536
def maxHeaderNameBytes : ℕ := 256
def maxHeaderValue : ℕ := 16384

/-! ### Header names -/

/-- A byte that may stand in a header field name. -/
def validHeaderFieldByte (c : UInt8) : Bool :=
  within 0x61 0x7A c || within 0x41 0x5A c || within 0x30 0x39 c ||
    (ascii "!#$%&'*+-.^_`|~").contains c

/-- Upper case at the start and after a hyphen, lower case elsewhere. -/
def canonicalCase : Bool → Bytes → Bytes
  | _, [] => []
  | upper, c :: cs =>
    let c' := if upper && within 0x61 0x7A c then c - 32
      else if !upper && within 0x41 0x5A c then c + 32 else c
    c' :: canonicalCase (c' == 0x2D) cs

/-- `http.CanonicalHeaderKey`: a name with a byte that no field name has is
left as it is. -/
def canonicalHeaderKey (s : Bytes) : Bytes :=
  if s.all validHeaderFieldByte then canonicalCase true s else s

theorem canonicalCase_length (upper : Bool) (s : Bytes) :
    (canonicalCase upper s).length = s.length := by
  induction s generalizing upper with
  | nil => rfl
  | cons c cs ih => simp [canonicalCase, ih]

theorem canonicalHeaderKey_length (s : Bytes) : (canonicalHeaderKey s).length = s.length := by
  unfold canonicalHeaderKey
  split
  · exact canonicalCase_length true s
  · rfl

/-- A name whose canonical form is what remains without white space is canonical. -/
theorem canonical_of_eq_trimSpace {s : Bytes} (h : canonicalHeaderKey s = Bytes.trimSpace s) :
    canonicalHeaderKey s = s := by
  have hlen : (Bytes.trimSpace s).length = s.length := by rw [← h, canonicalHeaderKey_length]
  rw [h]
  exact (Bytes.trimSpace_sublist s).eq_of_length hlen

/-- `strings.ContainsAny(s, "\x00\r\n")`. -/
def hasControl (s : Bytes) : Bool := s.any fun c => c == 0 || c == 13 || c == 10

/-! ### Normalization -/

/-- The loop state of `normalizeIdempotencyHeaders`. -/
structure Normalizing where
  byName : Header := ∅
  totalValues : ℕ := 0
  totalBytes : ℕ := 0

/-- The inner loop: the bytes counted so far, and the next value. -/
def countValue (totalBytes : ℕ) (value : Bytes) : Except IdempotencyError ℕ := do
  Check.require (decide (value.length ≤ maxHeaderValue) && validUTF8 value && !hasControl value &&
    decide (totalBytes ≤ maxHeaderBytes - value.length)) .invalid
  pure (totalBytes + value.length)

/-- The outer loop: one name of the map with its values. -/
def normalizeHeader (s : Normalizing) (rawName : Bytes) (values : List Bytes) :
    Except IdempotencyError Normalizing := do
  let name := canonicalHeaderKey rawName
  Check.require (name != [] && name == Bytes.trimSpace rawName && validUTF8 rawName &&
    !hasControl rawName && decide (name.length ≤ maxHeaderNameBytes)) .invalid
  Check.require (decide (values.length ≤ maxHeaderValues) &&
    decide (s.totalValues ≤ maxHeaderValues - values.length)) .invalid
  Check.require (decide (s.totalBytes ≤ maxHeaderBytes - name.length)) .invalid
  let totalBytes ← values.foldlM countValue (s.totalBytes + name.length)
  pure {
    byName := s.byName.insert name ((s.byName.lookup name).getD [] ++ values)
    totalValues := s.totalValues + values.length
    totalBytes := totalBytes }

/-- The collected names in sorted order. -/
def sortedHeaders (byName : Header) : List (Bytes × List Bytes) :=
  (byName.keys.insertionSort fun a b => Bytes.le a b).map fun name =>
    (name, (byName.lookup name).getD [])

def normalizeIdempotencyHeaders (headers : Header) :
    Except IdempotencyError (List (Bytes × List Bytes) × ℕ) := do
  Check.require (decide (headers.entries.length ≤ maxHeaderCount)) .invalid
  let s ← headers.entries.foldlM (fun s e => normalizeHeader s e.1 e.2) {}
  Check.require (decide (s.byName.entries.length ≤ maxHeaderCount) &&
    decide (s.totalValues ≤ maxHeaderValues)) .invalid
  pure (sortedHeaders s.byName, s.totalBytes)

/-! ### The encoder -/

def encodeValue (value : Bytes) : Bytes := be 4 value.length ++ value

def encodeHeader (h : Bytes × List Bytes) : Bytes :=
  be 2 h.1.length ++ be 2 h.2.length ++ h.1 ++ h.2.flatMap encodeValue

/-- The size of the encoding without the body. -/
def encodedSize (headers : List (Bytes × List Bytes)) : ℕ :=
  12 + (headers.map fun h => 4 + h.1.length + (h.2.map fun v => 4 + v.length).sum).sum

def encodeIdempotencyResponse (response : IdempotencyResponse) : Except IdempotencyError Bytes := do
  Check.require (decide (100 ≤ response.status) && decide (response.status ≤ 599) &&
    decide (response.body.length ≤ maxBodyBytes)) .invalid
  let (headers, headerBytes) ← normalizeIdempotencyHeaders response.header
  Check.require (decide (headers.length ≤ 65535)) .invalid
  Check.require (decide (encodedSize headers ≤ maxBodyBytes + maxHeaderBytes + 12) &&
    decide (headerBytes ≤ maxHeaderBytes)) .invalid
  pure (ascii "HID1" ++ be 2 response.status.toNat ++ be 2 headers.length ++
    be 4 response.body.length ++ headers.flatMap encodeHeader ++ response.body)

/-! ### The decoder -/

/-- The state of `decodeIdempotencyResponse`: what remains to be read, the
headers read so far and their totals. -/
structure Decoding where
  plain : Bytes
  header : Header := ∅
  totalValues : ℕ := 0
  totalHeaderBytes : ℕ := 0

abbrev Decode := Tx Decoding IdempotencyError

namespace Decode

/-- Fail unless `c`: every failure of the decoder is `unreplayable`. -/
def check (c : Bool) : Decode Unit := Tx.require c .unreplayable

/-- The closure `take`. -/
def take (size : ℕ) : Decode Bytes := do
  let d ← get
  check (decide (size ≤ d.plain.length))
  modify fun d => { d with plain := d.plain.drop size }
  pure (d.plain.take size)

/-- The closures `takeU16` and `takeU32`. -/
def takeUint (size : ℕ) : Decode ℕ := do
  let b ← take size
  pure (ofBE b)

/-- One value of a header. -/
def takeValue : Decode Bytes := do
  let valueLength ← takeUint 4
  let d ← get
  check (decide (valueLength ≤ maxHeaderValue) && decide (valueLength ≤ d.plain.length) &&
    decide (d.totalHeaderBytes ≤ maxHeaderBytes - valueLength))
  let value ← take valueLength
  check (validUTF8 value && !hasControl value)
  modify fun d => { d with totalHeaderBytes := d.totalHeaderBytes + value.length }
  pure value

/-- `for range int(valueCount)`. -/
def takeValues : ℕ → List Bytes → Decode (List Bytes)
  | 0, values => pure values
  | n + 1, values => do
    let value ← takeValue
    takeValues n (values ++ [value])

/-- One header name with its values. -/
def takeHeader : Decode Unit := do
  let nameLength ← takeUint 2
  check (nameLength != 0 && decide (nameLength ≤ maxHeaderNameBytes))
  let valueCount ← takeUint 2
  let d ← get
  check (decide (valueCount ≤ maxHeaderValues) &&
    decide (d.totalValues ≤ maxHeaderValues - valueCount))
  let name ← take nameLength
  check (canonicalHeaderKey name == name && !hasControl name && validUTF8 name)
  check (d.header.lookup name).isNone
  check (decide (d.totalHeaderBytes ≤ maxHeaderBytes - name.length))
  modify fun d => { d with totalHeaderBytes := d.totalHeaderBytes + name.length }
  let values ← takeValues valueCount []
  modify fun d => { d with
    header := d.header.insert name values, totalValues := d.totalValues + valueCount }

/-- `for range int(headerCount)`. -/
def takeHeaders : ℕ → Decode Unit
  | 0 => pure ()
  | n + 1 => do
    takeHeader
    takeHeaders n

/-- The whole response: the fixed part, the headers, and the body, which is
all that remains. -/
def response : Decode IdempotencyResponse := do
  let d ← get
  check (decide (12 ≤ d.plain.length) && d.plain.take 4 == ascii "HID1")
  let _ ← take 4
  let status ← takeUint 2
  let headerCount ← takeUint 2
  let bodyLength ← takeUint 4
  check (decide (100 ≤ status) && decide (status ≤ 599) && decide (headerCount ≤ maxHeaderCount) &&
    decide (bodyLength ≤ maxBodyBytes))
  takeHeaders headerCount
  let d ← get
  check (bodyLength == d.plain.length && decide (d.plain.length ≤ maxBodyBytes))
  pure { status := status, header := d.header, body := d.plain }

end Decode

def decodeIdempotencyResponse (plain : Bytes) : Except IdempotencyError IdempotencyResponse :=
  (Decode.response.run { plain := plain }).map Prod.fst

/-! ### What normalization accepts -/

/-- A header that may be stored. -/
structure Storable (h : Bytes × List Bytes) : Prop where
  name_ne_nil : h.1 ≠ []
  canonical : canonicalHeaderKey h.1 = h.1
  name_valid : validUTF8 h.1 = true
  name_control : hasControl h.1 = false
  name_short : h.1.length ≤ maxHeaderNameBytes
  value_short : ∀ v ∈ h.2, v.length ≤ maxHeaderValue
  value_valid : ∀ v ∈ h.2, validUTF8 v = true
  value_control : ∀ v ∈ h.2, hasControl v = false

/-- The bytes of a list of values. -/
def valueBytes (values : List Bytes) : ℕ := (values.map List.length).sum

/-- The bytes of a header that count towards the limit. -/
def headerBytes (h : Bytes × List Bytes) : ℕ := h.1.length + valueBytes h.2

/-- Headers that may be stored together. -/
structure AllStorable (hs : List (Bytes × List Bytes)) : Prop where
  each : ∀ h ∈ hs, Storable h
  names : (hs.map Prod.fst).Nodup
  count : hs.length ≤ maxHeaderCount
  values : (hs.map fun h => h.2.length).sum ≤ maxHeaderValues
  bytes : (hs.map headerBytes).sum ≤ maxHeaderBytes

variable {hs : List (Bytes × List Bytes)} {n m : ℕ} {values : List Bytes} {s s' : Normalizing}

theorem AllStorable.perm {hs' : List (Bytes × List Bytes)} (h : AllStorable hs) (hp : hs.Perm hs') :
    AllStorable hs' where
  each x hx := h.each x (hp.mem_iff.2 hx)
  names := (hp.map Prod.fst).nodup_iff.1 h.names
  count := hp.length_eq ▸ h.count
  values := (hp.map fun x => x.2.length).sum_eq ▸ h.values
  bytes := (hp.map headerBytes).sum_eq ▸ h.bytes

theorem countValue_ok {value : Bytes} (h : countValue n value = .ok m) :
    (value.length ≤ maxHeaderValue ∧ validUTF8 value = true ∧ hasControl value = false) ∧
      m = n + value.length ∧ m ≤ maxHeaderBytes := by
  simp only [countValue, bind_ok, require_ok, pure_ok, Bool.and_eq_true,
    decide_eq_true_eq, Bool.not_eq_eq_eq_not, Bool.not_true] at h
  obtain ⟨-, ⟨⟨⟨hlen, hvalid⟩, hcontrol⟩, htotal⟩, rfl⟩ := h
  have : maxHeaderValue ≤ maxHeaderBytes := by decide
  exact ⟨⟨hlen, hvalid, hcontrol⟩, rfl, by omega⟩

theorem countValues_ok (hn : n ≤ maxHeaderBytes) (h : values.foldlM countValue n = .ok m) :
    (∀ v ∈ values, v.length ≤ maxHeaderValue ∧ validUTF8 v = true ∧ hasControl v = false) ∧
      m = n + valueBytes values ∧ m ≤ maxHeaderBytes := by
  induction values generalizing n with
  | nil =>
    rw [foldlM_nil, pure_ok] at h
    subst h
    exact ⟨nofun, rfl, hn⟩
  | cons v values ih =>
    rw [foldlM_cons, bind_ok] at h
    obtain ⟨k, hk, hrest⟩ := h
    obtain ⟨hv, rfl, hle⟩ := countValue_ok hk
    obtain ⟨hvs, rfl, hle'⟩ := ih hle hrest
    refine ⟨forall_mem_cons.2 ⟨hv, hvs⟩, ?_, hle'⟩
    simp only [valueBytes, map_cons, sum_cons]
    omega

/-- One accepted name: it is storable, and the totals stay within their limits. -/
theorem normalizeHeader_ok {name : Bytes} (h : normalizeHeader s name values = .ok s') :
    Storable (name, values) ∧
      s'.byName = s.byName.insert name ((s.byName.lookup name).getD [] ++ values) ∧
      (s'.totalValues = s.totalValues + values.length ∧ s'.totalValues ≤ maxHeaderValues) ∧
      s'.totalBytes = s.totalBytes + headerBytes (name, values) ∧
      s'.totalBytes ≤ maxHeaderBytes := by
  simp only [normalizeHeader, bind_ok, require_ok, pure_ok, Bool.and_eq_true,
    decide_eq_true_eq, Bool.not_eq_eq_eq_not, Bool.not_true, bne_iff_ne, beq_iff_eq] at h
  obtain ⟨-, ⟨⟨⟨⟨hne, htrim⟩, hvalid⟩, hcontrol⟩, hshort⟩, -, ⟨hcount, htotal⟩, -, hbytes,
    total, htotalBytes, rfl⟩ := h
  have hcanon := canonical_of_eq_trimSpace htrim
  rw [hcanon] at hne hshort hbytes htotalBytes ⊢
  have hname : maxHeaderNameBytes ≤ maxHeaderBytes := by decide
  obtain ⟨hvalues, rfl, hle⟩ := countValues_ok (by omega) htotalBytes
  refine ⟨⟨hne, hcanon, hvalid, hcontrol, hshort, fun v hv => (hvalues v hv).1,
    fun v hv => (hvalues v hv).2.1, fun v hv => (hvalues v hv).2.2⟩, rfl, ⟨rfl, ?_⟩, ?_, hle⟩
  · show s.totalValues + values.length ≤ maxHeaderValues
    omega
  · show s.totalBytes + name.length + valueBytes values = _
    exact Nat.add_assoc _ _ _

/-- The entries of a header map as pairs. -/
def Header.pairs (h : Header) : List (Bytes × List Bytes) := h.entries.map fun e => (e.1, e.2)

/-- The loop collects the names it is given: they are distinct and canonical,
so none is merged with another. -/
theorem normalizeLoop_ok {l : List (Sigma fun _ : Bytes => List Bytes)}
    (hnodup : (l.map Sigma.fst).Nodup) (hfresh : ∀ e ∈ l, e.1 ∉ s.byName)
    (hvalues : s.totalValues ≤ maxHeaderValues) (hbytes : s.totalBytes ≤ maxHeaderBytes)
    (h : l.foldlM (fun s e => normalizeHeader s e.1 e.2) s = .ok s') :
    (∀ e ∈ l, Storable (e.1, e.2)) ∧ s'.byName.entries.Perm (l ++ s.byName.entries) ∧
      (s'.totalValues = s.totalValues + (l.map fun e => e.2.length).sum ∧
        s'.totalValues ≤ maxHeaderValues) ∧
      s'.totalBytes = s.totalBytes + (l.map fun e => headerBytes (e.1, e.2)).sum ∧
      s'.totalBytes ≤ maxHeaderBytes := by
  induction l generalizing s with
  | nil =>
    rw [foldlM_nil, pure_ok] at h
    subst h
    exact ⟨nofun, List.Perm.refl _, ⟨rfl, hvalues⟩, rfl, hbytes⟩
  | cons e l ih =>
    rw [foldlM_cons, bind_ok] at h
    obtain ⟨s₁, hs₁, hrest⟩ := h
    obtain ⟨hstorable, hbyName, ⟨hv, hvle⟩, hb, hble⟩ := normalizeHeader_ok hs₁
    rw [map_cons, nodup_cons] at hnodup
    have hnew : e.1 ∉ s.byName := hfresh e mem_cons_self
    rw [AList.lookup_eq_none.2 hnew] at hbyName
    obtain ⟨heach, hperm, ⟨hv', hvle'⟩, hb', hble'⟩ := ih hnodup.2 (fun x hx hmem => by
      rw [hbyName, AList.mem_insert] at hmem
      rcases hmem with hname | hold
      · exact hnodup.1 (hname ▸ mem_map_of_mem hx)
      · exact hfresh x (mem_cons_of_mem e hx) hold) hvle hble hrest
    refine ⟨forall_mem_cons.2 ⟨hstorable, heach⟩, ?_, ⟨?_, hvle'⟩, ?_, hble'⟩
    · rw [hbyName, AList.entries_insert_of_notMem hnew] at hperm
      exact hperm.trans perm_middle
    · rw [hv', hv, map_cons, sum_cons, Nat.add_assoc]
    · rw [hb', hb, map_cons, sum_cons, Nat.add_assoc]

theorem sortedHeaders_perm (h : Header) : (sortedHeaders h).Perm h.pairs := by
  have hpairs : h.pairs = h.keys.map fun name => (name, (h.lookup name).getD []) := by
    simp only [Header.pairs, AList.keys, List.keys, map_map]
    refine map_congr_left fun e he => ?_
    show (e.1, e.2) = (e.1, (h.lookup e.1).getD [])
    rw [mem_entries_iff.1 he, Option.getD_some]
  rw [hpairs]
  exact (perm_insertionSort _ _).map _

/-- **Accepted headers are stored as they are**, in sorted order. -/
theorem normalizeIdempotencyHeaders_ok {h : Header}
    (hok : normalizeIdempotencyHeaders h = .ok (hs, n)) : hs.Perm h.pairs ∧ AllStorable hs := by
  simp only [normalizeIdempotencyHeaders, bind_ok, require_ok, pure_ok,
    Bool.and_eq_true, decide_eq_true_eq, Prod.mk.injEq] at hok
  obtain ⟨-, hcount, s, hloop, -, -, rfl, -⟩ := hok
  obtain ⟨heach, hperm, ⟨hv, hvle⟩, hb, hble⟩ := normalizeLoop_ok h.nodupKeys
    (fun _ _ => AList.notMem_empty _) (Nat.zero_le _) (Nat.zero_le _) hloop
  have hp : (sortedHeaders s.byName).Perm h.pairs := by
    refine (sortedHeaders_perm s.byName).trans ?_
    rw [show (∅ : Header).entries = [] from rfl, append_nil] at hperm
    exact hperm.map _
  refine ⟨hp, AllStorable.perm ?_ hp.symm⟩
  refine ⟨?_, ?_, ?_, ?_, ?_⟩
  · intro x hx
    obtain ⟨e, he, rfl⟩ := mem_map.1 hx
    exact heach e he
  · rw [Header.pairs, map_map]
    exact h.nodupKeys
  · rw [Header.pairs, length_map]
    exact hcount
  · rw [Header.pairs, map_map]
    rw [Nat.zero_add] at hv
    exact hv ▸ hvle
  · rw [Header.pairs, map_map]
    rw [Nat.zero_add] at hb
    exact hb ▸ hble

/-! ### What the decoder reads -/

namespace Decode

variable {d : Decoding} {rest : Bytes} {u : Unit} {front : Bytes} {v : ℕ} {r : List Bytes}

@[simp] theorem runs_check {c : Bool} {d' : Decoding} : Runs (check c) d u d' ↔ c = true ∧ d = d' :=
  runs_require

theorem runs_take (hd : d.plain = front ++ rest) (hn : front.length = n) :
    Runs (take n) d front { d with plain := rest } := by
  subst hn
  simp only [take, runs_bind, runs_get, runs_check, runs_modify, runs_pure]
  refine ⟨d, d, ⟨rfl, rfl⟩, (), d, ⟨?_, rfl⟩, (), _, rfl, ?_, ?_⟩
  · rw [hd, length_append]
    exact decide_eq_true (Nat.le_add_right _ _)
  · rw [hd, take_left]
  · rw [hd, drop_left]

theorem runs_takeUint (hd : d.plain = be n v ++ rest) (hv : v < 256 ^ n) :
    Runs (takeUint n) d v { d with plain := rest } := by
  refine .bind (runs_take hd (be_length n v)) ?_
  rw [runs_pure]
  exact ⟨ofBE_be hv, rfl⟩

theorem runs_takeValue {v : Bytes} (hd : d.plain = encodeValue v ++ rest)
    (hshort : v.length ≤ maxHeaderValue) (hvalid : validUTF8 v = true)
    (hcontrol : hasControl v = false) (hbytes : d.totalHeaderBytes + v.length ≤ maxHeaderBytes) :
    Runs takeValue d v
      { d with plain := rest, totalHeaderBytes := d.totalHeaderBytes + v.length } := by
  have hwidth : maxHeaderValue < 256 ^ 4 := by decide
  rw [encodeValue, append_assoc] at hd
  refine .bind (runs_takeUint hd (by omega)) ?_
  refine runs_get_bind.2 ?_
  refine runs_require_bind.2 ⟨?_, ?_⟩
  · simp only [Bool.and_eq_true, decide_eq_true_eq, length_append]
    omega
  refine .bind (runs_take rfl rfl) ?_
  refine runs_require_bind.2 ⟨?_, ?_⟩
  · rw [hvalid, hcontrol]
    rfl
  exact runs_modify_bind.2 (runs_pure.2 ⟨rfl, rfl⟩)

theorem runs_takeValues (hd : d.plain = values.flatMap encodeValue ++ rest)
    (hshort : ∀ v ∈ values, v.length ≤ maxHeaderValue) (hvalid : ∀ v ∈ values, validUTF8 v = true)
    (hcontrol : ∀ v ∈ values, hasControl v = false)
    (hbytes : d.totalHeaderBytes + valueBytes values ≤ maxHeaderBytes) :
    Runs (takeValues values.length r) d (r ++ values)
      { d with plain := rest, totalHeaderBytes := d.totalHeaderBytes + valueBytes values } := by
  induction values generalizing d r with
  | nil =>
    refine runs_pure.2 ⟨(append_nil r).symm, ?_⟩
    rw [show rest = d.plain from hd.symm]
    rfl
  | cons v values ih =>
    rw [flatMap_cons, append_assoc] at hd
    rw [valueBytes, map_cons, sum_cons] at hbytes ⊢
    rw [forall_mem_cons] at hshort hvalid hcontrol
    have hv := runs_takeValue hd hshort.1 hvalid.1 hcontrol.1 (by omega)
    refine hv.bind ?_
    have hrest := ih (d := { d with
        plain := values.flatMap encodeValue ++ rest
        totalHeaderBytes := d.totalHeaderBytes + v.length }) (r := r ++ [v]) rfl
      hshort.2 hvalid.2 hcontrol.2 (by rw [valueBytes]; show _ + _ + _ ≤ _; omega)
    rw [append_assoc] at hrest
    rw [← Nat.add_assoc]
    exact hrest

theorem runs_takeHeader {h : Bytes × List Bytes} (hd : d.plain = encodeHeader h ++ rest)
    (hs : Storable h) (hnew : d.header.lookup h.1 = none)
    (hvalues : d.totalValues + h.2.length ≤ maxHeaderValues)
    (hbytes : d.totalHeaderBytes + headerBytes h ≤ maxHeaderBytes) :
    Runs takeHeader d ()
      { plain := rest, header := d.header.insert h.1 h.2,
        totalValues := d.totalValues + h.2.length,
        totalHeaderBytes := d.totalHeaderBytes + headerBytes h } := by
  have hshort := hs.name_short
  have hwidth : maxHeaderNameBytes < 256 ^ 2 ∧ maxHeaderValues < 256 ^ 2 := by decide
  have hne : h.1.length ≠ 0 := fun h0 => hs.name_ne_nil (length_eq_zero_iff.1 h0)
  rw [headerBytes] at hbytes
  simp only [encodeHeader, append_assoc] at hd
  -- the two lengths
  refine .bind (runs_takeUint hd (by omega)) ?_
  refine runs_require_bind.2 ⟨?_, ?_⟩
  · simp only [Bool.and_eq_true, bne_iff_ne, ne_eq, decide_eq_true_eq]
    exact ⟨hne, hshort⟩
  refine .bind (runs_takeUint rfl (by omega)) ?_
  refine runs_get_bind.2 ?_
  refine runs_require_bind.2 ⟨?_, ?_⟩
  · simp only [Bool.and_eq_true, decide_eq_true_eq]
    omega
  -- the name
  refine .bind (runs_take rfl rfl) ?_
  refine runs_require_bind.2 ⟨?_, ?_⟩
  · rw [hs.canonical, hs.name_control, hs.name_valid, beq_self_eq_true]
    rfl
  refine runs_require_bind.2 ⟨?_, ?_⟩
  · show (d.header.lookup h.1).isNone = true
    rw [hnew]
    rfl
  refine runs_require_bind.2 ⟨?_, ?_⟩
  · show decide (d.totalHeaderBytes ≤ maxHeaderBytes - h.1.length) = true
    exact decide_eq_true (by omega)
  refine runs_modify_bind.2 ?_
  -- the values
  have hread := runs_takeValues (r := []) (d := { d with
      plain := h.2.flatMap encodeValue ++ rest
      totalHeaderBytes := d.totalHeaderBytes + h.1.length }) rfl
    hs.value_short hs.value_valid hs.value_control (by show _ + _ + _ ≤ _; omega)
  refine hread.bind (runs_modify.2 ?_)
  rw [nil_append, headerBytes, ← Nat.add_assoc]

/-- Stored headers are read back, each into its place of the map. -/
theorem runs_takeHeaders (hd : d.plain = hs.flatMap encodeHeader ++ rest)
    (heach : ∀ h ∈ hs, Storable h) (hnames : (hs.map Prod.fst).Nodup)
    (hnew : ∀ h ∈ hs, d.header.lookup h.1 = none)
    (hvalues : d.totalValues + (hs.map fun h => h.2.length).sum ≤ maxHeaderValues)
    (hbytes : d.totalHeaderBytes + (hs.map headerBytes).sum ≤ maxHeaderBytes) :
    ∃ d', Runs (takeHeaders hs.length) d () d' ∧ d'.plain = rest ∧
      d'.header = Table.insertAll d.header hs := by
  induction hs generalizing d with
  | nil => exact ⟨d, runs_pure.2 ⟨rfl, rfl⟩, hd, rfl⟩
  | cons h hs ih =>
    rw [flatMap_cons, append_assoc] at hd
    rw [map_cons, sum_cons] at hvalues hbytes
    rw [map_cons, nodup_cons] at hnames
    have hfirst := runs_takeHeader hd (heach h mem_cons_self) (hnew h mem_cons_self)
      (by omega) (by omega)
    obtain ⟨d', hrest, hplain, hheader⟩ := ih (d := { d with
        plain := hs.flatMap encodeHeader ++ rest
        header := d.header.insert h.1 h.2
        totalValues := d.totalValues + h.2.length
        totalHeaderBytes := d.totalHeaderBytes + headerBytes h }) rfl
      (fun x hx => heach x (mem_cons_of_mem h hx)) hnames.2
      (fun x hx => by
        -- the name just read is none of the names to come
        have hne : x.1 ≠ h.1 := fun heq => hnames.1 (heq ▸ mem_map_of_mem hx)
        show (d.header.insert h.1 h.2).lookup x.1 = none
        rw [AList.lookup_insert_ne hne]
        exact hnew x (mem_cons_of_mem h hx))
      (by show _ + _ + _ ≤ _; omega) (by show _ + _ + _ ≤ _; omega)
    exact ⟨d', hfirst.bind hrest, hplain, hheader⟩

/-- A stored response is read back, whatever headers it has. -/
theorem runs_response {status : ℕ} {body : Bytes}
    (hd : d = { plain := ascii "HID1" ++ be 2 status ++ be 2 hs.length ++ be 4 body.length ++
      hs.flatMap encodeHeader ++ body }) (hstatus : 100 ≤ status ∧ status ≤ 599)
    (hs' : AllStorable hs) (hbody : body.length ≤ maxBodyBytes) :
    ∃ d', Runs response d { status := status, header := Table.insertAll ∅ hs, body := body } d' := by
  subst hd
  have hcount := hs'.count
  have hwidth : maxHeaderCount < 256 ^ 2 ∧ maxBodyBytes < 256 ^ 4 := by decide
  simp only [append_assoc]
  obtain ⟨d', hheaders, hplain, hheader⟩ := runs_takeHeaders
    (d := { plain := hs.flatMap encodeHeader ++ body })
    (show _ = _ ++ body from rfl) hs'.each hs'.names (fun _ _ => rfl)
    (by rw [Nat.zero_add]; exact hs'.values) (by rw [Nat.zero_add]; exact hs'.bytes)
  refine ⟨d', runs_get_bind.2 ?_⟩
  refine runs_require_bind.2 ⟨?_, ?_⟩
  · rw [show (4 : ℕ) = (ascii "HID1").length from rfl, take_left, beq_self_eq_true, Bool.and_true]
    have htag : (ascii "HID1").length = 4 := rfl
    simp only [length_append, be_length, decide_eq_true_eq, htag]
    omega
  refine .bind (runs_take rfl rfl) ?_
  refine .bind (runs_takeUint rfl (by omega)) ?_
  refine .bind (runs_takeUint rfl (by omega)) ?_
  refine .bind (runs_takeUint rfl (by omega)) ?_
  refine runs_require_bind.2 ⟨?_, ?_⟩
  · simp only [Bool.and_eq_true, decide_eq_true_eq]
    exact ⟨⟨hstatus, hcount⟩, hbody⟩
  refine hheaders.bind ?_
  refine runs_get_bind.2 ?_
  refine runs_require_bind.2 ⟨?_, ?_⟩
  · rw [hplain, beq_self_eq_true, Bool.true_and]
    exact decide_eq_true hbody
  rw [hplain, hheader]
  exact runs_pure.2 ⟨rfl, rfl⟩

/-! ### What the decoder accepts -/

variable {d' : Decoding}

theorem take_ok (h : Runs (take n) d front d') :
    front.length = n ∧ d = { d' with plain := front ++ d'.plain } := by
  simp only [take, runs_bind, runs_get, runs_check, runs_modify, runs_pure, decide_eq_true_eq] at h
  obtain ⟨_, _, ⟨rfl, rfl⟩, -, _, ⟨hn, rfl⟩, -, _, rfl, rfl, rfl⟩ := h
  refine ⟨length_take_of_le hn, ?_⟩
  show d = { d with plain := d.plain.take n ++ d.plain.drop n }
  rw [take_append_drop]

theorem takeUint_ok (h : Runs (takeUint n) d v d') :
    d = { d' with plain := be n v ++ d'.plain } := by
  obtain ⟨b, d₁, htake, hpure⟩ := runs_bind.1 h
  obtain ⟨rfl, rfl⟩ := runs_pure.1 hpure
  obtain ⟨rfl, hd⟩ := take_ok htake
  rw [be_ofBE]
  exact hd

/-- A value is read with its length in front of it. -/
theorem takeValue_ok {v : Bytes} (h : Runs takeValue d v d') :
    d.plain = encodeValue v ++ d'.plain ∧ d'.header = d.header := by
  simp only [takeValue, runs_bind, runs_get, runs_check, runs_modify, runs_pure] at h
  obtain ⟨n, d₁, hn, _, _, ⟨rfl, rfl⟩, -, _, ⟨-, rfl⟩, v, d₂, hv, -, _, ⟨-, rfl⟩, -, _, rfl, rfl, rfl⟩ := h
  obtain ⟨rfl, rfl⟩ := take_ok hv
  rw [takeUint_ok hn]
  exact ⟨rfl, rfl⟩

theorem takeValues_ok (h : Runs (takeValues n r) d values d') :
    ∃ vs, values = r ++ vs ∧ vs.length = n ∧ d.plain = vs.flatMap encodeValue ++ d'.plain ∧
      d'.header = d.header := by
  induction n generalizing d r with
  | zero =>
    obtain ⟨rfl, rfl⟩ := runs_pure.1 h
    exact ⟨[], (append_nil r).symm, rfl, rfl, rfl⟩
  | succ n ih =>
    obtain ⟨v, d₁, hv, hrest⟩ := runs_bind.1 h
    obtain ⟨vs, rfl, rfl, hplain, hheader⟩ := ih hrest
    obtain ⟨hfirst, hsame⟩ := takeValue_ok hv
    refine ⟨v :: vs, by simp, rfl, ?_, hheader.trans hsame⟩
    rw [hfirst, hplain, flatMap_cons, append_assoc]

/-- A header is read with its two lengths in front of it; its name is new. -/
theorem takeHeader_ok (h : Runs takeHeader d u d') :
    ∃ name values, d.plain = encodeHeader (name, values) ++ d'.plain ∧
      d.header.lookup name = none ∧ canonicalHeaderKey name = name ∧
      d'.header = d.header.insert name values := by
  simp only [takeHeader, runs_bind, runs_get, runs_check, runs_modify,
    Option.isNone_iff_eq_none, Bool.and_eq_true, beq_iff_eq] at h
  obtain ⟨n, d₁, hn, -, _, ⟨-, rfl⟩, k, d₂, hk, _, _, ⟨rfl, rfl⟩, -, _, ⟨-, rfl⟩, name, d₃, hname,
    -, _, ⟨⟨⟨hcanon, -⟩, -⟩, rfl⟩, -, _, ⟨hnew, rfl⟩, -, _, ⟨-, rfl⟩, -, _, rfl, values, d₄, hvalues,
    rfl⟩ := h
  obtain ⟨rfl, rfl⟩ := take_ok hname
  obtain ⟨_, rfl, rfl, hplain, hheader⟩ := takeValues_ok hvalues
  have hd := takeUint_ok hn
  rw [takeUint_ok hk] at hd
  refine ⟨name, values, ?_, ?_, hcanon, ?_⟩
  · rw [hd, encodeHeader, hplain]
    simp only [append_assoc]
  · rw [hd]
    exact hnew
  · rw [hd]
    exact congrArg (AList.insert name values) hheader

theorem takeHeaders_ok (h : Runs (takeHeaders n) d u d') :
    ∃ hs, hs.length = n ∧ d.plain = hs.flatMap encodeHeader ++ d'.plain ∧
      (∀ x ∈ hs, d.header.lookup x.1 = none ∧ canonicalHeaderKey x.1 = x.1) ∧
      (hs.map Prod.fst).Nodup ∧ d'.header = Table.insertAll d.header hs := by
  induction n generalizing d with
  | zero =>
    obtain ⟨-, rfl⟩ := runs_pure.1 h
    exact ⟨[], rfl, rfl, nofun, nodup_nil, rfl⟩
  | succ n ih =>
    obtain ⟨_, d₁, hfirst, hrest⟩ := runs_bind.1 h
    obtain ⟨hs, rfl, hplain, hnew, hnodup, hheader⟩ := ih hrest
    obtain ⟨name, values, hd, hfresh, hcanon, hd₁⟩ := takeHeader_ok hfirst
    have hother : ∀ x ∈ hs, x.1 ≠ name := by
      rintro x hx rfl
      have h := (hnew x hx).1
      rw [hd₁, AList.lookup_insert] at h
      cases h
    refine ⟨(name, values) :: hs, rfl, ?_, ?_, ?_, ?_⟩
    · rw [hd, hplain, flatMap_cons, append_assoc]
    · refine forall_mem_cons.2 ⟨⟨hfresh, hcanon⟩, fun x hx => ⟨?_, (hnew x hx).2⟩⟩
      have h := (hnew x hx).1
      rwa [hd₁, AList.lookup_insert_ne (hother x hx)] at h
    · rw [map_cons, nodup_cons]
      refine ⟨fun hmem => ?_, hnodup⟩
      obtain ⟨x, hx, heq⟩ := mem_map.1 hmem
      exact hother x hx heq
    · rw [hheader, hd₁]
      rfl

/-- What is read to its end is the tag, the lengths, the headers and the body. -/
theorem response_ok {r : IdempotencyResponse} (h : Runs response d r d') :
    ∃ hs, d.plain = ascii "HID1" ++ be 2 r.status.toNat ++ be 2 hs.length ++ be 4 r.body.length ++
        hs.flatMap encodeHeader ++ r.body ∧
      (hs.map Prod.fst).Nodup ∧ (∀ x ∈ hs, canonicalHeaderKey x.1 = x.1) ∧
      r.header = Table.insertAll d.header hs := by
  simp only [response, runs_bind, runs_get, runs_check, runs_pure, Bool.and_eq_true,
    beq_iff_eq, decide_eq_true_eq] at h
  obtain ⟨_, _, ⟨rfl, rfl⟩, -, _, ⟨⟨-, htag⟩, rfl⟩, tag, d₁, hfour, status, d₂, hstatus, count, d₃,
    hcount, len, d₄, hlen, -, _, ⟨-, rfl⟩, _, d₅, hheaders, _, _, ⟨rfl, rfl⟩, -, _, ⟨⟨rfl, -⟩, rfl⟩,
    rfl, rfl⟩ := h
  obtain ⟨hs, rfl, hplain, hcanon, hnodup, hheader⟩ := takeHeaders_ok hheaders
  obtain ⟨htaglen, hd⟩ := take_ok hfour
  rw [takeUint_ok hstatus, takeUint_ok hcount, takeUint_ok hlen] at hd
  have htagged : tag = ascii "HID1" := by
    rw [hd, ← htaglen, take_left] at htag
    exact htag
  refine ⟨hs, ?_, hnodup, fun x hx => (hcanon x hx).2, ?_⟩
  · rw [hd, hplain, htagged]
    rfl
  · rw [hd]
    exact hheader

end Decode

/-- **What was stored is read back**: the decoder accepts every encoding and
returns the response that was encoded. -/
theorem decode_of_encode {r : IdempotencyResponse} {plain : Bytes}
    (h : encodeIdempotencyResponse r = .ok plain) :
    ∃ r', decodeIdempotencyResponse plain = .ok r' ∧ r'.Same r := by
  simp only [encodeIdempotencyResponse, bind_ok, require_ok, pure_ok,
    Bool.and_eq_true, decide_eq_true_eq] at h
  obtain ⟨-, ⟨⟨hlow, hhigh⟩, hbody⟩, ⟨hs, n⟩, hnorm, -, -, -, -, rfl⟩ := h
  obtain ⟨hperm, hstorable⟩ := normalizeIdempotencyHeaders_ok hnorm
  obtain ⟨d', hrun⟩ := Decode.runs_response rfl (by omega : 100 ≤ r.status.toNat ∧ _) hstorable hbody
  have hdecode := congrArg (Except.map Prod.fst) hrun
  refine ⟨_, hdecode, ?_, ?_, rfl⟩
  · show (r.status.toNat : ℤ) = r.status
    omega
  · intro name
    -- the map that was read has the pairs that were written
    refine Option.ext fun values => ?_
    show (Table.insertAll ∅ hs).lookup name = some values ↔ _
    rw [lookup_insertAll_iff hstorable.names, hperm.mem_iff]
    simpa [Header.pairs] using mem_entries_iff

/-- **Stored responses decode to themselves**, and nothing else is accepted:
the encoding of a response is read back as that response, and a byte string
that is read is, to its last byte, the tag, status and lengths, the headers
in some order, each name once and canonical, and the body of the response it
is read as. -/
theorem stored_response_roundtrip :
    (∀ r plain, encodeIdempotencyResponse r = .ok plain →
      ∃ r', decodeIdempotencyResponse plain = .ok r' ∧ r'.Same r) ∧
    ∀ plain r, decodeIdempotencyResponse plain = .ok r →
      ∃ hs, plain = ascii "HID1" ++ be 2 r.status.toNat ++ be 2 hs.length ++ be 4 r.body.length ++
          hs.flatMap encodeHeader ++ r.body ∧
        (hs.map Prod.fst).Nodup ∧ (∀ x ∈ hs, canonicalHeaderKey x.1 = x.1) ∧
        r.header = Table.insertAll ∅ hs := by
  refine ⟨fun r plain h => decode_of_encode h, fun plain r h => ?_⟩
  rw [decodeIdempotencyResponse] at h
  rcases hrun : Decode.response.run { plain := plain } with e | ⟨r', d'⟩ <;> rw [hrun] at h
  · cases h
  · cases h
    exact Decode.response_ok hrun

end Hoorific
