/-
The fingerprint that ties an idempotency key to a request.  A request is
written to SHA-256 as a sequence of frames, and each frame is its kind, the
length of its data in eight bytes and the data.  So the text can be cut
into its frames again, and the frames into the request: a list is preceded
by its length, and the form of a body by its name.

A request stands for what the source reads from it: the escaped path, the
encoded query, and the header in the order in which its map is ranged over.
A spooled body is what reading it to the end gives, `none` if it cannot be
read.  Left out: the hexadecimal digits in which the sum is returned.
-/
import Hoorific.Lib.Crypto
import Mathlib.Data.List.Sort
import Mathlib.Data.List.Dedup

namespace Hoorific.Gateway

open List Bytes

/-! ### Frames -/

/-- What `fingerprintRequest` writes between two boundaries. -/
inductive Frame where
  | string (value : Bytes)
  | bytes (value : Bytes)
  | count (n : ℕ)
  | digest (value : Bytes)

namespace Frame

/-- `fingerprintString`, `fingerprintBytes`, `fingerprintCount`, `fingerprintDigest`. -/
def kind : Frame → UInt8
  | string _ => 1 | bytes _ => 2 | count _ => 3 | digest _ => 4

def data : Frame → Bytes
  | string value | bytes value | digest value => value
  | count n => be 8 n

/-- `frame`. -/
def encode (f : Frame) : Bytes := f.kind :: (be 8 f.data.length ++ f.data)

/-- Lengths and counts are `int`s. -/
def Fits : Frame → Prop
  | string value | bytes value | digest value => value.length < 2 ^ 63
  | count n => n < 2 ^ 63

instance : DecidablePred Fits := fun f => by
  cases f <;> exact inferInstanceAs (Decidable (_ < _))

theorem be_inj_of_int {v w : ℕ} (hv : v < 2 ^ 63) (hw : w < 2 ^ 63) (h : be 8 v = be 8 w) : v = w :=
  have hbound : (2 : ℕ) ^ 63 ≤ 256 ^ 8 := by decide
  be_inj (hv.trans_le hbound) (hw.trans_le hbound) h

theorem Fits.data {f : Frame} (h : f.Fits) : f.data.length < 2 ^ 63 := by
  cases f with
  | count => exact (be_length _ _).trans_lt (by decide)
  | _ => exact h

/-- A frame can be cut off the front of a text. -/
theorem encode_append_inj {f f' : Frame} {r r' : Bytes} (hf : f.Fits) (hf' : f'.Fits)
    (h : f.encode ++ r = f'.encode ++ r') : f = f' ∧ r = r' := by
  simp only [encode, cons_append, append_assoc, List.cons.injEq] at h
  have hsplit := append_inj h.2 (by rw [be_length, be_length])
  obtain ⟨hdata, hr⟩ := append_inj hsplit.2 (be_inj_of_int hf.data hf'.data hsplit.1)
  refine ⟨?_, hr⟩
  -- different kinds are different bytes
  cases f <;> cases f' <;> first | exact absurd h.1 (of_decide_eq_false rfl) | skip
  case count.count => exact congrArg count (be_inj_of_int hf hf' hdata)
  all_goals exact congrArg _ hdata

end Frame

/-- A text can be cut into its frames. -/
theorem frames_injective {l l' : List Frame} (hl : ∀ f ∈ l, f.Fits) (hl' : ∀ f ∈ l', f.Fits)
    (h : l.flatMap Frame.encode = l'.flatMap Frame.encode) : l = l' := by
  induction l generalizing l' with
  | nil =>
    cases l' with
    | nil => rfl
    | cons => cases h
  | cons f l ih =>
    cases l' with
    | nil => cases h
    | cons f' l' =>
      rw [forall_mem_cons] at hl hl'
      obtain ⟨rfl, hrest⟩ := Frame.encode_append_inj hl.1 hl'.1 h
      rw [ih hl.2 hl'.2 hrest]

/-! ### Requests -/

/-- `transport.MultipartPart`: a field with its value, or a spooled file. -/
structure MultipartPart where
  name : Bytes
  filename : Bytes
  contentType : Bytes
  contents : Bytes ⊕ Option Bytes

/-- The raw bytes or the spooled body, or the captured parts. -/
inductive CapturedBody where
  | whole (contents : Bytes ⊕ Option Bytes)
  | multipart (parts : List MultipartPart)

structure FingerprintedRequest where
  method : Bytes
  escapedPath : Bytes
  query : Bytes
  header : List (Bytes × List Bytes)
  body : CapturedBody

section

variable (c : Crypto) (lower : Bytes → Bytes) (header : List (Bytes × List Bytes))

def frameBody (body : Option Bytes) : Option Frame :=
  body.map fun b => .digest (be 8 b.length ++ c.digest b)

/-- Contents in memory are written out, spooled contents as their sum, each
after the name of its form. -/
def contentsFrames (memory spooled : Bytes) : Bytes ⊕ Option Bytes → Option (List Frame)
  | .inl value => some [.string memory, .bytes value]
  | .inr body => (frameBody c body).map fun sum => [.string spooled, sum]

def MultipartPart.frames (p : MultipartPart) : Option (List Frame) :=
  (contentsFrames c (ascii "field") (ascii "file") p.contents).map fun contents =>
    .string p.name :: .string p.filename :: .string p.contentType :: contents

def CapturedBody.frames : CapturedBody → Option (List Frame)
  | whole contents => contentsFrames c (ascii "raw") (ascii "binary") contents
  | multipart parts =>
    (counted .count (MultipartPart.frames c) parts).map (.string (ascii "multipart") :: ·)

/-- The headers that are not part of a fingerprint. -/
def unfingerprinted : List Bytes :=
  ["authorization", "x-api-key", "x-goog-api-key", "cookie", "idempotency-key",
    "x-request-id"].map ascii

/-- `headerValues` of the name. -/
def headerValues (name : Bytes) : List Bytes :=
  (header.filter fun e => lower e.1 == name).flatMap Prod.snd

/-- `keys`. -/
def headerKeys : List Bytes :=
  (((header.map fun e => lower e.1).filter fun name => name ∉ unfingerprinted).dedup).insertionSort
    fun a b => Bytes.le a b

/-- The names with their values, both sorted. -/
def headerEntries : List (Bytes × List Bytes) :=
  (headerKeys lower header).map fun key =>
    (key, (headerValues lower header key).insertionSort fun a b => Bytes.le a b)

def headerFrames (e : Bytes × List Bytes) : Option (List Frame) :=
  (counted .count (fun value => some [.string value]) e.2).map (.string e.1 :: ·)

def FingerprintedRequest.frames (r : FingerprintedRequest) : Option (List Frame) := do
  let header ← counted .count headerFrames (headerEntries lower r.header)
  let body ← r.body.frames c
  pure (.string r.method :: .string r.escapedPath :: .string r.query ::
    (header ++ .string (ascii "body") :: body))

def fingerprintRequest (r : FingerprintedRequest) : Option Bytes := do
  let frames ← r.frames c lower
  pure (c.digest (ascii "hoorific/idempotency-fingerprint/v2" ++ 0 :: frames.flatMap Frame.encode))

/-- Lengths are `int`s: those of the strings, of the slices and of the sums. -/
def FingerprintedRequest.Sized (r : FingerprintedRequest) : Prop :=
  ∀ frames ∈ r.frames c lower, ∀ f ∈ frames, f.Fits

instance (r : FingerprintedRequest) : Decidable (r.Sized c lower) :=
  inferInstanceAs (Decidable (∀ frames ∈ r.frames c lower, ∀ f ∈ frames, f.Fits))

/-- What equal fingerprints say of two requests. -/
structure FingerprintedRequest.Same (r r' : FingerprintedRequest) : Prop where
  method : r.method = r'.method
  escapedPath : r.escapedPath = r'.escapedPath
  query : r.query = r'.query
  header : ∀ name ∉ unfingerprinted,
    (headerValues lower r.header name).Perm (headerValues lower r'.header name)
  body : r.body = r'.body

theorem headerValues_eq_nil_or_mem {name : Bytes} (hname : name ∉ unfingerprinted) :
    headerValues lower header name = [] ∨
      (name, (headerValues lower header name).insertionSort fun a b => Bytes.le a b) ∈
        headerEntries lower header := by
  by_cases hkey : ∃ e ∈ header, lower e.1 = name
  · refine .inr (mem_map.2 ⟨name, ?_, rfl⟩)
    simpa [headerKeys, hname] using hkey
  refine .inl ?_
  have hnone : (header.filter fun e => lower e.1 == name) = [] := by
    simpa [filter_eq_nil_iff] using hkey
  rw [headerValues, hnone, flatMap_nil]

variable {c lower header}

theorem frameBody_inj {a b : Option Bytes} {f : Frame} (ha : frameBody c a = some f)
    (hb : frameBody c b = some f) : a = b := by
  obtain ⟨x, rfl, rfl⟩ := Option.map_eq_some_iff.1 ha
  obtain ⟨y, rfl, h⟩ := Option.map_eq_some_iff.1 hb
  have hsum := (append_inj (Frame.digest.inj h) (by rw [be_length, be_length])).2
  rw [c.digest_injective hsum]

theorem count_injective : Function.Injective Frame.count := fun _ _ => Frame.count.inj

theorem delimits_headerFrames : Delimits headerFrames := by
  rintro ⟨name, values⟩ ⟨name', values'⟩ _ _ r s hx hy h
  obtain ⟨x, hvalues, rfl⟩ := Option.map_eq_some_iff.1 hx
  obtain ⟨y, hvalues', rfl⟩ := Option.map_eq_some_iff.1 hy
  have hvalue : Delimits fun value => some [Frame.string value] := by
    rintro a b _ _ r s ⟨⟩ ⟨⟩ h
    simpa using h
  simp only [cons_append, List.cons.injEq, Frame.string.injEq] at h
  obtain ⟨rfl, hr⟩ := hvalue.counted count_injective hvalues hvalues' h.2
  exact ⟨congrArg (·, values) h.1, hr⟩

theorem delimits_contentsFrames {memory spooled : Bytes} (hne : memory ≠ spooled) :
    Delimits (contentsFrames c memory spooled) := by
  rintro (a | a) (b | b) _ _ r s hx hy h
  · cases hx
    cases hy
    simpa using h
  · obtain ⟨sum, -, rfl⟩ := Option.map_eq_some_iff.1 hy
    cases hx
    exact absurd (Frame.string.inj (List.cons.inj h).1) hne
  · obtain ⟨sum, -, rfl⟩ := Option.map_eq_some_iff.1 hx
    cases hy
    exact absurd (Frame.string.inj (List.cons.inj h).1).symm hne
  · obtain ⟨sum, hsum, rfl⟩ := Option.map_eq_some_iff.1 hx
    obtain ⟨sum', hsum', rfl⟩ := Option.map_eq_some_iff.1 hy
    obtain ⟨rfl, hr⟩ : sum = sum' ∧ r = s := by simpa using h
    exact ⟨congrArg _ (frameBody_inj hsum hsum'), hr⟩

theorem delimits_part : Delimits (MultipartPart.frames c) := by
  rintro ⟨name, filename, contentType, contents⟩ ⟨name', filename', contentType', contents'⟩
    _ _ r s hx hy h
  obtain ⟨x, hcontents, rfl⟩ := Option.map_eq_some_iff.1 hx
  obtain ⟨y, hcontents', rfl⟩ := Option.map_eq_some_iff.1 hy
  simp only [cons_append, List.cons.injEq, Frame.string.injEq] at h
  obtain ⟨hname, hfilename, htype, h⟩ := h
  obtain ⟨rfl, hr⟩ := delimits_contentsFrames (by decide) hcontents hcontents' h
  simp only [hname, hfilename, htype, hr, and_self]

theorem bodyFrames_inj {b b' : CapturedBody} {x : List Frame} (hx : b.frames c = some x)
    (hx' : b'.frames c = some x) : b = b' := by
  have hform : ∀ {contents parts y}, contentsFrames c (ascii "raw") (ascii "binary") contents = some y →
      (CapturedBody.multipart parts).frames c ≠ some y := by
    intro contents parts y hy hparts
    obtain ⟨z, -, rfl⟩ := Option.map_eq_some_iff.1 hparts
    cases contents with
    | inl => cases hy
    | inr =>
      obtain ⟨sum, -, hy⟩ := Option.map_eq_some_iff.1 hy
      cases hy
  cases b with
  | whole contents =>
    cases b' with
    | whole contents' =>
      rw [(delimits_contentsFrames (by decide) hx hx' (rfl : x ++ [] = x ++ [])).1]
    | multipart parts => exact absurd hx' (hform hx)
  | multipart parts =>
    cases b' with
    | whole contents => exact absurd hx (hform hx')
    | multipart parts' =>
      obtain ⟨y, hy, rfl⟩ := Option.map_eq_some_iff.1 hx
      obtain ⟨z, hz, h⟩ := Option.map_eq_some_iff.1 hx'
      rw [(delimits_part.counted count_injective hy hz
        (congrArg (· ++ []) (List.cons.inj h).2.symm)).1]

theorem perm_of_mem_headerEntries {name : Bytes} {values : List Bytes}
    (h : (name, values) ∈ headerEntries lower header) :
    values.Perm (headerValues lower header name) := by
  obtain ⟨key, -, h⟩ := mem_map.1 h
  cases h
  exact perm_insertionSort _ _

theorem headerValues_perm {header' : List (Bytes × List Bytes)}
    (h : headerEntries lower header = headerEntries lower header') {name : Bytes}
    (hname : name ∉ unfingerprinted) :
    (headerValues lower header name).Perm (headerValues lower header' name) := by
  rcases headerValues_eq_nil_or_mem lower header hname with hnil | hmem
  · rcases headerValues_eq_nil_or_mem lower header' hname with hnil' | hmem
    · rw [hnil, hnil']
    · exact ((perm_insertionSort _ _).symm.trans (perm_of_mem_headerEntries (h ▸ hmem))).symm
  · exact (perm_insertionSort _ _).symm.trans (perm_of_mem_headerEntries (h ▸ hmem))

end

/-- **Fingerprints do not collide**: requests with one fingerprint have the
same method, path and query, the same values under every header name that
is not left out, and the same body. -/
theorem fingerprint_determines_request (c : Crypto) (lower : Bytes → Bytes)
    (r r' : { r : FingerprintedRequest // r.Sized c lower }) (value : Bytes)
    (h : fingerprintRequest c lower r = some value)
    (h' : fingerprintRequest c lower r' = some value) : r.1.Same lower r' := by
  obtain ⟨⟨r, hr⟩, r', hr'⟩ := r, r'
  simp only [fingerprintRequest, Option.bind_eq_bind, Option.bind_eq_some_iff, Option.pure_def,
    Option.some.injEq] at h h'
  obtain ⟨frames, hframes, rfl⟩ := h
  obtain ⟨frames', hframes', h⟩ := h'
  have htext := append_cancel_left (c.digest_injective h)
  have hall := frames_injective (hr' _ hframes') (hr _ hframes) (List.cons.inj htext).2
  subst hall
  simp only [FingerprintedRequest.frames, Option.bind_eq_bind, Option.bind_eq_some_iff,
    Option.pure_def, Option.some.injEq] at hframes hframes'
  obtain ⟨header, hheader, body, hbody, rfl⟩ := hframes
  obtain ⟨header', hheader', body', hbody', h⟩ := hframes'
  simp only [List.cons.injEq, Frame.string.injEq] at h
  obtain ⟨hmethod, hpath, hquery, h⟩ := h
  obtain ⟨hentries, h⟩ := delimits_headerFrames.counted count_injective hheader' hheader h
  cases (List.cons.inj h).2
  exact {
    method := hmethod.symm
    escapedPath := hpath.symm
    query := hquery.symm
    header := fun name hname => headerValues_perm hentries.symm hname
    body := bodyFrames_inj hbody hbody' }

/-- A request with a captured part and two headers, one of them left out. -/
def upload (header : List (Bytes × List Bytes)) : FingerprintedRequest where
  method := ascii "POST"
  escapedPath := ascii "/v1/files"
  query := []
  header := header
  body := .multipart [⟨ascii "file", ascii "a.txt", [], .inr (some [1, 2])⟩]

/-- Values in another order and another credential give the same fingerprint. -/
theorem reordered_upload_same :
    (upload [([120], [[1], [2]])]).Same id
      (upload [([120], [[2], [1]]), (ascii "cookie", [[3]])]) := by
  obtain ⟨value, h⟩ := Option.isSome_iff_exists.1 (show (fingerprintRequest Crypto.transparent id
    (upload [([120], [[1], [2]])])).isSome from by decide +kernel)
  refine fingerprint_determines_request .transparent id ⟨_, by decide +kernel⟩
    ⟨_, by decide +kernel⟩ value h ?_
  rw [← h]
  decide +kernel

end Hoorific.Gateway
