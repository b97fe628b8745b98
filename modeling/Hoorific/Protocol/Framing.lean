/-
Server-sent events (`internal/protocol/framing/framing.go`): the writer and
the decoder.

An event is written as lines: its name and its identifier, if it has them, a
line for each line of its data, and an empty line.  The decoder reads lines
in fragments of a buffer, under a budget of bytes for each event, and
returns an event at the empty line.

  * `line_of_lf`, `line_of_eof`: a line is read whole, whatever fragments
    it is read in
  * `nextLoop_lines`: the fields of an event are gathered line by line
  * `next_wire`: what was written is returned
  * `next_cut`: what is cut off before its empty line is not
  * `framed_of_written`: events that are written are read as the frames of a
    protocol, whose decoder is given by what it makes of an event
-/
import Hoorific.Protocol.Events

namespace Hoorific.Protocol.Framing

open List Bytes

def lf : UInt8 := 0x0A
def cr : UInt8 := 0x0D
def colon : UInt8 := 0x3A
def space : UInt8 := 0x20

/-- The byte-order mark. -/
def bom : Bytes := [0xEF, 0xBB, 0xBF]

/-- `strings.TrimPrefix`. -/
def trimPrefix (p b : Bytes) : Bytes := if p.isPrefixOf b then b.drop p.length else b

/-- `strings.TrimSuffix`. -/
def trimSuffix (p b : Bytes) : Bytes := if p.isSuffixOf b then b.take (b.length - p.length) else b

/-! ### The reader -/

/-- The size of the buffer. -/
def bufferSize : ℕ := 4096

/-- What `ReadSlice` returns: a line, a full buffer, or the rest of the input. -/
inductive Slice where
  | line (part rest : Bytes)
  | full (part rest : Bytes)
  | eof (part : Bytes)

/-- `ReadSlice('\n')`. -/
def readSlice (r : Bytes) : Slice :=
  match cut lf (r.take bufferSize) with
  | some (part, _) => .line (part ++ [lf]) (r.drop (part.length + 1))
  | none =>
    if bufferSize ≤ r.length then .full (r.take bufferSize) (r.drop bufferSize)
    else .eof r

inductive FrameError where
  /-- `ErrFrameTooLarge` -/
  | tooLarge
  /-- `io.ErrUnexpectedEOF` -/
  | unexpectedEOF
  /-- invalid SSE event metadata -/
  | metadata
deriving DecidableEq

theorem readSlice_lt {r part rest : Bytes}
    (h : readSlice r = .line part rest ∨ readSlice r = .full part rest) : rest.length < r.length := by
  have hpos : 0 < bufferSize := by decide
  unfold readSlice at h
  split at h
  next a b hcut =>
    have hlen := congrArg List.length (cut_eq_some_iff.1 hcut).2
    simp only [length_take, length_append, length_cons] at hlen
    rcases h with h | h
    · cases h
      rw [length_drop]
      omega
    · cases h
  · split at h
    · rcases h with h | h
      · cases h
      · cases h
        rw [length_drop]
        omega
    · rcases h with h | h <;> cases h

/-- `line`: the bytes read, and what is left, or `none` at the end of the input.
The bound is checked before a fragment is added. -/
def line (limit : ℕ) (result r : Bytes) : Except FrameError (Bytes × Option Bytes) :=
  match _hslice : readSlice r with
  | .line part rest =>
    if limit < result.length + part.length then .error .tooLarge
    else .ok (result ++ part, some rest)
  | .full part rest =>
    if limit < result.length + part.length then .error .tooLarge
    else line limit (result ++ part) rest
  | .eof part =>
    if limit < result.length + part.length then .error .tooLarge
    else .ok (result ++ part, none)
termination_by r.length
decreasing_by exact readSlice_lt (.inr _hslice)

theorem line_rest_lt {limit : ℕ} {result r raw rest : Bytes}
    (h : line limit result r = .ok (raw, some rest)) : rest.length < r.length := by
  fun_induction line limit result r with
  | case1 result r part rest' hslice hlimit | case3 result r part rest' hslice hlimit
  | case5 result r part hslice hlimit | case6 result r part hslice hlimit => cases h
  | case2 result r part rest' hslice hlimit =>
    cases h
    exact readSlice_lt (.inl hslice)
  | case4 result r part rest' hslice hlimit ih => exact Nat.lt_trans (ih h) (readSlice_lt (.inr hslice))

/-! ### The decoder -/

structure SSEEvent where
  event : Bytes := []
  data : Bytes := []
  id : Bytes := []
deriving DecidableEq

structure SSEDecoder where
  reader : Bytes
  maximum : ℕ
  first : Bool := true

def defaultMaxEventBytes : ℕ := 2 ^ 20

def newSSEDecoder (r : Bytes) (maxBytes : Int) : SSEDecoder where
  reader := r
  maximum := if maxBytes ≤ 0 then defaultMaxEventBytes else maxBytes.toNat

/-- The variables of `Next`. -/
structure Gathered where
  event : SSEEvent := {}
  data : Bytes := []
  size : ℕ := 0
  hasData : Bool := false

/-- A field with its value. -/
def assign (g : Gathered) (field value : Bytes) : Gathered :=
  if field = ascii "data" then
    { g with data := (if g.hasData then g.data ++ [lf] else g.data) ++ value, hasData := true }
  else if field = ascii "event" then { g with event := { g.event with event := value } }
  else if field = ascii "id" then
    if 0 ∈ value then g else { g with event := { g.event with id := value } }
  else g

/-- A line that is not empty. -/
def gather (g : Gathered) (text : Bytes) : Gathered :=
  if [colon].isPrefixOf text then g
  else
    let (field, value) := (cut colon text).getD (text, [])
    assign g field (trimPrefix [space] value)

/-- The loop of `Next`. -/
def nextLoop (maximum : ℕ) (first : Bool) (g : Gathered) (r : Bytes) :
    Pulled SSEDecoder FrameError SSEEvent :=
  match _hline : line (maximum - g.size) [] r with
  | .error e => .failed e
  | .ok (raw, none) => if g.size ≠ 0 ∨ raw ≠ [] then .failed .unexpectedEOF else .eof
  | .ok (raw, some rest) =>
    let g := { g with size := g.size + raw.length }
    let text := trimSuffix [cr] (trimSuffix [lf] raw)
    let text := if first then trimPrefix bom text else text
    if text = [] then
      if g.hasData then .item { g.event with data := g.data } ⟨rest, maximum, false⟩
      else nextLoop maximum false {} rest
    else nextLoop maximum false (gather g text) rest
termination_by r.length
decreasing_by all_goals exact line_rest_lt _hline

def next (d : SSEDecoder) : Pulled SSEDecoder FrameError SSEEvent :=
  nextLoop d.maximum d.first {} d.reader

/-! ### The writer -/

/-- `strings.ReplaceAll(s, "\r\n", "\n")`. -/
def crlfToLF : Bytes → Bytes
  | 0x0D :: 0x0A :: s => lf :: crlfToLF s
  | c :: s => c :: crlfToLF s
  | [] => []

/-- The data as it is written: a carriage return ends a line, too. -/
def normalized (data : Bytes) : Bytes := (crlfToLF data).map fun c => if c = cr then lf else c

def dataLine (value : Bytes) : Bytes := ascii "data: " ++ value

/-- The lines of an event before its empty line. -/
def fieldLines (e : SSEEvent) : List Bytes :=
  (if e.event ≠ [] then [ascii "event: " ++ e.event] else []) ++
    (if e.id ≠ [] then [ascii "id: " ++ e.id] else []) ++
    ((normalized e.data).splitOn lf).map dataLine

/-- Lines, each with its end. -/
def terminated (lines : List Bytes) : Bytes := lines.flatMap (· ++ [lf])

def writeSSE (e : SSEEvent) : Except FrameError Bytes :=
  if (cr ∈ e.event ∨ lf ∈ e.event) ∨ cr ∈ e.id ∨ lf ∈ e.id ∨ 0 ∈ e.id then .error .metadata
  else .ok (terminated (fieldLines e) ++ [lf])

/-! ### Lines, whatever fragments they are read in -/

variable {limit maximum : ℕ} {first : Bool} {g : Gathered} {l rest result : Bytes}

theorem cut_eq_none (h : lf ∉ l) : cut lf l = none := if_neg h

/-- A line that is longer than the buffer is read on: what is left of it is
shorter. -/
theorem exists_line_short (hl : lf ∉ l) (tail : Bytes) (hlimit : result.length + l.length ≤ limit) :
    ∃ l₁ l₂, l = l₁ ++ l₂ ∧ l₂.length < bufferSize ∧
      line limit result (l ++ tail) = line limit (result ++ l₁) (l₂ ++ tail) := by
  induction hn : l.length using Nat.strongRecOn generalizing l result with
  | _ n ih =>
    by_cases hshort : l.length < bufferSize
    · exact ⟨[], l, rfl, hshort, by rw [append_nil]⟩
    have hlen : (l.take bufferSize).length = bufferSize := length_take_of_le (by omega)
    have hpos : 0 < bufferSize := by decide
    have hslice : readSlice (l ++ tail) = .full (l.take bufferSize) (l.drop bufferSize ++ tail) := by
      have hle : bufferSize ≤ l.length := by omega
      rw [readSlice, take_append_of_le_length hle, drop_append_of_le_length hle,
        cut_eq_none fun h => hl (mem_of_mem_take h)]
      exact if_pos (by rw [length_append]; omega)
    obtain ⟨l₁, l₂, hsplit, hl₂, hread⟩ := ih (l.drop bufferSize).length
      (by rw [length_drop]; omega) (fun h => hl (mem_of_mem_drop h))
      (show (result ++ l.take bufferSize).length + _ ≤ limit by
        rw [length_append, length_drop]; omega) rfl
    refine ⟨l.take bufferSize ++ l₁, l₂, ?_, hl₂, ?_⟩
    · rw [append_assoc, ← hsplit, take_append_drop]
    · rw [line, hslice]
      simp only [hlen]
      rw [if_neg (by omega), hread, append_assoc]

/-- A line with its end is read whole. -/
theorem line_of_lf (hl : lf ∉ l) (hlimit : result.length + l.length + 1 ≤ limit) :
    line limit result (l ++ lf :: rest) = .ok (result ++ (l ++ [lf]), some rest) := by
  have hroom : result.length + l.length ≤ limit := by omega
  obtain ⟨l₁, l₂, rfl, hshort, hread⟩ := exists_line_short hl (lf :: rest) hroom
  have hslice : readSlice (l₂ ++ lf :: rest) = .line (l₂ ++ [lf]) rest := by
    obtain ⟨k, hk⟩ : ∃ k, bufferSize - l₂.length = k + 1 := ⟨bufferSize - l₂.length - 1, by omega⟩
    rw [readSlice, take_append, take_of_length_le (Nat.le_of_lt hshort), hk, take_succ_cons,
      cut_append fun h => hl (mem_append_right l₁ h)]
    simp
  rw [hread, line, hslice]
  simp only [length_append, length_singleton] at hlimit ⊢
  rw [if_neg (by omega)]
  simp only [append_assoc]

/-- What is left without the end of a line is read whole. -/
theorem line_of_eof (hl : lf ∉ l) (hlimit : result.length + l.length ≤ limit) :
    line limit result l = .ok (result ++ l, none) := by
  obtain ⟨l₁, l₂, rfl, hshort, hread⟩ := exists_line_short hl [] hlimit
  have hslice : readSlice l₂ = .eof l₂ := by
    rw [readSlice, take_of_length_le (Nat.le_of_lt hshort),
      cut_eq_none fun h => hl (mem_append_right l₁ h)]
    exact if_neg (by omega)
  rw [append_nil, append_nil] at hread
  rw [hread, line, hslice]
  simp only [length_append] at hlimit ⊢
  rw [if_neg (by omega), append_assoc]

/-! ### Events, line by line -/

/-- A line that is read as it was written: it is not empty, and no mark and no
carriage return is taken from it. -/
structure Plain (l : Bytes) : Prop where
  ne_nil : l ≠ []
  lf : lf ∉ l
  cr : cr ∉ l
  mark : bom.isPrefixOf l = false

theorem trimSuffix_append (l p : Bytes) : trimSuffix p (l ++ p) = l := by
  rw [trimSuffix, if_pos (isSuffixOf_iff_suffix.2 (suffix_append l p)), length_append,
    Nat.add_sub_cancel, take_left]

theorem trimSuffix_cr (h : cr ∉ l) : trimSuffix [cr] l = l :=
  if_neg fun hs => h ((isSuffixOf_iff_suffix.1 hs).subset (mem_singleton_self cr))

/-- What a line adds, with the bytes of its end. -/
def gatherLine (g : Gathered) (l : Bytes) : Gathered :=
  gather { g with size := g.size + l.length + 1 } l

theorem size_gather (g : Gathered) (l : Bytes) : (gather g l).size = g.size := by
  have hassign : ∀ field value, (assign g field value).size = g.size := by
    intro field value
    unfold assign
    repeat' split
    all_goals rfl
  rw [gather]
  split
  · rfl
  · exact hassign _ _

theorem nextLoop_line (hl : Plain l) (hsize : g.size + l.length + 1 ≤ maximum) :
    nextLoop maximum first g (l ++ lf :: rest) = nextLoop maximum false (gatherLine g l) rest := by
  have hread : line (maximum - g.size) [] (l ++ lf :: rest) = .ok (l ++ [lf], some rest) :=
    line_of_lf hl.lf (by rw [length_nil]; omega)
  have hmark : trimPrefix bom l = l := if_neg (Bool.eq_false_iff.1 hl.mark)
  rw [nextLoop, hread]
  simp only [trimSuffix_append, trimSuffix_cr hl.cr, hmark, ite_self, if_neg hl.ne_nil]
  rw [gatherLine, length_append, length_singleton, Nat.add_assoc]

/-- **The fields of an event are gathered line by line.** -/
theorem nextLoop_lines {lines : List Bytes} (hplain : ∀ l ∈ lines, Plain l)
    (hsize : g.size + (terminated lines).length ≤ maximum) :
    ∃ first', nextLoop maximum first g (terminated lines ++ rest) =
        nextLoop maximum first' (lines.foldl gatherLine g) rest ∧
      (lines.foldl gatherLine g).size = g.size + (terminated lines).length := by
  induction lines generalizing g first with
  | nil => exact ⟨first, rfl, rfl⟩
  | cons l lines ih =>
    rw [terminated, flatMap_cons, length_append, length_append, length_singleton] at hsize ⊢
    have hnext : (gatherLine g l).size = g.size + l.length + 1 := size_gather _ l
    obtain ⟨first', hrun, hgathered⟩ := ih (forall_mem_cons.1 hplain).2
      (show (gatherLine g l).size + (terminated lines).length ≤ maximum by
        rw [terminated]; omega)
    refine ⟨first', ?_, ?_⟩
    · rw [append_assoc, append_assoc, singleton_append,
        nextLoop_line (hplain l mem_cons_self) (by omega)]
      exact hrun
    · rw [foldl_cons, hgathered, hnext, terminated]
      omega

/-- At the empty line the event is returned. -/
theorem nextLoop_blank (hdata : g.hasData = true) (hsize : g.size + 1 ≤ maximum) :
    nextLoop maximum first g (lf :: rest) = .item { g.event with data := g.data } ⟨rest, maximum, false⟩ := by
  have hread : line (maximum - g.size) [] ([] ++ lf :: rest) = .ok ([] ++ [lf], some rest) :=
    line_of_lf not_mem_nil (by rw [length_nil]; omega)
  rw [nil_append] at hread
  have hmark : trimPrefix bom [] = [] := rfl
  rw [nextLoop, hread]
  simp only [trimSuffix_append, trimSuffix_cr not_mem_nil, hmark, ite_self, if_pos hdata, if_true]

/-- Without the end of its line nothing is returned. -/
theorem nextLoop_eof (hl : lf ∉ l) (hsize : g.size + l.length ≤ maximum) (e : SSEEvent)
    (d : SSEDecoder) : nextLoop maximum first g l ≠ .item e d := by
  rw [nextLoop, line_of_eof hl (by rw [length_nil]; omega)]
  simp only
  split <;> exact nofun

/-- What is cut off before its empty line is not returned. -/
theorem nextLoop_cut {lines : List Bytes} (hplain : ∀ l ∈ lines, Plain l)
    (hsize : g.size + (terminated lines).length + 1 ≤ maximum) {p : Bytes}
    (hp : p <+: terminated lines ++ [lf]) (hcut : p ≠ terminated lines ++ [lf]) (e : SSEEvent)
    (d : SSEDecoder) : nextLoop maximum first g p ≠ .item e d := by
  induction lines generalizing g first p with
  | nil =>
    obtain rfl : p = [] := by
      rcases prefix_cons_iff.1 hp with rfl | ⟨t, rfl, ht⟩
      · rfl
      · rw [prefix_nil.1 ht] at hcut
        exact absurd rfl hcut
    exact nextLoop_eof not_mem_nil (by rw [length_nil]; omega) e d
  | cons l lines ih =>
    obtain ⟨hl, hlines⟩ := forall_mem_cons.1 hplain
    rw [terminated, flatMap_cons, append_assoc, append_assoc, singleton_append] at hp hcut
    rw [terminated, flatMap_cons, length_append, length_append, length_singleton] at hsize
    rcases Nat.lt_or_ge l.length p.length with hlong | hshort
    · -- the cut is after this line
      obtain ⟨q, rfl⟩ := prefix_of_prefix_length_le (prefix_append l _) hp (by omega)
      rw [prefix_append_right_inj] at hp
      rcases prefix_cons_iff.1 hp with rfl | ⟨t, rfl, ht⟩
      · simp at hlong
      have hnext : (gatherLine g l).size = g.size + l.length + 1 := size_gather _ l
      rw [nextLoop_line hl (by omega)]
      exact ih hlines (by rw [hnext, terminated]; omega) ht fun heq => hcut (by rw [heq]; rfl)
    · have hsub : p <+: l := prefix_of_prefix_length_le hp (prefix_append l _) hshort
      exact nextLoop_eof (fun h => hl.lf (hsub.subset h)) (by omega) e d

/-! ### What is written -/

theorem mem_splitOn {v : Bytes} (hv : v ∈ l.splitOn lf) : lf ∉ v ∧ ∀ c ∈ v, c ∈ l := by
  induction l generalizing v with
  | nil =>
    obtain rfl := mem_singleton.1 hv
    exact ⟨not_mem_nil, fun _ hc => hc⟩
  | cons c l ih =>
    rw [splitOn_cons_eq_if_modifyHead] at hv
    split at hv
    · rcases mem_cons.1 hv with rfl | hv
      · exact ⟨not_mem_nil, nofun⟩
      · exact ⟨(ih hv).1, fun x hx => mem_cons_of_mem c ((ih hv).2 x hx)⟩
    next hc =>
      -- the first part begins with the byte
      rcases hsplit : l.splitOn lf with - | ⟨v₀, vs⟩
      · exact absurd hsplit (splitOn_ne_nil lf l)
      rw [hsplit] at hv ih
      rcases mem_cons.1 hv with rfl | hv
      · obtain ⟨hlf, hsub⟩ := ih mem_cons_self
        refine ⟨?_, fun x hx => ?_⟩
        · rw [mem_cons, not_or]
          exact ⟨fun heq => hc (by simp [heq]), hlf⟩
        · rcases mem_cons.1 hx with rfl | hx
          · exact mem_cons_self
          · exact mem_cons_of_mem c (hsub x hx)
      · obtain ⟨hlf, hsub⟩ := ih (mem_cons_of_mem v₀ hv)
        exact ⟨hlf, fun x hx => mem_cons_of_mem c (hsub x hx)⟩

theorem cr_notMem_normalized (data : Bytes) : cr ∉ normalized data := by
  intro h
  obtain ⟨c, -, hc⟩ := mem_map.1 h
  split at hc
  · exact absurd hc (by decide)
  next hne => exact hne hc

/-- A line that begins with the name of a field is plain if its value is. -/
theorem plain_field {name value : Bytes}
    (hname : name ∈ [ascii "event: ", ascii "id: ", ascii "data: "])
    (hlf : lf ∉ value) (hcr : cr ∉ value) : Plain (name ++ value) := by
  have hnames : ∀ name ∈ [ascii "event: ", ascii "id: ", ascii "data: "],
      name ≠ [] ∧ lf ∉ name ∧ cr ∉ name ∧ name.head? ≠ some 0xEF := by decide
  obtain ⟨hne, hlf', hcr', hhead⟩ := hnames name hname
  obtain ⟨c, name, rfl⟩ := exists_cons_of_ne_nil hne
  refine ⟨cons_ne_nil _ _, ?_, ?_, ?_⟩
  · exact fun h => (mem_append.1 h).elim hlf' hlf
  · exact fun h => (mem_append.1 h).elim hcr' hcr
  · have hc : ¬ (0xEF : UInt8) = c := fun heq => hhead (heq ▸ rfl)
    simp [bom, List.isPrefixOf, hc]

/-- A field is found as it was written. -/
theorem gather_field (name value : Bytes) (hname : colon ∉ name) (hne : name ≠ []) :
    gather g (name ++ colon :: space :: value) = assign g name value := by
  obtain ⟨c, name, rfl⟩ := exists_cons_of_ne_nil hne
  have hc : ¬ colon = c := fun heq => hname (heq ▸ mem_cons_self)
  have hcomment : [colon].isPrefixOf (c :: name ++ colon :: space :: value) = false := by
    simp [List.isPrefixOf, hc]
  have htrim : trimPrefix [space] (space :: value) = value := by simp [trimPrefix, List.isPrefixOf]
  rw [gather, if_neg (Bool.eq_false_iff.1 hcomment), cut_append hname]
  simp only [Option.getD_some, htrim]

theorem gatherLine_data (g : Gathered) (v : Bytes) : gatherLine g (dataLine v) =
    { g with
      data := (if g.hasData then g.data ++ [lf] else g.data) ++ v
      hasData := true
      size := g.size + (dataLine v).length + 1 } :=
  gather_field (ascii "data") v (by decide) (by decide)

theorem gathered_data (values : List Bytes) (h : g.hasData = true) :
    ((values.map dataLine).foldl gatherLine g).hasData = true ∧
      ((values.map dataLine).foldl gatherLine g).event = g.event ∧
      ((values.map dataLine).foldl gatherLine g).data = g.data ++ values.flatMap (lf :: ·) := by
  induction values generalizing g with
  | nil => exact ⟨h, rfl, (append_nil _).symm⟩
  | cons v values ih =>
    rw [map_cons, foldl_cons, gatherLine_data, if_pos h]
    obtain ⟨hdata, hevent, htext⟩ := ih (g := { g with
      data := g.data ++ [lf] ++ v, hasData := true, size := g.size + (dataLine v).length + 1 }) rfl
    refine ⟨hdata, hevent, htext.trans ?_⟩
    simp

theorem intercalate_lf (v : Bytes) (values : List Bytes) :
    [lf].intercalate (v :: values) = v ++ values.flatMap (lf :: ·) := by
  induction values generalizing v with
  | nil => simp [List.intercalate]
  | cons w values ih =>
    have hw := ih w
    simp [hw]

variable {e : SSEEvent}

/-- The lines of an event gather the event. -/
theorem gathered_fields (hid : 0 ∉ e.id) :
    ((fieldLines e).foldl gatherLine {}).hasData = true ∧
      { ((fieldLines e).foldl gatherLine {}).event with
        data := ((fieldLines e).foldl gatherLine {}).data } = { e with data := normalized e.data } := by
  rw [fieldLines, foldl_append, foldl_append]
  -- the name
  have hevent : ∃ size, (if e.event ≠ [] then [ascii "event: " ++ e.event] else []).foldl gatherLine {} =
      ({ event := { event := e.event }, size := size } : Gathered) := by
    split
    · exact ⟨_, gather_field (ascii "event") e.event (by decide) (by decide)⟩
    next h => exact ⟨0, by rw [not_not.1 h]; rfl⟩
  obtain ⟨size, hevent⟩ := hevent
  -- the identifier
  have hident : ∃ size', (if e.id ≠ [] then [ascii "id: " ++ e.id] else []).foldl gatherLine
      { event := { event := e.event }, size := size } =
        ({ event := { event := e.event, id := e.id }, size := size' } : Gathered) := by
    split
    · exact ⟨size + (ascii "id: " ++ e.id).length + 1,
        (gather_field (ascii "id") e.id (by decide) (by decide)).trans (if_neg hid)⟩
    next h => exact ⟨size, by rw [not_not.1 h]; rfl⟩
  obtain ⟨size', hident⟩ := hident
  rw [hevent, hident]
  -- the data
  have htext : [lf].intercalate ((normalized e.data).splitOn lf) = normalized e.data :=
    intercalate_splitOn lf
  rcases hsplit : (normalized e.data).splitOn lf with - | ⟨v, values⟩
  · exact absurd hsplit (splitOn_ne_nil lf _)
  rw [hsplit, intercalate_lf] at htext
  have hfirst : gatherLine { event := { event := e.event, id := e.id }, size := size' } (dataLine v) =
      { event := { event := e.event, id := e.id }, data := v, hasData := true
        size := size' + (dataLine v).length + 1 } := gatherLine_data _ v
  rw [map_cons, foldl_cons, hfirst]
  obtain ⟨hdata, hsame, hall⟩ := gathered_data values (g := {
    event := { event := e.event, id := e.id }, data := v, hasData := true
    size := size' + (dataLine v).length + 1 }) rfl
  exact ⟨hdata, by rw [hsame, hall, htext]⟩

theorem plain_fieldLines (hevent : cr ∉ e.event ∧ lf ∉ e.event)
    (hid : cr ∉ e.id ∧ lf ∉ e.id) : ∀ l ∈ fieldLines e, Plain l := by
  intro l hl
  simp only [fieldLines, mem_append, mem_map] at hl
  rcases hl with (hl | hl) | ⟨v, hv, rfl⟩
  · split at hl
    · obtain rfl := mem_singleton.1 hl
      exact plain_field (by decide) hevent.2 hevent.1
    · cases hl
  · split at hl
    · obtain rfl := mem_singleton.1 hl
      exact plain_field (by decide) hid.2 hid.1
    · cases hl
  · obtain ⟨hlf, hsub⟩ := mem_splitOn hv
    exact plain_field (by decide) hlf fun h => cr_notMem_normalized _ (hsub cr h)

/-- What is written: plain lines that gather the event, and the empty line. -/
theorem writeSSE_ok {w : Bytes} (h : writeSSE e = .ok w) :
    w = terminated (fieldLines e) ++ [lf] ∧ (∀ l ∈ fieldLines e, Plain l) ∧ 0 ∉ e.id := by
  unfold writeSSE at h
  split at h
  · cases h
  next hok =>
    cases h
    push Not at hok
    exact ⟨rfl, plain_fieldLines hok.1 ⟨hok.2.1, hok.2.2.1⟩, hok.2.2.2⟩

/-- **What was written is returned.** -/
theorem next_wire {w : Bytes} (h : writeSSE e = .ok w) (hfit : w.length ≤ maximum) :
    next ⟨w ++ rest, maximum, first⟩ =
      .item { e with data := normalized e.data } ⟨rest, maximum, false⟩ := by
  obtain ⟨rfl, hplain, hid⟩ := writeSSE_ok h
  rw [length_append, length_singleton] at hfit
  obtain ⟨hdata, hevent⟩ := gathered_fields hid
  obtain ⟨first', hrun, hsize⟩ := nextLoop_lines (g := {}) hplain
    (show 0 + (terminated (fieldLines e)).length ≤ maximum by omega)
  rw [next, append_assoc, singleton_append, hrun,
    nextLoop_blank hdata (by rw [hsize]; show 0 + _ + 1 ≤ _; omega), hevent]

/-- **What is cut off before its empty line is not returned.** -/
theorem next_cut {w p : Bytes} (h : writeSSE e = .ok w) (hfit : w.length ≤ maximum)
    (hp : p <+: w) (hcut : p ≠ w) (e' : SSEEvent) (d : SSEDecoder) :
    next ⟨p, maximum, first⟩ ≠ .item e' d := by
  obtain ⟨rfl, hplain, -⟩ := writeSSE_ok h
  rw [length_append, length_singleton] at hfit
  exact nextLoop_cut hplain (show 0 + _ + 1 ≤ maximum by omega) hp hcut e' d

/-! ### Streams -/

/-- The event as it is returned. -/
def SSEEvent.returned (e : SSEEvent) : SSEEvent := { e with data := normalized e.data }

theorem pulls_wires {maximum : ℕ} {events : List SSEEvent} {wires : List Bytes}
    (hwires : List.Forall₂ (fun e w => writeSSE e = .ok w) events wires)
    (hfit : ∀ w ∈ wires, w.length ≤ maximum) (first : Bool) :
    Pulls next ⟨wires.flatten, maximum, first⟩ (events.map SSEEvent.returned) := by
  induction hwires generalizing first with
  | nil =>
    refine .eof ?_
    show nextLoop maximum first {} [] = .eof
    rw [nextLoop, line_of_eof not_mem_nil (Nat.zero_le _)]
    rfl
  | cons hw _ ih =>
    obtain ⟨hlast, hrest⟩ := forall_mem_cons.1 hfit
    exact .item (next_wire hw hlast) (ih hrest false)

/-- **Framing round trip.**  Of events that are accepted and within the limit of
the decoder, the encodings one after the other are read back as the events,
and then as the end of the input.  Of a proper prefix the events whose
encoding is in it are read back, and then none. -/
theorem sse_roundtrip {maxBytes : Int} {events : List SSEEvent} {wires : List Bytes}
    (hwires : List.Forall₂ (fun e w => writeSSE e = .ok w) events wires)
    (hfit : ∀ w ∈ wires, w.length ≤ (newSSEDecoder [] maxBytes).maximum) :
    Pulls next (newSSEDecoder wires.flatten maxBytes) (events.map SSEEvent.returned) ∧
      ∀ p, p <+: wires.flatten → p ≠ wires.flatten →
        ∃ k, (wires.take k).flatten <+: p ∧
          Emits next (newSSEDecoder p maxBytes) ((events.take k).map SSEEvent.returned) := by
  generalize hmaximum : (newSSEDecoder [] maxBytes).maximum = maximum at hfit
  suffices h : ∀ first p, p <+: wires.flatten → p ≠ wires.flatten →
      ∃ k, (wires.take k).flatten <+: p ∧
        Emits next ⟨p, maximum, first⟩ ((events.take k).map SSEEvent.returned) by
    subst hmaximum
    exact ⟨pulls_wires hwires hfit true, h true⟩
  induction hwires with
  | nil => exact fun first p hp hcut => absurd (prefix_nil.1 hp) hcut
  | @cons e w events wires hw hwires ih =>
    obtain ⟨hfirst, hrest⟩ := forall_mem_cons.1 hfit
    rw [flatten_cons]
    intro first p hp hcut
    rcases Nat.lt_or_ge p.length w.length with hshort | hlong
    · -- the cut is in the first encoding
      have hsub : p <+: w := prefix_of_prefix_length_le hp (prefix_append w _) (by omega)
      refine ⟨0, nil_prefix, .stop (next_cut hw hfirst hsub ?_)⟩
      rintro rfl
      omega
    · obtain ⟨q, rfl⟩ := prefix_of_prefix_length_le (prefix_append w _) hp hlong
      rw [prefix_append_right_inj] at hp
      obtain ⟨k, hk, hemits⟩ := ih hrest false q hp fun heq => hcut (by rw [heq])
      refine ⟨k + 1, ?_, .item (next_wire hw hfirst) hemits⟩
      rw [take_succ_cons, flatten_cons, prefix_append_right_inj]
      exact hk

/-- An event of two lines of data, in a decoder without a limit of its own. -/
def greeting : SSEEvent := { event := ascii "delta", data := ascii "a" ++ [cr, lf] ++ ascii "b" }

theorem greeting_roundtrip :
    Pulls next (newSSEDecoder [terminated (fieldLines greeting) ++ [lf]].flatten 0)
      [greeting.returned] ∧ greeting.returned.data = ascii "a" ++ [lf] ++ ascii "b" :=
  ⟨(sse_roundtrip (.cons rfl .nil) (by decide)).1, by decide⟩

/-! ### The frames of a protocol -/

/-- The error of the reader, as a decoder returns it. -/
def FrameError.failure : FrameError → StreamFailure
  | .tooLarge => .plain "protocol frame exceeds configured limit"
  | .unexpectedEOF => .unexpectedEOF
  | .metadata => .plain "invalid SSE event metadata"

/-- The frames a decoder is given: one for each event, and one for an error. -/
inductive Framed {φ : Type} (frame : SSEEvent → φ) (failed : StreamFailure → φ) :
    SSEDecoder → List φ → Prop
  | eof {d : SSEDecoder} (h : next d = .eof) : Framed frame failed d []
  | failed {d : SSEDecoder} {err : FrameError} (h : next d = .failed err) :
    Framed frame failed d [failed err.failure]
  | event {d d' : SSEDecoder} {e : SSEEvent} {l : List φ} (h : next d = .item e d')
      (rest : Framed frame failed d' l) : Framed frame failed d (frame e :: l)

/-- **Events that are written are read as their frames**, whatever the protocol. -/
theorem framed_of_written {φ : Type} (frame : SSEEvent → φ) (failed : StreamFailure → φ)
    {maxBytes : Int} {events : List SSEEvent} {wires : List Bytes}
    (hwires : List.Forall₂ (fun e w => writeSSE e = .ok w) events wires)
    (hfit : ∀ w ∈ wires, w.length ≤ (newSSEDecoder [] maxBytes).maximum) :
    Framed frame failed (newSSEDecoder wires.flatten maxBytes)
      (events.map fun e => frame e.returned) := by
  have hframed : ∀ {d l}, Pulls next d l → Framed frame failed d (l.map frame) := by
    intro d l h
    induction h with
    | eof h => exact .eof h
    | item h _ ih => exact .event h ih
  have hpulls := hframed (pulls_wires hwires hfit true)
  rw [map_map] at hpulls
  exact hpulls

end Hoorific.Protocol.Framing
