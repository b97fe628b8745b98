/-
Streams of the Messages protocol between its own parties.

A provider may send keep-alives (`event: ping`) between any two frames.  The
decoder has no case for them: it refuses a name it does not know, so a stream
with keep-alives is read like the stream without them exactly if they come
after the frame that ends it.

A client can read what the encoder writes exactly if the first event is not a
usage, which is written as a delta of a message that has not started.
-/
import Hoorific.Protocol.Anthropic

namespace Hoorific.Protocol.Anthropic

open Check

/-! ### Keep-alives -/

/-- The frame of a keep-alive. -/
def ping : Frame := .unknown

/-- The name `ping` is none of those the decoder has a case for. -/
theorem frameOf_ping (w : Payloads) {data : Bytes} (h : data ≠ []) :
    frameOf w { event := Bytes.ascii "ping", data := data } = ping := by
  rw [frameOf, if_neg (show Bytes.ascii "ping" ≠ [] by decide), if_neg h]
  rfl

/-- The second list of frames is the first with keep-alives put in. -/
inductive Pinged : List Frame → List Frame → Prop
  | nil : Pinged [] []
  | frame {input input' : List Frame} (f : Frame) (h : Pinged input input') :
    Pinged (f :: input) (f :: input')
  | ping {input input' : List Frame} (h : Pinged input input') : Pinged input (ping :: input')

/-- A frame that ends the stream. -/
def Frame.Ends : Frame → Prop
  | .messageStop | .error _ => True
  | _ => False

/-- Every keep-alive comes after a frame that ends the stream. -/
def PingsAfterEnd (input : List Frame) : Prop :=
  ∀ front rest, input = front ++ ping :: rest → ∃ f ∈ front, f.Ends

variable {d d' : Decoder} {out : List Event} {f : Frame} {input : List Frame}

theorem Decoder.messageDelta_terminal {x : Decoded MessageDelta}
    (h : d.messageDelta x = .ok (d', out)) : d'.terminal = d.terminal := by
  simp only [Decoder.messageDelta, bind_ok, pure_ok] at h
  obtain ⟨-, -, x, -, -, -, ⟨d₁, fin⟩, hfin, ⟨d₂, usage⟩, husage, -, -, heq⟩ := h
  cases heq
  have hfinish : d₁.terminal = d.terminal := by
    rcases hr : x.stopReason with - | r
    · rw [stopReason, hr] at hfin
      cases hfin
      rfl
    simp only [stopReason, hr, bind_ok, pure_ok] at hfin
    obtain ⟨-, -, ⟨reason, status⟩, -, -, -, heq⟩ := hfin
    cases heq
    rfl
  rcases hu : x.usage with - | w
  · rw [hu] at husage
    cases husage
    exact hfinish
  simp only [deltaUsage, hu, bind_ok, pure_ok] at husage
  obtain ⟨u, -, heq⟩ := husage
  cases heq
  exact hfinish

/-- A frame ends the stream exactly if it stops the decoder. -/
theorem Decoder.stops_iff (hd : d.terminal = false) (h : decoder.feed d f = .ok (d', out)) :
    d'.terminal = true ↔ f.Ends := by
  have h : d.feed f = .ok (d', out) := h
  have hgoes : d'.terminal = d.terminal → (d'.terminal = true ↔ False) := by
    intro heq
    simp [heq, hd]
  cases f with
  | messageStop =>
    simp only [Decoder.feed, Decoder.messageStop, bind_ok, pure_ok] at h
    obtain ⟨-, -, -, -, heq⟩ := h
    cases heq
    exact ⟨fun _ => trivial, fun _ => rfl⟩
  | error x =>
    simp only [Decoder.feed, Decoder.error, bind_ok, pure_ok] at h
    obtain ⟨⟨type, err⟩, -, -, -, heq⟩ := h
    cases heq
    exact ⟨fun _ => trivial, fun _ => rfl⟩
  | messageStart x =>
    simp only [Decoder.feed, Decoder.messageStart, bind_ok, pure_ok] at h
    obtain ⟨-, -, x, -, -, -, -, -, heq⟩ := h
    cases heq
    apply hgoes
    rcases x.usage with - | u <;> rfl
  | contentBlockStart x =>
    simp only [Decoder.feed, Decoder.contentBlockStart, bind_ok, pure_ok] at h
    obtain ⟨-, -, x, -, -, -, kind, -, -, -, e, -, heq⟩ := h
    cases heq
    exact hgoes rfl
  | contentBlockDelta index delta =>
    simp only [Decoder.feed, Decoder.contentBlockDelta, bind_ok, pure_ok] at h
    obtain ⟨-, -, i, -, kind, -, delta, -, e, -, heq⟩ := h
    cases heq
    exact hgoes rfl
  | contentBlockStop index =>
    simp only [Decoder.feed, Decoder.contentBlockStop, bind_ok, pure_ok] at h
    obtain ⟨-, -, i, -, kind, -, heq⟩ := h
    cases heq
    exact hgoes rfl
  | messageDelta x => exact hgoes (messageDelta_terminal h)
  | unknown | empty | failed => cases h

/-- As long as no frame has ended the stream, a keep-alive is refused. -/
theorem not_decodes_ping (hd : d.terminal = false) (rest : List Frame) (l : List Event) :
    ¬ decoder.Decodes d (ping :: rest) l := by
  intro h
  cases h with
  | stop hs => exact Bool.false_ne_true (hd.symm.trans hs)
  | feed _ hfeed _ => cases hfeed

theorem pingsAfterEnd_cons (hf : f ≠ ping) :
    PingsAfterEnd (f :: input) ↔ f.Ends ∨ PingsAfterEnd input := by
  constructor
  · intro h
    by_cases hends : f.Ends
    · exact .inl hends
    refine .inr fun front rest heq => ?_
    obtain ⟨g, hg, hgends⟩ := h (f :: front) rest (by rw [heq]; rfl)
    rcases List.mem_cons.1 hg with rfl | hg
    · exact absurd hgends hends
    · exact ⟨g, hg, hgends⟩
  · intro h front rest heq
    rcases front with - | ⟨g, front⟩
    · exact absurd (List.cons.inj heq).1 hf
    obtain ⟨rfl, hrest⟩ := List.cons.inj heq
    rcases h with hends | h
    · exact ⟨f, List.mem_cons_self, hends⟩
    · obtain ⟨g, hg, hends⟩ := h front rest hrest
      exact ⟨g, List.mem_cons_of_mem _ hg, hends⟩

/-- What is read of a stream is read of the stream with keep-alives exactly if
these come after its end. -/
theorem decodes_pinged_iff {input' : List Frame} (hp : Pinged input input') {l : List Event}
    (hd : d.terminal = false) (h : decoder.Decodes d input l) :
    decoder.Decodes d input' l ↔ PingsAfterEnd input' := by
  induction hp generalizing d l with
  | nil => exact ⟨fun _ front rest heq => by simp at heq, fun _ => h⟩
  | @ping input input' _ _ =>
    refine ⟨fun h' => absurd h' (not_decodes_ping hd _ _), fun h' => ?_⟩
    obtain ⟨f, hf, -⟩ := h' [] input' rfl
    cases hf
  | @frame input input' f hp ih =>
    cases h with
    | stop hs => exact absurd (hd.symm.trans hs) Bool.false_ne_true
    | @feed _ d' _ _ out l _ hfeed hrest =>
      have hf : f ≠ ping := by
        rintro rfl
        cases hfeed
      rw [pingsAfterEnd_cons hf, ← Decoder.stops_iff hd hfeed]
      rcases hd' : d'.terminal with - | -
      · -- the stream goes on, with what is read of the rest
        have hgoes : decoder.Decodes d (f :: input') (out ++ l) ↔ decoder.Decodes d' input' l :=
          Feeder.decodes_cons_iff hd hfeed
        simp [hgoes, ih hd' hrest]
      · -- the frame ends the stream, and nothing after it is read
        cases hrest.stopped hd'
        exact ⟨fun _ => .inl rfl, fun _ => .feed hd hfeed (.stop hd')⟩

/-- **Keep-alives are transparent** to the decoder exactly if they come after
the end of the stream: of a stream that is read to its end, the same events
are read with keep-alives put between its frames if and only if no
keep-alive stands before the `message_stop` or error frame that ends it. -/
theorem keep_alives_transparent_iff {input input' : List Frame} {l : List Event}
    (hp : Pinged input input') (h : Pulls decoder.next ⟨{}, [], input⟩ l) :
    Pulls decoder.next ⟨{}, [], input'⟩ l ↔ PingsAfterEnd input' := by
  obtain ⟨l', rfl, hdec⟩ := Feeder.pulls_iff_decodes.1 h
  rw [← decodes_pinged_iff hp rfl hdec, Feeder.pulls_iff_decodes]
  exact ⟨fun ⟨l₁, heq, hl₁⟩ => heq ▸ hl₁, fun hdec => ⟨_, rfl, hdec⟩⟩

/-- A message without content. -/
def emptyMessage : List Frame :=
  [.messageStart (.ok { type := "message_start", id := "m", model := "x" }),
    .messageDelta (.ok { stopReason := some "end_turn" }), .messageStop]

def emptyEvents : List Event :=
  [.start "m" "x", .finish { status := "completed", reason := "stop" }]

theorem pulls_emptyMessage : Pulls decoder.next ⟨{}, [], emptyMessage⟩ emptyEvents :=
  Feeder.pulls_of_readAll rfl

/-- A keep-alive after the end of the message changes nothing. -/
theorem keep_alive_after_end : Pulls decoder.next ⟨{}, [], emptyMessage ++ [ping]⟩ emptyEvents := by
  have hp : Pinged emptyMessage (emptyMessage ++ [ping]) :=
    .frame _ (.frame _ (.frame _ (.ping .nil)))
  refine (keep_alives_transparent_iff hp pulls_emptyMessage).2 fun front rest heq => ?_
  refine ⟨.messageStop, ?_, trivial⟩
  rcases front with - | ⟨a, - | ⟨b, - | ⟨c, front⟩⟩⟩
  · exact nomatch heq
  · exact nomatch heq
  · exact nomatch heq
  simp only [emptyMessage, List.cons_append, List.cons.injEq] at heq
  obtain ⟨rfl, rfl, rfl, -⟩ := heq
  simp

/-- A keep-alive before the message is refused. -/
theorem keep_alive_refused :
    Pinged emptyMessage (ping :: emptyMessage) ∧
      Pulls decoder.next ⟨{}, [], emptyMessage⟩ emptyEvents ∧
      ∀ l, ¬ Pulls decoder.next ⟨{}, [], ping :: emptyMessage⟩ l := by
  refine ⟨.ping (.frame _ (.frame _ (.frame _ .nil))), pulls_emptyMessage, fun l h => ?_⟩
  obtain ⟨l', -, hdec⟩ := Feeder.pulls_iff_decodes.1 h
  exact not_decodes_ping rfl _ _ hdec

/-! ### What a client is sent -/

/-- What a client of the protocol knows of a message: whether it has started
and ended, and its open blocks. -/
structure Reading where
  started : Bool := false
  ended : Bool := false
  blocks : Table Int BlockKind := ∅

/-- The kind of a block, by the type of the block or of a delta. -/
def kindOf : Option Json → Option BlockKind
  | some (.str "text") | some (.str "text_delta") => some .text
  | some (.str "tool_use") | some (.str "input_json_delta") => some .toolCall
  | _ => none

/-- The client reads a frame, if the frame may come here: a message starts
before anything else of it and ends when its blocks have, and a delta is for an
open block of its kind. -/
def Reading.read (r : Reading) (f : OutFrame) : Option Reading := do
  let index := match Json.walk ["index"] (some f.data) with
    | some (.int i) => some i
    | _ => none
  guard (!r.ended && (r.started || f.name == "message_start" || f.name == "error"))
  match f.name with
  | "message_start" =>
    guard !r.started
    pure { r with started := true }
  | "content_block_start" =>
    let i ← index
    guard (r.blocks.lookup i).isNone
    let kind ← kindOf (Json.walk ["content_block", "type"] (some f.data))
    pure { r with blocks := r.blocks.insert i kind }
  | "content_block_delta" =>
    let kind ← r.blocks.lookup (← index)
    guard (kindOf (Json.walk ["delta", "type"] (some f.data)) == some kind)
    pure r
  | "content_block_stop" =>
    let i ← index
    guard (r.blocks.lookup i).isSome
    pure { r with blocks := r.blocks.erase i }
  | "message_delta" => pure r
  | "message_stop" =>
    guard r.blocks.isEmpty
    pure { r with ended := true }
  | "error" => pure { r with ended := true }
  | _ => none

def readFrame (r : Option Reading) (f : OutFrame) : Option Reading := r.bind (·.read f)

/-- What a client knows that has read what the encoder wrote. -/
def Encoder.reading (e : Encoder) : Reading := ⟨e.started, e.terminal, e.blocks⟩

variable {e e' : Encoder} {v : Event} {frames : List OutFrame}

theorem kindOf_block {kind : BlockKind} {id name : String} {b : List (String × Json)}
    (h : Encoder.block kind id name = .ok b) : kindOf (memberOf "type" b) = some kind := by
  cases kind with
  | text | toolCall =>
    cases h
    by_cases hid : id = "" <;> by_cases hname : name = "" <;>
      simp [Encoder.textBlock, Encoder.toolBlock, text, hid, hname, memberOf, kindOf]
  | _ => cases h

theorem read_startFrame {r : Reading} {i : Int} {b : List (String × Json)} {kind : BlockKind}
    (hs : r.started = true) (hr : r.ended = false) (hnone : r.blocks.lookup i = none)
    (hb : kindOf (memberOf "type" b) = some kind) :
    r.read (Encoder.startFrame i b) = some { r with blocks := r.blocks.insert i kind } := by
  unfold memberOf at hb
  simp [Reading.read, Encoder.startFrame, hb, hs, hr, hnone, Json.walk, Json.members, memberOf]

theorem read_delta {kind : BlockKind} {param : String} {i : Index} {value : List (String × Json)}
    (h : e.delta kind param i value = .ok (e', frames)) (hs : e.started = true)
    (hterminal : e.terminal = false) (hvalue : kindOf (memberOf "type" value) = some kind) :
    frames.foldl readFrame (some e.reading) = some e'.reading ∧ e'.started = true := by
  simp only [Encoder.delta, bind_ok, require_ok, pure_ok, beq_iff_eq] at h
  obtain ⟨-, hkind, heq⟩ := h
  cases heq
  unfold memberOf at hvalue
  simp [readFrame, Reading.read, Encoder.reading, hvalue, hs, hterminal, hkind, Json.walk,
    Json.members, memberOf]

/-- One event of a message that has started. -/
theorem read_write (h : e.write v = .ok (e', frames)) (hs : e.started = true) :
    frames.foldl readFrame (some e.reading) = some e'.reading ∧ e'.started = true := by
  simp only [Encoder.write, bind_ok, require_ok] at h
  obtain ⟨-, hterminal, h⟩ := h
  rw [Bool.not_eq_true'] at hterminal
  cases v with
  | start id model =>
    simp only [Encoder.event, Encoder.start, bind_ok, require_ok, hs] at h
    obtain ⟨-, ⟨⟩, -⟩ := h
  | blockStart i kind id name =>
    simp only [Encoder.event, Encoder.blockStart, bind_ok, require_ok, pure_ok] at h
    obtain ⟨-, -, -, -, -, hnone, b, hb, heq⟩ := h
    cases heq
    exact ⟨read_startFrame hs hterminal (Option.isNone_iff_eq_none.1 hnone)
      (kindOf_block hb), hs⟩
  | toolCallStart i id name =>
    simp only [Encoder.event, Encoder.toolCallStart, bind_ok, require_ok, pure_ok] at h
    obtain ⟨-, -, -, hnone, heq⟩ := h
    cases heq
    exact ⟨read_startFrame hs hterminal (Option.isNone_iff_eq_none.1 hnone)
      (@kindOf_block .toolCall id name _ rfl), hs⟩
  | textDelta i s | toolArgumentsDelta i s => exact read_delta h hs hterminal rfl
  | blockEnd i =>
    simp only [Encoder.event, Encoder.blockEnd, bind_ok, require_ok, pure_ok] at h
    obtain ⟨-, hsome, heq⟩ := h
    cases heq
    simp_all [readFrame, Reading.read, Encoder.reading, Json.walk, Json.members, memberOf]
  | usage u =>
    simp only [Encoder.event, Encoder.usageEvent, bind_ok, pure_ok] at h
    obtain ⟨w, -, heq⟩ := h
    cases heq
    simp_all [readFrame, Reading.read, Encoder.reading, Encoder.messageDelta]
  | finish f =>
    simp only [Encoder.event, Encoder.finish, bind_ok, require_ok, pure_ok] at h
    obtain ⟨-, -, -, hempty, ⟨wire, status⟩, -, -, -, heq⟩ := h
    cases heq
    simp_all [readFrame, Reading.read, Encoder.reading, Encoder.messageDelta]
  | streamError err =>
    cases h
    simp_all [readFrame, Reading.read, Encoder.reading]

theorem read_first (h : Encoder.write {} v = .ok (e, frames)) (hv : ∀ u, v ≠ .usage u) :
    frames.foldl readFrame (some {}) = some e.reading ∧ (e.started = true ∨ e.terminal = true) := by
  cases v with
  | start id model =>
    cases h
    exact ⟨rfl, .inl rfl⟩
  | streamError err =>
    cases h
    exact ⟨rfl, .inr rfl⟩
  | usage u => exact absurd rfl (hv u)
  | _ => cases h

/-- **A client can read what is written to it** exactly if no usage comes before
the message: then it knows of the message what the encoder does. -/
theorem written_readable_iff {evs : List Event} (h : emitAll Encoder.write {} evs = .ok (e, frames)) :
    frames.foldl readFrame (some {}) = some e.reading ↔ ∀ u, evs.head? ≠ some (.usage u) := by
  rcases evs with - | ⟨v, evs⟩
  · cases h
    simp [Encoder.reading]
  obtain ⟨e₁, first, rest, hfirst, hrest, rfl⟩ := emitAll_cons_ok.1 h
  rw [List.foldl_append]
  constructor
  · rintro hread u heq
    cases heq
    simp only [Encoder.write, Encoder.event, Encoder.usageEvent, bind_ok, pure_ok] at hfirst
    obtain ⟨-, -, w, -, heq⟩ := hfirst
    cases heq
    -- a delta of a message that has not started
    have hlost : ∀ l, List.foldl readFrame none l = none := List.foldl_fixed' fun _ => rfl
    cases (hlost rest).symm.trans hread
  · intro hv
    obtain ⟨hread, hstarted⟩ := read_first hfirst fun u hu => hv u (by rw [hu]; rfl)
    refine (emitAll_foldl_inv (I := fun e c => c = some e.reading ∧
      (e.started = true ∨ e.terminal = true)) readFrame ?_ ⟨hread, hstarted⟩ hrest).1
    rintro v - e e' c out ⟨rfl, hs⟩ hwrite
    rcases hs with hs | hs
    · obtain ⟨hread, hs'⟩ := read_write hwrite hs
      exact ⟨hread, .inl hs'⟩
    · simp [Encoder.write, hs] at hwrite

/-- A message with a text and a call. -/
def textAndCall : List Event :=
  [.start "m" "x", .blockStart {} .text "" "", .textDelta {} "Let me see.", .blockEnd {},
    .toolCallStart { block := 1 } "c" "look", .toolArgumentsDelta { block := 1 } "\x7b\x7d",
    .blockEnd { block := 1 }, .finish { status := "completed", reason := "tool_calls" }]

theorem written_readable_textAndCall : ∃ e frames,
    emitAll Encoder.write {} textAndCall = .ok (e, frames) ∧ frames.length = 9 ∧
      frames.foldl readFrame (some {}) = some e.reading := by
  obtain ⟨⟨e, frames⟩, h, hlength⟩ : ∃ r, emitAll Encoder.write {} textAndCall = .ok r ∧
    r.2.length = 9 := ⟨_, rfl, rfl⟩
  exact ⟨e, frames, h, hlength, (written_readable_iff h).2 (by simp [textAndCall])⟩

end Hoorific.Protocol.Anthropic
