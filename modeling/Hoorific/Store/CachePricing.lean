/-
The cache directives of a request body, and the rates they need.  A
provider bills reads and writes of its prompt cache at rates of their own,
so a body that asks for the cache has a cost bound only if those rates are
configured.  `cachePricingRequired` looks for directives where the wire
formats have them: at the root, on message, system and tool-result blocks,
and on tools; `cachePricingAvailable` compares what it found with a price.

The traversal carries its findings along and never takes one back, so what
one part of a body requires is required of the whole body; what it finds,
flag by flag, is said in `Store/CacheShown`.

The two texts of a time to live that have a rate of their own are flags
(`ttl5m`, `ttl1h`).  `inspectCacheJSON` is only called on the root of a
body; its other branch is left out.
-/
import Hoorific.Core
import Hoorific.Lib.Json

namespace Hoorific

/-! ### Bodies -/

/-- The body of a request: no bytes, bytes that are not JSON, or a value. -/
inductive RequestBody where
  | empty
  | malformed
  | value (v : Json)

/-- An integer that a `float64` can hold without overflow. -/
def floatRange (n : Int) : Bool := decide (n.natAbs < 2 ^ 1024 - 2 ^ 970)

mutual
/-- Every number of a value can be decoded as a `float64`; `inRange` tells for
those that are not written as integers. -/
def Json.floats (inRange : String → Bool) : Json → Bool
  | .int n => floatRange n
  | .real text => inRange text
  | .arr items => floatItems inRange items
  | .obj ms => floatMembers inRange ms
  | .null | .bool _ | .str _ => true

def floatItems (inRange : String → Bool) : List Json → Bool
  | [] => true
  | v :: rest => v.floats inRange && floatItems inRange rest

def floatMembers (inRange : String → Bool) : List (String × Json) → Bool
  | [] => true
  | (_, v) :: rest => v.floats inRange && floatMembers inRange rest
end

/-! ### Requirements -/

/-- `cachePricingRequirements`. -/
structure CacheRequirements where
  read : Bool := false
  write : Bool := false
  breakpoints : Nat := 0
  ttl5m : Bool := false
  ttl1h : Bool := false
  otherTTL : Bool := false
  openAITTL : String := ""
deriving DecidableEq

variable (r : CacheRequirements)

def CacheRequirements.addWriteTTL (ttl : String) : CacheRequirements :=
  let r := { r with write := true }
  if ttl = "" then r
  else if ttl = "5m" then { r with ttl5m := true }
  else if ttl = "1h" then { r with ttl1h := true }
  else { r with otherTTL := true }

/-- `cacheStringField`: the text under a name, empty if there is none. -/
def cacheStringField (ms : List (String × Json)) (key : String) : String :=
  match memberOf key ms with
  | some (.str s) => s
  | _ => ""

/-- A directive, if there is one: an object may carry a time to live. -/
def CacheRequirements.addDirective : Option Json → CacheRequirements
  | none => r
  | some (.obj ms) => r.addWriteTTL (cacheStringField ms "ttl")
  | some _ => r.addWriteTTL ""

/-- The directives a block or a tool can carry. -/
def CacheRequirements.addDirectives (ms : List (String × Json)) : CacheRequirements :=
  (r.addDirective (memberOf "cache_control" ms)).addDirective (memberOf "cachePoint" ms)

/-! ### The traversal -/

/-- The types of blocks that can carry a directive. -/
def cacheBlockTypes : List String :=
  ["text", "thinking", "image", "document", "tool_use", "tool_result", "input_text", "input_image",
   "input_file"]

mutual
/-- `inspectCacheBlocks`: blocks, and the content of tool results. -/
def inspectCacheBlocks (breakpoints : Bool) : Json → CacheRequirements → CacheRequirements
  | .arr items, r => inspectCacheItems breakpoints items r
  | .obj ms, r =>
    let kind := cacheStringField ms "type"
    if !((memberOf "cachePoint" ms).isSome || cacheBlockTypes.contains kind) then r
    else
      let r := r.addDirectives ms
      let r := if breakpoints && (kind == "text" || kind == "input_text") &&
          (memberOf "prompt_cache_breakpoint" ms).isSome
        then { r with breakpoints := r.breakpoints + 1 } else r
      if kind = "tool_result" then inspectCacheContent breakpoints ms r else r
  | _, r => r

def inspectCacheItems (breakpoints : Bool) : List Json → CacheRequirements → CacheRequirements
  | [], r => r
  | v :: rest, r => inspectCacheItems breakpoints rest (inspectCacheBlocks breakpoints v r)

/-- The blocks under `content`: the last member of that name. -/
def inspectCacheContent (breakpoints : Bool) :
    List (String × Json) → CacheRequirements → CacheRequirements
  | [], r => r
  | (name, v) :: rest, r =>
    if (memberOf "content" rest).isSome then inspectCacheContent breakpoints rest r
    else if name = "content" then inspectCacheBlocks breakpoints v r
    else r
end

/-- Inspect the value under a name, if there is one. -/
def inspectMember (inspect : Json → CacheRequirements → CacheRequirements)
    (ms : List (String × Json)) (key : String) (r : CacheRequirements) : CacheRequirements :=
  match memberOf key ms with
  | some v => inspect v r
  | none => r

mutual
/-- `inspectCacheContainers`: messages, in lists of any depth. -/
def inspectCacheContainers : Json → CacheRequirements → CacheRequirements
  | .arr items, r => inspectContainerItems items r
  | .obj ms, r =>
    inspectMember (inspectCacheBlocks false) ms "parts"
      (inspectMember (inspectCacheBlocks true) ms "content" r)
  | _, r => r

def inspectContainerItems : List Json → CacheRequirements → CacheRequirements
  | [], r => r
  | v :: rest, r => inspectContainerItems rest (inspectCacheContainers v r)
end

/-- `inspectCacheSystem`: a list of blocks, or an object with parts. -/
def inspectCacheSystem : Json → CacheRequirements → CacheRequirements
  | .obj ms, r => match memberOf "parts" ms with
    | some child => inspectCacheBlocks false child r
    | none => inspectCacheBlocks true (.obj ms) r
  | v, r => inspectCacheBlocks true v r

mutual
def inspectCacheTools : Json → CacheRequirements → CacheRequirements
  | .arr items, r => inspectToolItems items r
  | .obj ms, r => r.addDirectives ms
  | _, r => r

def inspectToolItems : List Json → CacheRequirements → CacheRequirements
  | [], r => r
  | v :: rest, r => inspectToolItems rest (inspectCacheTools v r)
end

/-- A text member that is there and not empty. -/
def namesText (ms : List (String × Json)) (key : String) : Bool := cacheStringField ms key != ""

/-- `prompt_cache_options`. -/
def CacheRequirements.addOptions : Option Json → CacheRequirements
  | some (.obj options) =>
    let mode := cacheStringField options "mode"
    let ttl := cacheStringField options "ttl"
    let r := if mode ≠ "" then { r with read := true } else r
    let r := if mode = "explicit" ∨ ttl ≠ "" then r.addWriteTTL ttl else r
    if ttl ≠ "" then { r with openAITTL := ttl } else r
  | _ => r

/-- The members of the root that say something about the cache themselves. -/
def CacheRequirements.addRoot (ms : List (String × Json)) : CacheRequirements :=
  let r := if namesText ms "cachedContent" then { r with read := true } else r
  let r := r.addDirective (memberOf "cache_control" ms)
  let r := if namesText ms "prompt_cache_key" then { r with read := true } else r
  let r := if namesText ms "prompt_cache_retention" then { r with read := true } else r
  r.addOptions (memberOf "prompt_cache_options" ms)

/-- Tools under `toolConfig`. -/
def inspectToolConfig : Json → CacheRequirements → CacheRequirements
  | .obj config, r => inspectMember inspectCacheTools config "tools" r
  | _, r => r

/-- The parts of the root that are looked into, in order. -/
def cacheContainers : List (String × (Json → CacheRequirements → CacheRequirements)) :=
  [("messages", inspectCacheContainers), ("input", inspectCacheContainers),
   ("contents", inspectCacheContainers), ("system", inspectCacheSystem),
   ("systemInstruction", inspectCacheSystem), ("content", inspectCacheBlocks true),
   ("tools", inspectCacheTools), ("toolConfig", inspectToolConfig)]

/-- `inspectCacheJSON` at the root. -/
def inspectCacheJSON : Json → CacheRequirements → CacheRequirements
  | .obj ms, r =>
    let r := cacheContainers.foldl (fun r c => inspectMember c.2 ms c.1 r) (r.addRoot ms)
    if 0 < r.breakpoints then r.addWriteTTL r.openAITTL else r
  | _, r => r

def cachePricingRequired (inRange : String → Bool) : RequestBody → CacheRequirements
  | .value v => if v.floats inRange then inspectCacheJSON v {} else {}
  | .empty | .malformed => {}

def cachePricingAvailable (price : Option PriceSchedule) (r : CacheRequirements) : Bool :=
  if !r.read && !r.write then true
  else match price with
    | none => false
    | some price =>
      if r.read && price.cachedInputPerMillion.isNone then false
      else if !r.write then true
      else if r.otherTTL && price.cacheWriteInputPerMillion.isNone then false
      else if !r.ttl5m && !r.ttl1h then price.cacheWriteInputPerMillion.isSome
      else
        (!r.ttl5m || price.cacheWrite5mPerMillion.isSome || price.cacheWriteInputPerMillion.isSome) &&
        (!r.ttl1h || price.cacheWrite1hPerMillion.isSome || price.cacheWriteInputPerMillion.isSome)

end Hoorific
