/-
What the search for cache directives finds, said without the search: the
places of a body where a directive is looked for (`Shows`), and that
`cachePricingRequired` reports a write or a read of the cache exactly for
the bodies that show one there.

The search carries its findings through the body, so each part of it adds
what it finds to what was found before (`Finds`, `found_blocks`).
-/
import Hoorific.Store.CachePricing

namespace Hoorific

open CacheRequirements

/-! ### Places -/

/-- The time to live of a directive, empty if it has none. -/
def directiveTTL : Json → String
  | .obj ms => cacheStringField ms "ttl"
  | _ => ""

/-- The times to live of all directives. -/
def anyTTL : String → Prop := fun _ => True

/-- An object has a directive of its own, with a time to live in `takes`. -/
def Directs (takes : String → Prop) (ms : List (String × Json)) : Prop :=
  (∃ v, memberOf "cache_control" ms = some v ∧ takes (directiveTTL v)) ∨
    ∃ v, memberOf "cachePoint" ms = some v ∧ takes (directiveTTL v)

variable {ms : List (String × Json)} {P : List (String × Json) → Prop} {items : List Json}
  {key : String}

theorem directs_of_control (h : (memberOf "cache_control" ms).isSome) : Directs anyTTL ms := by
  obtain ⟨v, hv⟩ := Option.isSome_iff_exists.1 h
  exact .inl ⟨v, hv, trivial⟩

theorem directs_of_point (h : (memberOf "cachePoint" ms).isSome) : Directs anyTTL ms := by
  obtain ⟨v, hv⟩ := Option.isSome_iff_exists.1 h
  exact .inr ⟨v, hv, trivial⟩

/-- A block of a type that is looked at. -/
def Listed (ms : List (String × Json)) : Prop :=
  (memberOf "cachePoint" ms).isSome ∨ cacheStringField ms "type" ∈ cacheBlockTypes

/-- A block shows a directive. -/
def ShowsDirective (takes : String → Prop) (ms : List (String × Json)) : Prop :=
  Listed ms ∧ Directs takes ms

/-- A block shows a breakpoint. -/
def ShowsBreakpoint (ms : List (String × Json)) : Prop :=
  (cacheStringField ms "type" = "text" ∨ cacheStringField ms "type" = "input_text") ∧
    (memberOf "prompt_cache_breakpoint" ms).isSome

/-- A block with `P`, in a list of blocks or in the content of a tool result. -/
inductive InBlocks (P : List (String × Json) → Prop) : Json → Prop
  | block {ms : List (String × Json)} (h : P ms) : InBlocks P (.obj ms)
  | item {items : List Json} {v : Json} (hv : v ∈ items) (h : InBlocks P v) : InBlocks P (.arr items)
  | result {ms : List (String × Json)} {v : Json} (hkind : cacheStringField ms "type" = "tool_result")
      (hv : memberOf "content" ms = some v) (h : InBlocks P v) : InBlocks P (.obj ms)

/-- An object with `P`, in lists of any depth. -/
inductive InList (P : List (String × Json) → Prop) : Json → Prop
  | object {ms : List (String × Json)} (h : P ms) : InList P (.obj ms)
  | item {items : List Json} {v : Json} (hv : v ∈ items) (h : InList P v) : InList P (.arr items)

/-- The value under a name has `Q`. -/
def MemberShows (Q : Json → Prop) (key : String) (ms : List (String × Json)) : Prop :=
  ∃ v, memberOf key ms = some v ∧ Q v

theorem inBlocks_arr : InBlocks P (.arr items) ↔ ∃ v ∈ items, InBlocks P v := by
  constructor
  · rintro (_ | ⟨hv, h⟩)
    exact ⟨_, hv, h⟩
  · rintro ⟨v, hv, h⟩
    exact .item hv h

theorem inBlocks_obj :
    InBlocks P (.obj ms) ↔
      P ms ∨ cacheStringField ms "type" = "tool_result" ∧ MemberShows (InBlocks P) "content" ms := by
  constructor
  · intro h
    cases h with
    | block h => exact .inl h
    | result hkind hv h => exact .inr ⟨hkind, _, hv, h⟩
  · rintro (h | ⟨hkind, v, hv, h⟩)
    · exact .block h
    · exact .result hkind hv h

theorem inList_arr : InList P (.arr items) ↔ ∃ v ∈ items, InList P v := by
  constructor
  · rintro (_ | ⟨hv, h⟩)
    exact ⟨_, hv, h⟩
  · rintro ⟨v, hv, h⟩
    exact .item hv h

theorem inList_obj : InList P (.obj ms) ↔ P ms := by
  constructor
  · rintro ⟨h⟩
    exact h
  · exact .object

theorem memberOf_cons {name : String} {v : Json} {rest : List (String × Json)} :
    memberOf key ((name, v) :: rest) =
      (memberOf key rest).or (if name = key then some v else none) := by
  have hlast : ([(name, v)].find? fun m => m.1 == key).map Prod.snd =
      if name = key then some v else none := by
    by_cases hname : name = key <;> simp [hname]
  rw [memberOf, memberOf, List.reverse_cons, List.find?_append, Option.map_or, hlast]

/-! ### What a block adds -/

/-- The findings at a block itself. -/
def blockFindings (breakpoints : Bool) (ms : List (String × Json)) (r : CacheRequirements) :
    CacheRequirements :=
  if breakpoints && (cacheStringField ms "type" == "text" || cacheStringField ms "type" == "input_text") &&
      (memberOf "prompt_cache_breakpoint" ms).isSome
  then { r.addDirectives ms with breakpoints := (r.addDirectives ms).breakpoints + 1 }
  else r.addDirectives ms

instance (ms : List (String × Json)) : Decidable (Listed ms) := inferInstanceAs (Decidable (_ ∨ _))

theorem inspectCacheBlocks_obj (breakpoints : Bool) (ms : List (String × Json))
    (r : CacheRequirements) :
    inspectCacheBlocks breakpoints (.obj ms) r =
      if Listed ms then
        if cacheStringField ms "type" = "tool_result" then
          inspectCacheContent breakpoints ms (blockFindings breakpoints ms r)
        else blockFindings breakpoints ms r
      else r := by
  have hlisted : (!((memberOf "cachePoint" ms).isSome ||
      cacheBlockTypes.contains (cacheStringField ms "type"))) = true ↔ ¬ Listed ms := by
    simp [Listed]
  rw [inspectCacheBlocks]
  by_cases h : Listed ms
  · rw [if_neg (mt hlisted.1 (not_not_intro h)), if_pos h]
    rfl
  · rw [if_pos (hlisted.2 h), if_neg h]

/-- The blocks with `P` are those at which `F` is found. -/
structure Finds (breakpoints : Bool) (F : CacheRequirements → Prop)
    (P : List (String × Json) → Prop) : Prop where
  found : ∀ ms r, Listed ms → (F (blockFindings breakpoints ms r) ↔ F r ∨ P ms)
  listed : ∀ ms, P ms → Listed ms

-- in a mutual block the linter does not see uses through the other theorems
set_option linter.unusedSectionVars false

section Found

variable {breakpoints : Bool} {F : CacheRequirements → Prop} (hfinds : Finds breakpoints F P)

include hfinds

mutual
theorem found_blocks : ∀ v r, F (inspectCacheBlocks breakpoints v r) ↔ F r ∨ InBlocks P v
  | .arr items, r => by
    rw [inspectCacheBlocks, found_items items r, inBlocks_arr]
  | .obj ms, r => by
    rw [inspectCacheBlocks_obj, inBlocks_obj]
    by_cases hlisted : Listed ms
    · rw [if_pos hlisted]
      by_cases hkind : cacheStringField ms "type" = "tool_result"
      · rw [if_pos hkind, found_content ms, hfinds.found ms r hlisted, or_assoc]
        simp [hkind]
      · rw [if_neg hkind, hfinds.found ms r hlisted]
        simp [hkind]
    · rw [if_neg hlisted]
      have hnot : ¬ P ms := fun h => hlisted (hfinds.listed ms h)
      have hkind : cacheStringField ms "type" ≠ "tool_result" := fun h =>
        hlisted (.inr (by rw [h]; decide))
      simp [hnot, hkind]
  | .null, r | .bool _, r | .int _, r | .real _, r | .str _, r => by
    simp only [inspectCacheBlocks]
    exact ⟨.inl, fun h => h.elim id nofun⟩

theorem found_items : ∀ items r,
    F (inspectCacheItems breakpoints items r) ↔ F r ∨ ∃ v ∈ items, InBlocks P v
  | [], r => by simp [inspectCacheItems]
  | v :: rest, r => by
    rw [inspectCacheItems, found_items rest, found_blocks v r, or_assoc]
    simp

theorem found_content : ∀ ms r,
    F (inspectCacheContent breakpoints ms r) ↔ F r ∨ MemberShows (InBlocks P) "content" ms
  | [], r => by simp [inspectCacheContent, MemberShows, memberOf]
  | (name, v) :: rest, r => by
    rw [inspectCacheContent, MemberShows, memberOf_cons]
    rcases hrest : memberOf "content" rest with - | w
    · by_cases hname : name = "content"
      · simp only [Option.isSome_none, Bool.false_eq_true, if_false, hname, if_true, Option.none_or,
          Option.some.injEq, exists_eq_left']
        exact found_blocks v r
      · simp [hname]
    · simp only [Option.isSome_some, if_true, Option.some_or]
      rw [found_content rest r, MemberShows, hrest]
end

end Found

/-! ### What a body adds -/

/-- What a message shows: blocks under `content`, or under `parts`. -/
def MessageShows (content parts : List (String × Json) → Prop) (ms : List (String × Json)) : Prop :=
  MemberShows (InBlocks content) "content" ms ∨ MemberShows (InBlocks parts) "parts" ms

/-- What the system text shows: blocks, or the blocks under `parts`. -/
def SystemShows (content parts : List (String × Json) → Prop) : Json → Prop
  | .obj ms => match memberOf "parts" ms with
    | some child => InBlocks parts child
    | none => InBlocks content (.obj ms)
  | v => InBlocks content v

/-- What the tools under `toolConfig` show. -/
def ConfigShows (tool : List (String × Json) → Prop) : Json → Prop
  | .obj config => MemberShows (InList tool) "tools" config
  | _ => False

/-- What the parts of a body show. -/
def PartsShow (content parts tool : List (String × Json) → Prop) (ms : List (String × Json)) : Prop :=
  (∃ key ∈ ["messages", "input", "contents"],
    MemberShows (InList (MessageShows content parts)) key ms) ∨
  (∃ key ∈ ["system", "systemInstruction"], MemberShows (SystemShows content parts) key ms) ∨
  MemberShows (InBlocks content) "content" ms ∨
  MemberShows (InList tool) "tools" ms ∨
  MemberShows (ConfigShows tool) "toolConfig" ms

/-- What `F` says is found at the blocks with `content` or `parts`, and at the
tools with `tool`. -/
structure FindsIn (F : CacheRequirements → Prop) (content parts tool : List (String × Json) → Prop) :
    Prop where
  content : Finds true F content
  parts : Finds false F parts
  tool : ∀ (ms : List (String × Json)) (r : CacheRequirements), F (r.addDirectives ms) ↔ F r ∨ tool ms

section Parts

variable {F : CacheRequirements → Prop} {content parts tool : List (String × Json) → Prop}

theorem found_member {inspect : Json → CacheRequirements → CacheRequirements} {Q : Json → Prop}
    (h : ∀ v r, F (inspect v r) ↔ F r ∨ Q v) (ms : List (String × Json)) (key : String)
    (r : CacheRequirements) : F (inspectMember inspect ms key r) ↔ F r ∨ MemberShows Q key ms := by
  rw [inspectMember, MemberShows]
  rcases memberOf key ms with - | v
  · simp
  · simpa using h v r

variable (hfinds : FindsIn F content parts tool)

include hfinds

mutual
theorem found_containers : ∀ v r,
    F (inspectCacheContainers v r) ↔ F r ∨ InList (MessageShows content parts) v
  | .arr items, r => by
    rw [inspectCacheContainers, found_containerItems items r, inList_arr]
  | .obj ms, r => by
    rw [inspectCacheContainers, found_member (found_blocks hfinds.parts),
      found_member (found_blocks hfinds.content), inList_obj, MessageShows, or_assoc]
  | .null, r | .bool _, r | .int _, r | .real _, r | .str _, r => by
    simp only [inspectCacheContainers]
    exact ⟨.inl, fun h => h.elim id nofun⟩

theorem found_containerItems : ∀ items r,
    F (inspectContainerItems items r) ↔ F r ∨ ∃ v ∈ items, InList (MessageShows content parts) v
  | [], r => by simp [inspectContainerItems]
  | v :: rest, r => by
    rw [inspectContainerItems, found_containerItems rest, found_containers v r, or_assoc]
    simp
end

theorem found_system (v : Json) (r : CacheRequirements) :
    F (inspectCacheSystem v r) ↔ F r ∨ SystemShows content parts v := by
  cases v with
  | obj ms =>
    rw [inspectCacheSystem, SystemShows]
    rcases memberOf "parts" ms with - | child
    · exact found_blocks hfinds.content _ r
    · exact found_blocks hfinds.parts child r
  | null | bool | int | real | str | arr => exact found_blocks hfinds.content _ r

mutual
theorem found_tools : ∀ v r, F (inspectCacheTools v r) ↔ F r ∨ InList tool v
  | .arr items, r => by rw [inspectCacheTools, found_toolItems items r, inList_arr]
  | .obj ms, r => by rw [inspectCacheTools, hfinds.tool ms r, inList_obj]
  | .null, r | .bool _, r | .int _, r | .real _, r | .str _, r => by
    simp only [inspectCacheTools]
    exact ⟨.inl, fun h => h.elim id nofun⟩

theorem found_toolItems : ∀ items r, F (inspectToolItems items r) ↔ F r ∨ ∃ v ∈ items, InList tool v
  | [], r => by simp [inspectToolItems]
  | v :: rest, r => by
    rw [inspectToolItems, found_toolItems rest, found_tools v r, or_assoc]
    simp
end

theorem found_config (v : Json) (r : CacheRequirements) :
    F (inspectToolConfig v r) ↔ F r ∨ ConfigShows tool v := by
  cases v with
  | obj config => exact found_member (found_tools hfinds) config "tools" r
  | null | bool | int | real | str | arr => simp [inspectToolConfig, ConfigShows]

theorem found_parts (ms : List (String × Json)) (r : CacheRequirements) :
    F (cacheContainers.foldl (fun r c => inspectMember c.2 ms c.1 r) r) ↔
      F r ∨ PartsShow content parts tool ms := by
  simp only [cacheContainers, List.foldl_cons, List.foldl_nil]
  rw [found_member (found_config hfinds), found_member (found_tools hfinds),
    found_member (found_blocks hfinds.content), found_member (found_system hfinds),
    found_member (found_system hfinds), found_member (found_containers hfinds),
    found_member (found_containers hfinds), found_member (found_containers hfinds)]
  simp only [PartsShow, List.mem_cons, List.not_mem_nil, or_false, exists_eq_or_imp, exists_eq_left,
    or_assoc]

end Parts

/-! ### Writes, breakpoints and reads -/

/-- What a write of the cache sets: that there is one, and what is said about
its time to live. -/
inductive WriteFlag where
  | write | ttl5m | ttl1h | otherTTL
deriving DecidableEq

/-- The times to live that set a flag. -/
def WriteFlag.takes : WriteFlag → String → Prop
  | .write => anyTTL
  | .ttl5m => (· = "5m")
  | .ttl1h => (· = "1h")
  | .otherTTL => fun ttl => ttl ≠ "" ∧ ttl ≠ "5m" ∧ ttl ≠ "1h"

variable (r : CacheRequirements)

def CacheRequirements.flag : WriteFlag → Bool
  | .write => r.write
  | .ttl5m => r.ttl5m
  | .ttl1h => r.ttl1h
  | .otherTTL => r.otherTTL

/-- From `r` to `r'`, a read was added if `read`, and writes that set the flags in
`write`; the time to live of breakpoints was changed by `ttl`. -/
structure CacheRequirements.Adds (r r' : CacheRequirements) (read : Prop) (write : WriteFlag → Prop)
    (ttl : String → String) : Prop where
  read : r'.read = true ↔ r.read = true ∨ read
  flag : ∀ f, r'.flag f = true ↔ r.flag f = true ∨ write f
  breakpoints : r'.breakpoints = r.breakpoints
  openAITTL : r'.openAITTL = ttl r.openAITTL

theorem adds_nothing : r.Adds r False (fun _ => False) id :=
  ⟨by simp, by simp, rfl, rfl⟩

section Adds

variable {r r' r'' : CacheRequirements} {read read' : Prop} {write write' : WriteFlag → Prop}
  {ttl ttl' : String → String}

theorem CacheRequirements.Adds.trans (h : r.Adds r' read write ttl)
    (h' : r'.Adds r'' read' write' ttl') :
    r.Adds r'' (read ∨ read') (fun f => write f ∨ write' f) (ttl' ∘ ttl) where
  read := by rw [h'.read, h.read, or_assoc]
  flag f := by rw [h'.flag, h.flag, or_assoc]
  breakpoints := h'.breakpoints.trans h.breakpoints
  openAITTL := by rw [h'.openAITTL, h.openAITTL, Function.comp_apply]

theorem CacheRequirements.Adds.of_iff (h : r.Adds r' read write ttl) (hread : read ↔ read')
    (hwrite : ∀ f, write f ↔ write' f) (httl : ttl r.openAITTL = ttl' r.openAITTL) :
    r.Adds r' read' write' ttl' :=
  ⟨by rw [h.read, hread], fun f => by rw [h.flag, hwrite], h.breakpoints, h.openAITTL.trans httl⟩

theorem CacheRequirements.Adds.ite (c : Prop) [Decidable c] (h : r.Adds r' read write ttl) :
    r.Adds (if c then r' else r) (c ∧ read) (fun f => c ∧ write f) (if c then ttl else id) := by
  by_cases hc : c
  · simpa [hc] using h
  · simpa [hc] using adds_nothing r

end Adds

theorem addRead_adds : r.Adds { r with read := true } True (fun _ => False) id where
  read := by simp
  flag f := by cases f <;> simp [CacheRequirements.flag]
  breakpoints := rfl
  openAITTL := rfl

theorem setTTL_adds (ttl : String) :
    r.Adds { r with openAITTL := ttl } False (fun _ => False) fun _ => ttl where
  read := by simp
  flag f := by cases f <;> simp [CacheRequirements.flag]
  breakpoints := rfl
  openAITTL := rfl

theorem addWriteTTL_adds (ttl : String) : r.Adds (r.addWriteTTL ttl) False (·.takes ttl) id := by
  simp only [addWriteTTL]
  split_ifs
  all_goals
    refine ⟨by simp, fun f => ?_, rfl, rfl⟩
    cases f <;> simp [CacheRequirements.flag, WriteFlag.takes, anyTTL, *]

theorem addDirective_some_eq (v : Json) :
    r.addDirective (some v) = r.addWriteTTL (directiveTTL v) := by
  cases v <;> rfl

theorem addDirective_adds (v : Option Json) :
    r.Adds (r.addDirective v) False (fun f => ∃ w, v = some w ∧ f.takes (directiveTTL w)) id := by
  rcases v with - | v
  · simpa [addDirective] using adds_nothing r
  · simpa [addDirective_some_eq] using addWriteTTL_adds r (directiveTTL v)

theorem addDirectives_adds (ms : List (String × Json)) :
    r.Adds (r.addDirectives ms) False (fun f => Directs f.takes ms) id := by
  simpa [Directs, addDirectives] using (addDirective_adds r (memberOf "cache_control" ms)).trans
    (addDirective_adds _ (memberOf "cachePoint" ms))

/-- A block leaves reads and the time to live of the request alone. -/
theorem blockFindings_rest (breakpoints : Bool) (ms : List (String × Json))
    (r : CacheRequirements) :
    ((blockFindings breakpoints ms r).read = true ↔ r.read = true) ∧
      (blockFindings breakpoints ms r).openAITTL = r.openAITTL := by
  have hadds := addDirectives_adds r ms
  rw [blockFindings]
  split <;> exact ⟨hadds.read.trans (or_iff_left id), hadds.openAITTL⟩

theorem finds_flag (breakpoints : Bool) (f : WriteFlag) :
    Finds breakpoints (·.flag f = true) (ShowsDirective f.takes) where
  found ms r hlisted := by
    have hflag : (blockFindings breakpoints ms r).flag f = (r.addDirectives ms).flag f := by
      unfold blockFindings
      split <;> cases f <;> rfl
    rw [hflag, (addDirectives_adds r ms).flag, ShowsDirective, and_iff_right hlisted]
  listed _ h := h.1

/-- What no block changes is found at no block. -/
theorem finds_nothing {breakpoints : Bool} {F : CacheRequirements → Prop}
    (hsame : ∀ ms r, F (blockFindings breakpoints ms r) ↔ F r) :
    Finds breakpoints F fun _ => False where
  found ms r _ := by rw [hsame, or_false]
  listed _ h := h.elim

theorem finds_breakpoint : Finds true (0 < ·.breakpoints) ShowsBreakpoint where
  found ms r _ := by
    have hcount := (addDirectives_adds r ms).breakpoints
    have hshows : (true && (cacheStringField ms "type" == "text" ||
        cacheStringField ms "type" == "input_text") &&
          (memberOf "prompt_cache_breakpoint" ms).isSome) = true ↔ ShowsBreakpoint ms := by
      simp [ShowsBreakpoint]
    rw [blockFindings]
    by_cases h : ShowsBreakpoint ms
    · rw [if_pos (hshows.2 h)]
      simp [h]
    · rw [if_neg (mt hshows.1 h), hcount]
      simp [h]
  listed ms h := by
    refine .inr ?_
    rcases h.1 with h | h <;> rw [h] <;> decide

theorem findsIn_flag (f : WriteFlag) :
    FindsIn (·.flag f = true) (ShowsDirective f.takes) (ShowsDirective f.takes) (Directs f.takes) :=
  ⟨finds_flag true f, finds_flag false f, fun ms r => (addDirectives_adds r ms).flag f⟩

theorem findsIn_read :
    FindsIn (·.read = true) (fun _ => False) (fun _ => False) (fun _ => False) where
  content := finds_nothing fun ms r => (blockFindings_rest true ms r).1
  parts := finds_nothing fun ms r => (blockFindings_rest false ms r).1
  tool ms r := (addDirectives_adds r ms).read

theorem findsIn_openAITTL (ttl : String) :
    FindsIn (·.openAITTL = ttl) (fun _ => False) (fun _ => False) (fun _ => False) where
  content := finds_nothing fun ms r => by rw [(blockFindings_rest true ms r).2]
  parts := finds_nothing fun ms r => by rw [(blockFindings_rest false ms r).2]
  tool ms r := by rw [(addDirectives_adds r ms).openAITTL, or_false, id]

theorem findsIn_breakpoint :
    FindsIn (0 < ·.breakpoints) ShowsBreakpoint (fun _ => False) (fun _ => False) where
  content := finds_breakpoint
  parts := finds_nothing fun ms r => by
    rw [show (blockFindings false ms r).breakpoints = r.breakpoints from
      (addDirectives_adds r ms).breakpoints]
  tool ms r := by rw [(addDirectives_adds r ms).breakpoints, or_false]

/-- What is never found is found nowhere. -/
theorem not_partsShow_false (ms : List (String × Json)) :
    ¬ PartsShow (fun _ => False) (fun _ => False) (fun _ => False) ms := by
  have hnever : FindsIn (fun _ => False) (fun _ => False) (fun _ => False) (fun _ => False) :=
    ⟨finds_nothing fun _ _ => Iff.rfl, finds_nothing fun _ _ => Iff.rfl, by simp⟩
  exact fun h => (found_parts hnever ms {}).2 (.inr h)

/-! ### What a body shows -/

/-- What a directive of the cache asks for. -/
inductive CacheNeed where
  | read | write
deriving DecidableEq

/-- The options of the cache ask for a write. -/
def OptionsWrite (takes : String → Prop) (v : Json) : Prop :=
  ∃ options, v = .obj options ∧
    (cacheStringField options "mode" = "explicit" ∨ cacheStringField options "ttl" ≠ "") ∧
    takes (cacheStringField options "ttl")

/-- The options of the cache ask for a read. -/
def OptionsRead (v : Json) : Prop :=
  ∃ options, v = .obj options ∧ cacheStringField options "mode" ≠ ""

/-- The time to live of the options, which is that of the breakpoints. -/
def optionsTTL (ms : List (String × Json)) : String :=
  ((memberOf "prompt_cache_options" ms).map directiveTTL).getD ""

/-- A body shows a write with a time to live in `takes`: under the exact names of
its members, at the root, on a block of a listed type, on a tool or as a breakpoint. -/
def ShowsWrite (takes : String → Prop) (ms : List (String × Json)) : Prop :=
  MemberShows (fun v => takes (directiveTTL v)) "cache_control" ms ∨
    MemberShows (OptionsWrite takes) "prompt_cache_options" ms ∨
    PartsShow (ShowsDirective takes) (ShowsDirective takes) (Directs takes) ms ∨
    PartsShow ShowsBreakpoint (fun _ => False) (fun _ => False) ms ∧ takes (optionsTTL ms)

/-- A body shows a directive. -/
def Shows : CacheNeed → List (String × Json) → Prop
  | .write, ms => ShowsWrite anyTTL ms
  | .read, ms =>
      (∃ key ∈ ["cachedContent", "prompt_cache_key", "prompt_cache_retention"],
        cacheStringField ms key ≠ "") ∨
      MemberShows OptionsRead "prompt_cache_options" ms

theorem addOptions_adds (v : Option Json) :
    r.Adds (r.addOptions v) (∃ w, v = some w ∧ OptionsRead w)
      (fun f => ∃ w, v = some w ∧ OptionsWrite f.takes w)
      (fun old => if (v.map directiveTTL).getD "" ≠ "" then (v.map directiveTTL).getD "" else old) := by
  rcases v with - | v
  · exact ⟨by simp [addOptions], by simp [addOptions], rfl, rfl⟩
  cases v with
  | obj options =>
    have hadds := (((addRead_adds r).ite (cacheStringField options "mode" ≠ "")).trans
      ((addWriteTTL_adds _ (cacheStringField options "ttl")).ite
        (cacheStringField options "mode" = "explicit" ∨ cacheStringField options "ttl" ≠ ""))).trans
      ((setTTL_adds _ (cacheStringField options "ttl")).ite (cacheStringField options "ttl" ≠ ""))
    refine hadds.of_iff (by simp [OptionsRead]) (by simp [OptionsWrite]) ?_
    by_cases h : cacheStringField options "ttl" = "" <;> simp [directiveTTL, h]
  | null | bool | int | real | str | arr =>
    exact ⟨by simp [addOptions, OptionsRead], by simp [addOptions, OptionsWrite], rfl, rfl⟩

theorem addRoot_adds (ms : List (String × Json)) :
    ({} : CacheRequirements).Adds (addRoot {} ms) (Shows .read ms)
      (fun f => MemberShows (fun v => f.takes (directiveTTL v)) "cache_control" ms ∨
        MemberShows (OptionsWrite f.takes) "prompt_cache_options" ms) (fun _ => optionsTTL ms) := by
  have hadds := (((((addRead_adds {}).ite (namesText ms "cachedContent" = true)).trans
    (addDirective_adds _ (memberOf "cache_control" ms))).trans
    ((addRead_adds _).ite (namesText ms "prompt_cache_key" = true))).trans
    ((addRead_adds _).ite (namesText ms "prompt_cache_retention" = true))).trans
    (addOptions_adds _ (memberOf "prompt_cache_options" ms))
  exact hadds.of_iff (by simp [Shows, MemberShows, namesText, or_assoc]) (by simp [MemberShows])
    (by simp [optionsTTL])

/-- The findings of a body after its breakpoints are counted. -/
theorem inspectCacheJSON_found (ms : List (String × Json)) :
    ((inspectCacheJSON (.obj ms) {}).read = true ↔ Shows .read ms) ∧
    ∀ f, (inspectCacheJSON (.obj ms) {}).flag f = true ↔ ShowsWrite f.takes ms := by
  obtain ⟨hread, hflag, hcount, httl⟩ := addRoot_adds ms
  have hflags := fun f => found_parts (findsIn_flag f) ms (addRoot {} ms)
  have hreads := found_parts findsIn_read ms (addRoot {} ms)
  have hcounts := found_parts findsIn_breakpoint ms (addRoot {} ms)
  have httls := found_parts (findsIn_openAITTL (optionsTTL ms)) ms (addRoot {} ms)
  rw [inspectCacheJSON]
  generalize cacheContainers.foldl (fun r c => inspectMember c.2 ms c.1 r) (addRoot {} ms) = r at *
  have hkept : r.openAITTL = optionsTTL ms := httls.2 (.inl httl)
  have hnone : ∀ f, ({} : CacheRequirements).flag f = false := fun f => by cases f <;> rfl
  have hadds := (addWriteTTL_adds r r.openAITTL).ite (0 < r.breakpoints)
  rw [hread, or_iff_left (not_partsShow_false ms)] at hreads
  rw [hcount, or_iff_right (by decide)] at hcounts
  refine ⟨?_, fun f => ?_⟩
  · rw [hadds.read, hreads]
    simp
  · rw [hadds.flag, hflags, hflag, hcounts, hkept, hnone, ShowsWrite]
    simp [or_assoc]

def CacheRequirements.reports : CacheNeed → Bool
  | .read => r.read
  | .write => r.write

/-- **What is reported.**  The search reports a need exactly if the body shows it. -/
theorem reports_iff_shows (need : CacheNeed) (ms : List (String × Json)) :
    (inspectCacheJSON (.obj ms) {}).reports need = true ↔ Shows need ms := by
  obtain ⟨hread, hflag⟩ := inspectCacheJSON_found ms
  cases need with
  | read => exact hread
  | write => exact hflag .write

end Hoorific
