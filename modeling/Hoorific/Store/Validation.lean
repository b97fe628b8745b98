/-
The rules a single resource has to meet before it is stored
(`validateResource`), and among them the rules of a client profile, which
the snapshot and the catalog check again.

Data that does not decode is `none`.  `Platform` has what is left to the
platform: the mapping of letters to lower case, the comparison of texts
that ignores case, the JSON text of a string, and the parsing and the
policy of base URLs.
-/
import Hoorific.Lib.Check
import Hoorific.Store.Tenancy

namespace Hoorific

open Check

/-- What the rules take from the platform: the case mapping, equality under case
folding, the JSON text of a string, and whether a base URL parses and is
admitted under the settings of its connection. -/
structure Platform where
  letters : CaseMap
  equalFold : String → String → Bool
  marshal : String → String
  validBaseURL : String → List (String × String) → Bool

/-! ### Lists of names -/

/-- `validNames`: references without repetition; `*` only where it is allowed. -/
def validNames (xs : List String) (wild : Bool) : Bool :=
  xs.all (fun s => validRef s && (wild || s != "*")) && decide xs.Nodup

def validOperations (xs : List Operation) : Bool :=
  xs.all (fun s => validRef s && !s.toList.any fun c => " /\\\t\n".toList.contains c) &&
    decide xs.Nodup

/-! ### Prices -/

/-- `validPriceRate`: unknown or not negative. -/
def validPriceRate (rate : Option Int) : Bool := rate.all fun r => decide (0 ≤ r)

/-- The rates of a price schedule. -/
def PriceSchedule.rates (p : PriceSchedule) : List (Option Int) :=
  [p.inputPerMillion, p.outputPerMillion, p.cachedInputPerMillion, p.cacheWriteInputPerMillion,
   p.cacheWrite5mPerMillion, p.cacheWrite1hPerMillion, p.maximumUnitCost]

def validPriceSchedule (price : PriceSchedule) : Bool :=
  validRef price.version && price.rates.all validPriceRate

/-! ### Client profiles -/

/-- Why a client profile is rejected: a plain error, or a gateway error
(`invalid_request`, 400) about a parameter. -/
inductive ProfileError where
  | plain (message : String)
  | passthrough (param message : String)
deriving DecidableEq

/-- `err.Error()`. -/
def ProfileError.message : ProfileError → String
  | .plain message => message
  | .passthrough _ message => message

def clientProfileHeaderNames : List String :=
  ["user-agent", "originator", "version", "http-referer", "x-title", "x-zcode-app-version",
   "x-zcode-agent", "anthropic-beta", "x-stainless-lang", "x-stainless-package-version",
   "x-stainless-os", "x-stainless-arch", "x-stainless-runtime", "x-stainless-runtime-version"]

/-- The connectors a preset works with; an unknown preset has none. -/
def clientProfileConnectors : Preset → Option (List String)
  | .custom => some ["openai", "anthropic", "compatible", "codex-subscription"]
  | .codexCli => some ["codex-subscription", "openai", "compatible"]
  | .codexDesktop => some ["codex-subscription", "openai", "compatible"]
  | .zcodeDesktop => some ["compatible", "anthropic", "openai"]
  | .codexPassthrough => some ["openai", "compatible", "codex-subscription"]
  | .codexExec => some ["openai", "compatible", "codex-subscription"]
  | .other _ => none

def codexExecVersion : String := "0.153.4"

def isLowerHex (c : Char) : Bool := ('0' ≤ c && c ≤ '9') || ('a' ≤ c && c ≤ 'f')

def isCanonicalUUIDv4 (value : String) : Bool :=
  let cs := value.toList
  cs.length == 36 &&
    cs.zipIdx.all (fun x => if [8, 13, 18, 23].contains x.2 then x.1 == '-' else isLowerHex x.1) &&
    cs[14]? == some '4' && cs[19]?.any fun c => ['8', '9', 'a', 'b'].contains c

def validateClientProfileText (field value : String) (limit : Nat) (required : Bool) :
    Except ProfileError Unit := do
  if value = "" then
    require (!required) (.plain (field ++ " is required"))
  else do
    require (decide (value.utf8ByteSize ≤ limit) && trimSpace value == value)
      (.plain (field ++ " is invalid"))
    require (!value.toList.any isControl) (.plain (field ++ " contains a control character"))

variable (platform : Platform)

/-- The loop body over the headers: the folded names seen and the bytes so far. -/
def checkClientProfileHeader (acc : List String × Nat) (header : String × String) :
    Except ProfileError (List String × Nat) := do
  let folded := platform.letters.toLower header.1
  require (clientProfileHeaderNames.contains folded)
    (.plain "client_profile.headers contains an unsupported header")
  require (!acc.1.contains folded) (.plain "client_profile.headers contains duplicate header names")
  validateClientProfileText "client_profile.headers" header.2 4096 true
  let total := acc.2 + header.1.utf8ByteSize + header.2.utf8ByteSize
  require (decide (total ≤ 16 * 1024)) (.plain "client_profile.headers is too large")
  pure (folded :: acc.1, total)

def clientProfileHasHeader (headers : List (String × String)) (name : String) : Bool :=
  headers.any fun h => platform.equalFold h.1 name

/-- The part of `validateShape` for presets with headers of their own. -/
def ClientProfile.validateHeaders (p : ClientProfile) : Except ProfileError Unit := do
  if p.version ≠ "" then
    validateClientProfileText "client_profile.version" p.version 256 false
  require (p.preset != .zcodeDesktop || p.version != "")
    (.plain "client_profile.version is required for this preset")
  require (decide (p.headers.length ≤ 32))
    (.plain "client_profile.headers contains too many entries")
  let _ ← p.headers.foldlM (checkClientProfileHeader platform) ([], 0)
  require (p.preset != .codexCli || p.version != "" ||
      clientProfileHasHeader platform p.headers "User-Agent")
    (.plain
      "client_profile.version or client_profile.headers.user_agent is required for this preset")
  require (p.preset != .codexDesktop || clientProfileHasHeader platform p.headers "Originator")
    (.plain "client_profile.headers.originator is required for this preset")
  require (p.preset != .codexDesktop || clientProfileHasHeader platform p.headers "User-Agent")
    (.plain "client_profile.headers.user_agent is required for this preset")

def ClientProfile.validateShape (p : ClientProfile) : Except ProfileError Unit := do
  require (p.preset != .other "") (.plain "client_profile.preset is required")
  require (clientProfileConnectors p.preset).isSome (.plain "client_profile.preset is unsupported")
  require (p.preset == .codexExec || p.installationID == "")
    (.plain "client_profile.installation_id is only valid for codex-exec")
  match p.preset with
  | .codexExec => do
    require (p.version == "" || p.version == codexExecVersion)
      (.plain ("client_profile.version must be empty or " ++ codexExecVersion ++ " for codex-exec"))
    require (isCanonicalUUIDv4 p.installationID)
      (.plain "client_profile.installation_id must be a canonical UUIDv4")
    require p.headers.isEmpty (.plain "client_profile.headers are not supported for codex-exec")
  | .codexPassthrough => do
    require (p.version == "")
      (.passthrough "client_profile.version" "codex-passthrough requires an empty version")
    require p.headers.isEmpty
      (.passthrough "client_profile.headers" "codex-passthrough requires empty static headers")
  | _ => p.validateHeaders platform

/-- `ClientProfile.Validate`: no profile is valid. -/
def validateClientProfile (profile : Option ClientProfile) (connector : String) :
    Except ProfileError Unit :=
  match profile with
  | none => .ok ()
  | some p => do
    p.validateShape platform
    match clientProfileConnectors p.preset with
    | none => .error (.plain "client_profile.preset is unsupported")
    | some connectors =>
      require (connectors.contains connector)
        (if p.preset = .codexPassthrough then
          .passthrough "client_profile.preset" "codex-passthrough is incompatible with this connector"
        else .plain "client_profile.preset is incompatible with connector")

/-! ### Resources -/

def ResourceKind.text : ResourceKind → String
  | .connections => "connections" | .models => "models" | .modelAliases => "model_aliases"
  | .routePolicies => "route_policies" | .policyLimits => "policy_limits"
  | .accountPools => "account_pools" | .prices => "prices" | .apiKeys => "api_keys"

def validateConnection (x : ConnectionData) (bad : StoreError) : Except StoreError Unit := do
  require (validRef x.connector && (x.accountID == "" || validRef x.accountID)) bad
  match validateClientProfile platform x.clientProfile x.connector with
  | .ok _ => require (x.baseURL == "" || platform.validBaseURL x.baseURL x.settings) bad
  | .error e => .error (problem "invalid_resource" 400 e.message)

/-- A feature is declared by name, as supported, unsupported or unknown. -/
def validFeature (f : String × Support) : Bool :=
  validRef f.1 && (f.2 == .supported || f.2 == .unsupported || f.2 == .unknown)

def validModel (x : ModelData) : Bool :=
  validRef x.connectionID && validRef x.upstreamID && !x.operations.isEmpty &&
  validOperations x.operations && x.contextLimit.all (fun n => decide (0 ≤ n)) &&
  x.outputLimit.all (fun n => decide (0 ≤ n)) && validNames x.inputModalities false &&
  validNames x.outputModalities false && x.features.all validFeature &&
  x.price.all validPriceSchedule

/-- Three capital letters. -/
def validCurrency (currency : String) : Bool :=
  currency.utf8ByteSize == 3 && currency.toList.all fun c => 'A' ≤ c && c ≤ 'Z'

def validPrice (x : PriceData) : Bool :=
  validRef x.modelID && validCurrency x.currency && decide (0 ≤ x.inputPerMillion) &&
  decide (0 ≤ x.outputPerMillion) && validPriceRate x.cachedInputPerMillion &&
  validPriceRate x.cacheWriteInputPerMillion && validPriceRate x.cacheWrite5mPerMillion &&
  validPriceRate x.cacheWrite1hPerMillion

def validTarget (t : RouteTarget) : Bool :=
  validRef t.connectionID && validRef t.modelID && decide (0 ≤ t.priority) &&
  decide (0 < t.weight) && (t.region == "" || validRef t.region)

def validRoutePolicy (x : RoutePolicyData) : Bool :=
  validRef x.alias && !x.targets.isEmpty && validNames x.residency false &&
  (x.accountPoolID == "" || validRef x.accountPoolID) && x.targets.all validTarget

def validPolicyLimit (x : PolicyLimitData) : Bool :=
  validRef x.scope.text && validRef x.scopeID && decide (0 ≤ x.requestsPerMinute) &&
  decide (0 ≤ x.tokensPerMinute) && decide (0 ≤ x.maxCost) && decide (0 ≤ x.concurrency) &&
  decide (0 ≤ x.outstandingJobs) &&
  (x.costWindow == .other "" || x.costWindow == .total || x.costWindow == .daily ||
    x.costWindow == .monthly)

def validAccountPool (x : AccountData) : Bool :=
  validRef x.provider && validNames x.accountIDs false

def validKey (x : KeyData) : Bool :=
  !x.permissions.isEmpty && validNames x.permissions true && validNames x.aliases true &&
  validNames x.connections true && validKeyOperations x.operations &&
  (x.role == .owner || x.role == .admin || x.role == .operator || x.role == .viewer)

/-- The rules of one kind of resource, on decoded data. -/
def validateData : (kind : ResourceKind) → kind.Data → StoreError → Except StoreError Unit
  | .connections, x, bad => validateConnection platform x bad
  | .models, x, bad => require (validModel x) bad
  | .modelAliases, x, bad => require (validNames (AliasData.modelIDs x) false) bad
  | .routePolicies, x, bad => require (validRoutePolicy x) bad
  | .policyLimits, x, bad => require (validPolicyLimit x) bad
  | .accountPools, x, bad => require (validAccountPool x) bad
  | .prices, x, bad => require (validPrice x) bad
  | .apiKeys, x, bad => require (validKey x) bad

/-- The data as it is written: a connection has the identity of its account
and no other member that `preserveIdentity` compares. -/
def ResourceKind.marshalled : (kind : ResourceKind) → kind.Data → kind.Data
  | .connections, x =>
    ({ (x : ConnectionData) with
        identity := [("account_id", platform.marshal (ConnectionData.accountID x))] } :
      ConnectionData)
  | .models, x => x
  | .modelAliases, x => x
  | .routePolicies, x => x
  | .policyLimits, x => x
  | .accountPools, x => x
  | .prices, x => x
  | .apiKeys, x => x

def validateResource (kind : ResourceKind) (data : Option kind.Data) :
    Except StoreError kind.Data :=
  let bad := problem "invalid_resource" 400 ("invalid " ++ kind.text ++ " resource")
  match data with
  | none => .error bad
  | some x => do
    validateData platform kind x bad
    pure (kind.marshalled platform x)

/-- Data that meets the rules of its kind. -/
def ValidData (kind : ResourceKind) (x : kind.Data) : Prop :=
  ∀ bad, validateData platform kind x bad = .ok ()

variable {kind : ResourceKind}

theorem validateData_any {x : kind.Data} {bad : StoreError}
    (h : validateData platform kind x bad = .ok ()) : ValidData platform kind x := by
  intro bad'
  cases kind with
  | connections =>
    simp only [validateData, validateConnection, bind_ok, require_ok] at h ⊢
    obtain ⟨u, hrefs, hrest⟩ := h
    refine ⟨u, hrefs, ?_⟩
    split at hrest
    · simpa using hrest
    · cases hrest
  | models | modelAliases | routePolicies | policyLimits | accountPools | prices | apiKeys =>
    simp only [validateData, require_ok] at h ⊢
    exact h

/-- Validated data was submitted, meets the rules and is written as marshalled. -/
theorem validateResource_ok {data : Option kind.Data} {x : kind.Data}
    (h : validateResource platform kind data = .ok x) :
    ∃ y, data = some y ∧ ValidData platform kind y ∧ x = kind.marshalled platform y := by
  unfold validateResource at h
  rcases data with - | y
  · cases h
  simp only [bind_ok, pure_ok] at h
  obtain ⟨⟨⟩, hvalid, rfl⟩ := h
  exact ⟨y, rfl, validateData_any platform hvalid, rfl⟩

/-- Marshalling keeps the rules. -/
theorem ValidData.marshalled {x : kind.Data}
    (h : ValidData platform kind x) : ValidData platform kind (kind.marshalled platform x) := by
  intro bad
  cases kind with
  | connections | models | modelAliases | routePolicies | policyLimits | accountPools | prices
  | apiKeys => exact h bad

end Hoorific
