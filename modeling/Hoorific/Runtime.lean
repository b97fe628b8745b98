/-
The runtime view of a tenant's configuration: the connections, models,
aliases, route policies and account pools that requests are routed by.
The store produces a `RuntimeSnapshot`, the catalog compiles it, routing
reads it.
-/
import Hoorific.Store.Schema

namespace Hoorific

structure Connection where
  tenantID : String := ""
  id : String := ""
  version : Int := 0
  connector : String := ""
  accountID : String := ""
  baseURL : String := ""
  region : String := ""
  project : String := ""
  dedicated : Bool := false
  settings : List (String × String) := []
  clientProfile : Option ClientProfile := none
deriving DecidableEq

/-- `Settings[key]`: the empty text for an absent key. -/
def Connection.setting (c : Connection) (key : String) : String := (c.settings.lookup key).getD ""

/-- `Settings["disabled"] == "true"`. -/
def Connection.disabled (c : Connection) : Bool := c.setting "disabled" == "true"

structure Model where
  catalogID : String
  id : String
  connectionID : String
  version : Int
  operations : List Operation
  inputModalities : List String := []
  outputModalities : List String := []
  features : List (String × Support) := []
  contextLimit : Option Int := none
  outputLimit : Option Int := none
  provenance : String := ""
  price : Option PriceSchedule := none
deriving DecidableEq

structure RoutePolicy where
  residency : List String := []
  fallback : Bool := false
  accountPoolID : String := ""
  affinity : Bool := false
deriving DecidableEq

structure AccountPool where
  provider : String
  accountIDs : List String
deriving DecidableEq

structure TenantPolicy where
  allowedOrigins : List String := []
  maxBodyBytes : Int := 0
  maxEventBytes : Int := 0
deriving DecidableEq

structure RuntimeSnapshot where
  revision : Int
  connections : Table String Connection
  models : Table String Model
  aliases : Table String (List RouteTarget) := ∅
  routePolicies : Table String RoutePolicy := ∅
  accountPools : Table String AccountPool := ∅
  policy : TenantPolicy := {}

/-- The pair a target is known by. -/
def RouteTarget.pair (t : RouteTarget) : String × String := (t.connectionID, t.modelID)

end Hoorific
