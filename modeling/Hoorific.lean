import Hoorific.Jobs.Claims
import Hoorific.Store.Limits
import Hoorific.Store.Routable
import Hoorific.Store.ReplayProtocol
import Hoorific.Jobs.Leases
import Hoorific.Credential.Logins
import Hoorific.Credential.SingleUse
import Hoorific.Store.Accounts
import Hoorific.Store.Charging
import Hoorific.Gateway.Realtime
import Hoorific.App.RuntimeState
import Hoorific.Store.Owners
import Hoorific.Store.Identities
import Hoorific.Store.Versions
import Hoorific.Store.KeyLifetimes
import Hoorific.Protocol.Ollama
import Hoorific.Protocol.ChatDelivery
import Hoorific.Pricing
import Hoorific.Store.Agreement
import Hoorific.Store.Sweeps
import Hoorific.Store.Replays
import Hoorific.Gateway.UsageEvidence
import Hoorific.Store.CacheDirectives
import Hoorific.Protocol.AnthropicStream
import Hoorific.Jobs.Rereads
import Hoorific.Protocol.Framing
import Hoorific.Gateway.NativeJSON
import Hoorific.Gateway.NativeUsage
import Hoorific.Store.Pages
import Hoorific.Gateway.Fingerprint
import Hoorific.Transport.ClientCache
import Hoorific.Protocol.BedrockEncode
