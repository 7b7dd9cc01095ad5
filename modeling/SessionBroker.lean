import SessionBroker.Admin
import SessionBroker.Audit
import SessionBroker.AuditPages
import SessionBroker.Backoff
import SessionBroker.BaseUrl
import SessionBroker.BrokerFetch
import SessionBroker.ClientPace
import SessionBroker.ClientStatus
import SessionBroker.ClientTimer
import SessionBroker.Coalescing
import SessionBroker.Converge
import SessionBroker.Cookies
import SessionBroker.Crash
import SessionBroker.Cutoff
import SessionBroker.Depth
import SessionBroker.Directory
import SessionBroker.Edge
import SessionBroker.Endings
import SessionBroker.Eviction
import SessionBroker.Exchange
import SessionBroker.Expiries
import SessionBroker.Fanout
import SessionBroker.Grants
import SessionBroker.HttpDate
import SessionBroker.IdpGrants
import SessionBroker.Issuer
import SessionBroker.Jwt
import SessionBroker.KeyDates
import SessionBroker.KeyView
import SessionBroker.Keyfile
import SessionBroker.Leader
import SessionBroker.Lib.Deferred
import SessionBroker.Lifecycle
import SessionBroker.LogFilter
import SessionBroker.MetaCookie
import SessionBroker.Metrics
import SessionBroker.MetricsPage
import SessionBroker.Migrations
import SessionBroker.MockIdp
import SessionBroker.Orphans
import SessionBroker.Overflow
import SessionBroker.PendingLogins
import SessionBroker.ProviderKeys
import SessionBroker.ProviderSync
import SessionBroker.RateBound
import SessionBroker.Reaped
import SessionBroker.Reaper
import SessionBroker.Reconnect
import SessionBroker.RefreshMetric
import SessionBroker.RefreshToken
import SessionBroker.Repeats
import SessionBroker.Reschedule
import SessionBroker.Resealing
import SessionBroker.Resurrect
import SessionBroker.Retries
import SessionBroker.RetryAfter
import SessionBroker.ReturnTo
import SessionBroker.Revoked
import SessionBroker.Rotation
import SessionBroker.Secrets
import SessionBroker.SessionCookies
import SessionBroker.SessionRoutes
import SessionBroker.SignedIn
import SessionBroker.SigningKid
import SessionBroker.SingleUse
import SessionBroker.Subjects
import SessionBroker.Sweeps
import SessionBroker.Tabs
import SessionBroker.Tail
import SessionBroker.Ticks
import SessionBroker.TokenGrants
import SessionBroker.TokenRoute
import SessionBroker.Toml
import SessionBroker.Undead
import SessionBroker.Usable
import SessionBroker.UserGrants
import SessionBroker.UserToken
import SessionBroker.Verifiers
