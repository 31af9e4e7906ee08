import Harmost.Support.PrefixCode
import Harmost.Support.Text
import Harmost.Support.EscapeAscii
import Harmost.Support.Framing
import Harmost.Support.Utf8
import Harmost.Support.FormUrlencoded
import Harmost.Support.IpAddr
import Harmost.Support.AssocMap
import Harmost.Support.Rewrite
import Harmost.Support.Checks
import Harmost.Support.Run
import Harmost.Support.Threads
import Harmost.Support.Semaphore
import Harmost.Support.WrappingScan
import Harmost.Support.Hysteresis
import Harmost.Support.Reader
import Harmost.Support.Json
import Harmost.Support.Bits
import Harmost.Support.CountBy
import Harmost.Support.Slice
import Harmost.Support.Quoting
import Harmost.Support.Message
import Harmost.Support.Yaml.Layout
import Harmost.Support.Yaml.Line
import Harmost.Support.Yaml.Block
import Harmost.Support.Yaml.Stream
import Harmost.Http
import Harmost.Http.Grammar
import Harmost.Classifier
import Harmost.Config.Schema
import Harmost.Config.Settings
import Harmost.Config.Validation
import Harmost.Config.Units
import Harmost.Config.RouteChecks
import Harmost.Cache.Key
import Harmost.Cache.Variant
import Harmost.Cache.Policy
import Harmost.Cache.Vary
import Harmost.Cache.Directives
import Harmost.Cache.Query
import Harmost.Policy.Snapshot
import Harmost.Policy.HostAgreement
import Harmost.Proxy.Filters
import Harmost.Proxy.Persistence
import Harmost.Proxy.Refusal
import Harmost.Proxy.Bypass
import Harmost.Proxy.Expiry
import Harmost.Proxy.KeySeparation
import Harmost.Proxy.Spool
import Harmost.Proxy.SpoolBudget
import Harmost.Cache.ContentCoding
import Harmost.Cache.Store.Model
import Harmost.Cache.Store.Operations
import Harmost.Cache.Store.Accounting
import Harmost.Cache.Store.System
import Harmost.Cache.Store.Effect
import Harmost.Cache.Store.Invariant
import Harmost.Cache.Store.Purge
import Harmost.Cache.Store.Readers
import Harmost.Cache.Store.Stream
import Harmost.Cache.Store.Hit
import Harmost.Cache.Store.Handover
import Harmost.Cache.Store.Coherence
import Harmost.Cache.Store.PurgeExact
import Harmost.Cache.Store.Tags
import Harmost.Cache.Store.Eviction
import Harmost.Admission.Limiter
import Harmost.Admission.WaitQueue
import Harmost.Admission.Controller
import Harmost.Admission.Registry
import Harmost.Policy.Reload
import Harmost.Policy.Capacity
import Harmost.Policy.History
import Harmost.Net.Forwarded
import Harmost.Net.Cidr
import Harmost.Admin.Purge
import Harmost.Admin.Drain
import Harmost.Upstream.Window
import Harmost.Upstream.Events
import Harmost.Upstream.EventLog
import Harmost.Upstream.Retry
import Harmost.Upstream.Breaker
import Harmost.Upstream.Trip
import Harmost.Upstream.Pool
import Harmost.Upstream.Load
import Harmost.Upstream.Sockets
import Harmost.Upstream.Selection
import Harmost.Upstream.Health
import Harmost.Upstream.Gate
import Harmost.Upstream.Gate.Order
import Harmost.Upstream.Gate.Follow
import Harmost.Upstream.Gate.Linearization
import Harmost.Upstream.Shared
import Harmost.Proxy.Origin.Hooks
import Harmost.Proxy.Origin.Discipline
import Harmost.Proxy.Origin.Attempts
import Harmost.Next.Build
import Harmost.Next.Policy
import Harmost.Next.Generate
import Harmost.Next.Exposure
import Harmost.Next.Acceptance
import Harmost.Next.Tiers
import Harmost.Next.Validity
import Harmost.Next.PolicyLimits
import Harmost.Next.Explain
import Harmost.Next.Purge
import Harmost.Next.PolicyText
import Harmost.Next.PolicyReading
import Harmost.Next.PolicyWriting
import Harmost.Next.ToFile
import Harmost.Next.Replacement
import Harmost.Next.Yaml
import Harmost.Next.Render
import Harmost.Next.Document
import Harmost.Next.Injection
import Harmost.Telemetry.Json
import Harmost.Telemetry.AccessLog
import Harmost.Telemetry.Trace
import Harmost.Telemetry.Otlp
import Harmost.Telemetry.Collector
import Harmost.Telemetry.Exporter
import Harmost.Admin.Endpoint
