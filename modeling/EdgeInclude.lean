import EdgeInclude.Backend.Call
import EdgeInclude.Backend.Fetch
import EdgeInclude.Backend.Options
import EdgeInclude.Backend.Program
import EdgeInclude.Backend.Registry
import EdgeInclude.Backend.Store
import EdgeInclude.Backend.Web
import EdgeInclude.Breaker
import EdgeInclude.Calendar
import EdgeInclude.Cancel
import EdgeInclude.Condition
import EdgeInclude.Config.Basic
import EdgeInclude.Config.Read
import EdgeInclude.Copy
import EdgeInclude.Datum.Basic
import EdgeInclude.Datum.Compact
import EdgeInclude.Duration
import EdgeInclude.Eligibility
import EdgeInclude.Engine.Basic
import EdgeInclude.Engine.Together
import EdgeInclude.Failure
import EdgeInclude.FragmentCache
import EdgeInclude.Hash.Xxh3
import EdgeInclude.Http.Headers
import EdgeInclude.Http.Percent
import EdgeInclude.Http.Target
import EdgeInclude.Injector
import EdgeInclude.Main
import EdgeInclude.Metrics
import EdgeInclude.Metrics.Exposition
import EdgeInclude.Number.Decimal
import EdgeInclude.Page.Cache
import EdgeInclude.Page.Fingerprint
import EdgeInclude.Page.Flight
import EdgeInclude.Page.Parser
import EdgeInclude.Plan
import EdgeInclude.Proofs.Backend.Completeness
import EdgeInclude.Proofs.Backend.Origin
import EdgeInclude.Proofs.Backend.Routing
import EdgeInclude.Proofs.Breaker.Runs
import EdgeInclude.Proofs.Breaker.Steps
import EdgeInclude.Proofs.Breaker.Waiting
import EdgeInclude.Proofs.Condition.Quoted
import EdgeInclude.Proofs.Duration.Grammar
import EdgeInclude.Proofs.Engine.ContentLength
import EdgeInclude.Proofs.Engine.Fields
import EdgeInclude.Proofs.Engine.Persistence
import EdgeInclude.Proofs.Engine.Process
import EdgeInclude.Proofs.Engine.Streaming
import EdgeInclude.Proofs.Fragment.Accounting
import EdgeInclude.Proofs.Fragment.History
import EdgeInclude.Proofs.Http.Values
import EdgeInclude.Proofs.Occurrence
import EdgeInclude.Proofs.Page.Acts
import EdgeInclude.Proofs.Page.Burst
import EdgeInclude.Proofs.Page.Cache
import EdgeInclude.Proofs.Page.Desertion
import EdgeInclude.Proofs.Page.Fitting
import EdgeInclude.Proofs.Page.Identity
import EdgeInclude.Proofs.Page.Joined
import EdgeInclude.Proofs.Page.Kinds
import EdgeInclude.Proofs.Page.Moves
import EdgeInclude.Proofs.Page.Rounds
import EdgeInclude.Proofs.Page.Schedule
import EdgeInclude.Proofs.Page.Sharing
import EdgeInclude.Proofs.Page.SingleFlight
import EdgeInclude.Proofs.Page.Store
import EdgeInclude.Proofs.Page.Tasks
import EdgeInclude.Proofs.Page.Transparency
import EdgeInclude.Proofs.Proxy.Answer
import EdgeInclude.Proofs.Proxy.Framing
import EdgeInclude.Proofs.Proxy.Intake
import EdgeInclude.Proofs.Proxy.Sending
import EdgeInclude.Proofs.Proxy.Upstream
import EdgeInclude.Proofs.Purge.Eviction
import EdgeInclude.Proofs.Resolver.Assembly
import EdgeInclude.Proofs.Resolver.Counting
import EdgeInclude.Proofs.Resolver.Fallback
import EdgeInclude.Proofs.Resolver.Faulty
import EdgeInclude.Proofs.Resolver.Idle
import EdgeInclude.Proofs.Resolver.Provenance
import EdgeInclude.Proofs.Resolver.Returned
import EdgeInclude.Proofs.Resolver.Runs
import EdgeInclude.Proofs.Resolver.Spans
import EdgeInclude.Proofs.Resolver.Together
import EdgeInclude.Proofs.Resolver.Turns
import EdgeInclude.Proofs.Resolver.Unordered
import EdgeInclude.Proofs.Resolver.Withdrawal
import EdgeInclude.Proofs.Resolver.World
import EdgeInclude.Proofs.Splice.Bytewise
import EdgeInclude.Proofs.Splice.Copying
import EdgeInclude.Proofs.Splice.Disjoint
import EdgeInclude.Proofs.Splice.Length
import EdgeInclude.Proofs.Splice.Ordering
import EdgeInclude.Proofs.Splice.Stream
import EdgeInclude.Proofs.Tag.Attributes
import EdgeInclude.Proofs.Tag.Candidates
import EdgeInclude.Proofs.Tag.Chunks
import EdgeInclude.Proofs.Tag.Faults
import EdgeInclude.Proofs.Tag.Scanning
import EdgeInclude.Proofs.Tally
import EdgeInclude.Proofs.Tag.Tracking
import EdgeInclude.Proofs.Template.Compile
import EdgeInclude.Proofs.Text.Glob
import EdgeInclude.Proxy.Basic
import EdgeInclude.Proxy.Origin
import EdgeInclude.Purge.Basic
import EdgeInclude.Purge.Metrics
import EdgeInclude.Replacement
import EdgeInclude.Request
import EdgeInclude.Resolver.Agenda
import EdgeInclude.Resolver.Basic
import EdgeInclude.Resolver.World
import EdgeInclude.Simulation
import EdgeInclude.Splice
import EdgeInclude.Stream.Reader
import EdgeInclude.Tag.Attributes
import EdgeInclude.Tag.Grammar
import EdgeInclude.Tag.Include
import EdgeInclude.Tag.Raw
import EdgeInclude.Tag.Scanner
import EdgeInclude.Template
import EdgeInclude.Text.Basic
import EdgeInclude.Text.Printable
import EdgeInclude.Text.Quoted
import EdgeInclude.Text.Search
import EdgeInclude.Text.Utf8
import EdgeInclude.Url.Basic
import EdgeInclude.Url.Host
import EdgeInclude.Url.HostName
import EdgeInclude.Url.Punycode
import EdgeInclude.Url.Read
import EdgeInclude.Yaml.Read
import EdgeInclude.Yaml.Token
