import IngressCache.Acme
import IngressCache.Change.Aggregator
import IngressCache.Change.Basic
import IngressCache.Change.Pending
import IngressCache.Change.Signals
import IngressCache.Change.Snapshot
import IngressCache.Cluster.Call
import IngressCache.Collections.Dict
import IngressCache.Collections.Entries
import IngressCache.Collections.Table
import IngressCache.Controller
import IngressCache.Credential.Der
import IngressCache.Credential.Pem
import IngressCache.Credential.RsaKey
import IngressCache.Credential.X509.Certificate
import IngressCache.Credential.X509.Time
import IngressCache.Decimal.Shortest
import IngressCache.Encoding.Base64
import IngressCache.Encoding.Bytes
import IngressCache.Encoding.Hex
import IngressCache.Encoding.Sha256
import IngressCache.Encoding.Utf8
import IngressCache.Failure
import IngressCache.Json.Fault
import IngressCache.Json.Plain
import IngressCache.Json.Reader
import IngressCache.Json.Scan
import IngressCache.Json.Value
import IngressCache.Main
import IngressCache.Material.CertStore
import IngressCache.Material.Directory
import IngressCache.Material.Handle
import IngressCache.Material.Rendering
import IngressCache.Material.SecretStore
import IngressCache.Metrics.Basic
import IngressCache.Metrics.Endpoint
import IngressCache.Metrics.Exposition
import IngressCache.Object.Basic
import IngressCache.Object.IngressClass
import IngressCache.Object.Key
import IngressCache.Object.Kind
import IngressCache.Object.Lister
import IngressCache.Object.Lookup
import IngressCache.Reference.Policy
import IngressCache.Reference.Resolver
import IngressCache.Reference.Target
import IngressCache.Reference.Tracker
import IngressCache.Session.Basic
import IngressCache.Session.Run
import IngressCache.Session.Step
import IngressCache.Settings.Basic
import IngressCache.Settings.Form
import IngressCache.Settings.Variables
import IngressCache.Text.Blank
import IngressCache.Text.Hidden
import IngressCache.Text.Quoted
import IngressCache.Time.Date
import IngressCache.Time.Instant
import IngressCache.Time.Rfc3339
import IngressCache.Warning
import IngressCache.Watch.Report
import IngressCache.Watch.Stream
import IngressCache.Proofs.Object.KeyNotation
import IngressCache.Proofs.Object.Listed
import IngressCache.Proofs.Runs
import IngressCache.Proofs.Material.Files
import IngressCache.Proofs.Material.Following
import IngressCache.Proofs.Controller.Activity
import IngressCache.Proofs.Controller.CachedAnswers
import IngressCache.Proofs.Material.FileContents
import IngressCache.Proofs.Material.Separation
import IngressCache.Proofs.Change.Window
import IngressCache.Proofs.Controller.Delivery
import IngressCache.Proofs.Change.ConfigCopy
import IngressCache.Proofs.Controller.OpenWindow
import IngressCache.Proofs.Controller.ConfigFollowing
import IngressCache.Proofs.Controller.WakeUp
import IngressCache.Proofs.Controller.Confinement
import IngressCache.Proofs.Acme.AccountCalls
import IngressCache.Proofs.Material.Interleaving
import IngressCache.Proofs.Material.InFlight
import IngressCache.Proofs.Reference.AccessPolicy
import IngressCache.Proofs.Reference.Invalidation
import IngressCache.Proofs.Material.Residue
import IngressCache.Proofs.Watch.Replica
import IngressCache.Proofs.Controller.Completeness
import IngressCache.Proofs.Controller.ContentChain
import IngressCache.Proofs.Material.FileNames
import IngressCache.Proofs.Material.Inventory
import IngressCache.Proofs.Controller.Handles
import IngressCache.Proofs.Acme.TokenCalls
import IngressCache.Proofs.Acme.TokenStore
import IngressCache.Proofs.Controller.Receipt
import IngressCache.Proofs.Controller.Reordering
import IngressCache.Proofs.Change.Timers
import IngressCache.Proofs.Session.Schedule
import IngressCache.Proofs.Session.LostEvents
import IngressCache.Proofs.Watch.Replay
import IngressCache.Proofs.Controller.SnapshotReplay
import IngressCache.Proofs.Material.Disk
import IngressCache.Proofs.Material.FileAccess
import IngressCache.Proofs.Material.Repair
import IngressCache.Proofs.Acme.Visibility
import IngressCache.Proofs.Material.Isolation
import IngressCache.Proofs.Acme.TokenAddress
import IngressCache.Proofs.Acme.AccountTurns
import IngressCache.Proofs.Acme.IssuedStore
import IngressCache.Proofs.Acme.ServedCertificate
import IngressCache.Proofs.Controller.AuthorityHash
import IngressCache.Proofs.Controller.Lookups
import IngressCache.Proofs.Controller.TerminatingPods
import IngressCache.Proofs.Controller.SecretReports
import IngressCache.Proofs.Material.Leftover
import IngressCache.Proofs.Controller.Deletion
import IngressCache.Proofs.Controller.Ledger
import IngressCache.Proofs.Object.ClassLookup
import IngressCache.Proofs.Session.TrackedMaps
import IngressCache.Proofs.Decimal.Digits
import IngressCache.Proofs.Json.Spelling
import IngressCache.Proofs.Json.Readback
import IngressCache.Proofs.Json.Records
import IngressCache.Proofs.Time.WrittenInstant
import IngressCache.Proofs.Json.Lossless
import IngressCache.Proofs.Settings.Sources
