import OTSecurity.Lib.Bitmap
import OTSecurity.Lib.ODict
import OTSecurity.Lib.Tally
import OTSecurity.Lib.Window
import OTSecurity.Lib.Bytes
import OTSecurity.Lib.Uuid
import OTSecurity.Lib.Sha1
import OTSecurity.Lib.Sha256
import OTSecurity.Lib.Trace
import OTSecurity.Lib.Machine
import OTSecurity.Lib.Keyed
import OTSecurity.Lib.Carried
import OTSecurity.Lib.Ration
import OTSecurity.Lib.Harness
import OTSecurity.Lib.Tumbling
import OTSecurity.Lib.Lifetimes
import OTSecurity.Lib.Largest
import OTSecurity.Lib.Versioned
import OTSecurity.Lib.CappedSet
import OTSecurity.Lib.PyStr
import OTSecurity.Lib.Digits
import OTSecurity.Lib.Binary64
import OTSecurity.Lib.Decimal
import OTSecurity.Lib.Json
import OTSecurity.Lib.DecimalJson
import OTSecurity.Lib.Lines
import OTSecurity.Lib.Framed
import OTSecurity.Lib.SegmentLog
import OTSecurity.Lib.TokenBucket
import OTSecurity.Lib.Joined
import OTSecurity.Lib.Scaling
import OTSecurity.Lib.FloatText
import OTSecurity.Common.Ids
import OTSecurity.Common.Iputil
import OTSecurity.Lib.JsonSchema
import OTSecurity.Common.Timeutil
import OTSecurity.Common.Contracts
import OTSecurity.Common.Timestamps
import OTSecurity.Common.TimeOrder
import OTSecurity.Lib.Conforming
import OTSecurity.Common.InvalidEvents
import OTSecurity.Receiver.Dedup
import OTSecurity.Receiver.Streams
import OTSecurity.Receiver.Spool
import OTSecurity.Receiver.SpoolRead
import OTSecurity.Receiver.SpoolLog
import OTSecurity.Receiver.SpoolSpace
import OTSecurity.Receiver.Publisher
import OTSecurity.Link.Frame
import OTSecurity.Link.Parsing
import OTSecurity.Link.Reassembly
import OTSecurity.Link.Pending
import OTSecurity.Link.Accounting
import OTSecurity.Receiver.Core
import OTSecurity.Receiver.Intake
import OTSecurity.Receiver.Acceptance
import OTSecurity.Receiver.Delivery
import OTSecurity.Receiver.Verdicts
import OTSecurity.Receiver.QuarantineRate
import OTSecurity.Receiver.Replay
import OTSecurity.Receiver.Restart
import OTSecurity.Receiver.Injection
import OTSecurity.Consumers.Base
import OTSecurity.Consumers.Archive
import OTSecurity.Consumers.Group
import OTSecurity.Sender.Tail
import OTSecurity.Sender.Numbering
import OTSecurity.Sender.TailRuns
import OTSecurity.Sender.Extraction
import OTSecurity.Detect.Alerts
import OTSecurity.Detect.Incidents
import OTSecurity.Detect.Fatigue
import OTSecurity.Detect.Evidence
import OTSecurity.Detect.FlowDelta
import OTSecurity.Detect.Beacon
import OTSecurity.Detect.BeaconWindow
import OTSecurity.Detect.Encrypted
import OTSecurity.Detect.Identity
import OTSecurity.Detect.TlsTrigger
import OTSecurity.Lib.GapFree
import OTSecurity.Common.IdNames
import OTSecurity.Lib.Ranks
import OTSecurity.Lib.ProtoWire
import OTSecurity.Api.Live
import OTSecurity.Api.Gapless
import OTSecurity.Api.Auth
import OTSecurity.Api.Sessions
import OTSecurity.Sender.State
import OTSecurity.Sender.Normalizer
import OTSecurity.Sender.Telemetry
import OTSecurity.Sender.Health
import OTSecurity.Lib.PyExc
import OTSecurity.Lib.NumberText
import OTSecurity.Lib.JsonText
import OTSecurity.Lib.JsonRead
import OTSecurity.Lib.DecimalRead
import OTSecurity.Lib.PyNumbers
import OTSecurity.Detect.Events
import OTSecurity.Sender.Payloads
import OTSecurity.Sender.SendRecord
import OTSecurity.Sender.ReplayIndex
import OTSecurity.Sender.Conformance
import OTSecurity.Receiver.QuarantineContract
import OTSecurity.Receiver.Authenticity
import OTSecurity.Detect.Agreement
import OTSecurity.Sender.Reception
import OTSecurity.Consumers.Transforms
import OTSecurity.Consumers.OpenSearch
import OTSecurity.Consumers.Notifier
import OTSecurity.Detect.Sketch
import OTSecurity.Detect.SketchUnion
import OTSecurity.Detect.Scan
import OTSecurity.Detect.Ddos
import OTSecurity.Detect.FloodWindows
import OTSecurity.Detect.FloodRuns
import OTSecurity.Detect.DnsWindows
import OTSecurity.Detect.Exfil
import OTSecurity.Detect.ExfilRuns
import OTSecurity.Detect.Snapshots
import OTSecurity.Detect.DgaFeatures
import OTSecurity.Detect.Registrable
import OTSecurity.Detect.DnsScorer
import OTSecurity.Detect.Dns
import OTSecurity.Detect.Expiry
import OTSecurity.Detect.Supervisor
import OTSecurity.Detect.ScanCounts
import OTSecurity.Sender.Replay
import OTSecurity.Sender.ReplayRuns
import OTSecurity.Ml.Metrics
import OTSecurity.Ml.Threshold
import OTSecurity.Ml.OnnxWriter
