import RemoteNode.Bytes32
import RemoteNode.Calendar
import RemoteNode.Chain.Block
import RemoteNode.Chain.Output
import RemoteNode.Chain.Transaction
import RemoteNode.Command.Answer
import RemoteNode.Command.Basic
import RemoteNode.Command.Request
import RemoteNode.CommandLine
import RemoteNode.Double
import RemoteNode.Double.Shortest
import RemoteNode.Duration
import RemoteNode.Endpoint
import RemoteNode.Exchange.Body
import RemoteNode.Exchange.Client
import RemoteNode.Exchange.Envelope
import RemoteNode.Exchange.Error
import RemoteNode.Exchange.RoundTrip
import RemoteNode.Exchange.Timeout
import RemoteNode.Failure
import RemoteNode.Json.Numeral
import RemoteNode.Json.Token
import RemoteNode.Json.Tree
import RemoteNode.Json.Value
import RemoteNode.Keccak
import RemoteNode.Main
import RemoteNode.Observer.Audience
import RemoteNode.Observer.Notice
import RemoteNode.Observer.Registry
import RemoteNode.Proxy
import RemoteNode.Schema.Basic
import RemoteNode.Schema.Json
import RemoteNode.Schema.Packed
import RemoteNode.Session.ChainView
import RemoteNode.Session.Connection
import RemoteNode.Session.Operation
import RemoteNode.Session.PoolIds
import RemoteNode.Session.Rehearsal
import RemoteNode.Session.Run
import RemoteNode.Session.Step
import RemoteNode.Session.World
import RemoteNode.Settings
import RemoteNode.Text.Blank
import RemoteNode.Text.Cut
import RemoteNode.Text.Decimal
import RemoteNode.Text.Hex
import RemoteNode.Text.Invisible
import RemoteNode.Text.Quoted
import RemoteNode.Text.Utf8
import RemoteNode.TimeWindow
import RemoteNode.Toml.Document
import RemoteNode.Toml.Scan
import RemoteNode.Toml.Value
import RemoteNode.Url.Address
import RemoteNode.Url.Basic
import RemoteNode.Url.Host
import RemoteNode.Url.Path
import RemoteNode.Url.Percent
import RemoteNode.Watch.Log
import RemoteNode.Watch.Program
import RemoteNode.Watch.Recording
import RemoteNode.Proofs.Session.PoolChange
import RemoteNode.Proofs.Session.Steps
import RemoteNode.Proofs.Session.Turns
import RemoteNode.Proofs.Session.Course
import RemoteNode.Proofs.Session.Draining
import RemoteNode.Proofs.Session.Histories
import RemoteNode.Proofs.Session.Deliveries
import RemoteNode.Proofs.Session.Removing
import RemoteNode.Proofs.Session.Lifecycle
import RemoteNode.Proofs.Session.Convergence
import RemoteNode.Proofs.Session.Heights
import RemoteNode.Proofs.Session.Forgetting
import RemoteNode.Proofs.Session.Results
import RemoteNode.Proofs.Session.Accepting
import RemoteNode.Proofs.Session.Announcing
import RemoteNode.Proofs.Session.Clearing
import RemoteNode.Proofs.Session.Replaying
import RemoteNode.Proofs.Session.Connectivity
import RemoteNode.Proofs.Session.Retrying
import RemoteNode.Proofs.Session.Summary
import RemoteNode.Proofs.Session.Cuts
import RemoteNode.Proofs.Session.Renumbering
import RemoteNode.Proofs.Session.Renewal
import RemoteNode.Proofs.Exchange.Calling
import RemoteNode.Proofs.Text.Numbers
import RemoteNode.Proofs.Text.WellFormed
import RemoteNode.Proofs.Schema.Packing
import RemoteNode.Proofs.Exchange.Packets
import RemoteNode.Proofs.Json.Lexing
import RemoteNode.Proofs.Json.Reading
import RemoteNode.Proofs.Schema.Forms
import RemoteNode.Proofs.Text.Identifiers
import RemoteNode.Proofs.Exchange.Documents
import RemoteNode.Proofs.Exchange.Refusals
import RemoteNode.Proofs.Observer.Enrolment
import RemoteNode.Proofs.Session.Alone
import RemoteNode.Proofs.Session.Bringing
import RemoteNode.Proofs.Session.Dialogues
import RemoteNode.Proofs.Session.Addresses
import RemoteNode.Proofs.Session.Fees
import RemoteNode.Proofs.Session.Operating
import RemoteNode.Proofs.Session.Readiness
import RemoteNode.Proofs.Session.Undisturbed
import RemoteNode.Proofs.Session.Windows
import RemoteNode.Proofs.Session.Grouping
import RemoteNode.Proofs.Session.Starting
import RemoteNode.Proofs.Settings.Storing
import RemoteNode.Proofs.Settings.Spelling
import RemoteNode.Proofs.Calendar.Days
import RemoteNode.Proofs.Calendar.Timestamps
import RemoteNode.Proofs.Url.Hosts
import RemoteNode.Proofs.Url.Endpoints
