import Quorum.Agent.Basic
import Quorum.Agent.Fleet
import Quorum.Application.Basic
import Quorum.Application.Table
import Quorum.Behaviour.Keeper
import Quorum.Behaviour.Kind
import Quorum.Behaviour.Machine
import Quorum.Behaviour.Params
import Quorum.Behaviour.Stage
import Quorum.Behaviour.Submission
import Quorum.Behaviour.Task
import Quorum.Behaviour.Trial
import Quorum.Checkpoint.Store
import Quorum.Console.Arguments
import Quorum.Console.Command
import Quorum.Console.Options
import Quorum.Curve.Ed25519
import Quorum.Curve.Field
import Quorum.Curve.Point
import Quorum.Data.Bytes
import Quorum.Data.Counter
import Quorum.Data.Hex
import Quorum.Data.Octets
import Quorum.Data.SortedMap
import Quorum.External.Call
import Quorum.External.Dispatcher
import Quorum.External.World
import Quorum.Gateway
import Quorum.Hash.Blake3
import Quorum.Hash.Sha512
import Quorum.Inspect.Agent
import Quorum.Inspect.Basic
import Quorum.Inspect.Console
import Quorum.Inspect.Error
import Quorum.Inspect.Read
import Quorum.Inspect.Round
import Quorum.Local.DataDir
import Quorum.Local.Run
import Quorum.Local.Summary
import Quorum.Main
import Quorum.Payload.Block
import Quorum.Payload.Submission
import Quorum.Payload.Vote
import Quorum.Peer.Count
import Quorum.Peer.Identity
import Quorum.Peer.Set
import Quorum.Proofs.Agent.Agreement
import Quorum.Proofs.Agent.Chronicle
import Quorum.Proofs.Agent.Duties
import Quorum.Proofs.Agent.Instances
import Quorum.Proofs.Agent.Moves
import Quorum.Proofs.Agent.Resting
import Quorum.Proofs.Agent.Saving
import Quorum.Proofs.Agent.Schedule
import Quorum.Proofs.Agent.Scheduler
import Quorum.Proofs.Application.Acceptance
import Quorum.Proofs.Application.Advance
import Quorum.Proofs.Application.Closure
import Quorum.Proofs.Application.Errors
import Quorum.Proofs.Application.Evidence
import Quorum.Proofs.Application.Failure
import Quorum.Proofs.Application.Freshness
import Quorum.Proofs.Application.Instance
import Quorum.Proofs.Application.Order
import Quorum.Proofs.Application.Periods
import Quorum.Proofs.Application.Preemption
import Quorum.Proofs.Application.Rejection
import Quorum.Proofs.Application.Restart
import Quorum.Proofs.Application.Resumption
import Quorum.Proofs.Application.Routing
import Quorum.Proofs.Application.Run
import Quorum.Proofs.Application.Safety
import Quorum.Proofs.Application.SideBySide
import Quorum.Proofs.Application.Solo
import Quorum.Proofs.Application.Step
import Quorum.Proofs.Application.Succession
import Quorum.Proofs.Application.Supply
import Quorum.Proofs.Application.Termination
import Quorum.Proofs.Application.Timeout
import Quorum.Proofs.Application.Trace
import Quorum.Proofs.Application.Transitions
import Quorum.Proofs.Application.Validated
import Quorum.Proofs.Application.Versions
import Quorum.Proofs.Behaviour.Dialogue
import Quorum.Proofs.Behaviour.Insisting
import Quorum.Proofs.Behaviour.Reading
import Quorum.Proofs.Behaviour.Requests
import Quorum.Proofs.Behaviour.Retrying
import Quorum.Proofs.Behaviour.Selection
import Quorum.Proofs.Behaviour.Waiting
import Quorum.Proofs.Checkpoint.Operations
import Quorum.Proofs.Checkpoint.Retention
import Quorum.Proofs.Checkpoint.Table
import Quorum.Proofs.Data.BigEndian
import Quorum.Proofs.Data.HexText
import Quorum.Proofs.Data.Map
import Quorum.Proofs.Data.Rekeyed
import Quorum.Proofs.Data.Transcript
import Quorum.Proofs.External.Delivery
import Quorum.Proofs.Gateway.Chain
import Quorum.Proofs.Gateway.Ledger
import Quorum.Proofs.Gateway.Lookup
import Quorum.Proofs.Local.Clock
import Quorum.Proofs.Local.RestorePoint
import Quorum.Proofs.Peer.Membership
import Quorum.Proofs.Peer.Reading
import Quorum.Proofs.Peer.Sorted
import Quorum.Proofs.Round.Ballot
import Quorum.Proofs.Round.Errors
import Quorum.Proofs.Round.Order
import Quorum.Proofs.Round.Overlap
import Quorum.Proofs.Round.Precedence
import Quorum.Proofs.Round.Reference
import Quorum.Proofs.Round.Tally
import Quorum.Proofs.Round.Threshold
import Quorum.Proofs.Round.Verdict
import Quorum.Proofs.Round.WellFormed
import Quorum.Proofs.Round.Writes
import Quorum.Proofs.Snapshot.Conforming
import Quorum.Proofs.Snapshot.History
import Quorum.Proofs.Snapshot.LastWriter
import Quorum.Proofs.Wire.Agreed
import Quorum.Proofs.Wire.Metering
import Quorum.Proofs.Wire.RoundTrip
import Quorum.Proofs.Wire.Spelling
import Quorum.Proofs.Wire.Uniform
import Quorum.Round.Conclusion
import Quorum.Round.Error
import Quorum.Round.Event
import Quorum.Round.Kind
import Quorum.Round.Voting
import Quorum.Snapshot.Basic
import Quorum.Snapshot.History
import Quorum.Snapshot.View
import Quorum.Text.Blank
import Quorum.Text.Cell
import Quorum.Text.Decimal
import Quorum.Text.Duration
import Quorum.Text.Failure
import Quorum.Text.Json
import Quorum.Text.Json.Reader
import Quorum.Text.Quoted
import Quorum.Text.Readable
import Quorum.Wire.Decoder
import Quorum.Wire.Format
import Quorum.Wire.Varint
