import ProxyTiming.Duration.Text
import ProxyTiming.Binary64.Bits
import ProxyTiming.Binary64.Decimal
import ProxyTiming.Text.Printable
import ProxyTiming.Text.Hex
import ProxyTiming.Timings
import ProxyTiming.Stats
import ProxyTiming.Net.IpText
import ProxyTiming.Net.Endpoint
import ProxyTiming.Json.Fault
import ProxyTiming.Json.Value
import ProxyTiming.Json.Number
import ProxyTiming.Json.Skip
import ProxyTiming.Json.Shape
import ProxyTiming.Json.Codec
import ProxyTiming.Time.Stamp
import ProxyTiming.Uuid
import ProxyTiming.Table
import ProxyTiming.Error
import ProxyTiming.Timings.Codec
import ProxyTiming.Stats.Codec
import ProxyTiming.Run.Strategy
import ProxyTiming.Config.File
import ProxyTiming.Run.Event
import ProxyTiming.Run.Codec
import ProxyTiming.Stream.FirstByte
import ProxyTiming.Http.Request
import ProxyTiming.Http.Response
import ProxyTiming.Attempt.Basic
import ProxyTiming.Suite
import ProxyTiming.Suite.Course
import ProxyTiming.Proofs.Run.History
import ProxyTiming.Proofs.Run.Sound
import ProxyTiming.Proofs.Run.Arrival
import ProxyTiming.Proofs.Run.Telling
import ProxyTiming.Proofs.Run.Silence
import ProxyTiming.Proofs.Run.Observers
import ProxyTiming.Proofs.Run.Standstill
import ProxyTiming.Proofs.Run.Undisturbed
import ProxyTiming.Proofs.Steps
import ProxyTiming.Proofs.Suite.Agenda
import ProxyTiming.Proofs.Suite.Moves
import ProxyTiming.Proofs.Suite.Courses
import ProxyTiming.Proofs.Suite.Clock
import ProxyTiming.Proofs.Suite.Refinement
import ProxyTiming.Proofs.Run.Places
import ProxyTiming.Proofs.Run.Outcomes
import ProxyTiming.Proofs.Run.Progress
import ProxyTiming.Proofs.Run.Clock
import ProxyTiming.Proofs.Run.Rounds
import ProxyTiming.Proofs.Run.Integrity
import ProxyTiming.Proofs.Run.Ceiling
import ProxyTiming.Proofs.Run.Cancellation
import ProxyTiming.Proofs.Socks.Conversation
import ProxyTiming.Proofs.Socks.Transcript
import ProxyTiming.Proofs.Socks.Disclosure
import ProxyTiming.Proofs.Attempt.Ensures
import ProxyTiming.Proofs.Attempt.Phases
import ProxyTiming.Proofs.Socks.Opening
import ProxyTiming.Proofs.Peer
import ProxyTiming.Proofs.Attempt.Line
import ProxyTiming.Proofs.Attempt.Effects
import ProxyTiming.Proofs.Attempt.Route
import ProxyTiming.Proofs.Attempt.Account
import ProxyTiming.Proofs.Text.Decimal
import ProxyTiming.Proofs.Http.HostHeader
import ProxyTiming.Proofs.Attempt.Leads
import ProxyTiming.Proofs.Socks.Fragmentation
import ProxyTiming.Proofs.Text.Hex
import ProxyTiming.Proofs.Json.Written
import ProxyTiming.Proofs.Json.Reading
import ProxyTiming.Proofs.Json.Members
import ProxyTiming.Proofs.Json.Yields
import ProxyTiming.Proofs.Config.RoundTrip
import ProxyTiming.Proofs.Socks.Causes
import ProxyTiming.Proofs.Config.Runnable
import ProxyTiming.Proofs.Time.Stamp
import ProxyTiming.Proofs.Uuid
import ProxyTiming.Proofs.Run.Archive
import ProxyTiming.Proofs.Attempt.Answer
import ProxyTiming.Proofs.Attempt.Reasons
import ProxyTiming.Proofs.Http.Splitting
import ProxyTiming.Proofs.Attempt.Agreement
import ProxyTiming.Proofs.Http.Requestable
import ProxyTiming.Proofs.Http.Ports
import ProxyTiming.Proofs.Config.Targets
import ProxyTiming.Proofs.Socks.Breakdown
import ProxyTiming.Proofs.Run.Acceptance
import ProxyTiming.Proofs.Run.Timetable
import ProxyTiming.Proofs.Run.Punctual
import ProxyTiming.Proofs.Run.Schedule
import ProxyTiming.Proofs.Text.Blank
import ProxyTiming.Proofs.Net.Endpoint
import ProxyTiming.Proofs.Attempt.Dialling
import ProxyTiming.Proofs.Attempt.Connections
import ProxyTiming.Proofs.Http.Heads
import ProxyTiming.Proofs.Attempt.Requests
import ProxyTiming.Proofs.Binary64.Rounding
import ProxyTiming.Proofs.Binary64.Doubles
import ProxyTiming.Proofs.Stats.Ascending
import ProxyTiming.Proofs.Stats.Percentiles
import ProxyTiming.Proofs.Stats.Median
import ProxyTiming.Proofs.Stats.Mean
import ProxyTiming.Proofs.Run.Samples
import ProxyTiming.Proofs.Binary64.Signs
import ProxyTiming.Proofs.Stats.Differences
import ProxyTiming.Proofs.Run.Comparisons
import ProxyTiming.Proofs.Stream.FirstByte
import ProxyTiming.Proofs.Client.Calls
import ProxyTiming.Proofs.Timings.Handshake
