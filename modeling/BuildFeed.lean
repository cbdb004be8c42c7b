import BuildFeed.Json.Printer
import BuildFeed.Mapper.Custom
import BuildFeed.Session
import BuildFeed.ModelChannel
import BuildFeed.Proofs.Build.Groups
import BuildFeed.Proofs.Build.Turns
import BuildFeed.Proofs.Session.Effect
import BuildFeed.Proofs.Session.History
import BuildFeed.Proofs.Build.Lineage
import BuildFeed.Proofs.Build.View
import BuildFeed.Proofs.Session.Events
import BuildFeed.Proofs.Session.Isolation
import BuildFeed.Proofs.Session.Nesting
import BuildFeed.Proofs.Session.Builds
import BuildFeed.Proofs.Session.Answers
import BuildFeed.Proofs.Session.Envelope
import BuildFeed.Proofs.Build.Circles
import BuildFeed.Proofs.Session.Returns
import BuildFeed.Proofs.Session.Refusals
import BuildFeed.Proofs.Lists
import BuildFeed.Proofs.Build.States
import BuildFeed.Proofs.Build.Order
import BuildFeed.Proofs.Session.States
import BuildFeed.Proofs.Session.Order
import BuildFeed.Proofs.Session.Queues
import BuildFeed.Proofs.Session.Separation
import BuildFeed.Proofs.Session.Narrowing
import BuildFeed.Proofs.Session.Contraction
import BuildFeed.Proofs.Session.Requested
import BuildFeed.Proofs.Channel.Calls
import BuildFeed.Proofs.Channel.Registrations
import BuildFeed.Proofs.Json.Lexing
import BuildFeed.Proofs.Json.Reading
import BuildFeed.Proofs.Json.Canonical
import BuildFeed.Proofs.Json.Documents
import BuildFeed.Proofs.Time.Calendar
import BuildFeed.Proofs.Time.Rfc3339
import BuildFeed.Proofs.Session.Fates
import BuildFeed.Proofs.Session.Closing
import BuildFeed.Proofs.Wire.Reads
import BuildFeed.Proofs.Wire.RoundTrip
import BuildFeed.Proofs.Wire.ClientFormat
import BuildFeed.Proofs.Wire.Slots
import BuildFeed.Proofs.Wire.Edits
import BuildFeed.Proofs.Wire.Layouts
import BuildFeed.Proofs.Wire.Versions
import BuildFeed.Proofs.Session.FanOut
import BuildFeed.Proofs.Session.Failures
import BuildFeed.Proofs.Mapper.Routing
import BuildFeed.Proofs.Session.Exits
import BuildFeed.Proofs.Build.Unshared
import BuildFeed.Proofs.Session.Consulted
import BuildFeed.Proofs.Session.Lockstep
import BuildFeed.Proofs.Session.Unshared
import BuildFeed.Proofs.Session.Plainer
import BuildFeed.Proofs.Session.Policies
import BuildFeed.Proofs.Mapper.Registration
import BuildFeed.Proofs.Session.Capacity
import BuildFeed.Proofs.Channel.Forwarding
import BuildFeed.Proofs.Session.Entries
import BuildFeed.Proofs.Subscriptions
import BuildFeed.Proofs.Build.Slots
