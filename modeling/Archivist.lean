import Archivist.Archive.Destination
import Archivist.Archive.Error
import Archivist.Archive.Fleet
import Archivist.Archive.Handler
import Archivist.Archive.Instant
import Archivist.Archive.Job
import Archivist.Archive.Manager
import Archivist.Archive.Namespace
import Archivist.Archive.Policy
import Archivist.Archive.Registry
import Archivist.Archive.RemoteCopy
import Archivist.Archive.Section
import Archivist.CommandLine.Arguments
import Archivist.CommandLine.Output
import Archivist.Config.Load
import Archivist.Config.Reading
import Archivist.Config.Settings
import Archivist.Config.Writing
import Archivist.Control.Canned
import Archivist.Control.Client
import Archivist.Control.Conversation
import Archivist.Control.Dialogue
import Archivist.Control.NodeWorker
import Archivist.Control.Server
import Archivist.Control.Session
import Archivist.Credentials.Base64
import Archivist.Credentials.Certificate
import Archivist.Credentials.Der
import Archivist.Credentials.Endpoint
import Archivist.Credentials.Pem
import Archivist.Credentials.PrivateKey
import Archivist.Document.Basic
import Archivist.Document.Decode
import Archivist.Document.Query
import Archivist.Exchange.Bytes
import Archivist.Exchange.Dialogue
import Archivist.Exchange.Failure
import Archivist.Exchange.Listing
import Archivist.Exchange.Loading
import Archivist.Exchange.Message
import Archivist.Exchange.Service
import Archivist.Json.Reader
import Archivist.Json.Writer
import Archivist.Main
import Archivist.Net.Address
import Archivist.Net.Bench
import Archivist.Net.Connection
import Archivist.Net.PortRange
import Archivist.Path.Dir
import Archivist.Plan.Load
import Archivist.Plan.SectionPlan
import Archivist.Plan.Snapshot
import Archivist.Proofs.Control.Arrivals
import Archivist.Proofs.Control.Calls
import Archivist.Proofs.Control.Correspondence
import Archivist.Proofs.Control.Exits
import Archivist.Proofs.Control.InTurn
import Archivist.Proofs.Control.Losses
import Archivist.Proofs.Control.Progress
import Archivist.Proofs.Control.Refusals
import Archivist.Proofs.Control.Replies
import Archivist.Proofs.Control.Schedules
import Archivist.Proofs.Control.SingleUse
import Archivist.Proofs.Control.Spent
import Archivist.Proofs.Control.Station
import Archivist.Proofs.Control.Transfers
import Archivist.Proofs.Copy.Answers
import Archivist.Proofs.Copy.Between
import Archivist.Proofs.Copy.Blame
import Archivist.Proofs.Copy.Course
import Archivist.Proofs.Copy.Ends
import Archivist.Proofs.Copy.Serving
import Archivist.Proofs.Copy.Turns
import Archivist.Proofs.Copy.Workers
import Archivist.Proofs.Jobs.Crew
import Archivist.Proofs.Jobs.Deeds
import Archivist.Proofs.Jobs.Failures
import Archivist.Proofs.Jobs.Marks
import Archivist.Proofs.Jobs.Outcomes
import Archivist.Proofs.Lookup
import Archivist.Proofs.Net.Listening
import Archivist.Proofs.Placement.Anchoring
import Archivist.Proofs.Placement.Copies
import Archivist.Proofs.Placement.Counts
import Archivist.Proofs.Placement.Encounter
import Archivist.Proofs.Placement.Filling
import Archivist.Proofs.Placement.Fleet
import Archivist.Proofs.Placement.Holders
import Archivist.Proofs.Placement.Keeping
import Archivist.Proofs.Placement.Progress
import Archivist.Proofs.Placement.Selection
import Archivist.Proofs.Plan.Ages
import Archivist.Proofs.Plan.Foretold
import Archivist.Proofs.Plan.Planned
import Archivist.Proofs.Plan.Stages
import Archivist.Proofs.Plan.Steps
import Archivist.Proofs.Runs.Choosing
import Archivist.Proofs.Runs.Claiming
import Archivist.Proofs.Runs.Departure
import Archivist.Proofs.Runs.Exclusion
import Archivist.Proofs.Runs.Nesting
import Archivist.Proofs.Runs.Oldest
import Archivist.Proofs.Runs.Ownership
import Archivist.Proofs.Runs.Party
import Archivist.Proofs.Runs.Resolving
import Archivist.Proofs.Runs.Reuse
import Archivist.Proofs.Runs.Round
import Archivist.Proofs.Runs.Seeking
import Archivist.Proofs.Runs.Standing
import Archivist.Proofs.Runs.Turns
import Archivist.Proofs.Storage.Files
import Archivist.Proofs.Storage.Sparing
import Archivist.Proofs.Storage.Subtree
import Archivist.Proofs.Transfer.Containment
import Archivist.Proofs.Transfer.Dispatch
import Archivist.Proofs.Transfer.Pathnames
import Archivist.Proofs.Transfer.Places
import Archivist.Proofs.Transfer.Reception
import Archivist.Proofs.Transfer.Resumption
import Archivist.Proofs.Transfer.Sharing
import Archivist.Proofs.Transfer.Stream
import Archivist.Proofs.Transfer.Subtree
import Archivist.Proofs.Transfer.Unconnected
import Archivist.Proofs.Tree.Adding
import Archivist.Proofs.Tree.Ancestry
import Archivist.Proofs.Tree.DepthFirst
import Archivist.Proofs.Tree.Directory
import Archivist.Proofs.Tree.Entries
import Archivist.Proofs.Tree.InPlace
import Archivist.Proofs.Tree.Insertion
import Archivist.Proofs.Tree.Listing
import Archivist.Proofs.Tree.Moving
import Archivist.Proofs.Tree.Order
import Archivist.Proofs.Tree.Reached
import Archivist.Proofs.Tree.Shape
import Archivist.Proofs.Tree.Spelling
import Archivist.Proofs.Tree.Spots
import Archivist.Proofs.Tree.Whole
import Archivist.Proofs.Wire.ByteOrder
import Archivist.Proofs.Wire.Cuts
import Archivist.Proofs.Wire.Delivery
import Archivist.Proofs.Wire.Encodings
import Archivist.Proofs.Wire.RoundTrip
import Archivist.Proofs.Wire.Streams
import Archivist.Service.Basic
import Archivist.Service.Planning
import Archivist.Service.Schedule
import Archivist.Storage.Basic
import Archivist.Storage.Location
import Archivist.Text.Pieces
import Archivist.Toml.Number
import Archivist.Toml.Reader
import Archivist.Toml.Table
import Archivist.Toml.Text
import Archivist.Transfer.Checksum
import Archivist.Transfer.Error
import Archivist.Transfer.FileTransfer
import Archivist.Transfer.LineEnding
import Archivist.Transfer.Status
import Archivist.Wire.Binary
import Archivist.Wire.Codec
import Archivist.Wire.Frame
import Archivist.Wire.Message
