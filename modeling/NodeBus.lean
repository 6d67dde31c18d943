import NodeBus.Proofs.Board.CommandLink
import NodeBus.Proofs.Board.Ticks
import NodeBus.Proofs.Checksum.Remainder
import NodeBus.Proofs.Command.Access
import NodeBus.Proofs.Command.Confinement
import NodeBus.Proofs.Command.Contents
import NodeBus.Proofs.Command.Execution
import NodeBus.Proofs.Command.Grammar
import NodeBus.Proofs.Command.Registration
import NodeBus.Proofs.Command.RequestStream
import NodeBus.Proofs.Command.Residue
import NodeBus.Proofs.Frame.Acceptance
import NodeBus.Proofs.Frame.Access
import NodeBus.Proofs.Frame.Corruption
import NodeBus.Proofs.Frame.Promptness
import NodeBus.Proofs.Frame.Reassembly
import NodeBus.Proofs.Frame.Recovery
import NodeBus.Proofs.Frame.Searching
import NodeBus.Proofs.Json.Records
import NodeBus.Proofs.Session.Answers
import NodeBus.Proofs.Session.Attachments
import NodeBus.Proofs.Session.Backpressure
import NodeBus.Proofs.Session.Balance
import NodeBus.Proofs.Session.Commands
import NodeBus.Proofs.Session.Courses
import NodeBus.Proofs.Session.Deeds
import NodeBus.Proofs.Session.Dispatching
import NodeBus.Proofs.Session.Displays
import NodeBus.Proofs.Session.Draining
import NodeBus.Proofs.Session.Following
import NodeBus.Proofs.Session.HighWater
import NodeBus.Proofs.Session.Notices
import NodeBus.Proofs.Session.Priority
import NodeBus.Proofs.Session.Rounds
import NodeBus.Proofs.Session.Schedules
import NodeBus.Proofs.Session.Snapshot
import NodeBus.Proofs.Session.Ticking
import NodeBus.Proofs.Settings.Checking
import NodeBus.Session.Run
import NodeBus.Settings.Build
