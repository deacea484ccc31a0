import DecompilerDesk.Main
import DecompilerDesk.Proofs.Desk.Effects
import DecompilerDesk.Proofs.Desk.Freshness
import DecompilerDesk.Proofs.Layout.Placement
import DecompilerDesk.Proofs.Engine.Lines
import DecompilerDesk.Proofs.Engine.Reading
import DecompilerDesk.Proofs.Engine.Talk
import DecompilerDesk.Proofs.Engine.Callers
import DecompilerDesk.Proofs.Json.Scalars
import DecompilerDesk.Proofs.Json.Written
import DecompilerDesk.Proofs.Json.RoundTrip
import DecompilerDesk.Proofs.Json.Lawful
import DecompilerDesk.Proofs.Json.Records
import DecompilerDesk.Proofs.Engine.Wire
import DecompilerDesk.Proofs.Engine.Conforming
import DecompilerDesk.Proofs.Desk.Selection
import DecompilerDesk.Proofs.Desk.Merging
import DecompilerDesk.Proofs.Desk.Isolation
import DecompilerDesk.Proofs.Desk.Provenance
import DecompilerDesk.Proofs.Json.Tags
import DecompilerDesk.Proofs.Json.Forms
import DecompilerDesk.Proofs.Desk.Commuting
import DecompilerDesk.Proofs.Desk.Dragging
import DecompilerDesk.Proofs.Layout.Arranging
import DecompilerDesk.Proofs.Layout.Positions
import DecompilerDesk.Proofs.Layout.Moving
import DecompilerDesk.Proofs.Desk.Opening
import DecompilerDesk.Proofs.Settings.Saving
import DecompilerDesk.Proofs.Desk.Transcript
import DecompilerDesk.Proofs.CommandLine.Course
import DecompilerDesk.Proofs.CommandLine.Traffic
import DecompilerDesk.Proofs.Json.Sorted
import DecompilerDesk.Proofs.CommandLine.Output
import DecompilerDesk.Proofs.Address.Grammar
import DecompilerDesk.Proofs.Desk.LastTold
import DecompilerDesk.Proofs.Address.Canonical
import DecompilerDesk.Proofs.Desk.Typing
import DecompilerDesk.Proofs.Json.Checked
import DecompilerDesk.Proofs.Layout.Declaring
import DecompilerDesk.Proofs.Console.Newest
import DecompilerDesk.Proofs.Desk.Toggling
import DecompilerDesk.Proofs.Desk.Slices
import DecompilerDesk.Proofs.Engine.Answering
import DecompilerDesk.Proofs.Desk.Tinting
import DecompilerDesk.Proofs.CommandLine.Listing
import DecompilerDesk.Proofs.Settings.Loading
import DecompilerDesk.Proofs.Json.Grammar
import DecompilerDesk.Proofs.Json.Skipping
import DecompilerDesk.Proofs.Json.Spelled
import DecompilerDesk.Proofs.Json.Fluent
import DecompilerDesk.Proofs.Settings.Naming
