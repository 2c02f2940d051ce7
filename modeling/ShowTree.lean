import ShowTree.Cursor
import ShowTree.FileSystem.Disk
import ShowTree.FileSystem.Staged
import ShowTree.Main
import ShowTree.Proofs.Selector.Repetition
import ShowTree.Proofs.Selector.Recital
import ShowTree.Proofs.Selector.Evaluation
import ShowTree.Proofs.Selector.Described
import ShowTree.Proofs.Expression.Grammar
import ShowTree.Proofs.Expression.Reading
import ShowTree.Proofs.Expression.Viable
import ShowTree.Proofs.Expression.Culprit
import ShowTree.Proofs.Expression.Pattern
import ShowTree.Proofs.Expression.Spans
import ShowTree.Proofs.Json.Lexing
import ShowTree.Proofs.Json.RoundTrip
import ShowTree.Proofs.Dictionary
import ShowTree.Proofs.Record.RoundTrip
import ShowTree.Proofs.Record.Edited
import ShowTree.Proofs.Text.LowerCase
import ShowTree.Proofs.Record.UserData
import ShowTree.Proofs.Metadata.Fields
import ShowTree.Proofs.Metadata.Everything
import ShowTree.FileSystem.Watched
import ShowTree.Proofs.Layout.Sidecar
import ShowTree.Proofs.FileSystem.Change
import ShowTree.Proofs.FileSystem.Listing
import ShowTree.Proofs.FileSystem.WellFormed
import ShowTree.Proofs.FileSystem.Building
import ShowTree.Proofs.Cache.Agreement
import ShowTree.Proofs.Session.Requests
import ShowTree.Proofs.Session.Agreement
import ShowTree.Proofs.Session.Strays
import ShowTree.Proofs.Selector.Shape
import ShowTree.Proofs.Selector.Named
import ShowTree.Proofs.Selector.Existing
import ShowTree.Proofs.Session.Existing
import ShowTree.Proofs.Selector.Reached
import ShowTree.Proofs.Session.Reached
import ShowTree.Proofs.Prototype.Reference
import ShowTree.Proofs.Prototype.Standing
import ShowTree.Proofs.Prototype.Links
import ShowTree.Proofs.Prototype.Runs
import ShowTree.Proofs.Prototype.Following
import ShowTree.Proofs.Prototype.RoundTrip
import ShowTree.Proofs.Path.Walk
import ShowTree.Proofs.Selector.Target
import ShowTree.Proofs.Selector.RoundTrip
import ShowTree.Proofs.Session.Target
import ShowTree.Proofs.Cache.Atomic
import ShowTree.Proofs.Session.Frame
import ShowTree.Proofs.Cache.Widening
import ShowTree.Proofs.Selector.Widened
import ShowTree.Proofs.Session.Making
import ShowTree.Proofs.Session.Naming
import ShowTree.Proofs.Session.Creation
import ShowTree.Proofs.Prototype.Search
import ShowTree.Proofs.Prototype.Listing
import ShowTree.Proofs.Prototype.Tidy
import ShowTree.Proofs.Session.Created
import ShowTree.Proofs.Session.Held
import ShowTree.Proofs.Session.Turns
import ShowTree.Proofs.Decimal.Brief
import ShowTree.Proofs.Path.Clean
import ShowTree.Proofs.Layout.Apart
import ShowTree.Proofs.Cache.Meeting
import ShowTree.Proofs.Record.Assigned
import ShowTree.Proofs.Session.Assigning
import ShowTree.Proofs.CommandLine.SetUser
