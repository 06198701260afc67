import MarkupRouting.Markup.Reader
import MarkupRouting.Value.Access
import MarkupRouting.Element.Grove
import MarkupRouting.Pattern.Plain
import MarkupRouting.Routing.OneShot
import MarkupRouting.Proofs.Text.Normal
import MarkupRouting.Proofs.Text.Modes
import MarkupRouting.Proofs.Pattern.Grammar
import MarkupRouting.Proofs.Pattern.Closure
import MarkupRouting.Proofs.Pattern.Language
import MarkupRouting.Proofs.Rule.Interests
import MarkupRouting.Proofs.Element.Index
import MarkupRouting.Proofs.Element.Size
import MarkupRouting.Proofs.Element.Walk
import MarkupRouting.Proofs.Element.Ledger
import MarkupRouting.Proofs.Routing.Frame
import MarkupRouting.Proofs.Routing.Accounts
import MarkupRouting.Proofs.Routing.Forest
import MarkupRouting.Proofs.Routing.Place
import MarkupRouting.Proofs.Routing.Visits
import MarkupRouting.Proofs.Routing.Reading
import MarkupRouting.Proofs.Routing.Moments
import MarkupRouting.Proofs.Routing.Orderly
import MarkupRouting.Proofs.Routing.Endings
import MarkupRouting.Proofs.Routing.Failing
import MarkupRouting.Proofs.Routing.Stopping
import MarkupRouting.Proofs.Routing.SessionEquivalence
import MarkupRouting.Proofs.Routing.Texts
import MarkupRouting.Proofs.Markup.Pieces
import MarkupRouting.Proofs.Markup.Reports
import MarkupRouting.Proofs.Routing.EntryPoints
import MarkupRouting.Proofs.Routing.DocumentPrefixes
import MarkupRouting.Proofs.Routing.AttributeErasure
import MarkupRouting.Proofs.Routing.NodeTexts
import MarkupRouting.Proofs.Rule.NonInterference
import MarkupRouting.Proofs.Routing.NonInterference
import MarkupRouting.Proofs.Routing.Built
import MarkupRouting.Proofs.Routing.Taken
import MarkupRouting.Proofs.Routing.Counts
import MarkupRouting.Proofs.Pattern.Writing
import MarkupRouting.Proofs.Pattern.Joining
import MarkupRouting.Proofs.Pattern.Naming
import MarkupRouting.Proofs.Pattern.Narrowing
import MarkupRouting.Proofs.Rule.History
import MarkupRouting.Proofs.Routing.ObservationalEquality
import MarkupRouting.Proofs.Routing.Reuse
import MarkupRouting.Proofs.Routing.Guard
import MarkupRouting.Proofs.Routing.Nesting
import MarkupRouting.Proofs.Routing.Lasting
import MarkupRouting.Proofs.Routing.MoveHistory
import MarkupRouting.Proofs.Routing.Precedence
import MarkupRouting.Proofs.Routing.Depths
import MarkupRouting.Proofs.Routing.Observed
import MarkupRouting.Proofs.Routing.Raised
import MarkupRouting.Proofs.Routing.Logged
import MarkupRouting.Proofs.Markup.Streaming
import MarkupRouting.Proofs.Markup.Namespaces
import MarkupRouting.Proofs.Settings.RoundTrip
