import Sequencer.Text.Characters
import Sequencer.Number.Binary64
import Sequencer.Number.Shortest
import Sequencer.Number.Basic
import Sequencer.Json.Document
import Sequencer.Json.Text
import Sequencer.Json.Numeral
import Sequencer.Json.Scalar
import Sequencer.Json.Passage
import Sequencer.Settings.Form
import Sequencer.Settings.Reader
import Sequencer.Name
import Sequencer.Failure
import Sequencer.Source.Basic
import Sequencer.Source.Text
import Sequencer.Action
import Sequencer.Program
import Sequencer.Log.Event
import Sequencer.Log.Traced
import Sequencer.Graph.Basic
import Sequencer.Graph.Build
import Sequencer.Graph.Placement
import Sequencer.Graph.Order
import Sequencer.Graph.Acyclic
import Sequencer.Sequence
import Sequencer.Limits
import Sequencer.Pattern.Mode
import Sequencer.Pattern.Extent
import Sequencer.Pattern.Item
import Sequencer.Pattern.Bracket
import Sequencer.Pattern.Reader
import Sequencer.Log.Filter
import Sequencer.Showcase
import Sequencer.Main
import Sequencer.Proofs.Reading
import Sequencer.Proofs.Edges
import Sequencer.Proofs.Linking
import Sequencer.Proofs.Placing
import Sequencer.Proofs.Cycles
import Sequencer.Proofs.Ordering
import Sequencer.Proofs.Arrangement
import Sequencer.Proofs.Conversion
import Sequencer.Proofs.Tables
import Sequencer.Proofs.Searching
import Sequencer.Proofs.Rearranging
import Sequencer.Proofs.Redrafting
import Sequencer.Proofs.Deciding
import Sequencer.Proofs.Adding
import Sequencer.Proofs.Rounds
import Sequencer.Proofs.Rewording
import Sequencer.Proofs.Renaming
import Sequencer.Proofs.Extending
import Sequencer.Proofs.Checking
import Sequencer.Proofs.Guarding
import Sequencer.Proofs.Matching
import Sequencer.Proofs.Numerals
import Sequencer.Proofs.Advancing
import Sequencer.Proofs.Scanning
import Sequencer.Proofs.Quoting
import Sequencer.Proofs.Documents
import Sequencer.Proofs.Projecting
import Sequencer.Proofs.Naming
import Sequencer.Proofs.Listing
import Sequencer.Proofs.Passing
import Sequencer.Proofs.Limiting
import Sequencer.Proofs.Drafting
import Sequencer.Proofs.Rendering
import Sequencer.Proofs.Reporting
import Sequencer.Proofs.Describing
import Sequencer.Proofs.Locating
