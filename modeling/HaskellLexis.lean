import HaskellLexis.ConfigReading
import HaskellLexis.Saved
import HaskellLexis.Session
import HaskellLexis.Proofs.Order
import HaskellLexis.Proofs.Walk
import HaskellLexis.Proofs.Scan
import HaskellLexis.Proofs.Kinds
import HaskellLexis.Proofs.Run
import HaskellLexis.Proofs.Tiling
import HaskellLexis.Proofs.Checks
import HaskellLexis.Proofs.Coverage
import HaskellLexis.Proofs.Exactness
import HaskellLexis.Proofs.Classes
import HaskellLexis.Proofs.Lengths
import HaskellLexis.Proofs.Progress
import HaskellLexis.Proofs.Braces
import HaskellLexis.Proofs.Breaks
import HaskellLexis.Proofs.LineEnd
import HaskellLexis.Proofs.Shift
import HaskellLexis.Proofs.Joining
import HaskellLexis.Proofs.Alone.Comment
import HaskellLexis.Proofs.Alone.Name
import HaskellLexis.Proofs.Alone
import HaskellLexis.Proofs.Reprinting
import HaskellLexis.Proofs.Failure
import HaskellLexis.Proofs.Trigger
import HaskellLexis.Proofs.Locality
import HaskellLexis.Proofs.Regrouping
import HaskellLexis.Proofs.Offside
import HaskellLexis.Proofs.Restarts
import HaskellLexis.Proofs.Markup
import HaskellLexis.Proofs.Pragmas
import HaskellLexis.Proofs.Fading
import HaskellLexis.Proofs.Comments
import HaskellLexis.Proofs.Gates
import HaskellLexis.Proofs.Moves
import HaskellLexis.Proofs.Shielding
import HaskellLexis.Proofs.Profiling
import HaskellLexis.Proofs.Scoping
import HaskellLexis.Proofs.Json
import HaskellLexis.Proofs.Saved
import HaskellLexis.Proofs.Shares
import HaskellLexis.Proofs.Reaching
import HaskellLexis.Proofs.Openings
import HaskellLexis.Proofs.Acceptance
import HaskellLexis.Proofs.Elements
import HaskellLexis.Proofs.Strings
import HaskellLexis.Proofs.LongNumerals
import HaskellLexis.Proofs.Numbers
import HaskellLexis.Proofs.Single
import HaskellLexis.Proofs.Munch
import HaskellLexis.Proofs.Qualified
import HaskellLexis.Proofs.QualifiedOperators
import HaskellLexis.Proofs.Nesting
import HaskellLexis.Proofs.RawCharacters
import HaskellLexis.Proofs.Deliveries
import HaskellLexis.Proofs.PragmaEnds
import HaskellLexis.Proofs.Keywords
import HaskellLexis.Proofs.BracedLets
import HaskellLexis.Proofs.Arrival
import HaskellLexis.Proofs.Tabs
import HaskellLexis.Proofs.Decoration
import HaskellLexis.Proofs.Demand
