import Playscript.Cursor
import Playscript.Document.Alike
import Playscript.Reading.Reader
import Playscript.Visitor
import Playscript.Writing.Write
import Playscript.Proofs.Occurrences
import Playscript.Proofs.FirstLine
import Playscript.Proofs.ParameterGrammar
import Playscript.Proofs.LineGrammar
import Playscript.Proofs.Scan
import Playscript.Proofs.Bounds
import Playscript.Proofs.Run
import Playscript.Proofs.Dispatch
import Playscript.Proofs.Tiling
import Playscript.Proofs.Breaks
import Playscript.Proofs.ParameterWriting
import Playscript.Proofs.LineWriting
import Playscript.Proofs.RoundTrip
import Playscript.Proofs.EqualNodes
import Playscript.Proofs.Canonical
import Playscript.Proofs.Frame
import Playscript.Proofs.Segment
import Playscript.Proofs.Concatenation
import Playscript.Proofs.Completion
import Playscript.Proofs.LineEndings
import Playscript.Proofs.Counterparts
import Playscript.Proofs.UnifiedParameters
import Playscript.Proofs.UnifiedLines
import Playscript.Proofs.UnifiedReading
import Playscript.Proofs.ParameterLayout
import Playscript.Proofs.RuleOrder
import Playscript.Proofs.TokenWalks
import Playscript.Proofs.Visits
import Playscript.Proofs.LineWalks
import Playscript.Proofs.Safety
import Playscript.Proofs.Positions
import Playscript.Proofs.BlockComments
import Playscript.Proofs.BracketTags
import Playscript.Proofs.BrokenTokens
import Playscript.Proofs.TagForms
import Playscript.Proofs.Labels
import Playscript.Proofs.Cues
import Playscript.Proofs.Displacement
import Playscript.Proofs.PlainWriting
import Playscript.Proofs.LineStarts
import Playscript.Proofs.LineFactorisation
import Playscript.Proofs.PlainMessages
import Playscript.Proofs.Growth
