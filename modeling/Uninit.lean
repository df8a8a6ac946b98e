import Uninit.Finding.Collect
import Uninit.Host.Memory
import Uninit.Main
import Uninit.Proofs.Reach
import Uninit.Proofs.Walk
import Uninit.Proofs.Lowering
import Uninit.Proofs.Reports
import Uninit.Proofs.Lines
import Uninit.Proofs.Origins
import Uninit.Proofs.Analysis
import Uninit.Proofs.Comments
import Uninit.Proofs.Hiding
import Uninit.Proofs.Places
import Uninit.Proofs.Trace
import Uninit.Proofs.Overlooked
import Uninit.Proofs.Decoding
import Uninit.Proofs.Markers
import Uninit.Proofs.Segments
import Uninit.Proofs.Unmarked
import Uninit.Proofs.Counting
import Uninit.Proofs.Writing
import Uninit.Proofs.Breaks
import Uninit.Proofs.JsonGrammar
import Uninit.Proofs.JsonReader
import Uninit.Proofs.JsonReports
import Uninit.Proofs.SourceOrder
import Uninit.Proofs.Conditionals
import Uninit.Proofs.Alike
import Uninit.Proofs.Splitting
import Uninit.Proofs.Accumulation
import Uninit.Proofs.Faults
import Uninit.Proofs.Borders
import Uninit.Proofs.Outlines
import Uninit.Proofs.Layout
import Uninit.Proofs.MarkerGrammar
import Uninit.Proofs.Malformed
import Uninit.Proofs.Placement
import Uninit.Proofs.TextReports
import Uninit.Proofs.Blanking
import Uninit.Proofs.FilePaths
import Uninit.Proofs.Respelling
import Uninit.Proofs.Fallback
import Uninit.Proofs.CommandGrammar
import Uninit.Proofs.Acceptance
import Uninit.Proofs.Calls
import Uninit.Proofs.Declarators
import Uninit.Proofs.Words
import Uninit.Proofs.Cursors
import Uninit.Proofs.Productions
import Uninit.Proofs.Derivations
import Uninit.Proofs.Stacks
import Uninit.Proofs.Versions
import Uninit.Proofs.Repairs
import Uninit.Proofs.Readings
import Uninit.Proofs.Shown
import Uninit.Proofs.Parsing
