import CallCountLint.Main
import CallCountLint.Proofs.Grammar
import CallCountLint.Proofs.Recognition
import CallCountLint.Proofs.Builtin
import CallCountLint.Proofs.Meaning
import CallCountLint.Proofs.Growth
import CallCountLint.Proofs.Convention
import CallCountLint.Proofs.Materialize
import CallCountLint.Proofs.Convergence
import CallCountLint.Proofs.Offsets
import CallCountLint.Proofs.Splice
import CallCountLint.Proofs.Layout
import CallCountLint.Proofs.Nesting
import CallCountLint.Proofs.Conservation
import CallCountLint.Proofs.Collecting
import CallCountLint.Proofs.Rendering
import CallCountLint.Proofs.Document
import CallCountLint.Proofs.Findings
import CallCountLint.Proofs.Numbering
import CallCountLint.Proofs.Lowered
import CallCountLint.Proofs.Origin
import CallCountLint.Proofs.Trivia
import CallCountLint.Proofs.Edits
import CallCountLint.Proofs.Rounding
import CallCountLint.Proofs.Files
import CallCountLint.Proofs.Run
import CallCountLint.Proofs.Locality
import CallCountLint.Proofs.SameShape
import CallCountLint.Proofs.Pointing
import CallCountLint.Proofs.Leaves
import CallCountLint.Proofs.Unfolding
import CallCountLint.Proofs.Json.Grammar
import CallCountLint.Proofs.Json.Scanning
import CallCountLint.Proofs.Json.Lexing
import CallCountLint.Proofs.Json.Reading
import CallCountLint.Proofs.Json.Writing
import CallCountLint.Proofs.Config
import CallCountLint.Proofs.Report
import CallCountLint.Proofs.Building
import CallCountLint.Proofs.Rounds
import CallCountLint.Proofs.Safety
import CallCountLint.Proofs.Walks
