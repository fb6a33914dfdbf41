import Milling.Main
import Milling.Assistant
import Milling.Disk.Tree
import Milling.Drawing.Document
import Milling.Session.Wire
import Milling.Proofs.History
import Milling.Proofs.Lines
import Milling.Proofs.Reasons
import Milling.Proofs.Emission
import Milling.Proofs.Controller
import Milling.Proofs.Contours
import Milling.Proofs.Safety
import Milling.Proofs.Doubles
import Milling.Proofs.Escapes
import Milling.Proofs.Reading
import Milling.Proofs.Reload
import Milling.Proofs.Edits
import Milling.Proofs.Loading
import Milling.Proofs.Figures
import Milling.Proofs.Explanations
import Milling.Proofs.Acceptance
import Milling.Proofs.Annotations
import Milling.Proofs.Markers
import Milling.Proofs.Denotation
import Milling.Proofs.Measures
import Milling.Proofs.Interleaving
import Milling.Proofs.Places
import Milling.Proofs.Storage
import Milling.Proofs.Nearest
import Milling.Proofs.Literals
import Milling.Proofs.Quoting
import Milling.Proofs.Sections
import Milling.Proofs.Configurations
import Milling.Proofs.Commands
import Milling.Proofs.Omissions
import Milling.Proofs.Admission
import Milling.Proofs.Winding
import Milling.Proofs.Arcs
import Milling.Proofs.Engraving
import Milling.Proofs.Addition
import Milling.Proofs.Boxes
import Milling.Proofs.Cells
import Milling.Proofs.Offsets
import Milling.Proofs.Precision
import Milling.Proofs.Displacement
import Milling.Proofs.Sweeps
import Milling.Proofs.Wire
