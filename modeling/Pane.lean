import Pane.Compile
import Pane.Patch
import Pane.Proofs.Markup.Unescaped
import Pane.Proofs.Overlaid
import Pane.Proofs.Plain
import Pane.Proofs.Style.Cascade
import Pane.Proofs.Style.Integrity
import Pane.Proofs.Style.Interposed
import Pane.Proofs.Style.Occupied
import Pane.Proofs.Style.Percentages
import Pane.Proofs.Style.Rewritten
import Pane.Proofs.Style.Sealed
import Pane.Proofs.Style.Snapshot
import Pane.Proofs.Style.Spelled
import Pane.Proofs.Style.Substituted
import Pane.Proofs.Style.TurnedSheet
import Pane.Proofs.Style.WholeCharacters
import Pane.Proofs.Style.Widths
import Pane.Proofs.Tree.Retold
import Pane.Proofs.Wire.Lossless
import Pane.Tree.Flat
import Pane.Wire.Payload
