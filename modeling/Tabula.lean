import Tabula.Main
import Tabula.Proofs.Cells
import Tabula.Proofs.Combining
import Tabula.Proofs.Conservation
import Tabula.Proofs.Containment
import Tabula.Proofs.Embedding
import Tabula.Proofs.FieldNames
import Tabula.Proofs.Filling
import Tabula.Proofs.FirstFault
import Tabula.Proofs.Flattening
import Tabula.Proofs.Grouping
import Tabula.Proofs.HeaderNames
import Tabula.Proofs.Hiding
import Tabula.Proofs.Isolation
import Tabula.Proofs.KeyGrammar
import Tabula.Proofs.ListCells
import Tabula.Proofs.OrderIndependence
import Tabula.Proofs.PatchTargets
import Tabula.Proofs.Placeholders
import Tabula.Proofs.Postponement
import Tabula.Proofs.Rehearsal
import Tabula.Proofs.Renaming
import Tabula.Proofs.Republication
import Tabula.Proofs.RowLocality
import Tabula.Proofs.RowsField
import Tabula.Proofs.SourceNames
import Tabula.Proofs.Survival
import Tabula.Proofs.Turns
import Tabula.Proofs.Violations
