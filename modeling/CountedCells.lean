import CountedCells.Session.Structure
import CountedCells.Datum.View
import CountedCells.Datum.Convert
import CountedCells.Datum.KeySet
import CountedCells.Proofs.Counts
import CountedCells.Proofs.Safety
import CountedCells.Proofs.Refinement
import CountedCells.Proofs.Leaks
import CountedCells.Proofs.Orderly
import CountedCells.Proofs.Dropping
import CountedCells.Proofs.Errors
import CountedCells.Proofs.Unwinding
import CountedCells.Proofs.Hosts
import CountedCells.Proofs.Chronicle
import CountedCells.Proofs.Conservation
import CountedCells.Proofs.Related
import CountedCells.Proofs.Limits
import CountedCells.Proofs.Rebuilding
import CountedCells.Proofs.Dictionaries
import CountedCells.Proofs.WriteBack
import CountedCells.Proofs.Restoring
import CountedCells.Proofs.Records
import CountedCells.Proofs.Environment
import CountedCells.Proofs.Agreement
