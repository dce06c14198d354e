import StackLink.Expr
import StackLink.Main
import StackLink.Proofs.SymbolTable
import StackLink.Proofs.Merge
import StackLink.Proofs.Items
import StackLink.Proofs.Measure
import StackLink.Proofs.Filling
import StackLink.Proofs.LinkPhases
import StackLink.Proofs.LinkOutcome
import StackLink.Proofs.Image
import StackLink.Proofs.PartialLink
import StackLink.Proofs.Assembly
import StackLink.Proofs.Program
import StackLink.Proofs.Bytes
import StackLink.Proofs.Manifest
import StackLink.Proofs.CodeSection
import StackLink.Proofs.ObjectFile
import StackLink.Proofs.Duplicates
import StackLink.Proofs.Outcome
import StackLink.Proofs.Volume
import StackLink.Proofs.StagedFiles
import StackLink.Proofs.Regrouping
import StackLink.Proofs.Alike
import StackLink.Proofs.Cells
import StackLink.Proofs.MergeFailure
import StackLink.Proofs.EarlyResolution
import StackLink.Proofs.StoredModules
import StackLink.Proofs.Appending
import StackLink.Proofs.StaleManifests
import StackLink.Proofs.AllOrNothing
import StackLink.Proofs.Consistency
import StackLink.Proofs.Disassembly
import StackLink.Proofs.MergeOrder
import StackLink.Proofs.PassOne
import StackLink.Proofs.PassTwo
import StackLink.Proofs.NormalForm
import StackLink.Proofs.Relocation
import StackLink.Proofs.StatementFaults
import StackLink.Proofs.AssembledFiles
import StackLink.Proofs.ManifestGrammar
import StackLink.Proofs.Encoding
import StackLink.Proofs.MergeFrame
import StackLink.Proofs.StaticErrors
import StackLink.Proofs.BalancedSequence
import StackLink.Proofs.ReachableTables
import StackLink.Proofs.SymbolMaps
