import CellScript.Package.SourceHash
import CellScript.Assembler.Constants
import CellScript.Assembler.Linked
import CellScript.Checker.Agreement
import CellScript.Types.Exhaustive
import CellScript.Optimize.Preservation
import CellScript.Ir.Rewritten
import CellScript.Checker.CallGraph
import CellScript.Checker.Returns
import CellScript.Policy.Selection
import CellScript.Checker.OwnerSafety
import CellScript.Runtime.NestedAccess
import CellScript.Runtime.ExactTransparent
import CellScript.CounterSet.HostRefines
import CellScript.CounterSet.MigrationHistory
import CellScript.PolicyWitness.Agreement
import CellScript.Registry.Purge
import CellScript.Registry.Leases
import CellScript.Effects.Reached
import CellScript.GroupPolicy.Calls
import CellScript.Runtime.Maturity
