import CompilerSymbols.SharedTable
import CompilerSymbols.Stored
import CompilerSymbols.Symbol.Inspect
import CompilerSymbols.Types.Store
import CompilerSymbols.Types.Text
import CompilerSymbols.Proofs.Types.Catalog
import CompilerSymbols.Proofs.Types.Layout
import CompilerSymbols.Proofs.Types.Key
import CompilerSymbols.Proofs.Types.Representation
import CompilerSymbols.Proofs.Types.Service
import CompilerSymbols.Proofs.Types.Refinement
import CompilerSymbols.Proofs.Heap.Cells
import CompilerSymbols.Proofs.Heap.References
import CompilerSymbols.Proofs.Heap.Balance
import CompilerSymbols.Proofs.Heap.Liveness
import CompilerSymbols.Proofs.Table.Operations
import CompilerSymbols.Proofs.Workspace.Step
import CompilerSymbols.Proofs.Workspace.Request
import CompilerSymbols.Proofs.Heap.Persistence
import CompilerSymbols.Proofs.Workspace.Roots
import CompilerSymbols.Proofs.Workspace.Creator
import CompilerSymbols.Proofs.Workspace.Liveness
import CompilerSymbols.Proofs.Names.Growth
import CompilerSymbols.Proofs.Workspace.Ownership
import CompilerSymbols.Proofs.Workspace.Sharing
import CompilerSymbols.Proofs.Types.Growth
import CompilerSymbols.Proofs.Types.Operator
import CompilerSymbols.Proofs.Workspace.Operators
import CompilerSymbols.Proofs.Names.Naming
import CompilerSymbols.Proofs.Scope.Definitions
import CompilerSymbols.Proofs.Types.Run
import CompilerSymbols.Proofs.Types.Meaning
import CompilerSymbols.Proofs.Types.Tree
import CompilerSymbols.Proofs.Types.Items
import CompilerSymbols.Proofs.Types.Conversions
import CompilerSymbols.Proofs.Workspace.Scopes
import CompilerSymbols.Proofs.Workspace.Frozen
import CompilerSymbols.Proofs.Workspace.Closing
import CompilerSymbols.Proofs.Workspace.BuiltinTypes
import CompilerSymbols.Proofs.Types.Form
import CompilerSymbols.Proofs.Types.Spelling
import CompilerSymbols.Proofs.Types.Reading
import CompilerSymbols.Proofs.Types.Writing
import CompilerSymbols.Proofs.Types.Readable
import CompilerSymbols.Proofs.Types.Following
import CompilerSymbols.Proofs.Types.Printing
import CompilerSymbols.Proofs.Types.Failures
import CompilerSymbols.Proofs.Workspace.OwnerChains
import CompilerSymbols.Proofs.Workspace.ParentWalk
import CompilerSymbols.Proofs.Types.Effect
import CompilerSymbols.Proofs.Table.Synthesis
import CompilerSymbols.Proofs.Names.Qualified
import CompilerSymbols.Proofs.Names.Ordering
import CompilerSymbols.Proofs.Types.Handles
import CompilerSymbols.Proofs.Types.TextFrame
import CompilerSymbols.Proofs.BitSet
