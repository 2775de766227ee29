import Arbor.Text.Basic
import Arbor.Text.Blank
import Arbor.Text.Alphabet
import Arbor.Text.Builder
import Arbor.Decimal.Number
import Arbor.Random.Draw
import Arbor.ParameterList
import Arbor.Expression.Basic
import Arbor.Guard
import Arbor.Grammar.Basic
import Arbor.LSystem.Basic
import Arbor.Geometry.Noise
import Arbor.Geometry.Sphere
import Arbor.Mesh.Marker
import Arbor.Plant.StockTree
import Arbor.Proofs.Balance
import Arbor.Proofs.Weaving
import Arbor.Proofs.Nesting
import Arbor.Proofs.ParameterLists
import Arbor.Proofs.Attempts
import Arbor.Proofs.Tokens
import Arbor.Proofs.Passes
import Arbor.Proofs.Origins
import Arbor.Proofs.Composition
import Arbor.Proofs.Slots
import Arbor.Proofs.Agreement
import Arbor.Proofs.Preservation
import Arbor.Proofs.Derivations
import Arbor.Proofs.Branching
import Arbor.Proofs.DepthFirst
import Arbor.Proofs.CreationOrder
import Arbor.Proofs.Maintenance
import Arbor.Proofs.Persistence
import Arbor.Proofs.PlantMeshes
import Arbor.Proofs.Decimals
import Arbor.Proofs.DecimalLists
import Arbor.Proofs.Readability
import Arbor.Proofs.Shapes
import Arbor.Proofs.Acceptance
import Arbor.Proofs.StockGrowth
import Arbor.Proofs.Materials
import Arbor.Proofs.Undrawn
import Arbor.Proofs.Outcomes
import Arbor.Proofs.BranchIsolation
import Arbor.Proofs.MeshPrefixes
import Arbor.Proofs.PlainGrammars
import Arbor.Proofs.PassSteps
import Arbor.Proofs.RootedTrees
import Arbor.Proofs.SymbolStarts
import Arbor.Proofs.Overloads
import Arbor.Proofs.Arity
import Arbor.Proofs.Rounding
import Arbor.Proofs.DoubleBits
import Arbor.Proofs.WrittenNumbers
import Arbor.Proofs.Instances
import Arbor.Proofs.Flattening
import Arbor.Proofs.EmittedLists
import Arbor.Proofs.StepsInPlace
import Arbor.Proofs.FailingSteps
import Arbor.Proofs.ChangesInPlace
import Arbor.Proofs.Conjunctions
import Arbor.Proofs.Conjuncts
import Arbor.Proofs.NamesInScope
import Arbor.Proofs.ScopeAgreement
import Arbor.Proofs.SlotReports
import Arbor.Proofs.TrunkGrids
import Arbor.Proofs.Relocation
import Arbor.Proofs.TriangleLogs
import Arbor.Proofs.DispatchTables
import Arbor.Proofs.SilentSymbols
import Arbor.Proofs.SingleBits
import Arbor.Proofs.SpelledNumbers
import Arbor.Proofs.DrawnParameters
import Arbor.Proofs.CheckOrder
import Arbor.Proofs.MatchedGroups
import Arbor.Proofs.ClosedRanges
