import Arbor.LSystem.Basic
import Arbor.Plant.Part
import Arbor.Turtle.Interpretation

/-!
# A stock tree

The stock system grows a tree that splits in two at every branching. The first symbol
is the main trunk `D`, which thickens in every pass; the second is a split point `S`,
which becomes a joint `J` and two branches, each with a trunk, a split point of its own
and leaves `L`. The interpretation that belongs to it knows the trunk, the joint and the
leaves besides the symbols for turning and branching, and pairs bark with the first and
foliage with the second material.
-/
namespace Arbor.StockTree

/-- The material handle of bark. -/
def woodMaterial : UInt8 := 0

/-- The material handle of foliage. -/
def leafMaterial : UInt8 := 1

/-- The constants of the stock tree. -/
def constants : List (String × Float) :=
  [("TrunkGrowthRate", 0.5),
   ("TrunkSplitMinXRot", 0),
   ("TrunkSplitMaxXRot", 0),
   ("TrunkSplitMinYRot", 0),
   ("TrunkSplitMaxYRot", 0),
   ("TrunkWidth", 0.03),
   ("MainTrunkLength", 3),
   ("TrunkLength", 1),
   ("XSegments", 5),
   ("YSegments", 5),
   ("PerlinZoom", 0.5),
   ("PerlinStrength", 0.05),
   ("LeafMinCount", 2),
   ("LeafMaxCount", 5),
   ("LeafMinLength", 0.2),
   ("LeafMaxLength", 0.5),
   ("LeafMinWidth", 0.1),
   ("LeafMaxWidth", 0.3),
   ("LeafMinXRot", -Scope.pi / 8),
   ("LeafMaxXRot", Scope.pi / 8),
   ("LeafMinZRot", -Scope.pi / 8),
   ("LeafMaxZRot", Scope.pi / 8)]

/-- The sequence that the stock tree grows from. -/
def start : String :=
  "D(TrunkWidth,0,MainTrunkLength,XSegments,YSegments,PerlinZoom,PerlinStrength)" ++
    "S(TrunkWidth,0,TrunkLength,XSegments,YSegments,PerlinZoom,PerlinStrength)"

/-- A cluster of leaves with the ranges of the constants. -/
def leaf : String :=
  "L(LeafMinCount,LeafMaxCount,LeafMinLength,LeafMaxLength,LeafMinWidth,LeafMaxWidth," ++
    "LeafMinXRot,LeafMaxXRot,LeafMinZRot,LeafMaxZRot)"

/-- A branch that is turned by two angles. -/
def branch (xRotation yRotation : String) : String :=
  "[X(" ++ xRotation ++ ")Y(" ++ yRotation ++ ")" ++
    "D(x*TrunkGrowthRate,y*TrunkGrowthRate,z,w,t,f,s)S(x,y,z,w,t,f,s)" ++ leaf ++ "]"

/-- What a split point becomes. -/
def split : String :=
  "J(x*TrunkGrowthRate,w,t)" ++
    branch "-PI/8+TrunkSplitMaxXRot+rnd(TrunkSplitMinXRot,TrunkSplitMaxXRot)"
      "-PI/8+TrunkSplitMaxYRot+rnd(TrunkSplitMinYRot,TrunkSplitMaxYRot)" ++
    branch "PI/8+TrunkSplitMinXRot+rnd(TrunkSplitMinXRot,TrunkSplitMaxXRot)"
      "-PI/8+rnd(TrunkSplitMinYRot,TrunkSplitMaxYRot)"

/-- The rules of the stock tree. -/
def grammar : Except RuleError Grammar := do
  let grammar ← Grammar.empty.addRule "D(x,y,z,w,t,f,s)".toList
    "D(x+TrunkWidth,y+TrunkWidth,z,w,t,f,s)".toList []
  let grammar ← grammar.addRule "S(x,y,z,w,t,f,s)".toList split.toList []
  grammar.addRule "J(x,y,z)".toList "J(x+TrunkWidth*1.25,y,z)".toList []

/-- The stock system, which makes five passes. -/
def system : Except RuleError LSystem :=
  grammar.map fun grammar => {
    start := start.toList
    iterations := 5
    grammar
    constants := Table.ofList (constants.map fun entry => (entry.1.toList, entry.2))
    seed := none }

/-- The interpretation of the stock tree, over any vocabulary that has the parts of
plants. -/
def interpretationOver {π : Type} (part : PlantPart → π) (seed : Option UInt64)
    (growthAxis : Vec3) : Interpretation π :=
  let turning := (Interpretation.empty seed growthAxis).withStandardSymbols
  let drawing := ((turning.register 'D' (part .trunk)).register 'J' (part .joint)).register 'L'
    (part .leaves)
  (drawing.addMaterial woodMaterial).addMaterial leafMaterial

/-- The interpretation of the stock tree. -/
def interpretation (seed : Option UInt64) (growthAxis : Vec3) : Interpretation PlantPart :=
  interpretationOver id seed growthAxis

end Arbor.StockTree
