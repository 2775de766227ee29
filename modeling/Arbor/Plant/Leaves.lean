import Arbor.Geometry.Matrix
import Arbor.Plant.Parameters
import Arbor.Plant.Quad
import Arbor.Random.Draw

/-!
# Clusters of leaves

A cluster is a number of flat leaves fanned out around one place. The number, and for
each leaf its length, its width and its two turns, lie in ranges given by the
parameters. A range whose upper bound is not above the lower one is the lower bound
alone and takes nothing from the generator.
-/
namespace Arbor

/-- The triangle group of foliage. -/
def leafGroup : Text := "treeLeaf".toList

/-- A lower and an upper bound. -/
structure Bounds where
  low : Float32
  high : Float32

namespace Bounds

/-- Reads bounds from two parameters that follow each other. -/
def ofParameters (p : List Float32) (position : Nat) : Bounds :=
  ⟨Parameters.get p position, Parameters.get p (position + 1)⟩

/-- A number within the bounds. -/
def draw (bounds : Bounds) : Draw Float32 :=
  if bounds.low < bounds.high then Draw.single bounds.low bounds.high else pure bounds.low

/-- A count within the bounds, which are cut to integers first. Negative bounds count as
zero, and so do those that are no numbers. -/
def drawCount (bounds : Bounds) : Draw UInt32 :=
  let (low, high) := (bounds.low.toUInt32, bounds.high.toUInt32)
  if low < high then Draw.integer low high else pure low

end Bounds

/-- The ranges of a cluster. -/
structure LeafCluster where
  count : Bounds
  length : Bounds
  width : Bounds
  xRotation : Bounds
  zRotation : Bounds

/-- A leaf with its numbers drawn. -/
structure Leaf where
  length : Float32
  width : Float32
  xRotation : Float32
  zRotation : Float32

namespace Leaf

/-- The corners of a leaf, which lies flat before it is turned. -/
def corners (leaf : Leaf) (transform : Matrix) : List Vertex :=
  let turned := (transform.mul (.rotationX leaf.xRotation)).mul (.rotationZ leaf.zRotation)
  [⟨turned.applyPoint ⟨0, 0, 0⟩, ⟨0, 0⟩⟩,
    ⟨turned.applyPoint ⟨0, 0, leaf.length⟩, ⟨0, 1⟩⟩,
    ⟨turned.applyPoint ⟨leaf.width, 0, leaf.length⟩, ⟨1, 1⟩⟩,
    ⟨turned.applyPoint ⟨leaf.width, 0, 0⟩, ⟨1, 0⟩⟩]

end Leaf

namespace LeafCluster

/-- The number of parameters. -/
def arity : Nat := 10

/-- Reads a cluster from its parameters. -/
def ofParameters (p : List Float32) : LeafCluster where
  count := Bounds.ofParameters p 0
  length := Bounds.ofParameters p 2
  width := Bounds.ofParameters p 4
  xRotation := Bounds.ofParameters p 6
  zRotation := Bounds.ofParameters p 8

/-- Draws one leaf. -/
def drawLeaf (cluster : LeafCluster) : Draw Leaf := do
  let length ← cluster.length.draw
  let width ← cluster.width.draw
  let xRotation ← cluster.xRotation.draw
  let zRotation ← cluster.zRotation.draw
  pure { length, width, xRotation, zRotation }

/-- Draws a number of leaves one after the other. -/
def drawLeaves (cluster : LeafCluster) : Nat → Draw (List Leaf)
  | 0 => pure []
  | count + 1 => do
    let leaf ← cluster.drawLeaf
    let leaves ← drawLeaves cluster count
    pure (leaf :: leaves)

/-- The geometry of a cluster. -/
def patch (cluster : LeafCluster) (transform : Matrix) : Draw Patch := do
  let count ← cluster.count.drawCount
  let leaves ← cluster.drawLeaves count.toNat
  pure (.ofQuads leafGroup (leaves.map (Leaf.corners · transform)))

end LeafCluster

end Arbor
