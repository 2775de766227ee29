import Arbor.Mesh.Part
import Arbor.Plant.Joint
import Arbor.Plant.Leaves
import Arbor.Plant.Trunk

/-!
# The parts of plants

Trunks, joints and clusters of leaves are the vocabulary of plants. A trunk advances
the turtle by its length; the others leave it where it is.
-/
namespace Arbor

/-- What a plant is made of. -/
inductive PlantPart where
  | trunk
  | joint
  | leaves
  deriving DecidableEq, Repr

instance : Part PlantPart where
  arity
    | .trunk => Trunk.arity
    | .joint => Joint.arity
    | .leaves => LeafCluster.arity
  advance
    | .trunk, parameters => parameters[Trunk.lengthPosition]?
    | .joint, _ => none
    | .leaves, _ => none
  patch
    | .trunk, parameters, transform => pure ((Trunk.ofParameters parameters).patch transform)
    | .joint, parameters, transform => pure ((Joint.ofParameters parameters).patch transform)
    | .leaves, parameters, transform => (LeafCluster.ofParameters parameters).patch transform

end Arbor
