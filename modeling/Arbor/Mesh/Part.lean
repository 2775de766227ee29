import Arbor.Geometry.Matrix
import Arbor.Mesh.Basic
import Arbor.Random.Draw

/-!
# Mesh parts

A part is what a drawing symbol stands for. It tells how many parameters the symbol
needs, how far the turtle goes on behind it, and which patch it contributes to the
mesh. The patch may depend on drawn numbers.
-/
namespace Arbor

/-- A vocabulary of parts. -/
class Part (π : Type) where
  /-- The number of parameters that a part needs. -/
  arity : π → Nat
  /-- How far the turtle moves along its growth axis behind a part, if it moves. -/
  advance : π → List Float32 → Option Float32
  /-- The geometry of a part under a transform. -/
  patch : π → List Float32 → Matrix → Draw Patch

namespace Part

variable {π : Type} [Part π]

/-- Appends the geometry of a part to a mesh. -/
def emit (part : π) (parameters : List Float32) (transform : Matrix) (mesh : Mesh) :
    Draw Mesh := do
  let patch ← Part.patch part parameters transform
  pure (mesh.place patch)

/-- Two vocabularies side by side. -/
instance {π ρ : Type} [Part π] [Part ρ] : Part (π ⊕ ρ) where
  arity
    | .inl part => Part.arity part
    | .inr part => Part.arity part
  advance
    | .inl part => Part.advance part
    | .inr part => Part.advance part
  patch
    | .inl part => Part.patch part
    | .inr part => Part.patch part

end Part

end Arbor
