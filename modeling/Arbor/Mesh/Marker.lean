import Arbor.Mesh.Part

/-!
# Markers

Markers show where a turtle has been. A dot stands in the tree and draws nothing. A
flag draws one triangle in a group of its own choice and advances the turtle by its
parameter.
-/
namespace Arbor

/-- What marks a place. -/
inductive Marker where
  | dot
  | flag (group : Text)
  deriving DecidableEq, Repr

namespace Marker

/-- The triangle of a flag. -/
def flagPatch (group : Text) (transform : Matrix) : Patch :=
  ⟨[⟨transform.applyPoint ⟨0, 0, 0⟩, ⟨0, 0⟩⟩,
      ⟨transform.applyPoint ⟨1, 0, 0⟩, ⟨1, 0⟩⟩,
      ⟨transform.applyPoint ⟨0, 1, 0⟩, ⟨0, 1⟩⟩],
    group, [⟨0, 1, 2⟩]⟩

end Marker

instance : Part Marker where
  arity
    | .dot => 0
    | .flag _ => 1
  advance
    | .dot, _ => none
    | .flag _, parameters => parameters.head?
  patch
    | .dot, _, _ => pure .empty
    | .flag group, _, transform => pure (Marker.flagPatch group transform)

end Arbor
