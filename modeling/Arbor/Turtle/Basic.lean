import Arbor.Mesh.PartTree

/-!
# The turtle

The turtle has a place and an orientation, given by one transform, and a node on which
it stands; together they are its frame. Turning and moving act in the frame, so they are
multiplied from the right. Spawning adds a node at the place of the turtle below the node
it stands on and makes it stand on the new one. Saving puts the frame on a stack, and
restoring takes it back with transform and node together; restoring from an empty stack
changes nothing.
-/
namespace Arbor

/-- Where a turtle is and on which node it stands. -/
structure Frame where
  /-- Place and orientation. -/
  transform : Matrix
  /-- The node below which the next node hangs. -/
  node : Option Nat

namespace Frame

/-- At the origin, upright and on no node. -/
def initial : Frame :=
  ⟨.identity, none⟩

instance : Inhabited Frame :=
  ⟨initial⟩

/-- The place of the turtle. -/
def position (frame : Frame) : Vec3 :=
  frame.transform.applyPoint .zero

/-- The direction that is up for the turtle. -/
def up (frame : Frame) : Vec3 :=
  frame.transform.applyDirection .unitY

/-- Applies a transform within the frame. -/
def transformed (frame : Frame) (transform : Matrix) : Frame :=
  { frame with transform := frame.transform.mul transform }

/-- Moves along an axis of the frame. -/
def moved (frame : Frame) (axis : Vec3) (distance : Float32) : Frame :=
  frame.transformed (.translation (axis.scale distance))

end Frame

/-- The axes around which a turtle turns. -/
inductive Axis where
  | x
  | y
  | z
  deriving DecidableEq, Repr

/-- The turn around an axis. -/
def Axis.rotation : Axis → Float32 → Matrix
  | .x => Matrix.rotationX
  | .y => Matrix.rotationY
  | .z => Matrix.rotationZ

/-- A turtle at work. -/
structure Turtle (π : Type) where
  frame : Frame
  /-- The saved frames, the one saved last in front. -/
  stack : List Frame
  /-- The tree that has grown so far. -/
  tree : PartTree π
  /-- The axis along which parts advance the turtle. -/
  growthAxis : Vec3

namespace Turtle

variable {π : Type}

/-- A turtle in front of its work. -/
def start (growthAxis : Vec3) : Turtle π :=
  ⟨.initial, [], .empty, growthAxis⟩

/-- The number of saved frames. -/
def depth (turtle : Turtle π) : Nat :=
  turtle.stack.length

/-- Turns by an angle in radians. -/
def rotate (turtle : Turtle π) (axis : Axis) (angle : Float32) : Turtle π :=
  { turtle with frame := turtle.frame.transformed (axis.rotation angle) }

/-- Moves along an axis of its frame. -/
def move (turtle : Turtle π) (axis : Vec3) (distance : Float32) : Turtle π :=
  { turtle with frame := turtle.frame.moved axis distance }

/-- Saves the frame. -/
def save (turtle : Turtle π) : Turtle π :=
  { turtle with stack := turtle.frame :: turtle.stack }

/-- Goes back to the frame that was saved last, if there is one. -/
def restore? (turtle : Turtle π) : Option (Turtle π) :=
  match turtle.stack with
  | [] => none
  | frame :: stack => some { turtle with frame, stack }

/-- Goes back to the frame that was saved last, or stays. -/
def restore (turtle : Turtle π) : Turtle π :=
  turtle.restore?.getD turtle

/-- Adds a node with a part and stands on it; then goes on as far as the part says. -/
def spawn [Part π] : Turtle π → π → List Float32 → Turtle π
  | ⟨frame, stack, tree, growthAxis⟩, part, parameters =>
    let standing := { frame with node := some tree.size }
    let tree := tree.add frame.node part parameters frame.transform
    match Part.advance part parameters with
    | none => ⟨standing, stack, tree, growthAxis⟩
    | some distance => ⟨standing.moved growthAxis distance, stack, tree, growthAxis⟩

/-- Turning leaves the saved frames alone. -/
@[simp] theorem stack_rotate (turtle : Turtle π) (axis : Axis) (angle : Float32) :
    (turtle.rotate axis angle).stack = turtle.stack := rfl

/-- Spawning leaves the saved frames alone. -/
@[simp] theorem stack_spawn [Part π] (turtle : Turtle π) (part : π) (parameters : List Float32) :
    (turtle.spawn part parameters).stack = turtle.stack := by
  obtain ⟨frame, stack, tree, growthAxis⟩ := turtle
  simp only [spawn]
  split <;> rfl

/-- One more frame is saved behind saving. -/
@[simp] theorem stack_save (turtle : Turtle π) :
    turtle.save.stack = turtle.frame :: turtle.stack := rfl

/-- The frame saved last is gone behind restoring. -/
@[simp] theorem stack_restore (turtle : Turtle π) :
    turtle.restore.stack = turtle.stack.tail := by
  unfold restore restore?
  split <;> simp_all

end Turtle

end Arbor
