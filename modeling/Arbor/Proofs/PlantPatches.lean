import Arbor.Plant.Part
import Arbor.Proofs.Draws
import Arbor.Proofs.MeshBuffers

/-!
# Patches of plants

The numbers of vertices and triangles of a patch are its tally. That of a trunk and that of
a joint follow from their segments, and that of a cluster from the number of leaves that is
drawn first. All these patches are well formed: the cells of a trunk share the vertices of a
grid, and the quads of joints and leaves have four vertices each. What holds of all trunks, joints
and clusters is said of shapes, and each part has the shape that its parameters give.
-/
namespace Arbor

/-- A number of vertices and a number of triangles. -/
structure Tally where
  vertices : Nat
  triangles : Nat
  deriving DecidableEq, Repr

namespace Tally

/-- Nothing to count. -/
def zero : Tally :=
  ⟨0, 0⟩

/-- A grid of cells with two triangles each, between rows that have a vertex at both ends. -/
def ofGrid (columns rings : Nat) : Tally :=
  ⟨(columns + 1) * (rings + 1), 2 * columns * rings⟩

/-- Quads with four vertices and two triangles each. -/
def ofQuads (count : Nat) : Tally :=
  ⟨4 * count, 2 * count⟩

end Tally

/-- What a patch has. -/
def Patch.tally (patch : Patch) : Tally :=
  ⟨patch.vertices.length, patch.triangles.length⟩

/-! ## Rows of equal pieces -/

/-- Pieces of the same length make a row of a multiple of it. -/
theorem length_flatMap_of_forall {α β : Type} {values : List α} {piece : α → List β}
    (length : Nat) (equal : ∀ value ∈ values, (piece value).length = length) :
    (values.flatMap piece).length = values.length * length := by
  rw [List.length_flatMap, List.map_congr_left equal, List.map_const', List.sum_replicate_nat]

/-! ## Quads -/

namespace Patch

variable {group : Text} {quads : List (List Vertex)}

/-- The vertices and triangles of quads. -/
theorem tally_ofQuads (four : ∀ quad ∈ quads, quad.length = 4) :
    (ofQuads group quads).tally = .ofQuads quads.length := by
  have vertices : quads.flatten.length = 4 * quads.length := by
    rw [← List.flatMap_id', length_flatMap_of_forall 4 four, Nat.mul_comm]
  have triangles : ((List.range quads.length).flatMap quadTriangles).length =
      2 * quads.length := by
    rw [length_flatMap_of_forall 2 fun _ _ => rfl, List.length_range, Nat.mul_comm]
  simp only [tally, ofQuads, vertices, triangles, Tally.ofQuads]

/-- Quads make a well-formed patch. -/
theorem wellFormed_ofQuads (four : ∀ quad ∈ quads, quad.length = 4) {names : List Text}
    (named : group ∈ names) : (ofQuads group quads).WellFormed names where
  named _ := named
  within triangle among := by
    have vertices : (ofQuads group quads).vertices.length = 4 * quads.length :=
      congrArg Tally.vertices (tally_ofQuads four)
    rw [vertices]
    obtain ⟨number, counted, here⟩ := List.mem_flatMap.mp among
    have before := List.mem_range.mp counted
    simp only [quadTriangles, List.mem_cons, List.not_mem_nil, or_false] at here
    rcases here with rfl | rfl
    · refine ⟨?_, ?_, ?_⟩ <;> dsimp only <;> omega
    · refine ⟨?_, ?_, ?_⟩ <;> dsimp only <;> omega

/-- An empty patch is well formed, though its group has no name. -/
theorem wellFormed_empty (names : List Text) : (empty).WellFormed names where
  named some := absurd rfl some
  within _ among := nomatch among

end Patch

/-! ## Trunks -/

namespace Trunk

/-- What a trunk has; without segments in either direction that is nothing. -/
def tally (trunk : Trunk) : Tally :=
  if trunk.xSegments = 0 ∨ trunk.ySegments = 0 then .zero
  else .ofGrid trunk.xSegments.toNat trunk.ySegments.toNat

/-- The last corner of a cell is in front of the end of the grid. -/
theorem corner_lt {columns rings ring place : Nat} (below : ring < rings)
    (beside : place < columns) :
    ring * (columns + 1) + place + (columns + 1) + 1 < (columns + 1) * (rings + 1) := by
  have next : (ring + 2) * (columns + 1) ≤ (columns + 1) * (rings + 1) := by
    rw [Nat.mul_comm]
    exact Nat.mul_le_mul_left _ (by omega)
  have row : (ring + 2) * (columns + 1) = ring * (columns + 1) + 2 * (columns + 1) :=
    Nat.add_mul _ _ _
  omega

/-- The vertices of a trunk are those of a grid. -/
theorem length_vertices (trunk : Trunk) (transform : Matrix) :
    (trunk.vertices transform).length =
      (trunk.xSegments.toNat + 1) * (trunk.ySegments.toNat + 1) := by
  rw [vertices, length_flatMap_of_forall (trunk.xSegments.toNat + 1)]
  · rw [List.length_range, Nat.mul_comm]
  · intro ring _
    rw [List.length_map, List.length_range]

/-- A grid has two triangles in each cell. -/
theorem length_grid (columns rings : Nat) : (grid columns rings).length = 2 * columns * rings := by
  rw [grid, length_flatMap_of_forall (columns * 2)]
  · rw [List.length_range, Nat.mul_comm, Nat.mul_comm columns]
  · intro ring _
    rw [length_flatMap_of_forall 2 fun _ _ => rfl, List.length_range]

/-- The triangles of a grid stay in front of its end. -/
theorem within_grid {columns rings : Nat} {triangle : Triangle Nat}
    (among : triangle ∈ grid columns rings) :
    triangle.Within ((columns + 1) * (rings + 1)) := by
  obtain ⟨ring, counted, among⟩ := List.mem_flatMap.mp among
  obtain ⟨place, beside, among⟩ := List.mem_flatMap.mp among
  have last := corner_lt (List.mem_range.mp counted) (List.mem_range.mp beside)
  simp only [cell, List.mem_cons, List.not_mem_nil, or_false] at among
  rcases among with rfl | rfl
  · refine ⟨?_, ?_, ?_⟩ <;> dsimp only <;> omega
  · refine ⟨?_, ?_, ?_⟩ <;> dsimp only <;> omega

/-- The patch of a trunk has what its segments tell. -/
theorem tally_patch (trunk : Trunk) (transform : Matrix) :
    (trunk.patch transform).tally = trunk.tally := by
  rw [patch, tally]
  split
  · rfl
  · simp only [Patch.tally, length_vertices, length_grid, Tally.ofGrid]

/-- The patch of a trunk is well formed. -/
theorem wellFormed_patch (trunk : Trunk) (transform : Matrix) {names : List Text}
    (named : barkGroup ∈ names) : (trunk.patch transform).WellFormed names := by
  rw [patch]
  split
  · exact Patch.wellFormed_empty names
  · refine ⟨fun _ => named, fun triangle among => ?_⟩
    rw [length_vertices]
    exact within_grid among

end Trunk

/-! ## Joints -/

namespace Joint

/-- What a joint has; with less than two segments in either direction that is nothing. -/
def tally (joint : Joint) : Tally :=
  if joint.xSegments < 2 ∨ joint.ySegments < 2 then .zero
  else .ofQuads ((joint.xSegments.toNat - 1) * (joint.ySegments.toNat - 1))

/-- The quads of a joint have four corners. -/
theorem length_of_mem_quads {joint : Joint} {transform : Matrix} {quad : List Vertex}
    (among : quad ∈ joint.quads transform) : quad.length = 4 := by
  obtain ⟨x, _, among⟩ := List.mem_flatMap.mp among
  obtain ⟨y, _, rfl⟩ := List.mem_map.mp among
  rfl

/-- The quads of a joint are in columns and rows. -/
theorem length_quads (joint : Joint) (transform : Matrix) :
    (joint.quads transform).length = joint.columns * joint.rows := by
  rw [quads, length_flatMap_of_forall joint.rows]
  · rw [List.length_range]
  · intro x _
    rw [List.length_map, List.length_range]

/-- The patch of a joint has what its segments tell. -/
theorem tally_patch (joint : Joint) (transform : Matrix) :
    (joint.patch transform).tally = joint.tally := by
  rw [patch, tally]
  split
  · rfl
  · rw [Patch.tally_ofQuads fun _ among => length_of_mem_quads among, length_quads, columns, rows]

/-- The patch of a joint is well formed. -/
theorem wellFormed_patch (joint : Joint) (transform : Matrix) {names : List Text}
    (named : barkGroup ∈ names) : (joint.patch transform).WellFormed names := by
  rw [patch]
  split
  · exact Patch.wellFormed_empty names
  · exact Patch.wellFormed_ofQuads (fun _ among => length_of_mem_quads among) named

end Joint

/-! ## Clusters of leaves -/

namespace LeafCluster

variable {cluster : LeafCluster} {transform : Matrix} {generator after : Generator}

/-- As many leaves are drawn as are asked for. -/
theorem length_of_drawLeaves {count : Nat} {leaves : List Leaf}
    (drawn : (cluster.drawLeaves count).run generator = some (leaves, after)) :
    leaves.length = count := by
  induction count generalizing generator after leaves with
  | zero =>
    obtain ⟨rfl, _⟩ := Draw.pure_eq_some_iff.mp drawn
    rfl
  | succ count ih =>
    obtain ⟨leaf, later, _, drawn⟩ := Draw.bind_eq_some_iff.mp drawn
    obtain ⟨others, last, rest, drawn⟩ := Draw.bind_eq_some_iff.mp drawn
    obtain ⟨rfl, _⟩ := Draw.pure_eq_some_iff.mp drawn
    rw [List.length_cons, ih rest]

/-- The patch of a cluster is made of quads, as many as are drawn first. -/
theorem exists_of_patch {patch : Patch}
    (drawn : (cluster.patch transform).run generator = some (patch, after)) :
    ∃ count later leaves, cluster.count.drawCount.run generator = some (count, later) ∧
      (cluster.drawLeaves count.toNat).run later = some (leaves, after) ∧
        patch = .ofQuads leafGroup (leaves.map (Leaf.corners · transform)) := by
  obtain ⟨count, later, counted, drawn⟩ := Draw.bind_eq_some_iff.mp drawn
  obtain ⟨leaves, last, fanned, drawn⟩ := Draw.bind_eq_some_iff.mp drawn
  obtain ⟨rfl, rfl⟩ := Draw.pure_eq_some_iff.mp drawn
  exact ⟨count, later, leaves, counted, fanned, rfl⟩

/-- Leaves have four corners. -/
theorem length_of_mem_corners {leaves : List Leaf} {quad : List Vertex}
    (among : quad ∈ leaves.map (Leaf.corners · transform)) : quad.length = 4 := by
  obtain ⟨leaf, _, rfl⟩ := List.mem_map.mp among
  rfl

end LeafCluster

/-! ## Shapes -/

/-- A trunk, a joint or a cluster of leaves, with any numbers. -/
inductive PlantShape where
  | trunk (trunk : Trunk)
  | joint (joint : Joint)
  | leaves (cluster : LeafCluster)

/-- Shapes are parts without parameters. -/
instance : Part PlantShape where
  arity _ := 0
  advance
    | .trunk trunk, _ => some trunk.length
    | .joint _, _ => none
    | .leaves _, _ => none
  patch
    | .trunk trunk, _, transform => pure (trunk.patch transform)
    | .joint joint, _, transform => pure (joint.patch transform)
    | .leaves cluster, _, transform => cluster.patch transform

namespace PlantShape

/-- The triangle group of a shape. -/
def group : PlantShape → Text
  | .trunk _ => barkGroup
  | .joint _ => barkGroup
  | .leaves _ => leafGroup

/-- The patch of a shape is well formed. -/
theorem wellFormed_of_patch {shape : PlantShape} {parameters : List Float32} {transform : Matrix}
    {generator after : Generator} {patch : Patch}
    (drawn : (Part.patch shape parameters transform).run generator = some (patch, after))
    {names : List Text} (named : shape.group ∈ names) : patch.WellFormed names := by
  cases shape with
  | trunk trunk =>
    obtain ⟨rfl, _⟩ := Draw.pure_eq_some_iff.mp drawn
    exact trunk.wellFormed_patch transform named
  | joint joint =>
    obtain ⟨rfl, _⟩ := Draw.pure_eq_some_iff.mp drawn
    exact joint.wellFormed_patch transform named
  | leaves cluster =>
    obtain ⟨_, _, _, _, _, rfl⟩ := LeafCluster.exists_of_patch drawn
    exact Patch.wellFormed_ofQuads (fun _ among => LeafCluster.length_of_mem_corners among) named

end PlantShape

/-! ## Parts and nodes -/

/-- The shape of a part with its parameters. -/
def PlantPart.shape (part : PlantPart) (parameters : List Float32) : PlantShape :=
  match part with
  | .trunk => .trunk (Trunk.ofParameters parameters)
  | .joint => .joint (Joint.ofParameters parameters)
  | .leaves => .leaves (LeafCluster.ofParameters parameters)

/-- A part has the patch of its shape. -/
theorem PlantPart.patch_eq_shape (part : PlantPart) (parameters : List Float32) :
    Part.patch part parameters = Part.patch (part.shape parameters) [] := by
  cases part <;> rfl

/-- What a part of a plant is going to have. For a cluster the number of leaves is drawn. -/
def PlantPart.tally (part : PlantPart) (parameters : List Float32) : Draw Tally :=
  match part with
  | .trunk => pure (Trunk.ofParameters parameters).tally
  | .joint => pure (Joint.ofParameters parameters).tally
  | .leaves => do
    let count ← (LeafCluster.ofParameters parameters).count.drawCount
    pure (.ofQuads count.toNat)

/-- The triangle groups of plants. -/
def plantGroups : List Text :=
  [barkGroup, leafGroup]

section

variable {part : PlantPart} {parameters : List Float32} {transform : Matrix}
  {generator after : Generator} {patch : Patch}

/-- The patch of a part has what may be drawn for it in its place. -/
theorem PlantPart.exists_tally_of_patch
    (drawn : (Part.patch part parameters transform).run generator = some (patch, after)) :
    ∃ later, (part.tally parameters).run generator = some (patch.tally, later) := by
  cases part with
  | trunk =>
    obtain ⟨rfl, _⟩ := Draw.pure_eq_some_iff.mp drawn
    refine ⟨generator, ?_⟩
    rw [Trunk.tally_patch]
    rfl
  | joint =>
    obtain ⟨rfl, _⟩ := Draw.pure_eq_some_iff.mp drawn
    refine ⟨generator, ?_⟩
    rw [Joint.tally_patch]
    rfl
  | leaves =>
    obtain ⟨count, later, leaves, counted, fanned, rfl⟩ := LeafCluster.exists_of_patch drawn
    refine ⟨later, Draw.bind_eq_some_iff.mpr ⟨count, later, counted, ?_⟩⟩
    rw [Patch.tally_ofQuads fun _ among => LeafCluster.length_of_mem_corners among,
      List.length_map, LeafCluster.length_of_drawLeaves fanned]
    rfl

/-- The patch of a part is well formed. -/
theorem PlantPart.wellFormed_of_patch
    (drawn : (Part.patch part parameters transform).run generator = some (patch, after)) :
    patch.WellFormed plantGroups := by
  have bark : barkGroup ∈ plantGroups := List.mem_cons_self
  have foliage : leafGroup ∈ plantGroups := List.mem_cons_of_mem _ List.mem_cons_self
  rw [part.patch_eq_shape] at drawn
  refine PlantShape.wellFormed_of_patch drawn ?_
  cases part with
  | trunk => exact bark
  | joint => exact bark
  | leaves => exact foliage

end

end Arbor
