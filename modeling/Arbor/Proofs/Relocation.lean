import Arbor.Proofs.GroupCorners
import Arbor.Proofs.WordIndices

/-!
# Relocation

A part is written behind what is there. It writes the same vertices as into an empty mesh and the
same triangles with their corners moved by the number of vertices that were there, it takes the same
words from the generator, and it leaves all else as it was. This holds for every trunk, joint and
cluster of leaves, also for shapes that no parameters give, as long as the vertices can be counted.
-/
namespace Arbor

open Triangle

/-! ## Moved patches -/

namespace Mesh

/-- A mesh is another one with what a third one has behind it: its vertices with their texture
coordinates, and its indices, which are all in one group, each moved by the vertices that were
there. -/
structure Relocated (name : Text) (mesh own whole : Mesh) : Prop where
  vertices : whole.vertices = mesh.vertices ++ own.vertices
  uvs : whole.uvs = mesh.uvs ++ own.uvs
  materials : whole.materials = mesh.materials
  groups : own.groups = [] ∧ whole.groups = mesh.groups ∨
    ∃ indices moved, own.groups = [⟨name, indices⟩] ∧
      moved.map UInt32.toNat = indices.map (fun index => mesh.vertices.size + index.toNat) ∧
        Extends name moved mesh.groups whole.groups

/-- The indices of a patch behind `base` vertices. -/
def placedIndices (base : Nat) (patch : Patch) : Array UInt32 :=
  (cornersOfAll (patch.triangles.map (Triangle.moved base))).toArray

/-- No index wraps around if the vertices can be counted. -/
theorem map_toNat_placedIndices {base : Nat} {patch : Patch}
    (within : ∀ triangle ∈ patch.triangles, triangle.Within patch.vertices.length)
    (fits : base + patch.vertices.length ≤ UInt32.size) :
    (placedIndices base patch).map UInt32.toNat =
      ((cornersOfAll patch.triangles).map (base + ·)).toArray := by
  have moved : patch.triangles.map (Triangle.moved base) =
      patch.triangles.map (Triangle.map fun corner => (base + corner).toUInt32) := rfl
  rw [placedIndices, moved, cornersOfAll_map, List.map_toArray, List.map_map]
  refine congrArg List.toArray (List.map_congr_left fun corner among => ?_)
  obtain ⟨triangle, listed, among⟩ := List.mem_flatMap.mp among
  obtain ⟨a, b, c⟩ := within triangle listed
  have below : corner < patch.vertices.length := by
    simp only [corners, List.mem_cons, List.not_mem_nil, or_false] at among
    rcases among with rfl | rfl | rfl
    · exact a
    · exact b
    · exact c
  exact UInt32.toNat_ofNat_of_lt' (by omega)

/-- A patch that is placed extends the rows of vertices, and its group by its indices if it has
triangles. -/
theorem place_eq_extendGroup (mesh : Mesh) (patch : Patch) :
    mesh.place patch =
      { mesh with
        vertices := mesh.vertices ++ (patch.vertices.map Vertex.position).toArray
        uvs := mesh.uvs ++ (patch.vertices.map Vertex.uv).toArray
        groups := if patch.triangles = [] then mesh.groups else
          extendGroup patch.group (placedIndices mesh.vertices.size patch) mesh.groups } := by
  rw [place_eq]
  by_cases none : patch.triangles = []
  · rw [if_pos none, none, List.map_nil, addTriangles, List.foldl_nil, addVertices_eq]
  · rw [if_neg none, addTriangles_eq _ _ (by simpa using none), addVertices_eq, placedIndices]

/-- A patch is placed behind other vertices as in an empty mesh. -/
theorem relocated_place (mesh : Mesh) {patch : Patch} {name : Text}
    (proper : patch.WellFormed [name])
    (fits : mesh.vertices.size + patch.vertices.length ≤ UInt32.size) :
    Relocated name mesh (Mesh.empty.place patch) (mesh.place patch) := by
  rw [place_eq_extendGroup, place_eq_extendGroup]
  refine ⟨by simp [Mesh.empty], by simp [Mesh.empty], rfl, ?_⟩
  by_cases none : patch.triangles = []
  · exact .inl ⟨if_pos none, if_pos none⟩
  · have named : patch.group = name := List.mem_singleton.mp (proper.named none)
    have alone : 0 + patch.vertices.length ≤ UInt32.size := by omega
    refine .inr ⟨placedIndices 0 patch, placedIndices mesh.vertices.size patch, ?_, ?_, ?_⟩
    · rw [← named]
      exact if_neg none
    · have own := map_toNat_placedIndices proper.within alone
      have counted : (placedIndices 0 patch).map (fun index => mesh.vertices.size + index.toNat) =
          ((placedIndices 0 patch).map UInt32.toNat).map (mesh.vertices.size + ·) :=
        Array.map_map.symm
      rw [map_toNat_placedIndices proper.within fits, counted, own, List.map_toArray]
      simp only [Nat.zero_add, List.map_id']
    · rw [← named, if_neg none]
      exact extends_extendGroup _ _ _

end Mesh

/-! ## Parts -/

/-- A part is emitted by placing the patch that is drawn for it. -/
theorem Part.run_emit_eq_some_iff {π : Type} [Part π] {part : π} {parameters : List Float32}
    {transform : Matrix} {mesh whole : Mesh} {generator after : Generator} :
    (Part.emit part parameters transform mesh).run generator = some (whole, after) ↔
      ∃ patch, (Part.patch part parameters transform).run generator = some (patch, after) ∧
        whole = mesh.place patch := by
  rw [Part.emit, Draw.bind_eq_some_iff]
  constructor
  · rintro ⟨patch, later, drawn, placed⟩
    obtain ⟨rfl, rfl⟩ := Draw.pure_eq_some_iff.mp placed
    exact ⟨patch, drawn, rfl⟩
  · rintro ⟨patch, drawn, rfl⟩
    exact ⟨patch, after, drawn, Draw.pure_eq_some_iff.mpr ⟨rfl, rfl⟩⟩

/-- A part is not emitted exactly if no patch is drawn for it, whatever there is. -/
theorem Part.run_emit_eq_none_iff {π : Type} [Part π] {part : π} {parameters : List Float32}
    {transform : Matrix} {mesh : Mesh} {generator : Generator} :
    (Part.emit part parameters transform mesh).run generator = none ↔
      (Part.patch part parameters transform).run generator = none := by
  rw [Part.emit, Draw.bind_eq_none_iff, or_iff_left]
  rintro ⟨patch, later, _, stops⟩
  exact Draw.run_pure_ne_none stops

/-- A part is emitted like its shape. -/
theorem PlantPart.emit_eq_shape (part : PlantPart) (parameters : List Float32) :
    Part.emit part parameters = Part.emit (part.shape parameters) [] := by
  funext transform mesh
  rw [Part.emit, Part.emit, part.patch_eq_shape]

namespace PlantShape

/-- A shape is emitted into a mesh as into an empty one, behind what is there, and it is written the
same vertex by vertex and triangle by triangle. -/
theorem emit_relocated (shape : PlantShape) (transform : Matrix) (generator : Generator)
    (mesh : Mesh) :
    ((Part.emit shape [] transform mesh).run generator = none ↔
      (Part.emit shape [] transform .empty).run generator = none) ∧
    ∀ own after, (Part.emit shape [] transform .empty).run generator = some (own, after) →
      mesh.vertices.size + own.vertices.size ≤ UInt32.size →
        ∃ whole, (Part.emit shape [] transform mesh).run generator = some (whole, after) ∧
          (shape.write transform mesh).run generator = some (whole, after) ∧
          (shape.write transform .empty).run generator = some (own, after) ∧
          Mesh.Relocated shape.group mesh own whole := by
  refine ⟨Part.run_emit_eq_none_iff.trans Part.run_emit_eq_none_iff.symm, ?_⟩
  intro own after alone fits
  obtain ⟨patch, drawn, rfl⟩ := Part.run_emit_eq_some_iff.mp alone
  rw [Mesh.size_vertices_place] at fits
  have fits : mesh.vertices.size + patch.vertices.length ≤ UInt32.size := by
    simpa [Mesh.empty] using fits
  have fits' : Mesh.empty.vertices.size + patch.vertices.length ≤ UInt32.size :=
    Nat.le_trans (Nat.add_le_add_right (Nat.zero_le _) _) fits
  exact ⟨_, Part.run_emit_eq_some_iff.mpr ⟨patch, drawn, rfl⟩, run_write drawn fits,
    run_write drawn fits',
    Mesh.relocated_place mesh (wellFormed_of_patch drawn List.mem_cons_self) fits⟩

/-- A trunk of one cell behind a vertex and a triangle of bark. -/
theorem emit_relocated_trunk :
    let shape := PlantShape.trunk ⟨1, 1, 2, 1, 1, 0, 0⟩
    let mesh := (Mesh.empty.addVertex ⟨⟨0, 0, 0⟩, ⟨0, 0⟩⟩).addTriangle barkGroup ⟨0, 0, 0⟩
    let generator := Generator.ofSeed 0
    ∃ own whole, (Part.emit shape [] .identity .empty).run generator = some (own, generator) ∧
      mesh.vertices.size + own.vertices.size ≤ UInt32.size ∧
      (Part.emit shape [] .identity mesh).run generator = some (whole, generator) ∧
      own.groups ≠ [] ∧ Mesh.Relocated barkGroup mesh own whole := by
  intro shape mesh generator
  have fits : mesh.vertices.size +
      (Mesh.empty.place (Trunk.patch ⟨1, 1, 2, 1, 1, 0, 0⟩ .identity)).vertices.size ≤
        UInt32.size := by
    decide
  obtain ⟨whole, emitted, _, _, relocated⟩ :=
    (emit_relocated shape .identity generator mesh).2 _ generator rfl fits
  exact ⟨_, whole, rfl, fits, emitted, by decide, relocated⟩

end PlantShape

end Arbor
