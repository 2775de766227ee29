import Arbor.Mesh.PartTree
import Arbor.Proofs.PlantPatches

/-!
# Indices in words

The corners of a patch are counted without bounds and become words when the patch is placed.
Here the indices of plants are computed in words from the beginning, one operation after the
other: the corners of a cell from the first vertex of its trunk, those of a quad from the
vertices that are there when its turn comes. A result that is no word ends the computation.
If the vertices of the mesh can be counted in words, then no operation leaves the words, and
the mesh is the same.
-/
namespace Arbor

/-- The corners of a triangle counted from further in front. -/
def Triangle.behind (count : Nat) (triangle : Triangle Nat) : Triangle Nat :=
  ⟨count + triangle.a, count + triangle.b, count + triangle.c⟩

/-! ## Operations on words -/

namespace Word

/-- The sum of words, if it is a word. -/
def add? (left right : UInt32) : Option UInt32 :=
  if left.toNat + right.toNat < UInt32.size then some (left + right) else none

/-- The product of words, if it is a word. -/
def mul? (left right : UInt32) : Option UInt32 :=
  if left.toNat * right.toNat < UInt32.size then some (left * right) else none

/-- A word is at most the number that it is made from. -/
theorem toNat_toUInt32_le (number : Nat) : number.toUInt32.toNat ≤ number := by
  rw [Nat.toUInt32, UInt32.toNat_ofNat']
  exact Nat.mod_le _ _

/-- Numbers are added as words if their sum is one. -/
theorem add?_toUInt32 {left right : Nat} (fits : left + right < UInt32.size) :
    add? left.toUInt32 right.toUInt32 = some (left + right).toUInt32 := by
  have bounded : left.toUInt32.toNat + right.toUInt32.toNat < UInt32.size :=
    Nat.lt_of_le_of_lt (Nat.add_le_add (toNat_toUInt32_le left) (toNat_toUInt32_le right)) fits
  rw [add?, if_pos bounded]
  exact congrArg some (UInt32.ofNat_add left right).symm

/-- Numbers are multiplied as words if their product is one. -/
theorem mul?_toUInt32 {left right : Nat} (fits : left * right < UInt32.size) :
    mul? left.toUInt32 right.toUInt32 = some (left * right).toUInt32 := by
  have bounded : left.toUInt32.toNat * right.toUInt32.toNat < UInt32.size :=
    Nat.lt_of_le_of_lt (Nat.mul_le_mul (toNat_toUInt32_le left) (toNat_toUInt32_le right)) fits
  rw [mul?, if_pos bounded]
  exact congrArg some (UInt32.ofNat_mul left right).symm

end Word

/-! ## Trunks -/

namespace Trunk

/-- The triangles of a cell, computed in words. -/
def cellInWords (base stride ring place : UInt32) : Option (List (Triangle UInt32)) := do
  let row ← Word.mul? ring stride
  let start ← Word.add? base row
  let a ← Word.add? start place
  let b ← Word.add? a 1
  let c ← Word.add? a stride
  let d ← Word.add? c 1
  pure [⟨d, c, a⟩, ⟨a, b, d⟩]

/-- Writes the triangles of a grid of cells whose first vertex is `base`. -/
def writeGrid (columns rings : Nat) (base stride : UInt32) (mesh : Mesh) : Option Mesh :=
  (List.range rings).foldlM (fun mesh ring =>
    (List.range columns).foldlM (fun mesh place => do
      let triangles ← cellInWords base stride ring.toUInt32 place.toUInt32
      pure (mesh.addTriangles barkGroup triangles)) mesh) mesh

/-- Writes a trunk behind the vertices that are there. -/
def write (trunk : Trunk) (transform : Matrix) (mesh : Mesh) : Option Mesh :=
  if trunk.xSegments = 0 ∨ trunk.ySegments = 0 then
    some mesh
  else do
    let base := mesh.nextIndex
    let stride ← Word.add? trunk.xSegments 1
    writeGrid trunk.xSegments.toNat trunk.ySegments.toNat base stride
      (mesh.addVertices (trunk.vertices transform))

/-- If the last corner of a cell is a word, then so is all that is computed for it. -/
theorem cellInWords_eq {base stride ring place : Nat}
    (fits : base + (ring * stride + place + stride + 1) < UInt32.size) :
    cellInWords base.toUInt32 stride.toUInt32 ring.toUInt32 place.toUInt32 =
      some ((cell stride ring place).map (Triangle.moved base)) := by
  have row : Word.mul? ring.toUInt32 stride.toUInt32 = some (ring * stride).toUInt32 :=
    Word.mul?_toUInt32 (by omega)
  have start : Word.add? base.toUInt32 (ring * stride).toUInt32 =
      some (base + ring * stride).toUInt32 := Word.add?_toUInt32 (by omega)
  have a : Word.add? (base + ring * stride).toUInt32 place.toUInt32 =
      some (base + ring * stride + place).toUInt32 := Word.add?_toUInt32 (by omega)
  have b : Word.add? (base + ring * stride + place).toUInt32 1 =
      some (base + ring * stride + place + 1).toUInt32 := @Word.add?_toUInt32 _ 1 (by omega)
  have c : Word.add? (base + ring * stride + place).toUInt32 stride.toUInt32 =
      some (base + ring * stride + place + stride).toUInt32 := Word.add?_toUInt32 (by omega)
  have d : Word.add? (base + ring * stride + place + stride).toUInt32 1 =
      some (base + ring * stride + place + stride + 1).toUInt32 :=
    @Word.add?_toUInt32 _ 1 (by omega)
  simp only [cellInWords, row, start, a, b, c, d, Option.bind_eq_bind, Option.bind_some,
    Option.pure_def]
  simp only [cell, Triangle.moved, List.map_cons, List.map_nil, Nat.add_assoc]

end Trunk

/-- A loop whose steps all succeed is a loop without faults. -/
theorem foldlM_eq_some {α β : Type} {values : List α} {step : β → α → Option β}
    {next : β → α → β} (succeeds : ∀ state, ∀ value ∈ values,
      step state value = some (next state value)) (state : β) :
    values.foldlM step state = some (values.foldl next state) := by
  induction values generalizing state with
  | nil => rfl
  | cons value values ih =>
    rw [List.foldlM_cons, succeeds state value List.mem_cons_self, List.foldl_cons]
    exact ih (fun state other among => succeeds state other (List.mem_cons_of_mem value among)) _

/-- Triangles that are listed piece by piece are added piece by piece. -/
theorem Mesh.addTriangles_flatMap {α : Type} (mesh : Mesh) (name : Text) (values : List α)
    (piece : α → List (Triangle UInt32)) :
    mesh.addTriangles name (values.flatMap piece) =
      values.foldl (fun mesh value => mesh.addTriangles name (piece value)) mesh := by
  simp only [addTriangles, List.foldl_flatMap]

namespace Trunk

/-- A grid is written cell by cell, if its vertices can be counted. -/
theorem writeGrid_eq {columns rings base : Nat}
    (fits : base + (columns + 1) * (rings + 1) ≤ UInt32.size) (mesh : Mesh) :
    writeGrid columns rings base.toUInt32 (columns + 1).toUInt32 mesh =
      some (mesh.addTriangles barkGroup ((grid columns rings).map (Triangle.moved base))) := by
  have cells (ring : Nat) (below : ring ∈ List.range rings) (place : Nat)
      (beside : place ∈ List.range columns) :
      cellInWords base.toUInt32 (columns + 1).toUInt32 ring.toUInt32 place.toUInt32 =
        some ((cell (columns + 1) ring place).map (Triangle.moved base)) := by
    have last := corner_lt (List.mem_range.mp below) (List.mem_range.mp beside)
    exact cellInWords_eq (by omega)
  rw [grid, List.map_flatMap, Mesh.addTriangles_flatMap]
  refine foldlM_eq_some (fun written ring below => ?_) _
  rw [List.map_flatMap, Mesh.addTriangles_flatMap]
  refine foldlM_eq_some (fun written place beside => ?_) _
  rw [cells ring below place beside]
  rfl

/-- A trunk is written like its patch is placed, if its vertices can be counted. -/
theorem write_eq {trunk : Trunk} {transform : Matrix} {mesh : Mesh}
    (fits : mesh.vertices.size + (trunk.patch transform).vertices.length ≤ UInt32.size) :
    trunk.write transform mesh = some (mesh.place (trunk.patch transform)) := by
  rw [patch] at fits ⊢
  rw [write]
  by_cases bare : trunk.xSegments = 0 ∨ trunk.ySegments = 0
  · rw [if_pos bare, if_pos bare]
    rfl
  · rw [if_neg bare] at fits
    rw [if_neg bare, if_neg bare, Mesh.place_eq]
    have room : mesh.vertices.size +
        (trunk.xSegments.toNat + 1) * (trunk.ySegments.toNat + 1) ≤ UInt32.size := by
      rw [← length_vertices trunk transform]
      exact fits
    have rings : 0 < trunk.ySegments.toNat :=
      Nat.pos_of_ne_zero fun none => bare (.inr (UInt32.toNat_inj.mp none))
    -- There are at least two rings, so the vertices of one of them are counted by a word.
    have around : trunk.xSegments.toNat + 1 < UInt32.size := by
      have two : 2 ≤ trunk.ySegments.toNat + 1 := Nat.succ_le_succ rings
      have twice := Nat.mul_le_mul_left (trunk.xSegments.toNat + 1) two
      omega
    have stride : Word.add? trunk.xSegments 1 = some (trunk.xSegments.toNat + 1).toUInt32 := by
      have sum := @Word.add?_toUInt32 trunk.xSegments.toNat 1 around
      rwa [Nat.toUInt32, UInt32.ofNat_toNat] at sum
    rw [stride]
    exact writeGrid_eq room _

end Trunk

/-! ## Quads -/

/-- Writes a quad: its corners come behind the vertices that are there. -/
def Mesh.writeQuad (group : Text) (mesh : Mesh) (corners : List Vertex) : Option Mesh := do
  let base := mesh.nextIndex
  let second ← Word.add? base 1
  let third ← Word.add? base 2
  let fourth ← Word.add? base 3
  pure ((mesh.addVertices corners).addTriangles group
    [⟨third, second, base⟩, ⟨base, fourth, third⟩])

/-- One patch behind another one. -/
def Patch.append (first second : Patch) : Patch :=
  ⟨first.vertices ++ second.vertices, first.group, first.triangles ++ second.triangles.map
    (Triangle.behind first.vertices.length)⟩

/-- Patches of the same group may be placed one after the other or at once. -/
theorem Mesh.place_append (mesh : Mesh) {first second : Patch}
    (same : second.group = first.group) :
    mesh.place (first.append second) = (mesh.place first).place second := by
  have corners (triangle : Triangle Nat) :
      (triangle.behind first.vertices.length).moved mesh.vertices.size =
        triangle.moved (mesh.vertices.size + first.vertices.length) := by
    simp only [Triangle.moved, Triangle.behind, Nat.add_assoc]
  rw [place_eq (mesh.place first), size_vertices_place, same, place_eq mesh first,
    addVertices_addTriangles, place_eq]
  simp only [Patch.append, addVertices, addTriangles, List.foldl_append, List.map_append,
    List.map_map, Function.comp_def, corners]

namespace Patch

variable {group : Text} {quad : List Vertex} {quads : List (List Vertex)}

/-- The first quad is placed in front of the others. -/
theorem ofQuads_cons (four : quad.length = 4) :
    ofQuads group (quad :: quads) = (ofQuads group [quad]).append (ofQuads group quads) := by
  have later (number : Nat) : quadTriangles (number + 1) =
      (quadTriangles number).map (Triangle.behind quad.length) := by
    simp only [quadTriangles, List.map_cons, List.map_nil, Triangle.behind, four, Nat.mul_succ,
      Nat.add_comm, Nat.add_left_comm]
  have triangles : (List.range (quads.length + 1)).flatMap quadTriangles = quadTriangles 0 ++
      ((List.range quads.length).flatMap quadTriangles).map (Triangle.behind quad.length) := by
    rw [List.range_succ_eq_map, List.flatMap_cons, List.flatMap_map, List.map_flatMap]
    exact congrArg _ (List.flatMap_congr fun number _ => later number)
  simp only [ofQuads, append, List.length_cons, triangles, List.flatten_cons, List.flatten_nil,
    List.append_nil]
  rfl

end Patch

/-- A quad is written like its patch is placed, if its corners can be counted. -/
theorem Mesh.writeQuad_eq {group : Text} {mesh : Mesh} {quad : List Vertex}
    (fits : mesh.vertices.size + 4 ≤ UInt32.size) :
    mesh.writeQuad group quad = some (mesh.place (.ofQuads group [quad])) := by
  have second : Word.add? mesh.nextIndex 1 = some (mesh.vertices.size + 1).toUInt32 :=
    @Word.add?_toUInt32 _ 1 (by omega)
  have third : Word.add? mesh.nextIndex 2 = some (mesh.vertices.size + 2).toUInt32 :=
    @Word.add?_toUInt32 _ 2 (by omega)
  have fourth : Word.add? mesh.nextIndex 3 = some (mesh.vertices.size + 3).toUInt32 :=
    @Word.add?_toUInt32 _ 3 (by omega)
  simp only [writeQuad, second, third, fourth, Option.bind_eq_bind, Option.bind_some,
    Option.pure_def, place_eq, Patch.ofQuads, List.flatten_cons, List.flatten_nil,
    List.append_nil]
  rfl

/-- Writes quads one after the other. -/
def Mesh.writeQuads (group : Text) (mesh : Mesh) (quads : List (List Vertex)) : Option Mesh :=
  quads.foldlM (writeQuad group) mesh

/-- Quads are written like their patch is placed, if their corners can be counted. -/
theorem Mesh.writeQuads_eq {group : Text} {mesh : Mesh} {quads : List (List Vertex)}
    (four : ∀ quad ∈ quads, quad.length = 4)
    (fits : mesh.vertices.size + (Patch.ofQuads group quads).vertices.length ≤ UInt32.size) :
    mesh.writeQuads group quads = some (mesh.place (.ofQuads group quads)) := by
  induction quads generalizing mesh with
  | nil => rfl
  | cons quad quads ih =>
    obtain ⟨here, later⟩ := List.forall_mem_cons.mp four
    have count : (Patch.ofQuads group (quad :: quads)).vertices.length =
        4 + (Patch.ofQuads group quads).vertices.length := by
      simp only [Patch.ofQuads, List.flatten_cons, List.length_append, here]
    have size : (mesh.place (.ofQuads group [quad])).vertices.size = mesh.vertices.size + 4 := by
      simp only [size_vertices_place, Patch.ofQuads, List.flatten_cons, List.flatten_nil,
        List.append_nil, here]
    have first : mesh.writeQuad group quad = some (mesh.place (.ofQuads group [quad])) :=
      writeQuad_eq (by omega)
    have split : mesh.place (.ofQuads group (quad :: quads)) =
        (mesh.place (.ofQuads group [quad])).place (.ofQuads group quads) :=
      (congrArg mesh.place (Patch.ofQuads_cons here)).trans (place_append mesh rfl)
    rw [writeQuads, List.foldlM_cons, first, split]
    exact ih later (by omega)

/-! ## Joints and leaves -/

namespace Joint

/-- Writes a joint quad by quad. -/
def write (joint : Joint) (transform : Matrix) (mesh : Mesh) : Option Mesh :=
  if joint.xSegments < 2 ∨ joint.ySegments < 2 then
    some mesh
  else
    mesh.writeQuads barkGroup (joint.quads transform)

/-- A joint is written like its patch is placed, if its vertices can be counted. -/
theorem write_eq {joint : Joint} {transform : Matrix} {mesh : Mesh}
    (fits : mesh.vertices.size + (joint.patch transform).vertices.length ≤ UInt32.size) :
    joint.write transform mesh = some (mesh.place (joint.patch transform)) := by
  rw [patch] at fits ⊢
  rw [write]
  by_cases bare : joint.xSegments < 2 ∨ joint.ySegments < 2
  · rw [if_pos bare, if_pos bare]
    rfl
  · rw [if_neg bare] at fits
    rw [if_neg bare, if_neg bare]
    exact Mesh.writeQuads_eq (fun _ among => length_of_mem_quads among) fits

end Joint

namespace LeafCluster

/-- Writes leaves one after the other; each is drawn in front of its quad. -/
def writeLeaves (cluster : LeafCluster) (transform : Matrix) : Nat → Mesh → Draw Mesh
  | 0, mesh => pure mesh
  | count + 1, mesh => do
    let leaf ← cluster.drawLeaf
    let mesh ← StateT.lift (mesh.writeQuad leafGroup (leaf.corners transform))
    writeLeaves cluster transform count mesh

/-- Writes a cluster with a number of leaves that is drawn first. -/
def write (cluster : LeafCluster) (transform : Matrix) (mesh : Mesh) : Draw Mesh := do
  let count ← cluster.count.drawCount
  cluster.writeLeaves transform count.toNat mesh

variable {cluster : LeafCluster} {transform : Matrix} {generator after : Generator}

/-- Leaves may be drawn one by one in front of their quads, or all in front of the first. -/
theorem run_writeLeaves {count : Nat} {leaves : List Leaf} {mesh written : Mesh}
    (drawn : (cluster.drawLeaves count).run generator = some (leaves, after))
    (quads : mesh.writeQuads leafGroup (leaves.map (Leaf.corners · transform)) = some written) :
    (cluster.writeLeaves transform count mesh).run generator = some (written, after) := by
  induction count generalizing generator leaves mesh with
  | zero =>
    obtain ⟨rfl, rfl⟩ := Draw.pure_eq_some_iff.mp drawn
    exact Draw.pure_eq_some_iff.mpr ⟨Option.some.inj quads, rfl⟩
  | succ count ih =>
    obtain ⟨leaf, later, first, drawn⟩ := Draw.bind_eq_some_iff.mp drawn
    obtain ⟨others, last, rest, drawn⟩ := Draw.bind_eq_some_iff.mp drawn
    obtain ⟨rfl, rfl⟩ := Draw.pure_eq_some_iff.mp drawn
    obtain ⟨between, quad, quads⟩ := Option.bind_eq_some_iff.mp quads
    refine Draw.bind_eq_some_iff.mpr ⟨leaf, later, first, ?_⟩
    refine Draw.bind_eq_some_iff.mpr ⟨between, later, ?_, ih rest quads⟩
    exact Draw.lift_eq_some_iff.mpr ⟨quad, rfl⟩

/-- A cluster is written like its patch is placed, if its vertices can be counted. -/
theorem run_write {mesh : Mesh} {patch : Patch}
    (drawn : (cluster.patch transform).run generator = some (patch, after))
    (fits : mesh.vertices.size + patch.vertices.length ≤ UInt32.size) :
    (cluster.write transform mesh).run generator = some (mesh.place patch, after) := by
  obtain ⟨count, later, leaves, counted, fanned, rfl⟩ := exists_of_patch drawn
  have quads := Mesh.writeQuads_eq (fun _ among => length_of_mem_corners among) fits
  exact Draw.bind_eq_some_iff.mpr ⟨count, later, counted, run_writeLeaves fanned quads⟩

end LeafCluster

/-! ## Parts -/

/-- Writes a shape behind the vertices that are there. -/
def PlantShape.write (shape : PlantShape) (transform : Matrix) (mesh : Mesh) : Draw Mesh :=
  match shape with
  | .trunk shape => StateT.lift (shape.write transform mesh)
  | .joint shape => StateT.lift (shape.write transform mesh)
  | .leaves cluster => cluster.write transform mesh

/-- A shape is written like its patch is placed, if its vertices can be counted. -/
theorem PlantShape.run_write {shape : PlantShape} {parameters : List Float32} {transform : Matrix}
    {generator after : Generator} {mesh : Mesh} {patch : Patch}
    (drawn : (Part.patch shape parameters transform).run generator = some (patch, after))
    (fits : mesh.vertices.size + patch.vertices.length ≤ UInt32.size) :
    (shape.write transform mesh).run generator = some (mesh.place patch, after) := by
  cases shape with
  | trunk trunk =>
    obtain ⟨rfl, rfl⟩ := Draw.pure_eq_some_iff.mp drawn
    exact Draw.lift_eq_some_iff.mpr ⟨Trunk.write_eq fits, rfl⟩
  | joint joint =>
    obtain ⟨rfl, rfl⟩ := Draw.pure_eq_some_iff.mp drawn
    exact Draw.lift_eq_some_iff.mpr ⟨Joint.write_eq fits, rfl⟩
  | leaves cluster => exact LeafCluster.run_write drawn fits

/-- Writes a part behind the vertices that are there. -/
def PlantPart.write (part : PlantPart) (parameters : List Float32) (transform : Matrix)
    (mesh : Mesh) : Draw Mesh :=
  match part with
  | .trunk => StateT.lift ((Trunk.ofParameters parameters).write transform mesh)
  | .joint => StateT.lift ((Joint.ofParameters parameters).write transform mesh)
  | .leaves => (LeafCluster.ofParameters parameters).write transform mesh

/-- A part is written like its shape. -/
theorem PlantPart.write_eq_shape (part : PlantPart) (parameters : List Float32) :
    part.write parameters = (part.shape parameters).write := by
  cases part <;> rfl

/-- A part is written like its patch is placed, if its vertices can be counted. -/
theorem PlantPart.run_write {part : PlantPart} {parameters : List Float32} {transform : Matrix}
    {generator after : Generator} {mesh : Mesh} {patch : Patch}
    (drawn : (Part.patch part parameters transform).run generator = some (patch, after))
    (fits : mesh.vertices.size + patch.vertices.length ≤ UInt32.size) :
    (part.write parameters transform mesh).run generator = some (mesh.place patch, after) := by
  rw [part.patch_eq_shape] at drawn
  rw [part.write_eq_shape]
  exact PlantShape.run_write drawn fits

end Arbor
