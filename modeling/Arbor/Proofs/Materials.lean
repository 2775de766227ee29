import Arbor.Proofs.PlantMeshes

/-!
# Materials of the stock tree

The groups of a mesh stand in the order in which they were first written, and each gets the
material at its position. The stock tree has the material of bark in front of that of foliage,
so everything depends on which of its two groups is written first. The first patch in the
order of the nodes that has a triangle decides this: if it is one of bark, or if there is none,
then both groups have their own materials, and if it is one of foliage, then foliage has the
material of bark.
-/
namespace Arbor

/-! ## The order of groups -/

/-- The groups that a patch writes, once for each triangle. -/
def Patch.written (patch : Patch) : List Text :=
  patch.triangles.map fun _ => patch.group

namespace Mesh

variable {mesh : Mesh} {seen : List Text}

/-- The names of the groups. -/
def names (mesh : Mesh) : List Text :=
  mesh.groups.map TriangleGroup.name

/-- Each name gets the material at its position. -/
theorem map_submeshes (mesh : Mesh) :
    mesh.submeshes.map (fun entry => (entry.1.name, entry.2)) =
      mesh.names.zipIdx.map fun entry => (entry.1, mesh.materials[entry.2]?) := by
  rw [submeshes, names, List.zipIdx_map, List.map_map, List.map_map]
  rfl

/-- A triangle writes its group. -/
theorem names_addTriangle (held : mesh.names = seen.eraseDups) (name : Text)
    (triangle : Triangle UInt32) :
    (mesh.addTriangle name triangle).names = (seen ++ [name]).eraseDups := by
  have grown : (mesh.addTriangle name triangle).names =
      mesh.names ++ if name ∈ mesh.names then [] else [name] :=
    map_name_addToGroup name triangle mesh.groups
  rw [grown, List.eraseDups_append, held]
  simp only [List.mem_eraseDups]
  by_cases present : name ∈ seen
  · simp [present, List.removeAll]
  · simp [present, List.removeAll, List.eraseDups_cons]

/-- Vertices write no groups. -/
theorem names_addVertices (mesh : Mesh) (vertices : List Vertex) :
    (mesh.addVertices vertices).names = mesh.names := by
  rw [addVertices]
  induction vertices generalizing mesh with
  | nil => rfl
  | cons vertex vertices ih => exact ih (mesh.addVertex vertex)

/-- Triangles write their group once for each of them. -/
theorem names_addTriangles (held : mesh.names = seen.eraseDups) (name : Text)
    (triangles : List (Triangle UInt32)) :
    (mesh.addTriangles name triangles).names =
      (seen ++ triangles.map fun _ => name).eraseDups := by
  induction triangles generalizing mesh seen with
  | nil => simpa [addTriangles] using held
  | cons triangle triangles ih =>
    have later := ih (names_addTriangle held name triangle)
    rw [List.append_assoc] at later
    exact later

/-- A patch writes its group once for each of its triangles. -/
theorem names_place (held : mesh.names = seen.eraseDups) (patch : Patch) :
    (mesh.place patch).names = (seen ++ patch.written).eraseDups := by
  rw [place_eq]
  have vertices : (mesh.addVertices patch.vertices).names = seen.eraseDups :=
    (names_addVertices mesh patch.vertices).trans held
  have placed := names_addTriangles vertices patch.group
    (patch.triangles.map (Triangle.moved mesh.vertices.size))
  rwa [List.map_map] at placed

/-- Behind placing patches the groups stand in the order in which the patches first wrote
them. -/
theorem names_placeAll (held : mesh.names = seen.eraseDups) (patches : List Patch) :
    (patches.foldl place mesh).names = (seen ++ patches.flatMap Patch.written).eraseDups := by
  induction patches generalizing mesh seen with
  | nil => simpa using held
  | cons patch patches ih =>
    have later := ih (names_place held patch)
    rw [List.append_assoc] at later
    exact later

end Mesh

/-- Out of two values the first one comes first, and the other one behind it if at all. -/
theorem eraseDups_of_two {α : Type} [BEq α] [LawfulBEq α] {first other : α} (ne : other ≠ first)
    {rest : List α} (known : ∀ value ∈ rest, value = first ∨ value = other) :
    (first :: rest).eraseDups = [first] ∨ (first :: rest).eraseDups = [first, other] := by
  rw [List.eraseDups_cons]
  have others : ∀ value ∈ rest.filter (fun value => !value == first), value = other := by
    intro value among
    obtain ⟨listed, different⟩ := List.mem_filter.mp among
    exact (known value listed).resolve_left (by simpa using different)
  cases filtered : rest.filter fun value => !value == first with
  | nil => exact .inl rfl
  | cons value more =>
    rw [filtered] at others
    obtain ⟨rfl, same⟩ := List.forall_mem_cons.mp others
    have none : more.filter (fun value' => !value' == value) = [] := by
      simpa [List.filter_eq_nil_iff] using same
    rw [List.eraseDups_cons, none]
    exact .inr rfl

namespace StockTree

/-! ## The materials of the groups -/

/-- A group of the stock tree has its own material: that of bark or that of foliage. -/
def Suits (name : Text) (material : Option UInt8) : Prop :=
  (name = barkGroup → material = some woodMaterial) ∧
    (name = leafGroup → material = some leafMaterial)

instance (name : Text) (material : Option UInt8) : Decidable (Suits name material) :=
  inferInstanceAs (Decidable (_ ∧ _))

/-- All groups of a mesh have their own materials. -/
def PairsMaterials (mesh : Mesh) : Prop :=
  ∀ entry ∈ mesh.submeshes, Suits entry.1.name entry.2

/-- Only the names of the groups and their materials count. -/
theorem pairsMaterials_iff_map (mesh : Mesh) :
    PairsMaterials mesh ↔
      ∀ entry ∈ mesh.submeshes.map (fun entry => (entry.1.name, entry.2)),
        Suits entry.1 entry.2 := by
  simp only [List.forall_mem_map]
  rfl

/-- With the materials of the stock tree both groups have their own ones unless that of
foliage was written first. -/
theorem pairsMaterials_iff {mesh : Mesh} {written : List Text}
    (names : mesh.names = written.eraseDups) (known : ∀ name ∈ written, name ∈ plantGroups)
    (materials : mesh.materials = [woodMaterial, leafMaterial]) :
    PairsMaterials mesh ↔ mesh.names.head? ≠ some leafGroup := by
  rw [pairsMaterials_iff_map, Mesh.map_submeshes, names, materials]
  cases written with
  | nil => simp
  | cons first rest =>
    have listed : ∀ name ∈ first :: rest, name = barkGroup ∨ name = leafGroup := by
      intro name among
      simpa [plantGroups] using known name among
    obtain ⟨here, later⟩ := List.forall_mem_cons.mp listed
    have different : leafGroup ≠ barkGroup := by decide
    rcases here with rfl | rfl
    · rcases eraseDups_of_two different later with alone | both
      · rw [alone]
        decide
      · rw [both]
        decide
    · rcases eraseDups_of_two different.symm fun name among => (later name among).symm with
        alone | both
      · rw [alone]
        decide
      · rw [both]
        decide

/-- A plant writes no other groups than those of bark and foliage. -/
theorem mem_plantGroups_of_written {tree : PartTree PlantPart} {patches : List Patch}
    {generator after : Generator} (drawn : tree.patches.run generator = some (patches, after)) :
    ∀ name ∈ patches.flatMap Patch.written, name ∈ plantGroups := by
  have proper : ∀ patch ∈ patches, patch.WellFormed plantGroups :=
    (Draw.mapM_eq_some_iff.mp drawn).forall_mem PlantPart.wellFormed_of_patch
  intro name among
  obtain ⟨patch, listed, writes⟩ := List.mem_flatMap.mp among
  obtain ⟨triangle, there, rfl⟩ := List.mem_map.mp writes
  exact (proper patch listed).named (List.ne_nil_of_mem there)

/-- The materials of the stock tree. Whatever the sequence, the seed and the numbers drawn, the
groups of a mesh stand in the order in which the patches of the nodes first wrote them, and
they have their own materials exactly if the first one of them, if there is any, is not that of
foliage. -/
theorem pairsMaterials_iff_of_mesh {seed : Option UInt64} {growthAxis : Vec3}
    {fresh : Generator} {sequence : Text} {mesh : Mesh}
    (grown : (interpretation seed growthAxis).mesh fresh sequence = some (.ok mesh)) :
    ∃ tree patches after, (interpretation seed growthAxis).tree sequence = .ok tree ∧
      tree.patches.run ((interpretation seed growthAxis).generator fresh) =
        some (patches, after) ∧
      mesh.names = (patches.flatMap Patch.written).eraseDups ∧
      (PairsMaterials mesh ↔ mesh.names.head? ≠ some leafGroup) := by
  obtain ⟨tree, written, after, read, emitted, rfl⟩ := Interpretation.exists_emit_of_mesh grown
  rw [PartTree.emit_of_depthFirst (Interpretation.depthFirst_of_tree read)] at emitted
  obtain ⟨patches, later, drawn, placed⟩ := Draw.bind_eq_some_iff.mp emitted
  obtain ⟨rfl, rfl⟩ := Draw.pure_eq_some_iff.mp placed
  have names : (patches.foldl Mesh.place .empty).names =
      ([] ++ patches.flatMap Patch.written).eraseDups :=
    Mesh.names_placeAll rfl patches
  rw [List.nil_append] at names
  exact ⟨tree, patches, later, read, drawn, names,
    pairsMaterials_iff names (mem_plantGroups_of_written drawn) rfl⟩

/-- A trunk without segments along it writes nothing, but the one behind it comes in front of
the leaves. -/
theorem pairsMaterials_iff_of_mesh_trunk :
    ∃ mesh, (interpretation none .unitY).mesh default
        "D(1,1,1,3,0,0,0)D(1,1,1,3,2,0,0)L(2,2,1,1,1,1,0,0,0,0)".toList = some (.ok mesh) ∧
      mesh.names = [barkGroup, leafGroup] ∧ PairsMaterials mesh := by
  have ordered : ((interpretation none .unitY).mesh default
        "D(1,1,1,3,0,0,0)D(1,1,1,3,2,0,0)L(2,2,1,1,1,1,0,0,0,0)".toList).map
          (Except.map Mesh.names) = some (.ok [barkGroup, leafGroup]) := by
    decide +kernel
  obtain ⟨result, grown, outcome⟩ := Option.map_eq_some_iff.mp ordered
  obtain ⟨mesh, rfl, names⟩ := map_eq_ok_iff.mp outcome
  obtain ⟨_, _, _, _, _, _, pairs⟩ := pairsMaterials_iff_of_mesh grown
  refine ⟨mesh, grown, names, pairs.mpr ?_⟩
  rw [names]
  decide

/-- Leaves in front of a trunk get the material of bark, and the trunk that of foliage. -/
theorem not_pairsMaterials_leaves_first :
    ∃ mesh, (interpretation none .unitY).mesh default
        "L(2,2,1,1,1,1,0,0,0,0)D(1,1,1,3,2,0,0)".toList = some (.ok mesh) ∧
      mesh.submeshes.map (fun entry => (entry.1.name, entry.2)) =
        [(leafGroup, some woodMaterial), (barkGroup, some leafMaterial)] ∧
      ¬PairsMaterials mesh := by
  have exchanged : ((interpretation none .unitY).mesh default
        "L(2,2,1,1,1,1,0,0,0,0)D(1,1,1,3,2,0,0)".toList).map (Except.map fun mesh =>
          mesh.submeshes.map fun entry => (entry.1.name, entry.2)) =
      some (.ok [(leafGroup, some woodMaterial), (barkGroup, some leafMaterial)]) := by
    decide +kernel
  obtain ⟨result, grown, outcome⟩ := Option.map_eq_some_iff.mp exchanged
  obtain ⟨mesh, rfl, pairs⟩ := map_eq_ok_iff.mp outcome
  refine ⟨mesh, grown, pairs, ?_⟩
  rw [pairsMaterials_iff_map, pairs]
  decide

end StockTree

end Arbor
