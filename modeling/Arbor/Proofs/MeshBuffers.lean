import Mathlib.Algebra.GroupWithZero.Nat
import Mathlib.Data.List.Nodup
import Arbor.Mesh.Basic

/-!
# Buffers of meshes

A mesh is well formed if each vertex has its texture coordinates and if its groups have
different names out of a vocabulary, each with at least one triangle, no part of a triangle
and only corners that are there. A patch is well formed if its corners are its own and its
group is in the vocabulary. Placing well-formed patches one after the other gives a
well-formed mesh for as long as the vertices can be counted by the words of the indices.
-/
namespace Arbor

/-! ## Adding to a group -/

namespace TriangleGroup

/-- Appends the corners of a triangle. -/
def push (group : TriangleGroup) (triangle : Triangle UInt32) : TriangleGroup :=
  { group with
    indices := ((group.indices.push triangle.a).push triangle.b).push triangle.c }

/-- A group of one triangle. -/
def single (name : Text) (triangle : Triangle UInt32) : TriangleGroup :=
  ⟨name, #[triangle.a, triangle.b, triangle.c]⟩

/-- A group has a name of a vocabulary, at least one triangle, no part of a triangle, and
only corners in front of `bound`. -/
structure WellFormed (group : TriangleGroup) (names : List Text) (bound : Nat) : Prop where
  named : group.name ∈ names
  inhabited : 0 < group.indices.size
  whole : 3 ∣ group.indices.size
  within : ∀ index ∈ group.indices, index.toNat < bound

end TriangleGroup

/-- All corners of a triangle are in front of `bound`. -/
def Triangle.Within (triangle : Triangle Nat) (bound : Nat) : Prop :=
  triangle.a < bound ∧ triangle.b < bound ∧ triangle.c < bound

/-- The corners of a triangle behind `base` vertices as indices. -/
def Triangle.moved (base : Nat) (triangle : Triangle Nat) : Triangle UInt32 :=
  ⟨(base + triangle.a).toUInt32, (base + triangle.b).toUInt32, (base + triangle.c).toUInt32⟩

namespace TriangleGroup

variable {names : List Text} {bound : Nat} {group : TriangleGroup}

/-- Indices stay valid when vertices are added. -/
theorem WellFormed.mono (held : group.WellFormed names bound) {larger : Nat}
    (grown : bound ≤ larger) : group.WellFormed names larger where
  named := held.named
  inhabited := held.inhabited
  whole := held.whole
  within index among := Nat.lt_of_lt_of_le (held.within index among) grown

/-- A group takes a triangle whose corners are there. -/
theorem WellFormed.push (held : group.WellFormed names bound) {triangle : Triangle UInt32}
    (a : triangle.a.toNat < bound) (b : triangle.b.toNat < bound)
    (c : triangle.c.toNat < bound) : (group.push triangle).WellFormed names bound where
  named := held.named
  inhabited := by simp [TriangleGroup.push]
  whole := by
    obtain ⟨count, size⟩ := held.whole
    refine ⟨count + 1, ?_⟩
    simp only [TriangleGroup.push, Array.size_push, size]
    omega
  within index among := by
    simp only [TriangleGroup.push, Array.mem_push] at among
    rcases among with ((old | rfl) | rfl) | rfl
    · exact held.within index old
    · exact a
    · exact b
    · exact c

/-- A group begins with a triangle whose corners are there. -/
theorem WellFormed.single {name : Text} (named : name ∈ names) {triangle : Triangle UInt32}
    (a : triangle.a.toNat < bound) (b : triangle.b.toNat < bound)
    (c : triangle.c.toNat < bound) :
    (TriangleGroup.single name triangle).WellFormed names bound where
  named := named
  inhabited := Nat.zero_lt_succ 2
  whole := ⟨1, rfl⟩
  within index among := by
    simp only [TriangleGroup.single, List.mem_toArray, List.mem_cons, List.not_mem_nil,
      or_false] at among
    rcases among with rfl | rfl | rfl
    · exact a
    · exact b
    · exact c

end TriangleGroup

/-- A patch has its triangles in a group of a vocabulary and over its own vertices. -/
structure Patch.WellFormed (patch : Patch) (names : List Text) : Prop where
  named : patch.triangles ≠ [] → patch.group ∈ names
  within : ∀ triangle ∈ patch.triangles, triangle.Within patch.vertices.length

namespace Mesh

/-- A group behind adding a triangle was there before, or took the triangle, or is new. -/
theorem mem_addToGroup {name : Text} {triangle : Triangle UInt32} {groups : List TriangleGroup}
    {group : TriangleGroup} (among : group ∈ addToGroup name triangle groups) :
    group ∈ groups ∨ (∃ old ∈ groups, group = old.push triangle) ∨
      group = .single name triangle := by
  induction groups with
  | nil =>
    exact .inr (.inr (List.mem_singleton.mp among))
  | cons first groups ih =>
    rw [addToGroup] at among
    split at among
    · rcases List.mem_cons.mp among with rfl | later
      · exact .inr (.inl ⟨first, List.mem_cons_self, rfl⟩)
      · exact .inl (List.mem_cons_of_mem first later)
    · rcases List.mem_cons.mp among with rfl | later
      · exact .inl List.mem_cons_self
      · rcases ih later with old | ⟨old, listed, grown⟩ | fresh
        · exact .inl (List.mem_cons_of_mem first old)
        · exact .inr (.inl ⟨old, List.mem_cons_of_mem first listed, grown⟩)
        · exact .inr (.inr fresh)

/-- A triangle brings its name behind the others, if it is not there yet. -/
theorem map_name_addToGroup (name : Text) (triangle : Triangle UInt32)
    (groups : List TriangleGroup) :
    (addToGroup name triangle groups).map TriangleGroup.name =
      groups.map TriangleGroup.name ++
        if name ∈ groups.map TriangleGroup.name then [] else [name] := by
  induction groups with
  | nil => rfl
  | cons group groups ih =>
    rw [addToGroup]
    by_cases same : group.name = name
    · simp [same]
    · have other : ¬name = group.name := fun equal => same equal.symm
      simp [same, other, ih]

/-- Different names stay different. -/
theorem nodup_map_name_addToGroup {groups : List TriangleGroup}
    (distinct : (groups.map TriangleGroup.name).Nodup) (name : Text)
    (triangle : Triangle UInt32) :
    ((addToGroup name triangle groups).map TriangleGroup.name).Nodup := by
  rw [map_name_addToGroup]
  by_cases present : name ∈ groups.map TriangleGroup.name
  · rw [if_pos present, List.append_nil]
    exact distinct
  · rw [if_neg present]
    refine List.nodup_append.mpr ⟨distinct, List.nodup_singleton name, ?_⟩
    rintro other among last found rfl
    obtain rfl : other = name := List.mem_singleton.mp found
    exact present among

/-- A triangle is counted once, whichever group takes it. -/
@[simp] theorem triangleCount_addTriangle (mesh : Mesh) (name : Text)
    (triangle : Triangle UInt32) :
    (mesh.addTriangle name triangle).triangleCount = mesh.triangleCount + 1 := by
  simp only [addTriangle, triangleCount]
  induction mesh.groups with
  | nil => simp [addToGroup]
  | cons group groups ih =>
    rw [addToGroup]
    split
    · simp only [List.foldr_cons, Array.size_push]
      omega
    · simp only [List.foldr_cons, ih]
      omega

@[simp] theorem vertices_addTriangle (mesh : Mesh) (name : Text) (triangle : Triangle UInt32) :
    (mesh.addTriangle name triangle).vertices = mesh.vertices := rfl

@[simp] theorem triangleCount_addVertex (mesh : Mesh) (vertex : Vertex) :
    (mesh.addVertex vertex).triangleCount = mesh.triangleCount := rfl

@[simp] theorem size_vertices_addVertex (mesh : Mesh) (vertex : Vertex) :
    (mesh.addVertex vertex).vertices.size = mesh.vertices.size + 1 := by
  simp [addVertex]

/-! ## Adding vertices and triangles -/

/-- Appends vertices. -/
def addVertices (mesh : Mesh) (vertices : List Vertex) : Mesh :=
  vertices.foldl addVertex mesh

/-- Appends triangles to a group. -/
def addTriangles (mesh : Mesh) (name : Text) (triangles : List (Triangle UInt32)) : Mesh :=
  triangles.foldl (fun mesh triangle => mesh.addTriangle name triangle) mesh

/-- Vertices are counted. -/
@[simp] theorem size_vertices_addVertices (mesh : Mesh) (vertices : List Vertex) :
    (mesh.addVertices vertices).vertices.size = mesh.vertices.size + vertices.length := by
  rw [addVertices]
  induction vertices generalizing mesh with
  | nil => rfl
  | cons vertex vertices ih =>
    rw [List.foldl_cons, ih, size_vertices_addVertex, List.length_cons]
    omega

/-- Vertices bring no triangles. -/
@[simp] theorem triangleCount_addVertices (mesh : Mesh) (vertices : List Vertex) :
    (mesh.addVertices vertices).triangleCount = mesh.triangleCount := by
  rw [addVertices]
  induction vertices generalizing mesh with
  | nil => rfl
  | cons vertex vertices ih => rw [List.foldl_cons, ih, triangleCount_addVertex]

/-- Triangles bring no vertices. -/
@[simp] theorem vertices_addTriangles (mesh : Mesh) (name : Text)
    (triangles : List (Triangle UInt32)) :
    (mesh.addTriangles name triangles).vertices = mesh.vertices := by
  rw [addTriangles]
  induction triangles generalizing mesh with
  | nil => rfl
  | cons triangle triangles ih => rw [List.foldl_cons, ih, vertices_addTriangle]

/-- Triangles are counted. -/
@[simp] theorem triangleCount_addTriangles (mesh : Mesh) (name : Text)
    (triangles : List (Triangle UInt32)) :
    (mesh.addTriangles name triangles).triangleCount =
      mesh.triangleCount + triangles.length := by
  rw [addTriangles]
  induction triangles generalizing mesh with
  | nil => rfl
  | cons triangle triangles ih =>
    rw [List.foldl_cons, ih, triangleCount_addTriangle, List.length_cons]
    omega

/-- A triangle may be added before or behind vertices. -/
theorem addVertices_addTriangle (mesh : Mesh) (name : Text) (triangle : Triangle UInt32)
    (vertices : List Vertex) :
    (mesh.addTriangle name triangle).addVertices vertices =
      (mesh.addVertices vertices).addTriangle name triangle := by
  induction vertices generalizing mesh with
  | nil => rfl
  | cons vertex vertices ih => exact ih (mesh.addVertex vertex)

/-- Triangles may be added before or behind vertices. -/
theorem addVertices_addTriangles (mesh : Mesh) (name : Text)
    (triangles : List (Triangle UInt32)) (vertices : List Vertex) :
    (mesh.addTriangles name triangles).addVertices vertices =
      (mesh.addVertices vertices).addTriangles name triangles := by
  induction triangles generalizing mesh with
  | nil => rfl
  | cons triangle triangles ih =>
    calc (mesh.addTriangles name (triangle :: triangles)).addVertices vertices
        = ((mesh.addTriangle name triangle).addVertices vertices).addTriangles name triangles :=
          ih (mesh.addTriangle name triangle)
      _ = (mesh.addVertices vertices).addTriangles name (triangle :: triangles) := by
          rw [addVertices_addTriangle]
          rfl

/-! ## Placing patches -/

/-- A patch is placed by its vertices and then by its triangles behind the vertices that were
there. -/
theorem place_eq (mesh : Mesh) (patch : Patch) :
    mesh.place patch = (mesh.addVertices patch.vertices).addTriangles patch.group
      (patch.triangles.map (Triangle.moved mesh.vertices.size)) := by
  have index (corner : Nat) : mesh.nextIndex + corner.toUInt32 =
      (mesh.vertices.size + corner).toUInt32 := (UInt32.ofNat_add _ _).symm
  simp only [place, index, addTriangles, List.foldl_map]
  rfl

/-- The vertices of a patch are counted. -/
@[simp] theorem size_vertices_place (mesh : Mesh) (patch : Patch) :
    (mesh.place patch).vertices.size = mesh.vertices.size + patch.vertices.length := by
  rw [place_eq, vertices_addTriangles, size_vertices_addVertices]

/-- The triangles of a patch are counted. -/
@[simp] theorem triangleCount_place (mesh : Mesh) (patch : Patch) :
    (mesh.place patch).triangleCount = mesh.triangleCount + patch.triangles.length := by
  rw [place_eq, triangleCount_addTriangles, triangleCount_addVertices, List.length_map]

/-- What patches bring is counted together. -/
theorem tally_placeAll (mesh : Mesh) (patches : List Patch) :
    (patches.foldl place mesh).vertices.size =
        mesh.vertices.size + (patches.map fun patch => patch.vertices.length).sum ∧
      (patches.foldl place mesh).triangleCount =
        mesh.triangleCount + (patches.map fun patch => patch.triangles.length).sum := by
  induction patches generalizing mesh with
  | nil => exact ⟨rfl, rfl⟩
  | cons patch patches ih =>
    obtain ⟨vertices, triangles⟩ := ih (mesh.place patch)
    rw [List.foldl_cons, vertices, triangles, size_vertices_place, triangleCount_place]
    simp only [List.map_cons, List.sum_cons, Nat.add_assoc, and_self]

/-- There is room for a patch if there is room for it and those behind it. -/
theorem room_of_placeAll {mesh : Mesh} {patch : Patch} {patches : List Patch} {bound : Nat}
    (fits : (patches.foldl place (mesh.place patch)).vertices.size ≤ bound) :
    mesh.vertices.size + patch.vertices.length ≤ bound := by
  rw [(tally_placeAll _ patches).1, size_vertices_place] at fits
  exact Nat.le_trans (Nat.le_add_right _ _) fits

/-- A mesh has as many texture coordinates as vertices, and well-formed groups with
different names. -/
structure WellFormed (mesh : Mesh) (names : List Text) : Prop where
  uvs : mesh.uvs.size = mesh.vertices.size
  distinct : (mesh.groups.map TriangleGroup.name).Nodup
  groups : ∀ group ∈ mesh.groups, group.WellFormed names mesh.vertices.size

/-- An index is in front of `bound`, if the corner is and if `bound` is not above what the
words count. -/
theorem toNat_index_lt {bound base corner : Nat} (fits : bound ≤ UInt32.size)
    (within : base + corner < bound) : (base + corner).toUInt32.toNat < bound := by
  have word : base + corner < UInt32.size := Nat.lt_of_lt_of_le within fits
  have same : (base + corner).toUInt32.toNat = base + corner := UInt32.toNat_ofNat_of_lt' word
  rw [same]
  exact within

namespace WellFormed

variable {mesh : Mesh} {names : List Text}

/-- There is nothing wrong with nothing. -/
theorem empty (names : List Text) : (Mesh.empty).WellFormed names where
  uvs := rfl
  distinct := List.nodup_nil
  groups := by simp [Mesh.empty]

/-- A vertex may always be added. -/
theorem addVertex (held : mesh.WellFormed names) (vertex : Vertex) :
    (mesh.addVertex vertex).WellFormed names where
  uvs := by simp [Mesh.addVertex, held.uvs]
  distinct := held.distinct
  groups group among := by
    rw [size_vertices_addVertex]
    exact (held.groups group among).mono (Nat.le_succ _)

/-- A triangle may be added if its corners are there. -/
theorem addTriangle (held : mesh.WellFormed names) {name : Text} (named : name ∈ names)
    {triangle : Triangle UInt32} (a : triangle.a.toNat < mesh.vertices.size)
    (b : triangle.b.toNat < mesh.vertices.size) (c : triangle.c.toNat < mesh.vertices.size) :
    (mesh.addTriangle name triangle).WellFormed names where
  uvs := held.uvs
  distinct := nodup_map_name_addToGroup held.distinct name triangle
  groups group among := by
    rcases mem_addToGroup among with old | ⟨old, listed, rfl⟩ | rfl
    · exact held.groups group old
    · exact (held.groups old listed).push a b c
    · exact .single named a b c

/-- Vertices may always be added. -/
theorem addVertices (held : mesh.WellFormed names) (vertices : List Vertex) :
    (mesh.addVertices vertices).WellFormed names := by
  induction vertices generalizing mesh with
  | nil => exact held
  | cons vertex vertices ih => exact ih (held.addVertex vertex)

/-- Triangles may be added if their corners are there. -/
theorem addTriangles (held : mesh.WellFormed names) {name : Text}
    {triangles : List (Triangle UInt32)} (named : triangles ≠ [] → name ∈ names)
    (within : ∀ triangle ∈ triangles, triangle.a.toNat < mesh.vertices.size ∧
      triangle.b.toNat < mesh.vertices.size ∧ triangle.c.toNat < mesh.vertices.size) :
    (mesh.addTriangles name triangles).WellFormed names := by
  induction triangles generalizing mesh with
  | nil => exact held
  | cons triangle triangles ih =>
    obtain ⟨⟨a, b, c⟩, later⟩ := List.forall_mem_cons.mp within
    have listed := named (List.cons_ne_nil _ _)
    exact ih (held.addTriangle listed a b c) (fun _ => listed) later

/-- A patch may be placed if the vertices can still be counted. -/
theorem place (held : mesh.WellFormed names) {patch : Patch} (proper : patch.WellFormed names)
    (fits : mesh.vertices.size + patch.vertices.length ≤ UInt32.size) :
    (mesh.place patch).WellFormed names := by
  have size := size_vertices_addVertices mesh patch.vertices
  rw [place_eq]
  refine (held.addVertices patch.vertices).addTriangles ?_ ?_
  · intro some
    exact proper.named fun none => some (by rw [none, List.map_nil])
  · intro moved among
    obtain ⟨triangle, listed, rfl⟩ := List.mem_map.mp among
    obtain ⟨a, b, c⟩ := proper.within triangle listed
    have index {corner : Nat} (own : corner < patch.vertices.length) :
        (mesh.vertices.size + corner).toUInt32.toNat <
          (mesh.addVertices patch.vertices).vertices.size := by
      rw [size]
      exact toNat_index_lt fits (Nat.add_lt_add_left own _)
    exact ⟨index a, index b, index c⟩

/-- Patches may be placed one after the other if all vertices can be counted. -/
theorem placeAll (held : mesh.WellFormed names) {patches : List Patch}
    (proper : ∀ patch ∈ patches, patch.WellFormed names)
    (fits : (patches.foldl Mesh.place mesh).vertices.size ≤ UInt32.size) :
    (patches.foldl Mesh.place mesh).WellFormed names := by
  induction patches generalizing mesh with
  | nil => exact held
  | cons patch patches ih =>
    obtain ⟨here, later⟩ := List.forall_mem_cons.mp proper
    exact ih (held.place here (room_of_placeAll fits)) later fits

end WellFormed

end Mesh

end Arbor

