import Arbor.Proofs.GroupCorners
import Arbor.Proofs.Materials
import Arbor.Proofs.PassSteps

/-!
# Logs of vertices and triangles

A mesh grows by one vertex or one triangle at a time, and the triangles of different groups may come
in any order. The log of all that was written determines the mesh: the vertices stand in the order
of the log, and the triangles are sorted into groups, which stand in the order of their first
triangles. Nothing is lost, doubled or moved on the way, and no group comes into being twice.

The indices of all groups can be laid out in one row. The parts of this row that belong to the
groups lie one next to the other and cover it.
-/
namespace Arbor

/-! ## Logs -/

/-- What is written to a mesh in one step. -/
inductive MeshEntry where
  | addVertex (vertex : Vertex)
  | addTriangle (group : Text) (corners : Triangle UInt32)

namespace MeshEntry

/-- The vertex of an entry. -/
def vertex? : MeshEntry → Option Vertex
  | .addVertex vertex => some vertex
  | .addTriangle _ _ => none

/-- The triangle of an entry with the name of its group. -/
def triangle? : MeshEntry → Option (Text × Triangle UInt32)
  | .addVertex _ => none
  | .addTriangle group corners => some (group, corners)

/-- The vertices of a log. -/
def verticesIn (log : List MeshEntry) : List Vertex :=
  log.filterMap vertex?

/-- The triangles of a log with the names of their groups. -/
def trianglesIn (log : List MeshEntry) : List (Text × Triangle UInt32) :=
  log.filterMap triangle?

/-- The groups that a log writes, once for each triangle. -/
def written (log : List MeshEntry) : List Text :=
  (trianglesIn log).map Prod.fst

/-- The triangles of a log in one group. -/
def trianglesOf (log : List MeshEntry) (name : Text) : List (Triangle UInt32) :=
  ((trianglesIn log).filter fun entry => entry.1 = name).map Prod.snd

variable {log : List MeshEntry}

/-- A vertex is no triangle. -/
@[simp] theorem trianglesIn_concat_vertex (log : List MeshEntry) (vertex : Vertex) :
    trianglesIn (log ++ [.addVertex vertex]) = trianglesIn log := by
  simp [trianglesIn, triangle?]

/-- A triangle comes last. -/
@[simp] theorem trianglesIn_concat_triangle (log : List MeshEntry) (group : Text)
    (corners : Triangle UInt32) :
    trianglesIn (log ++ [.addTriangle group corners]) = trianglesIn log ++ [(group, corners)] := by
  simp [trianglesIn, triangle?]

/-- A vertex comes last. -/
@[simp] theorem verticesIn_concat_vertex (log : List MeshEntry) (vertex : Vertex) :
    verticesIn (log ++ [.addVertex vertex]) = verticesIn log ++ [vertex] := by
  simp [verticesIn, vertex?]

/-- A triangle is no vertex. -/
@[simp] theorem verticesIn_concat_triangle (log : List MeshEntry) (group : Text)
    (corners : Triangle UInt32) :
    verticesIn (log ++ [.addTriangle group corners]) = verticesIn log := by
  simp [verticesIn, vertex?]

/-- A triangle comes behind those of its group. -/
theorem trianglesOf_concat_self (log : List MeshEntry) (group : Text)
    (corners : Triangle UInt32) :
    trianglesOf (log ++ [.addTriangle group corners]) group = trianglesOf log group ++ [corners] := by
  simp [trianglesOf]

/-- A triangle is none of another group. -/
theorem trianglesOf_concat_of_ne {name group : Text} (other : name ≠ group)
    (corners : Triangle UInt32) :
    trianglesOf (log ++ [.addTriangle group corners]) name = trianglesOf log name := by
  simp [trianglesOf, other.symm]

/-- A group that was not written has no triangles. -/
theorem trianglesOf_of_not_mem {name : Text} (absent : name ∉ written log) :
    trianglesOf log name = [] := by
  rw [trianglesOf, List.map_eq_nil_iff, List.filter_eq_nil_iff]
  intro entry among same
  exact absent (of_decide_eq_true same ▸ List.mem_map_of_mem among)

end MeshEntry

namespace Mesh

open MeshEntry hiding addVertex addTriangle
open Triangle

/-! ## Writing a log -/

/-- Writes one entry. -/
def write (mesh : Mesh) : MeshEntry → Mesh
  | .addVertex vertex => mesh.addVertex vertex
  | .addTriangle group corners => mesh.addTriangle group corners

/-- Writes the entries of a log one after the other. -/
def writeAll (mesh : Mesh) (log : List MeshEntry) : Mesh :=
  log.foldl write mesh

/-- A mesh is a log sorted into rows: vertices and texture coordinates, and the triangles by their
groups. -/
structure Sorts (log : List MeshEntry) (mesh : Mesh) : Prop where
  vertices : mesh.vertices.toList = (verticesIn log).map Vertex.position
  uvs : mesh.uvs.toList = (verticesIn log).map Vertex.uv
  /-- The groups stand in the order of their first triangles. -/
  names : mesh.names = (written log).eraseDups
  distinct : mesh.names.Nodup
  /-- The corners of a group are those of its own triangles. -/
  indices : ∀ group ∈ mesh.groups,
    group.indices.toList = cornersOfAll (trianglesOf log group.name)
  count : mesh.triangleCount = (trianglesIn log).length

namespace Sorts

variable {log : List MeshEntry} {mesh : Mesh}

/-- Nothing is sorted into nothing. -/
theorem empty : Sorts [] Mesh.empty where
  vertices := rfl
  uvs := rfl
  names := rfl
  distinct := List.nodup_nil
  indices := by simp [Mesh.empty]
  count := rfl

/-- A vertex comes behind the others. -/
theorem addVertex (sorts : Sorts log mesh) (vertex : Vertex) :
    Sorts (log ++ [.addVertex vertex]) (mesh.addVertex vertex) where
  vertices := by simp [Mesh.addVertex, sorts.vertices]
  uvs := by simp [Mesh.addVertex, sorts.uvs]
  names := by
    rw [written, trianglesIn_concat_vertex]
    exact sorts.names
  distinct := sorts.distinct
  indices group among := by
    rw [trianglesOf, trianglesIn_concat_vertex]
    exact sorts.indices group among
  count := by
    rw [trianglesIn_concat_vertex, triangleCount_addVertex]
    exact sorts.count

/-- Behind a triangle, the corners of a group are still those of its own triangles. The names are
needed to be different, as only the first group with the name is written. -/
theorem indices_addTriangle (sorts : Sorts log mesh) (name : Text) (corners : Triangle UInt32) :
    ∀ group ∈ (mesh.addTriangle name corners).groups, group.indices.toList =
      cornersOfAll (trianglesOf (log ++ [.addTriangle name corners]) group.name) := by
  have unwritten {group : TriangleGroup} (among : group ∈ mesh.groups)
      (other : group.name ≠ name) : group.indices.toList =
        cornersOfAll (trianglesOf (log ++ [.addTriangle name corners]) group.name) := by
    rw [trianglesOf_concat_of_ne other]
    exact sorts.indices group among
  have distinct : (mesh.groups.map TriangleGroup.name).Nodup := sorts.distinct
  have known (absent : ∀ other ∈ mesh.groups, other.name ≠ name) : name ∉ written log := by
    rw [← List.mem_eraseDups, ← sorts.names]
    intro among
    obtain ⟨other, listed, same⟩ := List.mem_map.mp among
    exact absent other listed same
  have old := sorts.indices
  rw [addTriangle, addToGroup_eq]
  have step := extends_extendGroup name corners.corners.toArray mesh.groups
  generalize extendGroup name corners.corners.toArray mesh.groups = groups at step
  generalize mesh.groups = before at step unwritten distinct known old
  intro group among
  cases step with
  | @longer before after first other named =>
    subst named
    rw [List.map_append, List.map_cons, List.nodup_middle, List.nodup_cons] at distinct
    simp only [List.mem_append, List.mem_cons] at among
    rcases among with ahead | rfl | behind
    · exact unwritten (by simp [ahead]) (other group ahead)
    · have own := old first (by simp)
      rw [trianglesOf_concat_self, cornersOfAll, List.flatMap_append, ← cornersOfAll, ← own]
      simp
    · refine unwritten (by simp [behind]) fun same => distinct.1 ?_
      rw [← same]
      simp [List.mem_map_of_mem behind]
  | fresh none =>
    rcases List.mem_append.mp among with there | last
    · exact unwritten there (none group there)
    · obtain rfl := List.mem_singleton.mp last
      rw [trianglesOf_concat_self, trianglesOf_of_not_mem (known none)]
      simp [cornersOfAll]

/-- A triangle is sorted into its group. -/
theorem addTriangle (sorts : Sorts log mesh) (name : Text) (corners : Triangle UInt32) :
    Sorts (log ++ [.addTriangle name corners]) (mesh.addTriangle name corners) where
  vertices := by
    rw [verticesIn_concat_triangle]
    exact sorts.vertices
  uvs := by
    rw [verticesIn_concat_triangle]
    exact sorts.uvs
  names := by
    rw [written, trianglesIn_concat_triangle, List.map_append]
    exact names_addTriangle sorts.names name corners
  distinct := nodup_map_name_addToGroup sorts.distinct name corners
  indices := sorts.indices_addTriangle name corners
  count := by simp [sorts.count]

/-- An entry is sorted into its row. -/
theorem write (sorts : Sorts log mesh) (entry : MeshEntry) :
    Sorts (log ++ [entry]) (mesh.write entry) := by
  cases entry with
  | addVertex vertex => exact sorts.addVertex vertex
  | addTriangle group corners => exact sorts.addTriangle group corners

/-- Entries are sorted into their rows. -/
theorem writeAll (sorts : Sorts log mesh) (more : List MeshEntry) :
    Sorts (log ++ more) (mesh.writeAll more) := by
  induction more generalizing log mesh with
  | nil =>
    rw [List.append_nil]
    exact sorts
  | cons entry more ih =>
    rw [List.append_cons]
    exact ih (sorts.write entry)

/-- A group is found if and only if it was written, with the corners of its own triangles. -/
theorem group? (sorts : Sorts log mesh) (name : Text) :
    (mesh.group? name).map (fun group => group.indices.toList) =
      if name ∈ written log then some (cornersOfAll (trianglesOf log name)) else none := by
  have known : name ∈ written log ↔ ∃ group ∈ mesh.groups, group.name = name := by
    rw [← List.mem_map, ← List.mem_eraseDups, ← sorts.names]
    rfl
  cases found : mesh.group? name with
  | none =>
    have absent : ¬ ∃ group ∈ mesh.groups, group.name = name := by
      simpa [Mesh.group?] using found
    rw [if_neg (known.not.mpr absent), Option.map_none]
  | some group =>
    have among : group ∈ mesh.groups := List.mem_of_find?_eq_some found
    have named : group.name = name := by simpa using List.find?_some found
    rw [if_pos (known.mpr ⟨group, among, named⟩), Option.map_some, sorts.indices group among,
      named]

end Sorts

/-! ## One row of indices -/

/-- Appends the indices of a group to a row and notes where they lie. -/
def layGroup (laid : Array UInt32 × Array Span) (group : TriangleGroup) :
    Array UInt32 × Array Span :=
  let row := laid.1 ++ group.indices
  (row, laid.2.push ⟨laid.1.size, row.size⟩)

/-- Lays the indices of all groups out in one row. -/
def layOut (mesh : Mesh) : Array UInt32 × Array Span :=
  mesh.groups.foldl layGroup (#[], #[])

/-- Groups are laid out behind what lies there. -/
theorem foldl_layGroup (groups : List TriangleGroup) (row : Array UInt32) (ranges : Array Span) :
    groups.foldl layGroup (row, ranges) =
      (row ++ (groups.flatMap fun group => group.indices.toList).toArray,
        ranges ++ (rangesFrom row.size groups).toArray) := by
  induction groups generalizing row ranges with
  | nil => simp [rangesFrom]
  | cons group groups ih =>
    rw [List.foldl_cons, layGroup, ih, Array.size_append, List.flatMap_cons, rangesFrom,
      Array.append_assoc, ← List.append_toArray, Array.toArray_toList]
    simp

/-- The row of all indices and its parts come about by laying out the groups one after the
other. -/
theorem layOut_eq (mesh : Mesh) :
    mesh.layOut = (mesh.flatIndices.toArray, mesh.groupRanges.toArray) := by
  rw [layOut, foldl_layGroup]
  simp [flatIndices, groupRanges]

/-- The parts of groups lie one next to the other. -/
theorem tile_rangesFrom (offset : Nat) (groups : List TriangleGroup) :
    Span.Tile offset (rangesFrom offset groups)
      (offset + (groups.flatMap fun group => group.indices.toList).length) := by
  induction groups generalizing offset with
  | nil => rfl
  | cons group groups ih =>
    rw [rangesFrom, List.flatMap_cons, List.length_append, Array.length_toList, ← Nat.add_assoc]
    exact ⟨rfl, Nat.le_add_right _ _, ih _⟩

/-- The part of a group holds its indices. -/
theorem extract_rangesFrom (before : List UInt32) (groups : List TriangleGroup) (place : Nat) :
    (rangesFrom before.length groups)[place]?.map (fun range =>
        (before ++ groups.flatMap fun group => group.indices.toList).extract
          range.start range.stop) =
      groups[place]?.map fun group => group.indices.toList := by
  induction groups generalizing before place with
  | nil => rfl
  | cons group groups ih =>
    cases place with
    | zero =>
      simp only [rangesFrom, List.getElem?_cons_zero, Option.map_some, List.extract,
        List.flatMap_cons, List.drop_left, Nat.add_sub_cancel_left]
      rw [← Array.length_toList, List.take_left]
    | succ place =>
      have behind := ih (before ++ group.indices.toList) place
      rw [List.length_append, Array.length_toList, List.append_assoc] at behind
      exact behind

/-- A mesh that is written from nothing is the log sorted into groups: the vertices with their
texture coordinates stand in the order of the log, there is one group for each name in the order of
first use, with the corners of its own triangles in the order of the log, and each triangle is
counted once. Laid out in one row, the indices fall into parts that begin at zero, lie one next to
the other, end at the length of the row, and hold the indices of one group each. -/
theorem sorts_writeAll (log : List MeshEntry) :
    let mesh := Mesh.empty.writeAll log
    Sorts log mesh ∧
      (∀ name, (mesh.group? name).map (fun group => group.indices.toList) =
        if name ∈ written log then some (cornersOfAll (trianglesOf log name)) else none) ∧
      mesh.layOut = (mesh.flatIndices.toArray, mesh.groupRanges.toArray) ∧
      Span.Tile 0 mesh.groupRanges mesh.flatIndices.length ∧
      ∀ place : Nat, mesh.groupRanges[place]?.map
          (fun range => mesh.flatIndices.extract range.start range.stop) =
        mesh.groups[place]?.map fun group => group.indices.toList := by
  intro mesh
  have sorts : Sorts log mesh := Sorts.empty.writeAll log
  have tile : Span.Tile 0 mesh.groupRanges (0 + mesh.flatIndices.length) :=
    tile_rangesFrom 0 mesh.groups
  rw [Nat.zero_add] at tile
  exact ⟨sorts, sorts.group?, layOut_eq mesh, tile, extract_rangesFrom [] mesh.groups⟩

-- Two triangles of one group lie together, though one of another group came between them.
example :
    let mesh := Mesh.empty.writeAll [.addTriangle "trunk".toList ⟨0, 1, 2⟩,
      .addTriangle "leaf".toList ⟨3, 4, 5⟩, .addTriangle "trunk".toList ⟨6, 7, 8⟩]
    mesh.flatIndices = [0, 1, 2, 6, 7, 8, 3, 4, 5] ∧ mesh.groupRanges = [⟨0, 6⟩, ⟨6, 9⟩] := by
  decide

end Mesh

end Arbor
