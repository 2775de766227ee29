import Mathlib.Data.List.Nodup
import Arbor.Proofs.GroupCorners
import Arbor.Proofs.WordIndices

/-!
# Trunks as grids

A trunk is written as one grid of triangles over its rings of vertices. The vertices have two
coordinates, the ring and the place in the ring, and the index of a vertex counts the rings below
it and the places before it. In these coordinates each cell of the grid has six directed edges. Two
of them go both ways along the diagonal and the other four go around the cell, so a neighbouring
cell has each of them the other way around. So no directed edge is there twice, and an edge is not
there the other way around only if there is no cell on its other side. No two vertices share an
index, so the same holds of the indices that are written.
-/
namespace Arbor

namespace Triangle

variable {α β : Type}

/-- The edges, each from a corner to the next one. -/
def edges (triangle : Triangle α) : List (α × α) :=
  [(triangle.a, triangle.b), (triangle.b, triangle.c), (triangle.c, triangle.a)]

/-- The edges of triangles. -/
def edgesOfAll (triangles : List (Triangle α)) : List (α × α) :=
  triangles.flatMap edges

/-- The edges of what triangles become are between what the corners become. -/
theorem edgesOfAll_map (change : α → β) (triangles : List (Triangle α)) :
    edgesOfAll (triangles.map (map change)) =
      (edgesOfAll triangles).map (Prod.map change change) := by
  rw [edgesOfAll, edgesOfAll, List.flatMap_map, List.map_flatMap]
  rfl

/-- Both ends of an edge are corners. -/
theorem mem_corners_of_mem_edges {triangles : List (Triangle α)} {edge : α × α}
    (among : edge ∈ edgesOfAll triangles) :
    edge.1 ∈ cornersOfAll triangles ∧ edge.2 ∈ cornersOfAll triangles := by
  obtain ⟨triangle, listed, among⟩ := List.mem_flatMap.mp among
  simp only [edges, List.mem_cons, List.not_mem_nil, or_false] at among
  refine ⟨List.mem_flatMap.mpr ⟨triangle, listed, ?_⟩, List.mem_flatMap.mpr ⟨triangle, listed, ?_⟩⟩
  · rcases among with rfl | rfl | rfl <;> simp [corners]
  · rcases among with rfl | rfl | rfl <;> simp [corners]

end Triangle

namespace Trunk

open Triangle

/-! ## Grids in coordinates -/

/-- The triangles of a cell by the rings of their corners and the places in the rings. -/
def cellPlaces (ring place : Nat) : List (Triangle (Nat × Nat)) :=
  [⟨(ring + 1, place + 1), (ring + 1, place), (ring, place)⟩,
    ⟨(ring, place), (ring, place + 1), (ring + 1, place + 1)⟩]

/-- The triangles of a grid in coordinates. -/
def lattice (columns rings : Nat) : List (Triangle (Nat × Nat)) :=
  (List.range rings).flatMap fun ring =>
    (List.range columns).flatMap (cellPlaces ring)

/-- The number of a vertex, if rings have `stride` vertices. -/
def number (stride : Nat) (place : Nat × Nat) : Nat :=
  place.1 * stride + place.2

/-- An edge lies on the border if both ends are in the lowest ring or in the highest one, or both at
the beginning of rings or at their end. -/
def OnBorder (columns rings : Nat) (edge : (Nat × Nat) × (Nat × Nat)) : Prop :=
  edge.1.1 = 0 ∧ edge.2.1 = 0 ∨ edge.1.1 = rings ∧ edge.2.1 = rings ∨
    edge.1.2 = 0 ∧ edge.2.2 = 0 ∨ edge.1.2 = columns ∧ edge.2.2 = columns

/-- The corners of a cell have the numbers of their coordinates. -/
theorem cell_eq_map (stride ring place : Nat) :
    cell stride ring place = (cellPlaces ring place).map (Triangle.map (number stride)) := by
  simp only [cell, cellPlaces, List.map_cons, List.map_nil, Triangle.map, number, Nat.succ_mul,
    Nat.add_right_comm, ← Nat.add_assoc]

/-- The corners of a grid have the numbers of their coordinates. -/
theorem grid_eq_map (columns rings : Nat) :
    grid columns rings = (lattice columns rings).map (Triangle.map (number (columns + 1))) := by
  simp only [grid, lattice, List.map_flatMap, ← cell_eq_map]

variable {columns rings : Nat}

/-- The edges of a grid, cell by cell. -/
theorem edgesOfAll_lattice (columns rings : Nat) :
    edgesOfAll (lattice columns rings) = (List.range rings).flatMap fun ring =>
      (List.range columns).flatMap fun place => edgesOfAll (cellPlaces ring place) := by
  simp only [edgesOfAll, lattice, List.flatMap_assoc]

/-- The six edges of a cell, two of them along its diagonal. -/
theorem mem_edges_cell_iff {ring place : Nat} {edge : (Nat × Nat) × (Nat × Nat)} :
    edge ∈ edgesOfAll (cellPlaces ring place) ↔
      edge = ((ring + 1, place + 1), (ring + 1, place)) ∨
      edge = ((ring + 1, place), (ring, place)) ∨
      edge = ((ring, place), (ring + 1, place + 1)) ∨
      edge = ((ring, place), (ring, place + 1)) ∨
      edge = ((ring, place + 1), (ring + 1, place + 1)) ∨
      edge = ((ring + 1, place + 1), (ring, place)) := by
  simp only [edgesOfAll, cellPlaces, edges, List.flatMap_cons, List.flatMap_nil, List.append_nil,
    List.cons_append, List.nil_append, List.mem_cons, List.not_mem_nil, or_false]

/-- The edges of a grid are those of its cells. -/
theorem mem_edges_lattice_iff {edge : (Nat × Nat) × (Nat × Nat)} :
    edge ∈ edgesOfAll (lattice columns rings) ↔
      ∃ ring < rings, ∃ place < columns, edge ∈ edgesOfAll (cellPlaces ring place) := by
  simp only [edgesOfAll_lattice, List.mem_flatMap, List.mem_range]

/-- An edge belongs to one cell only. -/
theorem eq_of_mem_edges_cell {ring place ring' place' : Nat} {edge : (Nat × Nat) × (Nat × Nat)}
    (here : edge ∈ edgesOfAll (cellPlaces ring place))
    (there : edge ∈ edgesOfAll (cellPlaces ring' place')) : ring = ring' ∧ place = place' := by
  obtain ⟨⟨r, p⟩, s, q⟩ := edge
  simp only [mem_edges_cell_iff, Prod.mk.injEq] at here there
  omega

/-- No directed edge of a grid belongs to two of its triangles. -/
theorem nodup_edges_lattice (columns rings : Nat) : (edgesOfAll (lattice columns rings)).Nodup := by
  have cell (ring place : Nat) : (edgesOfAll (cellPlaces ring place)).Nodup := by
    simp [edgesOfAll, cellPlaces, edges]
  rw [edgesOfAll_lattice, List.nodup_flatMap]
  refine ⟨fun ring _ => ?_, List.nodup_range.imp fun different edge here there => ?_⟩
  · rw [List.nodup_flatMap]
    exact ⟨fun place _ => cell ring place, List.nodup_range.imp fun different edge here there =>
      different (eq_of_mem_edges_cell here there).2⟩
  · obtain ⟨_, _, here⟩ := List.mem_flatMap.mp here
    obtain ⟨_, _, there⟩ := List.mem_flatMap.mp there
    exact different (eq_of_mem_edges_cell here there).1

/-- An edge that a neighbouring cell has the other way around is not on the border. -/
theorem not_onBorder_of_swap_mem {edge : (Nat × Nat) × (Nat × Nat)}
    (among : edge ∈ edgesOfAll (lattice columns rings))
    (back : edge.swap ∈ edgesOfAll (lattice columns rings)) : ¬OnBorder columns rings edge := by
  obtain ⟨ring, below, place, beside, here⟩ := mem_edges_lattice_iff.mp among
  obtain ⟨ring', below', place', beside', there⟩ := mem_edges_lattice_iff.mp back
  obtain ⟨⟨r, p⟩, s, q⟩ := edge
  simp only [mem_edges_cell_iff, Prod.swap_prod_mk, Prod.mk.injEq] at here there
  simp only [OnBorder]
  omega

/-- An edge that is not on the border is there the other way around. -/
theorem swap_mem_edges_lattice {edge : (Nat × Nat) × (Nat × Nat)}
    (among : edge ∈ edgesOfAll (lattice columns rings)) (inner : ¬OnBorder columns rings edge) :
    edge.swap ∈ edgesOfAll (lattice columns rings) := by
  obtain ⟨ring, below, place, beside, here⟩ := mem_edges_lattice_iff.mp among
  -- The cell that has the edge the other way around lies above, to the left, below or to the right.
  have found (above side : Nat) (up : above < rings) (within : side < columns)
      (cell : edge.swap ∈ edgesOfAll (cellPlaces above side)) :
      edge.swap ∈ edgesOfAll (lattice columns rings) :=
    mem_edges_lattice_iff.mpr ⟨above, up, side, within, cell⟩
  simp only [mem_edges_cell_iff] at here found
  rcases here with rfl | rfl | rfl | rfl | rfl | rfl <;> simp only [OnBorder] at inner
  · exact found (ring + 1) place (by omega) beside (by simp)
  · obtain ⟨left, rfl⟩ := Nat.exists_eq_succ_of_ne_zero (n := place) (by omega)
    exact found ring left below (by omega) (by simp)
  · exact found ring place below beside (by simp)
  · obtain ⟨lower, rfl⟩ := Nat.exists_eq_succ_of_ne_zero (n := ring) (by omega)
    exact found lower place (by omega) beside (by simp)
  · exact found ring (place + 1) below (by omega) (by simp)
  · exact found ring place below beside (by simp)

/-- All vertices of a grid that has cells are corners. -/
theorem mem_corners_lattice_iff (around : columns ≠ 0) (along : rings ≠ 0) {vertex : Nat × Nat} :
    vertex ∈ cornersOfAll (lattice columns rings) ↔ vertex.1 ≤ rings ∧ vertex.2 ≤ columns := by
  have cells : vertex ∈ cornersOfAll (lattice columns rings) ↔
      ∃ ring < rings, ∃ place < columns, vertex ∈ cornersOfAll (cellPlaces ring place) := by
    simp only [cornersOfAll, lattice, List.flatMap_assoc, List.mem_flatMap, List.mem_range]
  rw [cells]
  obtain ⟨r, p⟩ := vertex
  simp only [cornersOfAll, cellPlaces, corners, List.flatMap_cons, List.flatMap_nil,
    List.append_nil, List.cons_append, List.nil_append, List.mem_cons, List.not_mem_nil, or_false,
    Prod.mk.injEq]
  constructor
  · rintro ⟨ring, below, place, beside, here⟩
    omega
  · -- A vertex in the highest ring or at the end of its ring is a corner of the cell before it.
    rintro ⟨up, within⟩
    exact ⟨min r (rings - 1), by omega, min p (columns - 1), by omega, by omega⟩

/-! ## Grids in indices -/

/-- The coordinates of an index, if the first vertex of the grid has the index `base`. -/
def locate (base stride : Nat) (index : UInt32) : Nat × Nat :=
  ((index.toNat - base) / stride, (index.toNat - base) % stride)

/-- The index of a vertex. -/
def indexOf (base stride : Nat) (place : Nat × Nat) : UInt32 :=
  (base + number stride place).toUInt32

variable {base : Nat}

/-- A vertex of a grid has a number in front of the end of the grid. -/
theorem number_lt {vertex : Nat × Nat} (up : vertex.1 ≤ rings) (within : vertex.2 ≤ columns) :
    number (columns + 1) vertex < (columns + 1) * (rings + 1) := by
  have rows := Nat.mul_le_mul_right (columns + 1) up
  rw [number, Nat.mul_comm (columns + 1), Nat.succ_mul]
  omega

/-- An index is not wrapped around if the vertices of the grid can be counted. -/
theorem toNat_indexOf (fits : base + (columns + 1) * (rings + 1) ≤ UInt32.size)
    {vertex : Nat × Nat} (up : vertex.1 ≤ rings) (within : vertex.2 ≤ columns) :
    (indexOf base (columns + 1) vertex).toNat = base + number (columns + 1) vertex := by
  have bound := number_lt up within
  rw [indexOf, Nat.toUInt32, UInt32.toNat_ofNat_of_lt' (by omega)]

/-- The coordinates of a vertex are found by its index. -/
theorem locate_indexOf (fits : base + (columns + 1) * (rings + 1) ≤ UInt32.size)
    {vertex : Nat × Nat} (up : vertex.1 ≤ rings) (within : vertex.2 ≤ columns) :
    locate base (columns + 1) (indexOf base (columns + 1) vertex) = vertex := by
  rw [locate, toNat_indexOf fits up within, Nat.add_sub_cancel_left, number, Nat.mul_comm,
    Nat.mul_add_div (Nat.succ_pos columns), Nat.mul_add_mod, Nat.mod_eq_of_lt (by omega),
    Nat.div_eq_of_lt (by omega), Nat.add_zero]

/-- The triangles of a grid behind `base` vertices are those in coordinates with the indices of the
vertices. -/
theorem map_moved_grid (base columns rings : Nat) :
    (grid columns rings).map (Triangle.moved base) =
      (lattice columns rings).map (Triangle.map (indexOf base (columns + 1))) := by
  rw [grid_eq_map, List.map_map]
  rfl

section Counted

variable (fits : base + (columns + 1) * (rings + 1) ≤ UInt32.size)

include fits

/-- The corners of a grid are all indices from that of its first vertex on. -/
theorem mem_corners_grid_iff (around : columns ≠ 0) (along : rings ≠ 0) {index : UInt32} :
    index ∈ cornersOfAll ((grid columns rings).map (Triangle.moved base)) ↔
      base ≤ index.toNat ∧ index.toNat < base + (columns + 1) * (rings + 1) := by
  rw [map_moved_grid, cornersOfAll_map, List.mem_map]
  constructor
  · rintro ⟨vertex, among, rfl⟩
    obtain ⟨up, within⟩ := (mem_corners_lattice_iff around along).mp among
    have bound := number_lt up within
    rw [toNat_indexOf fits up within]
    omega
  · rintro ⟨behind, before⟩
    have up : (locate base (columns + 1) index).1 ≤ rings :=
      Nat.le_of_lt_add_one (Nat.div_lt_of_lt_mul (by omega))
    have within : (locate base (columns + 1) index).2 ≤ columns :=
      Nat.le_of_lt_add_one (Nat.mod_lt _ (Nat.succ_pos columns))
    refine ⟨_, (mem_corners_lattice_iff around along).mpr ⟨up, within⟩, UInt32.toNat_inj.mp ?_⟩
    rw [toNat_indexOf fits up within, number, locate, Nat.div_add_mod']
    omega

/-- The ends of an edge of a grid are found by their indices. -/
theorem locate_edge (around : columns ≠ 0) (along : rings ≠ 0)
    {edge : (Nat × Nat) × (Nat × Nat)} (among : edge ∈ edgesOfAll (lattice columns rings)) :
    Prod.map (locate base (columns + 1)) (locate base (columns + 1))
      (Prod.map (indexOf base (columns + 1)) (indexOf base (columns + 1)) edge) = edge := by
  obtain ⟨first, second⟩ := mem_corners_of_mem_edges among
  rw [mem_corners_lattice_iff around along] at first second
  exact Prod.ext (locate_indexOf fits first.1 first.2) (locate_indexOf fits second.1 second.2)

/-- No directed edge between indices belongs to two triangles. -/
theorem nodup_edges_grid (around : columns ≠ 0) (along : rings ≠ 0) :
    (edgesOfAll ((grid columns rings).map (Triangle.moved base))).Nodup := by
  rw [map_moved_grid, edgesOfAll_map]
  refine (nodup_edges_lattice columns rings).map_on fun edge here other there same => ?_
  rw [← locate_edge fits around along here, same, locate_edge fits around along there]

/-- An edge between indices is there the other way around exactly if it is not on the border. -/
theorem swap_mem_edges_grid_iff (around : columns ≠ 0) (along : rings ≠ 0) {edge : UInt32 × UInt32}
    (among : edge ∈ edgesOfAll ((grid columns rings).map (Triangle.moved base))) :
    edge.swap ∈ edgesOfAll ((grid columns rings).map (Triangle.moved base)) ↔
      ¬OnBorder columns rings
        (Prod.map (locate base (columns + 1)) (locate base (columns + 1)) edge) := by
  rw [map_moved_grid, edgesOfAll_map] at among ⊢
  obtain ⟨edge, here, rfl⟩ := List.mem_map.mp among
  rw [locate_edge fits around along here, List.mem_map]
  constructor
  · rintro ⟨other, there, same⟩
    have found := locate_edge fits around along there
    rw [same] at found
    obtain rfl : edge.swap = other :=
      (congrArg Prod.swap (locate_edge fits around along here)).symm.trans found
    exact not_onBorder_of_swap_mem here there
  · intro inner
    exact ⟨edge.swap, swap_mem_edges_lattice here inner, rfl⟩

end Counted

/-! ## Trunks without cracks -/

/-- The triangles of a trunk that is written have exactly its vertices as corners and no directed
edge twice, and an edge is there the other way around exactly if it is not on the border. -/
theorem write_without_cracks {trunk : Trunk} (around : trunk.xSegments ≠ 0)
    (along : trunk.ySegments ≠ 0) {mesh : Mesh}
    (fits : mesh.vertices.size +
      (trunk.xSegments.toNat + 1) * (trunk.ySegments.toNat + 1) ≤ UInt32.size)
    (transform : Matrix) :
    ∃ triangles : List (Triangle UInt32),
      trunk.write transform mesh =
        some ((mesh.addVertices (trunk.vertices transform)).addTriangles barkGroup triangles) ∧
      mesh.place (trunk.patch transform) =
        (mesh.addVertices (trunk.vertices transform)).addTriangles barkGroup triangles ∧
      triangles.length = 2 * trunk.xSegments.toNat * trunk.ySegments.toNat ∧
      (∀ index, index ∈ cornersOfAll triangles ↔ mesh.vertices.size ≤ index.toNat ∧
        index.toNat < mesh.vertices.size +
          (trunk.xSegments.toNat + 1) * (trunk.ySegments.toNat + 1)) ∧
      (edgesOfAll triangles).Nodup ∧
      ∀ edge ∈ edgesOfAll triangles, edge.swap ∈ edgesOfAll triangles ↔
        ¬OnBorder trunk.xSegments.toNat trunk.ySegments.toNat
          (Prod.map (locate mesh.vertices.size (trunk.xSegments.toNat + 1))
            (locate mesh.vertices.size (trunk.xSegments.toNat + 1)) edge) := by
  have columns : trunk.xSegments.toNat ≠ 0 := fun none => around (UInt32.toNat_inj.mp none)
  have rings : trunk.ySegments.toNat ≠ 0 := fun none => along (UInt32.toNat_inj.mp none)
  have whole : trunk.patch transform =
      ⟨trunk.vertices transform, barkGroup, grid trunk.xSegments.toNat trunk.ySegments.toNat⟩ :=
    if_neg (not_or.mpr ⟨around, along⟩)
  have room : mesh.vertices.size + (trunk.patch transform).vertices.length ≤ UInt32.size := by
    rw [whole, length_vertices]
    exact fits
  have placed : mesh.place (trunk.patch transform) =
      (mesh.addVertices (trunk.vertices transform)).addTriangles barkGroup
        ((grid trunk.xSegments.toNat trunk.ySegments.toNat).map
          (Triangle.moved mesh.vertices.size)) := by
    rw [whole, Mesh.place_eq]
  refine ⟨_, (write_eq room).trans (congrArg some placed), placed, ?_, ?_, ?_, ?_⟩
  · rw [List.length_map, length_grid]
  · exact fun index => mem_corners_grid_iff fits columns rings
  · exact nodup_edges_grid fits columns rings
  · exact fun edge among => swap_mem_edges_grid_iff fits columns rings among

/-- Three cells around and two along behind one vertex that is there. -/
theorem write_without_cracks_tube :
    let trunk : Trunk := ⟨1, 0.5, 2, 3, 2, 0, 0⟩
    let mesh := Mesh.empty.addVertex ⟨⟨0, 0, 0⟩, ⟨0, 0⟩⟩
    trunk.xSegments ≠ 0 ∧ trunk.ySegments ≠ 0 ∧
      mesh.vertices.size + (3 + 1) * (2 + 1) ≤ UInt32.size ∧
      ∃ triangles : List (Triangle UInt32),
        trunk.write .identity mesh =
          some ((mesh.addVertices (trunk.vertices .identity)).addTriangles barkGroup triangles) ∧
        triangles.length = 12 ∧
        (∀ index, index ∈ cornersOfAll triangles ↔ 1 ≤ index.toNat ∧ index.toNat < 13) ∧
        (edgesOfAll triangles).Nodup ∧
        ∀ edge ∈ edgesOfAll triangles, edge.swap ∈ edgesOfAll triangles ↔
          ¬OnBorder 3 2 (Prod.map (locate 1 4) (locate 1 4) edge) := by
  intro trunk mesh
  have around : trunk.xSegments ≠ 0 := by decide
  have along : trunk.ySegments ≠ 0 := by decide
  have fits : mesh.vertices.size + (3 + 1) * (2 + 1) ≤ UInt32.size := by decide
  obtain ⟨triangles, written, _, count, corners, once, border⟩ :=
    write_without_cracks around along fits .identity
  exact ⟨around, along, fits, triangles, written, count, corners, once, border⟩

end Trunk

end Arbor
