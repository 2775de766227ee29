import Arbor.Proofs.PlantMeshes
import Arbor.Proofs.Undrawn

/-!
# Meshes without an outcome

A mesh has an outcome unless one of its leaves needs a number that does not exist. Trunks and
joints draw nothing. A cluster draws the number of its leaves and then four numbers for each of
them, every one between two of its parameters. These are finite or not, as a sequence has them,
and even two finite ones may have a distance that is not.
-/
namespace Arbor

/-! ## Draws within bounds -/

namespace Draw

/-- One attempt to draw a single. -/
def trySingle (low high : Float32) : Draw (Option Float32) := do
  let value := unitSingle (← word) * (high - low) + low
  pure (if value < high then some value else none)

/-- A single has no value if the distance of its bounds is not finite; otherwise all attempts
have to be refused. -/
theorem single_eq_none_iff {low high : Float32} {generator : Generator} :
    (single low high).run generator = none ↔
      (high - low).isFinite = false ∨ Refuses (trySingle low high) attempts generator := by
  have answers (generator : Generator) : (trySingle low high).run generator ≠ none := by
    intro missing
    cases missing
  exact ranged_eq_none_iff answers

/-- One attempt to draw an integer. -/
def tryInteger (low high : UInt32) : Draw (Option UInt32) := do
  let count := high - low
  let zone := (count <<< (leadingZeros count).toUInt32) - 1
  let product := (← word).toUInt64 * count.toUInt64
  pure (if product.toUInt32 ≤ zone then some (low + (product >>> 32).toUInt32) else none)

/-- An integer has no value only if all attempts are refused. -/
theorem integer_eq_none_iff {low high : UInt32} {generator : Generator} :
    (integer low high).run generator = none ↔
      Refuses (tryInteger low high) attempts generator := by
  have answers (generator : Generator) : (tryInteger low high).run generator ≠ none := by
    intro missing
    cases missing
  exact untilAccepted_eq_none_iff answers

end Draw

namespace Bounds

/-- There is no number to draw within bounds. -/
def Impossible (bounds : Bounds) (generator : Generator) : Prop :=
  bounds.low < bounds.high ∧ ((bounds.high - bounds.low).isFinite = false ∨
    Draw.Refuses (Draw.trySingle bounds.low bounds.high) Draw.attempts generator)

/-- There is no count to draw within bounds, since all attempts are refused. -/
def CountImpossible (bounds : Bounds) (generator : Generator) : Prop :=
  bounds.low.toUInt32 < bounds.high.toUInt32 ∧ Draw.Refuses
    (Draw.tryInteger bounds.low.toUInt32 bounds.high.toUInt32) Draw.attempts generator

/-- Bounds have no number exactly if they leave room and there is none in it. -/
theorem run_draw_eq_none_iff {bounds : Bounds} {generator : Generator} :
    bounds.draw.run generator = none ↔ bounds.Impossible generator := by
  unfold draw Impossible
  by_cases room : bounds.low < bounds.high
  · simp [room, Draw.single_eq_none_iff]
  · simp [room]

/-- Bounds have no count exactly if they leave room and all attempts are refused. -/
theorem run_drawCount_eq_none_iff {bounds : Bounds} {generator : Generator} :
    bounds.drawCount.run generator = none ↔ bounds.CountImpossible generator := by
  unfold drawCount CountImpossible
  by_cases room : bounds.low.toUInt32 < bounds.high.toUInt32
  · simp [room, Draw.integer_eq_none_iff]
  · simp [room]

end Bounds

/-! ## Leaves -/

namespace LeafCluster

variable {cluster : LeafCluster} {generator : Generator}

/-- The ranges of a leaf in the order in which they are drawn from. -/
def ranges (cluster : LeafCluster) : List Bounds :=
  [cluster.length, cluster.width, cluster.xRotation, cluster.zRotation]

/-- One of the numbers of a leaf does not exist. -/
def LeafImpossible (cluster : LeafCluster) : Generator → Prop :=
  Draw.Encounters (fun bounds generator value later =>
    bounds.draw.run generator = some (value, later)) Bounds.Impossible cluster.ranges

/-- The number of leaves does not exist, or a number of one of them. -/
def Impossible (cluster : LeafCluster) (generator : Generator) : Prop :=
  cluster.count.CountImpossible generator ∨
    ∃ count later, cluster.count.drawCount.run generator = some (count, later) ∧
      Draw.Encounters (fun _ generator leaf after =>
          cluster.drawLeaf.run generator = some (leaf, after))
        (fun _ => cluster.LeafImpossible) (List.replicate count.toNat ()) later

/-- A leaf is missing exactly if one of its numbers is. -/
theorem run_drawLeaf_eq_none_iff :
    cluster.drawLeaf.run generator = none ↔ cluster.LeafImpossible generator := by
  unfold drawLeaf LeafImpossible ranges
  simp only [Draw.bind_eq_none_iff, Draw.Encounters, Bounds.run_draw_eq_none_iff,
    Draw.run_pure_ne_none, and_false, exists_false, or_false]

/-- Leaves are missing exactly if one of them is. -/
theorem run_drawLeaves_eq_none_iff {count : Nat} :
    (cluster.drawLeaves count).run generator = none ↔
      Draw.Encounters (fun _ generator leaf after =>
          cluster.drawLeaf.run generator = some (leaf, after))
        (fun _ => cluster.LeafImpossible) (List.replicate count ()) generator := by
  induction count generalizing generator with
  | zero => simp [drawLeaves, Draw.Encounters]
  | succ count ih =>
    simp only [drawLeaves, List.replicate_succ, Draw.bind_eq_none_iff, Draw.Encounters,
      run_drawLeaf_eq_none_iff, ih, Draw.run_pure_ne_none, and_false, exists_false, or_false]

/-- A cluster is missing exactly if its number of leaves or one of the leaves is. -/
theorem run_patch_eq_none_iff {transform : Matrix} :
    (cluster.patch transform).run generator = none ↔ cluster.Impossible generator := by
  simp only [patch, Impossible, Draw.bind_eq_none_iff, Bounds.run_drawCount_eq_none_iff,
    run_drawLeaves_eq_none_iff, Draw.run_pure_ne_none, and_false, exists_false, or_false]

end LeafCluster

/-- A node is a cluster of leaves for which a number does not exist. -/
def PartNode.Impossible (node : PartNode PlantPart) (generator : Generator) : Prop :=
  node.part = .leaves ∧ (LeafCluster.ofParameters node.parameters).Impossible generator

/-- Only the patch of a cluster of leaves may be missing. -/
theorem PartNode.run_patch_eq_none_iff {node : PartNode PlantPart} {generator : Generator} :
    node.patch.run generator = none ↔ node.Impossible generator := by
  obtain ⟨transform, parameters, part, parent, children⟩ := node
  unfold PartNode.patch Impossible
  cases part with
  | trunk => simp [Part.patch]
  | joint => simp [Part.patch]
  | leaves => simp [Part.patch, LeafCluster.run_patch_eq_none_iff]

/-! ## Outcomes -/

/-- A mesh has no outcome exactly if there is a tree, and a number that one of its nodes draws
in their order does not exist. -/
theorem Interpretation.mesh_eq_none_iff (interpretation : Interpretation PlantPart)
    (fresh : Generator) (sequence : Text) :
    interpretation.mesh fresh sequence = none ↔
      ∃ tree, interpretation.tree sequence = .ok tree ∧
        Draw.Encounters (fun node generator patch later =>
            node.patch.run generator = some (patch, later))
          PartNode.Impossible tree.nodes.toList (interpretation.generator fresh) := by
  cases grown : interpretation.tree sequence with
  | error fault => simp [mesh, grown]
  | ok tree =>
    simp only [mesh, grown, Except.ok.injEq, exists_eq_left']
    by_cases bare : tree.isEmpty = true
    · have empty : tree.nodes.toList = [] := by simpa [PartTree.isEmpty] using bare
      simp [bare, empty, Draw.Encounters]
    · have patches : tree.patches.run (interpretation.generator fresh) = none ↔ _ :=
        Draw.mapM_eq_none_iff.trans
          (Draw.encounters_congr fun _ _ => PartNode.run_patch_eq_none_iff)
      have emitted : tree.emit.run (interpretation.generator fresh) = none ↔
          tree.patches.run (interpretation.generator fresh) = none := by
        rw [PartTree.emit_of_depthFirst (depthFirst_of_tree grown), Draw.bind_eq_none_iff]
        simp only [Draw.run_pure_ne_none, and_false, exists_false, or_false]
      rw [if_neg bare, Option.map_eq_none_iff]
      exact emitted.trans patches

/-- What it takes to have an outcome. A derivation ends with a sequence or a fault unless an
expression that it evaluates draws a number that does not exist, and a mesh is there or has a
fault unless a cluster of leaves does. Such a number has bounds whose distance is not finite,
or all attempts to draw it are refused. -/
theorem outcome_eq_none_iff (system : LSystem) (interpretation : Interpretation PlantPart)
    (fresh : Generator) (start sequence : Text) (count : Nat) :
    ((system.derive fresh start count).2 = none ↔
      ∃ grammar, system.grammar.recompile = .ok grammar ∧
        LSystem.PassesDraw Draw.Impossible system.constants grammar count start
          (system.generator fresh)) ∧
    (interpretation.mesh fresh sequence = none ↔
      ∃ tree, interpretation.tree sequence = .ok tree ∧
        Draw.Encounters (fun node generator patch later =>
            node.patch.run generator = some (patch, later))
          PartNode.Impossible tree.nodes.toList (interpretation.generator fresh)) := by
  constructor
  · exact system.derive_eq_none_iff fresh start count
  · exact interpretation.mesh_eq_none_iff fresh sequence

/-- Numbers between finite bounds may not exist: the distance of the bounds is above all finite
numbers, here of doubles in an argument and of singles among the parameters of leaves. -/
theorem outcome_eq_none_of_wide_bounds :
    (LSystem.empty.derive (.ofSeed 0) "A(rnd(0-1e308,1e308))".toList 1).2 = none ∧
      (StockTree.interpretation (some 0) .unitY).mesh default
        "L(1,1,-3e38,3e38,1,1,0,0,0,0)".toList = none := by
  constructor
  · decide +kernel
  · decide +kernel

end Arbor
