import Arbor.Proofs.Outcomes

/-!
# Clusters without a choice

The seed of a mesh matters only if a cluster of leaves has a choice. A range whose upper bound is
not above the lower one has none, and its number is the lower bound. The bounds of a count are
cut at zero and to integers before they are compared, so a count may be without a choice although
the bounds that are written differ. All nodes share one generator, and one word that is taken
without need would move the numbers of every later leaf. So each step is shown to take no word,
and then all of them in turn.
-/
namespace Arbor

/-! ## Draws that take nothing -/

namespace Draw

variable {α β : Type}

/-- A draw has one value, whatever the generator is, and leaves the generator as it was. -/
def Settled (draw : Draw α) : Prop :=
  ∃ value, ∀ generator, draw.run generator = some (value, generator)

namespace Settled

/-- A value is settled. -/
protected theorem pure (value : α) : Settled (pure value) :=
  ⟨value, fun _ => rfl⟩

/-- Two steps are settled if both are; the second one comes to the generator of the first. -/
protected theorem bind {draw : Draw α} {next : α → Draw β} (first : draw.Settled)
    (second : ∀ value, (next value).Settled) : (draw >>= next).Settled := by
  obtain ⟨value, drawn⟩ := first
  obtain ⟨result, after⟩ := second value
  refine ⟨result, fun generator => ?_⟩
  exact bind_eq_some_iff.mpr ⟨value, generator, drawn generator, after generator⟩

/-- A list of draws is settled if each of them is. -/
protected theorem mapM {step : α → Draw β} {values : List α}
    (each : ∀ value ∈ values, (step value).Settled) : (values.mapM step).Settled := by
  induction values with
  | nil => exact .pure []
  | cons value values ih =>
    obtain ⟨here, later⟩ := List.forall_mem_cons.mp each
    rw [List.mapM_cons]
    exact here.bind fun result => (ih later).bind fun results => .pure (result :: results)

end Settled

end Draw

/-! ## Singles as counts -/

section Singles

open Float.Model.UnpackedFloat

/-- A single is above zero as its unpacked form is. -/
theorem single_pos_iff {value : Float32} :
    0 < value ↔ (zero .positive).lt value.toModel.unpack = true :=
  decide_eq_true_iff

/-- What is not above zero counts as zero, be it no number. -/
theorem toUInt32_eq_zero_of_not_pos {value : Float32} (below : ¬ 0 < value) :
    value.toUInt32 = 0 := by
  have nothing : (value.toModel.unpack.toInt 0 (UInt32.size - 1)).toNat = 0 := by
    rw [single_pos_iff] at below
    cases unpacked : value.toModel.unpack with
    | notANumber => rfl
    | zero sign => rfl
    | infinity sign =>
      cases sign with
      | negative => rfl
      | positive => exact absurd (by rw [unpacked]; rfl) below
    | finite sign mantissa exponent positive =>
      cases sign with
      | negative =>
        -- A negative number is cut to the negation of a natural number.
        exact Int.toNat_neg_natCast _
      | positive => exact absurd (by rw [unpacked]; rfl) below
  calc value.toUInt32
    _ = UInt32.ofNatClamp (value.toModel.unpack.toInt 0 (UInt32.size - 1)).toNat := rfl
    _ = 0 := by rw [nothing]; rfl

end Singles

/-! ## Closed ranges -/

namespace Bounds

/-- A bound of a count, cut at zero and then to an integer. -/
def truncated (bound : Float32) : UInt32 :=
  (if 0 < bound then bound else 0).toUInt32

/-- Cutting to an integer without a sign cuts at zero already. -/
theorem truncated_eq (bound : Float32) : truncated bound = bound.toUInt32 := by
  unfold truncated
  split
  · rfl
  · next below =>
    rw [toUInt32_eq_zero_of_not_pos below]
    rfl

/-- The upper bound is not above the lower one. -/
def Closed (bounds : Bounds) : Prop :=
  ¬ bounds.low < bounds.high

/-- The upper bound is not above the lower one when both are cut for a count. -/
def CountClosed (bounds : Bounds) : Prop :=
  ¬ truncated bounds.low < truncated bounds.high

instance (bounds : Bounds) : Decidable bounds.Closed :=
  inferInstanceAs (Decidable (¬ _))

instance (bounds : Bounds) : Decidable bounds.CountClosed :=
  inferInstanceAs (Decidable (¬ _))

variable {bounds : Bounds}

/-- The number within closed bounds is the lower one. -/
theorem Closed.draw_eq (closed : bounds.Closed) : bounds.draw = pure bounds.low :=
  if_neg closed

/-- The count within closed bounds is the lower one. -/
theorem CountClosed.drawCount_eq (closed : bounds.CountClosed) :
    bounds.drawCount = pure (truncated bounds.low) := by
  unfold CountClosed at closed
  simp only [truncated_eq] at closed ⊢
  exact if_neg closed

end Bounds

/-! ## Leaves -/

namespace LeafCluster

/-- A cluster has no choice: neither the number of its leaves nor what a leaf is like. -/
def Closed (cluster : LeafCluster) : Prop :=
  cluster.count.CountClosed ∧ ∀ bounds ∈ cluster.ranges, bounds.Closed

instance (cluster : LeafCluster) : Decidable cluster.Closed :=
  inferInstanceAs (Decidable (_ ∧ _))

/-- The leaf that has the lower bounds. -/
def lowest (cluster : LeafCluster) : Leaf :=
  ⟨cluster.length.low, cluster.width.low, cluster.xRotation.low, cluster.zRotation.low⟩

variable {cluster : LeafCluster}

/-- Closed ranges give the leaf with the lower bounds. -/
theorem drawLeaf_eq_of_closed (closed : ∀ bounds ∈ cluster.ranges, bounds.Closed) :
    cluster.drawLeaf = pure cluster.lowest := by
  simp only [ranges, List.forall_mem_cons, List.not_mem_nil, false_implies, implies_true,
    and_true] at closed
  obtain ⟨length, width, xRotation, zRotation⟩ := closed
  simp only [drawLeaf, length.draw_eq, width.draw_eq, xRotation.draw_eq, zRotation.draw_eq,
    pure_bind, lowest]

/-- Closed ranges give the same leaf over and over. -/
theorem drawLeaves_eq_of_closed (closed : ∀ bounds ∈ cluster.ranges, bounds.Closed)
    (count : Nat) : cluster.drawLeaves count = pure (List.replicate count cluster.lowest) := by
  induction count with
  | zero => rfl
  | succ count ih =>
    simp only [drawLeaves, drawLeaf_eq_of_closed closed, ih, pure_bind, List.replicate_succ]

/-- A closed cluster consists of as many leaves as the lower bound tells, all of them alike. -/
theorem Closed.patch_eq (closed : cluster.Closed) (transform : Matrix) :
    cluster.patch transform = pure (.ofQuads leafGroup
      (List.replicate (Bounds.truncated cluster.count.low).toNat
        (cluster.lowest.corners transform))) := by
  simp only [patch, closed.1.drawCount_eq, drawLeaves_eq_of_closed closed.2, pure_bind,
    List.map_replicate]

end LeafCluster

/-! ## Nodes and trees -/

/-- Trunks and joints take no words. -/
theorem PlantPart.settled_patch_of_ne_leaves {part : PlantPart} (other : part ≠ .leaves)
    (parameters : List Float32) (transform : Matrix) :
    (Part.patch part parameters transform).Settled := by
  cases part with
  | trunk => exact .pure _
  | joint => exact .pure _
  | leaves => exact absurd rfl other

namespace PartNode

/-- A node is no cluster of leaves or one without a choice. -/
def Closed (node : PartNode PlantPart) : Prop :=
  node.part = .leaves → (LeafCluster.ofParameters node.parameters).Closed

instance (node : PartNode PlantPart) : Decidable node.Closed :=
  inferInstanceAs (Decidable (_ → _))

/-- A node without a choice takes no words. -/
theorem Closed.settled_patch {node : PartNode PlantPart} (closed : node.Closed) :
    node.patch.Settled := by
  by_cases leaves : node.part = .leaves
  · have drawn : node.patch = (LeafCluster.ofParameters node.parameters).patch node.transform := by
      rw [PartNode.patch, leaves]
      rfl
    rw [drawn, (closed leaves).patch_eq]
    exact .pure _
  · exact PlantPart.settled_patch_of_ne_leaves leaves node.parameters node.transform

end PartNode

/-- A tree takes no words if none of its nodes does. -/
theorem PartTree.settled_emit {π : Type} [Part π] {tree : PartTree π}
    (each : ∀ node ∈ tree.nodes.toList, node.patch.Settled) : tree.emit.Settled := by
  rw [emit, emitAll_eq]
  refine Draw.Settled.bind (.mapM fun node among => ?_) fun patches => .pure _
  obtain ⟨id, _, found⟩ := List.mem_filterMap.mp among
  exact each node (Array.mem_toList_iff.mpr (Array.mem_of_getElem? found))

/-! ## Meshes -/

namespace Interpretation

/-- Symbols do not depend on the seed, and so the way through a text does not. -/
theorem walk_withSeed {π : Type} [Part π] (interpretation : Interpretation π)
    (seed : Option UInt64) (count : Nat) (turtle : Turtle π) (position : Nat) (text : Text) :
    { interpretation with seed }.walk count turtle position text =
      interpretation.walk count turtle position text := by
  induction count generalizing turtle position text with
  | zero => rfl
  | succ count ih =>
    cases text with
    | nil => rfl
    | cons symbol rest =>
      have same : { interpretation with seed }.act turtle symbol position rest =
        interpretation.act turtle symbol position rest := rfl
      simp only [walk, same, ih]

/-- The tree of a sequence does not depend on the seed. -/
theorem tree_withSeed {π : Type} [Part π] (interpretation : Interpretation π)
    (seed : Option UInt64) (sequence : Text) :
    { interpretation with seed }.tree sequence = interpretation.tree sequence := by
  simp only [tree, finalTurtle, walk_withSeed]

/-- Where no cluster of leaves has a choice, a sequence has the same result with every seed and
also without one, whatever generator there is then. Nothing is drawn on the way: its tree is
written with the generator left as it was, and so is each of the nodes. In particular trunks and
joints never draw. -/
theorem mesh_of_closed {interpretation : Interpretation PlantPart} {sequence : Text}
    (closed : ∀ tree, interpretation.tree sequence = .ok tree →
      ∀ node ∈ tree.nodes.toList, node.Closed) :
    (∃ result, ∀ seed fresh,
        { interpretation with seed }.mesh fresh sequence = some result) ∧
      (∀ tree, interpretation.tree sequence = .ok tree →
        tree.emit.Settled ∧ ∀ node ∈ tree.nodes.toList, node.patch.Settled) ∧
      ∀ part : PlantPart, part ≠ .leaves → ∀ parameters transform,
        (Part.patch part parameters transform).Settled := by
  have settled (tree : PartTree PlantPart) (grown : interpretation.tree sequence = .ok tree) :
      ∀ node ∈ tree.nodes.toList, node.patch.Settled :=
    fun node among => (closed tree grown node among).settled_patch
  refine ⟨?_, fun tree grown => ⟨PartTree.settled_emit (settled tree grown), settled tree grown⟩,
    fun part other => PlantPart.settled_patch_of_ne_leaves other⟩
  cases grown : interpretation.tree sequence with
  | error fault =>
    refine ⟨.error fault, fun seed fresh => ?_⟩
    simp only [mesh, tree_withSeed, grown]
  | ok tree =>
    obtain ⟨written, drawn⟩ := PartTree.settled_emit (settled tree grown)
    by_cases bare : tree.isEmpty = true
    · refine ⟨.error .emptyResult, fun seed fresh => ?_⟩
      simp only [mesh, tree_withSeed, grown, bare, if_true]
    · refine ⟨.ok { written with materials := interpretation.materials }, fun seed fresh => ?_⟩
      simp only [mesh, tree_withSeed, grown, bare, drawn, Option.map_some]
      rfl

/-- A trunk, a joint and two clusters. Both counts of the first cluster are cut to two, those of
the second one to zero. -/
theorem mesh_of_closed_cut_counts :
    (∃ tree, (StockTree.interpretation (some 7) .unitY).tree
        "D(1,1,1,3,2,0,0)J(1,3,4)[L(2.2,2.9,1,1,2,1,0,0,0,0)]L(-3,0.5,2,1,2,1,0,0,1,0)".toList =
          .ok tree ∧ tree.size = 4) ∧
      ∃ result, ∀ seed fresh, { StockTree.interpretation (some 7) .unitY with seed }.mesh fresh
        "D(1,1,1,3,2,0,0)J(1,3,4)[L(2.2,2.9,1,1,2,1,0,0,0,0)]L(-3,0.5,2,1,2,1,0,0,1,0)".toList =
          some result := by
  have read : ((StockTree.interpretation (some 7) .unitY).tree
        "D(1,1,1,3,2,0,0)J(1,3,4)[L(2.2,2.9,1,1,2,1,0,0,0,0)]L(-3,0.5,2,1,2,1,0,0,1,0)".toList).map
      (fun tree => (tree.size, tree.nodes.toList.all fun node => decide node.Closed)) =
        .ok (4, true) := by
    decide +kernel
  obtain ⟨tree, grown, counted⟩ := map_eq_ok_iff.mp read
  obtain ⟨size, closed⟩ := Prod.mk.inj counted
  refine ⟨⟨tree, grown, size⟩, (mesh_of_closed fun other same => ?_).1⟩
  obtain rfl := Except.ok.inj (grown.symm.trans same)
  intro node among
  exact of_decide_eq_true (List.all_eq_true.mp closed node among)

end Interpretation

end Arbor
