import Mathlib.Data.List.Infix
import Arbor.Proofs.CreationOrder

/-!
# Branches that leave no trace

A branch begins where the turtle saves its frame and ends where this frame is restored. What
the turtle does in between reaches the tree only through the nodes that it stands on, and
these are the node of the saved frame and nodes that are newer than the branch. So of the
older nodes only one can get children, and in everything else all of them stay as they are.

A turtle may stand on no node, or on a number that no node has yet. What it spawns then goes
below the root.
-/
namespace Arbor

variable {π : Type}

/-! ## Actions of a branch -/

namespace TurtleAction

/-- Whether an action saves a frame. -/
def saves : TurtleAction π → Bool
  | .save => true
  | _ => false

/-- Whether an action restores a frame. -/
def restores : TurtleAction π → Bool
  | .restore => true
  | _ => false

/-- Each restored frame was saved by an earlier one of the actions, and each saved frame is
restored by a later one. -/
structure Matched (actions : List (TurtleAction π)) : Prop where
  /-- No first part of the actions restores more frames than it saves. -/
  covered : ∀ before, before <+: actions → before.countP restores ≤ before.countP saves
  /-- Equally many frames are saved and restored. -/
  settled : actions.countP saves = actions.countP restores

instance (actions : List (TurtleAction π)) : Decidable (Matched actions) :=
  decidable_of_iff
    ((∀ before ∈ actions.inits, before.countP restores ≤ before.countP saves) ∧
      actions.countP saves = actions.countP restores)
    ⟨fun counts => ⟨fun before within => counts.1 before ((List.mem_inits _ _).mpr within),
        counts.2⟩,
      fun matched => ⟨fun before listed => matched.covered before ((List.mem_inits _ _).mp listed),
        matched.settled⟩⟩

end TurtleAction

/-! ## Trees that grow below one node -/

namespace PartTree

variable {first later : PartTree π} {parent asked : Option Nat}

/-- A tree has other nodes behind those of a first tree. Of these only the one below which a
node hangs that asks for `parent` may have more children than before, which stand behind
those that it had and are newer than the first tree; otherwise they are the same. -/
structure GrowsBelow (first later : PartTree π) (parent : Option Nat) : Prop where
  size : first.size ≤ later.size
  kept : ∀ id node, first.node? id = some node →
    ∃ added, later.node? id = some { node with children := node.children ++ added } ∧
      (∀ child ∈ added, first.size ≤ child ∧ child < later.size) ∧
        (added ≠ #[] → first.attachment parent = some id)

/-- What is asked for is `parent` or a node that is newer than the first tree. -/
def Asks (first later : PartTree π) (parent asked : Option Nat) : Prop :=
  asked = parent ∨ ∃ id, asked = some id ∧ first.size ≤ id ∧ id < later.size

/-- The node below which another one hangs is the one that is asked for, or the root if no
node has the number that is asked for. -/
theorem of_attachment_eq_some {tree : PartTree π} {above : Nat}
    (attached : tree.attachment parent = some above) :
    parent = some above ∨
      tree.root? = some above ∧ ∀ id, parent = some id → tree.size ≤ id := by
  have grown : tree.size ≠ 0 := by
    intro fresh
    rw [attachment_of_empty fresh] at attached
    cases attached
  rw [attachment_eq grown, Option.some.injEq] at attached
  rw [root?_eq, if_neg grown]
  cases parent with
  | none =>
    refine .inr ⟨congrArg some attached, ?_⟩
    simp
  | some id =>
    by_cases present : id < tree.size
    · left
      simpa [Option.filter, present] using attached
    · right
      constructor
      · simpa [Option.filter, present] using attached
      · intro other same
        obtain rfl := Option.some.inj same
        exact Nat.le_of_not_lt present

/-- Nodes that are asked for stay new when the tree grows. -/
theorem Asks.mono {last : PartTree π} (asks : first.Asks later parent asked)
    (grown : later.size ≤ last.size) : first.Asks last parent asked := by
  rcases asks with same | ⟨id, same, fresh, present⟩
  · exact .inl same
  · exact .inr ⟨id, same, fresh, Nat.lt_of_lt_of_le present grown⟩

/-- What asks for `parent` or for a newer node hangs below the same node of the first tree as
before, or below a newer one. If `parent` is a number that no node of the first tree has, then
this node is the root at first, and later perhaps the newer node that got the number. -/
theorem Asks.attachment (asks : first.Asks later parent asked) (size : first.size ≤ later.size)
    (old : first.size ≠ 0) {above : Nat} (attached : later.attachment asked = some above) :
    first.size ≤ above ∨ first.attachment parent = some above := by
  rcases of_attachment_eq_some attached with same | ⟨root, absent⟩
  · by_cases fresh : first.size ≤ above
    · exact .inl fresh
    · right
      rcases asks with rfl | ⟨id, found, newer, _⟩
      · subst same
        exact attachment_of_lt (Nat.lt_of_not_le fresh)
      · obtain rfl : above = id := Option.some.inj (same.symm.trans found)
        exact absurd newer fresh
  · right
    rcases asks with rfl | ⟨id, found, _, present⟩
    · have grown : later.size ≠ 0 := by omega
      rw [root?_eq, if_neg grown] at root
      rw [attachment_eq old, ← root]
      cases asked with
      | none => rfl
      | some id =>
        have outside : ¬id < first.size := by
          have := absent id rfl
          omega
        simp [Option.filter, outside]
    · exact absurd present (Nat.not_lt_of_le (absent id found))

namespace GrowsBelow

/-- A tree has its own nodes. -/
theorem refl (tree : PartTree π) (parent : Option Nat) : tree.GrowsBelow tree parent where
  size := Nat.le_refl _
  kept id node found := by
    refine ⟨#[], ?_, ?_, ?_⟩
    · rw [Array.append_empty]
      exact found
    · simp
    · exact fun some => absurd rfl some

/-- One more node goes below the same node, if it asks for it or for a newer one. -/
theorem add (held : first.GrowsBelow later parent) (asks : first.Asks later parent asked)
    (part : π) (parameters : List Float32) (transform : Matrix) :
    first.GrowsBelow (later.add asked part parameters transform) parent := by
  constructor
  · rw [size_add]
    exact Nat.le_succ_of_le held.size
  · intro id node found
    have inside : id < first.size := (Array.getElem?_eq_some_iff.mp found).choose
    have old : first.size ≠ 0 := Nat.ne_of_gt (Nat.zero_lt_of_lt inside)
    have grown : later.size ≠ 0 := Nat.ne_of_gt (Nat.lt_of_lt_of_le (Nat.pos_of_ne_zero old)
      held.size)
    have attached := attachment_eq grown asked
    have other : id ≠ later.size := Nat.ne_of_lt (Nat.lt_of_lt_of_le inside held.size)
    obtain ⟨added, present, fresh, below⟩ := held.kept id node found
    have wider : ∀ child ∈ added, first.size ≤ child ∧ child < later.size + 1 :=
      fun child among => ⟨(fresh child among).1, Nat.lt_succ_of_lt (fresh child among).2⟩
    rw [node?_add attached, if_neg other, size_add]
    by_cases here : (asked.filter (· < later.size)).getD 0 = id
    · rw [if_pos here, present]
      refine ⟨added.push later.size, ?_, ?_, ?_⟩
      · simp
      · intro child among
        rcases Array.mem_push.mp among with before | rfl
        · exact wider child before
        · exact ⟨held.size, Nat.lt_succ_self _⟩
      · intro _
        rw [here] at attached
        exact (asks.attachment held.size old attached).resolve_left (Nat.not_le_of_lt inside)
    · rw [if_neg here]
      exact ⟨added, present, wider, below⟩

end GrowsBelow

end PartTree

/-! ## A turtle in a branch -/

namespace Turtle

open TurtleAction (saves restores)

/-- A turtle is in a branch that began at `base`: what it saved since then stands in front of
the frame of the branch, and its frames stand on the node where the branch began or on newer
nodes. -/
structure InBranch (base : Turtle π) (inner : List Frame) (turtle : Turtle π) : Prop where
  tree : base.tree.GrowsBelow turtle.tree base.frame.node
  stack : turtle.stack = inner ++ base.frame :: base.stack
  asks : ∀ frame ∈ turtle.frame :: inner,
    base.tree.Asks turtle.tree base.frame.node frame.node
  growthAxis : turtle.growthAxis = base.growthAxis

namespace InBranch

variable {base turtle : Turtle π} {inner : List Frame}

/-- A branch begins with saving the frame. -/
theorem start (base : Turtle π) : InBranch base [] base.save where
  tree := .refl base.tree base.frame.node
  stack := rfl
  asks frame among := by
    obtain rfl : frame = base.frame := List.mem_singleton.mp among
    exact .inl rfl
  growthAxis := rfl

/-- A turtle that stands where it stood and grew no other tree is still in the branch. -/
theorem turned (held : InBranch base inner turtle) {frame : Frame}
    (same : frame.node = turtle.frame.node) :
    InBranch base inner { turtle with frame } where
  tree := held.tree
  stack := held.stack
  asks other among := by
    rcases List.mem_cons.mp among with rfl | saved
    · show base.tree.Asks turtle.tree base.frame.node other.node
      rw [same]
      exact held.asks turtle.frame List.mem_cons_self
    · exact held.asks other (List.mem_cons_of_mem _ saved)
  growthAxis := held.growthAxis

/-- A frame that is saved in a branch belongs to the branch. -/
theorem save (held : InBranch base inner turtle) :
    InBranch base (turtle.frame :: inner) turtle.save where
  tree := held.tree
  stack := congrArg (turtle.frame :: ·) held.stack
  asks frame among := by
    rcases List.mem_cons.mp among with rfl | saved
    · exact held.asks _ List.mem_cons_self
    · exact held.asks frame saved
  growthAxis := held.growthAxis

/-- A frame that was saved in a branch is restored to the branch. -/
theorem restore {saved : Frame} (held : InBranch base (saved :: inner) turtle) :
    InBranch base inner turtle.restore := by
  obtain ⟨frame, stack, tree, growthAxis⟩ := turtle
  obtain rfl : stack = saved :: (inner ++ base.frame :: base.stack) := held.stack
  exact ⟨held.tree, rfl, fun frame among => held.asks frame (List.mem_cons_of_mem _ among),
    held.growthAxis⟩

variable [Part π]

/-- A node that is spawned in a branch is newer than the branch. -/
theorem spawn (held : InBranch base inner turtle) (part : π) (parameters : List Float32) :
    InBranch base inner (turtle.spawn part parameters) where
  tree := by
    rw [tree_spawn]
    exact held.tree.add (held.asks turtle.frame List.mem_cons_self) part parameters _
  stack := by
    rw [stack_spawn]
    exact held.stack
  asks frame among := by
    rw [tree_spawn]
    rcases List.mem_cons.mp among with rfl | saved
    · rw [node_spawn]
      refine .inr ⟨turtle.tree.size, rfl, held.tree.size, ?_⟩
      rw [PartTree.size_add]
      exact Nat.lt_succ_self _
    · refine (held.asks frame (List.mem_cons_of_mem _ saved)).mono ?_
      rw [PartTree.size_add]
      exact Nat.le_succ _
  growthAxis := by
    refine Eq.trans ?_ held.growthAxis
    obtain ⟨frame, stack, tree, growthAxis⟩ := turtle
    simp only [Turtle.spawn]
    split <;> rfl

/-- What a turtle does in a branch keeps it in the branch, unless it restores a frame that was
not saved there. -/
theorem perform (held : InBranch base inner turtle) (action : TurtleAction π)
    (saved : [action].countP restores ≤ inner.length + [action].countP saves) :
    ∃ deeper, InBranch base deeper (turtle.perform action) ∧
      deeper.length + [action].countP restores = inner.length + [action].countP saves := by
  cases action with
  | rotate axis angle => exact ⟨inner, held.turned rfl, rfl⟩
  | move axis distance => exact ⟨inner, held.turned rfl, rfl⟩
  | save => exact ⟨turtle.frame :: inner, held.save, rfl⟩
  | restore =>
    cases inner with
    | nil => simp [saves, restores] at saved
    | cons frame inner => exact ⟨inner, held.restore, rfl⟩
  | spawn part parameters => exact ⟨inner, held.spawn part parameters, rfl⟩

/-- A turtle stays in a branch for as long as it restores no more frames than were saved
there. -/
theorem performAll (held : InBranch base inner turtle) {actions : List (TurtleAction π)}
    (covered : ∀ before, before <+: actions →
      before.countP restores ≤ inner.length + before.countP saves) :
    ∃ deeper, InBranch base deeper (turtle.performAll actions) ∧
      deeper.length + actions.countP restores = inner.length + actions.countP saves := by
  induction actions generalizing turtle inner with
  | nil => exact ⟨inner, held, rfl⟩
  | cons action actions ih =>
    have first : [action] <+: action :: actions := ⟨actions, rfl⟩
    obtain ⟨deeper, here, counted⟩ := held.perform action (covered _ first)
    have later : ∀ before, before <+: actions →
        before.countP restores ≤ deeper.length + before.countP saves := by
      intro before within
      have bounded := covered (action :: before) (List.cons_prefix_cons.mpr ⟨rfl, within⟩)
      rw [← List.singleton_append, List.countP_append, List.countP_append] at bounded
      omega
    obtain ⟨last, there, total⟩ := ih here later
    refine ⟨last, there, ?_⟩
    rw [← List.singleton_append, List.countP_append, List.countP_append]
    omega

end InBranch

variable [Part π]

/-- A branch that restores all frames that it saves ends where it began: with the frame of the
turtle, its node among it, and with all frames that were saved before. Of the tree that was
there each node is still there with its transform, parameters, part and parent, and its
children are the first ones that it has now. More children, all of them newer than the
branch, has at most the node that the turtle stands on, or the root if it stands on no node
of the tree. -/
theorem performAll_branch (turtle : Turtle π) {actions : List (TurtleAction π)}
    (matched : TurtleAction.Matched actions) :
    ∃ tree, turtle.performAll (.save :: (actions ++ [.restore])) = { turtle with tree } ∧
      turtle.tree.size ≤ tree.size ∧
      ∀ id node, turtle.tree.node? id = some node →
        ∃ added, tree.node? id = some { node with children := node.children ++ added } ∧
          (∀ child ∈ added, turtle.tree.size ≤ child ∧ child < tree.size) ∧
          (added ≠ #[] → turtle.frame.node = some id ∨
            turtle.tree.root? = some id ∧
              ∀ standing, turtle.frame.node = some standing → turtle.tree.size ≤ standing) := by
  have covered : ∀ before, before <+: actions →
      before.countP restores ≤ ([] : List Frame).length + before.countP saves := by
    simpa using matched.covered
  obtain ⟨inner, held, counted⟩ := (InBranch.start turtle).performAll covered
  obtain rfl : inner = [] := by
    refine List.eq_nil_of_length_eq_zero ?_
    have settled := matched.settled
    simp only [List.length_nil] at counted
    omega
  refine ⟨(turtle.save.performAll actions).tree, ?_, held.tree.size, ?_⟩
  · have split : turtle.performAll (.save :: (actions ++ [.restore])) =
        (turtle.save.performAll actions).restore := by
      simp only [Turtle.performAll, List.foldl_cons, List.foldl_append, List.foldl_nil]
      rfl
    have stack := held.stack
    have growthAxis := held.growthAxis
    rw [split]
    generalize turtle.save.performAll actions = last at stack growthAxis
    obtain ⟨frame, saved, tree, axis⟩ := last
    obtain rfl : saved = turtle.frame :: turtle.stack := stack
    obtain rfl : axis = turtle.growthAxis := growthAxis
    rfl
  · intro id node found
    obtain ⟨added, present, fresh, below⟩ := held.tree.kept id node found
    exact ⟨added, present, fresh, fun some => PartTree.of_attachment_eq_some (below some)⟩

/-- A turtle that stands on no node, since it saved its frame in front of the first node, puts
the first dot of a branch below the root, and the other ones below this dot. The dot of the
earlier branch gets no child. -/
theorem performAll_branch_below_root :
    let turtle := (start .unitY : Turtle Marker).performAll
      [.save, .spawn .dot [], .spawn .dot [], .restore]
    let actions : List (TurtleAction Marker) :=
      [.rotate .z 1, .spawn .dot [], .save, .spawn .dot [], .restore, .spawn .dot []]
    TurtleAction.Matched actions ∧
      ∃ tree, turtle.performAll (.save :: (actions ++ [.restore])) = { turtle with tree } ∧
        tree.childrenOf 0 = [1, 2] ∧ tree.childrenOf 1 = [] := by
  intro turtle actions
  have matched : TurtleAction.Matched actions := by decide
  obtain ⟨tree, returned, _, kept⟩ := performAll_branch turtle matched
  have grown : tree.childrenOf 0 = [1, 2] := by
    rw [show tree = (turtle.performAll (.save :: (actions ++ [.restore]))).tree by rw [returned]]
    decide +kernel
  obtain ⟨added, present, _, below⟩ := kept 1 _ rfl
  have none : added = #[] := by
    by_contra some
    rcases below some with standing | ⟨root, _⟩
    · cases standing
    · cases root
  subst none
  refine ⟨matched, tree, returned, grown, ?_⟩
  rw [PartTree.childrenOf, present]
  rfl

end Turtle

end Arbor
