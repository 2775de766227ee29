import Mathlib.Data.List.Forall2
import Arbor.Mesh.Marker
import Arbor.Proofs.Branching
import Arbor.Proofs.DepthFirst
import Arbor.Proofs.Emission

/-!
# Creation order

A turtle adds a node below the one it stands on, and it can only stand on the newest node
or go back to a node that it stood on when it saved a frame. So the nodes of its frames
are a thread through its tree, and whatever it does, the nodes of the tree are numbered in
depth-first order. Frames that were saved in front of the first node stand on no node; they
count as standing on the root, which is where a node goes that is spawned from them later.

A sequence makes the turtle act symbol by symbol. Each node comes from a drawing symbol, the
nodes stand in the order of their symbols, and this is the order in which they are written
and draw their numbers.
-/
namespace Arbor

open Text

variable {π : Type}

/-! ## Frames on a thread -/

namespace Turtle

/-- The nodes that the frames of a turtle stand on, the one of the turtle itself first. No
node counts as the root. -/
def standing (turtle : Turtle π) : List Nat :=
  (turtle.frame :: turtle.stack).map fun frame => frame.node.getD 0

/-- The frames of a turtle stand on a thread through its tree, or on no node if there is
none. -/
structure OnThread (turtle : Turtle π) : Prop where
  /-- There is nothing to stand on in front of the first node. -/
  unborn : turtle.tree.size = 0 → ∀ frame ∈ turtle.frame :: turtle.stack, frame.node = none
  threaded : turtle.tree.size ≠ 0 →
    turtle.tree.Threaded turtle.tree.size [] turtle.standing

/-- A turtle that grew no other tree and stands where it stood is on a thread as before. -/
theorem OnThread.of_eq {turtle next : Turtle π} (held : turtle.OnThread)
    (tree : next.tree = turtle.tree) (node : next.frame.node = turtle.frame.node)
    (stack : next.stack = turtle.stack) : next.OnThread := by
  have standing : next.standing = turtle.standing := by simp [Turtle.standing, node, stack]
  constructor
  · rw [tree, stack]
    intro fresh frame among
    rcases List.mem_cons.mp among with rfl | saved
    · rw [node]
      exact held.unborn fresh _ List.mem_cons_self
    · exact held.unborn fresh frame (List.mem_cons_of_mem _ saved)
  · rw [tree, standing]
    exact held.threaded

/-- A turtle in front of its work is on a thread. -/
theorem onThread_start (growthAxis : Vec3) : (start growthAxis : Turtle π).OnThread := by
  constructor
  · intro _ frame among
    obtain rfl : frame = .initial := List.mem_singleton.mp among
    rfl
  · intro grown
    exact absurd PartTree.size_empty grown

/-- Restoring takes nothing from the tree. -/
@[simp] theorem tree_restore (turtle : Turtle π) : turtle.restore.tree = turtle.tree := by
  unfold restore restore?
  split <;> rfl

/-- A saved frame doubles the lower end of the thread. -/
theorem OnThread.save {turtle : Turtle π} (held : turtle.OnThread) : turtle.save.OnThread := by
  constructor
  · intro fresh frame among
    rcases List.mem_cons.mp among with rfl | saved
    · exact held.unborn fresh _ List.mem_cons_self
    · exact held.unborn fresh frame saved
  · intro grown
    have threaded := held.threaded grown
    exact ⟨threaded.1, PartTree.Leads.refl turtle.tree _, threaded.2⟩

/-- A frame that is restored cuts the thread at its lower end. -/
theorem OnThread.restore {turtle : Turtle π} (held : turtle.OnThread) :
    turtle.restore.OnThread := by
  obtain ⟨frame, stack, tree, growthAxis⟩ := turtle
  cases stack with
  | nil => exact held
  | cons saved stack =>
    constructor
    · intro fresh frame among
      exact held.unborn fresh frame (List.mem_cons_of_mem _ among)
    · intro grown
      exact (held.threaded grown).tail

/-- A turtle on a thread has a tree in depth-first order. -/
theorem OnThread.depthFirst {turtle : Turtle π} (held : turtle.OnThread) :
    turtle.tree.depthFirst = List.range turtle.tree.size := by
  by_cases fresh : turtle.tree.size = 0
  · rw [PartTree.depthFirst, PartTree.root?_eq, if_pos fresh, fresh]
    rfl
  · exact PartTree.visit_of_leads (held.threaded fresh).leads (Nat.le_refl _)

variable [Part π]

/-- The tree behind spawning has the new node below the one that the turtle stood on. -/
@[simp] theorem tree_spawn (turtle : Turtle π) (part : π) (parameters : List Float32) :
    (turtle.spawn part parameters).tree =
      turtle.tree.add turtle.frame.node part parameters turtle.frame.transform := by
  obtain ⟨frame, stack, tree, growthAxis⟩ := turtle
  simp only [spawn]
  split <;> rfl

/-- A turtle stands on the node that it spawned. -/
@[simp] theorem node_spawn (turtle : Turtle π) (part : π) (parameters : List Float32) :
    (turtle.spawn part parameters).frame.node = some turtle.tree.size := by
  obtain ⟨frame, stack, tree, growthAxis⟩ := turtle
  simp only [spawn]
  split <;> rfl

/-- A node that is spawned goes on with the thread. In front of the first node all frames
stand on none, and behind it all of them stand on the root. -/
theorem OnThread.spawn {turtle : Turtle π} (held : turtle.OnThread) (part : π)
    (parameters : List Float32) : (turtle.spawn part parameters).OnThread := by
  constructor
  · intro fresh
    rw [tree_spawn, PartTree.size_add] at fresh
    cases fresh
  · intro _
    rw [tree_spawn, standing, List.map_cons, node_spawn, stack_spawn]
    by_cases fresh : turtle.tree.size = 0
    · have children := PartTree.childrenOf_add_of_empty fresh turtle.frame.node part parameters
        turtle.frame.transform
      have none : turtle.stack.map (fun frame => frame.node.getD 0) =
          List.replicate turtle.stack.length 0 := by
        refine List.map_eq_replicate_iff.mpr fun frame saved => ?_
        rw [held.unborn fresh frame (List.mem_cons_of_mem _ saved)]
        rfl
      rw [PartTree.size_add, fresh, none]
      refine ⟨⟨Nat.le_succ 0, .visit ?_⟩, PartTree.Threaded.replicate_zero _ _⟩
      rw [Option.getD_some, children]
      exact .stay []
    · exact (held.threaded fresh).add rfl part parameters _

/-- Whatever a turtle does, its frames stay on a thread. -/
theorem OnThread.perform {turtle : Turtle π} (held : turtle.OnThread)
    (action : TurtleAction π) : (turtle.perform action).OnThread := by
  cases action with
  | rotate axis angle => exact held.of_eq rfl rfl rfl
  | move axis distance => exact held.of_eq rfl rfl rfl
  | save => exact held.save
  | restore => exact held.restore
  | spawn part parameters => exact held.spawn part parameters

/-- However often a turtle does something, its frames stay on a thread. -/
theorem OnThread.performAll {turtle : Turtle π} (held : turtle.OnThread)
    (actions : List (TurtleAction π)) : (turtle.performAll actions).OnThread := by
  induction actions generalizing turtle with
  | nil => exact held
  | cons action actions ih => exact ih (held.perform action)

end Turtle

/-! ## Nodes and their symbols -/

variable [Part π]

namespace Interpretation

variable {interpretation : Interpretation π}

/-- An action that a symbol stands for grows no tree, unless it spawns a part. -/
theorem Does.tree_or_spawn {symbol : Char} {position : Nat} {rest : Text}
    {actions : List (TurtleAction π)} {place : Nat × Text}
    (does : interpretation.Does symbol position rest actions place) :
    (∀ turtle : Turtle π, (turtle.performAll actions).tree = turtle.tree) ∨
      ∃ part parameters, actions = [.spawn part parameters] := by
  cases does with
  | rotate _ _ => exact Or.inl fun _ => rfl
  | draw _ _ _ _ => exact Or.inr ⟨_, _, rfl⟩
  | nothing _ _ _ => exact Or.inl fun _ => rfl
  | push _ => exact Or.inl fun _ => rfl
  | pop _ => exact Or.inl Turtle.tree_restore
  | ignore _ _ => exact Or.inl fun _ => rfl

/-- The turtles that an interpretation comes past stand on a thread. -/
theorem onThread_of_reaches {sequence rest : Text} {turtle : Turtle π} {position : Nat}
    (reached : interpretation.Reaches sequence turtle position rest) : turtle.OnThread := by
  induction reached with
  | start => exact Turtle.onThread_start _
  | act _ acted ih =>
    obtain ⟨actions, _, rfl⟩ := act_eq_ok_iff.mp acted
    exact ih.performAll actions

/-- The position is the byte offset of the text in front of the turtle. -/
theorem exists_append_of_reaches {sequence rest : Text} {turtle : Turtle π} {position : Nat}
    (reached : interpretation.Reaches sequence turtle position rest) :
    ∃ before, sequence = before ++ rest ∧ byteLength before = position := by
  induction reached with
  | start => exact ⟨[], rfl, rfl⟩
  | @act _ _ _ _ symbol rest after _ acted ih =>
    obtain ⟨before, split, length⟩ := ih
    obtain ⟨_, does, _⟩ := act_eq_ok_iff.mp acted
    obtain ⟨list, rfl, place⟩ := does.exists_append
    refine ⟨before ++ symbol :: list, by simp [split], ?_⟩
    rw [byteLength_append, byteLength_cons, length, place]
    omega

/-- On its way through a sequence an interpretation comes to the symbol at a byte offset,
and the symbol spawns this part with these parameters. -/
def DrawnAt (interpretation : Interpretation π) (sequence : Text) (position : Nat) (part : π)
    (parameters : List Float32) : Prop :=
  ∃ before turtle symbol rest place,
    sequence = before ++ symbol :: rest ∧ byteLength before = position ∧
      interpretation.Reaches sequence turtle position (symbol :: rest) ∧
        interpretation.Does symbol position rest [.spawn part parameters] place

/-- What the nodes of a turtle draw comes from symbols that stand one behind the other, in
front of the position that the turtle has come to. -/
theorem exists_drawnAt_of_reaches {sequence rest : Text} {turtle : Turtle π} {position : Nat}
    (reached : interpretation.Reaches sequence turtle position rest) :
    ∃ positions : List Nat, positions.Pairwise (· < ·) ∧ (∀ offset ∈ positions, offset < position) ∧
      List.Forall₂ (fun offset content =>
        interpretation.DrawnAt sequence offset content.1 content.2.1)
          positions turtle.tree.contents := by
  induction reached with
  | start => exact ⟨[], .nil, by simp, .nil⟩
  | @act turtle next position place symbol rest after reached acted ih =>
    obtain ⟨positions, ascending, before, drawn⟩ := ih
    obtain ⟨actions, does, rfl⟩ := act_eq_ok_iff.mp acted
    have further : position < place := by
      obtain ⟨_, _, moved⟩ := does.exists_append
      have := symbol.utf8Size_pos
      omega
    have earlier : ∀ offset ∈ positions, offset < place := fun offset among =>
      Nat.lt_trans (before offset among) further
    rcases does.tree_or_spawn with same | ⟨part, parameters, rfl⟩
    · rw [same]
      exact ⟨positions, ascending, earlier, drawn⟩
    · have here : interpretation.DrawnAt sequence position part parameters := by
        obtain ⟨start, split, length⟩ := exists_append_of_reaches reached
        exact ⟨start, turtle, symbol, rest, _, split, length, reached, does⟩
      refine ⟨positions ++ [position], ?_, ?_, ?_⟩
      · refine List.pairwise_append.mpr ⟨ascending, List.pairwise_singleton _ _, ?_⟩
        intro offset among last found
        obtain rfl : last = position := List.mem_singleton.mp found
        exact before offset among
      · intro offset among
        rcases List.mem_append.mp among with old | last
        · exact earlier offset old
        · obtain rfl : offset = position := List.mem_singleton.mp last
          exact further
      · have tree : (turtle.performAll [.spawn part parameters]).tree.contents =
            turtle.tree.contents ++ [(part, parameters, turtle.frame.transform)] := by
          show (turtle.spawn part parameters).tree.contents = _
          rw [Turtle.tree_spawn, PartTree.contents_add]
        rw [tree]
        exact List.rel_append drawn (.cons here .nil)

end Interpretation

/-- Whatever a turtle does, its tree is numbered in depth-first order, also if it restores
frames that were never saved and if it saved them in front of the first node. So the tree of
a sequence is written node by node in the order of the numbers, each node drawing its numbers
behind those of the nodes before it, and in this order the nodes come from symbols that stand
one behind the other in the sequence. -/
theorem Turtle.depthFirst_performAll :
    (∀ (growthAxis : Vec3) (actions : List (TurtleAction π)),
      ((start growthAxis).performAll actions).tree.depthFirst =
        List.range ((start growthAxis).performAll actions).tree.size) ∧
      ∀ (interpretation : Interpretation π) (sequence : Text) (tree : PartTree π),
        interpretation.tree sequence = .ok tree →
          tree.depthFirst = List.range tree.size ∧
            (∃ positions : List Nat, positions.Pairwise (· < ·) ∧
              List.Forall₂ (fun position node =>
                interpretation.DrawnAt sequence position node.part node.parameters)
                  positions tree.nodes.toList) ∧
            tree.emit = (do
              let patches ← tree.nodes.toList.mapM PartNode.patch
              pure (patches.foldl Mesh.place .empty)) := by
  constructor
  · intro growthAxis actions
    exact ((onThread_start growthAxis).performAll actions).depthFirst
  · intro interpretation sequence tree grown
    obtain ⟨final, place, _, rfl, reached⟩ := Interpretation.exists_reaches_of_tree grown
    have ordered := (Interpretation.onThread_of_reaches reached).depthFirst
    obtain ⟨positions, ascending, _, drawn⟩ := Interpretation.exists_drawnAt_of_reaches reached
    exact ⟨ordered, ⟨positions, ascending, List.forall₂_map_right_iff.mp drawn⟩,
      PartTree.emit_of_depthFirst ordered⟩

/-- A dot that is drawn behind a branch hangs below the root also when the branch began in
front of the first dot, and comes behind the dots of the branch. -/
theorem Turtle.depthFirst_performAll_dots :
    ∃ tree, (((Interpretation.empty none .unitY).withStandardSymbols).register 'A'
        Marker.dot).tree "[AA]A[A]".toList = .ok tree ∧
      tree.depthFirst = [0, 1, 2, 3] ∧ tree.childrenOf 0 = [1, 2] := by
  have size : ((((Interpretation.empty none .unitY).withStandardSymbols).register 'A'
      Marker.dot).tree "[AA]A[A]".toList).map (fun tree => (tree.size, tree.childrenOf 0)) =
        .ok (4, [1, 2]) := by rfl
  obtain ⟨tree, grown, parts⟩ := map_eq_ok_iff.mp size
  obtain ⟨nodes, children⟩ := Prod.mk.inj parts
  have ordered := (depthFirst_performAll.2 _ _ tree grown).1
  rw [nodes] at ordered
  exact ⟨tree, grown, ordered, children⟩

end Arbor
