import Arbor.Proofs.PartTrees

/-!
# Depth-first order

The nodes of a tree are visited from a list of nodes that wait: the first of them is
visited, and its children are put in front of the others. A walk is a part of such a visit.

A tree whose nodes are numbered in depth-first order stays one when a node is added, but
only below a node that is still open: a walk that begins there comes past all later nodes and
leaves nothing to visit. A thread is a path from the root through open nodes, given from
its lower end. From each node of it a walk comes past the nodes in between to the next one,
with nothing else that waits, and the last one leads to the end of the tree. So a thread
can be cut at its lower end and go on with a new node there.
-/
namespace Arbor.PartTree

variable {π : Type} {tree other : PartTree π}

/-! ## Walks -/

/-- From the nodes that wait first a walk comes past some nodes in order, and then others
wait. -/
inductive Walks (tree : PartTree π) : List Nat → List Nat → List Nat → Prop
  | stay (waiting : List Nat) : Walks tree waiting [] waiting
  | visit {id : Nat} {waiting visited left : List Nat} :
    Walks tree (tree.childrenOf id ++ waiting) visited left →
      Walks tree (id :: waiting) (id :: visited) left

namespace Walks

variable {waiting visited left : List Nat}

/-- Nodes that wait behind the others are not reached. -/
theorem append (walk : tree.Walks waiting visited left) (behind : List Nat) :
    tree.Walks (waiting ++ behind) visited (left ++ behind) := by
  induction walk with
  | stay waiting => exact .stay _
  | visit _ ih =>
    rw [List.append_assoc] at ih
    exact .visit ih

/-- A walk goes on where another one ended. -/
theorem trans {later last : List Nat} (first : tree.Walks waiting visited left)
    (second : tree.Walks left later last) : tree.Walks waiting (visited ++ later) last := by
  induction first with
  | stay waiting => exact second
  | visit _ ih => exact .visit (ih second)

/-- Only the children of the nodes that a walk comes past count. -/
theorem congr (walk : tree.Walks waiting visited left)
    (same : ∀ id ∈ visited, other.childrenOf id = tree.childrenOf id) :
    other.Walks waiting visited left := by
  induction walk with
  | stay waiting => exact .stay waiting
  | visit _ ih =>
    obtain ⟨here, later⟩ := List.forall_mem_cons.mp same
    refine .visit ?_
    rw [here]
    exact ih later

/-- A walk that leaves nothing is what a visit comes past, with any number of steps that is
large enough. -/
theorem visit_eq (walk : tree.Walks waiting visited []) {count : Nat}
    (enough : visited.length ≤ count) : tree.visit count waiting = visited := by
  generalize ended : ([] : List Nat) = left at walk
  induction walk generalizing count with
  | stay waiting =>
    subst ended
    cases count <;> rfl
  | visit _ ih =>
    cases count with
    | zero => cases enough
    | succ count => rw [PartTree.visit, ih (Nat.le_of_succ_le_succ enough) ended]

end Walks

/-! ## Numbers in a row -/

/-- A walk from one node comes past it and all later ones in front of `stop`. -/
def Leads (tree : PartTree π) (node stop : Nat) (left : List Nat) : Prop :=
  node ≤ stop ∧ tree.Walks [node] (List.range' node (stop - node)) left

namespace Leads

variable {node stop : Nat} {left : List Nat}

/-- A node waits for itself. -/
theorem refl (tree : PartTree π) (node : Nat) : tree.Leads node node [node] :=
  ⟨Nat.le_refl node, by rw [Nat.sub_self]; exact .stay [node]⟩

/-- A walk to a node goes on with a walk from it. -/
theorem trans {between : Nat} (first : tree.Leads node between [between])
    (second : tree.Leads between stop left) : tree.Leads node stop left := by
  obtain ⟨before, walk⟩ := first
  obtain ⟨after, rest⟩ := second
  refine ⟨Nat.le_trans before after, ?_⟩
  have row : List.range' node (stop - node) =
      List.range' node (between - node) ++ List.range' between (stop - between) := by
    have start : node + (between - node) = between := Nat.add_sub_cancel' before
    have whole : (between - node) + (stop - between) = stop - node := by omega
    rw [← whole, ← List.range'_append_1, start]
  rw [row]
  exact walk.trans rest

/-- A walk that leaves nothing comes past the node that it begins with. -/
theorem lt (leads : tree.Leads node stop []) : node < stop := by
  obtain ⟨before, walk⟩ := leads
  refine Nat.lt_of_le_of_ne before ?_
  rintro rfl
  rw [Nat.sub_self] at walk
  cases walk

/-- Only the children of nodes in front of `stop` count. -/
theorem congr (leads : tree.Leads node stop left)
    (same : ∀ id < stop, other.childrenOf id = tree.childrenOf id) :
    other.Leads node stop left := by
  obtain ⟨before, walk⟩ := leads
  refine ⟨before, walk.congr fun id among => same id ?_⟩
  have within := (List.mem_range'_1.mp among).2
  omega

/-- A node that got one more child at the end leads to this child. -/
theorem extend (leads : tree.Leads node stop [])
    (here : other.childrenOf node = tree.childrenOf node ++ [stop])
    (same : ∀ id, node < id → other.childrenOf id = tree.childrenOf id) :
    other.Leads node stop [stop] := by
  have below := leads.lt
  refine ⟨Nat.le_of_lt below, ?_⟩
  obtain ⟨_, walk⟩ := leads
  obtain ⟨length, row⟩ : ∃ length, stop - node = length + 1 := ⟨stop - node - 1, by omega⟩
  rw [row, List.range'_succ] at walk ⊢
  cases walk with
  | visit walk =>
    rw [List.append_nil] at walk
    have behind : other.Walks (tree.childrenOf node) (List.range' (node + 1) length) [] := by
      refine walk.congr fun id among => same id ?_
      exact (List.mem_range'_1.mp among).1
    refine .visit ?_
    rw [here, List.append_nil]
    exact behind.append [stop]

end Leads

/-- A tree that a walk from its root comes past in the order of the numbers is in
depth-first order. More visits than it has nodes find nothing else. -/
theorem visit_of_leads (leads : tree.Leads 0 tree.size []) {count : Nat}
    (enough : tree.size ≤ count) : tree.visit count tree.root?.toList = List.range tree.size := by
  have grown : tree.size ≠ 0 := Nat.ne_of_gt leads.lt
  have length : (List.range' 0 (tree.size - 0)).length ≤ count := by
    rw [List.length_range']
    exact enough
  rw [root?_eq, if_neg grown, Option.toList_some, List.range_eq_range']
  exact leads.2.visit_eq length

/-! ## Threads -/

/-- The nodes of a path from the root, the lowest one first: each leads to the one before it,
and the lowest one to `stop`. -/
def Threaded (tree : PartTree π) (stop : Nat) (left : List Nat) : List Nat → Prop
  | [] => tree.Leads 0 stop left
  | node :: nodes => tree.Leads node stop left ∧ tree.Threaded node [node] nodes

namespace Threaded

variable {stop : Nat} {left nodes : List Nat}

/-- A thread that ends at a node goes on with a walk from it. -/
theorem trans {node : Nat} (threaded : tree.Threaded node [node] nodes)
    (leads : tree.Leads node stop left) : tree.Threaded stop left nodes := by
  cases nodes with
  | nil => exact Leads.trans threaded leads
  | cons above nodes => exact ⟨threaded.1.trans leads, threaded.2⟩

/-- A thread is cut at its lower end. -/
theorem tail {node : Nat} (threaded : tree.Threaded stop left (node :: nodes)) :
    tree.Threaded stop left nodes :=
  threaded.2.trans threaded.1

/-- A thread begins at the root. -/
theorem leads (threaded : tree.Threaded stop left nodes) : tree.Leads 0 stop left := by
  induction nodes with
  | nil => exact threaded
  | cons node nodes ih => exact ih threaded.tail

/-- Only the children of nodes in front of `stop` count. -/
theorem congr (threaded : tree.Threaded stop left nodes)
    (same : ∀ id < stop, other.childrenOf id = tree.childrenOf id) :
    other.Threaded stop left nodes := by
  induction nodes generalizing stop left with
  | nil => exact Leads.congr threaded same
  | cons node nodes ih =>
    obtain ⟨here, above⟩ := threaded
    refine ⟨here.congr same, ih above fun id before => same id ?_⟩
    exact Nat.lt_of_lt_of_le before here.1

/-- The root may stand on a thread any number of times. -/
theorem replicate_zero (tree : PartTree π) (count : Nat) :
    tree.Threaded 0 [0] (List.replicate count 0) := by
  induction count with
  | zero => exact Leads.refl tree 0
  | succ count ih => exact ⟨Leads.refl tree 0, ih⟩

/-- A thread goes on with a node that is added below its lower end. -/
theorem add {node : Nat} (threaded : tree.Threaded tree.size [] (node :: nodes))
    {parent : Option Nat} (asked : parent.getD 0 = node) (part : π)
    (parameters : List Float32) (transform : Matrix) :
    (tree.add parent part parameters transform).Threaded
      (tree.add parent part parameters transform).size [] (tree.size :: nodes) := by
  obtain ⟨lowest, above⟩ := threaded
  have present : node < tree.size := lowest.lt
  have attached : tree.attachment parent = some node := by
    rw [← asked] at present ⊢
    exact attachment_of_lt present
  have children := childrenOf_add attached present part parameters transform
  have linked : (tree.add parent part parameters transform).childrenOf node =
      tree.childrenOf node ++ [tree.size] := by rw [children, if_pos rfl]
  have kept (id : Nat) (different : node ≠ id) :
      (tree.add parent part parameters transform).childrenOf id = tree.childrenOf id := by
    rw [children, if_neg different]
  have alone : (tree.add parent part parameters transform).Leads tree.size
      (tree.add parent part parameters transform).size [] := by
    rw [size_add]
    refine ⟨Nat.le_succ _, ?_⟩
    rw [Nat.add_sub_cancel_left, List.range'_one]
    refine .visit ?_
    rw [kept _ (Nat.ne_of_lt present), childrenOf_of_le (Nat.le_refl _)]
    exact .stay []
  have before : (tree.add parent part parameters transform).Threaded node [node] nodes :=
    above.congr fun id earlier => kept id (Nat.ne_of_gt earlier)
  have to_new := lowest.extend linked fun id later => kept id (Nat.ne_of_lt later)
  exact ⟨alone, before.trans to_new⟩

end Threaded

end Arbor.PartTree
