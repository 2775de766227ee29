import Arbor.Proofs.CheckedTrees

/-!
# What the check of a tree finds

The check keeps the nodes that it still has to visit on a stack, each with its level, and ends with
the first fault that it meets. Here it is compared with three descriptions that know no stack. The
nodes of a tree can be listed in the order in which they are visited, and the check is a walk along
this list. The level of a node is the number of nodes on the way down to it. So a tree passes
exactly if no way down to a leaf is too long and nothing is wrong with any node, and a fault tells
of a node that is in the tree.
-/
namespace Arbor

/-! ## Functions by name -/

namespace Function

/-- The table of functions has each name once. -/
theorem named?_eq_some_iff {name : Text} {function : Function} :
    named? name = some function ↔ ∃ entry ∈ all, entry.1.toList = name ∧ entry.2 = function := by
  constructor
  · intro named
    obtain ⟨entry, among, found⟩ := List.exists_of_findSome?_eq_some named
    split at found
    · next same => exact ⟨entry, among, same, Option.some.inj found⟩
    · cases found
  · have first : ∀ entry ∈ all, named? entry.1.toList = some entry.2 := by decide
    rintro ⟨entry, among, rfl, rfl⟩
    exact first entry among

/-- There is a function with this name that takes so many numbers. -/
def Takes (name : Text) (count : Nat) : Prop :=
  ∃ entry ∈ all, entry.1.toList = name ∧ entry.2.arity = count

/-- What a name takes is the arity of the function with this name. -/
theorem takes_iff {name : Text} {count : Nat} :
    Takes name count ↔ ∃ function, named? name = some function ∧ function.arity = count := by
  constructor
  · rintro ⟨entry, among, same, takes⟩
    exact ⟨entry.2, named?_eq_some_iff.mpr ⟨entry, among, same, rfl⟩, takes⟩
  · rintro ⟨function, named, takes⟩
    obtain ⟨entry, among, same, rfl⟩ := named?_eq_some_iff.mp named
    exact ⟨entry, among, same, takes⟩

/-- A name without a function takes nothing. -/
theorem not_takes_iff {name : Text} : (∀ count, ¬Takes name count) ↔ named? name = none := by
  simp only [takes_iff, Option.eq_none_iff_forall_ne_some]
  constructor
  · intro none function named
    exact none function.arity ⟨function, named, rfl⟩
  · rintro none _ ⟨function, named, _⟩
    exact none function named

end Function

namespace Tree

/-! ## Nodes on their own -/

/-- A node is a number, a name, a negation, an operation or a call. -/
def IsArithmetic : Tree → Prop
  | .number _ | .reference _ | .negation _ | .arithmetic _ _ _ | .call _ _ => True
  | .complement _ | .logical _ _ _ => False

/-- The call at a node, if it is one, is that of a function with as many arguments as it takes. -/
def CallFits : Tree → Prop
  | .call name arguments => Function.Takes name arguments.length
  | .number _ | .reference _ | .negation _ | .arithmetic _ _ _ | .complement _ | .logical _ _ _ =>
    True

/-- Nothing is wrong with a node exactly if it is arithmetic and its call fits. -/
theorem checkNode_eq_ok_iff {node : Tree} :
    node.checkNode = .ok () ↔ node.IsArithmetic ∧ node.CallFits := by
  cases node with
  | call name arguments =>
    rw [checkNode_call_iff, CallFits, Function.takes_iff, IsArithmetic, true_and]
    simp only [eq_comm]
  | _ => simp [checkNode, IsArithmetic, CallFits]

/-- A fault at one level of a node: it is too deep, or something is wrong with it at every level. -/
def checkEntry (entry : Tree × Nat) : Except ExpressionError Unit :=
  if depthLimit < entry.2 then .error (.tooDeep depthLimit) else entry.1.checkNode

/-- Nothing is wrong with a node at a level within the limit. -/
theorem checkEntry_eq_ok_iff {entry : Tree × Nat} :
    checkEntry entry = .ok () ↔ entry.2 ≤ depthLimit ∧ entry.1.checkNode = .ok () := by
  rw [checkEntry]
  split
  · next deep => exact iff_of_false nofun fun passes => absurd deep (Nat.not_lt.mpr passes.1)
  · next fits => exact (and_iff_right (Nat.not_lt.mp fits)).symm

/-! ## The order of the visits -/

mutual

/-- The nodes of a tree whose root is at a level, each with its own level. A node comes in front of
what hangs below it, and of its branches the last one comes first. -/
def visits (level : Nat) : Tree → List (Tree × Nat)
  | .number value => [(.number value, level)]
  | .reference name => [(.reference name, level)]
  | .negation operand => (.negation operand, level) :: operand.visits (level + 1)
  | .arithmetic operation left right =>
    (.arithmetic operation left right, level) ::
      (right.visits (level + 1) ++ left.visits (level + 1))
  | .complement operand => (.complement operand, level) :: operand.visits (level + 1)
  | .logical operator left right =>
    (.logical operator left right, level) :: (right.visits (level + 1) ++ left.visits (level + 1))
  | .call name arguments => (.call name arguments, level) :: visitsOfAll (level + 1) arguments

/-- The nodes of a row of trees at a level, the last tree first. -/
def visitsOfAll (level : Nat) : List Tree → List (Tree × Nat)
  | [] => []
  | tree :: rest => visitsOfAll level rest ++ tree.visits level

end

/-- The nodes of the trees in a list, each of them at a level of its own. -/
def visitsFrom (nodes : List (Tree × Nat)) : List (Tree × Nat) :=
  nodes.flatMap fun entry => entry.1.visits entry.2

theorem visitsOfAll_eq (level : Nat) (trees : List Tree) :
    visitsOfAll level trees = visitsFrom (trees.reverse.map fun tree => (tree, level)) := by
  induction trees with
  | nil => rfl
  | cons tree rest ih => simp [visitsOfAll, visitsFrom, ih]

/-- Behind a node its branches are visited as they are put on the list of the check. -/
theorem visits_eq (level : Nat) (tree : Tree) :
    tree.visits level = (tree, level) :: visitsFrom (tree.pending level) := by
  have row : tree.visits level = (tree, level) :: visitsOfAll (level + 1) tree.children := by
    cases tree <;> simp [visits, children, visitsOfAll]
  rw [row, visitsOfAll_eq, pending]

/-- What is visited of a list begins with the first node in it and goes on with its branches. -/
theorem visitsFrom_cons (tree : Tree) (level : Nat) (rest : List (Tree × Nat)) :
    visitsFrom ((tree, level) :: rest) = (tree, level) :: visitsFrom (tree.pending level ++ rest) := by
  rw [visitsFrom, List.flatMap_cons, visits_eq, List.cons_append]
  exact congrArg _ (List.flatMap_append ..).symm

/-- A visited node is the root at its level or is visited below a child, one level further down. -/
theorem mem_visits {tree node : Tree} {start level : Nat} :
    (node, level) ∈ tree.visits start ↔ node = tree ∧ level = start ∨
      ∃ child ∈ tree.children, (node, level) ∈ child.visits (start + 1) := by
  rw [visits_eq, List.mem_cons, Prod.mk.injEq, visitsFrom, pending]
  refine or_congr_right ?_
  simp only [List.mem_flatMap, List.mem_map, List.mem_reverse]
  constructor
  · rintro ⟨_, ⟨child, below, rfl⟩, visited⟩
    exact ⟨child, below, visited⟩
  · rintro ⟨child, below, visited⟩
    exact ⟨(child, start + 1), ⟨child, below, rfl⟩, visited⟩

/-- The check of a list is a walk along the nodes of its trees in the order of the visits. -/
theorem checkAll_eq_forM (nodes : List (Tree × Nat)) :
    checkAll nodes = (visitsFrom nodes).forM checkEntry := by
  fun_induction checkAll nodes with
  | case1 => rfl
  | case2 tree level rest deep =>
    rw [visitsFrom_cons, List.forM, checkEntry, if_pos deep]
    rfl
  | case3 tree level rest fits fault failed =>
    rw [visitsFrom_cons, List.forM, checkEntry, if_neg fits, failed]
    rfl
  | case4 tree level rest fits root ih =>
    rw [visitsFrom_cons, List.forM, checkEntry, if_neg fits, root, ih]
    rfl

/-- The check of a tree is a walk along its nodes in the order of the visits. -/
theorem check_eq_forM (tree : Tree) : tree.check = (tree.visits 1).forM checkEntry := by
  rw [check, checkAll_eq_forM, visitsFrom, List.flatMap_singleton]

/-! ## The loop of the check -/

/-- What the stack of the check holds behind a node has one node less below it. -/
theorem nodeCountOfAll_pending (tree : Tree) (level : Nat) (rest : List (Tree × Nat)) :
    nodeCountOfAll ((tree.pending level ++ rest).map Prod.fst) + 1 =
      nodeCountOfAll (((tree, level) :: rest).map Prod.fst) := by
  have same : (tree.pending level).map Prod.fst = tree.children.reverse := by
    simp [pending, Function.comp_def]
  have below := nodeCountOfAll_children tree
  simp only [List.map_append, List.map_cons, nodeCountOfAll_append, nodeCountOfAll, same,
    nodeCountOfAll_reverse]
  omega

/-- The loop of the check with a stack whose top is its last entry, for at most `count` turns. A
turn takes the top off and puts the operands of its node on, the last one on top. There is no answer
if the loop has not ended by then. -/
def checkLoop : Nat → Array (Tree × Nat) → Option (Except ExpressionError Unit)
  | 0, _ => none
  | count + 1, stack =>
    match stack.back? with
    | none => some (.ok ())
    | some (tree, level) =>
      if depthLimit < level then
        some (.error (.tooDeep depthLimit))
      else
        match tree.checkNode with
        | .error fault => some (.error fault)
        | .ok () =>
          checkLoop count (stack.pop ++ (tree.children.map fun child => (child, level + 1)).toArray)

/-- The loop ends with the answer of the check if it may make one turn more than there are nodes in
the trees on the stack. Every turn but the last one takes a node away. -/
theorem checkLoop_eq {count : Nat} {nodes : List (Tree × Nat)}
    (enough : nodeCountOfAll (nodes.map Prod.fst) < count) :
    checkLoop count nodes.reverse.toArray = some (checkAll nodes) := by
  induction count generalizing nodes with
  | zero => omega
  | succ count ih =>
    cases nodes with
    | nil => rw [checkAll]; rfl
    | cons entry rest =>
      obtain ⟨tree, level⟩ := entry
      have top : ((tree, level) :: rest).reverse.toArray.back? = some (tree, level) := by simp
      have next : ((tree, level) :: rest).reverse.toArray.pop ++
          (tree.children.map fun child => (child, level + 1)).toArray =
            (tree.pending level ++ rest).reverse.toArray := by
        simp [pending]
      rw [checkLoop, top]
      dsimp only
      rw [next, checkAll]
      by_cases deep : depthLimit < level
      · rw [if_pos deep, if_pos deep]
      · rw [if_neg deep, if_neg deep]
        cases tree.checkNode with
        | error fault => rfl
        | ok _ =>
          have fewer := nodeCountOfAll_pending tree level rest
          exact ih (by omega)

/-! ## Ways down a tree -/

/-- The nodes on the way from the root of a tree down to a node, with both of them. -/
inductive Way : Tree → List Tree → Tree → Prop
  | root (tree : Tree) : Way tree [tree] tree
  | down {tree child node : Tree} {path : List Tree} :
    child ∈ tree.children → Way child path node → Way tree (tree :: path) node

/-- A child has less nodes than the tree that it hangs below. -/
theorem nodeCount_lt_of_mem_children {tree child : Tree} (below : child ∈ tree.children) :
    child.nodeCount < tree.nodeCount := by
  obtain ⟨before, after, split⟩ := List.append_of_mem below
  have whole := nodeCountOfAll_children tree
  rw [split, nodeCountOfAll_append, nodeCountOfAll] at whole
  omega

/-- What every tree has whose children have it, all trees have. -/
@[elab_as_elim]
theorem induction_on_children {motive : Tree → Prop}
    (step : ∀ tree : Tree, (∀ child ∈ tree.children, motive child) → motive tree) (tree : Tree) :
    motive tree :=
  step tree fun child below =>
    have := nodeCount_lt_of_mem_children below
    induction_on_children step child
termination_by tree.nodeCount

/-- The level at which a node is visited is the number of nodes on a way down to it. -/
theorem mem_visits_iff {tree node : Tree} {start level : Nat} :
    (node, level) ∈ tree.visits start ↔
      ∃ path, Way tree path node ∧ level + 1 = start + path.length := by
  induction tree using induction_on_children generalizing start with
  | step tree ih =>
    rw [mem_visits]
    constructor
    · rintro (⟨rfl, rfl⟩ | ⟨child, below, visited⟩)
      · exact ⟨[node], .root node, rfl⟩
      · obtain ⟨path, way, deep⟩ := (ih child below).mp visited
        exact ⟨tree :: path, .down below way, by rw [List.length_cons]; omega⟩
    · rintro ⟨path, way, deep⟩
      cases way with
      | root => exact .inl ⟨rfl, by simpa using deep⟩
      | @down _ child _ path below way =>
        rw [List.length_cons] at deep
        exact .inr ⟨child, below, (ih child below).mpr ⟨path, way, by omega⟩⟩

/-- The nodes of a tree are those to which there is a way. -/
theorem mem_nodes_iff_way {tree node : Tree} :
    node ∈ tree.nodes ↔ ∃ path, Way tree path node := by
  constructor
  · induction tree using induction_on_children with
    | step tree ih =>
      intro within
      rcases mem_nodes.mp within with rfl | ⟨child, below, within⟩
      · exact ⟨[node], .root node⟩
      · obtain ⟨path, way⟩ := ih child below within
        exact ⟨tree :: path, .down below way⟩
  · rintro ⟨path, way⟩
    induction way with
    | root tree => exact mem_nodes.mpr (.inl rfl)
    | down below _ ih => exact mem_nodes.mpr (.inr ⟨_, below, ih⟩)

/-- From every node a way goes on to a leaf. -/
theorem Way.exists_leaf {tree node : Tree} {path : List Tree} (way : Way tree path node) :
    ∃ longer leaf, Way tree longer leaf ∧ leaf.children = [] ∧ path.length ≤ longer.length := by
  induction way with
  | root tree =>
    induction tree using induction_on_children with
    | step tree ih =>
      cases branches : tree.children with
      | nil => exact ⟨[tree], tree, .root tree, branches, Nat.le_refl 1⟩
      | cons child rest =>
        have below : child ∈ tree.children := branches ▸ List.mem_cons_self
        obtain ⟨longer, leaf, way, bare, _⟩ := ih child below
        exact ⟨tree :: longer, leaf, .down below way, bare, Nat.succ_le_succ (Nat.zero_le _)⟩
  | @down tree child _ _ below _ ih =>
    obtain ⟨longer, leaf, way, bare, grows⟩ := ih
    exact ⟨tree :: longer, leaf, .down below way, bare, Nat.succ_le_succ grows⟩

/-! ## What the check finds -/

/-- A tree passes exactly if no way down to a leaf has too many nodes, all nodes are arithmetic and
all calls fit. -/
theorem check_eq_ok_iff {tree : Tree} :
    tree.check = .ok () ↔
      (∀ path leaf, Way tree path leaf → leaf.children = [] → path.length ≤ depthLimit) ∧
        ∀ node ∈ tree.nodes, node.IsArithmetic ∧ node.CallFits := by
  simp only [check_eq_forM, forM_eq_ok_iff, checkEntry_eq_ok_iff, checkNode_eq_ok_iff,
    Prod.forall, mem_visits_iff]
  constructor
  · intro passes
    refine ⟨fun path leaf way _ => ?_, fun node within => ?_⟩
    · exact (passes leaf path.length ⟨path, way, Nat.add_comm _ _⟩).1
    · obtain ⟨path, way⟩ := mem_nodes_iff_way.mp within
      exact (passes node path.length ⟨path, way, Nat.add_comm _ _⟩).2
  · rintro ⟨short, proper⟩ node level ⟨path, way, deep⟩
    refine ⟨?_, proper node (mem_nodes_iff_way.mpr ⟨path, way⟩)⟩
    obtain ⟨longer, leaf, down, bare, grows⟩ := way.exists_leaf
    have bounded := short longer leaf down bare
    omega

/-- What is said by a fault of the check holds of some node of a tree: it is too far down, it is no
arithmetic, or it is a call that does not fit. -/
def Describes (tree : Tree) : ExpressionError → Prop
  | .tooDeep limit =>
    limit = depthLimit ∧ ∃ path node, Way tree path node ∧ depthLimit < path.length
  | .notArithmetic => ∃ node ∈ tree.nodes, ¬node.IsArithmetic
  | .unknownFunction name =>
    ∃ arguments, .call name arguments ∈ tree.nodes ∧ ∀ count, ¬Function.Takes name count
  | .arity name expected found =>
    ∃ arguments, .call name arguments ∈ tree.nodes ∧ arguments.length = found ∧
      Function.Takes name expected ∧ found ≠ expected
  | .empty | .unexpectedEnd | .unexpectedToken _ | .tooLarge _ | .unknownName _ | .nonFinite _ =>
    False

/-- What is wrong with a node of a tree is something that the fault says of the tree. -/
theorem describes_of_checkNode {tree node : Tree} (within : node ∈ tree.nodes)
    {fault : ExpressionError} (failed : node.checkNode = .error fault) : tree.Describes fault := by
  cases node with
  | number value => cases failed
  | reference name => cases failed
  | negation operand => cases failed
  | arithmetic operation left right => cases failed
  | complement operand =>
    obtain rfl := Except.error.inj failed
    exact ⟨_, within, id⟩
  | logical operator left right =>
    obtain rfl := Except.error.inj failed
    exact ⟨_, within, id⟩
  | call name arguments =>
    rw [checkNode] at failed
    split at failed
    · next named =>
      obtain rfl := Except.error.inj failed
      exact ⟨arguments, within, Function.not_takes_iff.mpr named⟩
    · next function named =>
      split at failed
      · cases failed
      · next other =>
        obtain rfl := Except.error.inj failed
        exact ⟨arguments, within, rfl, Function.takes_iff.mpr ⟨function, named, rfl⟩, other⟩

/-- A fault of the check is that of the first faulty node in the order of the visits, so it tells of
a node of the tree. -/
theorem describes_of_check {tree : Tree} {fault : ExpressionError}
    (failed : tree.check = .error fault) : tree.Describes fault := by
  rw [check_eq_forM, forM_eq_error_iff] at failed
  obtain ⟨before, ⟨node, level⟩, after, split, _, failed⟩ := failed
  have visited : (node, level) ∈ tree.visits 1 := by simp [split]
  obtain ⟨path, way, deep⟩ := mem_visits_iff.mp visited
  rw [checkEntry] at failed
  split at failed
  · next below =>
    obtain rfl := Except.error.inj failed
    exact ⟨rfl, path, node, way, by dsimp only at below; omega⟩
  · exact describes_of_checkNode (mem_nodes_iff_way.mpr ⟨path, way⟩) failed

/-- The loop of the check ends with its answer, in at most one turn more than there are nodes. A tree
passes exactly if every way down to a leaf has at most `depthLimit` nodes, all nodes are arithmetic
and all calls are those of functions with as many arguments as they take. If it does not pass, the
fault that is reported is there. -/
theorem check_exactly (tree : Tree) :
    (∀ count, tree.nodeCount < count → checkLoop count #[(tree, 1)] = some tree.check) ∧
      (tree.check = .ok () ↔
        (∀ path leaf, Way tree path leaf → leaf.children = [] → path.length ≤ depthLimit) ∧
          ∀ node ∈ tree.nodes, node.IsArithmetic ∧ node.CallFits) ∧
      ∀ fault, tree.check = .error fault → tree.Describes fault := by
  refine ⟨fun count enough => ?_, check_eq_ok_iff, fun fault => describes_of_check⟩
  have single : nodeCountOfAll ([(tree, 1)].map Prod.fst) = tree.nodeCount := by
    simp [nodeCountOfAll]
  exact checkLoop_eq (single ▸ enough)

/-- Of two calls with something wrong the one on the right is reported, also below a sign. -/
theorem check_exactly_two_faults :
    ∃ tree : Tree, tree.nodeCount < 7 ∧ tree.check = .error (.arity "min".toList 2 1) ∧
      tree.Describes (.arity "min".toList 2 1) := by
  let tree : Tree := .arithmetic .sum (.call "sine".toList [.reference ['x']])
    (.negation (.call "min".toList [.reference ['x']]))
  obtain ⟨ends, _, describes⟩ := check_exactly tree
  have few : tree.nodeCount < 7 := by decide
  have reported : tree.check = .error (.arity "min".toList 2 1) :=
    Option.some.inj ((ends 7 few).symm.trans rfl)
  exact ⟨tree, few, reported, describes _ reported⟩

end Tree

end Arbor
