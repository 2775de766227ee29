import Arbor.Proofs.Conjunctions
import Arbor.Proofs.NamesInScope

/-!
# Scopes that agree

The evaluation of a tree asks its scope for the names that occur in the tree and for nothing else.
So of two scopes that give these names the same values, or both none, neither can be told from the
other by an outcome: not by the result, not by the fault, and not by the generator that is left
behind. Which binding or constant gave a value plays no part, and neither does what else is bound.

Words are taken from the generator by calls of `rnd` only. Without such a call the result is the
same for all generators, and each is left as it was.
-/
namespace Arbor

/-! ## Agreement -/

namespace Scope

variable {scope other : Scope} {names more : List Text}

/-- Two scopes give each of several names the same value, or both give it none. -/
def Agree (scope other : Scope) (names : List Text) : Prop :=
  ∀ name ∈ names, scope.lookup name = other.lookup name

/-- Agreement on two rows of names is agreement on each of them. -/
theorem agree_append : Agree scope other (names ++ more) ↔
    Agree scope other names ∧ Agree scope other more :=
  List.forall_mem_append

end Scope

/-! ## Trees -/

namespace Tree

variable {scope other : Scope}

mutual

/-- A tree is evaluated alike in scopes that agree on the names that occur in it. -/
theorem evaluate_congr {tree : Tree} (agree : scope.Agree other tree.names) :
    tree.evaluate scope = tree.evaluate other := by
  cases tree with
  | number value => rfl
  | reference name =>
    have same : scope.lookup name = other.lookup name := agree name List.mem_cons_self
    rw [evaluate, evaluate, same]
  | negation operand =>
    have below : operand.evaluate scope = operand.evaluate other := evaluate_congr agree
    rw [evaluate, evaluate, below]
  | arithmetic operation left right =>
    obtain ⟨agree_left, agree_right⟩ := Scope.agree_append.mp agree
    have first : left.evaluate scope = left.evaluate other := evaluate_congr agree_left
    have second : right.evaluate scope = right.evaluate other := evaluate_congr agree_right
    rw [evaluate, evaluate, first, second]
  | complement operand => rfl
  | logical operator left right => rfl
  | call name arguments =>
    have below : evaluateAll scope arguments = evaluateAll other arguments :=
      evaluateAll_congr agree
    rw [evaluate, evaluate, below]

/-- A row of trees is evaluated alike in scopes that agree on the names that occur in it. -/
theorem evaluateAll_congr {trees : List Tree} (agree : scope.Agree other (namesOfAll trees)) :
    evaluateAll scope trees = evaluateAll other trees := by
  cases trees with
  | nil => rfl
  | cons tree rest =>
    obtain ⟨agree_here, agree_later⟩ := Scope.agree_append.mp agree
    have first : tree.evaluate scope = tree.evaluate other := evaluate_congr agree_here
    have second : evaluateAll scope rest = evaluateAll other rest := evaluateAll_congr agree_later
    rw [evaluateAll, evaluateAll, first, second]

end

end Tree

/-! ## Expressions -/

namespace Expression

/-- An expression is evaluated alike in scopes that agree on its free names. -/
theorem evaluate_congr {expression : Expression} {scope other : Scope}
    (agree : scope.Agree other expression.freeNames) :
    expression.evaluate scope = expression.evaluate other := by
  have occurring : scope.Agree other expression.tree.names :=
    fun name occurs => agree name (mem_freeNames.mpr occurs)
  rw [evaluate, evaluate, Tree.evaluate_congr occurring]

/-- Two scopes that give every free name of an expression the same value, or both none, lead to the
same outcomes: to the same value or fault and to the same generator behind it, or with both to a
number that cannot be drawn. If the expression has no call of `rnd`, then there is one result for
both scopes and all generators, and each generator is left untouched. -/
theorem outcome_of_agree (expression : Expression) {scope other : Scope}
    (agree : ∀ name ∈ expression.freeNames, scope.lookup name = other.lookup name) :
    (∀ generator, (expression.evaluate scope).outcome generator =
        (expression.evaluate other).outcome generator) ∧
      (expression.tree.Drawless → ∃ result, ∀ generator,
        (expression.evaluate scope).outcome generator = some (result, generator) ∧
          (expression.evaluate other).outcome generator = some (result, generator)) := by
  have same : expression.evaluate scope = expression.evaluate other := evaluate_congr agree
  refine ⟨fun generator => by rw [same], fun drawless => ?_⟩
  obtain ⟨result, evaluated⟩ := exists_result_of_drawless scope drawless
  have ended (generator : Generator) :
      (expression.evaluate scope).outcome generator = some (result, generator) := by
    rw [evaluated]
    exact Attempt.outcome_ofExcept result generator
  exact ⟨result, fun generator => ⟨ended generator, same ▸ ended generator⟩⟩

/-- The bindings may stand in another order, be shadowed and be joined by others, and a constant
may stand in for a binding. -/
theorem outcome_of_agree_shadowed :
    let scope : Scope := ⟨[("x".toList, 1), ("y".toList, 3)], .ofList [("k".toList, 2)]⟩
    let other : Scope := ⟨[("k".toList, 2), ("z".toList, 8), ("x".toList, 1), ("x".toList, 7)],
      .ofList [("k".toList, 9), ("y".toList, 3)]⟩
    (∃ expression, compile "rnd(x,4)*k+y-PI".toList = .ok expression ∧
      (∀ name ∈ expression.freeNames, scope.lookup name = other.lookup name) ∧
      ∀ generator, (expression.evaluate scope).outcome generator =
        (expression.evaluate other).outcome generator) ∧
    ∃ expression, compile "max(x,k)^y+w".toList = .ok expression ∧
      (∀ name ∈ expression.freeNames, scope.lookup name = other.lookup name) ∧
      expression.tree.Drawless ∧ ∃ result, ∀ generator,
        (expression.evaluate other).outcome generator = some (result, generator) := by
  intro scope other
  have agreed : ∀ text ∈ ["rnd(x,4)*k+y-PI".toList, "max(x,k)^y+w".toList],
      ((compile text).map fun expression => decide (∀ name ∈ expression.freeNames,
        scope.lookup name = other.lookup name)) = .ok true := by
    decide +kernel
  have drawless : (compile "max(x,k)^y+w".toList).map (fun expression =>
      decide expression.tree.Drawless) = .ok true := by
    decide +kernel
  constructor
  · obtain ⟨expression, compiled, agree⟩ := map_eq_ok_iff.mp (agreed _ List.mem_cons_self)
    have agree := of_decide_eq_true agree
    exact ⟨expression, compiled, agree, (outcome_of_agree expression agree).1⟩
  · have listed := agreed "max(x,k)^y+w".toList (List.mem_cons_of_mem _ List.mem_cons_self)
    obtain ⟨expression, compiled, agree⟩ := map_eq_ok_iff.mp listed
    have agree := of_decide_eq_true agree
    rw [compiled] at drawless
    have drawless := of_decide_eq_true (Except.ok.inj drawless)
    obtain ⟨result, ended⟩ := (outcome_of_agree expression agree).2 drawless
    exact ⟨expression, compiled, agree, drawless, result, fun generator => (ended generator).2⟩

end Expression

end Arbor
