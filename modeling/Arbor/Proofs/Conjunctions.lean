import Arbor.Guard
import Arbor.Proofs.Attempts
import Arbor.Proofs.CheckedTrees
import Arbor.Proofs.Pieces

/-!
# Guards as conjunctions

A guard is read as a whole, and one conjunct that cannot be read spoils all of it. Its comparisons
are evaluated one after the other up to the first that does not hold or has a fault. So a guard
does not hold for reasons that depend on the order of its conjuncts. Whether it holds does not: if
no conjunct calls `rnd`, each has a verdict of its own that no generator plays a part in, and the
verdict on guards that are joined by ampersands is the conjunction of their verdicts.
-/
namespace Arbor

open Text

/-! ## Results without a draw -/

namespace Attempt

variable {ε α β : Type}

/-- No draw is made in a sequence of attempts without a draw. -/
theorem exists_ofExcept_bind {attempt : Attempt ε α} {next : α → Attempt ε β}
    (first : ∃ result, attempt = ofExcept result)
    (second : ∀ value, ∃ result, next value = ofExcept result) :
    ∃ result, attempt >>= next = ofExcept result := by
  obtain ⟨result, rfl⟩ := first
  cases result with
  | error fault => exact ⟨.error fault, rfl⟩
  | ok value => exact second value

end Attempt

/-! ## Expressions that do not draw -/

/-- Of all functions only `rnd` may draw. -/
theorem Function.exists_pure_of_ne_rnd {function : Function} {values : List Float}
    {result : Draw Float} (other : function ≠ .binary .rnd)
    (applied : function.applyTo? values = some result) : ∃ value, result = pure value := by
  match function, values, applied with
  | .unary function, [a], rfl => exact ⟨function.apply a, rfl⟩
  | .binary .rnd, [_, _], rfl => exact absurd rfl other
  | .binary .min, [a, b], rfl => exact ⟨minimum a b, rfl⟩
  | .binary .max, [a, b], rfl => exact ⟨maximum a b, rfl⟩
  | .binary .pow, [a, b], rfl => exact ⟨Float.pow a b, rfl⟩
  | .binary .mod, [a, b], rfl => exact ⟨remainder a b, rfl⟩
  | .binary .atan2, [a, b], rfl => exact ⟨Float.atan2 a b, rfl⟩

/-- The function that draws has one name. -/
theorem Function.eq_rnd_of_named? {name : Text}
    (named : Function.named? name = some (.binary .rnd)) : name = "rnd".toList := by
  have only : ∀ entry ∈ all, entry.2 = .binary .rnd → entry.1 = "rnd" := by decide
  obtain ⟨entry, among, found⟩ := List.exists_of_findSome?_eq_some named
  split at found
  · next same =>
    rw [← same, only entry among (Option.some.inj found)]
  · cases found

namespace Tree

/-- A node is a call of `rnd`. -/
def CallsRnd : Tree → Prop
  | .call name _ => name = "rnd".toList
  | .number _ | .reference _ | .negation _ | .arithmetic _ _ _ | .complement _ | .logical _ _ _ =>
    False

instance : DecidablePred CallsRnd
  | .call name _ => inferInstanceAs (Decidable (name = "rnd".toList))
  | .number _ | .reference _ | .negation _ | .arithmetic _ _ _ | .complement _ | .logical _ _ _ =>
    isFalse id

/-- There is no call of `rnd` in a tree. -/
def Drawless (tree : Tree) : Prop :=
  ∀ node ∈ tree.nodes, ¬node.CallsRnd

instance (tree : Tree) : Decidable tree.Drawless :=
  inferInstanceAs (Decidable (∀ node ∈ tree.nodes, ¬node.CallsRnd))

/-- What hangs below a tree without such calls has none. -/
theorem Drawless.children {tree : Tree} (drawless : tree.Drawless) :
    ∀ child ∈ tree.children, child.Drawless :=
  fun child below node within => drawless node (mem_nodes.mpr (.inr ⟨child, below, within⟩))

mutual

/-- A tree without calls of `rnd` has the same result for all generators. -/
theorem Drawless.exists_result (scope : Scope) {tree : Tree} (drawless : tree.Drawless) :
    ∃ result, tree.evaluate scope = .ofExcept result := by
  cases tree with
  | number value => exact ⟨.ok value, rfl⟩
  | reference name =>
    rw [evaluate]
    cases scope.lookup name with
    | none => exact ⟨.error (.unknownName name), rfl⟩
    | some value => exact ⟨.ok value, rfl⟩
  | negation operand =>
    have below := Drawless.exists_result scope (drawless.children operand List.mem_cons_self)
    exact Attempt.exists_ofExcept_bind below fun value => ⟨.ok (-value), rfl⟩
  | arithmetic operation left right =>
    have first := Drawless.exists_result scope (drawless.children left List.mem_cons_self)
    have second := Drawless.exists_result scope
      (drawless.children right (List.mem_cons_of_mem left List.mem_cons_self))
    exact Attempt.exists_ofExcept_bind first fun a =>
      Attempt.exists_ofExcept_bind second fun b => ⟨.ok (operation.apply a b), rfl⟩
  | complement operand => exact ⟨.error .notArithmetic, rfl⟩
  | logical operator left right => exact ⟨.error .notArithmetic, rfl⟩
  | call name arguments =>
    have below := exists_result_of_all scope drawless.children
    rw [evaluate]
    cases named : Function.named? name with
    | none => exact ⟨.error (.unknownFunction name), rfl⟩
    | some function =>
      have other : function ≠ .binary .rnd := by
        rintro rfl
        exact drawless (.call name arguments) (mem_nodes.mpr (.inl rfl))
          (Function.eq_rnd_of_named? named)
      refine Attempt.exists_ofExcept_bind below fun values => ?_
      cases applied : function.applyTo? values with
      | none => exact ⟨.error (.arity name function.arity values.length), rfl⟩
      | some draw =>
        obtain ⟨value, rfl⟩ := Function.exists_pure_of_ne_rnd other applied
        exact ⟨.ok value, rfl⟩

/-- A row of trees without calls of `rnd` has the same result for all generators. -/
theorem exists_result_of_all (scope : Scope) {trees : List Tree}
    (drawless : ∀ tree ∈ trees, tree.Drawless) :
    ∃ result, evaluateAll scope trees = .ofExcept result := by
  cases trees with
  | nil => exact ⟨.ok [], rfl⟩
  | cons tree rest =>
    obtain ⟨here, later⟩ := List.forall_mem_cons.mp drawless
    have first := Drawless.exists_result scope here
    have second := exists_result_of_all scope later
    exact Attempt.exists_ofExcept_bind first fun value =>
      Attempt.exists_ofExcept_bind second fun values => ⟨.ok (value :: values), rfl⟩

end

end Tree

/-- The result of an expression without calls of `rnd` is the same for all generators. -/
theorem Expression.exists_result_of_drawless {expression : Expression} (scope : Scope)
    (drawless : expression.tree.Drawless) :
    ∃ result, expression.evaluate scope = .ofExcept result := by
  refine Attempt.exists_ofExcept_bind (drawless.exists_result scope) fun value => ?_
  split
  · exact ⟨.ok value, rfl⟩
  · exact ⟨.error (.nonFinite expression.source), rfl⟩

/-! ## Guards that do not draw -/

/-- There is no call of `rnd` on either side of a comparison. -/
def Comparison.Drawless (comparison : Comparison) : Prop :=
  comparison.lhs.tree.Drawless ∧ comparison.rhs.tree.Drawless

instance (comparison : Comparison) : Decidable comparison.Drawless :=
  inferInstanceAs (Decidable (_ ∧ _))

/-- The result of a comparison without calls of `rnd` is the same for all generators. -/
theorem Comparison.Drawless.exists_result {comparison : Comparison} (scope : Scope)
    (drawless : comparison.Drawless) :
    ∃ result, comparison.holds scope = .ofExcept result := by
  have first := Expression.exists_result_of_drawless scope drawless.1
  have second := Expression.exists_result_of_drawless scope drawless.2
  exact Attempt.exists_ofExcept_bind first fun a =>
    Attempt.exists_ofExcept_bind second fun b => ⟨.ok (comparison.relation.holds a b), rfl⟩

namespace Guard

variable {text first second : Text} {scope : Scope}

/-- There is no call of `rnd` in the guard with a text, if it can be read. -/
def Drawless (text : Text) : Prop :=
  ∀ guard, parse text = .ok guard → ∀ comparison ∈ guard.comparisons, comparison.Drawless

instance (text : Text) : Decidable (Drawless text) :=
  match read : parse text with
  | .error _ => isTrue fun _ same => by cases read.symm.trans same
  | .ok guard =>
    decidable_of_iff (∀ comparison ∈ guard.comparisons, comparison.Drawless)
      (by simp only [Drawless, read, Except.ok.injEq, forall_eq'])

/-- The result of comparisons without calls of `rnd` is the same for all generators. -/
theorem exists_result_of_allHold (scope : Scope) {comparisons : List Comparison}
    (drawless : ∀ comparison ∈ comparisons, comparison.Drawless) :
    ∃ result, allHold scope comparisons = .ofExcept result := by
  induction comparisons with
  | nil => exact ⟨.ok true, rfl⟩
  | cons comparison comparisons ih =>
    obtain ⟨here, later⟩ := List.forall_mem_cons.mp drawless
    refine Attempt.exists_ofExcept_bind (here.exists_result scope) fun holds => ?_
    cases holds with
    | true => exact ih later
    | false => exact ⟨.ok false, rfl⟩

/-- Comparisons behind others are evaluated if those hold. -/
theorem allHold_append (scope : Scope) (comparisons others : List Comparison) :
    allHold scope (comparisons ++ others) = (do
      if ← allHold scope comparisons then allHold scope others else pure false) := by
  induction comparisons with
  | nil => simp [allHold]
  | cons comparison comparisons ih =>
    rw [List.cons_append, allHold, allHold, bind_assoc]
    refine bind_congr fun holds => ?_
    cases holds with
    | true => simpa using ih
    | false => simp

/-- Guards that are joined by an ampersand are read one after the other. -/
theorem parse_append (first second : Text) :
    parse (first ++ '&' :: second) = (do
      let guard ← parse first
      let other ← parse second
      pure ⟨guard.comparisons ++ other.comparisons⟩) := by
  unfold parse
  rw [splitOn_append_cons, List.mapM_append]
  cases (splitOn ['&'] first).mapM Comparison.parse with
  | error fault => rfl
  | ok comparisons => cases (splitOn ['&'] second).mapM Comparison.parse <;> rfl

/-! ## Verdicts -/

/-- Whatever the generator, the verdict on the guard with a text is the same, and nothing is
drawn. -/
def Decides (text : Text) (scope : Scope) (verdict : Bool) : Prop :=
  ∀ generator, (textHolds text scope).run generator = some (verdict, generator)

/-- The verdict on a result: a fault counts as no. -/
def verdictOf : Except ExpressionError Bool → Bool
  | .ok verdict => verdict
  | .error _ => false

/-- A guard that cannot be read does not hold. -/
theorem decides_of_parse_error {fault : GuardError} (read : parse text = .error fault) :
    Decides text scope false := by
  intro generator
  rw [textHolds, read]
  rfl

/-- The verdict on a guard that can be read is that on the result of its comparisons. -/
theorem decides_of_parse_ok {guard : Guard} (read : parse text = .ok guard)
    {result : Except ExpressionError Bool}
    (evaluated : allHold scope guard.comparisons = .ofExcept result) :
    Decides text scope (verdictOf result) := by
  intro generator
  rw [textHolds, read]
  simp only [holds, evaluated]
  cases result <;> rfl

/-- A guard without calls of `rnd` has a verdict. -/
theorem Drawless.exists_decides (drawless : Drawless text) (scope : Scope) :
    ∃ verdict, Decides text scope verdict := by
  cases read : parse text with
  | error fault => exact ⟨false, decides_of_parse_error read⟩
  | ok guard =>
    obtain ⟨result, evaluated⟩ := exists_result_of_allHold scope (drawless guard read)
    exact ⟨verdictOf result, decides_of_parse_ok read evaluated⟩

/-- There is one verdict only. -/
theorem Decides.eq {verdict other : Bool} (decides : Decides text scope verdict)
    (decides' : Decides text scope other) : verdict = other := by
  have same := (decides default).symm.trans (decides' default)
  exact (Prod.mk.inj (Option.some.inj same)).1

/-- Guards without calls of `rnd` have none when they are joined. -/
theorem Drawless.append (drawless : Drawless first) (drawless' : Drawless second) :
    Drawless (first ++ '&' :: second) := by
  intro guard read
  rw [parse_append] at read
  obtain ⟨one, read_one, read⟩ := bind_eq_ok_iff.mp read
  obtain ⟨other, read_other, read⟩ := bind_eq_ok_iff.mp read
  obtain rfl := Except.ok.inj read
  exact List.forall_mem_append.mpr ⟨drawless one read_one, drawless' other read_other⟩

/-- The verdict on two guards that are joined by an ampersand is the conjunction of theirs. -/
theorem Drawless.decides_append (drawless : Drawless first) (drawless' : Drawless second)
    {verdict other : Bool} (decides : Decides first scope verdict)
    (decides' : Decides second scope other) :
    Decides (first ++ '&' :: second) scope (verdict && other) := by
  cases read : parse first with
  | error fault =>
    have both : parse (first ++ '&' :: second) = .error fault := by rw [parse_append, read]; rfl
    obtain rfl := decides.eq (decides_of_parse_error read)
    exact decides_of_parse_error both
  | ok guard =>
    cases read' : parse second with
    | error fault =>
      have both : parse (first ++ '&' :: second) = .error fault := by
        rw [parse_append, read, read']; rfl
      obtain rfl := decides'.eq (decides_of_parse_error read')
      rw [Bool.and_false]
      exact decides_of_parse_error both
    | ok guard' =>
      have both : parse (first ++ '&' :: second) =
          .ok ⟨guard.comparisons ++ guard'.comparisons⟩ := by rw [parse_append, read, read']; rfl
      obtain ⟨result, evaluated⟩ := exists_result_of_allHold scope (drawless guard read)
      obtain ⟨result', evaluated'⟩ := exists_result_of_allHold scope (drawless' guard' read')
      obtain rfl := decides.eq (decides_of_parse_ok read evaluated)
      obtain rfl := decides'.eq (decides_of_parse_ok read' evaluated')
      have joined : allHold scope (guard.comparisons ++ guard'.comparisons) =
          .ofExcept (result >>= fun holds => if holds then result' else .ok false) := by
        rw [allHold_append, evaluated, evaluated']
        rcases result with fault | (_ | _) <;> rfl
      have decided := decides_of_parse_ok both joined
      rcases result with fault | (_ | _) <;> exact decided

/-- The verdict on several guards that are joined by ampersands is the conjunction of theirs. -/
theorem decides_joinWith {guards : List Text} (nonempty : guards ≠ [])
    (drawless : ∀ guard ∈ guards, Drawless guard) {verdict : Text → Bool}
    (decided : ∀ guard ∈ guards, Decides guard scope (verdict guard)) :
    Drawless (joinWith '&' guards) ∧ Decides (joinWith '&' guards) scope (guards.all verdict) := by
  induction guards with
  | nil => exact absurd rfl nonempty
  | cons guard guards ih =>
    obtain ⟨drawless_guard, drawless_rest⟩ := List.forall_mem_cons.mp drawless
    obtain ⟨decided_guard, decided_rest⟩ := List.forall_mem_cons.mp decided
    by_cases last : guards = []
    · subst last
      simpa [joinWith] using And.intro drawless_guard decided_guard
    · obtain ⟨drawless_joined, decided_joined⟩ := ih last drawless_rest decided_rest
      rw [joinWith_cons '&' guard last]
      exact ⟨drawless_guard.append drawless_joined,
        drawless_guard.decides_append drawless_joined decided_guard decided_joined⟩

/-- Guards without calls of `rnd` are a true conjunction: each has a verdict, whether it can be
read or not, nothing is drawn, and two that are joined by an ampersand hold if both do. So guards
may be joined in any order, and in groups or one by one. -/
theorem conjunction_of_drawless {guards : List Text}
    (drawless : ∀ guard ∈ guards, Drawless guard) (scope : Scope) :
    ∃ verdict : Text → Bool,
      (∀ guard ∈ guards, Decides guard scope (verdict guard)) ∧
      (∀ first ∈ guards, ∀ second ∈ guards,
        Decides (first ++ '&' :: second) scope (verdict first && verdict second)) ∧
      ∀ groups : List (List Text), groups ≠ [] → (∀ group ∈ groups, group ≠ []) →
        groups.flatten.Perm guards →
          (∀ group ∈ groups, Decides (joinWith '&' group) scope (group.all verdict)) ∧
            Decides (joinWith '&' (groups.map (joinWith '&'))) scope (guards.all verdict) := by
  have each (text : Text) : ∃ verdict, Drawless text → Decides text scope verdict := by
    by_cases drawless : Drawless text
    · obtain ⟨verdict, decided⟩ := drawless.exists_decides scope
      exact ⟨verdict, fun _ => decided⟩
    · exact ⟨false, fun drawless' => absurd drawless' drawless⟩
  choose verdict decided using each
  refine ⟨verdict, fun guard among => decided guard (drawless guard among), ?_, ?_⟩
  · intro first among second among'
    exact (drawless first among).decides_append (drawless second among')
      (decided first (drawless first among)) (decided second (drawless second among'))
  · intro groups some_group some_guard rearranged
    have joined : ∀ group ∈ groups, Drawless (joinWith '&' group) ∧
        Decides (joinWith '&' group) scope (group.all verdict) := by
      intro group among
      have drawless_group : ∀ guard ∈ group, Drawless guard := fun guard within =>
        drawless guard (rearranged.mem_iff.mp (List.mem_flatten_of_mem among within))
      exact decides_joinWith (some_guard group among) drawless_group
        fun guard within => decided guard (drawless_group guard within)
    refine ⟨fun group among => (joined group among).2, ?_⟩
    have verdicts : ∀ group ∈ groups, verdict (joinWith '&' group) = group.all verdict := by
      intro group among
      obtain ⟨drawless_group, decided_group⟩ := joined group among
      exact (decided _ drawless_group).eq decided_group
    have same : (groups.map (joinWith '&')).all verdict = guards.all verdict := by
      calc (groups.map (joinWith '&')).all verdict
        _ = groups.all fun group => group.all verdict := by
          rw [Bool.eq_iff_iff, List.all_map, List.all_eq_true, List.all_eq_true]
          exact forall₂_congr fun group among => by rw [Function.comp_apply, verdicts group among]
        _ = groups.flatten.all verdict := List.all_flatten.symm
        _ = guards.all verdict := rearranged.all_eq
    have drawless_texts : ∀ text ∈ groups.map (joinWith '&'), Drawless text :=
      List.forall_mem_map.mpr fun group among => (joined group among).1
    rw [← same]
    exact (decides_joinWith (by simpa using some_group) drawless_texts
      fun text among => decided text (drawless_texts text among)).2

/-- A guard that cannot be read and one with an unknown name may stand anywhere. -/
theorem conjunction_of_drawless_malformed :
    let scope : Scope := ⟨[("x".toList, 7)], .empty⟩
    (∀ guard ∈ ["x<".toList, "y>1".toList, "x>=5".toList], Drawless guard) ∧
      ∃ verdict : Text → Bool, Decides "x>=5".toList scope (verdict "x>=5".toList) ∧
        Decides "x>=5&x<&y>1".toList scope
          (["x<".toList, "y>1".toList, "x>=5".toList].all verdict) := by
  intro scope
  have drawless : ∀ guard ∈ ["x<".toList, "y>1".toList, "x>=5".toList], Drawless guard := by
    decide +kernel
  obtain ⟨verdict, decided, _, groups⟩ := conjunction_of_drawless drawless scope
  have rearranged := (groups [["x>=5".toList], ["x<".toList, "y>1".toList]] (by simp) (by simp)
    (by decide)).2
  exact ⟨drawless, verdict, decided _ (by simp), rearranged⟩

end Guard

end Arbor
