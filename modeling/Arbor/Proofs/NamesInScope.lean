import Arbor.Proofs.CheckedTrees
import Arbor.Proofs.Tables
import Arbor.Proofs.Undrawn

/-!
# Names that a scope does not know

The evaluation of a compiled expression has two faults only: a name that is bound nowhere, and a
result that is not finite. Operands and arguments are evaluated from left to right and none of
them is left out. So the name of the fault is the first one in reading order that is bound
nowhere, and without such a name the tree has a value, unless a number has to be drawn that does
not exist. Functions are there and get as many values as they take, since as many arguments stand
in the call.
-/
namespace Arbor

/-! ## The first unbound name -/

namespace Scope

variable {scope : Scope}

/-- The first of several names that is bound nowhere. -/
def unbound? (scope : Scope) (names : List Text) : Option Text :=
  names.find? fun name => (scope.lookup name).isNone

/-- Names behind others count if those are bound. -/
theorem unbound?_append (scope : Scope) (names others : List Text) :
    scope.unbound? (names ++ others) = (scope.unbound? names).or (scope.unbound? others) :=
  List.find?_append

/-- The first unbound name is one in front of which all names are bound. -/
theorem unbound?_eq_some_iff {names : List Text} {name : Text} :
    scope.unbound? names = some name ↔ scope.lookup name = none ∧
      ∃ before behind, names = before ++ name :: behind ∧
        ∀ earlier ∈ before, scope.lookup earlier ≠ none := by
  simp [unbound?, List.find?_eq_some_iff_append, Option.ne_none_iff_isSome]

/-- There is a first unbound name if any name is unbound. -/
theorem exists_unbound?_iff {names : List Text} :
    (∃ name, scope.unbound? names = some name) ↔ ∃ name ∈ names, scope.lookup name = none := by
  simp [unbound?, ← Option.isSome_iff_exists]

end Scope

/-- The names that a scope has to know are those that occur. -/
theorem Expression.mem_freeNames {expression : Expression} {name : Text} :
    name ∈ expression.freeNames ↔ name ∈ expression.tree.names := by
  simp [freeNames, Table.mem_keys_ofList]

/-! ## Attempts that look names up -/

namespace Attempt

variable {α β : Type}

/-- Names decide whether an attempt fails: it has no other fault than that the first unbound name
is unknown, and gives a value only if there is none. -/
structure Requires (attempt : Attempt ExpressionError α) (unbound? : Option Text) : Prop where
  fails : ∀ {generator fault after}, attempt.Fails generator fault after →
    ∃ name, unbound? = some name ∧ fault = .unknownName name
  gives : ∀ {generator value after}, attempt.Gives generator value after → unbound? = none

/-- A value requires no names. -/
theorem requires_pure (value : α) : (pure value : Attempt ExpressionError α).Requires none :=
  ⟨fun failed => absurd failed not_fails_pure, fun _ => rfl⟩

/-- The fault of an unknown name requires this name. -/
theorem requires_throw (name : Text) :
    (throw (.unknownName name) : Attempt ExpressionError α).Requires (some name) where
  fails failed := ⟨name, rfl, (fails_throw_iff.mp failed).1.symm⟩
  gives given := absurd given not_gives_throw

/-- A draw requires no names. -/
theorem requires_lift (draw : Draw α) :
    Requires (ExceptT.lift draw : Attempt ExpressionError α) none :=
  ⟨fun failed => absurd failed not_fails_lift, fun _ => rfl⟩

/-- A sequence of attempts requires the names of the first part, then those of the second one. -/
theorem Requires.bind {attempt : Attempt ExpressionError α} {next : α → Attempt ExpressionError β}
    {unbound? later? : Option Text} (first : attempt.Requires unbound?)
    (second : ∀ {generator value after}, attempt.Gives generator value after →
      (next value).Requires later?) :
    (attempt >>= next).Requires (unbound?.or later?) where
  fails failed := by
    rcases fails_bind_iff.mp failed with here | ⟨value, between, given, later⟩
    · obtain ⟨name, found, same⟩ := first.fails here
      exact ⟨name, by rw [found, Option.some_or], same⟩
    · obtain ⟨name, found, same⟩ := (second given).fails later
      exact ⟨name, by rw [first.gives given, Option.none_or, found], same⟩
  gives given := by
    obtain ⟨value, between, here, later⟩ := gives_bind_iff.mp given
    rw [first.gives here, Option.none_or, (second here).gives later]

/-- What comes behind an attempt and requires no names changes nothing. -/
theorem Requires.bind_none {attempt : Attempt ExpressionError α}
    {next : α → Attempt ExpressionError β} {unbound? : Option Text}
    (first : attempt.Requires unbound?)
    (second : ∀ {generator value after}, attempt.Gives generator value after →
      (next value).Requires none) :
    (attempt >>= next).Requires unbound? := by
  have both := first.bind second
  rwa [Option.or_none] at both

end Attempt

/-! ## Trees -/

namespace Tree

variable {scope : Scope}

/-- The values of a row of trees are those of its trees. -/
theorem evaluateAll_eq_mapM (scope : Scope) (trees : List Tree) :
    evaluateAll scope trees = trees.mapM (evaluate scope) := by
  induction trees with
  | nil => rfl
  | cons tree rest ih => rw [evaluateAll, List.mapM_cons, ih]

/-- A row of trees has one value for each of them. -/
theorem length_of_gives_evaluateAll {trees : List Tree} {values : List Float}
    {generator after : Generator}
    (given : (evaluateAll scope trees).Gives generator values after) :
    values.length = trees.length := by
  rw [evaluateAll_eq_mapM] at given
  exact Attempt.length_of_gives_mapM given

mutual

/-- A sound tree requires the names that occur in it, from left to right. -/
theorem Sound.requires (scope : Scope) {tree : Tree} (sound : tree.Sound) :
    (tree.evaluate scope).Requires (scope.unbound? tree.names) := by
  cases tree with
  | number value => exact Attempt.requires_pure value
  | reference name =>
    rw [evaluate, names, Scope.unbound?, List.find?_singleton]
    cases scope.lookup name with
    | none => exact Attempt.requires_throw name
    | some value => exact Attempt.requires_pure value
  | negation operand =>
    have below := Sound.requires scope (sound_negation.mp sound)
    exact below.bind_none fun _ => Attempt.requires_pure _
  | arithmetic operation left right =>
    obtain ⟨sound_left, sound_right⟩ := sound_arithmetic.mp sound
    have first := Sound.requires scope sound_left
    have second := Sound.requires scope sound_right
    rw [evaluate, names, Scope.unbound?_append]
    exact first.bind fun _ => second.bind_none fun _ => Attempt.requires_pure _
  | complement operand => exact absurd sound not_sound_complement
  | logical operator left right => exact absurd sound not_sound_logical
  | call name arguments =>
    obtain ⟨⟨function, named, fits⟩, sound_arguments⟩ := sound_call.mp sound
    have below := requires_evaluateAll scope sound_arguments
    rw [evaluate, names, named]
    refine below.bind_none fun {_ values _} given => ?_
    have enough : (function.applyTo? values).isSome := by
      rw [Function.isSome_applyTo?, length_of_gives_evaluateAll given, fits]
    obtain ⟨result, applied⟩ := Option.isSome_iff_exists.mp enough
    simp only [applied]
    exact Attempt.requires_lift result

/-- A row of sound trees requires the names that occur in it, from left to right. -/
theorem requires_evaluateAll (scope : Scope) {trees : List Tree}
    (sound : ∀ tree ∈ trees, tree.Sound) :
    (evaluateAll scope trees).Requires (scope.unbound? (namesOfAll trees)) := by
  cases trees with
  | nil => exact Attempt.requires_pure []
  | cons tree rest =>
    obtain ⟨here, later⟩ := List.forall_mem_cons.mp sound
    have first := Sound.requires scope here
    have second := requires_evaluateAll scope later
    rw [evaluateAll, namesOfAll, Scope.unbound?_append]
    exact first.bind fun _ => second.bind_none fun _ => Attempt.requires_pure _

end

end Tree

/-! ## Compiled expressions -/

/-- Every call in a tree is one of a function, and this function gets as many values as it takes
whenever the arguments are evaluated. -/
def Tree.CallsFit (tree : Tree) (scope : Scope) : Prop :=
  ∀ name arguments, .call name arguments ∈ tree.nodes →
    ∃ function, Function.named? name = some function ∧
      ∀ generator values after, (evaluateAll scope arguments).Gives generator values after →
        values.length = function.arity

/-- The calls in a sound tree fit. -/
theorem Tree.Sound.callsFit {tree : Tree} (sound : tree.Sound) (scope : Scope) :
    tree.CallsFit scope := by
  intro name arguments within
  obtain ⟨function, named, fits⟩ := checkNode_call_iff.mp (sound _ within)
  refine ⟨function, named, fun generator values after given => ?_⟩
  rw [length_of_gives_evaluateAll given, fits]

namespace Expression

variable {text : Text} {expression : Expression} {scope : Scope} {generator after : Generator}

/-- A compiled expression fails for the first unbound name. If there is none, it has a finite value
or fails for its result. -/
theorem unbound?_of_outcome_evaluate (compiled : compile text = .ok expression)
    {result : Except ExpressionError Float}
    (ended : (expression.evaluate scope).outcome generator = some (result, after)) :
    (∃ name, scope.unbound? expression.tree.names = some name ∧
        result = .error (.unknownName name)) ∨
      scope.unbound? expression.tree.names = none ∧
        ((∃ value, result = .ok value ∧ value.isFinite = true) ∨
          result = .error (.nonFinite text)) := by
  have requires := (sound_of_compile compiled).requires scope
  cases result with
  | ok value =>
    have given : (expression.evaluate scope).Gives generator value after := ended
    obtain ⟨_, _, evaluated, _⟩ := Attempt.gives_bind_iff.mp given
    exact .inr ⟨requires.gives evaluated, .inl ⟨value, rfl, isFinite_of_evaluate given⟩⟩
  | error fault =>
    rcases Attempt.fails_bind_iff.mp ended with here | ⟨value, between, evaluated, behind⟩
    · obtain ⟨name, first, rfl⟩ := requires.fails here
      exact .inl ⟨name, first, rfl⟩
    · split at behind
      · exact absurd behind Attempt.not_fails_pure
      · obtain ⟨rfl, _⟩ := Attempt.fails_throw_iff.mp behind
        rw [source_of_compile compiled]
        exact .inr ⟨requires.gives evaluated, .inr rfl⟩

/-- If no number has to be drawn that does not exist, the evaluation of a compiled expression
ends. It ends with an unknown name if and only if a name that it depends on is bound nowhere; it is
the first one in reading order. Otherwise it ends with a finite value, or with the fault that there
is none. There are no other faults, and all functions get as many values as they take. -/
theorem evaluate_of_compile (compiled : compile text = .ok expression) (scope : Scope)
    (generator : Generator) (possible : ¬expression.tree.Draws Draw.Impossible scope generator) :
    ∃ result after, (expression.evaluate scope).outcome generator = some (result, after) ∧
      ((∃ name, result = .error (.unknownName name)) ↔
        ∃ name ∈ expression.freeNames, scope.lookup name = none) ∧
      (∀ name, result = .error (.unknownName name) ↔ scope.lookup name = none ∧
        ∃ before behind, expression.tree.names = before ++ name :: behind ∧
          ∀ earlier ∈ before, scope.lookup earlier ≠ none) ∧
      ((∀ name ∈ expression.freeNames, scope.lookup name ≠ none) →
        (∃ value, result = .ok value ∧ value.isFinite = true) ∨
          result = .error (.nonFinite text)) ∧
      (∀ fault, result = .error fault → fault ≠ .notArithmetic ∧
        (∀ name, fault ≠ .unknownFunction name) ∧
          ∀ name expected found, fault ≠ .arity name expected found) ∧
      expression.tree.CallsFit scope := by
  have ends : (expression.evaluate scope).outcome generator ≠ none :=
    fun stops => possible (stops_evaluate_iff.mp stops)
  obtain ⟨⟨result, after⟩, ended⟩ := Option.ne_none_iff_exists'.mp ends
  have decided := unbound?_of_outcome_evaluate compiled ended
  have unknown (name : Text) : result = .error (.unknownName name) ↔
      scope.unbound? expression.tree.names = some name := by
    rcases decided with ⟨other, first, rfl⟩ | ⟨bound, ⟨value, rfl, _⟩ | rfl⟩
    · simp [first]
    · simp [bound]
    · simp [bound]
  refine ⟨result, after, ended, ?_, ?_, ?_, ?_, (sound_of_compile compiled).callsFit scope⟩
  · simp only [unknown, mem_freeNames]
    exact Scope.exists_unbound?_iff
  · intro name
    rw [unknown, Scope.unbound?_eq_some_iff]
  · intro bound
    rcases decided with ⟨name, first, _⟩ | ⟨_, ended⟩
    · obtain ⟨unbound, before, behind, split, _⟩ := Scope.unbound?_eq_some_iff.mp first
      have occurs : name ∈ expression.tree.names := by simp [split]
      exact absurd unbound (bound name (mem_freeNames.mpr occurs))
    · exact ended
  · rintro fault rfl
    rcases decided with ⟨name, _, same⟩ | ⟨_, ⟨value, same, _⟩ | same⟩ <;> cases same <;> simp

/-- Of two unbound names the one in front is reported, although it is deeper in the tree. -/
theorem evaluate_of_compile_two_unbound :
    let scope : Scope := ⟨[("x".toList, 1)], .empty⟩
    ∃ expression, compile "x*max(x,y)+z".toList = .ok expression ∧
      (expression.evaluate scope).Fails default (.unknownName "y".toList) default ∧
      ∃ before behind, expression.tree.names = before ++ "y".toList :: behind ∧
        ∀ earlier ∈ before, scope.lookup earlier ≠ none := by
  intro scope
  have accepted : (compile "x*max(x,y)+z".toList).isOk = true := by decide +kernel
  obtain ⟨expression, compiled⟩ := exists_of_isOk accepted
  have failed : (evaluateText "x*max(x,y)+z".toList scope).outcome default =
      some (.error (.unknownName "y".toList), default) := by decide +kernel
  rw [evaluateText, compiled] at failed
  have possible : ¬expression.tree.Draws Draw.Impossible scope default := by
    intro draws
    have stops : (expression.evaluate scope).outcome default = none :=
      stops_evaluate_iff.mpr draws
    rw [failed] at stops
    cases stops
  obtain ⟨result, after, ended, _, unknown, _⟩ :=
    evaluate_of_compile compiled scope default possible
  rw [failed] at ended
  cases ended
  exact ⟨expression, compiled, failed, ((unknown _).mp rfl).2⟩

end Expression

end Arbor
