import Arbor.Proofs.Decimals
import Arbor.Proofs.Preservation

/-!
# Lists of decimal numbers

Decimal numbers have no brackets and no commas, so with commas between them they are a
parameter list whose arguments are these numbers again.

A text has numeric lists when every opening bracket in it opens a list of decimal numbers.
This does not depend on which symbols carry the lists, so it is kept when something is cut
off at the front, even in the middle of a list, and when such texts are written one behind
the other. All a pass writes is made of pieces of three kinds: symbols that stay, bodies that
stand for a symbol without a list, and lists that are filled with the values of expressions.
These values are finite, so the lists of the third kind are always numeric.
-/
namespace Arbor

open Text

/-! ## Arguments -/

namespace ParameterList

/-- A text without brackets and commas is a part of the first piece. -/
theorem splitAtCommas_append {piece rest first : Text} {others : List Text}
    (plain : ∀ c ∈ piece, c ∈ numberCharacters)
    (found : ∀ position, splitAtCommas 0 position rest = .ok (first :: others)) (position : Nat) :
    splitAtCommas 0 position (piece ++ rest) = .ok ((piece ++ first) :: others) := by
  induction piece generalizing position with
  | nil => exact found position
  | cons c piece ih =>
    obtain ⟨here, later⟩ := List.forall_mem_cons.mp plain
    have other : c ≠ '(' ∧ c ≠ ')' ∧ c ≠ ',' := by
      refine ⟨?_, ?_, ?_⟩ <;> rintro rfl <;> simp [numberCharacters] at here
    have step : splitAtCommas 0 position (c :: (piece ++ rest)) =
        (splitAtCommas 0 (position + c.utf8Size) (piece ++ rest)).map (prepend c) := by
      rw [splitAtCommas]
      · exact other.1
      · exact other.2.1
      · exact other.2.2
    rw [List.cons_append, step, ih later]
    rfl

/-- Texts without brackets and commas are the pieces of what they are joined to. -/
theorem splitAtCommas_joinWith {pieces : List Text} (some : pieces ≠ [])
    (plain : ∀ piece ∈ pieces, ∀ c ∈ piece, c ∈ numberCharacters) (position : Nat) :
    splitAtCommas 0 position (joinWith ',' pieces) = .ok pieces := by
  induction pieces generalizing position with
  | nil => exact absurd rfl some
  | cons piece pieces ih =>
    obtain ⟨here, later⟩ := List.forall_mem_cons.mp plain
    by_cases last : pieces = []
    · subst last
      have behind (place : Nat) : splitAtCommas 0 place [] = .ok [[]] := rfl
      simpa [joinWith] using splitAtCommas_append here behind position
    · rw [joinWith_cons ',' piece last]
      have behind (place : Nat) :
          splitAtCommas 0 place (',' :: joinWith ',' pieces) = .ok ([] :: pieces) := by
        simp only [splitAtCommas, if_true, ih last later]
        rfl
      simpa using splitAtCommas_append here behind position

end ParameterList

/-- The arguments of a list of decimal numbers are these numbers. -/
theorem arguments_of_decimals {values : List Text} (decimals : ∀ value ∈ values, IsDecimal value)
    (position : Nat) : ParameterList.arguments position (joinWith ',' values) = .ok values := by
  cases values with
  | nil => rfl
  | cons value values =>
    have some : joinWith ',' (value :: values) ≠ [] := by
      intro none
      have first := (decimals value List.mem_cons_self).ne_nil
      cases values with
      | nil => exact first (by simpa [joinWith] using none)
      | cons next values =>
        rw [joinWith_cons ',' value (by simp)] at none
        exact first (List.append_eq_nil_iff.mp none).1
    rw [ParameterList.arguments, if_neg (by simpa using some)]
    exact ParameterList.splitAtCommas_joinWith (by simp)
      (fun value among c => (decimals value among).mem_numberCharacters) position

/-- A list of decimal numbers has no brackets inside. -/
theorem ne_open_of_decimals {values : List Text} (decimals : ∀ value ∈ values, IsDecimal value)
    {c : Char} (among : c ∈ joinWith ',' values) : c ≠ '(' ∧ c ≠ ')' := by
  have number := mem_numbers_of_mem_joinWith
    (fun value listed c => (decimals value listed).mem_numberCharacters) among
  constructor <;> rintro rfl <;> simp [numberCharacters] at number

/-- A list of decimal numbers is balanced. -/
theorem balanced_of_decimals {values : List Text} (decimals : ∀ value ∈ values, IsDecimal value) :
    Balanced (joinWith ',' values) := by
  rw [← Brackets.wellNested_parameters_iff]
  refine Brackets.awaitedAfter_of_plain (fun c among => ?_) []
  obtain ⟨opens, closes⟩ := ne_open_of_decimals decimals among
  exact Brackets.parameters_contains opens closes

/-! ## Texts with numeric lists -/

/-- Every opening bracket opens a list of decimal numbers. -/
inductive NumericLists : Text → Prop
  | nil : NumericLists []
  | symbol {c : Char} {rest : Text} : c ≠ '(' → NumericLists rest → NumericLists (c :: rest)
  | list {values : List Text} {rest : Text} : (∀ value ∈ values, IsDecimal value) →
    NumericLists rest → NumericLists ('(' :: (joinWith ',' values ++ ')' :: rest))

namespace NumericLists

/-- A text without opening brackets has no lists at all. -/
theorem append_of_plain {text rest : Text} (plain : ∀ c ∈ text, c ≠ '(')
    (behind : NumericLists rest) : NumericLists (text ++ rest) := by
  induction text with
  | nil => exact behind
  | cons c text ih =>
    obtain ⟨here, later⟩ := List.forall_mem_cons.mp plain
    exact .symbol here (ih later)

/-- Texts with numeric lists may stand one behind the other. -/
theorem append {left right : Text} (first : NumericLists left) (second : NumericLists right) :
    NumericLists (left ++ right) := by
  induction first with
  | nil => exact second
  | symbol other _ ih => exact .symbol other ih
  | list decimals _ ih =>
    rw [List.cons_append, List.append_assoc, List.cons_append]
    exact .list decimals ih

/-- The first character may be cut off, also one that opens a list. -/
theorem tail {c : Char} {rest : Text} (numeric : NumericLists (c :: rest)) :
    NumericLists rest := by
  cases numeric with
  | symbol _ behind => exact behind
  | list decimals behind =>
    refine append_of_plain ?_ (.symbol (by decide) behind)
    intro c among
    exact (ne_open_of_decimals decimals among).1

/-- Anything may be cut off at the front. -/
theorem of_append {before after : Text} (numeric : NumericLists (before ++ after)) :
    NumericLists after := by
  induction before with
  | nil => exact numeric
  | cons c before ih => exact ih numeric.tail

/-- The list that a text begins with is made of decimal numbers. -/
theorem exists_of_take {text contents after : Text} {position : Nat}
    (numeric : NumericLists text)
    (taken : ParameterList.take position text = .ok (some contents, after)) :
    ∃ values, (∀ value ∈ values, IsDecimal value) ∧ joinWith ',' values = contents := by
  have begins := (ParameterList.take_eq_some_iff.mp taken).1
  cases numeric with
  | nil => cases begins
  | symbol other _ => exact absurd (List.cons.inj begins).1 other
  | @list values rest decimals _ =>
    have whole : ParameterList.take position ('(' :: (joinWith ',' values ++ ')' :: rest)) =
        .ok (some (joinWith ',' values), rest) :=
      ParameterList.take_eq_some_iff.mpr ⟨rfl, balanced_of_decimals decimals⟩
    have same := whole.symm.trans taken
    simp only [Except.ok.injEq, Prod.mk.injEq, Option.some.injEq] at same
    exact ⟨values, decimals, same.1⟩

end NumericLists

/-! ## Values of expressions -/

/-- The values of arguments are finite, and there is one for each of them. -/
theorem Replacement.finite_of_evaluatePieces {constants : Constants} {position : Nat}
    {pieces : List Text} {values : List Float} {generator after : Generator}
    (given : (evaluatePieces constants position pieces).Gives generator values after) :
    values.length = pieces.length ∧ ∀ value ∈ values, value.isFinite = true := by
  induction pieces generalizing position values generator with
  | nil =>
    obtain ⟨rfl, _⟩ := Attempt.gives_pure_iff.mp given
    simp
  | cons piece pieces ih =>
    obtain ⟨first, between, evaluated, given⟩ := Attempt.gives_bind_iff.mp given
    obtain ⟨others, last, later, given⟩ := Attempt.gives_bind_iff.mp given
    obtain ⟨rfl, rfl⟩ := Attempt.gives_pure_iff.mp given
    obtain ⟨length, finite⟩ := ih later
    refine ⟨by simp [length], List.forall_mem_cons.mpr ⟨?_, finite⟩⟩
    have evaluated := Attempt.gives_mapError_iff.mp evaluated
    unfold Expression.evaluateText at evaluated
    split at evaluated
    · simp at evaluated
    · exact Expression.isFinite_of_evaluate evaluated

/-- The values of the arguments of a list are finite. -/
theorem Replacement.finite_of_evaluateArguments {constants : Constants} {position : Nat}
    {contents : Text} {values : List Float} {generator after : Generator}
    (given : (evaluateArguments constants position contents).Gives generator values after) :
    ∀ value ∈ values, value.isFinite = true := by
  unfold evaluateArguments at given
  split at given
  · simp at given
  · exact (finite_of_evaluatePieces given).2

/-- Finite numbers are written as decimal numbers. -/
theorem forall_isDecimal_map_formatNumber {values : List Float}
    (finite : ∀ value ∈ values, value.isFinite = true) :
    ∀ text ∈ values.map formatNumber, IsDecimal text := by
  intro text among
  obtain ⟨value, listed, rfl⟩ := List.mem_map.mp among
  exact isDecimal_formatNumber (finite value listed)

end Arbor
