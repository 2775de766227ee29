import Arbor.Proofs.Arguments
import Arbor.Proofs.Derivations
import Arbor.Proofs.PassSteps
import Arbor.Proofs.StepsInPlace

/-!
# Steps that fail

A step fails at its own token. A list that does not end is reported where it opens, and this is
the only fault of brackets, because the contents of a list that ends always fall into arguments. An
argument without a value is reported where it begins; the arguments before it have values, and
those behind it have not been looked at. A symbol that several rules fit is reported where it
stands. The other faults are those of rules and have no position.
-/
namespace Arbor

open Text

/-- The position that a fault reports, if it reports one. -/
def DerivationError.position? : DerivationError → Option Nat
  | .brackets position => some position
  | .argument position _ => some position
  | .ambiguousSymbol _ position => some position
  | _ => none

/-! ## Arguments -/

namespace Replacement

variable {constants : Constants}

/-- The first arguments of a list are evaluated first. -/
theorem evaluatePieces_append (position : Nat) (earlier later : List Text) :
    evaluatePieces constants position (earlier ++ later) = (do
      let first ← evaluatePieces constants position earlier
      let others ← evaluatePieces constants (position + byteLength (lead earlier)) later
      pure (first ++ others)) := by
  induction earlier generalizing position with
  | nil => simp [evaluatePieces, lead]
  | cons piece earlier ih =>
    simp [evaluatePieces, ih, byteLength_lead_cons, Nat.add_assoc]

/-- Arguments fail at the first one that has no value, where this one begins. -/
theorem fails_evaluatePieces_iff {pieces : List Text} {position : Nat}
    {generator after : Generator} {fault : DerivationError} :
    (evaluatePieces constants position pieces).Fails generator fault after ↔
      ∃ earlier piece later values between cause, pieces = earlier ++ piece :: later ∧
        (evaluatePieces constants position earlier).Gives generator values between ∧
        (Expression.evaluateText piece ⟨[], constants⟩).Fails between cause after ∧
        fault = .argument (position + byteLength (lead earlier)) cause := by
  have first_fails {piece : Text} {later : List Text} {place : Nat} {generator : Generator}
      {cause : ExpressionError}
      (failed : (Expression.evaluateText piece ⟨[], constants⟩).Fails generator cause after) :
      (evaluatePieces constants place (piece :: later)).Fails generator (.argument place cause)
        after :=
    Attempt.fails_bind_iff.mpr (.inl (Attempt.fails_mapError_iff.mpr ⟨cause, failed, rfl⟩))
  constructor
  · intro failed
    induction pieces generalizing position generator with
    | nil => simp [evaluatePieces] at failed
    | cons first pieces ih =>
      obtain failed | ⟨value, between, given, failed⟩ := Attempt.fails_bind_iff.mp failed
      · obtain ⟨cause, refused, rfl⟩ := Attempt.fails_mapError_iff.mp failed
        have nothing : (evaluatePieces constants position []).Gives generator [] generator :=
          Attempt.gives_pure _ _
        exact ⟨[], first, pieces, [], generator, cause, rfl, nothing, refused, rfl⟩
      · obtain failed | ⟨_, _, _, failed⟩ := Attempt.fails_bind_iff.mp failed
        · obtain ⟨earlier, piece, later, values, last, cause, rfl, others, here, rfl⟩ := ih failed
          have front : (evaluatePieces constants position (first :: earlier)).Gives generator
              (value :: values) last :=
            Attempt.gives_bind_iff.mpr ⟨value, between, given,
              Attempt.gives_bind_iff.mpr ⟨values, last, others, Attempt.gives_pure _ _⟩⟩
          refine ⟨first :: earlier, piece, later, value :: values, last, cause, rfl, front, here, ?_⟩
          rw [byteLength_lead_cons]
          simp only [Nat.add_assoc]
        · simp at failed
  · rintro ⟨earlier, piece, later, values, between, cause, rfl, given, failed, rfl⟩
    rw [evaluatePieces_append]
    refine Attempt.fails_bind_iff.mpr (.inr ⟨values, between, given, ?_⟩)
    exact Attempt.fails_bind_iff.mpr (.inl (first_fails failed))

/-- The faults of rules have no position. -/
theorem position?_of_fails_apply {key : Text} {rules : List Rule} {actuals : List Float}
    {generator after : Generator} {fault : DerivationError}
    (failed : (apply constants key rules actuals).Fails generator fault after) :
    fault.position? = none := by
  have faults : DerivationError.OfRules fun fault => fault.position? = none := by
    constructor <;> simp [DerivationError.position?]
  exact failsOnly_apply faults key rules actuals generator fault after failed

end Replacement

/-- A token with a list fails as its arguments or, behind their values, as the rules of its only
key do. -/
theorem Grammar.fails_rewriteToken_some_iff {grammar : Grammar} {constants : Constants}
    {symbol : Char} {contents : Text} {pieces : List Text}
    (found : ∀ place, ParameterList.arguments place contents = .ok pieces) {position : Nat}
    {generator after : Generator} {fault : DerivationError} :
    (grammar.rewriteToken constants position ⟨symbol, some contents⟩).Fails generator fault after ↔
      (Replacement.evaluatePieces constants (position + symbol.utf8Size + 1) pieces).Fails generator
          fault after ∨
        ∃ actuals between key rules,
          (Replacement.evaluatePieces constants (position + symbol.utf8Size + 1) pieces).Gives
            generator actuals between ∧
          grammar.candidates symbol = [(key, rules)] ∧
            (Replacement.apply constants key rules actuals).Fails between fault after := by
  simp only [rewriteToken, Replacement.ofSymbolWithList, Replacement.evaluateArguments, found,
    Attempt.fails_bind_iff]
  apply or_congr_right
  constructor
  · rintro ⟨actuals, between, given, failed⟩
    split at failed
    · next key rules listed => exact ⟨actuals, between, key, rules, given, listed, failed⟩
    · simp at failed
  · rintro ⟨actuals, between, key, rules, given, listed, failed⟩
    refine ⟨actuals, between, given, ?_⟩
    rw [listed]
    exact failed

/-! ## Steps -/

namespace Pass

variable {pass : Pass} {generator after : Generator}

/-- A step fails in front of a list that does not end, or at a token. -/
theorem fails_step_iff {fault : DerivationError} :
    pass.step.Fails generator fault after ↔
      (∃ symbol inside, pass.rest = symbol :: '(' :: inside ∧ Unclosed inside ∧
          fault = .brackets (pass.cursor + symbol.utf8Size) ∧ generator = after) ∨
        ∃ token behind, Token.first? pass.rest = some (token, behind) ∧
          (pass.grammar.rewriteToken pass.constants pass.cursor token).Fails generator fault
            after := by
  cases rest : pass.rest with
  | nil => simp [step_of_nil rest, Token.first?]
  | cons symbol behind =>
    cases found : Token.first? (symbol :: behind) with
    | none =>
      obtain ⟨inside, rfl, unclosed⟩ := Token.first?_eq_none_iff.mp found
      rw [step_of_none rest found, Attempt.fails_throw_iff]
      constructor
      · rintro ⟨rfl, rfl⟩
        exact .inl ⟨symbol, inside, rfl, unclosed, rfl, rfl⟩
      · rintro (⟨_, _, same, _, rfl, rfl⟩ | ⟨_, _, none, _⟩)
        · obtain ⟨rfl, _⟩ := List.cons.inj same
          exact ⟨rfl, rfl⟩
        · cases none
    | some parts =>
      obtain ⟨token, later⟩ := parts
      have here := rest ▸ found
      rw [step_of_some here, Attempt.fails_bind_iff]
      constructor
      · rintro (failed | ⟨_, _, _, failed⟩)
        · exact .inr ⟨token, later, rfl, failed⟩
        · simp at failed
      · rintro (⟨_, inside, same, unclosed, _⟩ | ⟨other, _, same, failed⟩)
        · obtain ⟨_, rfl⟩ := List.cons.inj same
          rw [Token.first?_eq_none_iff.mpr ⟨inside, rfl, unclosed⟩] at found
          cases found
        · obtain ⟨rfl, _⟩ := Prod.mk.inj (Option.some.inj same)
          exact .inl failed

/-- A fault of brackets is that of the list of the next symbol, where it opens. -/
theorem fails_step_brackets_iff {position : Nat} :
    pass.step.Fails generator (.brackets position) after ↔
      generator = after ∧ ∃ symbol inside, pass.rest = symbol :: '(' :: inside ∧ Unclosed inside ∧
        position = pass.cursor + symbol.utf8Size := by
  rw [fails_step_iff]
  constructor
  · rintro (⟨symbol, inside, rest, unclosed, same, rfl⟩ | ⟨token, behind, found, failed⟩)
    · exact ⟨rfl, symbol, inside, rest, unclosed, DerivationError.brackets.inj same⟩
    · have closed := (Token.first?_eq_some_iff.mp found).2.closed
      exact absurd rfl (Grammar.failsOnly_rewriteToken DerivationError.atTokens_unbracketed closed
        pass.cursor generator _ after failed position)
  · rintro ⟨rfl, symbol, inside, rest, unclosed, rfl⟩
    exact .inl ⟨symbol, inside, rest, unclosed, rfl, rfl⟩

/-- A symbol that several rules fit is reported where it stands. -/
theorem ambiguous_of_fails_step {symbol : Char} {position : Nat}
    (failed : pass.step.Fails generator (.ambiguousSymbol symbol position) after) :
    position = pass.cursor ∧ pass.rest.head? = some symbol := by
  obtain ⟨_, _, _, _, other, _⟩ | ⟨token, behind, found, failed⟩ := fails_step_iff.mp failed
  · cases other
  obtain ⟨split, fits⟩ := Token.first?_eq_some_iff.mp found
  obtain ⟨first, contents?⟩ := token
  cases contents? with
  | none =>
    obtain ⟨failed, _⟩ := Attempt.fails_ofExcept_iff.mp failed
    unfold Replacement.ofSymbol at failed
    split at failed
    · cases failed
    · cases failed
    · cases failed
    · obtain ⟨rfl, rfl⟩ := DerivationError.ambiguousSymbol.inj (Except.error.inj failed)
      rw [split]
      exact ⟨rfl, rfl⟩
  | some contents =>
    obtain ⟨pieces, _, arguments⟩ := ParameterList.arguments_of_balanced fits
    obtain failed | ⟨_, _, _, _, _, _, failed⟩ :=
      (Grammar.fails_rewriteToken_some_iff arguments).mp failed
    · obtain ⟨_, _, _, _, _, _, _, _, _, other⟩ := Replacement.fails_evaluatePieces_iff.mp failed
      cases other
    · cases Replacement.position?_of_fails_apply failed

/-- A fault of an argument is that of the first argument of the next symbol that has no value, where
this argument begins. -/
theorem fails_step_argument_iff {position : Nat} {cause : ExpressionError} :
    pass.step.Fails generator (.argument position cause) after ↔
      ∃ symbol earlier piece later behind values between,
        pass.rest = symbol :: '(' :: (joinWith ',' (earlier ++ piece :: later) ++ ')' :: behind) ∧
        Balanced (joinWith ',' (earlier ++ piece :: later)) ∧
        (∀ place, ParameterList.arguments place (joinWith ',' (earlier ++ piece :: later)) =
          .ok (earlier ++ piece :: later)) ∧
        position = pass.cursor + symbol.utf8Size + 1 + byteLength (lead earlier) ∧
        (Replacement.evaluatePieces pass.constants (pass.cursor + symbol.utf8Size + 1)
          earlier).Gives generator values between ∧
        (Expression.evaluateText piece ⟨[], pass.constants⟩).Fails between cause after := by
  constructor
  · intro failed
    obtain ⟨_, _, _, _, other, _⟩ | ⟨token, behind, found, failed⟩ := fails_step_iff.mp failed
    · cases other
    obtain ⟨split, fits⟩ := Token.first?_eq_some_iff.mp found
    obtain ⟨symbol, contents?⟩ := token
    cases contents? with
    | none =>
      obtain ⟨failed, _⟩ := Attempt.fails_ofExcept_iff.mp failed
      unfold Replacement.ofSymbol at failed
      split at failed <;> cases failed
    | some contents =>
      obtain ⟨pieces, rfl, arguments⟩ := ParameterList.arguments_of_balanced fits
      obtain failed | ⟨_, _, _, _, _, _, failed⟩ :=
        (Grammar.fails_rewriteToken_some_iff arguments).mp failed
      · obtain ⟨earlier, piece, later, values, between, _, rfl, given, refused, same⟩ :=
          Replacement.fails_evaluatePieces_iff.mp failed
        obtain ⟨rfl, rfl⟩ := DerivationError.argument.inj same
        refine ⟨symbol, earlier, piece, later, behind, values, between, ?_, fits, arguments, rfl,
          given, refused⟩
        simpa [Token.text] using split
      · cases Replacement.position?_of_fails_apply failed
  · rintro ⟨symbol, earlier, piece, later, behind, values, between, rest, balanced, arguments, rfl,
      given, refused⟩
    have found : Token.first? pass.rest =
        some (⟨symbol, some (joinWith ',' (earlier ++ piece :: later))⟩, behind) :=
      Token.first?_eq_some_iff.mpr ⟨by simp [Token.text, rest], balanced⟩
    refine fails_step_iff.mpr (.inr ⟨_, behind, found, ?_⟩)
    refine (Grammar.fails_rewriteToken_some_iff arguments).mpr (.inl ?_)
    exact Replacement.fails_evaluatePieces_iff.mpr
      ⟨earlier, piece, later, values, between, cause, rfl, given, refused, rfl⟩

/-! ## Places of faults -/

/-- Behind a part of what is left the input can be cut, at the cursor or behind it. -/
theorem Tiled.boundary_of_rest {input front behind : Text} {steps : List Step}
    (tiled : Tiled input steps pass) (split : pass.rest = front ++ behind) :
    input.IsBoundary (pass.cursor + byteLength front) ∧
      pass.cursor ≤ pass.cursor + byteLength front ∧
        pass.cursor + byteLength front ≤ byteLength input := by
  obtain ⟨before, rfl, reached⟩ := tiled.rest
  rw [split, ← reached]
  refine ⟨⟨before ++ front, behind, by simp, by simp⟩, Nat.le_add_right _ _, ?_⟩
  simp only [byteLength_append]
  omega

/-- A fault that has a position reports one where the input can be cut, at the cursor or behind
it. -/
theorem Tiled.boundary_of_fails {input : Text} {steps : List Step} (tiled : Tiled input steps pass)
    {fault : DerivationError} (failed : pass.step.Fails generator fault after) {position : Nat}
    (reported : fault.position? = some position) :
    input.IsBoundary position ∧ pass.cursor ≤ position ∧ position ≤ byteLength input := by
  cases fault with
  | brackets place =>
    obtain rfl : place = position := Option.some.inj reported
    obtain ⟨_, symbol, inside, rest, _, rfl⟩ := fails_step_brackets_iff.mp failed
    exact @boundary_of_rest _ _ [symbol] ('(' :: inside) _ tiled rest
  | argument place cause =>
    obtain rfl : place = position := Option.some.inj reported
    obtain ⟨symbol, earlier, piece, later, behind, _, _, rest, _, _, rfl, _, _⟩ :=
      fails_step_argument_iff.mp failed
    have front : pass.rest = (symbol :: '(' :: lead earlier) ++
        (joinWith ',' (piece :: later) ++ ')' :: behind) := by
      rw [rest, joinWith_append_cons]
      simp
    have bracket : '('.utf8Size = 1 := by decide
    have length : pass.cursor + symbol.utf8Size + 1 + byteLength (lead earlier) =
        pass.cursor + byteLength (symbol :: '(' :: lead earlier) := by
      simp only [byteLength_cons, bracket]
      omega
    rw [length]
    exact tiled.boundary_of_rest front
  | ambiguousSymbol symbol place =>
    obtain rfl : place = position := Option.some.inj reported
    obtain ⟨rfl, _⟩ := ambiguous_of_fails_step failed
    exact @boundary_of_rest _ _ [] pass.rest _ tiled rfl
  | _ => cases reported

/-- A step that fails leaves the pass as it was, told in place with every change at its time, and
reports a place at its own token: a boundary of the input that is not in front of the cursor. It
is the place where a list opens exactly if this list does not end, the cursor for a symbol that
several rules fit, and for an argument the place where the first one begins that does not compile
or has no value. -/
theorem faults_of_step {grammar : Grammar} {constants : Constants} {input : Text}
    {steps : List Step} (taken : (start grammar constants input).Takes steps pass) :
    (∃ before, input = before ++ pass.rest ∧ byteLength before = pass.cursor) ∧
    (∀ generator fault left after,
      ((InPlace.step pass.grammar pass.constants).outcome pass.progress).run generator =
          some ((.error fault, left), after) ↔
        pass.step.Fails generator fault after ∧ left = pass.progress) ∧
    (∀ generator fault after position, pass.step.Fails generator fault after →
      fault.position? = some position →
        input.IsBoundary position ∧ pass.cursor ≤ position ∧ position ≤ byteLength input) ∧
    (∀ generator position after, pass.step.Fails generator (.brackets position) after ↔
      generator = after ∧ ∃ symbol inside, pass.rest = symbol :: '(' :: inside ∧ Unclosed inside ∧
        position = pass.cursor + symbol.utf8Size) ∧
    (∀ generator symbol position after,
      pass.step.Fails generator (.ambiguousSymbol symbol position) after →
        position = pass.cursor ∧ pass.rest.head? = some symbol) ∧
    ∀ generator position cause after, pass.step.Fails generator (.argument position cause) after ↔
      ∃ symbol earlier piece later behind values between,
        pass.rest = symbol :: '(' :: (joinWith ',' (earlier ++ piece :: later) ++ ')' :: behind) ∧
        Balanced (joinWith ',' (earlier ++ piece :: later)) ∧
        (∀ place, ParameterList.arguments place (joinWith ',' (earlier ++ piece :: later)) =
          .ok (earlier ++ piece :: later)) ∧
        position = pass.cursor + symbol.utf8Size + 1 + byteLength (lead earlier) ∧
        (Replacement.evaluatePieces pass.constants (pass.cursor + symbol.utf8Size + 1)
          earlier).Gives generator values between ∧
        (Expression.evaluateText piece ⟨[], pass.constants⟩).Fails between cause after := by
  refine ⟨taken.tiled.rest, fun _ _ _ _ => outcome_step_eq_error_iff, ?_,
    fun _ _ _ => fails_step_brackets_iff, fun _ _ _ _ => ambiguous_of_fails_step,
    fun _ _ _ _ => fails_step_argument_iff⟩
  intro generator fault after position failed reported
  exact taken.tiled.boundary_of_fails failed reported

/-- Behind a symbol of two bytes the second argument has no value. -/
theorem faults_of_step_second_argument :
    ∃ pass, (start .empty .empty "éA(1,2+)".toList).Takes [⟨⟨0, 2⟩, ⟨0, 2⟩⟩] pass ∧
      pass.step.Fails default (.argument 6 .unexpectedEnd) default ∧
      ((InPlace.step pass.grammar pass.constants).outcome pass.progress).run default =
        some ((.error (.argument 6 .unexpectedEnd), pass.progress), default) ∧
      Text.IsBoundary "éA(1,2+)".toList 6 := by
  have found : Token.first? (start .empty .empty "éA(1,2+)".toList).rest =
      some (⟨'é', none⟩, "A(1,2+)".toList) := by
    decide +kernel
  have kept : (Grammar.empty.rewriteToken .empty 0 ⟨'é', none⟩).Gives default ['é'] default := by
    decide +kernel
  have given := gives_step_iff.mpr (.inr ⟨_, _, _, found, kept, rfl⟩)
  have taken : (start .empty .empty "éA(1,2+)".toList).Takes [⟨⟨0, 2⟩, ⟨0, 2⟩⟩] _ :=
    .concat .nil given
  obtain ⟨_, in_place, boundary, _, _, argument⟩ := faults_of_step taken
  have one : (Replacement.evaluatePieces .empty 4 ["1".toList]).Gives default [1] default := by
    decide +kernel
  have refused : (Expression.evaluateText "2+".toList ⟨[], .empty⟩).outcome default =
      some (.error .unexpectedEnd, default) := by
    decide +kernel
  have failed := (argument default 6 .unexpectedEnd default).mpr
    ⟨'A', ["1".toList], "2+".toList, [], [], [1], default, rfl, by decide,
      fun _ => rfl, by decide, one, refused⟩
  exact ⟨_, taken, failed, (in_place _ _ _ _).mpr ⟨failed, rfl⟩,
    (boundary _ _ _ _ failed rfl).1⟩

end Pass

end Arbor
