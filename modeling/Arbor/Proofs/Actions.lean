import Arbor.Proofs.ParameterLists
import Arbor.Proofs.Results
import Arbor.Turtle.Interpretation

/-!
# The actions of a turtle

A symbol makes the turtle do one thing or nothing. Which one it is depends on the symbol and
on the list behind it, but not on the turtle, and whatever the symbol takes is the start of
the text behind it. What a symbol does is said here once; that a walk succeeds means that
every symbol of it does something in this sense.
-/
namespace Arbor

open Text

variable {π : Type}

/-- Something that a turtle does. -/
inductive TurtleAction (π : Type) where
  | rotate (axis : Axis) (angle : Float32)
  | move (axis : Vec3) (distance : Float32)
  | save
  | restore
  | spawn (part : π) (parameters : List Float32)

namespace Turtle

variable [Part π]

/-- Does one thing. -/
def perform (turtle : Turtle π) : TurtleAction π → Turtle π
  | .rotate axis angle => turtle.rotate axis angle
  | .move axis distance => turtle.move axis distance
  | .save => turtle.save
  | .restore => turtle.restore
  | .spawn part parameters => turtle.spawn part parameters

/-- Does one thing after the other. -/
def performAll (turtle : Turtle π) (actions : List (TurtleAction π)) : Turtle π :=
  actions.foldl perform turtle

end Turtle

/-- Turning and drawing symbols read the arguments of their lists as numbers. -/
def TurtleCommand.TakesNumbers : TurtleCommand → Prop
  | .rotate _ => True
  | .draw _ => True
  | .push => False
  | .pop => False
  | .ignore => False

/-! ## Lists that are taken -/

/-- The number of bytes that a list takes, none if there is no list. -/
def ParameterList.extent : Option Text → Nat
  | none => 0
  | some contents => byteLength contents + 2

/-- A list that is taken is the start of the text. -/
theorem ParameterList.eq_append_of_take {position : Nat} {text after : Text}
    {contents? : Option Text} (taken : take position text = .ok (contents?, after)) :
    ∃ list, text = list ++ after ∧ byteLength list = extent contents? := by
  cases contents? with
  | none =>
    obtain ⟨_, rfl⟩ := take_eq_none_iff.mp taken
    exact ⟨[], rfl, rfl⟩
  | some contents =>
    obtain ⟨rfl, _⟩ := take_eq_some_iff.mp taken
    have brackets : '('.utf8Size = 1 ∧ ')'.utf8Size = 1 := by decide
    refine ⟨'(' :: (contents ++ [')']), by simp, ?_⟩
    simp only [byteLength_cons, byteLength_append, byteLength_nil, brackets, extent]
    omega

namespace Interpretation

variable {interpretation : Interpretation π}

/-- The list whose parameters are read is the one that the text begins with. -/
theorem exists_take_of_takeParameters {symbol : Char} {position place : Nat} {text after : Text}
    {parameters : Option (List Float32)}
    (taken : takeParameters symbol position text = .ok (parameters, place, after)) :
    ∃ contents?, ParameterList.take position text = .ok (contents?, after) ∧
      place = position + ParameterList.extent contents? := by
  unfold takeParameters at taken
  split at taken
  · cases taken
  · next rest found =>
    cases taken
    exact ⟨none, found, rfl⟩
  · next contents rest found =>
    split at taken
    · cases taken
    · obtain ⟨values, _, same⟩ := map_eq_ok_iff.mp taken
      cases same
      exact ⟨some contents, found, rfl⟩

/-- The list that is skipped is the one that the text begins with. -/
theorem exists_take_of_skipParameters {position place : Nat} {text after : Text}
    (skipped : skipParameters position text = .ok (place, after)) :
    ∃ contents?, ParameterList.take position text = .ok (contents?, after) ∧
      place = position + ParameterList.extent contents? := by
  unfold skipParameters at skipped
  split at skipped
  · cases skipped
  · next rest found =>
    cases skipped
    exact ⟨none, found, rfl⟩
  · next contents rest found =>
    cases skipped
    exact ⟨some contents, found, rfl⟩

/-! ## What a symbol does -/

variable [Part π]

/-- What a symbol at `position` in front of a text makes the turtle do, and the place behind
the symbol and what it took. -/
inductive Does (interpretation : Interpretation π) (symbol : Char) (position : Nat)
    (rest : Text) : List (TurtleAction π) → Nat × Text → Prop
  | rotate {axis : Axis} {angle : Float32} {others : List Float32} {place : Nat × Text} :
    interpretation.meanings.command symbol = .rotate axis →
      takeParameters symbol (position + symbol.utf8Size) rest =
        .ok (some (angle :: others), place) →
          Does interpretation symbol position rest [.rotate axis angle] place
  | draw {index : Nat} {part : π} {parameters : Option (List Float32)} {place : Nat × Text} :
    interpretation.meanings.command symbol = .draw index →
      interpretation.parts[index]? = some part →
        takeParameters symbol (position + symbol.utf8Size) rest = .ok (parameters, place) →
          Part.arity part ≤ (parameters.getD []).length →
            Does interpretation symbol position rest [.spawn part (parameters.getD [])] place
  | nothing {index : Nat} {parameters : Option (List Float32)} {place : Nat × Text} :
    interpretation.meanings.command symbol = .draw index →
      interpretation.parts[index]? = none →
        takeParameters symbol (position + symbol.utf8Size) rest = .ok (parameters, place) →
          Does interpretation symbol position rest [] place
  | push : interpretation.meanings.command symbol = .push →
      Does interpretation symbol position rest [.save] (position + symbol.utf8Size, rest)
  | pop : interpretation.meanings.command symbol = .pop →
      Does interpretation symbol position rest [.restore] (position + symbol.utf8Size, rest)
  | ignore {place : Nat × Text} : interpretation.meanings.command symbol = .ignore →
      skipParameters (position + symbol.utf8Size) rest = .ok place →
        Does interpretation symbol position rest [] place

/-- Acting on a symbol succeeds if the symbol does something, and then the turtle has done
it. -/
theorem act_eq_ok_iff {turtle next : Turtle π} {symbol : Char} {position : Nat} {rest : Text}
    {place : Nat × Text} :
    interpretation.act turtle symbol position rest = .ok (next, place) ↔
      ∃ actions, interpretation.Does symbol position rest actions place ∧
        next = turtle.performAll actions := by
  constructor
  · intro acted
    unfold act at acted
    cases meaning : interpretation.meanings.command symbol with
    | rotate axis =>
      simp only [meaning] at acted
      obtain ⟨⟨parameters, place⟩, taken, acted⟩ := bind_eq_ok_iff.mp acted
      dsimp only at acted
      split at acted
      · cases acted
      · cases acted
      · cases acted
        exact ⟨_, .rotate meaning taken, rfl⟩
    | draw index =>
      simp only [meaning] at acted
      obtain ⟨⟨parameters, place⟩, taken, acted⟩ := bind_eq_ok_iff.mp acted
      dsimp only at acted
      split at acted
      · next absent =>
        cases acted
        exact ⟨_, .nothing meaning absent taken, rfl⟩
      · next part present =>
        split at acted
        · cases acted
        · next enough =>
          cases acted
          exact ⟨_, .draw meaning present taken (Nat.le_of_not_lt enough), rfl⟩
    | push =>
      simp only [meaning, Except.ok.injEq, Prod.mk.injEq] at acted
      obtain ⟨rfl, rfl⟩ := acted
      exact ⟨_, .push meaning, rfl⟩
    | pop =>
      simp only [meaning, Except.ok.injEq, Prod.mk.injEq] at acted
      obtain ⟨rfl, rfl⟩ := acted
      exact ⟨_, .pop meaning, rfl⟩
    | ignore =>
      simp only [meaning] at acted
      obtain ⟨behind, skipped, same⟩ := map_eq_ok_iff.mp acted
      cases same
      exact ⟨_, .ignore meaning skipped, rfl⟩
  · rintro ⟨actions, does, rfl⟩
    unfold act
    cases does with
    | rotate meaning taken => simp only [meaning, taken]; rfl
    | draw meaning present taken enough =>
      simp only [meaning, taken, bind, Except.bind, present, if_neg (Nat.not_lt_of_le enough)]
      rfl
    | nothing meaning absent taken =>
      simp only [meaning, taken, bind, Except.bind, absent]
      rfl
    | push meaning => simp only [meaning]; rfl
    | pop meaning => simp only [meaning]; rfl
    | ignore meaning skipped => simp only [meaning, skipped]; rfl

/-- What a symbol takes is the start of the text behind it. -/
theorem Does.exists_append {symbol : Char} {position place : Nat} {rest after : Text}
    {actions : List (TurtleAction π)}
    (does : interpretation.Does symbol position rest actions (place, after)) :
    ∃ list, rest = list ++ after ∧ place = position + symbol.utf8Size + byteLength list := by
  have list {contents? : Option Text}
      (found : ParameterList.take (position + symbol.utf8Size) rest = .ok (contents?, after) ∧
        place = position + symbol.utf8Size + ParameterList.extent contents?) :
      ∃ list, rest = list ++ after ∧ place = position + symbol.utf8Size + byteLength list := by
    obtain ⟨taken, rfl⟩ := found
    obtain ⟨list, split, length⟩ := ParameterList.eq_append_of_take taken
    exact ⟨list, split, by rw [length]⟩
  cases does with
  | rotate _ taken => exact list (exists_take_of_takeParameters taken).choose_spec
  | draw _ _ taken _ => exact list (exists_take_of_takeParameters taken).choose_spec
  | nothing _ _ taken => exact list (exists_take_of_takeParameters taken).choose_spec
  | push _ => exact ⟨[], rfl, rfl⟩
  | pop _ => exact ⟨[], rfl, rfl⟩
  | ignore _ skipped => exact list (exists_take_of_skipParameters skipped).choose_spec

/-- A symbol refuses a parameter if and only if it takes numbers and refuses one in its list. -/
theorem act_eq_invalidParameter_iff {turtle : Turtle π} {symbol other : Char} {position place : Nat}
    {rest piece : Text} :
    interpretation.act turtle symbol position rest = .error (.invalidParameter other place piece) ↔
      (interpretation.meanings.command symbol).TakesNumbers ∧
        takeParameters symbol (position + symbol.utf8Size) rest =
          .error (.invalidParameter other place piece) := by
  unfold act
  cases interpretation.meanings.command symbol with
  | rotate axis =>
    constructor
    · intro failed
      rcases bind_eq_error_iff.mp failed with refused | ⟨⟨parameters, behind⟩, _, failed⟩
      · exact ⟨trivial, refused⟩
      · dsimp only at failed
        split at failed <;> cases failed
    · rintro ⟨_, refused⟩
      exact bind_eq_error_iff.mpr (.inl refused)
  | draw index =>
    constructor
    · intro failed
      rcases bind_eq_error_iff.mp failed with refused | ⟨⟨parameters, behind⟩, _, failed⟩
      · exact ⟨trivial, refused⟩
      · dsimp only at failed
        split at failed
        · cases failed
        · split at failed <;> cases failed
    · rintro ⟨_, refused⟩
      exact bind_eq_error_iff.mpr (.inl refused)
  | push => exact iff_of_false nofun (fun both => both.1)
  | pop => exact iff_of_false nofun (fun both => both.1)
  | ignore =>
    refine iff_of_false ?_ (fun both => both.1)
    simp only [map_eq_error_iff, skipParameters]
    split <;> nofun

end Interpretation

end Arbor
