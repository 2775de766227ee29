import Arbor.Proofs.Branching

/-!
# Walks that go on

A turtle on its way through a sequence knows nothing of what comes later. A text that stands
behind a sequence changes nothing of the way through the sequence, unless it begins with an
opening bracket, which would open a list of the last symbol. From any place on this way the
walk goes on as it would if it began there, so what it makes of the whole is what further
actions make of the turtle that it has come to.
-/
namespace Arbor

variable {π : Type}

/-- A list that a text begins with is there also if more text follows. -/
theorem ParameterList.take_append {position : Nat} {text after more : Text}
    {contents? : Option Text} (taken : take position text = .ok (contents?, after))
    (bare : more.head? ≠ some '(') :
    take position (text ++ more) = .ok (contents?, after ++ more) := by
  cases contents? with
  | some contents =>
    obtain ⟨rfl, balanced⟩ := take_eq_some_iff.mp taken
    exact take_eq_some_iff.mpr ⟨by simp, balanced⟩
  | none =>
    obtain ⟨none, rfl⟩ := take_eq_none_iff.mp taken
    refine take_eq_none_iff.mpr ⟨?_, rfl⟩
    cases text with
    | nil => exact bare
    | cons c rest => exact none

namespace Interpretation

variable {interpretation : Interpretation π} {more : Text}

/-! ## Texts in front of others -/

/-- Parameters that were read are read also if more text follows. -/
theorem takeParameters_append {symbol : Char} {position place : Nat} {text after : Text}
    {parameters : Option (List Float32)}
    (taken : takeParameters symbol position text = .ok (parameters, place, after))
    (bare : more.head? ≠ some '(') :
    takeParameters symbol position (text ++ more) = .ok (parameters, place, after ++ more) := by
  unfold takeParameters at taken ⊢
  split at taken
  · cases taken
  · next found =>
    cases taken
    rw [ParameterList.take_append found bare]
  · next contents rest found =>
    rw [ParameterList.take_append found bare]
    dsimp only
    split at taken
    · cases taken
    · obtain ⟨values, read, same⟩ := map_eq_ok_iff.mp taken
      cases same
      exact map_eq_ok_iff.mpr ⟨values, read, rfl⟩

/-- A list that was skipped is skipped also if more text follows. -/
theorem skipParameters_append {position place : Nat} {text after : Text}
    (skipped : skipParameters position text = .ok (place, after))
    (bare : more.head? ≠ some '(') :
    skipParameters position (text ++ more) = .ok (place, after ++ more) := by
  unfold skipParameters at skipped ⊢
  split at skipped
  · cases skipped
  · next found =>
    cases skipped
    rw [ParameterList.take_append found bare]
  · next found =>
    cases skipped
    rw [ParameterList.take_append found bare]

variable [Part π]

/-- What a symbol does it does also if more text follows. -/
theorem Does.append {symbol : Char} {position place : Nat} {rest after : Text}
    {actions : List (TurtleAction π)}
    (does : interpretation.Does symbol position rest actions (place, after))
    (bare : more.head? ≠ some '(') :
    interpretation.Does symbol position (rest ++ more) actions (place, after ++ more) := by
  cases does with
  | rotate meaning taken => exact .rotate meaning (takeParameters_append taken bare)
  | draw meaning present taken enough =>
    exact .draw meaning present (takeParameters_append taken bare) enough
  | nothing meaning absent taken => exact .nothing meaning absent (takeParameters_append taken bare)
  | push meaning => exact .push meaning
  | pop meaning => exact .pop meaning
  | ignore meaning skipped => exact .ignore meaning (skipParameters_append skipped bare)

/-- On the way through a sequence the turtle comes past the same frames and nodes if more text
follows. -/
theorem Reaches.append {sequence rest : Text} {turtle : Turtle π} {position : Nat}
    (reached : interpretation.Reaches sequence turtle position rest)
    (bare : more.head? ≠ some '(') :
    interpretation.Reaches (sequence ++ more) turtle position (rest ++ more) := by
  induction reached with
  | start => exact .start
  | act _ acted ih =>
    obtain ⟨actions, does, rfl⟩ := act_eq_ok_iff.mp acted
    exact .act ih (act_eq_ok_iff.mpr ⟨actions, does.append bare, rfl⟩)

/-! ## Going on from a place -/

/-- As many steps as there are characters are enough, and more change nothing. -/
theorem walk_congr {count other : Nat} {turtle : Turtle π} {position : Nat} {text : Text}
    (enough : text.length ≤ count) (also : text.length ≤ other) :
    interpretation.walk count turtle position text =
      interpretation.walk other turtle position text := by
  induction count generalizing other turtle position text with
  | zero =>
    obtain rfl : text = [] := List.eq_nil_of_length_eq_zero (Nat.le_zero.mp enough)
    cases other <;> rfl
  | succ count ih =>
    cases text with
    | nil => cases other <;> rfl
    | cons symbol rest =>
      cases other with
      | zero => simp at also
      | succ other =>
        simp only [walk]
        cases acted : interpretation.act turtle symbol position rest with
        | error fault => rfl
        | ok parts =>
          obtain ⟨next, place, after⟩ := parts
          have shorter := length_le_of_act acted
          simp only [List.length_cons] at enough also
          have fits : after.length ≤ count := by omega
          have fitting : after.length ≤ other := by omega
          exact ih fits fitting

/-- The turtle behind a whole sequence is the one behind a walk from any place on the way. -/
theorem finalTurtle_of_reaches {sequence rest : Text} {turtle : Turtle π} {position : Nat}
    (reached : interpretation.Reaches sequence turtle position rest) :
    interpretation.finalTurtle sequence =
      interpretation.walk rest.length turtle position rest := by
  induction reached with
  | start => rfl
  | act _ acted ih =>
    have shorter := length_le_of_act acted
    rw [ih, List.length_cons, walk, acted]
    exact walk_congr shorter (Nat.le_refl _)

/-- A sequence has the fault of the symbol at which the turtle stops. -/
theorem finalTurtle_eq_error_iff {sequence : Text} {fault : InterpretationError} :
    interpretation.finalTurtle sequence = .error fault ↔
      ∃ turtle position symbol rest,
        interpretation.Reaches sequence turtle position (symbol :: rest) ∧
          interpretation.act turtle symbol position rest = .error fault := by
  constructor
  · have walked (count : Nat) {turtle : Turtle π} {position : Nat} {rest : Text}
        (reached : interpretation.Reaches sequence turtle position rest)
        (failed : interpretation.walk count turtle position rest = .error fault) :
        ∃ turtle position symbol rest,
          interpretation.Reaches sequence turtle position (symbol :: rest) ∧
            interpretation.act turtle symbol position rest = .error fault := by
      induction count generalizing turtle position rest with
      | zero => cases failed
      | succ count ih =>
        cases rest with
        | nil => cases failed
        | cons symbol rest =>
          rcases bind_eq_error_iff.mp failed with here | ⟨⟨next, place, after⟩, acted, later⟩
          · exact ⟨turtle, position, symbol, rest, reached, here⟩
          · exact ih (.act reached acted) later
    exact walked _ .start
  · rintro ⟨turtle, position, symbol, rest, reached, failed⟩
    rw [finalTurtle_of_reaches reached, List.length_cons, walk, failed]
    rfl

/-- A walk makes the turtle do one thing after the other. -/
theorem exists_performAll_of_walk {count position : Nat} {turtle last : Turtle π} {text : Text}
    (walked : interpretation.walk count turtle position text = .ok last) :
    ∃ actions, last = turtle.performAll actions := by
  induction count generalizing turtle position text with
  | zero => exact ⟨[], (Except.ok.inj walked).symm⟩
  | succ count ih =>
    cases text with
    | nil => exact ⟨[], (Except.ok.inj walked).symm⟩
    | cons symbol rest =>
      obtain ⟨⟨next, place, after⟩, acted, walked⟩ := bind_eq_ok_iff.mp walked
      obtain ⟨first, _, rfl⟩ := act_eq_ok_iff.mp acted
      obtain ⟨later, rfl⟩ := ih walked
      refine ⟨first ++ later, ?_⟩
      rw [Turtle.performAll, Turtle.performAll, Turtle.performAll, List.foldl_append]

/-- The tree of a longer sequence is what further actions make of a turtle with the tree of the
sequence. -/
theorem exists_performAll_of_append {first second : Text} (bare : second.head? ≠ some '(')
    {tree longer : PartTree π} (grown : interpretation.tree first = .ok tree)
    (further : interpretation.tree (first ++ second) = .ok longer) :
    ∃ (turtle : Turtle π) (actions : List (TurtleAction π)),
      turtle.tree = tree ∧ (turtle.performAll actions).tree = longer := by
  obtain ⟨turtle, place, _, same, reached⟩ := exists_reaches_of_tree grown
  obtain ⟨last, walked, made⟩ := map_eq_ok_iff.mp further
  rw [finalTurtle_of_reaches (reached.append bare)] at walked
  obtain ⟨actions, rfl⟩ := exists_performAll_of_walk walked
  exact ⟨turtle, actions, same, made⟩

end Interpretation

end Arbor
