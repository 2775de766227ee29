import Arbor.Proofs.ByteScan
import Arbor.Proofs.Derivations
import Arbor.Turtle.Interpretation

/-!
# Groups that are closed fall into arguments

The end of a group and its arguments are found by two walks that count brackets, one from outside of
the group and one from inside. Where the first walk finds the closing bracket of a group, it is the
first place at which the text from the opening bracket on closes as many brackets as it opens. Then
the second walk cannot fail: it finds arguments that make up the contents, and there are no others.
So wherever a group is looked for first and its arguments then, only the first search can find a
fault of brackets. This is so for the slots of a text, for the arguments of a symbol that is
rewritten and for the parameters that are read.
-/
namespace Arbor

open Text

namespace Text

/-- The character at this offset is the first one behind which as many brackets are closed as are
opened. -/
def IsFirstEven (text : Text) (offset : Nat) : Prop :=
  ∃ before c after, text = before ++ c :: after ∧ offset = byteLength before ∧
    (before ++ [c]).count '(' = (before ++ [c]).count ')' ∧
      ∀ front, front <+: before → front ≠ [] → front.count '(' ≠ front.count ')'

/-- Behind the opening bracket of a group more brackets are open than closed up to its end. -/
theorem isFirstEven_of_balanced {contents : Text} (balanced : Balanced contents) (after : Text) :
    IsFirstEven ('(' :: (contents ++ ')' :: after)) (byteLength contents + 1) := by
  have parenthesis : '('.utf8Size = 1 := by decide
  refine ⟨'(' :: contents, ')', after, rfl, ?_, ?_, ?_⟩
  · rw [byteLength_cons, parenthesis, Nat.add_comm]
  · have even := balanced.enclosed.settled
    rwa [List.cons_append]
  · intro front within some
    cases front with
    | nil => exact absurd rfl some
    | cons first inner =>
      obtain ⟨rfl, inside⟩ := List.cons_prefix_cons.mp within
      have covered := balanced.covered inner inside
      simp only [List.count_cons_self, ne_eq, List.count_cons_of_ne (by decide : '(' ≠ ')')]
      omega

/-! ## Arguments -/

/-- A text is balanced, and every comma in it stands within some brackets of the text. -/
structure IsArgument (piece : Text) : Prop where
  balanced : Balanced piece
  enclosed : ∀ front back, piece = front ++ ',' :: back → front.count '(' ≠ front.count ')'

/-- Arguments are the texts that no comma divides. In front of a place of a balanced text as many
brackets are closed as are opened exactly if the walk along the text is outside there. -/
theorem isArgument_iff {piece : Text} : IsArgument piece ↔ Undivided 0 piece := by
  constructor
  · rintro ⟨balanced, enclosed⟩
    refine ⟨(balanced_iff piece).mp balanced, fun front back split outside => ?_⟩
    exact enclosed front back split ((balanced_iff front).mpr outside).settled
  · intro undivided
    refine ⟨undivided.balanced, fun front back split even => ?_⟩
    have covered : ∀ before, before <+: front → before.count ')' ≤ before.count '(' :=
      fun before within => undivided.balanced.covered before
        (within.trans (split ▸ List.prefix_append front (',' :: back)))
    exact undivided.commas front back split ((balanced_iff front).mp ⟨covered, even⟩)

/-- Texts are arguments and make up contents with commas between them. -/
structure AreArguments (pieces : List Text) (contents : Text) : Prop where
  joined : joinWith ',' pieces = contents
  each : ∀ piece ∈ pieces, IsArgument piece

/-- Contents that are not empty are made up of arguments in one way only. -/
theorem AreArguments.unique {pieces others : List Text} {contents : Text} (some : contents ≠ [])
    (arguments : AreArguments pieces contents) (arguments' : AreArguments others contents) :
    pieces = others := by
  have nonempty {texts : List Text} (joined : joinWith ',' texts = contents) : texts ≠ [] := by
    rintro rfl
    exact some joined.symm
  exact eq_of_joinWith_eq (nonempty arguments.joined) (nonempty arguments'.joined)
    (fun piece among => isArgument_iff.mp (arguments.each piece among))
    (fun piece among => isArgument_iff.mp (arguments'.each piece among))
    (arguments.joined.trans arguments'.joined.symm)

/-- Pieces with commas between them are found where they stand, also behind another text. -/
theorem map_slice_spansFrom (before : Text) (pieces : List Text) :
    (spansFrom (byteLength before) pieces).map (slice (before ++ joinWith ',' pieces)) = pieces := by
  induction pieces generalizing before with
  | nil => rfl
  | cons piece pieces ih =>
    obtain ⟨rest, joined, ends⟩ := joinWith_eq_append piece pieces
    rw [spansFrom, List.map_cons, joined, slice_append]
    rcases ends with ⟨rfl, rfl⟩ | ⟨_, rfl⟩
    · rfl
    · have comma : ','.utf8Size = 1 := by decide
      have later := ih (before ++ (piece ++ [',']))
      simp only [byteLength_append, byteLength_cons, byteLength_nil, comma, List.append_assoc,
        List.cons_append, List.nil_append, ← Nat.add_assoc, Nat.add_zero] at later
      rw [later]

end Text

/-- Arguments that are read have no fault of brackets. -/
theorem Interpretation.readParameters_ne_brackets (symbol : Char) (position place : Nat)
    (pieces : List Text) : readParameters symbol position pieces ≠ .error (.brackets place) := by
  induction pieces generalizing position with
  | nil => exact nofun
  | cons piece pieces ih =>
    rw [readParameters]
    split
    · exact nofun
    · rw [ne_eq, map_eq_error_iff]
      exact ih _

namespace ParameterList

/-- The end of a group is found behind balanced contents. -/
theorem exists_of_closingOffset {rest : Text} {offset : Nat}
    (closes : closingOffset ('(' :: rest) = .ok offset) :
    ∃ contents after, rest = contents ++ ')' :: after ∧ Balanced contents ∧
      offset = byteLength contents + 1 := by
  cases cut : splitAtClose 1 1 rest with
  | error fault => cases (closingOffset_of_error cut).symm.trans closes
  | ok parts =>
    obtain ⟨contents, after⟩ := parts
    obtain ⟨split, closed⟩ := (splitAtClose_eq_ok_iff 0 1 rest contents after).mp cut
    have same := Except.ok.inj ((closingOffset_of_ok cut).symm.trans closes)
    exact ⟨contents, after, split, (balanced_iff contents).mpr closed, same.symm⟩

/-- Behind the closing bracket of a group the rest of the text stands. -/
theorem dropBytes_group (before contents after : Text) :
    dropBytes (byteLength before + (byteLength contents + 1) + 1)
      (before ++ '(' :: (contents ++ ')' :: after)) = after := by
  have size : byteLength (before ++ '(' :: (contents ++ [')'])) =
      byteLength before + (byteLength contents + 1) + 1 := by
    rw [byteLength_append, byteLength_enclosed, Nat.add_assoc]
  have whole : before ++ '(' :: (contents ++ ')' :: after) =
      (before ++ '(' :: (contents ++ [')'])) ++ after := by
    simp only [List.append_assoc, List.cons_append, List.nil_append]
  rw [← size, whole, dropBytes_byteLength_append]

/-- The arguments of balanced contents make them up. -/
theorem areArguments_of_balanced {contents : Text} (balanced : Balanced contents) :
    ∃ pieces, AreArguments pieces contents ∧
      ∀ position, arguments position contents = .ok pieces := by
  obtain ⟨pieces, joined, found⟩ := arguments_of_balanced balanced
  have undivided := undivided_of_arguments balanced (found 0)
  exact ⟨pieces, ⟨joined, fun piece among => isArgument_iff.mpr (undivided piece among)⟩, found⟩

/-- Where a group is closed, the end that is found is the first place at which as many brackets are
closed as are opened. Its contents fall into arguments that make them up, and contents that are not
empty do so in no other way. So none of those who look for the group first and for its arguments
then finds a fault of brackets in it: the search for slots goes on behind the group, and neither the
evaluation of its arguments nor the reading of its parameters fails for its brackets. -/
theorem splits_of_closingOffset {text before rest : Text} (opens : text = before ++ '(' :: rest)
    {offset : Nat} (closes : closingOffset (dropBytes (byteLength before) text) = .ok offset) :
    let start := byteLength before
    let contents := slice text ⟨start + 1, start + offset⟩
    IsFirstEven (dropBytes start text) offset ∧
      (∃ spans, argumentSpans contents = .ok spans ∧
        AreArguments (spans.map (slice contents)) contents ∧
        (contents ≠ [] → ∀ pieces, AreArguments pieces contents →
          pieces = spans.map (slice contents)) ∧
        scanSlots text start = (scanSlots text (start + offset + 1)).map
          (spans.map (Span.shift (start + 1)) ++ ·)) ∧
      take start (dropBytes start text) =
        .ok (some contents, dropBytes (start + offset + 1) text) ∧
      (∀ constants, (Replacement.evaluateArguments constants (start + 1) contents).FailsOnly
        DerivationError.Unbracketed) ∧
      ∀ symbol place, Interpretation.takeParameters symbol start (dropBytes start text) ≠
        .error (.brackets place) := by
  intro start contents
  subst opens
  have here : dropBytes start (before ++ '(' :: rest) = '(' :: rest :=
    dropBytes_byteLength_append before ('(' :: rest)
  obtain ⟨inner, after, rfl, balanced, rfl⟩ := exists_of_closingOffset (here ▸ closes)
  have inside : contents = inner := slice_contents before inner after
  have behind : dropBytes (start + (byteLength inner + 1) + 1)
      (before ++ '(' :: (inner ++ ')' :: after)) = after := dropBytes_group before inner after
  have taken : take start ('(' :: (inner ++ ')' :: after)) = .ok (some inner, after) :=
    take_eq_some_iff.mpr ⟨rfl, balanced⟩
  obtain ⟨pieces, proper, found⟩ := areArguments_of_balanced balanced
  have spans : argumentSpans inner = .ok (spansFrom 0 pieces) := by
    rw [argumentSpans, found]
    rfl
  have slices : (spansFrom 0 pieces).map (slice inner) = pieces := by
    have parts := map_slice_spansFrom [] pieces
    rwa [proper.joined] at parts
  rw [here, behind, inside]
  refine ⟨isFirstEven_of_balanced balanced after, ⟨spansFrom 0 pieces, spans, ?_, ?_, ?_⟩, taken,
    ?_, ?_⟩
  · rwa [slices]
  · intro some others arguments
    rw [slices]
    exact arguments.unique some proper
  · have later := @scanSlots_list before inner after balanced pieces found
    rwa [map_shift_spansFrom, Nat.zero_add]
  · intro constants
    exact Replacement.failsOnly_evaluateArguments DerivationError.atTokens_unbracketed balanced _
  · intro symbol place failed
    rw [Interpretation.takeParameters, taken] at failed
    dsimp only at failed
    rw [found, map_eq_error_iff] at failed
    exact Interpretation.readParameters_ne_brackets symbol _ place pieces failed

/-- An inner group and an empty argument at the end are arguments of their own. -/
theorem splits_of_closingOffset_nested :
    ∃ text rest, text = ['é'] ++ '(' :: rest ∧
      closingOffset (dropBytes (byteLength ['é']) text) = .ok 11 ∧
        ∀ pieces, AreArguments pieces "ä,f(b,c),".toList →
          pieces = ["ä".toList, "f(b,c)".toList, []] := by
  let rest : Text := "ä,f(b,c),)()".toList
  have closes : closingOffset (dropBytes (byteLength ['é']) (['é'] ++ '(' :: rest)) = .ok 11 := by
    decide
  obtain ⟨_, ⟨spans, found, _, unique, _⟩, _⟩ := splits_of_closingOffset rfl closes
  obtain rfl : [⟨0, 2⟩, ⟨3, 9⟩, ⟨10, 10⟩] = spans := Except.ok.inj (.trans (by decide) found)
  exact ⟨_, rest, rfl, closes, fun pieces arguments => unique (by decide) pieces arguments⟩

end ParameterList

end Arbor
