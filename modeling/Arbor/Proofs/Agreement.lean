import Mathlib.Data.List.Infix
import Arbor.Proofs.Passes
import Arbor.Proofs.Slots

/-!
# A sequence as the body of a rule

A sequence can be given its numbers in two ways. A pass without rules takes it symbol by
symbol, looks for the list of each, and joins the values of its arguments again. A rule
with the sequence as its body has its slots found and compiled first and filled
afterwards. On a balanced text whose lists all follow a symbol both draw the same numbers,
have values for the same texts and write the same text.

The pass has no other place for a list than behind a symbol. Where a list stands at the
start of a text or behind another list, its opening bracket is a symbol for the pass, and
the two ways part.
-/
namespace Arbor

open Text

/-- No list outside of brackets stands at the start of a text or directly behind another
list. -/
def Text.ListsFollowSymbols (text : Text) : Prop :=
  ∀ before, before ++ ['('] <+: text → before.count '(' = before.count ')' →
    before ≠ [] ∧ before.getLast? ≠ some ')'

/-- Only the prefixes of a text have to be looked at. -/
theorem Text.listsFollowSymbols_iff (text : Text) :
    ListsFollowSymbols text ↔ ∀ before ∈ text.inits, before ++ ['('] <+: text →
      before.count '(' = before.count ')' → before ≠ [] ∧ before.getLast? ≠ some ')' := by
  constructor
  · intro follow before _
    exact follow before
  · intro follow before within
    exact follow before ((List.mem_inits before text).mpr
      ((List.prefix_append before ['(']).trans within)) within

instance (text : Text) : Decidable (ListsFollowSymbols text) :=
  decidable_of_iff _ (listsFollowSymbols_iff text).symm

/-! ## The pass -/

/-- The value of a part of a sequence, which is compiled and evaluated at once. -/
def Replacement.evaluatePart (constants : Constants) (part : Span × Text) :
    Attempt DerivationError Float :=
  (Expression.evaluateText part.2 ⟨[], constants⟩).mapError (.argument part.1.start)

namespace Replacement

variable {constants : Constants}

/-- The arguments of a list are evaluated at the places where they stand. -/
theorem evaluatePieces_eq (position : Nat) (pieces : List Text) :
    evaluatePieces constants position pieces =
      ((spansFrom position pieces).zip pieces).mapM (evaluatePart constants) := by
  induction pieces generalizing position with
  | nil => rfl
  | cons piece pieces ih =>
    simp only [evaluatePieces, spansFrom, List.zip_cons_cons, List.mapM_cons, evaluatePart, ih]

end Replacement

namespace Segment

/-- Each group stands directly behind a character. -/
def Attached : List Segment → Prop
  | [] => True
  | .symbol _ :: .group _ :: segments => Attached segments
  | .symbol _ :: segments => Attached segments
  | .group _ :: _ => False

/-- The segments of a text whose lists follow symbols are attached. The induction goes along
the text with what stands `before` the segments; a group in front of them would stand at
the start or behind the closing bracket of another one. -/
theorem attached_of_listsFollowSymbols {segments : List Segment}
    (proper : ∀ segment ∈ segments, segment.Proper) {before : Text}
    (even : before.count '(' = before.count ')')
    (bare : ∀ arguments later, segments = .group arguments :: later →
      before = [] ∨ before.getLast? = some ')')
    (follow : ListsFollowSymbols (before ++ textOfAll segments)) : Attached segments := by
  fun_induction Attached segments generalizing before with
  | case1 => trivial
  | case2 c arguments segments ih =>
    obtain ⟨symbol, later⟩ := List.forall_mem_cons.mp proper
    obtain ⟨group, later⟩ := List.forall_mem_cons.mp later
    have settled := group.1.settled
    refine @ih later (before ++ (text (.symbol c) ++ text (.group arguments))) ?_ ?_ ?_
    · simp only [text, List.count_append, List.count_cons, List.count_nil]
      grind [Proper]
    · intro _ _ _
      exact Or.inr (List.getLast?_eq_some_iff.mpr
        ⟨before ++ c :: '(' :: joinWith ',' arguments, by simp [text]⟩)
    · simpa [text] using follow
  | case3 c segments single ih =>
    obtain ⟨symbol, later⟩ := List.forall_mem_cons.mp proper
    refine @ih later (before ++ text (.symbol c)) ?_ ?_ ?_
    · simp only [text, List.count_append, List.count_cons, List.count_nil]
      grind [Proper]
    · intro arguments others same
      exact absurd same (single arguments others)
    · simpa [text] using follow
  | case4 arguments segments =>
    have opened : before ++ ['('] <+: before ++ textOfAll (.group arguments :: segments) := by
      simp
    obtain ⟨some, unlike⟩ := follow before opened even
    rcases bare arguments segments rfl with empty | last
    · exact absurd empty some
    · exact absurd last unlike

end Segment

namespace Grammar

variable {constants : Constants}

/-- Without rules a symbol stays as it is. -/
theorem rewriteToken_empty_none (symbol : Char) (position : Nat) :
    empty.rewriteToken constants position ⟨symbol, none⟩ = pure [symbol] := rfl

/-- Without rules the arguments of a symbol are replaced by their values. -/
theorem rewriteToken_empty_some {arguments : List Text}
    (found : ∀ position, ParameterList.arguments position (joinWith ',' arguments) = .ok arguments)
    (symbol : Char) (position : Nat) :
    empty.rewriteToken constants position ⟨symbol, some (joinWith ',' arguments)⟩ = (do
      let actuals ← ((spansFrom (position + symbol.utf8Size + 1) arguments).zip arguments).mapM
        (Replacement.evaluatePart constants)
      pure (Replacement.flatten symbol actuals)) := by
  simp only [rewriteToken, Replacement.ofSymbolWithList, Replacement.evaluateArguments, found,
    Replacement.evaluatePieces_eq]
  rfl

/-- A pass without rules replaces the arguments of attached segments by their values. Each
step takes a character, with the group behind it if there is one. -/
theorem rewriteFrom_textOfAll {segments : List Segment}
    (proper : ∀ segment ∈ segments, segment.Proper) (attached : Segment.Attached segments)
    (position : Nat) :
    empty.rewriteFrom constants position (Segment.textOfAll segments) = (do
      let values ← (Segment.placed position segments).mapM (Replacement.evaluatePart constants)
      pure (Segment.fill segments (values.map formatNumber))) := by
  fun_induction Segment.Attached segments generalizing position with
  | case1 =>
    simp [Segment.placed, Segment.fill]
  | case2 c arguments segments ih =>
    obtain ⟨_, later⟩ := List.forall_mem_cons.mp proper
    obtain ⟨⟨balanced, found⟩, later⟩ := List.forall_mem_cons.mp later
    have first : Token.first?
        (Segment.textOfAll (.symbol c :: .group arguments :: segments)) =
          some (⟨c, some (joinWith ',' arguments)⟩, Segment.textOfAll segments) := by
      refine Token.first?_eq_some_iff.mpr ⟨?_, balanced⟩
      simp [Token.text]
    have behind : position + byteLength (Token.text ⟨c, some (joinWith ',' arguments)⟩) =
        position + c.utf8Size + byteLength (joinWith ',' arguments) + 2 := by
      have brackets : '('.utf8Size = 1 ∧ ')'.utf8Size = 1 := by decide
      simp only [Token.text, byteLength_cons, byteLength_append, byteLength_nil, brackets]
      omega
    rw [rewriteFrom_of_some first, rewriteToken_empty_some found, behind, ih later attached,
      Segment.placed, Segment.placed, List.mapM_append]
    simp only [bind_assoc, pure_bind]
    refine Attempt.bind_congr_of_gives fun _ actuals _ given => ?_
    have enough : arguments.length = (actuals.map formatNumber).length := by
      have count := Attempt.length_of_gives_mapM given
      rw [List.length_zip, length_spansFrom, Nat.min_self] at count
      rw [List.length_map, count]
    refine bind_congr fun values => ?_
    rw [List.map_append, Segment.fill, Segment.fill, enough, List.take_left, List.drop_left]
    simp [Replacement.flatten]
  | case3 c segments single ih =>
    obtain ⟨⟨opens, _⟩, later⟩ := List.forall_mem_cons.mp proper
    have bare : (Segment.textOfAll segments).head? ≠ some '(' := by
      cases segments with
      | nil => simp
      | cons next others =>
        cases next with
        | symbol d =>
          have other := (later _ List.mem_cons_self).1
          simpa using other
        | group arguments => exact absurd rfl (single arguments others)
    have first : Token.first? (Segment.textOfAll (.symbol c :: segments)) =
        some (⟨c, none⟩, Segment.textOfAll segments) :=
      Token.first?_eq_some_iff.mpr ⟨rfl, bare⟩
    rw [rewriteFrom_of_some first, rewriteToken_empty_none, ih later attached, pure_bind,
      Segment.placed]
    simp only [bind_assoc, pure_bind, Segment.fill]
    rfl
  | case4 => exact attached.elim

end Grammar

/-! ## The rule -/

/-- The parts of a text that spans cover, each with its span. -/
def Text.partsAt (text : Text) (spans : List Span) : List (Span × Text) :=
  spans.map fun span => (span, slice text span)

namespace RuleText

/-- Compiling all slots and evaluating them afterwards gives the same values as compiling
and evaluating one after the other. A fault of a later slot comes up earlier in the one
case than in the other, but there are values only if there is no fault at all. -/
theorem exists_compileSlots_iff {rule : RuleText} {index : Nat} {spans : List Span}
    {constants : Constants} {generator after : Generator} {values : List Float} :
    (∃ slots, rule.compileSlots index spans = .ok slots ∧
        (slots.mapM (Slot.evaluate ⟨[], constants⟩)).Gives generator values after) ↔
      ((partsAt rule.body spans).mapM (Replacement.evaluatePart constants)).Gives
        generator values after := by
  induction spans generalizing index generator after values with
  | nil => simp [compileSlots, partsAt]
  | cons span spans ih =>
    have parts : partsAt rule.body (span :: spans) =
        (span, slice rule.body span) :: partsAt rule.body spans := rfl
    rw [parts, List.mapM_cons, Replacement.evaluatePart, Expression.evaluateText]
    cases compiled : Expression.compile (slice rule.body span) with
    | error fault => simp [compileSlots, compiled]
    | ok expression =>
      simp only [Attempt.gives_bind_iff, Attempt.gives_mapError_iff, Attempt.gives_pure_iff]
      constructor
      · rintro ⟨slots, all, given⟩
        simp only [compileSlots, compiled] at all
        obtain ⟨others, later, rfl⟩ := map_eq_ok_iff.mp all
        rw [List.mapM_cons] at given
        obtain ⟨value, between, here, given⟩ := Attempt.gives_bind_iff.mp given
        obtain ⟨rest, last, there, given⟩ := Attempt.gives_bind_iff.mp given
        exact ⟨value, between, here, rest, last, ih.mp ⟨others, later, there⟩,
          Attempt.gives_pure_iff.mp given⟩
      · rintro ⟨value, between, here, rest, last, there, same⟩
        obtain ⟨others, later, given⟩ := (@ih (index + 1) _ _ _).mpr there
        refine ⟨⟨span, expression⟩ :: others, ?_, ?_⟩
        · simp only [compileSlots, compiled, later, Except.map]
        · rw [List.mapM_cons]
          exact Attempt.gives_bind_iff.mpr ⟨value, between, here, Attempt.gives_bind_iff.mpr
            ⟨rest, last, given, Attempt.gives_pure_iff.mpr same⟩⟩

/-- A rule that is compiled and filled without bindings gives the text with the values of
its slots in their places, if all of these have one. -/
theorem exists_instantiate_iff {rule : RuleText} {spans : List Span}
    (found : ParameterList.slotSpans rule.body = .ok spans) {constants : Constants}
    {generator after : Generator} {written : Text} :
    (∃ compiled, rule.compile = .ok compiled ∧
        (compiled.instantiate ⟨[], constants⟩).Gives generator written after) ↔
      (do
        let values ← (partsAt rule.body spans).mapM (Replacement.evaluatePart constants)
        pure (splice 0 rule.body (spans.zip (values.map formatNumber))) :
          Attempt DerivationError Text).Gives generator written after := by
  have filled (slots : List Slot) (compiled : rule.compileSlots 0 spans = .ok slots) :
      Rule.instantiate { rule with slots } ⟨[], constants⟩ = (do
        let values ← slots.mapM (Slot.evaluate ⟨[], constants⟩)
        pure (splice 0 rule.body (spans.zip (values.map formatNumber)))) := by
    rw [Rule.instantiate, Rule.fillSlots_eq, span_of_compileSlots compiled]
  rw [Attempt.gives_bind_iff]
  constructor
  · rintro ⟨compiled, all, given⟩
    obtain ⟨spans', slots, found', all, rfl⟩ := compile_eq_ok_iff.mp all
    obtain rfl : spans = spans' := by simpa [found] using found'
    rw [filled slots all] at given
    obtain ⟨values, between, there, given⟩ := Attempt.gives_bind_iff.mp given
    exact ⟨values, between, exists_compileSlots_iff.mp ⟨slots, all, there⟩,
      Attempt.gives_pure_iff.mpr (Attempt.gives_pure_iff.mp given)⟩
  · rintro ⟨values, between, there, given⟩
    obtain ⟨slots, all, evaluated⟩ := (@exists_compileSlots_iff rule 0 _ _ _ _ _).mpr there
    refine ⟨{ rule with slots }, compile_eq_ok_iff.mpr ⟨spans, slots, found, all, rfl⟩, ?_⟩
    rw [filled slots all]
    exact Attempt.gives_bind_iff.mpr ⟨values, between, evaluated,
      Attempt.gives_pure_iff.mpr (Attempt.gives_pure_iff.mp given)⟩

end RuleText

/-! ## Both -/

/-- On a balanced text whose lists follow symbols a pass without rules and a rule with the
text as its body agree: the one gives a text exactly if the rule can be compiled and
filled and then gives it, and both leave the same generator. What the pass evaluates are
the slots of the text, in order, and it writes their values in their places. -/
theorem Grammar.rewrite_empty_agrees (constants : Constants) {text : Text}
    (balanced : Balanced text) (follow : ListsFollowSymbols text) :
    (∀ key generator written after,
      (empty.rewrite constants text).Gives generator written after ↔
        ∃ rule, RuleText.compile ⟨key, text, []⟩ = .ok rule ∧
          (rule.instantiate ⟨[], constants⟩).Gives generator written after) ∧
      ∃ spans, ParameterList.slotSpans text = .ok spans ∧
        empty.rewrite constants text = (do
          let values ← (partsAt text spans).mapM (Replacement.evaluatePart constants)
          pure (splice 0 text (spans.zip (values.map formatNumber)))) := by
  obtain ⟨segments, proper, whole⟩ := Segment.exists_of_balanced balanced
  have attached : Segment.Attached segments := by
    refine @Segment.attached_of_listsFollowSymbols segments proper [] rfl ?_ ?_
    · intro _ _ _
      exact Or.inl rfl
    · rw [whole]
      exact follow
  have found : ParameterList.slotSpans text = .ok ((Segment.placed 0 segments).map Prod.fst) := by
    rw [← whole]
    exact Segment.slotSpansFrom_textOfAll proper 0
  have parts : partsAt text ((Segment.placed 0 segments).map Prod.fst) =
      Segment.placed 0 segments := by
    rw [partsAt, List.map_map]
    refine (List.map_congr_left fun entry among => ?_).trans (List.map_id _)
    have part := @Segment.slice_of_mem_placed segments [] entry among
    rw [List.nil_append, whole] at part
    simp [part]
  have pass : empty.rewrite constants text = (do
      let values ← (partsAt text ((Segment.placed 0 segments).map Prod.fst)).mapM
        (Replacement.evaluatePart constants)
      pure (splice 0 text
        (((Segment.placed 0 segments).map Prod.fst).zip (values.map formatNumber)))) := by
    rw [rewrite_eq_rewriteFrom, parts]
    conv => lhs; rw [← whole]
    rw [rewriteFrom_textOfAll proper attached]
    refine Attempt.bind_congr_of_gives fun _ values _ given => ?_
    have enough : (values.map formatNumber).length = (Segment.placed 0 segments).length := by
      rw [List.length_map]
      exact Attempt.length_of_gives_mapM given
    rw [← Segment.splice_textOfAll 0 enough, whole]
  refine ⟨?_, _, found, pass⟩
  intro key generator written after
  rw [pass]
  exact (@RuleText.exists_instantiate_iff ⟨key, text, []⟩ _ found _ _ _ _).symm

/-- The slots of a rule are filled as a pass evaluates the arguments of the body, those of
the outermost brackets, and an empty list stays empty. -/
theorem Grammar.rewrite_empty_agrees_nested :
    ∃ rule, RuleText.compile ⟨['P'], "A(1+1,(2))B()".toList, []⟩ = .ok rule ∧
      (rule.instantiate ⟨[], .empty⟩).Gives default "A(2,2)B()".toList default :=
  ((rewrite_empty_agrees .empty (by decide) (by decide)).1 ['P'] default "A(2,2)B()".toList
    default).mp (by decide +kernel)

end Arbor
