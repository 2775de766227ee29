import Arbor.Grammar.Rule
import Arbor.Proofs.Attempts
import Arbor.Proofs.ParameterLists
import Arbor.Proofs.Results
import Arbor.Proofs.Weaving

/-!
# The slots of a text

Slots are found by their byte offsets and filled by cutting the text at these offsets.
Here a text is taken apart instead into its characters outside of brackets and its
outermost groups, each with the arguments in it. The slots are then the places of these
arguments, in order, and filling them puts the values in the place of the arguments of
each group with commas between them. All else of the text stays as it is.
-/
namespace Arbor

open Text

/-! ## Filling -/

/-- A text of which the first `position` bytes are done, with values in the place of spans
that stand one after the other. -/
def Text.splice (position : Nat) (rest : Text) : List (Span × Text) → Text
  | [] => rest
  | (span, value) :: others =>
    takeBytes (span.start - position) rest ++ value ++
      splice span.stop (dropBytes (span.stop - position) rest) others

/-- The value of an expression is finite. -/
theorem Expression.isFinite_of_evaluate {expression : Expression} {scope : Scope}
    {generator after : Generator} {value : Float}
    (given : (expression.evaluate scope).Gives generator value after) :
    value.isFinite = true := by
  obtain ⟨found, between, _, given⟩ := Attempt.gives_bind_iff.mp given
  split at given
  · next finite =>
    obtain ⟨rfl, _⟩ := Attempt.gives_pure_iff.mp given
    exact finite
  · simp at given

/-- The value of a slot. -/
def Slot.evaluate (scope : Scope) (slot : Slot) : Attempt ExpressionError Float :=
  slot.expression.evaluate scope

/-- Filling slots is evaluating them in order and writing the values in their places. -/
theorem Rule.fillSlots_eq (scope : Scope) (position : Nat) (rest : Text) (slots : List Slot) :
    fillSlots scope position rest slots = (do
      let values ← slots.mapM (Slot.evaluate scope)
      pure (splice position rest ((slots.map Slot.span).zip (values.map formatNumber)))) := by
  induction slots generalizing position rest with
  | nil => simp [fillSlots, splice]
  | cons slot slots ih =>
    simp only [fillSlots, List.mapM_cons, Slot.evaluate, ih, bind_assoc, pure_bind, List.map_cons,
      List.zip_cons_cons, splice]

namespace Text

/-- Other pieces in the places of the pieces make the text that is woven from them. -/
theorem splice_weave {literals pieces others : List Text}
    (fit : literals.length = pieces.length + 1) (same : others.length = pieces.length)
    (position : Nat) :
    splice position (weave literals pieces) ((weaveSpans position literals pieces).zip others) =
      weave literals others := by
  induction pieces generalizing literals others position with
  | nil =>
    obtain rfl : others = [] := List.eq_nil_of_length_eq_zero same
    cases literals <;> rfl
  | cons piece pieces ih =>
    cases literals with
    | nil => simp at fit
    | cons literal literals =>
      cases others with
      | nil => simp at same
      | cons other others =>
        have later := ih (by simpa using fit) (by simpa using same)
          (position + byteLength literal + byteLength piece)
        have length : position + byteLength literal + byteLength piece - position =
            byteLength (literal ++ piece) := by
          rw [byteLength_append]
          omega
        simp only [weaveSpans, weave, List.zip_cons_cons, splice, Nat.add_sub_cancel_left, length,
          takeBytes_byteLength_append]
        rw [← List.append_assoc literal piece, dropBytes_byteLength_append, later, List.append_assoc]

/-- Pieces have as many places as there are pieces. -/
theorem length_spansFrom (offset : Nat) (pieces : List Text) :
    (spansFrom offset pieces).length = pieces.length := by
  induction pieces generalizing offset with
  | nil => rfl
  | cons piece pieces ih => simp [spansFrom, ih]

end Text

/-! ## Segments -/

/-- A character outside of all brackets, or an outermost group with its arguments. -/
inductive Segment where
  | symbol (c : Char)
  | group (arguments : List Text)

namespace Segment

/-- How a segment stands in a text. -/
def text : Segment → Text
  | .symbol c => [c]
  | .group arguments => '(' :: (joinWith ',' arguments ++ [')'])

/-- The text of segments that stand one after the other. -/
def textOfAll (segments : List Segment) : Text :=
  segments.flatMap text

@[simp] theorem textOfAll_nil : textOfAll [] = [] := rfl

@[simp] theorem textOfAll_symbol (c : Char) (segments : List Segment) :
    textOfAll (.symbol c :: segments) = c :: textOfAll segments := rfl

@[simp] theorem textOfAll_group (arguments : List Text) (segments : List Segment) :
    textOfAll (.group arguments :: segments) =
      '(' :: (joinWith ',' arguments ++ ')' :: textOfAll segments) := by
  simp [textOfAll, text]

/-- A character is no bracket, and the arguments of a group are those of its contents. -/
def Proper : Segment → Prop
  | .symbol c => c ≠ '(' ∧ c ≠ ')'
  | .group arguments =>
    Balanced (joinWith ',' arguments) ∧
      ∀ position, ParameterList.arguments position (joinWith ',' arguments) = .ok arguments

/-- The arguments of segments with their places, if the first segment stands at
`position`. -/
def placed (position : Nat) : List Segment → List (Span × Text)
  | [] => []
  | .symbol c :: segments => placed (position + c.utf8Size) segments
  | .group arguments :: segments =>
    (spansFrom (position + 1) arguments).zip arguments ++
      placed (position + byteLength (joinWith ',' arguments) + 2) segments

/-- The text of segments with values in the place of their arguments. -/
def fill : List Segment → List Text → Text
  | [], _ => []
  | .symbol c :: segments, values => c :: fill segments values
  | .group arguments :: segments, values =>
    '(' :: (joinWith ',' (values.take arguments.length) ++
      ')' :: fill segments (values.drop arguments.length))

/-- A balanced text is made of proper segments. The induction is on its length, because
a group is taken off as a whole. -/
theorem exists_of_balanced {whole : Text} (balanced : Balanced whole) :
    ∃ segments, (∀ segment ∈ segments, segment.Proper) ∧ textOfAll segments = whole := by
  induction size : whole.length using Nat.strongRecOn generalizing whole with
  | _ size ih =>
    have walk := (balanced_iff whole).mp balanced
    cases whole with
    | nil => exact ⟨[], by simp, rfl⟩
    | cons c rest =>
      by_cases opens : c = '('
      · subst opens
        obtain ⟨contents, after, rfl, closed, behind⟩ := exists_close 0 (Nat.le_refl 0) walk
        have inside : Balanced contents := (balanced_iff contents).mpr closed
        obtain ⟨pieces, rfl, found⟩ := ParameterList.arguments_of_balanced inside
        obtain ⟨segments, proper, rfl⟩ := ih after.length
          (by simp only [List.length_cons, List.length_append] at size; omega)
          ((balanced_iff after).mpr behind) rfl
        exact ⟨.group pieces :: segments, List.forall_mem_cons.mpr ⟨⟨inside, found⟩, proper⟩,
          textOfAll_group pieces segments⟩
      · by_cases closes : c = ')'
        · subst closes
          simp at walk
        · rw [depthAfter_plain opens closes] at walk
          obtain ⟨segments, proper, rfl⟩ := ih rest.length
            (by simp only [List.length_cons] at size; omega) ((balanced_iff rest).mpr walk) rfl
          exact ⟨.symbol c :: segments, List.forall_mem_cons.mpr ⟨⟨opens, closes⟩, proper⟩, rfl⟩

/-- The slots of a text of proper segments are the places of its arguments. -/
theorem slotSpansFrom_textOfAll {segments : List Segment}
    (proper : ∀ segment ∈ segments, segment.Proper) (position : Nat) :
    ParameterList.slotSpansFrom position (textOfAll segments) =
      .ok ((placed position segments).map Prod.fst) := by
  induction segments generalizing position with
  | nil => simp [placed, ParameterList.slotSpansFrom]
  | cons segment segments ih =>
    obtain ⟨here, later⟩ := List.forall_mem_cons.mp proper
    cases segment with
    | symbol c =>
      have step := ParameterList.slotSpansFrom_plain here.1 here.2 position (textOfAll segments)
      exact step.trans (ih later _)
    | group arguments =>
      rw [textOfAll_group, ParameterList.slotSpansFrom_list here.1 (here.2 _), ih later]
      simp only [Except.map, placed, List.map_append]
      rw [List.map_fst_zip (Nat.le_of_eq (length_spansFrom _ _))]

/-- The arguments of all groups. -/
def argumentsOfAll : List Segment → List Text
  | [] => []
  | .symbol _ :: segments => argumentsOfAll segments
  | .group arguments :: segments => arguments ++ argumentsOfAll segments

/-- The literals around the arguments of all groups. -/
def literals : List Segment → List Text
  | [] => [[]]
  | .symbol c :: segments => prepend c (literals segments)
  | .group arguments :: segments => listLiterals (literals segments) arguments.length

/-- There is a literal at the end. -/
theorem length_literals (segments : List Segment) :
    (literals segments).length = (argumentsOfAll segments).length + 1 := by
  induction segments with
  | nil => rfl
  | cons segment segments ih =>
    have some : literals segments ≠ [] := by
      rw [← List.length_pos_iff, ih]
      exact Nat.succ_pos _
    cases segment with
    | symbol c => rw [literals, length_prepend c some, ih, argumentsOfAll]
    | group arguments =>
      rw [literals, length_listLiterals some, ih, argumentsOfAll, List.length_append]
      omega

/-- There is at least one literal. -/
theorem literals_ne_nil (segments : List Segment) : literals segments ≠ [] := by
  rw [← List.length_pos_iff, length_literals]
  exact Nat.succ_pos _

/-- A text of segments with other arguments is woven from the same literals. -/
theorem weave_literals {segments : List Segment} {values : List Text}
    (enough : values.length = (argumentsOfAll segments).length) :
    weave (literals segments) values = fill segments values := by
  induction segments generalizing values with
  | nil =>
    obtain rfl : values = [] := List.eq_nil_of_length_eq_zero enough
    rfl
  | cons segment segments ih =>
    have some := literals_ne_nil segments
    cases segment with
    | symbol c => rw [literals, weave_prepend c some, ih enough, fill]
    | group arguments =>
      rw [argumentsOfAll, List.length_append] at enough
      have here : (values.take arguments.length).length = arguments.length := by
        rw [List.length_take]
        omega
      have woven := weave_listLiterals some (values.take arguments.length)
        (values.drop arguments.length)
      rw [here, List.take_append_drop] at woven
      rw [literals, woven, ih, fill]
      rw [List.length_drop]
      omega

/-- With its own arguments a text of segments stays as it is. -/
theorem fill_argumentsOfAll (segments : List Segment) :
    fill segments (argumentsOfAll segments) = textOfAll segments := by
  induction segments with
  | nil => rfl
  | cons segment segments ih =>
    cases segment with
    | symbol c => rw [argumentsOfAll, fill, ih, textOfAll_symbol]
    | group arguments =>
      rw [argumentsOfAll, fill, List.take_left, List.drop_left, ih, textOfAll_group]

/-- A text of segments is woven from its literals and its arguments. -/
theorem textOfAll_eq_weave (segments : List Segment) :
    textOfAll segments = weave (literals segments) (argumentsOfAll segments) :=
  (fill_argumentsOfAll segments).symm.trans (weave_literals rfl).symm

/-- The arguments stand at the spans of what is woven in. -/
theorem placed_eq_zip (position : Nat) (segments : List Segment) :
    placed position segments =
      (weaveSpans position (literals segments) (argumentsOfAll segments)).zip
        (argumentsOfAll segments) := by
  induction segments generalizing position with
  | nil => rfl
  | cons segment segments ih =>
    have some := literals_ne_nil segments
    cases segment with
    | symbol c => rw [literals, argumentsOfAll, weaveSpans_prepend c some, placed, ih]
    | group arguments =>
      rw [literals, argumentsOfAll, weaveSpans_listLiterals some, placed, ih,
        List.zip_append (length_spansFrom _ _)]

/-- The places of the arguments are the spans of what is woven in. -/
theorem map_fst_placed (position : Nat) (segments : List Segment) :
    (placed position segments).map Prod.fst =
      weaveSpans position (literals segments) (argumentsOfAll segments) := by
  rw [placed_eq_zip]
  exact List.map_fst_zip (Nat.le_of_eq (length_weaveSpans (length_literals segments) position))

/-- There is a place for each argument. -/
theorem length_argumentsOfAll (position : Nat) (segments : List Segment) :
    (argumentsOfAll segments).length = (placed position segments).length := by
  rw [← List.length_map Prod.fst, map_fst_placed, length_weaveSpans (length_literals segments)]

/-- Each argument of a text of segments is the part of the text at its place, also when
something stands before the segments. -/
theorem slice_of_mem_placed {segments : List Segment} {before : Text} :
    ∀ entry ∈ placed (byteLength before) segments,
      slice (before ++ textOfAll segments) entry.1 = entry.2 := by
  have parts := map_slice_weaveSpans (length_literals segments) before
  rw [← textOfAll_eq_weave, ← map_fst_placed] at parts
  have arguments : (placed (byteLength before) segments).map Prod.snd = argumentsOfAll segments := by
    rw [placed_eq_zip]
    exact List.map_snd_zip (Nat.le_of_eq (length_weaveSpans (length_literals segments) _).symm)
  rw [← arguments, List.map_map] at parts
  exact List.map_inj_left.mp parts

/-- Values in the places of all arguments make the text of the segments with these values
as arguments. -/
theorem splice_textOfAll {segments : List Segment} {values : List Text} (position : Nat)
    (enough : values.length = (placed position segments).length) :
    splice position (textOfAll segments)
        (((placed position segments).map Prod.fst).zip values) = fill segments values := by
  rw [← length_argumentsOfAll] at enough
  rw [map_fst_placed, textOfAll_eq_weave, splice_weave (length_literals segments) enough,
    weave_literals enough]

end Segment

/-! ## Compiled rules -/

namespace RuleText

/-- A slot is compiled for every span. -/
theorem span_of_compileSlots {rule : RuleText} {index : Nat} {spans : List Span}
    {slots : List Slot} (compiled : rule.compileSlots index spans = .ok slots) :
    slots.map Slot.span = spans := by
  induction spans generalizing index slots with
  | nil =>
    obtain rfl : [] = slots := by simpa [compileSlots] using compiled
    rfl
  | cons span spans ih =>
    unfold compileSlots at compiled
    split at compiled
    · cases compiled
    · obtain ⟨others, later, rfl⟩ := map_eq_ok_iff.mp compiled
      rw [List.map_cons, ih later]

/-- A rule that compiles has its texts, and slots at all places of its body where an
argument stands. -/
theorem compile_eq_ok_iff {text : RuleText} {rule : Rule} :
    text.compile = .ok rule ↔ ∃ spans slots, ParameterList.slotSpans text.body = .ok spans ∧
      text.compileSlots 0 spans = .ok slots ∧ rule = { text with slots } := by
  cases found : ParameterList.slotSpans text.body with
  | error fault => simp [compile, found]
  | ok spans =>
    simp only [compile, found, map_eq_ok_iff, Except.ok.injEq]
    constructor
    · rintro ⟨slots, compiled, rfl⟩
      exact ⟨spans, slots, rfl, compiled, rfl⟩
    · rintro ⟨_, slots, rfl, compiled, rfl⟩
      exact ⟨slots, compiled, rfl⟩

end RuleText

namespace Rule

/-- The body of a rule that compiles is balanced. -/
theorem balanced_of_compile {text : RuleText} {rule : Rule} (compiled : text.compile = .ok rule) :
    Balanced text.body := by
  obtain ⟨_, _, found, _, _⟩ := RuleText.compile_eq_ok_iff.mp compiled
  exact ParameterList.balanced_of_slotSpansFrom found

/-- The slots of a compiled rule are at the places of the arguments, however the body is taken
apart into segments. -/
theorem map_span_slots {rule : Rule} (compiled : rule.toRuleText.compile = .ok rule)
    {segments : List Segment} (proper : ∀ segment ∈ segments, segment.Proper)
    (whole : Segment.textOfAll segments = rule.body) :
    rule.slots.map Slot.span = (Segment.placed 0 segments).map Prod.fst := by
  obtain ⟨spans, slots, found, all, same⟩ := RuleText.compile_eq_ok_iff.mp compiled
  rw [ParameterList.slotSpans, ← whole, Segment.slotSpansFrom_textOfAll proper 0] at found
  rw [same, Except.ok.inj found]
  exact RuleText.span_of_compileSlots all

/-- An instance of a compiled rule is its body with the values of the slots, which are finite, in
the place of the arguments, however the body is taken apart into segments. -/
theorem exists_values_of_instantiate {rule : Rule} (compiled : rule.toRuleText.compile = .ok rule)
    {segments : List Segment} (proper : ∀ segment ∈ segments, segment.Proper)
    (whole : Segment.textOfAll segments = rule.body) {scope : Scope}
    {generator after : Generator} {written : Text}
    (given : (rule.instantiate scope).Gives generator written after) :
    ∃ values : List Float, (rule.slots.mapM (Slot.evaluate scope)).Gives generator values after ∧
      (∀ value ∈ values, value.isFinite = true) ∧
        values.length = (Segment.placed 0 segments).length ∧
          written = Segment.fill segments (values.map formatNumber) := by
  have places := map_span_slots compiled proper whole
  rw [instantiate, fillSlots_eq, places, ← whole] at given
  obtain ⟨values, between, evaluated, given⟩ := Attempt.gives_bind_iff.mp given
  obtain ⟨rfl, rfl⟩ := Attempt.gives_pure_iff.mp given
  have enough : values.length = (Segment.placed 0 segments).length := by
    rw [Attempt.length_of_gives_mapM evaluated, ← List.length_map Slot.span, places,
      List.length_map]
  have finite : ∀ value ∈ values, value.isFinite = true :=
    Attempt.forall_mem_of_gives_mapM Expression.isFinite_of_evaluate evaluated
  refine ⟨values, evaluated, finite, enough, Segment.splice_textOfAll 0 ?_⟩
  rw [List.length_map, enough]

/-- The body of a compiled rule is made of proper segments, and an instance of the rule is
this body with finite numbers in the place of the arguments. -/
theorem exists_fill_of_compile {rule : Rule} (compiled : rule.toRuleText.compile = .ok rule) :
    ∃ segments, (∀ segment ∈ segments, segment.Proper) ∧ Segment.textOfAll segments = rule.body ∧
      ∀ {scope generator written after}, (rule.instantiate scope).Gives generator written after →
        ∃ values : List Float, (∀ value ∈ values, value.isFinite = true) ∧
          written = Segment.fill segments (values.map formatNumber) := by
  obtain ⟨segments, proper, whole⟩ := Segment.exists_of_balanced (balanced_of_compile compiled)
  refine ⟨segments, proper, whole, ?_⟩
  intro scope generator written after given
  obtain ⟨values, _, finite, _, filled⟩ := exists_values_of_instantiate compiled proper whole given
  exact ⟨values, finite, filled⟩

end Rule

end Arbor
