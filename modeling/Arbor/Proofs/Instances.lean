import Arbor.Proofs.DecimalLists
import Arbor.Proofs.WrittenNumbers

/-!
# Instances of rules

What a rule writes is its body with the values of the slots in the place of their texts. A body
is woven from literals, which no slot touches, and from the texts of the slots between them; an
instance is woven from the same literals and from the texts of the values. The brackets and commas
around the slots are among the literals, and a number has none of its own, so an instance has
its slots around the same literals as the body. Since a number reads back as itself, an instance
that is taken as a body again has itself as its only instance.
-/
namespace Arbor

open Text

/-! ## Segments with numbers in them -/

namespace Segment

/-- The same segments with other arguments. -/
def refill : List Segment → List Text → List Segment
  | [], _ => []
  | .symbol c :: segments, values => .symbol c :: refill segments values
  | .group arguments :: segments, values =>
    .group (values.take arguments.length) :: refill segments (values.drop arguments.length)

/-- Other arguments stand between the same literals. -/
theorem refill_eq {segments : List Segment} {values : List Text}
    (enough : values.length = (argumentsOfAll segments).length) :
    argumentsOfAll (refill segments values) = values ∧
      literals (refill segments values) = literals segments := by
  induction segments generalizing values with
  | nil => exact ⟨(List.eq_nil_of_length_eq_zero enough).symm, rfl⟩
  | cons segment segments ih =>
    cases segment with
    | symbol c =>
      obtain ⟨arguments, literal⟩ := ih enough
      simp only [refill, argumentsOfAll, literals, arguments, literal, and_self]
    | group arguments =>
      rw [argumentsOfAll, List.length_append] at enough
      have here : (values.take arguments.length).length = arguments.length := by
        rw [List.length_take]
        omega
      obtain ⟨others, literal⟩ := @ih (values.drop arguments.length) (by
        rw [List.length_drop]
        omega)
      simp only [refill, argumentsOfAll, literals, others, literal, here, List.take_append_drop,
        and_self]

/-- Decimal numbers are proper arguments. -/
theorem proper_refill {segments : List Segment} (proper : ∀ segment ∈ segments, segment.Proper)
    {values : List Text} (decimals : ∀ value ∈ values, IsDecimal value) :
    ∀ segment ∈ refill segments values, segment.Proper := by
  induction segments generalizing values with
  | nil => simp [refill]
  | cons segment segments ih =>
    obtain ⟨here, later⟩ := List.forall_mem_cons.mp proper
    cases segment with
    | symbol c => exact List.forall_mem_cons.mpr ⟨here, ih later decimals⟩
    | group arguments =>
      have first : ∀ value ∈ values.take arguments.length, IsDecimal value :=
        fun value among => decimals value (List.mem_of_mem_take among)
      have others : ∀ value ∈ values.drop arguments.length, IsDecimal value :=
        fun value among => decimals value (List.mem_of_mem_drop among)
      exact List.forall_mem_cons.mpr ⟨⟨balanced_of_decimals first, arguments_of_decimals first⟩,
        ih later others⟩

/-- With decimal numbers as arguments a text of proper segments is woven from the literals that it
had before, and its slots are where the numbers are woven in. -/
theorem woven_fill {segments : List Segment} (proper : ∀ segment ∈ segments, segment.Proper)
    {values : List Text} (decimals : ∀ value ∈ values, IsDecimal value)
    (enough : values.length = (argumentsOfAll segments).length) :
    Woven (fill segments values) (literals segments) values
        (weaveSpans 0 (literals segments) values) ∧
      ParameterList.slotSpans (fill segments values) =
        .ok (weaveSpans 0 (literals segments) values) := by
  obtain ⟨arguments, same⟩ := refill_eq enough
  have text : textOfAll (refill segments values) = fill segments values := by
    rw [textOfAll_eq_weave, arguments, same, weave_literals enough]
  constructor
  · constructor
    · rw [enough]
      exact length_literals segments
    · exact (weave_literals enough).symm
    · rfl
  · rw [← text, ParameterList.slotSpans, slotSpansFrom_textOfAll (proper_refill proper decimals),
      map_fst_placed, arguments, same]

end Segment

/-! ## Slots with numbers in them -/

namespace RuleText

/-- Slots that hold the texts of finite numbers compile, and have these numbers as their values in
every scope. -/
theorem exists_compileSlots_of_numbers {text : RuleText} {spans : List Span} {values : List Float}
    (finite : ∀ value ∈ values, value.isFinite = true)
    (numbers : spans.map (slice text.body) = values.map formatNumber) (index : Nat) :
    ∃ slots, text.compileSlots index spans = .ok slots ∧
      ∀ scope, slots.mapM (Slot.evaluate scope) = pure values := by
  induction spans generalizing values index with
  | nil =>
    obtain rfl : values = [] := by simpa using numbers.symm
    exact ⟨[], rfl, fun scope => rfl⟩
  | cons span spans ih =>
    cases values with
    | nil => simp at numbers
    | cons value values =>
      obtain ⟨here, later⟩ := List.cons.inj numbers
      obtain ⟨first, others⟩ := List.forall_mem_cons.mp finite
      obtain ⟨slots, compiled, evaluated⟩ := ih others later (index + 1)
      refine ⟨⟨span, formatNumber value, .ofNumber value⟩ :: slots, ?_, ?_⟩
      · rw [compileSlots, here, Expression.compile_formatNumber first]
        simp only [compiled, Except.map]
      · intro scope
        have known : Slot.evaluate scope ⟨span, formatNumber value, .ofNumber value⟩ =
            pure value := by
          simp [Slot.evaluate, Expression.evaluate, evaluate_ofNumber first, first]
        rw [List.mapM_cons, known, evaluated]
        rfl

/-- A body whose slots hold the texts of finite numbers compiles, and is its only instance. -/
theorem exists_compile_of_numbers {text : RuleText} {literals : List Text} {values : List Float}
    {spans : List Span} (finite : ∀ value ∈ values, value.isFinite = true)
    (woven : Woven text.body literals (values.map formatNumber) spans)
    (found : ParameterList.slotSpans text.body = .ok spans) :
    ∃ rule, text.compile = .ok rule ∧ ∀ scope, rule.instantiate scope = pure text.body := by
  obtain ⟨slots, compiled, evaluated⟩ := exists_compileSlots_of_numbers finite woven.pieces 0
  refine ⟨{ text with slots }, compile_eq_ok_iff.mpr ⟨spans, slots, found, compiled, rfl⟩, ?_⟩
  intro scope
  have same : splice 0 text.body (spans.zip (values.map formatNumber)) = text.body := by
    rw [woven.spans, woven.whole]
    exact splice_weave woven.fit rfl 0
  rw [Rule.instantiate, Rule.fillSlots_eq, evaluated, pure_bind, span_of_compileSlots compiled, same]

end RuleText

namespace Rule

/-- A compiled rule writes its body with the values of the slots, evaluated from left to right, in
the place of their texts and with all else as it is. The slots of what it writes hold these values
in the same order, and taken as a body again it is what every scope makes of it without a draw. -/
theorem woven_of_instantiate {rule : Rule} (compiled : rule.toRuleText.compile = .ok rule)
    {scope : Scope} {generator after : Generator} {written : Text}
    (given : (rule.instantiate scope).Gives generator written after) :
    ∃ (literals : List Text) (values : List Float) (spans : List Span),
      (rule.slots.mapM (Slot.evaluate scope)).Gives generator values after ∧
      values.length = rule.slots.length ∧
      Woven rule.body literals (rule.slots.map fun slot => slice rule.body slot.span)
        (rule.slots.map Slot.span) ∧
      Woven written literals (values.map formatNumber) spans ∧
      ParameterList.slotSpans written = .ok spans ∧
      spans.map (slice written) = values.map formatNumber ∧
      ∀ key guard, ∃ again, RuleText.compile ⟨key, written, guard⟩ = .ok again ∧
        ∀ others draws, (again.instantiate others).Gives draws written draws := by
  obtain ⟨segments, proper, whole⟩ := Segment.exists_of_balanced (balanced_of_compile compiled)
  obtain ⟨values, evaluated, finite, enough, filled⟩ :=
    exists_values_of_instantiate compiled proper whole given
  have length : values.length = rule.slots.length := Attempt.length_of_gives_mapM evaluated
  have body : Woven rule.body (Segment.literals segments) (Segment.argumentsOfAll segments)
      (rule.slots.map Slot.span) := by
    constructor
    · exact Segment.length_literals segments
    · rw [← whole]
      exact Segment.textOfAll_eq_weave segments
    · rw [map_span_slots compiled proper whole]
      exact Segment.map_fst_placed 0 segments
  have texts := body.pieces
  rw [List.map_map] at texts
  obtain ⟨again, found⟩ := Segment.woven_fill proper
    (forall_isDecimal_map_formatNumber finite)
    (by rw [List.length_map, enough, Segment.length_argumentsOfAll 0])
  rw [← filled] at again found
  refine ⟨_, values, _, evaluated, length, texts ▸ body, again, found, again.pieces, ?_⟩
  intro key guard
  obtain ⟨rule, compiled, instantiated⟩ :=
    @RuleText.exists_compile_of_numbers ⟨key, written, guard⟩ _ _ _ finite again found
  refine ⟨rule, compiled, ?_⟩
  intro others draws
  rw [instantiated]
  exact Attempt.gives_pure _ _

/-- Three slots, one of them with a call in it, and a list without slots. -/
theorem woven_of_instantiate_three_slots :
    ∃ rule again,
      RuleText.compile ⟨"A(x)".toList, "B(max(x,1),-x)[C()](x/4)".toList, []⟩ = .ok rule ∧
      (rule.instantiate ⟨[("x".toList, 3)], .empty⟩).Gives default "B(3,-3)[C()](0.75)".toList
        default ∧
      RuleText.compile ⟨"A(x)".toList, "B(3,-3)[C()](0.75)".toList, []⟩ = .ok again ∧
      ∀ others draws,
        (again.instantiate others).Gives draws "B(3,-3)[C()](0.75)".toList draws := by
  let text : RuleText := ⟨"A(x)".toList, "B(max(x,1),-x)[C()](x/4)".toList, []⟩
  have instances : text.compile.map (fun rule =>
      (rule.toRuleText, (rule.instantiate ⟨[("x".toList, 3)], .empty⟩).outcome default)) =
      .ok (text, some (.ok "B(3,-3)[C()](0.75)".toList, default)) := by
    decide +kernel
  obtain ⟨rule, compiled, same⟩ := map_eq_ok_iff.mp instances
  obtain ⟨texts, given⟩ := Prod.mk.inj same
  obtain ⟨_, _, _, _, _, _, _, _, _, recompiled⟩ :=
    woven_of_instantiate (texts ▸ compiled) given
  obtain ⟨again, compiles, fixed⟩ := recompiled "A(x)".toList []
  exact ⟨rule, again, compiled, given, compiles, fixed⟩

end Rule

end Arbor
