import Arbor.Proofs.ByteScan
import Arbor.Proofs.SlotSegments

/-!
# What the search for slots reports

The search for slots goes from group to group, and what it reports about a text comes from the
search for a closing bracket, from the search for arguments and from itself, each with offsets of
its own. Here the report is what the levels of the text say. If the level falls below zero
somewhere, the closing bracket at the first such place is reported, and if it never does but the
text does not end at level zero, a bracket that stays open. Every other text has slots, and these
are the segments between delimiters.
-/
namespace Arbor

open Text

namespace Text

/-! ## Closing brackets without a partner -/

/-- A closing bracket of a text that begins at `position` is the first one behind which the level is
below zero. -/
def IsSurplusFrom (position : Nat) (text : Text) (place : Nat) : Prop :=
  ∃ before after, text = before ++ ')' :: after ∧ place = position + byteLength before ∧
    level (before ++ [')']) < 0 ∧ ∀ front, front <+: before → 0 ≤ level front

/-- A closing bracket of a text is the first one behind which the level is below zero. -/
def IsSurplus (text : Text) (place : Nat) : Prop :=
  IsSurplusFrom 0 text place

/-- A closing bracket is the first without a partner exactly if the text in front is balanced. -/
theorem isSurplusFrom_iff {position place : Nat} {text : Text} :
    IsSurplusFrom position text place ↔ ∃ before after, text = before ++ ')' :: after ∧
      place = position + byteLength before ∧ Balanced before := by
  have balanced (before : Text) : (level (before ++ [')']) < 0 ∧
      ∀ front, front <+: before → 0 ≤ level front) ↔ Balanced before := by
    rw [balanced_iff_level, level_append, level_close, level_nil, and_comm]
    refine and_congr_right fun covered => ?_
    have here := covered before List.prefix_rfl
    omega
  simp only [IsSurplusFrom, balanced]

/-- A balanced text in front moves the first closing bracket without a partner. -/
theorem isSurplusFrom_append_iff {front : Text} (balanced : Balanced front) {position place : Nat}
    {rest : Text} :
    IsSurplusFrom position (front ++ rest) place ↔
      IsSurplusFrom (position + byteLength front) rest place := by
  rw [isSurplusFrom_iff, isSurplusFrom_iff]
  constructor
  · rintro ⟨before, after, split, rfl, closed⟩
    rcases List.append_eq_append_iff.mp split with ⟨more, rfl, behind⟩ | ⟨inner, rfl, behind⟩
    · exact ⟨more, after, behind, by rw [byteLength_append, Nat.add_assoc],
        (balanced_append_iff balanced more).mp closed⟩
    · cases inner with
      | nil => exact ⟨[], after, behind.symm, by simp, by rw [balanced_iff]; rfl⟩
      | cons first inner =>
        obtain rfl : ')' = first := (List.cons.inj behind).1
        rw [← List.singleton_append, ← List.append_assoc] at balanced
        have covered := balanced.level_nonneg
        rw [level_append, closed.level_eq] at covered
        exact absurd covered (by decide)
  · rintro ⟨before, after, rfl, rfl, closed⟩
    exact ⟨front ++ before, after, (List.append_assoc _ _ _).symm,
      by rw [byteLength_append, Nat.add_assoc], (balanced_append_iff balanced before).mpr closed⟩

/-- No closing bracket of a balanced text is without a partner. -/
theorem Balanced.not_isSurplusFrom {text : Text} (balanced : Balanced text) (position place : Nat) :
    ¬IsSurplusFrom position text place := by
  rintro ⟨before, after, rfl, _, below, _⟩
  rw [← List.singleton_append, ← List.append_assoc] at balanced
  have covered := balanced.level_nonneg
  omega

/-- There is only one first closing bracket without a partner. -/
theorem IsSurplusFrom.unique {position place other : Nat} {text : Text}
    (surplus : IsSurplusFrom position text place) (surplus' : IsSurplusFrom position text other) :
    place = other := by
  obtain ⟨before, after, rfl, rfl, closed⟩ := isSurplusFrom_iff.mp surplus
  rw [isSurplusFrom_append_iff closed] at surplus'
  obtain ⟨before', after', split, rfl, closed'⟩ := isSurplusFrom_iff.mp surplus'
  cases before' with
  | nil => simp
  | cons first rest =>
    obtain rfl : ')' = first := (List.cons.inj split).1
    simp [balanced_iff] at closed'

end Text

namespace ParameterList

/-! ## Reports -/

/-- What the search for slots reports about a text that begins at `position`. -/
def Reports (position : Nat) (text : Text) : Except BracketError (List Span) → Prop
  | .ok _ => Balanced text
  | .error (.unexpectedClose place) => IsSurplusFrom position text place
  | .error .unclosed => ¬Balanced text ∧ ¬∃ place, IsSurplusFrom position text place

/-- What is reported behind a balanced text is reported about the whole. -/
theorem Reports.append {front : Text} (balanced : Balanced front) {position : Nat} {rest : Text}
    {result : Except BracketError (List Span)}
    (reported : Reports (position + byteLength front) rest result) :
    Reports position (front ++ rest) result := by
  match result with
  | .ok _ => exact (balanced_append_iff balanced rest).mpr reported
  | .error (.unexpectedClose place) => exact (isSurplusFrom_append_iff balanced).mpr reported
  | .error .unclosed =>
    refine ⟨?_, ?_⟩
    · rw [balanced_append_iff balanced]
      exact reported.1
    · simp only [isSurplusFrom_append_iff balanced]
      exact reported.2

/-- Further spans in front do not change what is reported about the text. -/
theorem Reports.map {position : Nat} {text : Text} {result : Except BracketError (List Span)}
    (reported : Reports position text result) (change : List Span → List Span) :
    Reports position text (result.map change) := by
  match result with
  | .ok _ => exact reported
  | .error (.unexpectedClose _) => exact reported
  | .error .unclosed => exact reported

/-- A bracket that is never closed is reported as such. -/
theorem reports_unclosed {position place : Nat} {rest : Text} {fault : BracketError}
    (failed : splitAtClose 1 place rest = .error fault) :
    Reports position ('(' :: rest) (.error .unclosed) := by
  have stays (front back : Text) (split : rest = front ++ back) : ¬Balanced ('(' :: front) := by
    rw [balanced_iff, depthAfter_open]
    intro closed
    obtain ⟨contents, more, rfl, outside, _⟩ := exists_close 0 (Nat.le_refl 0) closed
    rw [split, List.append_assoc, List.cons_append,
      (splitAtClose_eq_ok_iff 0 place _ contents (more ++ back)).mpr ⟨rfl, outside⟩] at failed
    cases failed
  refine ⟨stays rest [] (List.append_nil rest).symm, ?_⟩
  rintro ⟨_, surplus⟩
  obtain ⟨before, after, split, _, closed⟩ := isSurplusFrom_iff.mp surplus
  cases before with
  | nil => simp at split
  | cons first front =>
    obtain ⟨rfl, behind⟩ := List.cons.inj split
    exact stays front (')' :: after) behind closed

/-- The search for slots reports what the levels of the text say. -/
theorem reports_slotSpansFrom (position : Nat) (text : Text) :
    Reports position text (slotSpansFrom position text) := by
  fun_induction slotSpansFrom position text with
  | case1 => exact (balanced_iff []).mpr rfl
  | case2 position rest fault cut =>
    obtain rfl := eq_unclosed_of_splitAtClose 0 cut
    exact reports_unclosed cut
  | case3 position rest contents after cut ih =>
    obtain ⟨rfl, closed⟩ := (splitAtClose_eq_ok_iff 0 _ _ _ _).mp cut
    have balanced := (balanced_iff contents).mpr closed
    obtain ⟨pieces, _, found⟩ := arguments_of_balanced balanced
    rw [Nat.add_assoc, ← byteLength_enclosed] at ih ⊢
    have whole := (ih.append balanced.enclosed).map (spansFrom (position + 1) pieces ++ ·)
    rw [List.cons_append, List.append_assoc, List.singleton_append] at whole
    rw [found]
    cases later : slotSpansFrom (position + byteLength ('(' :: (contents ++ [')']))) after with
    | error fault => rwa [later] at whole
    | ok spans => rwa [later] at whole
  | case4 position rest =>
    exact isSurplusFrom_iff.mpr ⟨[], rest, rfl, rfl, (balanced_iff []).mpr rfl⟩
  | case5 position c rest opens closes ih => exact ih.append (balanced_plain opens closes)

/-! The three reports exclude each other, so each of them says exactly when it is given. -/

section Exclusion

variable {position : Nat} {text : Text} {result : Except BracketError (List Span)}

theorem Reports.exists_ok_iff (reported : Reports position text result) :
    (∃ spans, result = .ok spans) ↔ Balanced text := by
  match result with
  | .ok spans => exact iff_of_true ⟨spans, rfl⟩ reported
  | .error (.unexpectedClose place) =>
    exact iff_of_false (by simp) fun balanced => balanced.not_isSurplusFrom position place reported
  | .error .unclosed => exact iff_of_false (by simp) reported.1

theorem Reports.eq_unexpectedClose_iff (reported : Reports position text result) {place : Nat} :
    result = .error (.unexpectedClose place) ↔ IsSurplusFrom position text place := by
  match result with
  | .ok spans => exact iff_of_false (by simp) (reported.not_isSurplusFrom position place)
  | .error (.unexpectedClose other) =>
    constructor
    · rintro ⟨⟩
      exact reported
    · intro surplus
      rw [IsSurplusFrom.unique surplus reported]
  | .error .unclosed => exact iff_of_false (by simp) fun surplus => reported.2 ⟨place, surplus⟩

theorem Reports.eq_unclosed_iff (reported : Reports position text result) :
    result = .error .unclosed ↔ ¬Balanced text ∧ ¬∃ place, IsSurplusFrom position text place := by
  match result with
  | .ok spans => exact iff_of_false (by simp) fun faulty => faulty.1 reported
  | .error (.unexpectedClose place) =>
    exact iff_of_false (by simp) fun faulty => faulty.2 ⟨place, reported⟩
  | .error .unclosed => exact iff_of_true rfl reported

end Exclusion

/-- A text has slots exactly if it is balanced. Otherwise the first closing bracket behind which the
level is below zero is reported, and if there is none, a bracket that stays open. The slots are the
segments between delimiters, from left to right and with a delimiter between neighbours, and they
are cut out of the text between its characters. A scan of the bytes finds the same. -/
theorem slotSpans_exactly (text : Text) :
    ((∃ spans, slotSpans text = .ok spans) ↔ Balanced text) ∧
      (∀ position, slotSpans text = .error (.unexpectedClose position) ↔ IsSurplus text position) ∧
      (slotSpans text = .error .unclosed ↔
        ¬Balanced text ∧ ¬∃ position, IsSurplus text position) ∧
      (∀ spans, slotSpans text = .ok spans →
        (∀ span, span ∈ spans ↔ IsSlot text span) ∧
        spans.Pairwise (fun earlier later => earlier.stop < later.start) ∧
        ∀ span ∈ spans, span.start ≤ span.stop ∧
          text.IsBoundary span.start ∧ text.IsBoundary span.stop) ∧
      scanSlots text 0 = slotSpans text := by
  have reported : Reports 0 text (slotSpans text) := reports_slotSpansFrom 0 text
  refine ⟨reported.exists_ok_iff, fun position => reported.eq_unexpectedClose_iff,
    reported.eq_unclosed_iff, fun spans found => ?_, scanSlots_eq text⟩
  obtain ⟨segments, proper, rfl⟩ :=
    Segment.exists_of_balanced (reported.exists_ok_iff.mp ⟨spans, found⟩)
  obtain rfl := Except.ok.inj ((Segment.slotSpansFrom_textOfAll proper 0).symm.trans found)
  have slots (span : Span) : IsSlot (Segment.textOfAll segments) span ↔
      span ∈ (Segment.placed 0 segments).map Prod.fst :=
    isSlotFrom_textOfAll_iff proper
  exact ⟨fun span => (slots span).symm, (pairwise_placed 0 segments).1,
    fun span among => IsSlot.boundaries ((slots span).mpr among)⟩

/-- An inner group is a part of its slot, and an empty group has none. -/
theorem slotSpans_exactly_nested :
    slotSpans "é(a,(b,c))()".toList = .ok [⟨3, 4⟩, ⟨5, 10⟩] ∧
      ∀ span, span ∈ [⟨3, 4⟩, ⟨5, 10⟩] ↔ IsSlot "é(a,(b,c))()".toList span := by
  have proper : ∀ segment ∈ [Segment.symbol 'é', .group [['a'], "(b,c)".toList], .group []],
      segment.Proper := by
    simp only [List.forall_mem_cons]
    exact ⟨⟨by decide, by decide⟩, ⟨by decide, fun _ => rfl⟩, ⟨by decide, fun _ => rfl⟩, by simp⟩
  have found : slotSpans "é(a,(b,c))()".toList = .ok [⟨3, 4⟩, ⟨5, 10⟩] :=
    Segment.slotSpansFrom_textOfAll proper 0
  exact ⟨found, ((slotSpans_exactly "é(a,(b,c))()".toList).2.2.2.1 _ found).1⟩

end ParameterList

end Arbor
