import Arbor.ParameterList
import Arbor.Proofs.Balance

/-!
# Where parameter lists end

A list that is open ends at the first closing bracket in front of which the text is
balanced, and the cut depends on nothing else: not on the offset of the text and not on
what follows behind the list. The only thing that can go wrong is that there is no such
bracket. What stands inside of a list always falls into arguments, and these arguments
with commas between them are the contents again.
-/
namespace Arbor.ParameterList

open Text

/-! ## Cutting at the closing bracket -/

/-- A character kept in front of a cut is the first one of the part before it. -/
theorem map_keepBefore_eq_ok_iff {ε : Type} {c : Char} {cut : Except ε (Text × Text)}
    {before after : Text} :
    cut.map (keepBefore c) = .ok (before, after) ↔
      ∃ inner, before = c :: inner ∧ cut = .ok (inner, after) := by
  cases cut with
  | error fault => simp [Except.map]
  | ok parts =>
    obtain ⟨inner, behind⟩ := parts
    simp only [Except.map, keepBefore, Except.ok.injEq, Prod.mk.injEq]
    constructor
    · rintro ⟨rfl, rfl⟩
      exact ⟨inner, rfl, rfl, rfl⟩
    · rintro ⟨other, rfl, rfl, rfl⟩
      exact ⟨rfl, rfl⟩

/-- A character that does not end the list is kept, and the depth behind it is the one
of the walk along the text. -/
theorem splitAtClose_cons {depth : Nat} {c : Char} (stays : ¬(c = ')' ∧ depth = 0))
    (position : Nat) (rest : Text) :
    ∃ inside behind,
      splitAtClose (depth + 1) position (c :: rest) =
        (splitAtClose (inside + 1) behind rest).map (keepBefore c) ∧
      ∀ inner, depthAfter depth (c :: inner) = depthAfter inside inner := by
  by_cases opens : c = '('
  · subst opens
    exact ⟨depth + 1, position + 1, by simp only [splitAtClose], fun inner => rfl⟩
  · by_cases closes : c = ')'
    · subst closes
      cases depth with
      | zero => exact absurd ⟨rfl, rfl⟩ stays
      | succ depth => exact ⟨depth, position + 1, by simp only [splitAtClose], fun inner => rfl⟩
    · exact ⟨depth, position + c.utf8Size, by simp only [splitAtClose],
        fun inner => depthAfter_plain opens closes depth inner⟩

/-- An open list ends where its contents have closed all the brackets that they opened.
The induction follows the text; a closing bracket with `depth` above zero closes an inner
group and belongs to the contents. -/
theorem splitAtClose_eq_ok_iff (depth position : Nat) (text contents after : Text) :
    splitAtClose (depth + 1) position text = .ok (contents, after) ↔
      text = contents ++ ')' :: after ∧ depthAfter depth contents = some 0 := by
  induction text generalizing depth position contents with
  | nil => simp [splitAtClose]
  | cons c rest ih =>
    by_cases ends : c = ')' ∧ depth = 0
    · obtain ⟨rfl, rfl⟩ := ends
      cases contents with
      | nil => simp [splitAtClose, eq_comm]
      | cons first inner =>
        simp only [Nat.zero_add, splitAtClose, Except.ok.injEq, Prod.mk.injEq, reduceCtorEq,
          false_and, false_iff]
        rintro ⟨split, closed⟩
        obtain ⟨rfl, _⟩ := List.cons.inj split
        simp at closed
    · obtain ⟨inside, behind, cut, walk⟩ := splitAtClose_cons ends position rest
      rw [cut, map_keepBefore_eq_ok_iff]
      simp only [ih]
      constructor
      · rintro ⟨inner, rfl, rfl, closed⟩
        exact ⟨rfl, by rwa [walk]⟩
      · rintro ⟨split, closed⟩
        cases contents with
        | nil =>
          obtain ⟨rfl, _⟩ := List.cons.inj split
          exact absurd ⟨rfl, by simpa using closed⟩ ends
        | cons first inner =>
          obtain ⟨rfl, rfl⟩ := List.cons.inj split
          exact ⟨inner, rfl, rfl, by rwa [← walk]⟩

/-- An open list that does not end is the only fault. -/
theorem eq_unclosed_of_splitAtClose (depth : Nat) {position : Nat} {text : Text}
    {fault : BracketError} (failed : splitAtClose (depth + 1) position text = .error fault) :
    fault = .unclosed := by
  induction text generalizing depth position with
  | nil => simpa [splitAtClose, eq_comm] using failed
  | cons c rest ih =>
    by_cases ends : c = ')' ∧ depth = 0
    · obtain ⟨rfl, rfl⟩ := ends
      simp [splitAtClose] at failed
    · obtain ⟨inside, behind, cut, _⟩ := splitAtClose_cons ends position rest
      rw [cut] at failed
      cases inner : splitAtClose (inside + 1) behind rest with
      | ok parts => simp [inner, Except.map] at failed
      | error other =>
        obtain rfl : other = fault := by simpa [inner, Except.map] using failed
        exact ih inside inner

/-! ## Taking a list off a text -/

/-- A text that does not begin with an opening bracket does not begin with a list. -/
theorem take_of_head?_ne {text : Text} (bare : text.head? ≠ some '(') (position : Nat) :
    take position text = .ok (none, text) := by
  unfold take
  split
  · simp at bare
  · rfl

/-- The list that a text begins with has balanced contents, and all balanced contents are
those of a list. -/
theorem take_eq_some_iff {position : Nat} {text contents after : Text} :
    take position text = .ok (some contents, after) ↔
      text = '(' :: (contents ++ ')' :: after) ∧ Balanced contents := by
  by_cases bare : text.head? ≠ some '('
  · rw [take_of_head?_ne bare]
    simp only [Except.ok.injEq, Prod.mk.injEq, reduceCtorEq, false_and, false_iff]
    rintro ⟨rfl, _⟩
    simp at bare
  · cases text with
    | nil => simp at bare
    | cons c rest =>
      obtain rfl : c = '(' := by simpa using bare
      rw [balanced_iff, List.cons.injEq, and_assoc, eq_self, true_and,
        ← splitAtClose_eq_ok_iff 0 (position + 1)]
      cases cut : splitAtClose 1 (position + 1) rest with
      | error fault => simp [take, cut, Except.map]
      | ok parts => simp [take, cut, Except.map, Prod.ext_iff]

/-- A text begins without a list exactly if its first character is no opening bracket. -/
theorem take_eq_none_iff {position : Nat} {text after : Text} :
    take position text = .ok (none, after) ↔ text.head? ≠ some '(' ∧ text = after := by
  by_cases bare : text.head? ≠ some '('
  · rw [take_of_head?_ne bare]
    simp [bare]
  · cases text with
    | nil => simp at bare
    | cons c rest =>
      obtain rfl : c = '(' := by simpa using bare
      cases cut : splitAtClose 1 (position + 1) rest <;> simp [take, cut, Except.map]

/-- A list that does not end is the only fault. -/
theorem eq_unclosed_of_take {position : Nat} {text : Text} {fault : BracketError}
    (failed : take position text = .error fault) : fault = .unclosed := by
  by_cases bare : text.head? ≠ some '('
  · rw [take_of_head?_ne bare] at failed
    cases failed
  · cases text with
    | nil => simp at bare
    | cons c rest =>
      obtain rfl : c = '(' := by simpa using bare
      cases cut : splitAtClose 1 (position + 1) rest with
      | ok parts => simp [take, cut, Except.map] at failed
      | error other =>
        obtain rfl : other = fault := by simpa [take, cut, Except.map] using failed
        exact eq_unclosed_of_splitAtClose 0 cut

/-- The offset of a text does not matter for the list that it begins with. -/
theorem take_position (position other : Nat) (text : Text) :
    take position text = take other text := by
  cases here : take position text with
  | ok parts =>
    obtain ⟨contents?, after⟩ := parts
    cases contents? with
    | none => exact (take_eq_none_iff.mpr (take_eq_none_iff.mp here)).symm
    | some contents => exact (take_eq_some_iff.mpr (take_eq_some_iff.mp here)).symm
  | error fault =>
    cases there : take other text with
    | ok parts =>
      obtain ⟨contents?, after⟩ := parts
      cases contents? with
      | none => simp [take_eq_none_iff.mpr (take_eq_none_iff.mp there)] at here
      | some contents => simp [take_eq_some_iff.mpr (take_eq_some_iff.mp there)] at here
    | error fault' => rw [eq_unclosed_of_take here, eq_unclosed_of_take there]

/-! ## Arguments -/

/-- Contents that close what they open fall into pieces, from any depth on. The pieces are
never none, since a text without a comma is a piece of its own. No piece can be divided further. -/
theorem splitAtCommas_of_closed {depth : Nat} {contents : Text}
    (closed : depthAfter depth contents = some 0) :
    ∃ first others, joinWith ',' (first :: others) = contents ∧
      (∀ position, splitAtCommas depth position contents = .ok (first :: others)) ∧
      Undivided depth first ∧ ∀ piece ∈ others, Undivided 0 piece := by
  induction contents generalizing depth with
  | nil =>
    obtain rfl : depth = 0 := by simpa using closed
    exact ⟨[], [], by simp [joinWith], fun position => by simp [splitAtCommas], undivided_nil,
      by simp⟩
  | cons c rest ih =>
    -- Every character but a dividing comma goes in front of the first piece of the rest.
    have kept {inside : Nat}
        (walk : ∀ inner, depthAfter depth (c :: inner) = depthAfter inside inner)
        (enclosed : c = ',' → depth ≠ 0)
        (cut : ∀ position, ∃ behind, splitAtCommas depth position (c :: rest) =
          (splitAtCommas inside behind rest).map (prepend c)) :
        ∃ first others, joinWith ',' (first :: others) = c :: rest ∧
          (∀ position, splitAtCommas depth position (c :: rest) = .ok (first :: others)) ∧
          Undivided depth first ∧ ∀ piece ∈ others, Undivided 0 piece := by
      obtain ⟨first, others, joined, found, undivided, later⟩ := ih ((walk rest).symm.trans closed)
      refine ⟨c :: first, others, ?_, ?_, undivided.cons walk enclosed, later⟩
      · rw [← joined]
        exact joinWith_prepend ',' c (List.cons_ne_nil first others)
      · intro position
        obtain ⟨behind, cut⟩ := cut position
        rw [cut, found behind]
        rfl
    by_cases opens : c = '('
    · subst opens
      exact kept (fun inner => rfl) (by simp) fun position =>
        ⟨position + 1, by simp only [splitAtCommas]⟩
    · by_cases closes : c = ')'
      · subst closes
        cases depth with
        | zero => simp at closed
        | succ depth =>
          exact kept (fun inner => rfl) (by simp) fun position =>
            ⟨position + 1, by simp only [splitAtCommas]⟩
      · have walk := depthAfter_plain opens closes depth
        by_cases comma : c = ','
        · subst comma
          by_cases outside : depth = 0
          · subst outside
            obtain ⟨first, others, joined, found, undivided, later⟩ :=
              ih ((walk rest).symm.trans closed)
            refine ⟨[], first :: others, ?_, ?_, undivided_nil,
              List.forall_mem_cons.mpr ⟨undivided, later⟩⟩
            · rw [joinWith_cons ',' [] (List.cons_ne_nil first others), joined]
              rfl
            · intro position
              simp [splitAtCommas, found, Except.map]
          · exact kept walk (fun _ => outside) fun position =>
              ⟨position + 1, by simp only [splitAtCommas, if_neg outside]⟩
        · exact kept walk (fun same => absurd same comma) fun position =>
            ⟨position + c.utf8Size, by simp only [splitAtCommas]⟩

/-- Balanced contents fall into arguments, which make up the contents. -/
theorem arguments_of_balanced {contents : Text} (balanced : Balanced contents) :
    ∃ pieces, joinWith ',' pieces = contents ∧
      ∀ position, arguments position contents = .ok pieces := by
  cases contents with
  | nil => exact ⟨[], rfl, fun position => rfl⟩
  | cons c rest =>
    obtain ⟨first, others, joined, found, _⟩ :=
      splitAtCommas_of_closed ((balanced_iff (c :: rest)).mp balanced)
    exact ⟨first :: others, joined, fun position => by simp [arguments, found]⟩

/-! ## Slots -/

/-- A character outside of all brackets has no slots. -/
theorem slotSpansFrom_plain {c : Char} (opens : c ≠ '(') (closes : c ≠ ')') (position : Nat)
    (rest : Text) :
    slotSpansFrom position (c :: rest) = slotSpansFrom (position + c.utf8Size) rest := by
  rw [slotSpansFrom]
  · exact opens
  · exact closes

/-- The slots of a list are its arguments, and those of the text behind it follow. -/
theorem slotSpansFrom_list {contents : Text} {pieces : List Text} (balanced : Balanced contents)
    {position : Nat} (found : arguments (position + 1) contents = .ok pieces) (after : Text) :
    slotSpansFrom position ('(' :: (contents ++ ')' :: after)) =
      (slotSpansFrom (position + byteLength contents + 2) after).map
        (spansFrom (position + 1) pieces ++ ·) := by
  have cut : splitAtClose 1 (position + 1) (contents ++ ')' :: after) = .ok (contents, after) :=
    (splitAtClose_eq_ok_iff 0 _ _ _ _).mpr ⟨rfl, (balanced_iff contents).mp balanced⟩
  rw [slotSpansFrom]
  split
  · next failed => simp [cut] at failed
  · next inner behind found' =>
    obtain ⟨rfl, rfl⟩ : inner = contents ∧ behind = after := by simpa [cut, eq_comm] using found'
    rw [found]
    cases slotSpansFrom (position + byteLength inner + 2) behind <;> rfl

/-- A text whose slots can be found is balanced. -/
theorem balanced_of_slotSpansFrom {position : Nat} {text : Text} {spans : List Span}
    (found : slotSpansFrom position text = .ok spans) : Balanced text := by
  rw [balanced_iff]
  fun_induction slotSpansFrom position text generalizing spans with
  | case1 => rfl
  | case2 => cases found
  | case3 position rest contents after cut ih =>
    obtain ⟨rfl, closed⟩ := (splitAtClose_eq_ok_iff 0 _ _ _ _).mp cut
    obtain ⟨pieces, _, split⟩ := arguments_of_balanced ((balanced_iff contents).mpr closed)
    rw [split (position + 1)] at found
    cases behind : slotSpansFrom (position + byteLength contents + 2) after with
    | error fault =>
      rw [behind] at found
      cases found
    | ok later =>
      rw [depthAfter_open, depthAfter_append, depthAfter_add 1 closed]
      exact ih behind
  | case4 => cases found
  | case5 position c rest opens closes ih =>
    rw [depthAfter_plain opens closes]
    exact ih found

end Arbor.ParameterList
