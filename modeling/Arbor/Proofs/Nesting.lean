import Mathlib.Data.List.Nodup
import Arbor.Proofs.Numerals
import Arbor.Proofs.ParameterLists

/-!
# Nesting of several kinds of brackets

A text is well nested when its brackets match one another kind by kind and the matched
pairs do not cross. The walk along the text keeps the closing brackets that are still
awaited, the innermost one first, and stops at a closing bracket that is not the one
awaited next. Round brackets alone give the balance of `Arbor.Proofs.Balance`.

What stands between two matching round brackets leaves the awaited brackets as they
were, also when only the round ones of it are known to match. Parameter lists are found
by their round brackets alone, so this is what lets them be skipped and replaced.
-/
namespace Arbor

/-- Kinds of brackets, the round ones among them. Each kind has its own two characters, and
no number and no comma has one of them. -/
structure Brackets where
  /-- The opening brackets with their closing ones. -/
  pairs : List (Char × Char)
  round : ('(', ')') ∈ pairs
  openings : (pairs.map Prod.fst).Nodup
  closings : (pairs.map Prod.snd).Nodup
  apart : ∀ c ∈ pairs.map Prod.fst, c ∉ pairs.map Prod.snd
  numbers : ∀ c ∈ ',' :: numberCharacters, ∀ pair ∈ pairs, c ≠ pair.1 ∧ c ≠ pair.2

namespace Brackets

/-- The brackets of parameter lists alone. -/
def parameters : Brackets :=
  ⟨[('(', ')')], by decide, by decide, by decide, by simp, by simp [numberCharacters]⟩

/-- The brackets of parameter lists and of branches. -/
def branches : Brackets :=
  ⟨[('(', ')'), ('[', ']')], by decide, by decide, by decide, by simp, by simp [numberCharacters]⟩

/-- The closing bracket that an opening one asks for. -/
def closing? (brackets : Brackets) (c : Char) : Option Char :=
  brackets.pairs.lookup c

/-- Whether a character is a closing bracket. -/
def closes (brackets : Brackets) (c : Char) : Bool :=
  (brackets.pairs.map Prod.snd).contains c

/-- Whether a character is a bracket. -/
def contains (brackets : Brackets) (c : Char) : Bool :=
  (brackets.closing? c).isSome || brackets.closes c

/-- The closing brackets that are awaited behind a text, the innermost one first, if they
are `awaited` in front of it. There are none behind a closing bracket that was not the
next one awaited. -/
def awaitedAfter (brackets : Brackets) (awaited : List Char) : Text → Option (List Char)
  | [] => some awaited
  | c :: rest =>
    match brackets.closing? c with
    | some closing => brackets.awaitedAfter (closing :: awaited) rest
    | none =>
      if brackets.closes c then
        match awaited with
        | [] => none
        | next :: outer => if next = c then brackets.awaitedAfter outer rest else none
      else
        brackets.awaitedAfter awaited rest

/-- All brackets of a text match and no two pairs cross. -/
def WellNested (brackets : Brackets) (text : Text) : Prop :=
  brackets.awaitedAfter [] text = some []

instance (brackets : Brackets) (text : Text) : Decidable (brackets.WellNested text) :=
  inferInstanceAs (Decidable (_ = _))

variable {brackets : Brackets}

/-! ## Single characters -/

/-- An opening bracket asks for the closing one that it is listed with. Openings are
distinct, so the first entry of a character is its only one. -/
theorem closing?_eq_some_iff {c closing : Char} :
    brackets.closing? c = some closing ↔ (c, closing) ∈ brackets.pairs := by
  constructor
  · intro found
    obtain ⟨before, after, listed, _⟩ := List.lookup_eq_some_iff.mp found
    rw [listed]
    simp
  · intro listed
    cases found : brackets.closing? c with
    | none =>
      have absent := List.lookup_eq_none_iff.mp found (c, closing) listed
      simp at absent
    | some other =>
      obtain ⟨before, after, split, _⟩ := List.lookup_eq_some_iff.mp found
      have present : (c, other) ∈ brackets.pairs := by simp [split]
      have same := List.inj_on_of_nodup_map brackets.openings listed present rfl
      rw [(Prod.mk.inj same).2]

/-- A round bracket opens for a round one. -/
@[simp] theorem closing?_open : brackets.closing? '(' = some ')' :=
  closing?_eq_some_iff.mpr brackets.round

/-- A closing round bracket opens nothing. -/
@[simp] theorem closing?_close : brackets.closing? ')' = none := by
  cases found : brackets.closing? ')' with
  | none => rfl
  | some closing =>
    have opening := List.mem_map_of_mem (f := Prod.fst) (closing?_eq_some_iff.mp found)
    exact absurd (List.mem_map_of_mem (f := Prod.snd) brackets.round)
      (brackets.apart ')' opening)

/-- A round bracket closes. -/
@[simp] theorem closes_close : brackets.closes ')' = true := by
  have closing := List.mem_map_of_mem (f := Prod.snd) brackets.round
  simpa [closes] using closing

/-- Only a round bracket asks for a round one. -/
theorem eq_open_of_closing? {c : Char} (round : brackets.closing? c = some ')') : c = '(' := by
  have same := List.inj_on_of_nodup_map brackets.closings
    (closing?_eq_some_iff.mp round) brackets.round rfl
  exact (Prod.mk.inj same).1

/-- A character that is no bracket neither opens nor closes. -/
theorem contains_eq_false_iff {c : Char} :
    brackets.contains c = false ↔ brackets.closing? c = none ∧ brackets.closes c = false := by
  simp [contains]

/-- A character that is in no pair is no bracket. -/
theorem contains_of_forall_ne {c : Char}
    (other : ∀ pair ∈ brackets.pairs, c ≠ pair.1 ∧ c ≠ pair.2) : brackets.contains c = false := by
  refine contains_eq_false_iff.mpr ⟨?_, ?_⟩
  · cases found : brackets.closing? c with
    | none => rfl
    | some closing => exact absurd rfl (other (c, closing) (closing?_eq_some_iff.mp found)).1
  · cases found : brackets.closes c with
    | false => rfl
    | true =>
      obtain ⟨pair, listed, rfl⟩ := List.mem_map.mp (List.contains_iff_mem.mp found)
      exact absurd rfl (other pair listed).2

/-- The characters of numbers with commas between them are no brackets. -/
theorem contains_of_numbers {c : Char} (among : c ∈ ',' :: numberCharacters) :
    brackets.contains c = false :=
  contains_of_forall_ne (brackets.numbers c among)

/-! ## The walk -/

@[simp] theorem awaitedAfter_nil (awaited : List Char) :
    brackets.awaitedAfter awaited [] = some awaited := rfl

/-- An opening bracket puts its closing one in front of those awaited. -/
theorem awaitedAfter_opening {c closing : Char} (opens : brackets.closing? c = some closing)
    (awaited : List Char) (rest : Text) :
    brackets.awaitedAfter awaited (c :: rest) =
      brackets.awaitedAfter (closing :: awaited) rest := by
  simp only [awaitedAfter, opens]

/-- A closing bracket is awaited by nothing outside of all brackets. -/
theorem awaitedAfter_closing_nil {c : Char} (opens : brackets.closing? c = none)
    (closes : brackets.closes c = true) (rest : Text) :
    brackets.awaitedAfter [] (c :: rest) = none := by
  simp only [awaitedAfter, opens, closes, if_true]

/-- Inside of brackets the innermost awaited one decides. -/
theorem awaitedAfter_closing_cons {c : Char} (opens : brackets.closing? c = none)
    (closes : brackets.closes c = true) (next : Char) (outer : List Char) (rest : Text) :
    brackets.awaitedAfter (next :: outer) (c :: rest) =
      if next = c then brackets.awaitedAfter outer rest else none := by
  simp only [awaitedAfter, opens, closes, if_true]

/-- A walk that gets over a closing bracket awaited this one next. -/
theorem exists_of_awaitedAfter_closing {c : Char} (opens : brackets.closing? c = none)
    (closes : brackets.closes c = true) {awaited left : List Char} {rest : Text}
    (reached : brackets.awaitedAfter awaited (c :: rest) = some left) :
    ∃ outer, awaited = c :: outer ∧ brackets.awaitedAfter outer rest = some left := by
  cases awaited with
  | nil =>
    rw [awaitedAfter_closing_nil opens closes] at reached
    cases reached
  | cons next outer =>
    rw [awaitedAfter_closing_cons opens closes] at reached
    split at reached
    · next same => exact ⟨outer, by rw [same], reached⟩
    · cases reached

/-- A character that is no bracket changes nothing. -/
theorem awaitedAfter_plain {c : Char} (plain : brackets.contains c = false)
    (awaited : List Char) (rest : Text) :
    brackets.awaitedAfter awaited (c :: rest) = brackets.awaitedAfter awaited rest := by
  obtain ⟨opens, closes⟩ := contains_eq_false_iff.mp plain
  simp only [awaitedAfter, opens, closes, Bool.false_eq_true, if_false]

/-- The walk along two texts goes on with the second one where the first one ended. -/
theorem awaitedAfter_append (awaited : List Char) (left right : Text) :
    brackets.awaitedAfter awaited (left ++ right) =
      (brackets.awaitedAfter awaited left).bind (brackets.awaitedAfter · right) := by
  fun_induction brackets.awaitedAfter awaited left <;>
    simp_all [awaitedAfter]

/-- Brackets around a text do not disturb the walk inside. -/
theorem awaitedAfter_frame {awaited left : List Char} {text : Text}
    (reached : brackets.awaitedAfter awaited text = some left) (outer : List Char) :
    brackets.awaitedAfter (awaited ++ outer) text = some (left ++ outer) := by
  fun_induction brackets.awaitedAfter awaited text with
  | case1 awaited => simp_all
  | case2 awaited c rest closing opens ih =>
    rw [awaitedAfter_opening opens]
    exact ih reached
  | case3 => cases reached
  | case4 rest c outer opens closes ih =>
    rw [List.cons_append, awaitedAfter_closing_cons opens closes, if_pos rfl]
    exact ih reached
  | case5 => cases reached
  | case6 awaited c rest opens closes ih =>
    rw [awaitedAfter_plain (contains_eq_false_iff.mpr ⟨opens, by simpa using closes⟩)]
    exact ih reached

/-- A well nested text leaves the awaited brackets as they are. -/
theorem WellNested.awaitedAfter {text : Text} (nested : brackets.WellNested text)
    (awaited : List Char) : brackets.awaitedAfter awaited text = some awaited :=
  awaitedAfter_frame nested awaited

/-- A text without brackets leaves the awaited brackets as they are. -/
theorem awaitedAfter_of_plain {text : Text} (plain : ∀ c ∈ text, brackets.contains c = false)
    (awaited : List Char) : brackets.awaitedAfter awaited text = some awaited := by
  induction text with
  | nil => rfl
  | cons c rest ih =>
    rw [awaitedAfter_plain (plain c List.mem_cons_self)]
    exact ih fun other among => plain other (List.mem_cons_of_mem c among)

/-! ## Round brackets within a family -/

/-- The depth of round brackets follows an opening bracket of any kind. -/
theorem depthAfter_opening {c closing : Char} (opens : brackets.closing? c = some closing)
    (awaited : List Char) (rest : Text) :
    Text.depthAfter (awaited.count ')') (c :: rest) =
      Text.depthAfter ((closing :: awaited).count ')') rest := by
  by_cases round : c = '('
  · subst round
    obtain rfl : ')' = closing := by simpa using opens
    simp
  · have other : closing ≠ ')' := fun same => round (eq_open_of_closing? (same ▸ opens))
    have plain : c ≠ ')' := by
      rintro rfl
      simp at opens
    rw [Text.depthAfter_plain round plain, List.count_cons_of_ne other]

/-- The depth of round brackets follows a closing bracket of any kind that is awaited. -/
theorem depthAfter_closing {c : Char} (opens : brackets.closing? c = none)
    (outer : List Char) (rest : Text) :
    Text.depthAfter ((c :: outer).count ')') (c :: rest) =
      Text.depthAfter (outer.count ')') rest := by
  by_cases round : c = ')'
  · subst round
    simp
  · have plain : c ≠ '(' := by
      rintro rfl
      simp at opens
    rw [Text.depthAfter_plain plain round, List.count_cons_of_ne round]

/-- A character that is no bracket leaves the depth of round brackets as it is. -/
theorem depthAfter_of_plain {c : Char} (plain : brackets.contains c = false) (depth : Nat)
    (rest : Text) : Text.depthAfter depth (c :: rest) = Text.depthAfter depth rest := by
  have neither := contains_eq_false_iff.mp plain
  refine Text.depthAfter_plain ?_ ?_ depth rest
  · rintro rfl
    simp at neither
  · rintro rfl
    simp at neither

/-- What a walk says about the round brackets alone: their depth is the number of closing
round brackets that are awaited. -/
theorem depthAfter_of_awaitedAfter {awaited left : List Char} {text : Text}
    (reached : brackets.awaitedAfter awaited text = some left) :
    Text.depthAfter (awaited.count ')') text = some (left.count ')') := by
  fun_induction brackets.awaitedAfter awaited text with
  | case1 awaited => simp_all
  | case2 awaited c rest closing opens ih =>
    rw [depthAfter_opening opens]
    exact ih reached
  | case3 => cases reached
  | case4 rest c outer opens closes ih =>
    rw [depthAfter_closing opens]
    exact ih reached
  | case5 => cases reached
  | case6 awaited c rest opens closes ih =>
    rw [depthAfter_of_plain (contains_eq_false_iff.mpr ⟨opens, by simpa using closes⟩)]
    exact ih reached

/-- The round brackets of a well nested text are balanced. -/
theorem WellNested.balanced {text : Text} (nested : brackets.WellNested text) :
    Text.Balanced text :=
  (Text.balanced_iff text).mpr (depthAfter_of_awaitedAfter nested)

/-- The contents of a parameter list match within themselves. Only their round brackets
are known to be balanced; a bracket of another kind that they leave open, or close from
outside, would stand between the two brackets of the list. The induction follows the
contents, inside of which the brackets `inner` are awaited before the one of the list. -/
theorem awaitedAfter_inner (inner : List Char) {awaited left : List Char} {contents rest : Text}
    (closed : Text.depthAfter (inner.count ')') contents = some 0)
    (reached : brackets.awaitedAfter (inner ++ ')' :: awaited) (contents ++ ')' :: rest) =
      some left) :
    brackets.awaitedAfter (inner ++ ')' :: awaited) contents = some (')' :: awaited) := by
  induction contents generalizing inner with
  | nil =>
    have none_inside : inner.count ')' = 0 := by simpa using closed
    cases inner with
    | nil => rfl
    | cons next inner =>
      have other : next ≠ ')' := by
        rintro rfl
        simp at none_inside
      simp [awaitedAfter_closing_cons, other] at reached
  | cons c contents ih =>
    rw [List.cons_append] at reached
    cases opens : brackets.closing? c with
    | some closing =>
      rw [awaitedAfter_opening opens] at reached ⊢
      rw [depthAfter_opening opens] at closed
      exact ih (closing :: inner) closed reached
    | none =>
      cases closes : brackets.closes c with
      | true =>
        obtain ⟨outer, same, reached⟩ := exists_of_awaitedAfter_closing opens closes reached
        cases inner with
        | nil =>
          -- Only the bracket of the list is awaited, and the contents do not close it.
          obtain rfl : ')' = c := (List.cons.inj same).1
          simp at closed
        | cons next inner =>
          obtain ⟨rfl, rfl⟩ := List.cons.inj same
          rw [List.cons_append, awaitedAfter_closing_cons opens closes, if_pos rfl]
          rw [depthAfter_closing opens] at closed
          exact ih inner closed reached
      | false =>
        have plain := contains_eq_false_iff.mpr ⟨opens, closes⟩
        rw [awaitedAfter_plain plain] at reached ⊢
        rw [depthAfter_of_plain plain] at closed
        exact ih inner closed reached

/-- A parameter list leaves the awaited brackets as they are. -/
theorem awaitedAfter_list {awaited left : List Char} {contents rest : Text}
    (balanced : Text.Balanced contents)
    (reached : brackets.awaitedAfter awaited ('(' :: (contents ++ ')' :: rest)) = some left) :
    brackets.awaitedAfter awaited rest = some left := by
  rw [awaitedAfter_opening closing?_open] at reached
  have inside : brackets.awaitedAfter (')' :: awaited) contents = some (')' :: awaited) :=
    awaitedAfter_inner [] ((Text.balanced_iff contents).mp balanced) reached
  rw [awaitedAfter_append, inside, Option.bind_some,
    awaitedAfter_closing_cons closing?_close closes_close, if_pos rfl] at reached
  exact reached

/-- A parameter list without brackets inside leaves the awaited brackets as they are. -/
theorem awaitedAfter_plain_list {contents : Text}
    (plain : ∀ c ∈ contents, brackets.contains c = false) (awaited : List Char) (rest : Text) :
    brackets.awaitedAfter awaited ('(' :: (contents ++ ')' :: rest)) =
      brackets.awaitedAfter awaited rest := by
  rw [awaitedAfter_opening closing?_open, awaitedAfter_append, awaitedAfter_of_plain plain,
    Option.bind_some, awaitedAfter_closing_cons closing?_close closes_close, if_pos rfl]

/-- What a text begins with and what can be taken as a parameter list leaves the awaited
brackets as they are. -/
theorem awaitedAfter_of_take {position : Nat} {text after : Text} {contents? : Option Text}
    (taken : ParameterList.take position text = .ok (contents?, after))
    {awaited left : List Char} (reached : brackets.awaitedAfter awaited text = some left) :
    brackets.awaitedAfter awaited after = some left := by
  cases contents? with
  | none =>
    obtain ⟨_, rfl⟩ := ParameterList.take_eq_none_iff.mp taken
    exact reached
  | some contents =>
    obtain ⟨rfl, balanced⟩ := ParameterList.take_eq_some_iff.mp taken
    exact awaitedAfter_list balanced reached

/-! ## Round brackets alone -/

/-- All other characters are none. -/
theorem parameters_contains {c : Char} (opens : c ≠ '(') (closes : c ≠ ')') :
    parameters.contains c = false :=
  contains_of_forall_ne (by simpa [parameters] using ⟨opens, closes⟩)

/-- With no other kind of brackets the depth is all there is to know. -/
theorem awaitedAfter_parameters {depth final : Nat} {text : Text}
    (reached : Text.depthAfter depth text = some final) :
    parameters.awaitedAfter (List.replicate depth ')') text =
      some (List.replicate final ')') := by
  induction text generalizing depth with
  | nil =>
    obtain rfl : depth = final := by simpa using reached
    rfl
  | cons c rest ih =>
    by_cases opens : c = '('
    · subst opens
      rw [awaitedAfter_opening closing?_open]
      exact ih (by simpa using reached)
    · by_cases closes : c = ')'
      · subst closes
        cases depth with
        | zero => simp at reached
        | succ depth =>
          rw [List.replicate_succ, awaitedAfter_closing_cons closing?_close closes_close,
            if_pos rfl]
          exact ih (by simpa using reached)
      · rw [awaitedAfter_plain (parameters_contains opens closes)]
        exact ih (by rwa [Text.depthAfter_plain opens closes] at reached)

/-- Being well nested in round brackets means being balanced. -/
theorem wellNested_parameters_iff (text : Text) :
    parameters.WellNested text ↔ Text.Balanced text := by
  constructor
  · exact WellNested.balanced
  · intro balanced
    exact awaitedAfter_parameters ((Text.balanced_iff text).mp balanced)

end Brackets

end Arbor
