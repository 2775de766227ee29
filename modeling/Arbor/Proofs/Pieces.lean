import Mathlib.Data.List.Infix
import Arbor.Text.Basic

/-!
# Texts in pieces

A text is cut at the occurrences of a token, which are taken from the left and do not overlap.
If the token is one character, the pieces are those of the library's own cut, and every law of
this cut is at hand. A longer token may begin inside another occurrence of it only if it has a
character twice. Without one the first occurrence is found where it stands, whatever comes
behind it, so a text falls into two pieces exactly if the token stands in it once.
-/
namespace Arbor.Text

variable {c : Char} {token text left right : Text}

/-! ## One character -/

/-- A text is cut at a character as every list is cut at an element. -/
theorem splitOn_singleton (c : Char) (text : Text) : splitOn [c] text = List.splitOn c text := by
  unfold splitOn
  induction text with
  | nil => simp [splitAfter]
  | cons first rest ih =>
    rw [List.splitOn_cons_eq_if_modifyHead]
    by_cases same : first = c
    · simp [splitAfter, List.isPrefixOf, same, ih]
    · have other : (c == first) = false := beq_false_of_ne (Ne.symm same)
      obtain ⟨piece, pieces, split⟩ := List.exists_cons_of_ne_nil (List.splitOn_ne_nil c rest)
      simp [splitAfter, List.isPrefixOf, other, same, ih, split, prepend]

/-- No piece has the character in it that the text is cut at. -/
theorem not_mem_of_mem_splitOn {piece : Text} (among : piece ∈ splitOn [c] text) : c ∉ piece := by
  rw [splitOn_singleton] at among
  induction text generalizing piece with
  | nil =>
    obtain rfl : piece = [] := by simpa using among
    exact List.not_mem_nil
  | cons first rest ih =>
    rw [List.splitOn_cons_eq_if_modifyHead] at among
    obtain ⟨head, pieces, split⟩ := List.exists_cons_of_ne_nil (List.splitOn_ne_nil c rest)
    rw [split] at ih among
    by_cases same : first = c
    · simp only [same, beq_self_eq_true, if_true, List.mem_cons] at among
      rcases among with rfl | among
      · exact List.not_mem_nil
      · exact ih (List.mem_cons.mpr among)
    · have other : (first == c) = false := beq_false_of_ne same
      simp only [other, Bool.false_eq_true, if_false, List.modifyHead_cons, List.mem_cons] at among
      rcases among with rfl | among
      · have behind : c ∉ head := ih List.mem_cons_self
        exact List.not_mem_cons_of_ne_of_not_mem (Ne.symm same) behind
      · exact ih (List.mem_cons_of_mem head among)

/-- Pieces without the character are found again in the joined text. -/
theorem splitOn_joinWith {pieces : List Text} (some : pieces ≠ [])
    (free : ∀ piece ∈ pieces, c ∉ piece) : splitOn [c] (joinWith c pieces) = pieces := by
  rw [splitOn_singleton]
  exact List.splitOn_intercalate c free some

/-- A piece is a part of the joined text. -/
theorem infix_joinWith {piece : Text} {pieces : List Text}
    (among : piece ∈ pieces) : piece <:+: joinWith c pieces := by
  induction pieces with
  | nil => cases among
  | cons first pieces ih =>
    by_cases last : pieces = []
    · subst last
      obtain rfl := List.mem_singleton.mp among
      simp [joinWith]
    · rw [joinWith_cons c first last]
      rcases List.mem_cons.mp among with rfl | later
      · exact (List.prefix_append piece _).isInfix
      · exact (ih later).trans
          ((List.suffix_cons c _).trans (List.suffix_append first _)).isInfix

/-- A text with the character in it is cut there, and what stands before and behind it is cut on
its own. -/
theorem splitOn_append_cons (c : Char) (left right : Text) :
    splitOn [c] (left ++ c :: right) = splitOn [c] left ++ splitOn [c] right := by
  simp only [splitOn_singleton, List.splitOn_append_cons_self]

/-! ## Longer tokens -/

/-- Behind the first character of an occurrence the others are left out. -/
theorem splitAfter_append (token skipped rest : Text) :
    splitAfter token skipped.length (skipped ++ rest) = splitOn token rest := by
  induction skipped with
  | nil => rfl
  | cons c skipped ih => exact ih

/-- A text that does not have the token in it is one piece. -/
theorem splitOn_of_absent (absent : ¬token <:+: text) : splitOn token text = [text] := by
  unfold splitOn
  induction text with
  | nil => simp [splitAfter]
  | cons first rest ih =>
    rw [List.infix_cons_iff, not_or, ← List.isPrefixOf_iff_prefix] at absent
    simp [splitAfter, absent.1, ih absent.2, prepend]

/-- The first occurrence of a token is where a text is cut first. The token has no character
twice, so that it cannot begin in the text in front and end in its own occurrence. -/
theorem splitOn_append_token (distinct : token.Nodup) (some : token ≠ [])
    (absent : ¬token <:+: left) (right : Text) :
    splitOn token (left ++ (token ++ right)) = left :: splitOn token right := by
  induction left with
  | nil =>
    obtain ⟨first, others, rfl⟩ := List.exists_cons_of_ne_nil some
    have begins : (first :: others).isPrefixOf (first :: (others ++ right)) = true :=
      List.isPrefixOf_iff_prefix.mpr (List.prefix_append (first :: others) right)
    rw [List.nil_append, List.cons_append, splitOn, splitAfter, if_pos begins]
    exact congrArg ([] :: ·) (splitAfter_append (first :: others) others right)
  | cons c left ih =>
    rw [List.infix_cons_iff, not_or] at absent
    have elsewhere : ¬token <+: c :: (left ++ (token ++ right)) := by
      intro begins
      obtain ⟨ending, split⟩ := begins
      rw [← List.cons_append] at split
      rcases List.append_eq_append_iff.mp split with ⟨inside, within, _⟩ | ⟨shared, made, shifted⟩
      · exact absent.1 ⟨inside, within.symm⟩
      · -- What the occurrence shares with the token begins with the first character of both.
        cases shared with
        | nil => exact absent.1 ⟨[], by simpa using made⟩
        | cons d shared =>
          obtain rfl : c = d := by simpa [made] using congrArg List.head? shifted
          simp [made] at distinct
    rw [List.cons_append, splitOn, splitAfter, if_neg (by rwa [List.isPrefixOf_iff_prefix])]
    have behind := ih absent.2
    rw [splitOn] at behind
    rw [behind]
    rfl

/-- A text with the token in it has a first occurrence of it. -/
theorem exists_first_of_present (some : token ≠ []) (present : token <:+: text) :
    ∃ left right, text = left ++ (token ++ right) ∧ ¬token <:+: left := by
  induction text with
  | nil => exact absurd (List.eq_nil_of_infix_nil present) some
  | cons c rest ih =>
    by_cases begins : token <+: c :: rest
    · obtain ⟨right, split⟩ := begins
      exact ⟨[], right, split.symm, fun within => some (List.eq_nil_of_infix_nil within)⟩
    · have later : token <:+: rest := (List.infix_cons_iff.mp present).resolve_left begins
      obtain ⟨left, right, rfl, absent⟩ := ih later
      refine ⟨c :: left, right, rfl, ?_⟩
      intro within
      rcases List.infix_cons_iff.mp within with first | inside
      · exact begins (first.trans (List.prefix_append (c :: left) (token ++ right)))
      · exact absent inside

/-- A text falls into two pieces exactly if the token stands between them and in neither. -/
theorem splitOn_eq_pair_iff (distinct : token.Nodup) (some : token ≠ []) :
    splitOn token text = [left, right] ↔
      text = left ++ (token ++ right) ∧ ¬token <:+: left ∧ ¬token <:+: right := by
  constructor
  · intro split
    by_cases present : token <:+: text
    · obtain ⟨before, behind, rfl, absent⟩ := exists_first_of_present some present
      rw [splitOn_append_token distinct some absent] at split
      obtain ⟨rfl, last⟩ := List.cons.inj split
      by_cases again : token <:+: behind
      · obtain ⟨middle, rest, rfl, absent'⟩ := exists_first_of_present some again
        rw [splitOn_append_token distinct some absent'] at last
        exact absurd (List.cons.inj last).2 (splitAfter_ne_nil token 0 rest)
      · rw [splitOn_of_absent again] at last
        obtain rfl : behind = right := (List.cons.inj last).1
        exact ⟨rfl, absent, again⟩
    · rw [splitOn_of_absent present] at split
      cases split
  · rintro ⟨rfl, before, behind⟩
    rw [splitOn_append_token distinct some before, splitOn_of_absent behind]

/-- A text falls into two pieces at a character exactly if it stands between them and in neither. -/
theorem splitOn_singleton_eq_pair_iff :
    splitOn [c] text = [left, right] ↔ text = left ++ c :: right ∧ c ∉ left ∧ c ∉ right := by
  rw [splitOn_eq_pair_iff (List.pairwise_singleton _ c) (List.cons_ne_nil c []),
    List.singleton_infix_iff, List.singleton_infix_iff]
  exact Iff.rfl

end Arbor.Text
