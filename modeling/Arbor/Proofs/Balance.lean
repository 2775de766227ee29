import Arbor.Text.Basic

/-!
# Balance of round brackets

A text is balanced when none of its prefixes closes more round brackets than it opens
and the whole text closes as many as it opens. The same is said by a walk along the
text that counts the open brackets and stops at a closing one without a partner. The
counts state the property, and the walk, which can be cut at every place of the text,
carries the inductions.

A list is divided at the commas that stand outside of the brackets in it, so what stands between
two of these commas has no such comma.
-/
namespace Arbor.Text

/-- The number of open brackets behind a text that begins inside of `depth` open ones.
There is none behind a closing bracket that has no partner. -/
def depthAfter (depth : Nat) : Text → Option Nat
  | [] => some depth
  | c :: rest =>
    if c = '(' then
      depthAfter (depth + 1) rest
    else if c = ')' then
      match depth with
      | 0 => none
      | outer + 1 => depthAfter outer rest
    else
      depthAfter depth rest

/-- Each closing bracket has an opening one before it, and each opening one is closed. -/
structure Balanced (text : Text) : Prop where
  /-- No prefix closes more brackets than it opens. -/
  covered : ∀ before, before <+: text → before.count ')' ≤ before.count '('
  /-- Equally many brackets are opened and closed. -/
  settled : text.count '(' = text.count ')'

@[simp] theorem depthAfter_nil (depth : Nat) : depthAfter depth [] = some depth := rfl

@[simp] theorem depthAfter_open (depth : Nat) (rest : Text) :
    depthAfter depth ('(' :: rest) = depthAfter (depth + 1) rest := rfl

@[simp] theorem depthAfter_close_zero (rest : Text) : depthAfter 0 (')' :: rest) = none := rfl

@[simp] theorem depthAfter_close (depth : Nat) (rest : Text) :
    depthAfter (depth + 1) (')' :: rest) = depthAfter depth rest := rfl

/-- Every other character leaves the depth as it is. -/
theorem depthAfter_plain {c : Char} (opens : c ≠ '(') (closes : c ≠ ')') (depth : Nat)
    (rest : Text) : depthAfter depth (c :: rest) = depthAfter depth rest := by
  simp only [depthAfter, if_neg opens, if_neg closes]

/-- A walk that reaches the end of a text stays within the brackets of the text and of
the start. This is what the walk says about counts, from any depth on. -/
theorem depthAfter_eq_some_iff (depth final : Nat) (text : Text) :
    depthAfter depth text = some final ↔
      (∀ before, before <+: text → before.count ')' ≤ depth + before.count '(') ∧
        depth + text.count '(' = final + text.count ')' := by
  induction text generalizing depth with
  | nil =>
    constructor
    · intro reached
      obtain rfl : depth = final := Option.some.inj reached
      refine ⟨?_, rfl⟩
      intro before within
      simp [List.prefix_nil.mp within]
    · rintro ⟨_, same⟩
      simpa using same
  | cons c rest ih =>
    -- A prefix of the whole text is empty or the first character with a prefix of the rest.
    have prefixes (bounded : Text → Prop) (empty : bounded []) :
        (∀ before, before <+: c :: rest → bounded before) ↔
          ∀ before, before <+: rest → bounded (c :: before) := by
      constructor
      · intro all before within
        exact all _ (List.cons_prefix_cons.mpr ⟨rfl, within⟩)
      · intro all before within
        rcases List.prefix_cons_iff.mp within with rfl | ⟨tail, rfl, inside⟩
        · exact empty
        · exact all tail inside
    rw [prefixes _ (by simp)]
    by_cases opens : c = '('
    · subst opens
      simp only [depthAfter_open, ih, List.count_cons]
      grind
    · by_cases closes : c = ')'
      · subst closes
        cases depth with
        | zero =>
          simp only [depthAfter_close_zero, reduceCtorEq, false_iff]
          rintro ⟨bounded, _⟩
          simpa using bounded [] (List.nil_prefix)
        | succ depth =>
          simp only [depthAfter_close, ih, List.count_cons]
          grind
      · simp only [depthAfter_plain opens closes, ih, List.count_cons]
        grind

/-- A text is balanced exactly if the walk from outside ends outside. -/
theorem balanced_iff (text : Text) : Balanced text ↔ depthAfter 0 text = some 0 := by
  rw [depthAfter_eq_some_iff]
  constructor
  · intro balanced
    exact ⟨by simpa using balanced.covered, by simpa using balanced.settled⟩
  · rintro ⟨covered, settled⟩
    exact ⟨by simpa using covered, by simpa using settled⟩

instance (text : Text) : Decidable (Balanced text) :=
  decidable_of_iff _ (balanced_iff text).symm

/-- The walk along two texts goes on with the second one where the first one ended. -/
theorem depthAfter_append (depth : Nat) (left right : Text) :
    depthAfter depth (left ++ right) =
      (depthAfter depth left).bind (depthAfter · right) := by
  induction left generalizing depth with
  | nil => simp
  | cons c rest ih =>
    by_cases opens : c = '('
    · simp [opens, ih]
    · by_cases closes : c = ')'
      · subst closes
        cases depth <;> simp [ih]
      · simp only [List.cons_append, depthAfter_plain opens closes, ih]

/-- Open brackets around a text do not disturb the walk inside. -/
theorem depthAfter_add {depth final : Nat} {text : Text} (outer : Nat)
    (reached : depthAfter depth text = some final) :
    depthAfter (depth + outer) text = some (final + outer) := by
  rw [depthAfter_eq_some_iff] at reached ⊢
  refine ⟨?_, by omega⟩
  intro before within
  have bounded := reached.1 before within
  omega

/-- A balanced text in brackets is balanced. -/
theorem Balanced.enclosed {contents : Text} (balanced : Balanced contents) :
    Balanced ('(' :: (contents ++ [')'])) := by
  rw [balanced_iff] at balanced ⊢
  rw [depthAfter_open, depthAfter_append, depthAfter_add 1 balanced]
  rfl

/-- A bracket that is open and does not stay open is closed somewhere. What stands before
its closing bracket closes all that it opened since, also the `inner` brackets that are
open already; what stands behind goes on from outside. -/
theorem exists_close (inner : Nat) {outer final : Nat} {text : Text} (below : final ≤ outer)
    (reached : depthAfter (inner + (outer + 1)) text = some final) :
    ∃ contents after, text = contents ++ ')' :: after ∧ depthAfter inner contents = some 0 ∧
      depthAfter outer after = some final := by
  induction text generalizing inner with
  | nil =>
    obtain rfl : inner + (outer + 1) = final := by simpa using reached
    omega
  | cons c rest ih =>
    by_cases opens : c = '('
    · subst opens
      rw [depthAfter_open, Nat.add_right_comm] at reached
      obtain ⟨contents, after, rfl, closed, behind⟩ := ih (inner + 1) reached
      exact ⟨'(' :: contents, after, rfl, closed, behind⟩
    · by_cases closes : c = ')'
      · subst closes
        cases inner with
        | zero =>
          rw [Nat.zero_add, depthAfter_close] at reached
          exact ⟨[], rest, rfl, rfl, reached⟩
        | succ inner =>
          rw [Nat.add_right_comm, depthAfter_close] at reached
          obtain ⟨contents, after, rfl, closed, behind⟩ := ih inner reached
          exact ⟨')' :: contents, after, rfl, closed, behind⟩
      · rw [depthAfter_plain opens closes] at reached
        obtain ⟨contents, after, rfl, closed, behind⟩ := ih inner reached
        exact ⟨c :: contents, after, rfl, by rwa [depthAfter_plain opens closes], behind⟩

/-! ## Commas outside of brackets -/

/-- A text closes what it opens and the brackets that are open before it, and no comma in it stands
outside of all these brackets. -/
structure Undivided (depth : Nat) (text : Text) : Prop where
  closed : depthAfter depth text = some 0
  commas : ∀ front back, text = front ++ ',' :: back → depthAfter depth front ≠ some 0

/-- There is no comma in an empty text. -/
theorem undivided_nil : Undivided 0 [] where
  closed := rfl
  commas front back split := by simp at split

/-- A character that is no dividing comma may stand in front. -/
theorem Undivided.cons {depth inside : Nat} {c : Char} {text : Text}
    (undivided : Undivided inside text)
    (walk : ∀ inner, depthAfter depth (c :: inner) = depthAfter inside inner)
    (enclosed : c = ',' → depth ≠ 0) : Undivided depth (c :: text) where
  closed := (walk text).trans undivided.closed
  commas front back split := by
    cases front with
    | nil =>
      obtain ⟨rfl, _⟩ := List.cons.inj split
      simpa using enclosed rfl
    | cons first front =>
      obtain ⟨rfl, rfl⟩ := List.cons.inj split
      rw [walk]
      exact undivided.commas front back rfl

end Arbor.Text
