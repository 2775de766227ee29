import Arbor.Text.Basic

/-!
# Texts that are woven

A text is woven from literals and from pieces between neighbouring literals. The literals say
where the pieces stand, so other pieces between the same literals stand in their places, however
long they are. A parameter list is woven too: its brackets and commas are among the literals, with
an empty list as a part of the literal around it.
-/
namespace Arbor.Text

/-- Literals with a piece between neighbours. -/
def weave : List Text → List Text → Text
  | literal :: literals, piece :: pieces => literal ++ (piece ++ weave literals pieces)
  | literals, _ => literals.flatten

/-- The spans of the pieces in a woven text that begins at `position`. -/
def weaveSpans (position : Nat) : List Text → List Text → List Span
  | literal :: literals, piece :: pieces =>
    let start := position + byteLength literal
    ⟨start, start + byteLength piece⟩ :: weaveSpans (start + byteLength piece) literals pieces
  | _, _ => []

/-- There is a span for each piece. -/
theorem length_weaveSpans {literals pieces : List Text} (fit : literals.length = pieces.length + 1)
    (position : Nat) : (weaveSpans position literals pieces).length = pieces.length := by
  induction pieces generalizing literals position with
  | nil => cases literals <;> rfl
  | cons piece pieces ih =>
    cases literals with
    | nil => simp at fit
    | cons literal literals =>
      rw [weaveSpans, List.length_cons, List.length_cons, ih (by simpa using fit)]

/-- Each piece is the part of the woven text at its span, also when something stands before the
woven text. -/
theorem map_slice_weaveSpans {literals pieces : List Text} (fit : literals.length = pieces.length + 1)
    (before : Text) :
    (weaveSpans (byteLength before) literals pieces).map (slice (before ++ weave literals pieces)) =
      pieces := by
  induction pieces generalizing literals before with
  | nil => cases literals <;> rfl
  | cons piece pieces ih =>
    cases literals with
    | nil => simp at fit
    | cons literal literals =>
      have here := slice_append (before ++ literal) piece (weave literals pieces)
      have later := ih (by simpa using fit) (before ++ (literal ++ piece))
      simp only [byteLength_append, List.append_assoc, ← Nat.add_assoc] at here later
      simp only [weaveSpans, weave, List.map_cons, here, later]

/-- A text is woven from literals and pieces, and the pieces stand at the spans. -/
structure Woven (whole : Text) (literals pieces : List Text) (spans : List Span) : Prop where
  /-- A literal stands in front of each piece, and one behind the last. -/
  fit : literals.length = pieces.length + 1
  whole : whole = weave literals pieces
  spans : spans = weaveSpans 0 literals pieces

/-- The pieces of a woven text are its parts at their spans. -/
theorem Woven.pieces {whole : Text} {literals pieces : List Text} {spans : List Span}
    (woven : Woven whole literals pieces spans) : spans.map (slice whole) = pieces := by
  rw [woven.spans, woven.whole]
  exact map_slice_weaveSpans woven.fit []

/-- A character in front of the first literal is in front of the woven text. -/
theorem weave_prepend (c : Char) {literals : List Text} (some : literals ≠ [])
    (pieces : List Text) : weave (prepend c literals) pieces = c :: weave literals pieces := by
  cases literals with
  | nil => exact absurd rfl some
  | cons literal literals => cases pieces <;> simp [prepend, weave]

/-- A character in front of the first literal puts the pieces behind it. -/
theorem weaveSpans_prepend (c : Char) {literals : List Text} (some : literals ≠ [])
    (pieces : List Text) (position : Nat) :
    weaveSpans position (prepend c literals) pieces =
      weaveSpans (position + c.utf8Size) literals pieces := by
  cases literals with
  | nil => exact absurd rfl some
  | cons literal literals => cases pieces <;> simp [prepend, weaveSpans, Nat.add_assoc]

/-- There is a first literal to put a character in front of, if need be an empty one. -/
theorem prepend_ne_nil (c : Char) (literals : List Text) : prepend c literals ≠ [] := by
  cases literals <;> simp [prepend]

/-- A further character does not make a further literal. -/
theorem length_prepend (c : Char) {literals : List Text} (some : literals ≠ []) :
    (prepend c literals).length = literals.length := by
  cases literals with
  | nil => exact absurd rfl some
  | cons literal literals => rfl

/-! ## Lists -/

/-- The literals of a list with `count` arguments in front of others. -/
def listLiterals (later : List Text) : Nat → List Text
  | 0 => prepend '(' (prepend ')' later)
  | count + 1 => ['('] :: (List.replicate count [','] ++ prepend ')' later)

/-- Arguments with commas between them are woven from commas. -/
theorem weave_commas (piece : Text) (pieces later others : List Text) :
    piece ++ weave (List.replicate pieces.length [','] ++ later) (pieces ++ others) =
      joinWith ',' (piece :: pieces) ++ weave later others := by
  induction pieces generalizing piece with
  | nil => simp [joinWith]
  | cons next pieces ih =>
    rw [joinWith_cons ',' piece (by simp)]
    simp only [List.append_assoc, List.cons_append, ← ih next]
    simp [List.replicate_succ, weave]

/-- Arguments with commas between them stand one after the other with one byte between them. -/
theorem weaveSpans_commas (piece : Text) (pieces later others : List Text) (position : Nat) :
    ⟨position, position + byteLength piece⟩ ::
        weaveSpans (position + byteLength piece) (List.replicate pieces.length [','] ++ later)
          (pieces ++ others) =
      spansFrom position (piece :: pieces) ++
        weaveSpans (position + byteLength (joinWith ',' (piece :: pieces))) later others := by
  induction pieces generalizing piece position with
  | nil => simp [joinWith, spansFrom]
  | cons next pieces ih =>
    have comma : byteLength [','] = 1 := by decide
    have place : position + byteLength (joinWith ',' (piece :: next :: pieces)) =
        position + byteLength piece + 1 + byteLength (joinWith ',' (next :: pieces)) := by
      rw [joinWith_cons ',' piece (by simp), byteLength_append, byteLength_cons]
      change _ + (_ + (1 + _)) = _
      omega
    rw [place, spansFrom]
    simp only [List.cons_append, ← ih next]
    simp [List.replicate_succ, weaveSpans, comma]

/-- A list is woven from its literals and its arguments. -/
theorem weave_listLiterals {later : List Text} (some : later ≠ []) (pieces others : List Text) :
    weave (listLiterals later pieces.length) (pieces ++ others) =
      '(' :: (joinWith ',' pieces ++ ')' :: weave later others) := by
  cases pieces with
  | nil =>
    have closed : prepend ')' later ≠ [] := prepend_ne_nil ')' later
    simp [listLiterals, weave_prepend, some, closed, joinWith]
  | cons piece pieces =>
    have inside := weave_commas piece pieces (prepend ')' later) others
    rw [weave_prepend ')' some] at inside
    simpa [listLiterals, weave] using inside

/-- The arguments of a list stand where its pieces are woven in. -/
theorem weaveSpans_listLiterals {later : List Text} (some : later ≠ []) (pieces others : List Text)
    (position : Nat) :
    weaveSpans position (listLiterals later pieces.length) (pieces ++ others) =
      spansFrom (position + 1) pieces ++
        weaveSpans (position + byteLength (joinWith ',' pieces) + 2) later others := by
  have brackets : '('.utf8Size = 1 ∧ ')'.utf8Size = 1 := by decide
  cases pieces with
  | nil =>
    have closed : prepend ')' later ≠ [] := prepend_ne_nil ')' later
    simp [listLiterals, weaveSpans_prepend, some, closed, joinWith, spansFrom, brackets]
  | cons piece pieces =>
    have inside := weaveSpans_commas piece pieces (prepend ')' later) others (position + 1)
    have place : position + 1 + byteLength (joinWith ',' (piece :: pieces)) + 1 =
        position + byteLength (joinWith ',' (piece :: pieces)) + 2 := by omega
    rw [weaveSpans_prepend ')' some, brackets.2, place] at inside
    simpa [listLiterals, weaveSpans, brackets] using inside

/-- A list has one literal more than arguments, but for the literal that it shares with the text
behind it. -/
theorem length_listLiterals {later : List Text} (some : later ≠ []) (count : Nat) :
    (listLiterals later count).length = later.length + count := by
  cases count with
  | zero => rw [listLiterals, length_prepend '(' (prepend_ne_nil ')' later), length_prepend ')' some]; rfl
  | succ count =>
    simp [listLiterals, length_prepend, some]
    omega

end Arbor.Text
