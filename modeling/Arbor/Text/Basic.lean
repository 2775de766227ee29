/-!
# Texts, byte offsets and spans

A text is the list of its characters. Positions are not character counts: every
position that the library reports is an offset in bytes of the UTF-8 encoding, so
a text is measured by `byteLength` and cut by `takeBytes` and `dropBytes`. A span
is a half-open range of such offsets.

Splitting keeps every piece, also empty ones, so that joining the pieces with the
separator gives the text back.
-/
namespace Arbor

/-- A text is the sequence of its characters. -/
abbrev Text := List Char

/-- A half-open range of byte offsets of a text. -/
structure Span where
  /-- The offset of the first byte inside. -/
  start : Nat
  /-- The offset of the first byte behind. -/
  stop : Nat
  deriving DecidableEq, Repr, Inhabited

namespace Span

/-- The same range, seen from a text that begins `offset` bytes earlier. -/
def shift (offset : Nat) (span : Span) : Span :=
  ⟨span.start + offset, span.stop + offset⟩

end Span

namespace Text

/-- The number of bytes of the UTF-8 encoding. -/
def byteLength (text : Text) : Nat :=
  text.foldr (fun c length => c.utf8Size + length) 0

@[simp] theorem byteLength_nil : byteLength [] = 0 := rfl

@[simp] theorem byteLength_cons (c : Char) (rest : Text) :
    byteLength (c :: rest) = c.utf8Size + byteLength rest := rfl

@[simp] theorem byteLength_append (left right : Text) :
    byteLength (left ++ right) = byteLength left + byteLength right := by
  induction left with
  | nil => simp
  | cons c rest ih => simp [ih, Nat.add_assoc]

/-- The characters that start within the first `count` bytes. -/
def takeBytes : Nat → Text → Text
  | _, [] => []
  | 0, _ => []
  | count + 1, c :: rest => c :: takeBytes (count + 1 - c.utf8Size) rest

/-- What is left when the characters that start within the first `count` bytes are gone. -/
def dropBytes : Nat → Text → Text
  | _, [] => []
  | 0, text => text
  | count + 1, c :: rest => dropBytes (count + 1 - c.utf8Size) rest

/-- The part of a text that a span covers. -/
def slice (text : Text) (span : Span) : Text :=
  takeBytes (span.stop - span.start) (dropBytes span.start text)

/-- Puts a character in front of the first piece. -/
def prepend (c : Char) : List Text → List Text
  | [] => [[c]]
  | piece :: pieces => (c :: piece) :: pieces

/-- The pieces between the occurrences of `token`, when `skip` further characters
still belong to the occurrence met last. Occurrences are taken from the left and do
not overlap. -/
def splitAfter (token : Text) : Nat → Text → List Text
  | _, [] => [[]]
  | skip + 1, _ :: rest => splitAfter token skip rest
  | 0, c :: rest =>
    if token.isPrefixOf (c :: rest) then
      [] :: splitAfter token (token.length - 1) rest
    else
      prepend c (splitAfter token 0 rest)

/-- The pieces between the occurrences of a nonempty `token`, one more than there are
occurrences. -/
def splitOn (token text : Text) : List Text :=
  splitAfter token 0 text

/-- The pieces with a separator between neighbours. -/
def joinWith (separator : Char) (pieces : List Text) : Text :=
  List.intercalate [separator] pieces

/-- The spans of pieces that stand one after the other with a one-byte separator
between neighbours, the first at `offset`. -/
def spansFrom : Nat → List Text → List Span
  | _, [] => []
  | offset, piece :: pieces =>
    let stop := offset + byteLength piece
    ⟨offset, stop⟩ :: spansFrom (stop + 1) pieces

/-- The two parts of a text make up the text. -/
theorem takeBytes_append_dropBytes (count : Nat) (text : Text) :
    takeBytes count text ++ dropBytes count text = text := by
  fun_induction takeBytes count text with
  | case1 => simp [dropBytes]
  | case2 => simp [dropBytes]
  | case3 count c rest ih => simp [dropBytes, ih]

/-- A text is cut where one of its parts ends. -/
theorem takeBytes_byteLength_append (left right : Text) :
    takeBytes (byteLength left) (left ++ right) = left := by
  induction left with
  | nil => cases right <;> simp [takeBytes]
  | cons c rest ih =>
    obtain ⟨size, same⟩ : ∃ size, c.utf8Size = size + 1 :=
      ⟨c.utf8Size - 1, by have := c.utf8Size_pos; omega⟩
    rw [byteLength_cons, same, Nat.add_right_comm, List.cons_append, takeBytes]
    have left : size + byteLength rest + 1 - c.utf8Size = byteLength rest := by omega
    rw [left, ih]

/-- What is left is the other part. -/
theorem dropBytes_byteLength_append (left right : Text) :
    dropBytes (byteLength left) (left ++ right) = right := by
  have split := takeBytes_append_dropBytes (byteLength left) (left ++ right)
  rw [takeBytes_byteLength_append] at split
  exact List.append_cancel_left split

/-- The part of a text that stands between two others is where they leave room for it. -/
theorem slice_append (before piece after : Text) :
    slice (before ++ (piece ++ after))
      ⟨byteLength before, byteLength before + byteLength piece⟩ = piece := by
  rw [slice, dropBytes_byteLength_append, Nat.add_sub_cancel_left, takeBytes_byteLength_append]

/-- There is at least one piece. -/
theorem splitAfter_ne_nil (token : Text) (skip : Nat) (text : Text) :
    splitAfter token skip text ≠ [] := by
  fun_induction splitAfter token skip text with
  | case1 => simp
  | case2 _ _ _ ih => exact ih
  | case3 => simp
  | case4 c rest _ ih =>
    cases pieces : splitAfter token 0 rest with
    | nil => exact absurd pieces ih
    | cons piece pieces => simp [prepend]

/-- A character in front of the first piece is in front of the joined text. -/
theorem joinWith_prepend (separator c : Char) {pieces : List Text} (some : pieces ≠ []) :
    joinWith separator (prepend c pieces) = c :: joinWith separator pieces := by
  match pieces with
  | [] => exact absurd rfl some
  | [piece] => simp [joinWith, prepend]
  | piece :: next :: pieces => simp [joinWith, prepend, List.intercalate, List.intersperse]

/-- A piece is divided from those behind it by one separator. -/
theorem joinWith_cons (separator : Char) (piece : Text) {pieces : List Text}
    (some : pieces ≠ []) :
    joinWith separator (piece :: pieces) = piece ++ separator :: joinWith separator pieces := by
  match pieces with
  | [] => exact absurd rfl some
  | next :: pieces => simp [joinWith, List.intercalate, List.intersperse]

/-- The pieces of a text, joined with the separator, give the text back. -/
theorem joinWith_splitOn (separator : Char) (text : Text) :
    joinWith separator (splitOn [separator] text) = text := by
  unfold splitOn
  induction text with
  | nil => simp [splitAfter, joinWith]
  | cons c rest ih =>
    have pieces := splitAfter_ne_nil [separator] 0 rest
    by_cases same : separator = c
    · subst same
      simp only [splitAfter, List.isPrefixOf]
      cases split : splitAfter [separator] 0 rest with
      | nil => exact absurd split pieces
      | cons piece others =>
        rw [split] at ih
        simp [split, joinWith, List.intercalate] at ih ⊢
        exact ih
    · simp [splitAfter, List.isPrefixOf, same, joinWith_prepend, pieces, ih]
end Text

end Arbor
