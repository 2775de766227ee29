import Arbor.Text.Basic

/-!
# Parameter lists

A symbol carries its parameters in round brackets, which nest. Square brackets are
branch symbols of the turtle and ordinary characters here. A text is cut at the bracket
that closes its first group, and the inside of a group at the commas that stand in no
further group. The slots of a text are the arguments of all its outermost groups from
left to right; an empty group has none.

All positions are byte offsets. A function that reports one takes the offset of its
text, so that what it reports belongs to the whole text.
-/
namespace Arbor

/-- What is wrong with the brackets of a text. -/
inductive BracketError where
  /-- A closing bracket at this position has no opening bracket. -/
  | unexpectedClose (position : Nat)
  /-- An opening bracket is never closed. -/
  | unclosed
  deriving DecidableEq, Repr

/-- The wording of a fault. -/
def BracketError.message : BracketError → String
  | .unexpectedClose position => s!"closing bracket without opening bracket at {position}"
  | .unclosed => "opening bracket is never closed"

namespace ParameterList

/-- Puts a character in front of the part before a cut. -/
def keepBefore (c : Char) (parts : Text × Text) : Text × Text :=
  (c :: parts.1, parts.2)

/-- Cuts a text at the bracket that closes the outermost of `depth` open groups; the
bracket itself belongs to neither part. With no group open the first one of the text
is the one that counts. -/
def splitAtClose (depth position : Nat) : Text → Except BracketError (Text × Text)
  | [] => .error .unclosed
  | '(' :: rest => (splitAtClose (depth + 1) (position + 1) rest).map (keepBefore '(')
  | ')' :: rest =>
    match depth with
    | 0 => .error (.unexpectedClose position)
    | 1 => .ok ([], rest)
    | outer + 2 => (splitAtClose (outer + 1) (position + 1) rest).map (keepBefore ')')
  | c :: rest => (splitAtClose depth (position + c.utf8Size) rest).map (keepBefore c)

/-- The two parts of a text and the closing bracket between them make up the text. -/
theorem eq_append_of_splitAtClose {depth position : Nat} {text before after : Text}
    (cut : splitAtClose depth position text = .ok (before, after)) :
    text = before ++ ')' :: after := by
  fun_induction splitAtClose depth position text generalizing before with
  | case1 => cases cut
  | case2 depth position rest ih =>
    cases inner : splitAtClose (depth + 1) (position + 1) rest with
    | error _ => simp [inner, Except.map] at cut
    | ok parts =>
      simp only [inner, Except.map, keepBefore, Except.ok.injEq, Prod.mk.injEq] at cut
      obtain ⟨rfl, rfl⟩ := cut
      simpa using ih inner
  | case3 => cases cut
  | case4 => cases cut; rfl
  | case5 position rest outer ih =>
    cases inner : splitAtClose (outer + 1) (position + 1) rest with
    | error _ => simp [inner, Except.map] at cut
    | ok parts =>
      simp only [inner, Except.map, keepBefore, Except.ok.injEq, Prod.mk.injEq] at cut
      obtain ⟨rfl, rfl⟩ := cut
      simpa using ih inner
  | case6 depth position c rest _ _ ih =>
    cases inner : splitAtClose depth (position + c.utf8Size) rest with
    | error _ => simp [inner, Except.map] at cut
    | ok parts =>
      simp only [inner, Except.map, keepBefore, Except.ok.injEq, Prod.mk.injEq] at cut
      obtain ⟨rfl, rfl⟩ := cut
      simpa using ih inner

/-- The offset of the bracket that closes the first group of a text. -/
def closingOffset (text : Text) : Except BracketError Nat :=
  (splitAtClose 0 0 text).map fun parts => Text.byteLength parts.1

/-- The pieces between the commas that stand in no group, when `depth` groups are open
at the start of the text. -/
def splitAtCommas (depth position : Nat) : Text → Except BracketError (List Text)
  | [] => if depth = 0 then .ok [[]] else .error .unclosed
  | '(' :: rest => (splitAtCommas (depth + 1) (position + 1) rest).map (Text.prepend '(')
  | ')' :: rest =>
    match depth with
    | 0 => .error (.unexpectedClose position)
    | outer + 1 => (splitAtCommas outer (position + 1) rest).map (Text.prepend ')')
  | ',' :: rest =>
    if depth = 0 then
      (splitAtCommas 0 (position + 1) rest).map ([] :: ·)
    else
      (splitAtCommas depth (position + 1) rest).map (Text.prepend ',')
  | c :: rest => (splitAtCommas depth (position + c.utf8Size) rest).map (Text.prepend c)

/-- The arguments that stand in a group with these contents. -/
def arguments (position : Nat) (contents : Text) : Except BracketError (List Text) :=
  if contents.isEmpty then .ok [] else splitAtCommas 0 position contents

/-- The spans of the arguments of a group with these contents. -/
def argumentSpans (contents : Text) : Except BracketError (List Span) :=
  (arguments 0 contents).map (Text.spansFrom 0)

/-- The spans of all arguments of the outermost groups of a text that starts at
`position`. -/
def slotSpansFrom (position : Nat) (text : Text) : Except BracketError (List Span) :=
  match text with
  | [] => .ok []
  | '(' :: rest =>
    match _cut : splitAtClose 1 (position + 1) rest with
    | .error fault => .error fault
    | .ok (contents, after) => do
      let pieces ← arguments (position + 1) contents
      let later ← slotSpansFrom (position + Text.byteLength contents + 2) after
      pure (Text.spansFrom (position + 1) pieces ++ later)
  | ')' :: _ => .error (.unexpectedClose position)
  | c :: rest => slotSpansFrom (position + c.utf8Size) rest
termination_by text.length
decreasing_by
  · simp only [eq_append_of_splitAtClose _cut, List.length_append, List.length_cons]; omega
  · simp only [List.length_cons]; omega

/-- The spans of all slots of a text, from left to right. -/
def slotSpans (text : Text) : Except BracketError (List Span) :=
  slotSpansFrom 0 text

/-- The contents of the list with which a text begins, if it begins with one, and what
follows. -/
def take (position : Nat) : Text → Except BracketError (Option Text × Text)
  | '(' :: rest =>
    (splitAtClose 1 (position + 1) rest).map fun (contents, after) => (some contents, after)
  | text => .ok (none, text)

end ParameterList

end Arbor
