import Arbor.Proofs.SymbolStarts
import Arbor.Proofs.Walks

/-!
# Symbols without meaning

A symbol without meaning is skipped with its parameter list, whatever the list holds: brackets,
branch symbols and symbols with a meaning are passed over with it. So a sequence with such a symbol
describes the tree that it describes without it. If the sequence is faulty, then it has the same
fault without the symbol, earlier by the bytes of the symbol and its list.

The text behind the symbol must not begin with an opening bracket. Without the symbol it would open
a list of the symbol in front.
-/
namespace Arbor

open Text

variable {π : Type}

/-- The same fault of a text that stands `offset` bytes later in its sequence. -/
def InterpretationError.shift (offset : Nat) : InterpretationError → InterpretationError
  | .brackets position => .brackets (position + offset)
  | .missingParameters symbol position => .missingParameters symbol (position + offset)
  | .invalidParameter symbol position text => .invalidParameter symbol (position + offset) text
  | .tooFewParameters symbol expected found => .tooFewParameters symbol expected found
  | .emptyResult => .emptyResult

namespace Interpretation

variable {interpretation : Interpretation π}

/-! ## Later in a sequence -/

/-- What a text comes to `offset` bytes later: the same values with the place behind them later, or
the same fault later. -/
def later {α : Type} (offset : Nat) (result : Except InterpretationError (α × Nat × Text)) :
    Except InterpretationError (α × Nat × Text) :=
  (result.map fun (value, place, rest) => (value, place + offset, rest)).mapError (.shift offset)

/-- Arguments that stand later have the same values and their faults later. -/
theorem readParameters_add (symbol : Char) (offset position : Nat) (pieces : List Text) :
    readParameters symbol (position + offset) pieces =
      (readParameters symbol position pieces).mapError (.shift offset) := by
  induction pieces generalizing position with
  | nil => rfl
  | cons piece pieces ih =>
    have behind : position + offset + byteLength piece + 1 =
        position + byteLength piece + 1 + offset := by omega
    rw [readParameters, readParameters, behind, ih]
    cases readSingle? (trim piece) with
    | none => rfl
    | some value => cases readParameters symbol (position + byteLength piece + 1) pieces <;> rfl

/-- A list that stands later has the same parameters. -/
theorem takeParameters_add (symbol : Char) (offset position : Nat) (text : Text) :
    takeParameters symbol (position + offset) text =
      later offset (takeParameters symbol position text) := by
  rw [takeParameters, takeParameters, ParameterList.take_position (position + offset) position]
  cases taken : ParameterList.take position text with
  | error fault => rfl
  | ok parts =>
    obtain ⟨contents?, rest⟩ := parts
    cases contents? with
    | none => rfl
    | some contents =>
      have balanced : Balanced contents := (ParameterList.take_eq_some_iff.mp taken).2
      obtain ⟨pieces, _, found⟩ := ParameterList.arguments_of_balanced balanced
      have inside : position + offset + 1 = position + 1 + offset := by omega
      have behind : position + offset + byteLength contents + 2 =
          position + byteLength contents + 2 + offset := by omega
      simp only [found, inside, readParameters_add symbol offset (position + 1), behind]
      cases readParameters symbol (position + 1) pieces <;> rfl

/-- A list that stands later is skipped. -/
theorem skipParameters_add (offset position : Nat) (text : Text) :
    skipParameters (position + offset) text =
      ((skipParameters position text).map fun (place, rest) => (place + offset, rest)).mapError
        (.shift offset) := by
  rw [skipParameters, skipParameters, ParameterList.take_position (position + offset) position]
  cases ParameterList.take position text with
  | error fault => rfl
  | ok parts =>
    obtain ⟨contents?, rest⟩ := parts
    cases contents? with
    | none => rfl
    | some contents =>
      have behind : position + offset + byteLength contents + 2 =
          position + byteLength contents + 2 + offset := by omega
      simp only [behind]
      rfl

variable [Part π]

/-- A symbol that stands later does the same. -/
theorem act_add (turtle : Turtle π) (symbol : Char) (offset position : Nat) (rest : Text) :
    interpretation.act turtle symbol (position + offset) rest =
      later offset (interpretation.act turtle symbol position rest) := by
  have behind : position + offset + symbol.utf8Size = position + symbol.utf8Size + offset := by
    omega
  have taken := takeParameters_add symbol offset (position + symbol.utf8Size) rest
  have skipped := skipParameters_add offset (position + symbol.utf8Size) rest
  unfold act
  simp only [behind, taken, skipped]
  cases interpretation.meanings.command symbol with
  | rotate axis =>
    cases takeParameters symbol (position + symbol.utf8Size) rest with
    | error fault => rfl
    | ok found =>
      obtain ⟨parameters, place, after⟩ := found
      rcases parameters with _ | _ | _ <;> rfl
  | draw index =>
    cases takeParameters symbol (position + symbol.utf8Size) rest with
    | error fault => rfl
    | ok found =>
      simp only [later, Except.map, Except.mapError, bind, Except.bind]
      cases interpretation.parts[index]? with
      | none => rfl
      | some part =>
        by_cases few : (found.1.getD []).length < Part.arity part
        · simp only [few, if_true]
          rfl
        · simp only [few, if_false]
  | push => rfl
  | pop => rfl
  | ignore => cases skipParameters (position + symbol.utf8Size) rest <;> rfl

/-- A walk through a text that stands later comes to the same turtle. -/
theorem walk_add (offset count position : Nat) (turtle : Turtle π) (text : Text) :
    interpretation.walk count turtle (position + offset) text =
      (interpretation.walk count turtle position text).mapError (.shift offset) := by
  induction count generalizing turtle position text with
  | zero => rfl
  | succ count ih =>
    cases text with
    | nil => rfl
    | cons symbol rest =>
      rw [walk, walk, act_add]
      cases interpretation.act turtle symbol position rest with
      | error fault => rfl
      | ok acted => exact ih acted.2.1 acted.1 acted.2.2

/-! ## Silence -/

/-- A token without meaning is passed over. -/
theorem act_of_silent {token : Token} {after : Text}
    (silent : interpretation.meanings.command token.symbol = .ignore) (fits : token.Fits after)
    (turtle : Turtle π) (position : Nat) :
    ∃ rest, token.text ++ after = token.symbol :: rest ∧
      interpretation.act turtle token.symbol position rest =
        .ok (turtle, position + byteLength token.text, after) := by
  have skips {rest : Text} (taken : ParameterList.take (position + token.symbol.utf8Size) rest =
      .ok (token.contents?, after)) : interpretation.act turtle token.symbol position rest =
        .ok (turtle, position + byteLength token.text, after) := by
    rw [Token.byteLength_text, act, silent, skipParameters, taken, ← Nat.add_assoc]
    cases token.contents? <;> rfl
  obtain ⟨symbol, contents?⟩ := token
  cases contents? with
  | none => exact ⟨after, rfl, skips (ParameterList.take_of_head?_ne fits _)⟩
  | some contents =>
    refine ⟨'(' :: (contents ++ ')' :: after), by simp [Token.text], skips ?_⟩
    exact ParameterList.take_eq_some_iff.mpr ⟨rfl, fits⟩

/-- If a sequence describes a tree, then a token without meaning behind it is invisible: with any
text behind that does not begin with an opening bracket, the sequence describes the same tree with
the token and without it, or it has the same fault, with the token later by the bytes of the
token. -/
theorem tree_insert_silent {before after : Text} {token : Token} {grown : PartTree π}
    (succeeds : interpretation.tree before = .ok grown)
    (silent : interpretation.meanings.command token.symbol = .ignore)
    (plain : token.symbol ≠ '(') (closed : token.Closed) (bare : after.head? ≠ some '(') :
    interpretation.tree (before ++ token.text ++ after) =
      (interpretation.tree (before ++ after)).mapError (.shift (byteLength token.text)) := by
  obtain ⟨turtle, place, _, _, reached⟩ := exists_reaches_of_tree succeeds
  have fits : token.Fits after := by
    obtain ⟨symbol, _ | contents⟩ := token
    · exact bare
    · exact closed
  obtain ⟨rest, split, acted⟩ := act_of_silent silent fits turtle place
  have opens : (token.text ++ after).head? ≠ some '(' := by
    rw [split]
    exact fun same => plain (Option.some.inj same)
  have withToken := reached.append opens
  rw [List.nil_append, split] at withToken
  have behind := withToken.act acted
  rw [← split] at behind
  have without := reached.append bare
  rw [tree, tree, List.append_assoc, finalTurtle_of_reaches behind, finalTurtle_of_reaches without,
    walk_add, List.nil_append]
  cases interpretation.walk after.length turtle place after <;> rfl

/-- A list with brackets of both kinds and with a symbol that draws is passed over, and the fault
behind it is the one that is there without it. -/
theorem tree_insert_silent_before_fault :
    (dots.tree "A".toList).isOk = true ∧
      dots.tree "AX".toList = .error (.missingParameters 'X' 1) ∧
      dots.tree "AG(A(]),é)X".toList = .error (.missingParameters 'X' 11) := by
  have succeeds : (dots.tree "A".toList).isOk = true := by rfl
  have without : dots.tree "AX".toList = .error (.missingParameters 'X' 1) := by rfl
  obtain ⟨tree, grown⟩ := exists_of_isOk succeeds
  have silent : dots.meanings.command 'G' = .ignore := by rfl
  have plain : 'G' ≠ '(' := by decide
  have closed : Balanced "A(]),é".toList := by decide
  have inserted := @tree_insert_silent _ dots _ "A".toList "X".toList ⟨'G', some "A(]),é".toList⟩
    tree grown silent plain closed (by decide)
  exact ⟨succeeds, without, inserted.trans (congrArg _ without)⟩

end Interpretation

end Arbor
