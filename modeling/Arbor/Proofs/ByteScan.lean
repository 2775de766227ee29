import Arbor.Proofs.Arguments

/-!
# Slots found byte by byte

The slots of a text are found character by character, and the offset of what is left is carried
along. Here they are found by a scan of the bytes of the text instead. It knows one offset and the
whole text only: at an opening bracket it cuts the text there and looks for the closing bracket of
what is left, cuts out the contents and takes their arguments, and moves what these two report by
the offsets of the two cuts. At any other byte it goes on by one, also in the middle of a
character. No byte of a character other than a bracket is that of a bracket, so the scan stops at
brackets only, and it finds the same slots and the same faults.
-/
namespace Arbor

open Text

/-! ## Bytes -/

namespace Text

/-- The bytes of the UTF-8 encoding. -/
def encoding (text : Text) : List UInt8 :=
  text.flatMap String.utf8EncodeChar

/-- The byte of an opening bracket. -/
def openByte : UInt8 := 0x28

/-- The byte of a closing bracket. -/
def closeByte : UInt8 := 0x29

theorem encoding_append (left right : Text) :
    encoding (left ++ right) = encoding left ++ encoding right :=
  List.flatMap_append

/-- The bytes are counted by the length in bytes. -/
@[simp] theorem length_encoding (text : Text) : (encoding text).length = byteLength text := by
  induction text with
  | nil => rfl
  | cons c rest ih =>
    rw [encoding, List.flatMap_cons, List.length_append, String.length_utf8EncodeChar]
    exact congrArg (c.utf8Size + ·) ih

/-- A byte below 128 is a character of its own. The bytes of longer characters are marked by their
upper bits. -/
theorem toNat_of_mem_utf8EncodeChar {c : Char} {byte : UInt8}
    (among : byte ∈ String.utf8EncodeChar c) (ascii : byte.toNat < 128) :
    c.toNat = byte.toNat := by
  have marked (number : Nat) (above : 128 ≤ number) (below : number < 256) :
      byte ≠ UInt8.ofNat number := by
    rintro rfl
    rw [UInt8.toNat_ofNat_of_lt' below] at ascii
    omega
  have value : c.val.toNat = c.toNat := rfl
  rw [String.utf8EncodeChar] at among
  split at among
  · next short =>
    obtain rfl := List.mem_singleton.mp among
    rw [value, UInt8.toNat_ofNat_of_lt' (by rw [UInt8.size]; omega)]
  · exfalso
    split at among
    · simp only [List.mem_cons, List.not_mem_nil, or_false] at among
      rcases among with same | same <;> exact marked _ (by omega) (by omega) same
    · split at among
      · simp only [List.mem_cons, List.not_mem_nil, or_false] at among
        rcases among with same | same | same <;> exact marked _ (by omega) (by omega) same
      · simp only [List.mem_cons, List.not_mem_nil, or_false] at among
        rcases among with same | same | same | same <;> exact marked _ (by omega) (by omega) same

/-- No byte of another character is that of an opening bracket. -/
theorem eq_open_of_mem {c : Char} (among : openByte ∈ String.utf8EncodeChar c) : c = '(' :=
  Char.toNat_inj.mp (toNat_of_mem_utf8EncodeChar among (by decide))

/-- No byte of another character is that of a closing bracket. -/
theorem eq_close_of_mem {c : Char} (among : closeByte ∈ String.utf8EncodeChar c) : c = ')' :=
  Char.toNat_inj.mp (toNat_of_mem_utf8EncodeChar among (by decide))

/-- The bytes of a character stand behind those of the text before it. -/
theorem getElem?_encoding {before after : Text} {c : Char} {index : Nat}
    (within : index < c.utf8Size) :
    (encoding (before ++ c :: after))[byteLength before + index]? =
      (String.utf8EncodeChar c)[index]? := by
  have here : index < (String.utf8EncodeChar c).length := by rwa [String.length_utf8EncodeChar]
  rw [encoding_append, ← length_encoding, List.getElem?_append_right (Nat.le_add_right _ _),
    Nat.add_sub_cancel_left, encoding, List.flatMap_cons, List.getElem?_append_left here]

end Text

/-! ## The scan -/

/-- The same fault of a text that begins `offset` bytes later. -/
def BracketError.shift (offset : Nat) : BracketError → BracketError
  | .unexpectedClose position => .unexpectedClose (position + offset)
  | .unclosed => .unclosed

namespace ParameterList

/-- The spans of the slots of a text that begin at a byte or behind it, if no bracket is open
there. -/
def scanSlots (text : Text) (index : Nat) : Except BracketError (List Span) :=
  if within : index < (encoding text).length then
    if (encoding text)[index] = openByte then
      match closingOffset (dropBytes index text) with
      | .error fault => .error (fault.shift index)
      | .ok length =>
        match argumentSpans (slice text ⟨index + 1, index + length⟩) with
        | .error fault => .error (fault.shift (index + 1))
        | .ok spans =>
          (scanSlots text (index + length + 1)).map (spans.map (Span.shift (index + 1)) ++ ·)
    else if (encoding text)[index] = closeByte then
      .error (.unexpectedClose index)
    else
      scanSlots text (index + 1)
  else
    .ok []
termination_by (encoding text).length - index
decreasing_by all_goals omega

/-- Behind the last byte there are no slots. -/
theorem scanSlots_end (text : Text) : scanSlots text (byteLength text) = .ok [] := by
  rw [scanSlots, dif_neg (by simp)]

/-- Bytes that are no brackets are passed over. -/
theorem scanSlots_skip {text : Text} {index count : Nat}
    (plain : ∀ place < count, ∃ byte, (encoding text)[index + place]? = some byte ∧
      byte ≠ openByte ∧ byte ≠ closeByte) :
    scanSlots text index = scanSlots text (index + count) := by
  induction count generalizing index with
  | zero => rfl
  | succ count ih =>
    obtain ⟨byte, found, opens, closes⟩ := plain 0 (Nat.succ_pos count)
    obtain ⟨within, same⟩ := List.getElem?_eq_some_iff.mp (Nat.add_zero index ▸ found)
    have step : scanSlots text index = scanSlots text (index + 1) := by
      rw [scanSlots, dif_pos within, same, if_neg opens, if_neg closes]
    rw [step, ih fun place below => ?_, Nat.add_right_comm, Nat.add_assoc]
    have later := plain (place + 1) (Nat.succ_lt_succ below)
    rwa [Nat.add_right_comm, Nat.add_assoc]

/-- Characters that are no brackets are passed over. -/
theorem scanSlots_plain {before after : Text} {c : Char} (opens : c ≠ '(') (closes : c ≠ ')') :
    scanSlots (before ++ c :: after) (byteLength before) =
      scanSlots (before ++ c :: after) (byteLength before + c.utf8Size) := by
  refine scanSlots_skip fun place below => ?_
  have inside : place < (String.utf8EncodeChar c).length := by
    rwa [String.length_utf8EncodeChar]
  refine ⟨(String.utf8EncodeChar c)[place], ?_, ?_, ?_⟩
  · rw [getElem?_encoding below, List.getElem?_eq_getElem inside]
  · intro same
    exact opens (eq_open_of_mem (same ▸ List.getElem_mem inside))
  · intro same
    exact closes (eq_close_of_mem (same ▸ List.getElem_mem inside))

/-- A byte that is found is the one at its index. -/
theorem scanSlots_of_getElem? {text : Text} {index : Nat} {byte : UInt8}
    (found : (encoding text)[index]? = some byte) :
    scanSlots text index =
      if byte = openByte then
        match closingOffset (dropBytes index text) with
        | .error fault => .error (fault.shift index)
        | .ok length =>
          match argumentSpans (slice text ⟨index + 1, index + length⟩) with
          | .error fault => .error (fault.shift (index + 1))
          | .ok spans =>
            (scanSlots text (index + length + 1)).map (spans.map (Span.shift (index + 1)) ++ ·)
      else if byte = closeByte then
        .error (.unexpectedClose index)
      else
        scanSlots text (index + 1) := by
  obtain ⟨within, rfl⟩ := List.getElem?_eq_some_iff.mp found
  rw [scanSlots, dif_pos within]

/-- The spans of pieces move with the offset of the first one. -/
theorem map_shift_spansFrom (offset position : Nat) (pieces : List Text) :
    (spansFrom position pieces).map (Span.shift offset) = spansFrom (position + offset) pieces := by
  induction pieces generalizing position with
  | nil => rfl
  | cons piece pieces ih =>
    simp only [spansFrom, List.map_cons, ih, Span.shift, Nat.add_right_comm]

/-- The closing bracket of a text that begins with a list stands behind the contents. -/
theorem closingOffset_of_ok {position : Nat} {rest contents after : Text}
    (cut : splitAtClose 1 position rest = .ok (contents, after)) :
    closingOffset ('(' :: rest) = .ok (byteLength contents + 1) := by
  have cut' : splitAtClose 1 1 rest = .ok (contents, after) :=
    (splitAtClose_eq_ok_iff 0 1 _ _ _).mpr ((splitAtClose_eq_ok_iff 0 position _ _ _).mp cut)
  have parenthesis : '('.utf8Size = 1 := by decide
  simp only [closingOffset, splitAtClose, cut', Except.map, keepBefore, byteLength_cons,
    parenthesis, Nat.add_comm]

/-- A list that is not closed has no closing bracket. -/
theorem closingOffset_of_error {position : Nat} {rest : Text} {fault : BracketError}
    (failed : splitAtClose 1 position rest = .error fault) :
    closingOffset ('(' :: rest) = .error .unclosed := by
  cases cut : splitAtClose 1 1 rest with
  | ok parts =>
    obtain ⟨contents, after⟩ := parts
    have cut' := (splitAtClose_eq_ok_iff 0 position _ _ _).mpr
      ((splitAtClose_eq_ok_iff 0 1 _ _ _).mp cut)
    cases failed.symm.trans cut'
  | error other =>
    obtain rfl := eq_unclosed_of_splitAtClose 0 cut
    simp only [closingOffset, splitAtClose, cut, Except.map]

/-- An opening bracket is found by its byte. -/
theorem scanSlots_open (before rest : Text) :
    scanSlots (before ++ '(' :: rest) (byteLength before) =
      match closingOffset ('(' :: rest) with
      | .error fault => .error (fault.shift (byteLength before))
      | .ok length =>
        match argumentSpans (slice (before ++ '(' :: rest)
            ⟨byteLength before + 1, byteLength before + length⟩) with
        | .error fault => .error (fault.shift (byteLength before + 1))
        | .ok spans => (scanSlots (before ++ '(' :: rest) (byteLength before + length + 1)).map
            (spans.map (Span.shift (byteLength before + 1)) ++ ·) := by
  have found : (encoding (before ++ '(' :: rest))[byteLength before]? = some openByte :=
    getElem?_encoding (Char.utf8Size_pos '(')
  rw [scanSlots_of_getElem? found, if_pos rfl, dropBytes_byteLength_append]

/-- A closing bracket is found by its byte. -/
theorem scanSlots_close (before rest : Text) :
    scanSlots (before ++ ')' :: rest) (byteLength before) =
      .error (.unexpectedClose (byteLength before)) := by
  have found : (encoding (before ++ ')' :: rest))[byteLength before]? = some closeByte :=
    getElem?_encoding (Char.utf8Size_pos ')')
  rw [scanSlots_of_getElem? found, if_neg (by decide), if_pos rfl]

/-- The contents of a list stand between its brackets. -/
theorem slice_contents (before contents after : Text) :
    slice (before ++ '(' :: (contents ++ ')' :: after))
      ⟨byteLength before + 1, byteLength before + (byteLength contents + 1)⟩ = contents := by
  have parenthesis : '('.utf8Size = 1 := by decide
  have part := slice_append (before ++ ['(']) contents (')' :: after)
  rw [byteLength_append, byteLength_cons, byteLength_nil, parenthesis, Nat.add_zero,
    List.append_assoc, List.cons_append, List.nil_append] at part
  rwa [← Nat.add_assoc, Nat.add_right_comm]

/-- Behind the contents of a list the scan goes on with its arguments. -/
theorem scanSlots_list {before contents after : Text} (balanced : Balanced contents)
    {pieces : List Text} (found : ∀ position, arguments position contents = .ok pieces) :
    scanSlots (before ++ '(' :: (contents ++ ')' :: after)) (byteLength before) =
      (scanSlots (before ++ '(' :: (contents ++ ')' :: after))
        (byteLength before + byteLength contents + 2)).map
          (spansFrom (byteLength before + 1) pieces ++ ·) := by
  have cut : splitAtClose 1 0 (contents ++ ')' :: after) = .ok (contents, after) :=
    (splitAtClose_eq_ok_iff 0 _ _ _ _).mpr ⟨rfl, (balanced_iff contents).mp balanced⟩
  have inside := slice_contents before contents after
  have spans : argumentSpans contents = .ok (spansFrom 0 pieces) := by
    rw [argumentSpans, found]
    rfl
  rw [scanSlots_open, closingOffset_of_ok cut]
  simp only [inside, spans, map_shift_spansFrom, Nat.zero_add, Nat.add_assoc, Nat.reduceAdd]

/-- The scan of the bytes finds the slots and the faults of the text from any character on. -/
theorem scanSlots_eq_slotSpansFrom (before rest : Text) :
    scanSlots (before ++ rest) (byteLength before) = slotSpansFrom (byteLength before) rest := by
  generalize place : byteLength before = position
  fun_induction slotSpansFrom position rest generalizing before with
  | case1 => rw [List.append_nil, ← place, scanSlots_end]
  | case2 position rest fault cut =>
    obtain rfl := eq_unclosed_of_splitAtClose 0 cut
    rw [← place, scanSlots_open, closingOffset_of_error cut]
    rfl
  | case3 position rest contents after cut ih =>
    obtain ⟨rfl, closed⟩ := (splitAtClose_eq_ok_iff 0 _ _ _ _).mp cut
    have balanced := (balanced_iff contents).mpr closed
    obtain ⟨pieces, _, found⟩ := arguments_of_balanced balanced
    have size : byteLength (before ++ '(' :: (contents ++ [')'])) =
        position + byteLength contents + 2 := by
      rw [byteLength_append, byteLength_enclosed, place, Nat.add_assoc]
    have later := ih (before ++ '(' :: (contents ++ [')'])) size
    simp only [List.append_assoc, List.cons_append, List.nil_append] at later
    have here := @scanSlots_list before contents after balanced pieces found
    rw [place, later] at here
    rw [here, found]
    cases slotSpansFrom (position + byteLength contents + 2) after <;> rfl
  | case4 position rest => rw [← place, scanSlots_close]
  | case5 position c rest opens closes ih =>
    have later := ih (before ++ [c]) (by rw [byteLength_append, place]; rfl)
    rw [List.append_assoc, List.singleton_append] at later
    rw [← later, ← place]
    exact scanSlots_plain opens closes

/-- The scan of all bytes of a text finds its slots and its faults. -/
theorem scanSlots_eq (text : Text) : scanSlots text 0 = slotSpans text :=
  scanSlots_eq_slotSpansFrom [] text

end ParameterList

end Arbor
