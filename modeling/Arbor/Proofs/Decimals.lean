import Mathlib.Data.List.TakeWhile
import Arbor.Text.Blank
import Arbor.Proofs.Numerals

/-!
# Plain decimal numbers

A plain decimal number is a row of digits, with at most one point that stands between
digits, and with a minus in front of it if it is negative. It has no exponent, and it is
none of the words for the values that no numeral has. A finite number is always written
like this, and whatever is written like this can be read again in every format.
-/
namespace Arbor

/-- Digits and nothing else, at least one. -/
def IsDigits (text : Text) : Prop :=
  text ≠ [] ∧ ∀ c ∈ text, c.isDigit = true

/-- A decimal number without a sign. -/
inductive IsUnsignedDecimal : Text → Prop
  | integer {whole : Text} : IsDigits whole → IsUnsignedDecimal whole
  | fraction {whole part : Text} : IsDigits whole → IsDigits part →
    IsUnsignedDecimal (whole ++ '.' :: part)

/-- A decimal number, which may have a minus. -/
inductive IsDecimal : Text → Prop
  | unsigned {text : Text} : IsUnsignedDecimal text → IsDecimal text
  | negative {text : Text} : IsUnsignedDecimal text → IsDecimal ('-' :: text)

/-! ## Characters -/

/-- Digits are characters of numbers. -/
theorem IsDigits.mem_numberCharacters {text : Text} (digits : IsDigits text) {c : Char}
    (among : c ∈ text) : c ∈ numberCharacters :=
  mem_numberCharacters_of_isDigit (digits.2 c among)

/-- A decimal number without a sign is made of characters of numbers. -/
theorem IsUnsignedDecimal.mem_numberCharacters {text : Text} (decimal : IsUnsignedDecimal text)
    {c : Char} (among : c ∈ text) : c ∈ numberCharacters := by
  cases decimal with
  | integer whole => exact whole.mem_numberCharacters among
  | fraction whole part =>
    rcases List.mem_append.mp among with before | behind
    · exact whole.mem_numberCharacters before
    · rcases List.mem_cons.mp behind with rfl | behind
      · decide
      · exact part.mem_numberCharacters behind

/-- A decimal number is made of characters of numbers. -/
theorem IsDecimal.mem_numberCharacters {text : Text} (decimal : IsDecimal text) {c : Char}
    (among : c ∈ text) : c ∈ numberCharacters := by
  cases decimal with
  | unsigned decimal => exact decimal.mem_numberCharacters among
  | negative decimal =>
    rcases List.mem_cons.mp among with rfl | among
    · decide
    · exact decimal.mem_numberCharacters among

/-- There is at least one digit. -/
theorem IsDecimal.ne_nil {text : Text} (decimal : IsDecimal text) : text ≠ [] := by
  rcases decimal with (⟨some, _⟩ | _) | _
  · exact some
  · simp
  · simp

/-! ## Writing -/

/-- An integer is written in digits. -/
theorem isDigits_toDigits (value : Nat) : IsDigits (Nat.toDigits 10 value) :=
  ⟨Nat.toDigits_ne_nil, fun _ => Nat.isDigit_of_mem_toDigits (by decide) (by decide)⟩

/-- A positive integer has a digit other than zero. -/
theorem exists_ne_zero_of_toDigits {value : Nat} (positive : value ≠ 0) :
    ∃ c ∈ Nat.toDigits 10 value, c ≠ '0' := by
  induction value using Nat.strongRecOn with
  | _ value ih =>
    by_cases small : value < 10
    · rw [Nat.toDigits_of_lt_base small]
      refine ⟨value.digitChar, List.mem_singleton_self _, ?_⟩
      interval_cases value
      all_goals first | decide | exact absurd rfl positive
    · rw [Nat.toDigits_of_base_le (by decide) (Nat.le_of_not_lt small)]
      obtain ⟨c, among, other⟩ := ih (value / 10) (by omega) (by omega)
      exact ⟨c, List.mem_append_left _ among, other⟩

namespace Numeral

/-- A fraction that is not zero has digits behind the point, whatever zeros are filled in
and cut off. -/
theorem isDigits_fractionDigits {part : Nat} (positive : part ≠ 0) (places : Nat) :
    IsDigits (fractionDigits part places) := by
  constructor
  · intro none
    obtain ⟨c, among, other⟩ := exists_ne_zero_of_toDigits positive
    unfold fractionDigits at none
    have zeros := List.dropWhile_eq_nil_iff.mp (List.reverse_eq_nil_iff.mp none) c
      (List.mem_reverse.mpr (List.mem_append_right _ among))
    exact other (by simpa using zeros)
  · intro c among
    unfold fractionDigits at among
    have kept := (List.dropWhile_suffix _).subset (List.mem_reverse.mp among)
    rcases List.mem_append.mp (List.mem_reverse.mp kept) with zero | digit
    · rw [List.eq_of_mem_replicate zero]
      decide
    · exact (isDigits_toDigits part).2 c digit

/-- A numeral written out is a decimal number. -/
theorem isUnsignedDecimal_positional (numeral : Numeral) :
    IsUnsignedDecimal numeral.positional := by
  unfold positional
  split
  · next power _ =>
    refine .integer ⟨?_, ?_⟩
    · intro none
      exact (isDigits_toDigits numeral.digits).1 (List.append_eq_nil_iff.mp none).1
    · intro c among
      rcases List.mem_append.mp among with digit | zero
      · exact (isDigits_toDigits numeral.digits).2 c digit
      · rw [List.eq_of_mem_replicate zero]
        decide
  · next places _ =>
    dsimp only
    split
    · exact .integer (isDigits_toDigits _)
    · next positive => exact .fraction (isDigits_toDigits _) (isDigits_fractionDigits positive _)

end Numeral

/-- The pattern of the magnitude of a finite double is below that of infinity. -/
theorem magnitude_lt_infinity {value : Float} (finite : value.isFinite = true) :
    value.toBits.toNat % BinaryFormat.signWeight .double < BinaryFormat.infinity .double := by
  have exponent : value.toBits.toNat / 2 ^ 52 % 2 ^ 11 ≠ 2047 := by
    intro full
    have ones : @Float.Model.UnpackedFloat.unpackExponent .binary64 value.toBits.toBitVec =
        -1#11 := by
      apply BitVec.eq_of_toNat_eq
      rw [Float.Model.UnpackedFloat.unpackExponent, BitVec.toNat_cast, BitVec.extractLsb,
        BitVec.extractLsb'_toNat, Nat.shiftRight_eq_div_pow]
      exact full
    have special : Float.Model.UnpackedFloat.unpack .binary64 value.toBits.toBitVec =
        if @Float.Model.UnpackedFloat.unpackMantissa .binary64 value.toBits.toBitVec = 0#_ then
          .infinity (.ofBitVec (@Float.Model.UnpackedFloat.unpackSign .binary64 _))
        else .notANumber := if_pos ones
    change (Float.Model.UnpackedFloat.unpack .binary64 value.toBits.toBitVec).isFinite = true
      at finite
    rw [special] at finite
    split at finite <;> cases finite
  have weight : BinaryFormat.signWeight .double = 2 ^ 63 := by decide
  have infinity : BinaryFormat.infinity .double = 2047 * 2 ^ 52 := by decide
  rw [weight, infinity]
  omega

/-- A finite number is written as a decimal number. -/
theorem isDecimal_formatNumber {value : Float} (finite : value.isFinite = true) :
    IsDecimal (formatNumber value) := by
  have below := magnitude_lt_infinity finite
  have written : formatMagnitude (value.toBits.toNat % BinaryFormat.signWeight .double) =
      (Numeral.shortest .double
        (value.toBits.toNat % BinaryFormat.signWeight .double)).positional := by
    rw [formatMagnitude, if_pos below]
  have plain := Numeral.isUnsignedDecimal_positional (Numeral.shortest .double
    (value.toBits.toNat % BinaryFormat.signWeight .double))
  rw [← written] at plain
  unfold formatNumber
  dsimp only
  split
  · exact .negative plain
  · exact .unsigned plain

/-! ## Reading -/

/-- Digits in front of a text without any are where the digits end. -/
theorem takeWhile_isDigit_append {digits : Text} (all : ∀ c ∈ digits, c.isDigit = true) (rest : Text)
    (ends : ∀ c, rest.head? = some c → c.isDigit = false) :
    (digits ++ rest).takeWhile Char.isDigit = digits ∧
      (digits ++ rest).dropWhile Char.isDigit = rest := by
  rw [List.takeWhile_append_of_pos all, List.dropWhile_append_of_pos all]
  cases rest with
  | nil => simp
  | cons c rest => simp [ends c rfl]

namespace Numeral

/-- A row of digits is scanned as the integer that it writes. -/
theorem scan_of_isDigits {whole : Text} (digits : IsDigits whole) :
    scan whole = .found ⟨valueOfDigits whole, -((0 : Nat) : Int)⟩ [] := by
  obtain ⟨taken, left⟩ := takeWhile_isDigit_append digits.2 [] (by simp)
  rw [List.append_nil] at taken left
  simp [scan, taken, left, scanExponent, digits.1]

/-- Digits with a point between them are scanned as one integer with its places. -/
theorem scan_of_point {whole part : Text} (digits : IsDigits whole) (behind : IsDigits part) :
    scan (whole ++ '.' :: part) =
      .found ⟨valueOfDigits (whole ++ part), -(part.length : Int)⟩ [] := by
  obtain ⟨taken, left⟩ := takeWhile_isDigit_append digits.2 ('.' :: part) (by simp)
  obtain ⟨taken_behind, left_behind⟩ := takeWhile_isDigit_append behind.2 [] (by simp)
  rw [List.append_nil] at taken_behind left_behind
  simp [scan, taken, left, taken_behind, left_behind, scanExponent, digits.1]

end Numeral

/-- The whole of a decimal number without a sign is scanned. -/
theorem IsUnsignedDecimal.exists_scan {text : Text} (decimal : IsUnsignedDecimal text) :
    ∃ numeral, Numeral.scan text = .found numeral [] := by
  cases decimal with
  | integer whole => exact ⟨_, Numeral.scan_of_isDigits whole⟩
  | fraction whole part => exact ⟨_, Numeral.scan_of_point whole part⟩

/-- A decimal number without a sign begins with a digit. -/
theorem IsUnsignedDecimal.exists_cons {text : Text} (decimal : IsUnsignedDecimal text) :
    ∃ c rest, text = c :: rest ∧ c.isDigit = true := by
  rcases decimal with ⟨some, all⟩ | ⟨⟨some, all⟩, _⟩
  · obtain ⟨c, rest, rfl⟩ := List.exists_cons_of_ne_nil some
    exact ⟨c, rest, rfl, all c List.mem_cons_self⟩
  · obtain ⟨c, rest, rfl⟩ := List.exists_cons_of_ne_nil some
    exact ⟨c, _, rfl, all c List.mem_cons_self⟩

/-- Digits are no signs. -/
theorem IsUnsignedDecimal.splitSign {text : Text} (decimal : IsUnsignedDecimal text) :
    Numeral.splitSign text = (false, text) := by
  obtain ⟨c, rest, rfl, digit⟩ := decimal.exists_cons
  unfold Numeral.splitSign
  split
  · next same =>
    obtain ⟨rfl, _⟩ := List.cons.inj same
    exact absurd digit (by decide)
  · next same =>
    obtain ⟨rfl, _⟩ := List.cons.inj same
    exact absurd digit (by decide)
  · rfl

/-- A decimal number can be read in every format. -/
theorem IsDecimal.isSome_read? {text : Text} (decimal : IsDecimal text) (format : BinaryFormat) :
    (Numeral.read? format text).isSome = true := by
  cases decimal with
  | unsigned decimal =>
    obtain ⟨numeral, scanned⟩ := decimal.exists_scan
    simp [Numeral.read?, decimal.splitSign, Numeral.magnitude?, scanned]
  | negative decimal =>
    obtain ⟨numeral, scanned⟩ := decimal.exists_scan
    simp [Numeral.read?, Numeral.splitSign, Numeral.magnitude?, scanned]

/-- No character of a number is blank. -/
theorem isBlank_of_mem_numberCharacters {c : Char} (number : c ∈ numberCharacters) :
    isBlank c = false := by
  have none : numberCharacters.any isBlank = false := by decide
  simpa using List.any_eq_false.mp none c number

/-- Numbers have no blanks at their ends. -/
theorem Text.trim_of_numberCharacters {text : Text}
    (numbers : ∀ c ∈ text, c ∈ numberCharacters) : trim text = text := by
  have kept {part : Text} (among : ∀ c ∈ part, c ∈ text) : part.dropWhile isBlank = part := by
    cases part with
    | nil => rfl
    | cons c rest =>
      have first := isBlank_of_mem_numberCharacters (numbers c (among c List.mem_cons_self))
      simp [first]
  rw [trim, kept fun c among => among, kept fun c => List.mem_reverse.mp, List.reverse_reverse]

/-- A decimal number is not blank. -/
theorem IsDecimal.isAllBlank {text : Text} (decimal : IsDecimal text) :
    Text.isAllBlank text = false := by
  obtain ⟨c, rest, rfl⟩ := List.exists_cons_of_ne_nil decimal.ne_nil
  have first := isBlank_of_mem_numberCharacters (decimal.mem_numberCharacters List.mem_cons_self)
  simp [Text.isAllBlank, first]

/-- There are no blanks around a decimal number. -/
theorem IsDecimal.trim {text : Text} (decimal : IsDecimal text) : Text.trim text = text :=
  Text.trim_of_numberCharacters fun _ => decimal.mem_numberCharacters

/-- A decimal number is read as a single. -/
theorem IsDecimal.exists_readSingle? {text : Text} (decimal : IsDecimal text) :
    ∃ value, readSingle? text = some value := by
  obtain ⟨bits, read⟩ := Option.isSome_iff_exists.mp (decimal.isSome_read? .single)
  exact ⟨_, by rw [readSingle?, read]; rfl⟩

end Arbor
