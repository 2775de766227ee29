import Mathlib.Data.List.DropRight
import Arbor.Expression.Basic
import Arbor.Proofs.DoubleBits
import Arbor.Proofs.Rounding

/-!
# Numbers that are read again

The text of a finite number is an expression with this number as its value. The digits that are
written are those of the shortest numeral, filled up with zeros in front of the point or cut of
their zeros behind it, and this changes neither the ratio nor the nearest double. A minus is
read as a negation of the magnitude, which sets the bit of the sign again, also that of a zero.

So a number that was written into a sequence is found there by the next pass as it is, whatever
names the scope of this pass knows, and without a draw.
-/
namespace Arbor

namespace Numeral

/-! ## Digits -/

/-- Digits in front of others count as many times ten as there are others. -/
theorem valueOfDigits_append (left right : Text) :
    valueOfDigits (left ++ right) = valueOfDigits left * 10 ^ right.length + valueOfDigits right := by
  simp only [valueOfDigits, ← Nat.ofDigitChars_eq_foldl]
  rw [Nat.ofDigitChars_append, Nat.ofDigitChars_eq_ofDigitChars_zero, Nat.mul_comm]

/-- The digits of an integer write this integer. -/
@[simp] theorem valueOfDigits_toDigits (value : Nat) :
    valueOfDigits (Nat.toDigits 10 value) = value := by
  rw [valueOfDigits, ← Nat.ofDigitChars_eq_foldl]
  exact Nat.ofDigitChars_ten_toDigits

/-- Zeros alone write zero. -/
@[simp] theorem valueOfDigits_replicate_zero (count : Nat) :
    valueOfDigits (List.replicate count '0') = 0 := by
  rw [valueOfDigits, ← Nat.ofDigitChars_eq_foldl]
  exact Nat.ofDigitChars_replicate_zero

/-- The digits of a fraction are those of its part, but for zeros at the end. -/
theorem exists_zeros_of_fractionDigits {part places : Nat} (fits : part < 10 ^ (places + 1)) :
    ∃ zeros, places + 1 = (fractionDigits part (places + 1)).length + zeros ∧
      part = valueOfDigits (fractionDigits part (places + 1)) * 10 ^ zeros := by
  let digits := Nat.toDigits 10 part
  let filled := List.replicate (places + 1 - digits.length) '0' ++ digits
  have short : digits.length ≤ places + 1 :=
    (Nat.length_toDigits_le_iff (by decide) (Nat.succ_pos places)).mpr fits
  have length : filled.length = places + 1 := by
    rw [List.length_append, List.length_replicate]
    exact Nat.sub_add_cancel short
  have value : valueOfDigits filled = part := by
    simp [filled, digits, valueOfDigits_append]
  let count := (filled.rtakeWhile (· == '0')).length
  have zeros : filled.rtakeWhile (· == '0') = List.replicate count '0' := by
    apply List.eq_replicate_of_mem
    intro c among
    simpa using List.mem_rtakeWhile_imp among
  have cut : filled = fractionDigits part (places + 1) ++ List.replicate count '0' := by
    rw [← zeros]
    exact List.rdropWhile_append_rtakeWhile.symm
  refine ⟨count, ?_, ?_⟩
  · have measured := congrArg List.length cut
    rwa [length, List.length_append, List.length_replicate] at measured
  · calc part
      _ = valueOfDigits filled := value.symm
      _ = valueOfDigits (fractionDigits part (places + 1) ++ List.replicate count '0') :=
          congrArg valueOfDigits cut
      _ = _ := by simp [valueOfDigits_append]

/-! ## Scanning -/

/-- An integer that is written out with its zeros scans as a numeral with the same finite value. -/
theorem exists_scan_integer {format : BinaryFormat} (precise : 0 < format.precision)
    (fine : 0 < format.leastPlace) {digits power : Nat}
    (finite : pattern format ⟨digits, .ofNat power⟩ < format.infinity) :
    ∃ scanned, scan (positional ⟨digits, .ofNat power⟩) = .found scanned [] ∧
      scanned.pattern format = pattern format ⟨digits, .ofNat power⟩ := by
  have all : IsDigits (positional ⟨digits, .ofNat power⟩) := by
    constructor
    · simp [positional]
    · intro c among
      rcases List.mem_append.mp among with digit | zero
      · exact (isDigits_toDigits digits).2 c digit
      · rw [List.eq_of_mem_replicate zero]
        decide
  have value : valueOfDigits (positional ⟨digits, .ofNat power⟩) = digits * 10 ^ power := by
    simp [positional, valueOfDigits_append]
  refine ⟨_, scan_of_isDigits all, ?_⟩
  rw [pattern_of_places precise fine, value]
  by_cases zero : digits = 0
  · rw [zero, Nat.zero_mul, BinaryFormat.nearest_eq_zero precise (by simp)]
    simp [pattern]
  · have within : ¬format.leastPlace ≤ power := by
      intro wide
      simp [pattern, zero, wide] at finite
    simp [pattern, zero, within]

/-- A fraction that is written out scans as a numeral with the same value, in which the zeros at
the end are missing. -/
theorem exists_scan_fraction {format : BinaryFormat} (precise : 0 < format.precision)
    (fine : 0 < format.leastPlace) (digits places : Nat) :
    ∃ scanned, scan (positional ⟨digits, .negSucc places⟩) = .found scanned [] ∧
      scanned.pattern format = pattern format ⟨digits, .negSucc places⟩ := by
  have exponent : Int.negSucc places = -((places + 1 : Nat) : Int) := rfl
  have split : digits / 10 ^ (places + 1) * 10 ^ (places + 1) + digits % 10 ^ (places + 1) =
      digits := Nat.div_add_mod' digits (10 ^ (places + 1))
  by_cases integral : digits % 10 ^ (places + 1) = 0
  · have written : positional ⟨digits, .negSucc places⟩ =
        Nat.toDigits 10 (digits / 10 ^ (places + 1)) := by
      simp [positional, integral]
    rw [written]
    refine ⟨_, scan_of_isDigits (isDigits_toDigits _), ?_⟩
    rw [valueOfDigits_toDigits, exponent, ← pattern_mul_ten_pow precise fine _ 0 (places + 1)]
    rw [integral, Nat.add_zero] at split
    rw [split, Nat.zero_add]
  · have written : positional ⟨digits, .negSucc places⟩ =
        Nat.toDigits 10 (digits / 10 ^ (places + 1)) ++
          '.' :: fractionDigits (digits % 10 ^ (places + 1)) (places + 1) := by
      simp [positional, integral]
    obtain ⟨zeros, length, part⟩ := exists_zeros_of_fractionDigits
      (Nat.mod_lt digits (Nat.pow_pos (by decide : 0 < 10)) :
        digits % 10 ^ (places + 1) < 10 ^ (places + 1))
    rw [written]
    refine ⟨_, scan_of_point (isDigits_toDigits _) (isDigits_fractionDigits integral _), ?_⟩
    have value : valueOfDigits (Nat.toDigits 10 (digits / 10 ^ (places + 1)) ++
        fractionDigits (digits % 10 ^ (places + 1)) (places + 1)) * 10 ^ zeros = digits := by
      rw [valueOfDigits_append, valueOfDigits_toDigits, Nat.add_mul, ← part, Nat.mul_assoc,
        ← Nat.pow_add, ← length, split]
    rw [← pattern_mul_ten_pow precise fine _ _ zeros, ← length, exponent, value]

/-- A numeral that is written out scans as a numeral with the same finite value, whose last digit
may have another place. -/
theorem exists_scan_positional {format : BinaryFormat} (precise : 0 < format.precision)
    (fine : 0 < format.leastPlace) {numeral : Numeral}
    (finite : numeral.pattern format < format.infinity) :
    ∃ scanned, scan numeral.positional = .found scanned [] ∧
      scanned.pattern format = numeral.pattern format := by
  obtain ⟨digits, exponent⟩ := numeral
  cases exponent with
  | ofNat power => exact exists_scan_integer precise fine finite
  | negSucc places => exact exists_scan_fraction precise fine digits places

end Numeral

/-! ## Reading -/

namespace Reader

/-- In front of a character that is no spacing and begins no comment nothing is skipped. -/
theorem skipBlanks_cons {c : Char} (solid : isSpacing c = false) (other : c ≠ '/') (rest : Text) :
    skipBlanks (c :: rest) = c :: rest := by
  rw [skipBlanks]
  · simp [solid]
  · intro _ same
    exact absurd same other
  · intro _ _ same
    exact absurd same other

/-- There are no blanks in an empty text. -/
@[simp] theorem skipBlanks_nil : skipBlanks [] = [] := by
  rw [skipBlanks]

/-- No symbol stands at the end of a text. -/
theorem firstSymbol?_nil {α : Type} {symbols : List (Text × α)}
    (written : ∀ entry ∈ symbols, entry.1 ≠ []) : firstSymbol? symbols [] = none := by
  rw [firstSymbol?, List.findSome?_eq_none_iff]
  intro entry among
  cases symbol : entry.1 with
  | nil => exact absurd symbol (written entry among)
  | cons c rest => simp [symbol?, List.isPrefixOf?]

/-- A chain ends with the text. -/
theorem chain_of_end {operator? : Text → Option (Combination × Text)} {operand : Reader Tree}
    {text : Text} {tree : Tree} (last : operator? [] = none) (rounds : Nat)
    (read : operand text = .ok (tree, [])) :
    chain rounds operator? operand text = .ok (tree, []) := by
  have done : chainFrom operator? operand rounds tree [] = .ok (tree, []) := by
    cases rounds with
    | zero => rfl
    | succ rounds => simp only [chainFrom, last]
  simp only [chain, read]
  exact done

/-- A text that is one signed power is an expression. -/
theorem expression_of_signed {power : Reader Tree} {text : Text} {tree : Tree}
    (read : signed power text = .ok (tree, [])) (rounds : Nat) :
    expression rounds power text = .ok (tree, []) := by
  have sum_end : sumSymbol? [] = none := by
    simp [sumSymbol?, firstSymbol?_nil, sumSymbols]
  apply chain_of_end (firstSymbol?_nil (by decide))
  apply chain_of_end (firstSymbol?_nil (by decide))
  apply chain_of_end (firstSymbol?_nil (by decide))
  apply chain_of_end sum_end
  apply chain_of_end (firstSymbol?_nil (by decide))
  exact read

/-- A digit begins a text without blanks in front. -/
theorem skipBlanks_of_isUnsignedDecimal {text : Text} (decimal : IsUnsignedDecimal text) :
    skipBlanks text = text := by
  obtain ⟨c, rest, rfl, digit⟩ := decimal.exists_cons
  apply skipBlanks_cons
  · by_contra blank
    simp only [isSpacing, isLineEnd, Bool.not_eq_false, Bool.or_eq_true, beq_iff_eq] at blank
    rcases blank with (rfl | rfl) | rfl | rfl <;> exact absurd digit (by decide)
  · rintro rfl
    exact absurd digit (by decide)

/-- A finite numeral that takes up the whole text is an atom. -/
theorem atom_of_scan {text : Text} {numeral : Numeral} {value : Float}
    (decimal : IsUnsignedDecimal text) (scanned : Numeral.scan text = .found numeral [])
    (finite : numeral.finiteDouble? = some value) (inner : Reader Tree) :
    atom inner text = .ok (.number value, []) := by
  simp [atom, skipBlanks_of_isUnsignedDecimal decimal, decimal.splitSign, scanned, finite]

/-- A finite numeral that takes up the whole text is a power. -/
theorem power_of_scan {text : Text} {numeral : Numeral} {value : Float}
    (decimal : IsUnsignedDecimal text) (scanned : Numeral.scan text = .found numeral [])
    (finite : numeral.finiteDouble? = some value) (rounds room : Nat) :
    power rounds (room + 1) text = .ok (.number value, []) := by
  have last : symbol? ['^'] [] = none := by simp [symbol?, List.isPrefixOf?]
  simp only [power, atom_of_scan decimal scanned finite, bind, Except.bind, last]
  rfl

/-- No sign stands in front of a digit. -/
theorem signed_of_isUnsignedDecimal {text : Text} (decimal : IsUnsignedDecimal text)
    (power : Reader Tree) : signed power text = power text := by
  have unsigned := skipBlanks_of_isUnsignedDecimal decimal
  obtain ⟨c, rest, rfl, digit⟩ := decimal.exists_cons
  have other : c ≠ '!' ∧ c ≠ '-' := by
    constructor <;> rintro rfl <;> exact absurd digit (by decide)
  have none : firstSymbol? signSymbols (c :: rest) = none := by
    simp [firstSymbol?, signSymbols, symbol?, unsigned, List.isPrefixOf?, other.1.symm,
      other.2.symm]
  simp only [signed, none]

/-- A minus in front of a digit is a sign. -/
theorem signed_of_minus {text : Text} (decimal : IsUnsignedDecimal text) (power : Reader Tree) :
    signed power ('-' :: text) = (do
      let (operand, rest) ← power text
      pure (.negation operand, rest)) := by
  have sign : firstSymbol? signSymbols ('-' :: text) = some (.negation, text) := by
    simp [firstSymbol?, signSymbols, symbol?, skipBlanks_cons, isSpacing, isLineEnd,
      List.isPrefixOf?, skipBlanks_of_isUnsignedDecimal decimal]
  simp only [signed, sign]

end Reader

/-! ## Numbers -/

/-- The tree of the text of a number: the number without its sign, and a negation of it in the
place of a minus. -/
def Tree.ofNumber (value : Float) : Tree :=
  let weight := BinaryFormat.signWeight .double
  let magnitude : Tree := .number (Float.ofBits (value.toBits.toNat % weight).toUInt64)
  if weight ≤ value.toBits.toNat then .negation magnitude else magnitude

/-- The magnitude of a finite number is written as a decimal number that reads back as it. -/
theorem exists_scan_formatMagnitude {pattern : Nat}
    (finite : pattern < BinaryFormat.infinity .double) :
    IsUnsignedDecimal (formatMagnitude pattern) ∧
      ∃ numeral, Numeral.scan (formatMagnitude pattern) = .found numeral [] ∧
        numeral.finiteDouble? = some (Float.ofBits pattern.toUInt64) := by
  have precise : 0 < BinaryFormat.precision .double := by decide
  have fine : 0 < BinaryFormat.leastPlace .double := by decide
  have value := Numeral.pattern_shortest precise fine finite
  have written : formatMagnitude pattern = (Numeral.shortest .double pattern).positional := by
    rw [formatMagnitude, if_pos finite]
  obtain ⟨numeral, scanned, same⟩ :=
    Numeral.exists_scan_positional precise fine (by rwa [value])
  rw [written]
  refine ⟨Numeral.isUnsignedDecimal_positional _, numeral, scanned, ?_⟩
  rw [Numeral.finiteDouble?, same, value]
  exact if_pos finite

/-- The text of a finite number is read as a number or as a negation of one. -/
theorem read_formatNumber {value : Float} (finite : value.isFinite = true) :
    Tree.read (formatNumber value) = .ok (Tree.ofNumber value, []) := by
  have below := magnitude_lt_infinity finite
  obtain ⟨decimal, numeral, scanned, same⟩ := exists_scan_formatMagnitude below
  unfold formatNumber Tree.ofNumber
  by_cases negative : BinaryFormat.signWeight .double ≤ value.toBits.toNat
  · have sign := And.intro negative (Nat.le_of_lt below)
    simp only [if_pos sign, if_pos negative]
    apply Reader.expression_of_signed
    rw [Reader.signed_of_minus decimal, Reader.power_of_scan decimal scanned same]
    rfl
  · have sign : ¬(BinaryFormat.signWeight .double ≤ value.toBits.toNat ∧
        value.toBits.toNat % BinaryFormat.signWeight .double ≤ BinaryFormat.infinity .double) :=
      fun both => negative both.1
    simp only [if_neg sign, if_neg negative]
    apply Reader.expression_of_signed
    rw [Reader.signed_of_isUnsignedDecimal decimal]
    exact Reader.power_of_scan decimal scanned same _ _

/-- The tree of a finite number has this number as its value in every scope. -/
theorem evaluate_ofNumber {value : Float} (finite : value.isFinite = true) (scope : Scope) :
    (Tree.ofNumber value).evaluate scope = pure value := by
  have below := magnitude_lt_infinity finite
  have infinity : BinaryFormat.infinity .double = 2047 * 2 ^ 52 := by decide
  have weight : BinaryFormat.signWeight .double = 2 ^ 63 := by decide
  have bound := value.toBits.toNat_lt
  have kept : (value.toBits.toNat % BinaryFormat.signWeight .double).toUInt64.toNat =
      value.toBits.toNat % BinaryFormat.signWeight .double := by
    rw [Nat.toUInt64_eq, UInt64.toNat_ofNat']
    omega
  rw [← kept] at below
  unfold Tree.ofNumber
  by_cases negative : BinaryFormat.signWeight .double ≤ value.toBits.toNat
  · have same : -Float.ofBits (value.toBits.toNat % BinaryFormat.signWeight .double).toUInt64 =
        value := by
      apply eq_of_toBits_eq
      apply UInt64.toNat_inj.mp
      rw [weight] at negative
      rw [toNat_toBits_neg below, kept, weight]
      omega
    simp [negative, Tree.evaluate, same]
  · have same : Float.ofBits (value.toBits.toNat % BinaryFormat.signWeight .double).toUInt64 =
        value := by
      apply eq_of_toBits_eq
      apply UInt64.toNat_inj.mp
      rw [toBits_ofBits below, kept]
      exact Nat.mod_eq_of_lt (Nat.lt_of_not_le negative)
    simp [negative, Tree.evaluate, same]

namespace Expression

/-- The text of a finite number compiles. -/
theorem compile_formatNumber {value : Float} (finite : value.isFinite = true) :
    compile (formatNumber value) = .ok ⟨formatNumber value, .ofNumber value⟩ := by
  have solid : Text.isAllBlank (formatNumber value) = false :=
    (isDecimal_formatNumber finite).isAllBlank
  have arithmetic : (Tree.ofNumber value).check = .ok () := by
    unfold Tree.ofNumber
    dsimp only
    split <;> simp [Tree.check, Tree.checkAll, Tree.checkNode, Tree.pending, Tree.children,
      Tree.depthLimit]
  simp only [compile, solid, read_formatNumber finite, arithmetic, Except.map]
  rfl

/-- The text of a finite number has this number as its value, in every scope and without a draw. -/
theorem evaluateText_formatNumber {value : Float} (finite : value.isFinite = true)
    (scope : Scope) : evaluateText (formatNumber value) scope = pure value := by
  simp [evaluateText, compile_formatNumber finite, evaluate, evaluate_ofNumber finite, finite]

end Expression

end Arbor
