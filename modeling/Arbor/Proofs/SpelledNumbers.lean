import Mathlib.Tactic.Ring
import Arbor.Proofs.Decimals
import Arbor.Proofs.Rounding
import Arbor.Proofs.SingleBits

/-!
# The texts that are numbers

Which texts are read as numbers is said here by their spelling. A numeral is a row of digits with at
most one point anywhere in it, and may have an exponent; besides numerals there are three words.
Either may have a sign. All of this is read, but not all of it has a value: the words have none, and
a numeral has one in single precision only if it is below the middle between the largest finite
value and the next power of two.
-/
namespace Arbor

/-! ## Spelling -/

/-- A row of digits with at most one point, the integer that the digits write, and the number of
places behind the point. There is at least one digit. -/
inductive SpellsDigits : Text → Nat → Nat → Prop
  | integer {whole : Text} : IsDigits whole →
    SpellsDigits whole (Numeral.valueOfDigits whole) 0
  | point {whole part : Text} : IsDigits (whole ++ part) →
    SpellsDigits (whole ++ '.' :: part) (Numeral.valueOfDigits (whole ++ part)) part.length

/-- An exponent, which may be missing. -/
inductive SpellsExponent : Text → Int → Prop
  | missing : SpellsExponent [] 0
  | unsigned {letter : Char} {digits : Text} : letter = 'e' ∨ letter = 'E' → IsDigits digits →
    SpellsExponent (letter :: digits) (Numeral.valueOfDigits digits)
  | plus {letter : Char} {digits : Text} : letter = 'e' ∨ letter = 'E' → IsDigits digits →
    SpellsExponent (letter :: '+' :: digits) (Numeral.valueOfDigits digits)
  | minus {letter : Char} {digits : Text} : letter = 'e' ∨ letter = 'E' → IsDigits digits →
    SpellsExponent (letter :: '-' :: digits) (-(Numeral.valueOfDigits digits : Int))

/-- A numeral without a sign, and the number that it writes. -/
inductive SpellsNumeral : Text → Numeral → Prop
  | mk {row tail : Text} {digits places : Nat} {exponent : Int} : SpellsDigits row digits places →
    SpellsExponent tail exponent → SpellsNumeral (row ++ tail) ⟨digits, exponent - places⟩

/-- A word for a value that no numeral has, in letters of either case. -/
def IsNumberWord (text : Text) : Prop :=
  text.map Char.toLower ∈ ["inf".toList, "infinity".toList, "nan".toList]

namespace Numeral

/-- Digits are no signs. -/
theorem splitSign_of_isDigits {digits : Text} (all : IsDigits digits) :
    splitSign digits = (false, digits) :=
  (IsUnsignedDecimal.integer all).splitSign

/-- A text without an end behind its digits is all digits. -/
theorem takeWhile_of_dropWhile_eq_nil {text : Text} (ends : text.dropWhile Char.isDigit = []) :
    text.takeWhile Char.isDigit = text := by
  have whole := List.takeWhile_append_dropWhile (p := Char.isDigit) (l := text)
  rwa [ends, List.append_nil] at whole

/-- An exponent is a letter with digits behind it, which may have a sign. -/
theorem spellsExponent_cons_iff {letter : Char} {rest : Text} {exponent : Int} :
    SpellsExponent (letter :: rest) exponent ↔
      (letter = 'e' ∨ letter = 'E') ∧ IsDigits (splitSign rest).2 ∧
        exponent = if (splitSign rest).1 then -(valueOfDigits (splitSign rest).2 : Int)
          else valueOfDigits (splitSign rest).2 := by
  constructor
  · intro spelled
    cases spelled with
    | unsigned opens all =>
      rw [splitSign_of_isDigits all]
      exact ⟨opens, all, rfl⟩
    | plus opens all => exact ⟨opens, all, rfl⟩
    | minus opens all => exact ⟨opens, all, rfl⟩
  · rintro ⟨opens, all, rfl⟩
    unfold splitSign at all ⊢
    split at all
    · exact .minus opens all
    · exact .plus opens all
    · exact .unsigned opens all

/-- An exponent is scanned to the end of the text if and only if the text is one. -/
theorem scanExponent_eq_found_iff {digits places : Nat} {text : Text} {numeral : Numeral} :
    scanExponent digits places text = .found numeral [] ↔
      ∃ exponent, SpellsExponent text exponent ∧ numeral = ⟨digits, exponent - places⟩ := by
  cases text with
  | nil =>
    constructor
    · intro scanned
      cases scanned
      exact ⟨0, .missing, by simp⟩
    · rintro ⟨exponent, spelled, rfl⟩
      cases spelled
      simp [scanExponent]
  | cons letter rest =>
    simp only [spellsExponent_cons_iff]
    by_cases opens : letter = 'e' ∨ letter = 'E'
    · rw [scanExponent, if_pos opens]
      dsimp only
      generalize splitSign rest = signed
      obtain ⟨negative, behind⟩ := signed
      dsimp only
      constructor
      · intro scanned
        split at scanned
        · cases scanned
        · next some =>
          obtain ⟨rfl, ends⟩ := Scan.found.inj scanned
          rw [takeWhile_of_dropWhile_eq_nil ends] at some ⊢
          have all : IsDigits behind := ⟨by simpa using some, List.dropWhile_eq_nil_iff.mp ends⟩
          exact ⟨_, ⟨opens, all, rfl⟩, rfl⟩
      · rintro ⟨exponent, ⟨_, all, rfl⟩, rfl⟩
        have ends := List.dropWhile_eq_nil_iff.mpr all.2
        rw [takeWhile_of_dropWhile_eq_nil ends, ends, if_neg (by simpa using all.1)]
    · rw [scanExponent, if_neg opens]
      constructor
      · intro scanned
        cases scanned
      · rintro ⟨exponent, ⟨opening, _⟩, _⟩
        exact absurd opening opens

/-- An exponent begins with a letter, which is no digit and no point. -/
theorem ne_of_head?_spellsExponent {text : Text} {exponent : Int}
    (spelled : SpellsExponent text exponent) {c : Char} (first : text.head? = some c) :
    c.isDigit = false ∧ c ≠ '.' := by
  cases text with
  | nil => cases first
  | cons letter rest =>
    obtain rfl : letter = c := Option.some.inj first
    obtain ⟨rfl | rfl, _⟩ := spellsExponent_cons_iff.mp spelled <;> decide

/-- What is scanned to the end of the text is spelled by it. -/
theorem spellsNumeral_of_scan {text : Text} {numeral : Numeral}
    (scanned : scan text = .found numeral []) : SpellsNumeral text numeral := by
  unfold scan at scanned
  dsimp only at scanned
  have whole := List.takeWhile_append_dropWhile (p := Char.isDigit) (l := text)
  have all : ∀ c ∈ text.takeWhile Char.isDigit, c.isDigit = true := fun c => List.mem_takeWhile_imp
  generalize text.takeWhile Char.isDigit = row at scanned whole all
  split at scanned
  · next rest point =>
    rw [point] at whole
    have behind := List.takeWhile_append_dropWhile (p := Char.isDigit) (l := rest)
    have part : ∀ c ∈ rest.takeWhile Char.isDigit, c.isDigit = true :=
      fun c => List.mem_takeWhile_imp
    split at scanned
    · cases scanned
    · next some =>
      obtain ⟨exponent, spelled, rfl⟩ := scanExponent_eq_found_iff.mp scanned
      have digits : IsDigits (row ++ rest.takeWhile Char.isDigit) := by
        refine ⟨by simpa using some, fun c among => ?_⟩
        exact (List.mem_append.mp among).elim (all c) (part c)
      have numeral := SpellsNumeral.mk (.point digits) spelled
      rwa [List.append_assoc, List.cons_append, behind, whole] at numeral
  · next other =>
    split at scanned
    · cases scanned
    · next some =>
      obtain ⟨exponent, spelled, rfl⟩ := scanExponent_eq_found_iff.mp scanned
      rw [← whole]
      exact .mk (.integer ⟨by simpa using some, all⟩) spelled

/-- What a text spells is scanned to its end. The exponent begins with no digit and no point, so the
row of digits in front of it ends there. -/
theorem scan_of_spellsNumeral {text : Text} {numeral : Numeral}
    (spelled : SpellsNumeral text numeral) : scan text = .found numeral [] := by
  obtain @⟨row, tail, digits, places, exponent, row, spelled⟩ := spelled
  have scanned : scanExponent digits places tail = .found ⟨digits, exponent - places⟩ [] :=
    scanExponent_eq_found_iff.mpr ⟨exponent, spelled, rfl⟩
  have ends (c : Char) (first : tail.head? = some c) : c.isDigit = false :=
    (ne_of_head?_spellsExponent spelled first).1
  cases row with
  | integer digits =>
    obtain ⟨taken, left⟩ := takeWhile_isDigit_append digits.2 tail ends
    rw [scan, taken, left]
    split
    · exact absurd rfl (ne_of_head?_spellsExponent spelled rfl).2
    · rw [if_neg (by simpa using digits.1), scanned]
  | @point whole part digits =>
    obtain ⟨here, behind⟩ := List.forall_mem_append.mp digits.2
    obtain ⟨taken, left⟩ := takeWhile_isDigit_append here ('.' :: (part ++ tail)) (by simp)
    obtain ⟨takenBehind, leftBehind⟩ := takeWhile_isDigit_append behind tail ends
    have some : (whole.isEmpty && part.isEmpty) ≠ true := by simpa using digits.1
    rw [scan, List.append_assoc, List.cons_append, taken, left]
    simp only [takenBehind, leftBehind, if_neg some, scanned]

/-- A numeral is scanned to the end of the text if and only if the text spells it. -/
theorem scan_eq_found_iff {text : Text} {numeral : Numeral} :
    scan text = .found numeral [] ↔ SpellsNumeral text numeral :=
  ⟨spellsNumeral_of_scan, scan_of_spellsNumeral⟩

end Numeral

/-! ## Values in single precision -/

/-- The value of a numeral is below a bound. -/
def Numeral.IsBelow (numeral : Numeral) (bound : Nat) : Prop :=
  numeral.digits * 10 ^ numeral.exponent.toNat < bound * 10 ^ (-numeral.exponent).toNat

instance (numeral : Numeral) (bound : Nat) : Decidable (numeral.IsBelow bound) :=
  inferInstanceAs (Decidable (_ < _))

/-- The middle between the largest finite value in single precision and the next power of two. -/
def singleBound : Nat :=
  (2 ^ 25 - 1) * 2 ^ 103

/-- A ratio is finite in single precision if and only if it is below this middle. -/
theorem BinaryFormat.nearest_single_lt_infinity_iff {numerator denominator : Nat}
    (positive : 0 < denominator) :
    BinaryFormat.nearest .single numerator denominator < BinaryFormat.infinity .single ↔
      numerator < singleBound * denominator := by
  have largest : BinaryFormat.infinity .single = (253 + 2) * BinaryFormat.binade .single := by
    decide
  have precise : 1 < BinaryFormat.precision .single := by decide
  have scaled : 2 * (numerator * 2 ^ BinaryFormat.leastPlace .single) = numerator * 2 ^ 150 := by
    rw [Nat.mul_left_comm, ← Nat.pow_succ']
    rfl
  have middle : (4 * BinaryFormat.binade .single - 1) * (denominator * 2 ^ 253) =
      singleBound * denominator * 2 ^ 150 := by
    have binade : 4 * BinaryFormat.binade .single - 1 = 2 ^ 25 - 1 := by decide
    rw [binade, singleBound, show (253 : Nat) = 103 + 150 from rfl, Nat.pow_add]
    ring
  rw [nearest_lt_infinity_iff precise largest positive, scaled, middle]
  exact Nat.mul_lt_mul_right (Nat.two_pow_pos 150)

namespace Numeral

/-- A numeral is finite in single precision if and only if its value is below this middle. -/
theorem pattern_lt_infinity_iff (numeral : Numeral) :
    numeral.pattern .single < BinaryFormat.infinity .single ↔ numeral.IsBelow singleBound := by
  obtain ⟨digits, exponent⟩ := numeral
  cases exponent with
  | ofNat power =>
    have below : IsBelow ⟨digits, .ofNat power⟩ singleBound ↔ digits * 10 ^ power < singleBound := by
      have whole : (-(Int.ofNat power)).toNat = 0 := by simp
      rw [IsBelow, whole, Nat.pow_zero, Nat.mul_one]
      rfl
    rw [below, pattern]
    split
    · next zero =>
      simp only at zero
      rw [zero, Nat.zero_mul]
      exact iff_of_true (by decide) (by decide)
    · next some =>
      have least : 10 ^ power ≤ digits * 10 ^ power :=
        Nat.le_mul_of_pos_left _ (Nat.pos_of_ne_zero some)
      dsimp only
      split
      · next large =>
        refine iff_of_false (Nat.lt_irrefl _) (Nat.not_lt.mpr ?_)
        calc singleBound ≤ 10 ^ 149 := by decide
          _ ≤ 10 ^ power := Nat.pow_le_pow_right (by decide) large
          _ ≤ digits * 10 ^ power := least
      · rw [Nat.pow_eq, BinaryFormat.nearest_single_lt_infinity_iff (by decide), Nat.mul_one]
  | negSucc places =>
    rw [show (⟨digits, .negSucc places⟩ : Numeral) = ⟨digits, -((places + 1 : Nat) : Int)⟩ from rfl,
      pattern_of_places (by decide) (by decide),
      BinaryFormat.nearest_single_lt_infinity_iff (Nat.pow_pos (by decide))]
    have none : (-((places + 1 : Nat) : Int)).toNat = 0 := rfl
    have fraction : (-(-((places + 1 : Nat) : Int))).toNat = places + 1 := rfl
    rw [IsBelow, none, fraction, Nat.pow_zero, Nat.mul_one]

-- The largest finite value is about 3.40282347e38, and the middle about 3.40282357e38.
example : IsBelow ⟨340282356, 30⟩ singleBound ∧ ¬IsBelow ⟨340282357, 30⟩ singleBound := by decide

end Numeral

/-! ## Reading -/

/-- A text spells a numeral or is one of the words, its sign left aside. -/
def IsNumber (text : Text) : Prop :=
  (∃ numeral, SpellsNumeral (Numeral.splitSign text).2 numeral) ∨
    IsNumberWord (Numeral.splitSign text).2

/-- A text spells a numeral that is finite in single precision, its sign left aside. -/
def IsFiniteNumber (text : Text) : Prop :=
  ∃ numeral, SpellsNumeral (Numeral.splitSign text).2 numeral ∧ numeral.IsBelow singleBound

namespace Numeral

variable {format : BinaryFormat} {text : Text}

/-- A numeral has its pattern for a magnitude. -/
theorem magnitude?_of_spells {numeral : Numeral} (spelled : SpellsNumeral text numeral) :
    magnitude? format text = some (numeral.pattern format) := by
  rw [magnitude?, scan_eq_found_iff.mpr spelled]

/-- What is no numeral has the magnitude of a word, if it is one. -/
theorem magnitude?_of_not_spells (none : ∀ numeral, ¬SpellsNumeral text numeral) :
    magnitude? format text = wordPattern? format text := by
  rw [magnitude?]
  split
  · next numeral scanned => exact absurd (scan_eq_found_iff.mp scanned) (none numeral)
  · rfl

/-- The words are infinity and what is not a number. -/
theorem wordPattern?_cases (format : BinaryFormat) (text : Text) :
    IsNumberWord text ∧ (wordPattern? format text = some format.infinity ∨
        wordPattern? format text = some format.notANumber) ∨
      ¬IsNumberWord text ∧ wordPattern? format text = none := by
  unfold IsNumberWord wordPattern?
  generalize text.map Char.toLower = word
  have words : word ∈ ["inf".toList, "infinity".toList, "nan".toList] ↔
      (word = "inf".toList ∨ word = "infinity".toList) ∨ word = "nan".toList := by
    simp only [List.mem_cons, List.not_mem_nil, or_false, or_assoc]
  rw [words]
  by_cases infinite : word = "inf".toList ∨ word = "infinity".toList
  · exact .inl ⟨.inl infinite, .inl (if_pos infinite)⟩
  · by_cases quiet : word = "nan".toList
    · exact .inl ⟨.inr quiet, .inr ((if_neg infinite).trans (if_pos quiet))⟩
    · exact .inr ⟨not_or.mpr ⟨infinite, quiet⟩, (if_neg infinite).trans (if_neg quiet)⟩

/-- A text has a magnitude if and only if it spells a numeral or is one of the words. -/
theorem isSome_magnitude?_iff : (magnitude? format text).isSome = true ↔
    (∃ numeral, SpellsNumeral text numeral) ∨ IsNumberWord text := by
  by_cases spelled : ∃ numeral, SpellsNumeral text numeral
  · obtain ⟨numeral, spelled⟩ := spelled
    rw [magnitude?_of_spells spelled]
    exact iff_of_true rfl (.inl ⟨numeral, spelled⟩)
  · rw [magnitude?_of_not_spells fun numeral here => spelled ⟨numeral, here⟩]
    rcases wordPattern?_cases format text with ⟨word, found | found⟩ | ⟨other, found⟩
    · exact iff_of_true (by rw [found]; rfl) (.inr word)
    · exact iff_of_true (by rw [found]; rfl) (.inr word)
    · refine iff_of_false (by rw [found]; nofun) ?_
      rintro (here | word)
      · exact spelled here
      · exact other word

/-- No numeral has a pattern beyond infinity. -/
theorem pattern_le_infinity (numeral : Numeral) (format : BinaryFormat) :
    numeral.pattern format ≤ format.infinity := by
  have nearest (numerator denominator : Nat) :
      format.nearest numerator denominator ≤ format.infinity := Nat.min_le_left _ _
  unfold pattern
  split
  · exact Nat.zero_le _
  · split
    · split
      · exact Nat.le_refl _
      · exact nearest _ _
    · split
      · exact Nat.zero_le _
      · exact nearest _ _

/-- A magnitude is finite in single precision if and only if its text spells a numeral that is, and
no magnitude is beyond what is not a number. -/
theorem magnitude?_single {magnitude : Nat} (read : magnitude? .single text = some magnitude) :
    (magnitude < BinaryFormat.infinity .single ↔
      ∃ numeral, SpellsNumeral text numeral ∧ numeral.IsBelow singleBound) ∧
      magnitude ≤ BinaryFormat.notANumber .single := by
  have beyond : BinaryFormat.infinity .single ≤ BinaryFormat.notANumber .single := by decide
  by_cases spelled : ∃ numeral, SpellsNumeral text numeral
  · obtain ⟨numeral, spelled⟩ := spelled
    rw [magnitude?_of_spells spelled] at read
    obtain rfl := Option.some.inj read
    refine ⟨?_, Nat.le_trans (numeral.pattern_le_infinity .single) beyond⟩
    rw [pattern_lt_infinity_iff]
    constructor
    · exact fun below => ⟨numeral, spelled, below⟩
    · rintro ⟨other, also, below⟩
      have same := scan_eq_found_iff.mpr also
      rw [scan_eq_found_iff.mpr spelled] at same
      obtain ⟨rfl, _⟩ := Scan.found.inj same
      exact below
  · have unspelled (numeral : Numeral) : ¬SpellsNumeral text numeral := fun here =>
      spelled ⟨numeral, here⟩
    rw [magnitude?_of_not_spells unspelled] at read
    have word : BinaryFormat.infinity .single ≤ magnitude ∧
        magnitude ≤ BinaryFormat.notANumber .single := by
      rcases wordPattern?_cases .single text with ⟨_, found | found⟩ | ⟨_, found⟩
      · obtain rfl := Option.some.inj (found.symm.trans read)
        exact ⟨Nat.le_refl _, beyond⟩
      · obtain rfl := Option.some.inj (found.symm.trans read)
        exact ⟨beyond, Nat.le_refl _⟩
      · cases found.symm.trans read
    refine ⟨iff_of_false (Nat.not_lt.mpr word.1) ?_, word.2⟩
    rintro ⟨numeral, here, _⟩
    exact unspelled numeral here

end Numeral

/-- A text is read as a single if and only if it is a number. -/
theorem isSome_readSingle?_iff {text : Text} :
    (readSingle? text).isSome = true ↔ IsNumber text := by
  rw [readSingle?, Numeral.read?, Option.isSome_map, Option.isSome_map]
  exact Numeral.isSome_magnitude?_iff

/-- What is read is finite if and only if the text is a finite number. -/
theorem isFinite_iff_of_readSingle? {text : Text} {value : Float32}
    (read : readSingle? text = some value) : value.isFinite = true ↔ IsFiniteNumber text := by
  obtain ⟨bits, found, rfl⟩ := Option.map_eq_some_iff.mp read
  rw [Numeral.read?] at found
  rw [IsFiniteNumber, isFinite_ofBits_iff]
  generalize Numeral.splitSign text = signed at found ⊢
  obtain ⟨negative, unsigned⟩ := signed
  obtain ⟨magnitude, there, rfl⟩ := Option.map_eq_some_iff.mp found
  obtain ⟨finite, least⟩ := Numeral.magnitude?_single there
  rw [← finite]
  have weight : BinaryFormat.signWeight .single = 2 ^ 31 := by decide
  have infinity : BinaryFormat.infinity .single = 255 * 2 ^ 23 := by decide
  have quiet : BinaryFormat.notANumber .single = 255 * 2 ^ 23 + 2 ^ 22 := by decide
  rw [weight, infinity]
  rw [quiet] at least
  split
  · rw [UInt32.toNat_ofNat_of_lt' (by simp only [UInt32.size]; omega)]
    omega
  · rw [UInt32.toNat_ofNat_of_lt' (by simp only [UInt32.size]; omega)]
    omega

end Arbor
