import Mathlib.Data.List.Infix
import Arbor.Proofs.CheckedTrees

/-!
# Expressions without signs

The grammar of expressions has ampersands and signs of comparison, but a tree with one of their
operators does not pass the check. So the characters that are taken for a sound tree are no such
signs, apart from those in comments. Every reader takes a front off its text: this is followed
from the blanks and symbols up to whole expressions, together with the condition that the tree
that is read is sound. In an expression without comments there is no sign at all.
-/
namespace Arbor

namespace Text

/-- The signs that divide and compare in guards. -/
def signs : List Char := ['&', '<', '>', '=']

/-- No comment begins in a text. -/
def Uncommented (text : Text) : Prop :=
  ¬['/', '*'] <:+: text ∧ ¬['/', '/'] <:+: text

instance (text : Text) : Decidable (Uncommented text) :=
  inferInstanceAs (Decidable (_ ∧ _))

/-- No comment begins in a part of a text if none begins in the text. -/
theorem Uncommented.of_infix {part text : Text} (uncommented : Uncommented text)
    (inside : part <:+: text) : Uncommented part :=
  ⟨fun begins => uncommented.1 (begins.trans inside),
    fun begins => uncommented.2 (begins.trans inside)⟩

end Text

namespace Reader

open Text

variable {α : Type} {plain condition : Prop} {text middle rest : Text}

/-! ## What is taken -/

/-- A text goes on as another one behind a front in which there are no signs, provided that a
condition holds. -/
def Takes (plain : Prop) (text rest : Text) : Prop :=
  ∃ front, text = front ++ rest ∧ (plain → signs.Disjoint front)

/-- Nothing is taken. -/
theorem Takes.refl (plain : Prop) (text : Text) : Takes plain text text :=
  ⟨[], rfl, fun _ => List.disjoint_nil_right signs⟩

/-- What is taken in two steps is taken. -/
theorem Takes.trans (first : Takes plain text middle) (second : Takes plain middle rest) :
    Takes plain text rest := by
  obtain ⟨front, rfl, free⟩ := first
  obtain ⟨back, rfl, free'⟩ := second
  refine ⟨front ++ back, (List.append_assoc front back rest).symm, fun holds => ?_⟩
  exact List.disjoint_append_right.mpr ⟨free holds, free' holds⟩

/-- A weaker condition is enough. -/
theorem Takes.of_imp (taken : Takes condition text rest) (weaker : plain → condition) :
    Takes plain text rest := by
  obtain ⟨front, split, free⟩ := taken
  exact ⟨front, split, fun holds => free (weaker holds)⟩

/-- Characters with a property that no sign has are taken. -/
theorem takes_append (property : Char → Bool) (other : signs.any property = false)
    {front : Text} (all : front.all property = true) (plain : Prop) (rest : Text) :
    Takes plain (front ++ rest) rest := by
  refine ⟨front, rfl, fun _ sign listed among => ?_⟩
  exact List.any_eq_false.mp other sign listed (List.all_eq_true.mp all sign among)

/-- One character with such a property is taken. -/
theorem takes_cons (property : Char → Bool) (other : signs.any property = false)
    {c : Char} (holds : property c = true) (plain : Prop) (rest : Text) :
    Takes plain (c :: rest) rest :=
  takes_append property other (by simpa using holds : [c].all property = true) plain rest

/-- All characters with such a property in front of others are taken. -/
theorem takes_dropWhile (property : Char → Bool) (other : signs.any property = false)
    (plain : Prop) (text : Text) : Takes plain text (text.dropWhile property) := by
  have all : (text.takeWhile property).all property = true := List.all_takeWhile
  have taken := takes_append property other all plain (text.dropWhile property)
  rwa [List.takeWhile_append_dropWhile] at taken

/-- No comment begins behind what is taken off a text without comments. -/
theorem Takes.uncommented (taken : Takes plain text rest) (uncommented : Uncommented text) :
    Uncommented rest := by
  obtain ⟨front, rfl, _⟩ := taken
  exact uncommented.of_infix (List.suffix_append front rest).isInfix

/-! ## Blanks, symbols and names -/

/-- Without comments blanks are spacing. -/
theorem takes_skipBlanks (uncommented : Uncommented text) (plain : Prop) :
    Takes plain text (skipBlanks text) := by
  fun_induction skipBlanks text with
  | case1 rest => exact absurd (List.prefix_append ['/', '*'] rest).isInfix uncommented.1
  | case2 rest => exact absurd (List.prefix_append ['/', '*'] rest).isInfix uncommented.1
  | case3 c rest => exact absurd (List.prefix_append ['/', '/'] (c :: rest)).isInfix uncommented.2
  | case4 c rest => exact absurd (List.prefix_append ['/', '/'] (c :: rest)).isInfix uncommented.2
  | case5 c rest _ _ spacing ih =>
    have first := takes_cons isSpacing (by decide) spacing plain rest
    exact first.trans (ih (first.uncommented uncommented))
  | case6 => exact .refl plain _
  | case7 => exact .refl plain _

/-- A symbol is taken with the blanks beside it. -/
theorem takes_symbol {symbol : Text} (uncommented : Uncommented text)
    (read : symbol? symbol text = some rest) (free : plain → signs.Disjoint symbol) :
    Takes plain text rest := by
  obtain ⟨after, found, rfl⟩ := Option.map_eq_some_iff.mp read
  have split := List.isPrefixOf?_eq_some_iff_append_eq.mp found
  have first := takes_skipBlanks uncommented plain
  have second : Takes plain (skipBlanks text) after := ⟨symbol, split.symm, free⟩
  have both := first.trans second
  exact both.trans (takes_skipBlanks (both.uncommented uncommented) plain)

/-- A name is taken. -/
theorem takes_name {name : Text} (read : name? text = some (name, rest)) (plain : Prop) :
    Takes plain text rest := by
  cases text with
  | nil => cases read
  | cons first behind =>
    simp only [name?] at read
    split at read
    · next begins =>
      obtain ⟨_, rfl⟩ := Prod.mk.inj (Option.some.inj read)
      have letter : Takes plain (first :: behind) behind :=
        takes_cons isAlphabetic (by decide) (Bool.and_eq_true_iff.mp begins).1 plain behind
      let others := (behind.take (nameLimit - 1)).takeWhile isNameCharacter
      have all : others.all isNameCharacter = true := List.all_takeWhile
      have within : others <+: behind :=
        (List.takeWhile_prefix isNameCharacter).trans (List.take_prefix _ behind)
      have further := takes_append isNameCharacter (by decide) all plain (behind.drop others.length)
      rw [← List.prefix_append_drop within] at further
      exact letter.trans further
    · cases read

/-! ## Numerals -/

/-- The sign of a numeral is taken. -/
theorem takes_splitSign (plain : Prop) (text : Text) :
    Takes plain text (Numeral.splitSign text).2 := by
  unfold Numeral.splitSign
  split
  · next rest => exact takes_cons (· == '-') (by decide) rfl plain rest
  · next rest => exact takes_cons (· == '+') (by decide) rfl plain rest
  · exact .refl plain text

/-- The exponent part of a numeral is taken. -/
theorem takes_scanExponent {digits places : Nat} {numeral : Numeral}
    (read : Numeral.scanExponent digits places text = .found numeral rest) (plain : Prop) :
    Takes plain text rest := by
  unfold Numeral.scanExponent at read
  dsimp only at read
  split at read
  · next letter behind =>
    split at read
    · next isLetter =>
      split at read
      · cases read
      · obtain ⟨_, rfl⟩ := Numeral.Scan.found.inj read
        have first : Takes plain (letter :: behind) behind :=
          takes_cons (fun c => c = 'e' ∨ c = 'E') (by decide) (decide_eq_true isLetter) plain behind
        have second := first.trans (takes_splitSign plain behind)
        exact second.trans (takes_dropWhile Char.isDigit (by decide) plain _)
    · obtain ⟨_, rfl⟩ := Numeral.Scan.found.inj read
      exact .refl plain _
  · obtain ⟨_, rfl⟩ := Numeral.Scan.found.inj read
    exact .refl plain _

/-- A numeral is taken. -/
theorem takes_scan {numeral : Numeral} (read : Numeral.scan text = .found numeral rest)
    (plain : Prop) : Takes plain text rest := by
  have digits := takes_dropWhile Char.isDigit (by decide) plain text
  unfold Numeral.scan at read
  dsimp only at read
  split at read
  · next behind point =>
    rw [point] at digits
    split at read
    · cases read
    · have first := digits.trans (takes_cons (· == '.') (by decide) rfl plain behind)
      have second := first.trans (takes_dropWhile Char.isDigit (by decide) plain behind)
      exact second.trans (takes_scanExponent read plain)
  · split at read
    · cases read
    · exact digits.trans (takes_scanExponent read plain)

/-! ## Operators -/

/-- A reader takes no signs for a sound tree. -/
def TakesTree (reader : Reader Tree) : Prop :=
  ∀ ⦃text tree rest⦄, Uncommented text → reader text = .ok (tree, rest) →
    Takes tree.Sound text rest

/-- Two operands are combined to a sound tree only if they are sound, and no signs are taken for
the operator between them. -/
def TakesOperator (operator? : Text → Option (Combination × Text)) : Prop :=
  ∀ ⦃text combine rest⦄, Uncommented text → operator? text = some (combine, rest) →
    ∀ left right, ((combine left right).Sound → left.Sound ∧ right.Sound) ∧
      Takes (combine left right).Sound text rest

/-- The symbol that comes next is one of those in the list. -/
theorem exists_of_firstSymbol? {symbols : List (Text × α)} {meaning : α}
    (read : firstSymbol? symbols text = some (meaning, rest)) :
    ∃ symbol, (symbol, meaning) ∈ symbols ∧ symbol? symbol text = some rest := by
  obtain ⟨⟨symbol, other⟩, among, found⟩ := List.exists_of_findSome?_eq_some read
  obtain ⟨behind, next, same⟩ := Option.map_eq_some_iff.mp found
  cases same
  exact ⟨symbol, among, next⟩

/-- An operator is one of several symbols, each with or without signs and with its own way to
combine operands. -/
theorem takesOperator_firstSymbol? {symbols : List (Text × Combination)}
    (each : ∀ entry ∈ symbols, ∀ left right, (entry.2 left right).Sound →
      (left.Sound ∧ right.Sound) ∧ signs.Disjoint entry.1) :
    TakesOperator (firstSymbol? symbols) := by
  intro text combine rest uncommented read left right
  obtain ⟨symbol, among, next⟩ := exists_of_firstSymbol? read
  have sound := each (symbol, combine) among left right
  exact ⟨fun holds => (sound holds).1,
    takes_symbol uncommented next fun holds => (sound holds).2⟩

theorem takesOperator_disjunction : TakesOperator (firstSymbol? disjunctionSymbols) :=
  takesOperator_firstSymbol? (by simp [disjunctionSymbols])

theorem takesOperator_conjunction : TakesOperator (firstSymbol? conjunctionSymbols) :=
  takesOperator_firstSymbol? (by simp [conjunctionSymbols])

theorem takesOperator_comparison : TakesOperator (firstSymbol? comparisonSymbols) :=
  takesOperator_firstSymbol? (by simp [comparisonSymbols])

theorem takesOperator_product : TakesOperator (firstSymbol? productSymbols) :=
  takesOperator_firstSymbol? (by simp +contextual [productSymbols, signs])

theorem takesOperator_sum : TakesOperator sumSymbol? := by
  have symbols : TakesOperator (firstSymbol? sumSymbols) :=
    takesOperator_firstSymbol? (by simp +contextual [sumSymbols, signs])
  intro text combine rest uncommented read
  unfold sumSymbol? at read
  split at read
  · cases read
  · exact symbols uncommented read

variable {operator? : Text → Option (Combination × Text)} {operand inner : Reader Tree}

/-- A chain goes on without signs, if it makes a sound tree of the one that is read. -/
theorem takes_chainFrom (operator : TakesOperator operator?) (operands : TakesTree operand)
    {rounds : Nat} {left tree : Tree} (uncommented : Uncommented text)
    (read : chainFrom operator? operand rounds left text = .ok (tree, rest)) :
    (tree.Sound → left.Sound) ∧ Takes tree.Sound text rest := by
  induction rounds generalizing left text with
  | zero =>
    cases read
    exact ⟨id, .refl _ _⟩
  | succ rounds ih =>
    simp only [chainFrom] at read
    split at read
    · cases read
      exact ⟨id, .refl _ _⟩
    · next combine behind found =>
      obtain ⟨⟨right, middle⟩, read_right, further⟩ := bind_eq_ok_iff.mp read
      obtain ⟨parts, symbol⟩ := operator uncommented found left right
      have uncommented_right := symbol.uncommented uncommented
      have second := operands uncommented_right read_right
      obtain ⟨whole, third⟩ := ih (second.uncommented uncommented_right) further
      have first := symbol.of_imp whole
      have both := first.trans (second.of_imp fun sound => (parts (whole sound)).2)
      exact ⟨fun sound => (parts (whole sound)).1, both.trans third⟩

/-- A chain takes no signs for a sound tree. -/
theorem takesTree_chain (operator : TakesOperator operator?) (operands : TakesTree operand)
    (rounds : Nat) : TakesTree (chain rounds operator? operand) := by
  intro text tree rest uncommented read
  obtain ⟨⟨first, middle⟩, read_first, further⟩ := bind_eq_ok_iff.mp read
  have start := operands uncommented read_first
  obtain ⟨whole, others⟩ :=
    takes_chainFrom operator operands (start.uncommented uncommented) further
  exact (start.of_imp whole).trans others

/-- The operator in front of a power has no signs. -/
theorem takesTree_signed (powers : TakesTree operand) : TakesTree (signed operand) := by
  intro text tree rest uncommented read
  unfold signed at read
  split at read
  · exact powers uncommented read
  · next apply behind found =>
    obtain ⟨⟨below, middle⟩, read_below, made⟩ := bind_eq_ok_iff.mp read
    cases made
    obtain ⟨symbol, among, next⟩ := exists_of_firstSymbol? found
    have parts : ∀ entry ∈ signSymbols, (entry.2 below).Sound →
        below.Sound ∧ signs.Disjoint entry.1 := by
      simp [signSymbols, signs]
    have sound := parts (symbol, apply) among
    have first := takes_symbol uncommented next fun holds => (sound holds).2
    have second := powers (first.uncommented uncommented) read_below
    exact first.trans (second.of_imp fun holds => (sound holds).1)

/-- Everything from a sum on is built around powers. -/
theorem takesTree_expression (powers : TakesTree operand) (rounds : Nat) :
    TakesTree (expression rounds operand) := by
  have product := takesTree_chain takesOperator_product (takesTree_signed powers) rounds
  have sum := takesTree_chain takesOperator_sum product rounds
  have comparison := takesTree_chain takesOperator_comparison sum 1
  have conjunction := takesTree_chain takesOperator_conjunction comparison rounds
  exact takesTree_chain takesOperator_disjunction conjunction rounds

/-! ## Atoms and powers -/

/-- A closing bracket is no sign. -/
theorem takes_closing (uncommented : Uncommented text) (read : closing text = .ok rest)
    (plain : Prop) : Takes plain text rest := by
  unfold closing at read
  split at read
  · next found =>
    obtain rfl := Except.ok.inj read
    exact takes_symbol uncommented found fun _ => by simp [signs]
  · cases read

/-- The arguments of a call are taken without signs if all of them are sound. -/
theorem takes_arguments (inners : TakesTree inner) {left : Nat} {trees : List Tree}
    (uncommented : Uncommented text) (read : arguments inner left text = .ok (trees, rest)) :
    Takes (∀ tree ∈ trees, tree.Sound) text rest := by
  induction left generalizing text trees with
  | zero => cases read
  | succ left ih =>
    simp only [arguments] at read
    split at read
    · cases read
      exact .refl _ _
    · next first behind read_first =>
      have start := inners uncommented read_first
      have uncommented_behind := start.uncommented uncommented
      split at read
      · cases read
        exact start.of_imp fun sound => sound first List.mem_cons_self
      · next further comma =>
        obtain ⟨⟨others, last⟩, read_others, made⟩ := bind_eq_ok_iff.mp read
        cases made
        have symbol : Takes first.Sound behind further :=
          takes_symbol uncommented_behind comma fun _ => by simp [signs]
        have both := start.trans symbol
        have rest := ih (both.uncommented uncommented) read_others
        exact (both.of_imp fun sound => sound first List.mem_cons_self).trans
          (rest.of_imp fun sound tree among => sound tree (List.mem_cons_of_mem first among))

/-- What stands behind a name is taken without signs for a sound tree. -/
theorem takesTree_nameOrCall (inners : TakesTree inner) (name : Text) :
    TakesTree (nameOrCall inner name) := by
  intro text tree rest uncommented read
  unfold nameOrCall at read
  split at read
  · cases read
    exact takes_skipBlanks uncommented _
  · next behind opening =>
    obtain ⟨⟨values, middle⟩, read_values, closed⟩ := bind_eq_ok_iff.mp read
    obtain ⟨last, closed, made⟩ := bind_eq_ok_iff.mp closed
    cases made
    have first : Takes (∀ value ∈ values, value.Sound) text behind :=
      takes_symbol uncommented opening fun _ => by simp [signs]
    have second := first.trans (takes_arguments inners (first.uncommented uncommented) read_values)
    have third := second.trans (takes_closing (second.uncommented uncommented) closed _)
    exact third.of_imp fun sound => (Tree.sound_call.mp sound).2

/-- An expression in brackets is taken without signs if it is sound. -/
theorem takesTree_group (inners : TakesTree inner) : TakesTree (group inner) := by
  intro text tree rest uncommented read
  unfold group at read
  split at read
  · next behind =>
    obtain ⟨⟨whole, middle⟩, read_whole, closed⟩ := bind_eq_ok_iff.mp read
    obtain ⟨last, closed, made⟩ := bind_eq_ok_iff.mp closed
    cases made
    have first : Takes tree.Sound ('(' :: behind) behind :=
      takes_cons (· == '(') (by decide) rfl tree.Sound behind
    have second := first.trans (inners (first.uncommented uncommented) read_whole)
    exact second.trans (takes_closing (second.uncommented uncommented) closed _)
  · cases read

/-- An atom takes no signs for a sound tree. -/
theorem takesTree_atom (inners : TakesTree inner) : TakesTree (atom inner) := by
  intro text tree rest uncommented read
  have blanks := takes_skipBlanks uncommented tree.Sound
  have solid := blanks.uncommented uncommented
  unfold atom at read
  dsimp only at read
  split at read
  · cases read
  · next numeral behind scanned =>
    split at read
    · cases read
      have sign := takes_splitSign True (skipBlanks text)
      have digits := sign.trans (takes_scan scanned True)
      have number := digits.trans (takes_skipBlanks (digits.uncommented solid) True)
      exact blanks.trans (number.of_imp fun _ => trivial)
    · cases read
  · split at read
    · next name behind found =>
      have first := blanks.trans (takes_name found tree.Sound)
      exact first.trans (takesTree_nameOrCall inners name (first.uncommented uncommented) read)
    · exact blanks.trans (takesTree_group inners solid read)

/-- A power takes no signs for a sound tree, however many levels may be opened. -/
theorem takesTree_power (rounds room : Nat) : TakesTree (power rounds room) := by
  induction room with
  | zero =>
    intro text tree rest _ read
    cases read
  | succ room ih =>
    intro text tree rest uncommented read
    simp only [power] at read
    obtain ⟨⟨base, behind⟩, read_base, read⟩ := bind_eq_ok_iff.mp read
    have first := takesTree_atom (takesTree_expression ih rounds) uncommented read_base
    split at read
    · cases read
      exact first
    · next further found =>
      obtain ⟨⟨exponent, last⟩, read_exponent, made⟩ := bind_eq_ok_iff.mp read
      cases made
      have symbol : Takes base.Sound behind further :=
        takes_symbol (first.uncommented uncommented) found fun _ => by simp [signs]
      have both := first.trans symbol
      have second := ih (both.uncommented uncommented) read_exponent
      exact (both.of_imp fun sound => (Tree.sound_arithmetic.mp sound).1).trans
        (second.of_imp fun sound => (Tree.sound_arithmetic.mp sound).2)

end Reader

/-- There are no signs in the text of a compiled expression without comments. -/
theorem Expression.disjoint_signs_of_compile {text : Text} {expression : Expression}
    (uncommented : Text.Uncommented text) (compiled : compile text = .ok expression) :
    Text.signs.Disjoint text := by
  obtain ⟨_, _, read, _⟩ := compile_eq_ok_iff.mp compiled
  have powers := Reader.takesTree_power text.length (Reader.nestingLimit + 1)
  obtain ⟨front, split, free⟩ := Reader.takesTree_expression powers text.length uncommented read
  rw [List.append_nil] at split
  rw [split]
  exact free (sound_of_compile compiled)

end Arbor
