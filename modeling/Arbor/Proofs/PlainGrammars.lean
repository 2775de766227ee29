import Mathlib.Logic.Function.Iterate
import Arbor.Proofs.Persistence
import Arbor.Proofs.Shapes

/-!
# Grammars without parameters

If no body and no sequence opens a list, then every symbol stands alone, and a grammar with one
rule at most for each symbol is a substitution of words: each symbol is replaced by a word that
depends on the symbol only. A pass goes through the sequence from left to right and writes what
it makes of each symbol behind the rest, and as it never reads what it wrote, this is the same
as replacing all symbols at once. Guards and the names of parameters in keys play no part, and
no number is drawn.
-/
namespace Arbor

namespace Grammar

variable {grammar : Grammar}

/-! ## Substitutions -/

/-- A grammar that is a substitution of words: each symbol begins one key at most, each key has
one rule, and no body opens a list. -/
structure Parameterless (grammar : Grammar) : Prop where
  apart : (grammar.texts.filterMap fun entry => entry.1.head?).Nodup
  single : ∀ entry ∈ grammar.texts, entry.2.length = 1
  plain : ∀ entry ∈ grammar.texts, ∀ text ∈ entry.2, '(' ∉ text.body

instance (grammar : Grammar) : Decidable grammar.Parameterless :=
  decidable_of_iff
    ((grammar.texts.filterMap fun entry => entry.1.head?).Nodup ∧
      (∀ entry ∈ grammar.texts, entry.2.length = 1) ∧
        ∀ entry ∈ grammar.texts, ∀ text ∈ entry.2, '(' ∉ text.body)
    ⟨fun ⟨apart, single, plain⟩ => ⟨apart, single, plain⟩,
      fun held => ⟨held.apart, held.single, held.plain⟩⟩

/-- The word that takes the place of a symbol: the body of the key that begins with it, or the
symbol itself if no key does. -/
def successor (grammar : Grammar) (symbol : Char) : Text :=
  match grammar.texts.find? fun entry => entry.1.head? == some symbol with
  | some (_, text :: _) => text.body
  | _ => [symbol]

/-- Replaces all symbols of a word at once. -/
def expand (grammar : Grammar) (word : Text) : Text :=
  word.flatMap grammar.successor

/-- Parts of a word are replaced each for itself. -/
theorem expand_append (grammar : Grammar) (left right : Text) :
    grammar.expand (left ++ right) = grammar.expand left ++ grammar.expand right :=
  List.flatMap_append

/-- Parts of a word are replaced each for itself any number of times. -/
theorem iterate_expand_append (grammar : Grammar) (count : Nat) (left right : Text) :
    grammar.expand^[count] (left ++ right) =
      grammar.expand^[count] left ++ grammar.expand^[count] right := by
  induction count generalizing left right with
  | zero => rfl
  | succ count ih => simp only [Function.iterate_succ_apply, expand_append, ih]

/-- Only the texts of a grammar count. -/
theorem expand_congr {other : Grammar} (same : grammar.texts = other.texts) :
    grammar.expand = other.expand := by
  have successors : grammar.successor = other.successor := by
    funext symbol
    rw [successor, successor, same]
  funext word
  rw [expand, expand, successors]

namespace Parameterless

/-- Only the texts of a grammar count. -/
theorem congr (held : grammar.Parameterless) {other : Grammar}
    (same : other.texts = grammar.texts) : other.Parameterless where
  apart := by rw [same]; exact held.apart
  single := by rw [same]; exact held.single
  plain := by rw [same]; exact held.plain

/-- A symbol begins no key or exactly one key, which has one rule. -/
theorem filter_texts (held : grammar.Parameterless) (symbol : Char) :
    (grammar.texts.filter fun entry => entry.1.head? == some symbol) = [] ∨
      ∃ key text, '(' ∉ text.body ∧
        (grammar.texts.filter fun entry => entry.1.head? == some symbol) = [(key, [text])] := by
  have few : (grammar.texts.filter fun entry => entry.1.head? == some symbol).length ≤ 1 := by
    rw [← List.countP_eq_length_filter, ← List.count_filterMap]
    exact List.nodup_iff_count_le_one.mp held.apart symbol
  cases listed : grammar.texts.filter fun entry => entry.1.head? == some symbol with
  | nil => exact .inl rfl
  | cons entry others =>
    right
    obtain rfl : others = [] := by
      rw [listed, List.length_cons] at few
      exact List.eq_nil_of_length_eq_zero (by omega)
    have among : entry ∈ grammar.texts := by
      have first : entry ∈ grammar.texts.filter fun entry => entry.1.head? == some symbol := by
        rw [listed]
        exact List.mem_cons_self
      exact (List.mem_filter.mp first).1
    obtain ⟨key, texts⟩ := entry
    obtain ⟨text, rfl⟩ := List.length_eq_one_iff.mp (held.single _ among)
    exact ⟨key, text, held.plain _ among text List.mem_cons_self, rfl⟩

/-- A symbol without a list is replaced by its successor. -/
theorem ofSymbol_eq (held : grammar.Parameterless) (symbol : Char) (position : Nat) :
    Replacement.ofSymbol grammar symbol position = .ok (grammar.successor symbol) := by
  rw [successor, ← List.head?_filter]
  rcases held.filter_texts symbol with none | ⟨key, text, _, only⟩
  · rw [Replacement.ofSymbol, candidates_eq_nil none, none]
    rfl
  · obtain ⟨rule, listed, rfl⟩ := exists_candidate only
    rw [Replacement.ofSymbol, listed, only]
    rfl

/-- The successor of a symbol opens no list if the symbol does not. -/
theorem not_mem_successor (held : grammar.Parameterless) {symbol : Char} (other : symbol ≠ '(') :
    '(' ∉ grammar.successor symbol := by
  rw [successor, ← List.head?_filter]
  rcases held.filter_texts symbol with none | ⟨key, text, plain, only⟩
  · rw [none]
    simpa using other.symm
  · rw [only]
    exact plain

/-- A word that opens no list is replaced by one that opens none. -/
theorem not_mem_expand (held : grammar.Parameterless) {word : Text} (plain : '(' ∉ word) :
    '(' ∉ grammar.expand word := by
  intro opened
  obtain ⟨symbol, among, within⟩ := List.mem_flatMap.mp opened
  refine held.not_mem_successor ?_ within
  rintro rfl
  exact plain among

/-! ## Passes and derivations -/

variable {constants : Constants}

/-- From any place on a pass writes the successors of the symbols in their order and draws
nothing. The induction is on the symbols that are left. -/
theorem rewriteFrom_eq (held : grammar.Parameterless) {word : Text} (plain : '(' ∉ word)
    (position : Nat) :
    grammar.rewriteFrom constants position word = pure (grammar.expand word) := by
  induction word generalizing position with
  | nil => exact rewriteFrom_nil position
  | cons symbol rest ih =>
    have rest_plain : '(' ∉ rest := fun among => plain (List.mem_cons_of_mem symbol among)
    have fits : rest.head? ≠ some '(' := fun first => rest_plain (List.mem_of_mem_head? first)
    have found : Token.first? (symbol :: rest) = some (⟨symbol, none⟩, rest) :=
      Token.first?_eq_some_iff.mpr ⟨rfl, fits⟩
    have replaced : grammar.rewriteToken constants position ⟨symbol, none⟩ =
        pure (grammar.successor symbol) := by
      rw [rewriteToken, held.ofSymbol_eq]
      rfl
    rw [rewriteFrom_of_some found, replaced, pure_bind, ih rest_plain, pure_bind]
    rfl

/-- Passes replace all symbols as often as there are passes. -/
theorem passes_eq (held : grammar.Parameterless) {word : Text} (plain : '(' ∉ word)
    (count : Nat) :
    LSystem.passes grammar constants count word = pure (grammar.expand^[count] word) := by
  induction count generalizing word with
  | zero => rfl
  | succ count ih =>
    rw [LSystem.passes, rewrite_eq_rewriteFrom, held.rewriteFrom_eq plain, pure_bind,
      ih (held.not_mem_expand plain), Function.iterate_succ_apply]

end Parameterless

end Grammar

namespace LSystem

/-- A system without parameters derives what a substitution makes of its words. If each symbol
begins one key at most, each key has one rule, with a guard or without, no body opens a list
and the grammar compiles, then from every start that opens no list a derivation gives the word
in which all symbols were replaced at once as often as there are passes, whatever the seed and
the constants. So what becomes of two words one behind the other is what becomes of each. -/
theorem derive_eq_iterate (system : LSystem) {grammar : Grammar}
    (compiled : system.grammar.recompile = .ok grammar)
    (parameterless : system.grammar.Parameterless) (count : Nat) :
    (∀ (fresh : Generator) (start : Text), '(' ∉ start →
      (system.derive fresh start count).2 =
        some (.ok (system.grammar.expand^[count] start))) ∧
      ∀ (fresh other last : Generator) (left right : Text), '(' ∉ left → '(' ∉ right →
        ∃ first second, (system.derive fresh left count).2 = some (.ok first) ∧
          (system.derive other right count).2 = some (.ok second) ∧
            (system.derive last (left ++ right) count).2 = some (.ok (first ++ second)) := by
  have texts := Grammar.texts_of_recompile compiled
  have held : grammar.Parameterless := parameterless.congr texts
  have derived (fresh : Generator) (start : Text) (plain : '(' ∉ start) :
      (system.derive fresh start count).2 =
        some (.ok (system.grammar.expand^[count] start)) := by
    rw [derive_snd compiled, held.passes_eq plain, Grammar.expand_congr texts]
    rfl
  refine ⟨derived, ?_⟩
  intro fresh other last left right left_plain right_plain
  have plain : '(' ∉ left ++ right := fun among =>
    (List.mem_append.mp among).elim left_plain right_plain
  refine ⟨_, _, derived fresh left left_plain, derived other right right_plain, ?_⟩
  rw [derived last (left ++ right) plain, Grammar.iterate_expand_append]

/-- A system whose first rule has a guard that never holds and a body that begins with a symbol
of two bytes, and whose second rule, with a parameter in its key, takes its symbol away. -/
def fern : LSystem :=
  ⟨"AxB".toList, 2, .ofTexts [("A".toList, [⟨"A".toList, "éBA".toList, "0>1".toList⟩]),
    ("B(x)".toList, [⟨"B(x)".toList, [], []⟩])], .empty, none⟩

/-- Its rules compile. -/
theorem exists_recompile_fern : ∃ grammar, fern.grammar.recompile = .ok grammar :=
  exists_of_isOk (by decide +kernel)

/-- What two passes make of two words one behind the other is what they make of each. -/
theorem derive_eq_iterate_fern :
    ∃ grammar, fern.grammar.recompile = .ok grammar ∧ fern.grammar.Parameterless ∧
      (fern.derive default "AxB".toList 2).2 = some (.ok "ééBAx".toList) ∧
        (fern.derive default ")A".toList 2).2 = some (.ok ")ééBA".toList) ∧
          (fern.derive default "AxB)A".toList 2).2 = some (.ok "ééBAx)ééBA".toList) := by
  obtain ⟨grammar, compiled⟩ := exists_recompile_fern
  have parameterless : fern.grammar.Parameterless := by decide +kernel
  obtain ⟨replaced, joined⟩ := derive_eq_iterate fern compiled parameterless 2
  have left : (fern.derive default "AxB".toList 2).2 = some (.ok "ééBAx".toList) := by
    have word : fern.grammar.expand^[2] "AxB".toList = "ééBAx".toList := by decide +kernel
    rw [← word]
    exact replaced default _ (by decide)
  have right : (fern.derive default ")A".toList 2).2 = some (.ok ")ééBA".toList) := by
    have word : fern.grammar.expand^[2] ")A".toList = ")ééBA".toList := by decide +kernel
    rw [← word]
    exact replaced default _ (by decide)
  obtain ⟨first, second, begun, ended, both⟩ :=
    joined default default default "AxB".toList ")A".toList (by decide) (by decide)
  obtain rfl : "ééBAx".toList = first :=
    Except.ok.inj (Option.some.inj (left.symm.trans begun))
  obtain rfl : ")ééBA".toList = second :=
    Except.ok.inj (Option.some.inj (right.symm.trans ended))
  exact ⟨grammar, compiled, parameterless, left, right, both⟩

end LSystem

end Arbor
