import Arbor.Guard
import Arbor.Proofs.Pieces
import Arbor.Proofs.PlainReading

/-!
# The grammar of guards

A guard is written as conjuncts with ampersands between them, and a conjunct as two expressions
with the symbol of a relation between them. The relation is guessed from the signs that occur
anywhere in a conjunct, whatever their order, and the conjunct is then cut at its symbol. What is
accepted is of this form in any case. The converse depends on the expressions: as long as no
compiled expression has a sign in it, the signs of a conjunct are those of its symbol, so the guess
is right, the cut is the only one, and nothing of this form is refused. Only signs in comments
can mislead the guess.
-/
namespace Arbor

open Text

/-! ## Conjuncts -/

/-- Two texts with a relation between them. -/
structure Conjunct where
  left : Text
  relation : Relation
  right : Text
  deriving DecidableEq, Repr

namespace Conjunct

/-- How a conjunct is written. -/
def text (conjunct : Conjunct) : Text :=
  conjunct.left ++ (conjunct.relation.symbol ++ conjunct.right)

/-- Both sides of a conjunct are expressions. -/
def Compiles (conjunct : Conjunct) : Prop :=
  (∃ lhs, Expression.compile conjunct.left = .ok lhs) ∧
    ∃ rhs, Expression.compile conjunct.right = .ok rhs

/-- The relation of a conjunct is the one that is guessed from all its signs, and its symbol does not
stand in the sides. -/
structure Clear (conjunct : Conjunct) : Prop where
  found : Relation.detect conjunct.text = some conjunct.relation
  left : ¬conjunct.relation.symbol <:+: conjunct.left
  right : ¬conjunct.relation.symbol <:+: conjunct.right

/-- There are no signs in a conjunct beside those of its relation. -/
def Plain (conjunct : Conjunct) : Prop :=
  signs.Disjoint conjunct.left ∧ signs.Disjoint conjunct.right

end Conjunct

namespace Relation

/-- The symbol of a relation is made of signs, none of them twice. -/
theorem symbol_regular (relation : Relation) :
    relation.symbol.Nodup ∧ relation.symbol ≠ [] ∧ relation.symbol ⊆ signs ∧
      '&' ∉ relation.symbol := by
  cases relation <;> decide

/-- The symbol of a relation does not stand in a text without signs. -/
theorem symbol_absent {relation : Relation} {side : Text} (free : signs.Disjoint side) :
    ¬relation.symbol <:+: side := by
  intro inside
  obtain ⟨_, nonempty, among, _⟩ := relation.symbol_regular
  obtain ⟨c, rest, split⟩ := List.exists_cons_of_ne_nil nonempty
  have first : c ∈ relation.symbol := split ▸ List.mem_cons_self
  exact free (among first) (inside.subset first)

/-- The relation of a conjunct without other signs is found. -/
theorem detect_of_plain {conjunct : Conjunct} (plain : conjunct.Plain) :
    detect conjunct.text = some conjunct.relation := by
  obtain ⟨left, relation, right⟩ := conjunct
  obtain ⟨free, free'⟩ := plain
  have absent {c : Char} (sign : c ∈ signs) : c ∉ left ∧ c ∉ right :=
    ⟨fun within => free sign within, fun within => free' sign within⟩
  have equal := absent (show '=' ∈ signs by decide)
  have less := absent (show '<' ∈ signs by decide)
  have greater := absent (show '>' ∈ signs by decide)
  cases relation <;> simp [detect, Conjunct.text, symbol, equal, less, greater]

end Relation

/-- A plain conjunct is clear. -/
theorem Conjunct.Plain.clear {conjunct : Conjunct} (plain : conjunct.Plain) : conjunct.Clear where
  found := Relation.detect_of_plain plain
  left := Relation.symbol_absent plain.1
  right := Relation.symbol_absent plain.2

/-- There is no ampersand in a plain conjunct. -/
theorem Conjunct.Plain.ampersand_not_mem_text {conjunct : Conjunct} (plain : conjunct.Plain) :
    '&' ∉ conjunct.text := by
  have sign : '&' ∈ signs := by decide
  have symbol := conjunct.relation.symbol_regular.2.2.2
  have left : '&' ∉ conjunct.left := fun within => plain.1 sign within
  have right : '&' ∉ conjunct.right := fun within => plain.2 sign within
  simp [text, symbol, left, right]

namespace Comparison

/-- The texts of a comparison and the relation between them. -/
def written (comparison : Comparison) : Conjunct :=
  ⟨comparison.lhs.source, comparison.relation, comparison.rhs.source⟩

/-- Both sides of a comparison are compiled from their texts. -/
def Compiled (comparison : Comparison) : Prop :=
  Expression.compile comparison.lhs.source = .ok comparison.lhs ∧
    Expression.compile comparison.rhs.source = .ok comparison.rhs

variable {conjunct : Text} {comparison : Comparison}

/-- A conjunct is read as a comparison exactly if it is a clear one that is written as the
comparison, and both sides are compiled. -/
theorem parse_eq_ok_iff : parse conjunct = .ok comparison ↔
    comparison.written.text = conjunct ∧ comparison.written.Clear ∧ comparison.Compiled := by
  obtain ⟨distinct, nonempty, _⟩ := comparison.relation.symbol_regular
  unfold parse
  constructor
  · intro read
    split at read
    · cases read
    · next relation detected =>
      split at read
      · next left right split =>
        obtain ⟨lhs, compiled, read⟩ := bind_eq_ok_iff.mp read
        obtain ⟨rhs, compiled', read⟩ := bind_eq_ok_iff.mp read
        cases read
        rw [mapError_eq_ok_iff] at compiled compiled'
        obtain rfl := Expression.source_of_compile compiled
        obtain rfl := Expression.source_of_compile compiled'
        obtain ⟨rfl, absent, absent'⟩ := (splitOn_eq_pair_iff distinct nonempty).mp split
        exact ⟨rfl, ⟨detected, absent, absent'⟩, compiled, compiled'⟩
      · cases read
  · rintro ⟨rfl, clear, compiled, compiled'⟩
    have detected : Relation.detect comparison.written.text = some comparison.relation :=
      clear.found
    have split : splitOn comparison.relation.symbol comparison.written.text =
        [comparison.lhs.source, comparison.rhs.source] :=
      (splitOn_eq_pair_iff distinct nonempty).mpr ⟨rfl, clear.left, clear.right⟩
    simp only [detected, split, compiled, compiled']
    rfl

/-- A clear conjunct between expressions is read as the comparison that is written as it. -/
theorem exists_parse_of_clear {conjunct : Conjunct} (clear : conjunct.Clear)
    (compiles : conjunct.Compiles) :
    ∃ comparison, parse conjunct.text = .ok comparison ∧ comparison.written = conjunct := by
  obtain ⟨left, relation, right⟩ := conjunct
  obtain ⟨⟨lhs, compiled⟩, rhs, compiled'⟩ := compiles
  dsimp only at compiled compiled'
  obtain rfl := Expression.source_of_compile compiled
  obtain rfl := Expression.source_of_compile compiled'
  exact ⟨⟨lhs, relation, rhs⟩, parse_eq_ok_iff.mpr ⟨rfl, clear, compiled, compiled'⟩, rfl⟩

end Comparison

/-! ## Guards -/

namespace Guard

/-- A text is spelled by conjuncts between expressions, with ampersands between them. -/
structure Spelled (text : Text) (conjuncts : List Conjunct) : Prop where
  nonempty : conjuncts ≠ []
  joined : joinWith '&' (conjuncts.map Conjunct.text) = text
  compiles : ∀ conjunct ∈ conjuncts, conjunct.Compiles

/-- There are no signs in the parts of a text that are expressions on their own. -/
def PlainParts (text : Text) : Prop :=
  ∀ part, part <:+: text → ∀ expression, Expression.compile part = .ok expression →
    signs.Disjoint part

/-- In a text without comments no part that is an expression has a sign. -/
theorem plainParts_of_uncommented {text : Text} (uncommented : Uncommented text) :
    PlainParts text := by
  intro part inside expression compiled
  exact Expression.disjoint_signs_of_compile (uncommented.of_infix inside) compiled

variable {text : Text} {conjuncts : List Conjunct} {guard : Guard}

/-- A guard that is read is spelled by the comparisons that it is read as. -/
theorem spelled_of_parse (read : parse text = .ok guard) :
    Spelled text (guard.comparisons.map Comparison.written) ∧
      ∀ comparison ∈ guard.comparisons, comparison.Compiled ∧ comparison.written.Clear ∧
        '&' ∉ comparison.written.text := by
  obtain ⟨comparisons, done, rfl⟩ := map_eq_ok_iff.mp read
  have pieces : (comparisons.map Comparison.written).map Conjunct.text = splitOn ['&'] text := by
    rw [List.map_map]
    exact map_of_mapM (fun _ _ read_piece => (Comparison.parse_eq_ok_iff.mp read_piece).1) done
  have each : ∀ comparison ∈ comparisons, comparison.Compiled ∧ comparison.written.Clear ∧
      '&' ∉ comparison.written.text := by
    intro comparison among
    obtain ⟨piece, cut, read_piece⟩ := exists_of_mem_mapM done comparison among
    obtain ⟨rfl, clear, compiled⟩ := Comparison.parse_eq_ok_iff.mp read_piece
    exact ⟨compiled, clear, not_mem_of_mem_splitOn cut⟩
  refine ⟨⟨?_, ?_, ?_⟩, each⟩
  · intro empty
    rw [empty] at pieces
    exact splitAfter_ne_nil ['&'] 0 text pieces.symm
  · rw [pieces, joinWith_splitOn]
  · refine List.forall_mem_map.mpr fun comparison among => ?_
    obtain ⟨⟨compiled, compiled'⟩, _⟩ := each comparison among
    exact ⟨⟨comparison.lhs, compiled⟩, comparison.rhs, compiled'⟩

/-- The conjuncts that spell a text with plain parts are plain. -/
theorem Spelled.plain (spelled : Spelled text conjuncts) (plain : PlainParts text) :
    ∀ conjunct ∈ conjuncts, conjunct.Plain := by
  intro conjunct among
  have inside : conjunct.text <:+: text :=
    spelled.joined ▸ infix_joinWith (List.mem_map_of_mem among)
  obtain ⟨⟨lhs, compiled⟩, rhs, compiled'⟩ := spelled.compiles conjunct among
  have left : conjunct.left <:+: conjunct.text := (List.prefix_append conjunct.left _).isInfix
  have right : conjunct.right <:+: conjunct.text :=
    ((List.suffix_append conjunct.relation.symbol conjunct.right).trans
      (List.suffix_append conjunct.left _)).isInfix
  exact ⟨plain _ (left.trans inside) lhs compiled, plain _ (right.trans inside) rhs compiled'⟩

/-- Clear conjuncts between expressions are read as the comparisons that are written as them. -/
theorem exists_comparisons (clear : ∀ conjunct ∈ conjuncts, conjunct.Clear)
    (compiles : ∀ conjunct ∈ conjuncts, conjunct.Compiles) :
    ∃ comparisons, (conjuncts.map Conjunct.text).mapM Comparison.parse = .ok comparisons ∧
      comparisons.map Comparison.written = conjuncts := by
  induction conjuncts with
  | nil => exact ⟨[], rfl, rfl⟩
  | cons conjunct conjuncts ih =>
    obtain ⟨clear_here, clear_later⟩ := List.forall_mem_cons.mp clear
    obtain ⟨compiles_here, compiles_later⟩ := List.forall_mem_cons.mp compiles
    obtain ⟨comparison, read, written⟩ :=
      Comparison.exists_parse_of_clear clear_here compiles_here
    obtain ⟨comparisons, done, all⟩ := ih clear_later compiles_later
    refine ⟨comparison :: comparisons, ?_, by rw [List.map_cons, written, all]⟩
    rw [List.map_cons, List.mapM_cons, read, done]
    rfl

/-- Clear conjuncts that spell a text are what it is read as, if the ampersands between them are
the only ones. -/
theorem Spelled.exists_parse (spelled : Spelled text conjuncts)
    (clear : ∀ conjunct ∈ conjuncts, conjunct.Clear ∧ '&' ∉ conjunct.text) :
    ∃ guard, parse text = .ok guard ∧ guard.comparisons.map Comparison.written = conjuncts := by
  obtain ⟨comparisons, done, written⟩ :=
    exists_comparisons (fun conjunct among => (clear conjunct among).1) spelled.compiles
  have free : ∀ piece ∈ conjuncts.map Conjunct.text, '&' ∉ piece :=
    List.forall_mem_map.mpr fun conjunct among => (clear conjunct among).2
  have pieces : splitOn ['&'] text = conjuncts.map Conjunct.text := by
    rw [← spelled.joined]
    exact splitOn_joinWith (by simpa using spelled.nonempty) free
  exact ⟨⟨comparisons⟩, by rw [parse, pieces, done]; rfl, written⟩

/-- Whatever stands in its comments, a text is a guard exactly if it is spelled by clear conjuncts
between expressions, divided by the only ampersands in it. -/
theorem exists_parse_iff : (∃ guard, parse text = .ok guard) ↔
    ∃ conjuncts, Spelled text conjuncts ∧
      ∀ conjunct ∈ conjuncts, conjunct.Clear ∧ '&' ∉ conjunct.text := by
  constructor
  · rintro ⟨guard, read⟩
    obtain ⟨spelled, each⟩ := spelled_of_parse read
    exact ⟨_, spelled, List.forall_mem_map.mpr fun comparison among => (each comparison among).2⟩
  · rintro ⟨conjuncts, spelled, clear⟩
    obtain ⟨guard, read, _⟩ := spelled.exists_parse clear
    exact ⟨guard, read⟩

/-- A sign in a comment misleads the guess: there is no symbol to cut at, although both sides of
the equals sign are expressions. -/
example : (Expression.compile "1/*<*/".toList).isOk = true ∧
    (parse "1/*<*/=1".toList).isOk = false := by
  decide +kernel

/-- A text whose parts are plain is a guard exactly if it is spelled by conjuncts between
expressions. There is one such spelling only, and the guard has the comparisons that are written
as its conjuncts, in order, with their sides compiled. -/
theorem parse_exactly (plain : PlainParts text) :
    ((∃ guard, parse text = .ok guard) ↔ ∃ conjuncts, Spelled text conjuncts) ∧
      ∀ guard, parse text = .ok guard →
        (∀ conjuncts, Spelled text conjuncts ↔
          conjuncts = guard.comparisons.map Comparison.written) ∧
        ∀ comparison ∈ guard.comparisons, comparison.Compiled := by
  have exact_reading {conjuncts : List Conjunct} (spelled : Spelled text conjuncts) :
      ∃ guard, parse text = .ok guard ∧ guard.comparisons.map Comparison.written = conjuncts := by
    refine spelled.exists_parse fun conjunct among => ?_
    have plain_conjunct := spelled.plain plain conjunct among
    exact ⟨plain_conjunct.clear, plain_conjunct.ampersand_not_mem_text⟩
  refine ⟨⟨?_, ?_⟩, ?_⟩
  · rintro ⟨guard, read⟩
    exact ⟨_, (spelled_of_parse read).1⟩
  · rintro ⟨conjuncts, spelled⟩
    obtain ⟨guard, read, _⟩ := exact_reading spelled
    exact ⟨guard, read⟩
  · intro guard read
    obtain ⟨spelled, each⟩ := spelled_of_parse read
    refine ⟨fun conjuncts => ⟨fun other => ?_, ?_⟩, fun comparison among => (each comparison among).1⟩
    · -- The text is read once, so another spelling is that of the same comparisons.
      obtain ⟨guard', read', written⟩ := exact_reading other
      obtain rfl := Except.ok.inj (read.symm.trans read')
      exact written.symm
    · rintro rfl
      exact spelled

/-- A guard without comments is read as the two comparisons that it is spelled by. -/
theorem parse_exactly_range :
    PlainParts "x>=5&x<10".toList ∧ ∃ guard, parse "x>=5&x<10".toList = .ok guard ∧
      guard.comparisons.map Comparison.written =
        [⟨"x".toList, .greaterOrEqual, "5".toList⟩, ⟨"x".toList, .less, "10".toList⟩] := by
  have plain : PlainParts "x>=5&x<10".toList := plainParts_of_uncommented (by decide)
  have accepted : (parse "x>=5&x<10".toList).isOk = true := by decide +kernel
  have spelled : Spelled "x>=5&x<10".toList
      [⟨"x".toList, .greaterOrEqual, "5".toList⟩, ⟨"x".toList, .less, "10".toList⟩] := by
    refine ⟨by simp, by decide, List.forall_mem_cons.mpr ⟨?_, List.forall_mem_singleton.mpr ?_⟩⟩
    · exact ⟨exists_of_isOk (by decide +kernel), exists_of_isOk (by decide +kernel)⟩
    · exact ⟨exists_of_isOk (by decide +kernel), exists_of_isOk (by decide +kernel)⟩
  obtain ⟨guard, read⟩ := exists_of_isOk accepted
  obtain ⟨_, exactly⟩ := parse_exactly plain
  exact ⟨plain, guard, read, (((exactly guard read).1 _).mp spelled).symm⟩

end Guard

end Arbor
