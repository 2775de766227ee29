import Arbor.Mesh.Marker
import Arbor.Proofs.Actions
import Arbor.Proofs.Derivations

/-!
# Branches of the turtle

The turtle saves its frame at one bracket and restores it at another, and steps over the
lists behind all other symbols. If the sequence is well nested in the brackets of lists
and of branches, then as many frames are saved at any time as closing brackets of
branches are awaited. So there is always a frame to restore, and none is left at the end.

The lists that are stepped over may hold branch brackets themselves, and a bracket of a
list may stand as a symbol of its own with another list behind it. This is why both kinds
have to be nested together and not each for itself.
-/
namespace Arbor

open Text

variable {π : Type}

/-! ## What a symbol does -/

/-- Square brackets, and no other symbols, save and restore frames, and round brackets have
no meaning. -/
structure Interpretation.BranchSymbols (interpretation : Interpretation π) : Prop where
  push : ∀ c, interpretation.meanings.command c = .push ↔ c = '['
  pop : ∀ c, interpretation.meanings.command c = .pop ↔ c = ']'
  opening : interpretation.meanings.command '(' = .ignore
  closing : interpretation.meanings.command ')' = .ignore

namespace Interpretation

variable {interpretation : Interpretation π}

/-- The symbols for turning and branching are the only ones with a standard meaning. -/
theorem commands_withStandardSymbols (seed : Option UInt64) (growthAxis : Vec3) :
    (empty seed growthAxis : Interpretation π).withStandardSymbols.meanings.commands =
      (((((∅ : Std.TreeMap Char TurtleCommand).insert 'X' (.rotate .x)).insert 'Y'
        (.rotate .y)).insert 'Z' (.rotate .z)).insert '[' .push).insert ']' .pop := rfl

/-- The standard meaning of a symbol. -/
theorem command_withStandardSymbols (seed : Option UInt64) (growthAxis : Vec3) (c : Char) :
    (empty seed growthAxis : Interpretation π).withStandardSymbols.meanings.command c =
      if c = ']' then .pop else if c = '[' then .push
      else if c = 'Z' then .rotate .z else if c = 'Y' then .rotate .y
      else if c = 'X' then .rotate .x else .ignore := by
  rw [Meanings.command, commands_withStandardSymbols]
  simp only [Std.TreeMap.getD_insert, Std.LawfulEqCmp.compare_eq_iff_eq,
    Std.TreeMap.getD_emptyc]
  simp only [@eq_comm _ c]

/-- Five symbols have a standard meaning. -/
theorem size_withStandardSymbols (seed : Option UInt64) (growthAxis : Vec3) :
    (empty seed growthAxis : Interpretation π).withStandardSymbols.meanings.commands.size = 5 := by
  rw [commands_withStandardSymbols]
  decide +kernel

/-- Registering a part gives a meaning to one more symbol at most. -/
theorem size_register_le (interpretation : Interpretation π) (symbol : Char) (part : π) :
    (interpretation.register symbol part).meanings.commands.size ≤
      interpretation.meanings.commands.size + 1 := by
  unfold register assign Meanings.assign
  dsimp only
  split
  · exact Std.TreeMap.size_insert_le
  · exact Nat.le_succ _

/-- If there is room for one more meaning, registering a part changes the meaning of its
symbol and no other. -/
theorem command_register {interpretation : Interpretation π}
    (room : interpretation.meanings.commands.size < Meanings.capacity) (symbol : Char) (part : π)
    (c : Char) : (interpretation.register symbol part).meanings.command c =
      if c = symbol then .draw interpretation.parts.size
      else interpretation.meanings.command c := by
  unfold register assign Meanings.assign Meanings.command
  dsimp only
  rw [if_pos (by simp [room])]
  simp only [Std.TreeMap.getD_insert, Std.LawfulEqCmp.compare_eq_iff_eq]
  simp only [@eq_comm _ c]

/-- By their standard meanings square brackets, and no other symbols, save and restore. -/
theorem branchSymbols_withStandardSymbols (seed : Option UInt64) (growthAxis : Vec3) :
    (empty seed growthAxis : Interpretation π).withStandardSymbols.BranchSymbols := by
  constructor
  · intro c
    rw [command_withStandardSymbols]
    grind
  · intro c
    rw [command_withStandardSymbols]
    grind
  · rw [command_withStandardSymbols]
    simp
  · rw [command_withStandardSymbols]
    simp

variable [Part π]

/-- A symbol saves the frame, restores it, or leaves the saved frames alone and takes the
list behind it, if there is one. -/
theorem act_cases {turtle next : Turtle π} {symbol : Char} {position place : Nat}
    {rest after : Text} (acted : interpretation.act turtle symbol position rest =
      .ok (next, place, after)) :
    (interpretation.meanings.command symbol = .push ∧ next = turtle.save ∧ after = rest) ∨
      (interpretation.meanings.command symbol = .pop ∧ next = turtle.restore ∧ after = rest) ∨
      (interpretation.meanings.command symbol ≠ .push ∧
        interpretation.meanings.command symbol ≠ .pop ∧ next.stack = turtle.stack ∧
        ∃ contents?, ParameterList.take (position + symbol.utf8Size) rest =
          .ok (contents?, after)) := by
  obtain ⟨actions, does, rfl⟩ := act_eq_ok_iff.mp acted
  cases does with
  | rotate meaning taken =>
    obtain ⟨contents?, found, _⟩ := exists_take_of_takeParameters taken
    exact Or.inr (Or.inr ⟨by simp [meaning], by simp [meaning], rfl, contents?, found⟩)
  | draw meaning _ taken _ =>
    obtain ⟨contents?, found, _⟩ := exists_take_of_takeParameters taken
    exact Or.inr (Or.inr ⟨by simp [meaning], by simp [meaning], Turtle.stack_spawn _ _ _,
      contents?, found⟩)
  | nothing meaning _ taken =>
    obtain ⟨contents?, found, _⟩ := exists_take_of_takeParameters taken
    exact Or.inr (Or.inr ⟨by simp [meaning], by simp [meaning], rfl, contents?, found⟩)
  | push meaning => exact Or.inl ⟨meaning, rfl, rfl⟩
  | pop meaning => exact Or.inr (Or.inl ⟨meaning, rfl, rfl⟩)
  | ignore meaning skipped =>
    obtain ⟨contents?, found, _⟩ := exists_take_of_skipParameters skipped
    exact Or.inr (Or.inr ⟨by simp [meaning], by simp [meaning], rfl, contents?, found⟩)

/-- A symbol takes at least itself. -/
theorem length_le_of_act {turtle next : Turtle π} {symbol : Char} {position place : Nat}
    {rest after : Text} (acted : interpretation.act turtle symbol position rest =
      .ok (next, place, after)) : after.length ≤ rest.length := by
  obtain ⟨_, does, _⟩ := act_eq_ok_iff.mp acted
  obtain ⟨list, rfl, _⟩ := does.exists_append
  rw [List.length_append]
  exact Nat.le_add_left after.length list.length

/-! ## Walks -/

/-- The turtles that an interpretation comes past on its way through a sequence, each with
the position and the text in front of it. -/
inductive Reaches (interpretation : Interpretation π) (sequence : Text) :
    Turtle π → Nat → Text → Prop
  | start : Reaches interpretation sequence (.start interpretation.growthAxis) 0 sequence
  | act {turtle next : Turtle π} {position place : Nat} {symbol : Char} {rest after : Text} :
    Reaches interpretation sequence turtle position (symbol :: rest) →
      interpretation.act turtle symbol position rest = .ok (next, place, after) →
        Reaches interpretation sequence next place after

/-- The turtle behind a walk is one that the interpretation comes past, in front of the end
of the sequence. The induction is on the number of symbols that may still be taken. -/
theorem exists_reaches_of_walk {sequence rest : Text} {count position : Nat}
    {turtle final : Turtle π} (enough : rest.length ≤ count)
    (reached : interpretation.Reaches sequence turtle position rest)
    (walked : interpretation.walk count turtle position rest = .ok final) :
    ∃ place, interpretation.Reaches sequence final place [] := by
  induction count generalizing turtle position rest with
  | zero =>
    obtain rfl : rest = [] := List.eq_nil_of_length_eq_zero (Nat.le_zero.mp enough)
    obtain rfl : turtle = final := Except.ok.inj walked
    exact ⟨position, reached⟩
  | succ count ih =>
    cases rest with
    | nil =>
      obtain rfl : turtle = final := Except.ok.inj walked
      exact ⟨position, reached⟩
    | cons symbol rest =>
      obtain ⟨⟨next, place, after⟩, acted, walked⟩ := bind_eq_ok_iff.mp walked
      have shorter := length_le_of_act acted
      have fits : after.length ≤ count := by
        simp only [List.length_cons] at enough
        omega
      exact ih fits (.act reached acted) walked

/-- A sequence that has a tree was walked to its end. -/
theorem exists_reaches_of_tree {sequence : Text} {tree : PartTree π}
    (grown : interpretation.tree sequence = .ok tree) :
    ∃ final place, interpretation.finalTurtle sequence = .ok final ∧ final.tree = tree ∧
      interpretation.Reaches sequence final place [] := by
  obtain ⟨final, walked, same⟩ := map_eq_ok_iff.mp grown
  obtain ⟨place, reached⟩ := exists_reaches_of_walk (Nat.le_refl _) .start walked
  exact ⟨final, place, walked, same, reached⟩

end Interpretation

/-! ## Saved frames and awaited brackets -/

namespace Brackets

/-- Square brackets are the brackets of branches. -/
theorem closing?_square : branches.closing? '[' = some ']' := rfl

/-- A symbol that is no square bracket leaves the number of awaited ones as it is. -/
theorem exists_of_awaitedAfter_symbol {symbol : Char} (opens : symbol ≠ '[')
    (closes : symbol ≠ ']') {awaited left : List Char} {rest : Text}
    (reached : branches.awaitedAfter awaited (symbol :: rest) = some left) :
    ∃ behind, behind.count ']' = awaited.count ']' ∧
      branches.awaitedAfter behind rest = some left := by
  by_cases opening : symbol = '('
  · subst opening
    rw [awaitedAfter_opening closing?_open] at reached
    exact ⟨')' :: awaited, by simp, reached⟩
  · by_cases closing : symbol = ')'
    · subst closing
      obtain ⟨outer, rfl, reached⟩ :=
        exists_of_awaitedAfter_closing closing?_close closes_close reached
      exact ⟨outer, by simp, reached⟩
    · have plain : branches.contains symbol = false :=
        contains_of_forall_ne (by simpa [branches] using ⟨⟨opening, closing⟩, opens, closes⟩)
      rw [awaitedAfter_plain plain] at reached
      exact ⟨awaited, rfl, reached⟩

end Brackets

/-- As many frames are saved as closing brackets of branches are awaited in front of a text
that closes all of them. -/
def Turtle.Matches (turtle : Turtle π) (rest : Text) : Prop :=
  ∃ awaited, turtle.stack.length = awaited.count ']' ∧
    Brackets.branches.awaitedAfter awaited rest = some []

namespace Interpretation

variable {interpretation : Interpretation π}

/-- In front of a symbol that restores a frame there is one to restore. -/
theorem BranchSymbols.stack_ne_nil (symbols : interpretation.BranchSymbols) {turtle : Turtle π}
    {symbol : Char} {rest : Text} (matched : turtle.Matches (symbol :: rest))
    (meaning : interpretation.meanings.command symbol = .pop) : turtle.stack ≠ [] := by
  obtain ⟨awaited, saved, reached⟩ := matched
  obtain rfl := (symbols.pop symbol).mp meaning
  obtain ⟨outer, rfl, _⟩ := Brackets.exists_of_awaitedAfter_closing rfl rfl reached
  rw [← List.length_pos_iff, saved, List.count_cons_self]
  exact Nat.succ_pos _

variable [Part π]

/-- A symbol keeps the saved frames matched with the rest of the sequence. -/
theorem BranchSymbols.matches_of_act (symbols : interpretation.BranchSymbols)
    {turtle next : Turtle π} {symbol : Char} {position place : Nat} {rest after : Text}
    (matched : turtle.Matches (symbol :: rest))
    (acted : interpretation.act turtle symbol position rest = .ok (next, place, after)) :
    next.Matches after := by
  obtain ⟨awaited, saved, reached⟩ := matched
  rcases act_cases acted with ⟨meaning, rfl, rfl⟩ | ⟨meaning, rfl, rfl⟩ |
    ⟨no_push, no_pop, same, contents?, taken⟩
  · obtain rfl := (symbols.push symbol).mp meaning
    rw [Brackets.awaitedAfter_opening Brackets.closing?_square] at reached
    exact ⟨']' :: awaited, by simp [saved], reached⟩
  · obtain rfl := (symbols.pop symbol).mp meaning
    obtain ⟨outer, rfl, reached⟩ := Brackets.exists_of_awaitedAfter_closing rfl rfl reached
    refine ⟨outer, ?_, reached⟩
    rw [Turtle.stack_restore, List.length_tail, saved, List.count_cons_self, Nat.add_sub_cancel]
  · have opens : symbol ≠ '[' := fun square => no_push ((symbols.push symbol).mpr square)
    have closes : symbol ≠ ']' := fun square => no_pop ((symbols.pop symbol).mpr square)
    obtain ⟨behind, count, reached⟩ :=
      Brackets.exists_of_awaitedAfter_symbol opens closes reached
    exact ⟨behind, by rw [same, saved, count], Brackets.awaitedAfter_of_take taken reached⟩

/-- The saved frames are matched with the rest of a well nested sequence on the whole way
through it. -/
theorem BranchSymbols.matches_of_reaches (symbols : interpretation.BranchSymbols)
    {sequence rest : Text} (nested : Brackets.branches.WellNested sequence) {turtle : Turtle π}
    {position : Nat} (reached : interpretation.Reaches sequence turtle position rest) :
    turtle.Matches rest := by
  induction reached with
  | start => exact ⟨[], rfl, nested⟩
  | act _ acted ih => exact symbols.matches_of_act ih acted

end Interpretation

namespace LSystem

/-- Branches survive a derivation and the turtle. If keys begin with no bracket, and start
and bodies are well nested in both kinds of brackets, then so is what a derivation gives,
whatever the seed and the numbers drawn. On its way through it a turtle that takes square
brackets for branches finds a saved frame wherever it restores one, and if it comes to the
end it has restored all of them. -/
theorem wellNested_of_derive (system : LSystem) {grammar : Grammar}
    (compiled : system.grammar.recompile = .ok grammar)
    (keys : ∀ key ∈ system.grammar.rules.keys, ∀ bracket ∈ ['(', ')', '[', ']'],
      key.head? ≠ some bracket)
    (bodies : ∀ entry ∈ system.grammar.rules.entries, ∀ rule ∈ entry.2,
      Brackets.branches.WellNested rule.body)
    {start : Text} (nested : Brackets.branches.WellNested start) (fresh : Generator)
    (count : Nat) {sequence : Text}
    (derived : (system.derive fresh start count).2 = some (.ok sequence)) :
    Brackets.branches.WellNested sequence ∧
      ∀ {π : Type} [Part π] (interpretation : Interpretation π), interpretation.BranchSymbols →
        (∀ turtle position symbol rest,
          interpretation.Reaches sequence turtle position (symbol :: rest) →
            interpretation.meanings.command symbol = .pop → turtle.stack ≠ []) ∧
          ∀ tree, interpretation.tree sequence = .ok tree →
            ∃ turtle, interpretation.finalTurtle sequence = .ok turtle ∧ turtle.tree = tree ∧
              turtle.stack = [] := by
  have ready : grammar.Nested .branches := by
    refine Grammar.nested_of_recompile compiled ?_
      (Grammar.forall_body_of_recompile compiled bodies)
    intro key among c begins
    have other (bracket : Char) (listed : bracket ∈ ['(', ')', '[', ']']) : c ≠ bracket := by
      rintro rfl
      exact keys key among c listed begins
    refine Brackets.contains_of_forall_ne ?_
    simp only [Brackets.branches, List.forall_mem_cons, List.not_mem_nil, false_implies,
      implies_true, and_true]
    exact ⟨⟨other '(' (by decide), other ')' (by decide)⟩,
      other '[' (by decide), other ']' (by decide)⟩
  obtain ⟨_, given⟩ := exists_gives_of_derive compiled derived
  have wellNested := wellNested_of_passes ready nested given
  refine ⟨wellNested, ?_⟩
  intro π _ interpretation symbols
  constructor
  · intro turtle position symbol rest reached meaning
    exact symbols.stack_ne_nil (symbols.matches_of_reaches wellNested reached) meaning
  · intro tree grown
    obtain ⟨final, place, walked, same, reached⟩ := Interpretation.exists_reaches_of_tree grown
    obtain ⟨awaited, saved, ended⟩ := symbols.matches_of_reaches wellNested reached
    obtain rfl : awaited = [] := Option.some.inj ended
    exact ⟨final, walked, same, List.eq_nil_of_length_eq_zero saved⟩

/-- A turtle with the standard symbols comes to the end of a sprout and leaves all of its
branches again. -/
theorem wellNested_of_derive_sprout :
    (sprout.derive default "A(1)".toList 2).2 = some (.ok "B(1)[B(2)[A(3)]]".toList) ∧
      ∃ turtle, (Interpretation.empty none .unitY :
        Interpretation Marker).withStandardSymbols.finalTurtle "B(1)[B(2)[A(3)]]".toList =
          .ok turtle ∧ turtle.stack = [] := by
  obtain ⟨grammar, compiled⟩ := exists_recompile_sprout
  have derived : (sprout.derive default "A(1)".toList 2).2 =
      some (.ok "B(1)[B(2)[A(3)]]".toList) := by decide +kernel
  have keys : sprout.grammar.rules.keys = ["A(x)".toList] := by decide +kernel
  obtain ⟨_, kept⟩ := wellNested_of_derive sprout compiled (by simp [keys]) (by decide +kernel)
    (by decide) default 2 derived
  have succeeds : ((Interpretation.empty none .unitY :
      Interpretation Marker).withStandardSymbols.tree "B(1)[B(2)[A(3)]]".toList).isOk = true := rfl
  obtain ⟨tree, grown⟩ := exists_of_isOk succeeds
  obtain ⟨turtle, walked, _, empty⟩ :=
    (kept _ (Interpretation.branchSymbols_withStandardSymbols none .unitY)).2 tree grown
  exact ⟨derived, turtle, walked, empty⟩

end LSystem

end Arbor
