import Arbor.Proofs.Readability
import Arbor.Proofs.Shapes

/-!
# Accepted shapes

If all lists of a regular sequence are numeric, then its shape decides whether the turtle comes
to its end: a turning symbol needs one number, a drawing symbol as many as its part has
parameters, and a branch symbol must not carry a list. The shape also tells how many nodes the
tree gets.
-/
namespace Arbor.Interpretation

open Text

variable {π : Type} [Part π] {interpretation : Interpretation π}

/-- A symbol with so many numbers in its list is acted on without a fault, and adds so many
nodes to the tree. -/
inductive Accepts (interpretation : Interpretation π) : Form → Nat → Prop
  | rotate {symbol : Char} {axis : Axis} {count : Nat} :
    interpretation.meanings.command symbol = .rotate axis → 0 < count →
      Accepts interpretation ⟨symbol, some count⟩ 0
  | draw {symbol : Char} {index count : Nat} {part : π} :
    interpretation.meanings.command symbol = .draw index →
      interpretation.parts[index]? = some part → Part.arity part ≤ count →
        Accepts interpretation ⟨symbol, some count⟩ 1
  | push {symbol : Char} : interpretation.meanings.command symbol = .push →
      Accepts interpretation ⟨symbol, none⟩ 0
  | pop {symbol : Char} : interpretation.meanings.command symbol = .pop →
      Accepts interpretation ⟨symbol, none⟩ 0
  | ignore {form : Form} : interpretation.meanings.command form.symbol = .ignore →
      Accepts interpretation form 0

/-- Behind a token whose form is accepted the turtle stands in front of the next token, with a
tree that has grown by the nodes of the form. -/
theorem Accepts.exists_act {token : Token} {nodes : Nat}
    (accepts : interpretation.Accepts token.form nodes) {symbol : Char} {rest after : Text}
    (found : Token.first? (symbol :: rest) = some (token, after))
    (numeric : NumericLists (symbol :: rest)) (turtle : Turtle π) (position : Nat) :
    ∃ next place, interpretation.act turtle symbol position rest = .ok (next, place, after) ∧
      next.tree.size = turtle.tree.size + nodes := by
  obtain ⟨rfl, taken⟩ := Token.take_of_first? found
  obtain ⟨symbol, contents?⟩ := token
  -- The numbers of the list, if there is one.
  have list {count : Nat} (listed : contents?.map ParameterList.count = some count) :
      ∃ parameters place, takeParameters symbol (position + symbol.utf8Size) rest =
        .ok (some parameters, place, after) ∧ parameters.length = count := by
    obtain ⟨contents, rfl, counted⟩ := Option.map_eq_some_iff.mp listed
    obtain ⟨rfl, _⟩ := ParameterList.take_eq_some_iff.mp (taken 0)
    obtain ⟨values, decimals, rfl⟩ := numeric.tail.exists_of_take (taken 0)
    obtain ⟨parameters, same, read⟩ := exists_takeParameters decimals
    have length : parameters.length = values.length := by
      simpa using (congrArg List.length same).symm
    rw [ParameterList.count, arguments_of_decimals decimals] at counted
    exact ⟨parameters, _, read symbol _ after, length.trans counted⟩
  have bare (none : contents?.map ParameterList.count = none) : rest = after := by
    obtain rfl := Option.map_eq_none_iff.mp none
    exact (ParameterList.take_eq_none_iff.mp (taken 0)).2
  generalize listed : contents?.map ParameterList.count = arguments? at list bare
  rw [Token.form, listed] at accepts
  cases accepts with
  | rotate meaning some =>
    obtain ⟨parameters, place, read, length⟩ := list rfl
    obtain ⟨angle, others, rfl⟩ := List.exists_cons_of_length_pos (length ▸ some)
    exact ⟨_, place, act_eq_ok_iff.mpr ⟨_, .rotate meaning read, rfl⟩, rfl⟩
  | draw meaning present enough =>
    obtain ⟨parameters, place, read, length⟩ := list rfl
    have does := Does.draw meaning present read (by simpa [length] using enough)
    refine ⟨_, place, act_eq_ok_iff.mpr ⟨_, does, rfl⟩, ?_⟩
    simp [Turtle.performAll, Turtle.perform]
  | push meaning =>
    obtain rfl := bare rfl
    exact ⟨_, _, act_eq_ok_iff.mpr ⟨_, .push meaning, rfl⟩, rfl⟩
  | pop meaning =>
    obtain rfl := bare rfl
    refine ⟨_, _, act_eq_ok_iff.mpr ⟨_, .pop meaning, rfl⟩, ?_⟩
    simp [Turtle.performAll, Turtle.perform]
  | ignore meaning =>
    obtain ⟨place, skipped⟩ : ∃ place, skipParameters (position + symbol.utf8Size) rest =
        .ok (place, after) := by
      unfold skipParameters
      rw [taken]
      cases contents? <;> exact ⟨_, rfl⟩
    exact ⟨_, _, act_eq_ok_iff.mpr ⟨_, .ignore meaning skipped, rfl⟩, rfl⟩

section Words

variable {α : Type} {form : α → Form} {nodes : α → Nat}

/-- A walk over a word of accepted letters comes to the end of the text, and the tree grows by
the nodes of all of them. The induction is on the number of symbols that may still be taken,
since a token is one symbol. -/
theorem exists_walk (accepted : ∀ letter, interpretation.Accepts (form letter) (nodes letter))
    {count : Nat} {text : Text} (enough : text.length ≤ count)
    (complete : (Token.cut text).2 = []) (numeric : NumericLists text) {word : List α}
    (spelled : text.shape = word.map form) (turtle : Turtle π) (position : Nat) :
    ∃ final, interpretation.walk count turtle position text = .ok final ∧
      final.tree.size = turtle.tree.size + (word.map nodes).sum := by
  induction count generalizing text word turtle position with
  | zero =>
    obtain rfl : text = [] := List.eq_nil_of_length_eq_zero (Nat.le_zero.mp enough)
    obtain rfl : word = [] := List.map_eq_nil_iff.mp (spelled.symm.trans shape_nil)
    exact ⟨turtle, rfl, by simp⟩
  | succ count ih =>
    cases text with
    | nil =>
      obtain rfl : word = [] := List.map_eq_nil_iff.mp (spelled.symm.trans shape_nil)
      exact ⟨turtle, rfl, by simp⟩
    | cons symbol rest =>
      cases found : Token.first? (symbol :: rest) with
      | none =>
        rw [Token.cut_of_none found] at complete
        cases complete
      | some parts =>
        obtain ⟨token, after⟩ := parts
        rw [shape_of_first? found] at spelled
        rw [Token.cut_of_some found] at complete
        obtain ⟨letter, word, rfl, here, later⟩ := List.map_eq_cons_iff.mp spelled.symm
        have accepts : interpretation.Accepts token.form (nodes letter) := here ▸ accepted letter
        obtain ⟨next, place, acted, grown⟩ := accepts.exists_act found numeric turtle position
        have shorter := Token.length_after_lt found
        have behind : NumericLists after := by
          obtain ⟨split, _⟩ := Token.first?_eq_some_iff.mp found
          exact NumericLists.of_append (split ▸ numeric)
        have fits : after.length ≤ count := by omega
        obtain ⟨final, walked, size⟩ := ih fits complete behind later.symm next place
        refine ⟨final, ?_, ?_⟩
        · rw [walk, acted]
          exact walked
        · rw [size, grown, List.map_cons, List.sum_cons, Nat.add_assoc]

/-- A word of accepted letters has a tree, with the nodes of all of them. -/
theorem exists_tree (accepted : ∀ letter, interpretation.Accepts (form letter) (nodes letter))
    {sequence : Text} (complete : (Token.cut sequence).2 = []) (numeric : NumericLists sequence)
    {word : List α} (spelled : sequence.shape = word.map form) :
    ∃ tree, interpretation.tree sequence = .ok tree ∧ tree.size = (word.map nodes).sum := by
  obtain ⟨final, walked, size⟩ := exists_walk accepted (Nat.le_refl _) complete numeric spelled
    (.start interpretation.growthAxis) 0
  refine ⟨final.tree, map_eq_ok_iff.mpr ⟨final, walked, rfl⟩, ?_⟩
  rw [size]
  exact Nat.zero_add _

end Words

end Arbor.Interpretation
