import Arbor.Proofs.MeshPrefixes
import Arbor.Proofs.SpelledNumbers
import Arbor.Proofs.SymbolStarts

/-!
# Parameters of drawn parts

Turning and drawing symbols read the arguments of their lists as numbers. An argument that is no
number is refused where it stands, and nothing else is. But the words for infinity and for what is
not a number are read like numerals, and so are numerals beyond all finite values, so the parameters
of the nodes of a tree are finite only if the texts that they were read from are finite numbers.
-/
namespace Arbor

open Text

variable {π : Type}

namespace Interpretation

variable {interpretation : Interpretation π} {sequence : Text}

/-! ## Lists of arguments -/

/-- A text that begins at `position` begins with a list of these arguments. -/
def ListsAt (position : Nat) (text : Text) (pieces : List Text) : Prop :=
  ∃ contents after, ParameterList.take position text = .ok (some contents, after) ∧
    ParameterList.arguments (position + 1) contents = .ok pieces

/-- At this place stands the first of the arguments, blanks around it left aside, that is no
number. -/
def FirstRefused (position : Nat) (pieces : List Text) (place : Nat) (text : Text) : Prop :=
  ∃ before piece behind, pieces = before ++ piece :: behind ∧
    (∀ other ∈ before, IsNumber (trim other)) ∧ ¬IsNumber (trim piece) ∧ text = trim piece ∧
      place = position + (before.map fun other => byteLength other + 1).sum

/-- Arguments are read one by one. -/
theorem readParameters_eq_ok_iff {symbol : Char} {position : Nat} {pieces : List Text}
    {values : List Float32} : readParameters symbol position pieces = .ok values ↔
      pieces.map (fun piece => readSingle? (trim piece)) = values.map some := by
  induction pieces generalizing position values with
  | nil => cases values <;> simp [readParameters]
  | cons piece pieces ih =>
    rw [readParameters, List.map_cons]
    cases read : readSingle? (trim piece) with
    | none => cases values <;> simp
    | some value =>
      simp only [map_eq_ok_iff, ih]
      cases values <;> simp [and_comm]

/-- The first argument is refused, or it is a number and one behind it is refused. -/
theorem firstRefused_cons_iff {position place : Nat} {text piece : Text} {pieces : List Text} :
    FirstRefused position (piece :: pieces) place text ↔
      (¬IsNumber (trim piece) ∧ place = position ∧ text = trim piece) ∨
        IsNumber (trim piece) ∧
          FirstRefused (position + byteLength piece + 1) pieces place text := by
  constructor
  · rintro ⟨before, refused, behind, split, numbers, other, rfl, rfl⟩
    cases before with
    | nil =>
      obtain ⟨rfl, rfl⟩ := List.cons.inj split
      exact .inl ⟨other, rfl, rfl⟩
    | cons first before =>
      obtain ⟨rfl, rfl⟩ := List.cons.inj split
      obtain ⟨here, later⟩ := List.forall_mem_cons.mp numbers
      refine .inr ⟨here, before, refused, behind, rfl, later, other, rfl, ?_⟩
      rw [List.map_cons, List.sum_cons]
      omega
  · rintro (⟨other, rfl, rfl⟩ | ⟨here, before, refused, behind, rfl, later, other, rfl, rfl⟩)
    · exact ⟨[], piece, pieces, rfl, by simp, other, rfl, rfl⟩
    · refine ⟨piece :: before, refused, behind, rfl, List.forall_mem_cons.mpr ⟨here, later⟩, other,
        rfl, ?_⟩
      rw [List.map_cons, List.sum_cons]
      omega

/-- Arguments are refused at the first one that is no number. -/
theorem readParameters_eq_error_iff {symbol other : Char} {position place : Nat} {text : Text}
    {pieces : List Text} :
    readParameters symbol position pieces = .error (.invalidParameter other place text) ↔
      other = symbol ∧ FirstRefused position pieces place text := by
  induction pieces generalizing position with
  | nil => simp [readParameters, FirstRefused]
  | cons piece pieces ih =>
    rw [readParameters, firstRefused_cons_iff, ← isSome_readSingle?_iff]
    cases readSingle? (trim piece) with
    | none => simp [eq_comm]
    | some value => simp [map_eq_error_iff, ih]

/-- The values of arguments are finite if and only if the arguments are finite numbers. -/
theorem forall_isFinite_iff {pieces : List Text} {values : List Float32}
    (read : pieces.map (fun piece => readSingle? (trim piece)) = values.map some) :
    (∀ value ∈ values, value.isFinite = true) ↔ ∀ piece ∈ pieces, IsFiniteNumber (trim piece) := by
  induction pieces generalizing values with
  | nil => cases values <;> simp_all
  | cons piece pieces ih =>
    cases values with
    | nil => cases read
    | cons value values =>
      obtain ⟨here, later⟩ := List.cons.inj read
      rw [List.forall_mem_cons, List.forall_mem_cons, isFinite_iff_of_readSingle? here, ih later]

/-- The arguments of the list behind a symbol are its parameters. -/
theorem takeParameters_of_listsAt (symbol : Char) {position : Nat} {text : Text}
    {pieces : List Text} (lists : ListsAt position text pieces) :
    ∃ place, takeParameters symbol position text =
      (readParameters symbol (position + 1) pieces).map fun values => (some values, place) := by
  obtain ⟨contents, after, taken, found⟩ := lists
  refine ⟨(position + byteLength contents + 2, after), ?_⟩
  rw [takeParameters, taken]
  dsimp only
  rw [found]

/-- Parameters are taken from a list of arguments, if there is a list. -/
theorem takeParameters_cases (symbol : Char) (position : Nat) (text : Text) :
    takeParameters symbol position text = .error (.brackets position) ∨
      takeParameters symbol position text = .ok (none, position, text) ∨
        ∃ pieces, ListsAt position text pieces := by
  cases taken : ParameterList.take position text with
  | error fault =>
    refine .inl ?_
    rw [takeParameters, taken]
  | ok parts =>
    obtain ⟨_ | contents, after⟩ := parts
    · refine .inr (.inl ?_)
      rw [takeParameters, taken, (ParameterList.take_eq_none_iff.mp taken).2]
    · have balanced := (ParameterList.take_eq_some_iff.mp taken).2
      obtain ⟨pieces, _, found⟩ := ParameterList.arguments_of_balanced balanced
      exact .inr (.inr ⟨pieces, contents, after, taken, found _⟩)

/-- A parameter is refused if and only if it is the first argument of a list that is no number. -/
theorem takeParameters_eq_invalidParameter_iff {symbol other : Char} {position place : Nat}
    {text piece : Text} :
    takeParameters symbol position text = .error (.invalidParameter other place piece) ↔
      other = symbol ∧
        ∃ pieces, ListsAt position text pieces ∧ FirstRefused (position + 1) pieces place piece := by
  constructor
  · intro failed
    rcases takeParameters_cases symbol position text with unclosed | bare | ⟨pieces, lists⟩
    · rw [unclosed] at failed
      cases failed
    · rw [bare] at failed
      cases failed
    · obtain ⟨after, taken⟩ := takeParameters_of_listsAt symbol lists
      rw [taken, map_eq_error_iff, readParameters_eq_error_iff] at failed
      exact ⟨failed.1, pieces, lists, failed.2⟩
  · rintro ⟨rfl, pieces, lists, refused⟩
    obtain ⟨after, taken⟩ := takeParameters_of_listsAt other lists
    rw [taken, map_eq_error_iff, readParameters_eq_error_iff]
    exact ⟨rfl, refused⟩

/-! ## What is admitted -/

variable [Part π]

/-- On its way through a sequence an interpretation comes to a symbol at a byte offset that takes
numbers, and reads these arguments. -/
def ReadsAt (interpretation : Interpretation π) (sequence : Text) (symbol : Char) (position : Nat)
    (pieces : List Text) : Prop :=
  ∃ turtle rest, interpretation.Reaches sequence turtle position (symbol :: rest) ∧
    (interpretation.meanings.command symbol).TakesNumbers ∧
      ListsAt (position + symbol.utf8Size) rest pieces

/-- On its way through a sequence an interpretation comes to a symbol at a byte offset that draws a
part, and reads these arguments. -/
def DrawsAt (interpretation : Interpretation π) (sequence : Text) (position : Nat) (part : π)
    (pieces : List Text) : Prop :=
  ∃ turtle symbol index rest, interpretation.Reaches sequence turtle position (symbol :: rest) ∧
    interpretation.meanings.command symbol = .draw index ∧
      interpretation.parts[index]? = some part ∧ ListsAt (position + symbol.utf8Size) rest pieces

/-- The parameters that are drawn at a place are those of a list there, or there are none. -/
theorem DrawnAt.exists_pieces {position : Nat} {part : π} {parameters : List Float32}
    (drawn : interpretation.DrawnAt sequence position part parameters) :
    parameters = [] ∨ ∃ pieces, interpretation.DrawsAt sequence position part pieces ∧
      pieces.map (fun piece => readSingle? (trim piece)) = parameters.map some := by
  obtain ⟨_, turtle, symbol, rest, place, _, _, reached, does⟩ := drawn
  cases does with
  | @draw index part taken place meaning present read enough =>
    rcases takeParameters_cases symbol (position + symbol.utf8Size) rest with
      unclosed | bare | ⟨pieces, lists⟩
    · cases unclosed.symm.trans read
    · obtain ⟨rfl, _⟩ := Prod.mk.inj (Except.ok.inj (bare.symm.trans read))
      exact .inl rfl
    · obtain ⟨after, found⟩ := takeParameters_of_listsAt symbol lists
      obtain ⟨values, given, same⟩ := map_eq_ok_iff.mp (found.symm.trans read)
      obtain ⟨rfl, _⟩ := Prod.mk.inj same
      refine .inr ⟨pieces, ⟨turtle, symbol, index, rest, reached, meaning, present, lists⟩, ?_⟩
      exact readParameters_eq_ok_iff.mp given

/-- Every node of a tree is drawn somewhere in its sequence. -/
theorem exists_drawnAt_of_tree {tree : PartTree π} (grown : interpretation.tree sequence = .ok tree)
    {node : PartNode π} (among : node ∈ tree.nodes.toList) :
    ∃ position, interpretation.DrawnAt sequence position node.part node.parameters := by
  obtain ⟨final, _, _, rfl, reached⟩ := exists_reaches_of_tree grown
  obtain ⟨positions, -, -, drawn⟩ := exists_drawnAt_of_reaches reached
  replace drawn := List.forall₂_map_right_iff.mp drawn
  generalize final.tree.nodes.toList = nodes at among drawn
  induction drawn with
  | nil => cases among
  | cons here _ ih =>
    rcases List.mem_cons.mp among with rfl | later
    · exact ⟨_, here⟩
    · exact ih later

/-- A drawing symbol in front of a list does nothing but draw its part, with the arguments of the
list for parameters. -/
theorem Does.exists_spawn {symbol : Char} {position index : Nat} {rest : Text} {part : π}
    {pieces : List Text} {actions : List (TurtleAction π)} {place : Nat × Text}
    (does : interpretation.Does symbol position rest actions place)
    (meaning : interpretation.meanings.command symbol = .draw index)
    (present : interpretation.parts[index]? = some part)
    (lists : ListsAt (position + symbol.utf8Size) rest pieces) :
    ∃ values, actions = [.spawn part values] ∧
      pieces.map (fun piece => readSingle? (trim piece)) = values.map some := by
  obtain ⟨behind, found⟩ := takeParameters_of_listsAt symbol lists
  cases does with
  | draw meaning' present' taken _ =>
    obtain rfl := TurtleCommand.draw.inj (meaning.symm.trans meaning')
    obtain rfl := Option.some.inj (present.symm.trans present')
    obtain ⟨values, given, same⟩ := map_eq_ok_iff.mp (found.symm.trans taken)
    obtain ⟨rfl, _⟩ := Prod.mk.inj same
    exact ⟨values, rfl, readParameters_eq_ok_iff.mp given⟩
  | nothing meaning' absent _ =>
    obtain rfl := TurtleCommand.draw.inj (meaning.symm.trans meaning')
    cases present.symm.trans absent
  | rotate other _ => cases meaning.symm.trans other
  | push other => cases meaning.symm.trans other
  | pop other => cases meaning.symm.trans other
  | ignore other _ => cases meaning.symm.trans other

/-- If the walk goes on to the end, then the parameters that are read at a place where a part is
drawn are those of a node: no later action takes a node away. -/
theorem DrawsAt.exists_node {position : Nat} {part : π} {pieces : List Text} {tree : PartTree π}
    (draws : interpretation.DrawsAt sequence position part pieces)
    (grown : interpretation.tree sequence = .ok tree) :
    ∃ node ∈ tree.nodes.toList, node.part = part ∧
      pieces.map (fun piece => readSingle? (trim piece)) = node.parameters.map some := by
  obtain ⟨turtle, symbol, index, rest, reached, meaning, present, lists⟩ := draws
  obtain ⟨last, walked, rfl⟩ := map_eq_ok_iff.mp grown
  rw [finalTurtle_of_reaches reached, List.length_cons, walk] at walked
  obtain ⟨⟨next, place, after⟩, acted, walked⟩ := bind_eq_ok_iff.mp walked
  obtain ⟨actions, does, rfl⟩ := act_eq_ok_iff.mp acted
  obtain ⟨values, rfl, read⟩ := does.exists_spawn meaning present lists
  obtain ⟨more, rfl⟩ := exists_performAll_of_walk walked
  have first : (part, values, turtle.frame.transform) ∈
      (turtle.performAll [.spawn part values]).tree.contents := by
    show _ ∈ (turtle.spawn part values).tree.contents
    rw [Turtle.tree_spawn, PartTree.contents_add]
    exact List.mem_append_right _ (List.mem_singleton_self _)
  have kept := (Turtle.contents_performAll _ more).subset first
  obtain ⟨node, among, same⟩ := List.mem_map.mp kept
  obtain ⟨named, same⟩ := Prod.mk.inj same
  obtain ⟨drawn, _⟩ := Prod.mk.inj same
  exact ⟨node, among, named, by rw [read, drawn]⟩

/-- What an interpretation admits as numbers. If a sequence describes a tree, then all parameters of
its nodes are finite if and only if all arguments of the lists behind drawing symbols are finite
numbers. A parameter is reported as invalid if and only if it is the first argument, in a list that
a turning or a drawing symbol reads, that is neither a numeral nor one of the words for infinity and
for what is not a number; the report has its text without blanks and its place. -/
theorem tree_admits_numbers (interpretation : Interpretation π) (sequence : Text) :
    (∀ tree, interpretation.tree sequence = .ok tree →
      ((∀ node ∈ tree.nodes.toList, ∀ value ∈ node.parameters, value.isFinite = true) ↔
        ∀ position part pieces, interpretation.DrawsAt sequence position part pieces →
          ∀ piece ∈ pieces, IsFiniteNumber (trim piece))) ∧
      ∀ symbol place text,
        interpretation.tree sequence = .error (.invalidParameter symbol place text) ↔
          ∃ position pieces, interpretation.ReadsAt sequence symbol position pieces ∧
            FirstRefused (position + symbol.utf8Size + 1) pieces place text := by
  constructor
  · intro tree grown
    constructor
    · intro finite position part pieces draws
      obtain ⟨node, among, _, read⟩ := draws.exists_node grown
      exact (forall_isFinite_iff read).mp (finite node among)
    · intro texts node among
      obtain ⟨position, drawn⟩ := exists_drawnAt_of_tree grown among
      rcases drawn.exists_pieces with none | ⟨pieces, draws, read⟩
      · simp [none]
      · exact (forall_isFinite_iff read).mpr (texts position node.part pieces draws)
  · intro symbol place text
    rw [tree, map_eq_error_iff, finalTurtle_eq_error_iff]
    constructor
    · rintro ⟨turtle, position, other, rest, reached, failed⟩
      obtain ⟨numbers, refused⟩ := act_eq_invalidParameter_iff.mp failed
      obtain ⟨rfl, pieces, lists, first⟩ := takeParameters_eq_invalidParameter_iff.mp refused
      exact ⟨position, pieces, ⟨turtle, rest, reached, numbers, lists⟩, first⟩
    · rintro ⟨position, pieces, ⟨turtle, rest, reached, numbers, lists⟩, first⟩
      refine ⟨turtle, position, symbol, rest, reached, act_eq_invalidParameter_iff.mpr ⟨numbers, ?_⟩⟩
      exact takeParameters_eq_invalidParameter_iff.mpr ⟨rfl, pieces, lists, first⟩

/-- Numerals with a sign, with an exponent or with blanks around them are finite numbers, and a text
that is no number is reported with the place where its argument begins. -/
theorem tree_admits_numbers_of_dots :
    (∀ position part pieces, dots.DrawsAt "A( -1.5 ,2e3)".toList position part pieces →
      ∀ piece ∈ pieces, IsFiniteNumber (trim piece)) ∧
      ∃ position pieces, dots.ReadsAt "A(1, 0x2)".toList 'A' position pieces ∧
        FirstRefused (position + 2) pieces 4 "0x2".toList := by
  have kept : (dots.tree "A( -1.5 ,2e3)".toList).map (fun tree =>
      tree.nodes.toList.all fun node => node.parameters.all Float32.isFinite) = .ok true := by rfl
  obtain ⟨tree, grown, finite⟩ := map_eq_ok_iff.mp kept
  have refused : dots.tree "A(1, 0x2)".toList = .error (.invalidParameter 'A' 4 "0x2".toList) := by
    rfl
  constructor
  · refine ((tree_admits_numbers dots _).1 tree grown).mp fun node among => ?_
    exact List.all_eq_true.mp (List.all_eq_true.mp finite node among)
  · exact ((tree_admits_numbers dots _).2 'A' 4 _).mp refused

/-- The words and a numeral beyond all finite values are admitted, and none of the parameters is
finite. -/
theorem exists_tree_of_infinite_parameters :
    ∃ tree, dots.tree "A(inf,nan,1e39)".toList = .ok tree ∧
      tree.nodes.toList.map (fun node => node.parameters.map Float32.isFinite) =
        [[false, false, false]] := by
  have drawn : (dots.tree "A(inf,nan,1e39)".toList).map (fun tree =>
      tree.nodes.toList.map fun node => node.parameters.map Float32.isFinite) =
        .ok [[false, false, false]] := by rfl
  exact map_eq_ok_iff.mp drawn

end Interpretation

end Arbor
