import Arbor.Mesh.Marker
import Arbor.Turtle.Interpretation

/-!
# Dispatch tables

The meanings of symbols can be kept in two pieces: a table that numbers names, and a row of commands
by number. A symbol that gets a meaning is numbered first, and the row grows until it reaches the
number. A symbol that cannot be numbered, because the table of names is full, gets no meaning.

Of the table of names nothing is known but what it promises. A name keeps its number, different
names have different numbers, a new name gets the number of names that are there, and none is
refused before the table is full. This is enough for the two pieces to be the map from symbols to
commands that interpretations have: the command of a symbol is the one it was given last, if it was
among the first symbols that were given one, as many as have room.
-/
namespace Arbor

/-! ## Tables of names -/

/-- Operations on a table that numbers names. -/
structure Interner (σ : Type) where
  empty : σ
  /-- The number of a name, which it gets now if it has none and there is room, and the table
  behind. -/
  intern : σ → Text → Option Nat × σ
  /-- The number of a name, if it has one. -/
  resolve : σ → Text → Option Nat
  /-- How many names have a number. -/
  count : σ → Nat

namespace Interner

variable {σ : Type} {interner : Interner σ} {names : σ}

/-- Tables that come about by numbering names. -/
inductive Reached (interner : Interner σ) : σ → Prop where
  | empty : Reached interner interner.empty
  | intern {names : σ} (before : Reached interner names) (name : Text) :
      Reached interner (interner.intern names name).2

/-- Two tables give the same numbers. -/
structure Agree (interner : Interner σ) (names others : σ) : Prop where
  count : interner.count others = interner.count names
  resolve : ∀ name, interner.resolve others name = interner.resolve names name

/-- What a table of names promises. -/
structure Lawful (interner : Interner σ) : Prop where
  count_empty : interner.count interner.empty = 0
  resolve_empty : ∀ name, interner.resolve interner.empty name = none
  /-- A name keeps its number. -/
  known : ∀ {names : σ}, interner.Reached names → ∀ {name : Text} {place : Nat},
    interner.resolve names name = some place →
      (interner.intern names name).1 = some place ∧
        interner.Agree names (interner.intern names name).2
  /-- A new name gets the next number if there is room. -/
  fresh : ∀ {names : σ}, interner.Reached names → ∀ {name : Text},
    interner.resolve names name = none → interner.count names < Meanings.capacity →
      (interner.intern names name).1 = some (interner.count names) ∧
        interner.count (interner.intern names name).2 = interner.count names + 1 ∧
        ∀ other, interner.resolve (interner.intern names name).2 other =
          if other = name then some (interner.count names) else interner.resolve names other
  /-- A new name is refused if there is no room. -/
  full : ∀ {names : σ}, interner.Reached names → ∀ {name : Text},
    interner.resolve names name = none → Meanings.capacity ≤ interner.count names →
      (interner.intern names name).1 = none ∧
        interner.Agree names (interner.intern names name).2

/-- What comes of numbering a name: it gets a number that no other name has and changes no others, or
it is refused and changes nothing. -/
inductive Interned (interner : Interner σ) (names : σ) (name : Text) : Option Nat × σ → Prop where
  | given {place : Nat} {after : σ}
      (resolve : ∀ other, interner.resolve after other =
        if other = name then some place else interner.resolve names other)
      (others : ∀ other, other ≠ name → interner.resolve names other ≠ some place)
      (count : interner.count after =
        interner.count names + if (interner.resolve names name).isSome then 0 else 1)
      (room : (interner.resolve names name).isSome ∨ interner.count names < Meanings.capacity) :
      Interned interner names name (some place, after)
  | refused {after : σ} (agree : interner.Agree names after)
      (absent : interner.resolve names name = none)
      (full : Meanings.capacity ≤ interner.count names) :
      Interned interner names name (none, after)

/-- Numbers are below the number of names, and different names have different ones. -/
structure Numbered (interner : Interner σ) (names : σ) : Prop where
  below : ∀ {name : Text} {place : Nat}, interner.resolve names name = some place →
    place < interner.count names
  injective : ∀ {first second : Text} {place : Nat}, interner.resolve names first = some place →
    interner.resolve names second = some place → first = second

namespace Numbered

variable {others : σ}

/-- Tables that give the same numbers are numbered alike. -/
theorem of_agree (numbered : interner.Numbered names) (agree : interner.Agree names others) :
    interner.Numbered others where
  below there := by
    rw [agree.resolve] at there
    rw [agree.count]
    exact numbered.below there
  injective one two := by
    rw [agree.resolve] at one two
    exact numbered.injective one two

/-- A new name may have the next number, which none of the others has. -/
theorem of_fresh (numbered : interner.Numbered names) {name : Text}
    (larger : interner.count others = interner.count names + 1)
    (resolve : ∀ other, interner.resolve others other =
      if other = name then some (interner.count names) else interner.resolve names other) :
    interner.Numbered others where
  below {other place} there := by
    rw [resolve] at there
    rw [larger]
    split at there
    · cases there
      exact Nat.lt_succ_self _
    · exact Nat.lt_succ_of_lt (numbered.below there)
  injective {first second place} one two := by
    rw [resolve] at one two
    have old {other : Text} (there : interner.resolve names other = some place) :
        place ≠ interner.count names := Nat.ne_of_lt (numbered.below there)
    split at one <;> split at two
    · next same also => rw [same, also]
    · exact absurd (Option.some.inj one).symm (old two)
    · exact absurd (Option.some.inj two).symm (old one)
    · exact numbered.injective one two

end Numbered

namespace Lawful

/-- The names of a table that is reached are numbered. -/
theorem numbered (lawful : interner.Lawful) (reached : interner.Reached names) :
    interner.Numbered names := by
  induction reached with
  | empty => constructor <;> simp [lawful.resolve_empty]
  | @intern names before name ih =>
    cases found : interner.resolve names name with
    | some place => exact ih.of_agree (lawful.known before found).2
    | none =>
      by_cases room : interner.count names < Meanings.capacity
      · obtain ⟨_, larger, resolve⟩ := lawful.fresh before found room
        exact ih.of_fresh larger resolve
      · exact ih.of_agree (lawful.full before found (Nat.le_of_not_lt room)).2

/-- A name gets a number or is refused. -/
theorem interned (lawful : interner.Lawful) (reached : interner.Reached names) (name : Text) :
    interner.Interned names name (interner.intern names name) := by
  have numbered := lawful.numbered reached
  rcases result : interner.intern names name with ⟨place?, after⟩
  cases found : interner.resolve names name with
  | some place =>
    have kept := lawful.known reached found
    simp only [result] at kept
    obtain ⟨rfl, agree⟩ := kept
    refine .given (fun other => ?_) ?_ ?_ (.inl (by rw [found]; rfl))
    · rw [agree.resolve]
      split
      · next same => rw [same, found]
      · rfl
    · intro other different taken
      exact different (numbered.injective taken found)
    · rw [agree.count, found]
      rfl
  | none =>
    by_cases room : interner.count names < Meanings.capacity
    · have grown := lawful.fresh reached found room
      simp only [result] at grown
      obtain ⟨rfl, larger, resolve⟩ := grown
      refine .given resolve (fun other _ taken => ?_) (by rw [larger, found]; rfl) (.inr room)
      exact Nat.lt_irrefl _ (numbered.below taken)
    · have full := Nat.le_of_not_lt room
      have kept := lawful.full reached found full
      simp only [result] at kept
      obtain ⟨rfl, agree⟩ := kept
      exact .refused agree found full

end Lawful

/-- The table of names that lists them. -/
def listed : Interner (List Text) where
  empty := []
  intern names name :=
    match names.idxOf? name with
    | some place => (some place, names)
    | none =>
      if names.length < Meanings.capacity then (some names.length, names ++ [name])
      else (none, names)
  resolve names name := names.idxOf? name
  count := List.length

/-- A list of names keeps what a table of names promises. -/
theorem lawful_listed : listed.Lawful where
  count_empty := rfl
  resolve_empty _ := rfl
  known {names} _ {name place} found := by
    have found : names.idxOf? name = some place := found
    simp only [listed, found]
    exact ⟨trivial, rfl, fun _ => rfl⟩
  fresh {names} _ {name} absent room := by
    have absent : names.idxOf? name = none := absent
    have room : names.length < Meanings.capacity := room
    simp only [listed, absent, if_pos room]
    refine ⟨trivial, by simp, fun other => ?_⟩
    by_cases same : other = name
    · have nowhere : names.findIdx? (· == name) = none := absent
      simp [same, List.idxOf?, List.findIdx?_append, nowhere]
    · simp [same, List.idxOf?, List.findIdx?_append, Ne.symm same]
  full {names} _ {name} absent full := by
    have absent : names.idxOf? name = none := absent
    have full : ¬ names.length < Meanings.capacity := Nat.not_lt.mpr full
    simp only [listed, absent, if_neg full]
    exact ⟨trivial, rfl, fun _ => rfl⟩

end Interner

/-! ## The two pieces -/

/-- A table of names, the commands by the numbers of names, and the parts that symbols draw. -/
structure DispatchTable (σ π : Type) where
  names : σ
  commands : Array TurtleCommand
  parts : Array π

/-- A change of the meanings of symbols. -/
inductive DispatchChange (π : Type) where
  /-- A symbol gets a meaning. -/
  | assign (symbol : Char) (command : TurtleCommand)
  /-- A symbol draws a new part. -/
  | register (symbol : Char) (part : π)
  /-- The symbols for turning and branching get theirs. -/
  | standard

/-- Puts a command at a place of a row, which is filled up with commands that do nothing if it does
not reach that far. -/
def putCommand (commands : Array TurtleCommand) (place : Nat) (command : TurtleCommand) :
    Array TurtleCommand :=
  (commands ++ Array.replicate (place + 1 - commands.size) TurtleCommand.ignore).setIfInBounds place command

/-- A command stands at its place, and elsewhere nothing changes. -/
theorem getD_putCommand (commands : Array TurtleCommand) (place other : Nat)
    (command : TurtleCommand) :
    (putCommand commands place command)[other]?.getD .ignore =
      if other = place then command else commands[other]?.getD .ignore := by
  grind [putCommand]

namespace DispatchTable

variable {σ π : Type}

/-- The table without meanings. -/
def empty (interner : Interner σ) : DispatchTable σ π :=
  ⟨interner.empty, #[], #[]⟩

/-- Gives a symbol a meaning, if it can be numbered. -/
def assign (interner : Interner σ) (table : DispatchTable σ π) (symbol : Char)
    (command : TurtleCommand) : DispatchTable σ π :=
  match interner.intern table.names [symbol] with
  | (none, names) => { table with names }
  | (some place, names) =>
    { table with names, commands := putCommand table.commands place command }

/-- Makes a symbol draw a part. -/
def register (interner : Interner σ) (table : DispatchTable σ π) (symbol : Char) (part : π) :
    DispatchTable σ π :=
  assign interner { table with parts := table.parts.push part } symbol (.draw table.parts.size)

/-- Gives the symbols for turning and branching their meanings. -/
def withStandardSymbols (interner : Interner σ) (table : DispatchTable σ π) : DispatchTable σ π :=
  Interpretation.standardSymbols.foldl (fun table entry => assign interner table entry.1 entry.2)
    table

/-- Makes a change. -/
def change (interner : Interner σ) (table : DispatchTable σ π) :
    DispatchChange π → DispatchTable σ π
  | .assign symbol command => assign interner table symbol command
  | .register symbol part => register interner table symbol part
  | .standard => withStandardSymbols interner table

/-- Makes changes one after the other. -/
def changeAll (interner : Interner σ) (table : DispatchTable σ π)
    (history : List (DispatchChange π)) : DispatchTable σ π :=
  history.foldl (change interner) table

/-- The command at the number of a symbol, which is to do nothing if there is none. -/
def command (interner : Interner σ) (table : DispatchTable σ π) (symbol : Char) : TurtleCommand :=
  ((interner.resolve table.names [symbol]).bind fun place => table.commands[place]?).getD .ignore

end DispatchTable

namespace Interpretation

variable {π : Type}

/-- Makes a change. -/
def change (interpretation : Interpretation π) : DispatchChange π → Interpretation π
  | .assign symbol command => interpretation.assign symbol command
  | .register symbol part => interpretation.register symbol part
  | .standard => interpretation.withStandardSymbols

/-- Makes changes one after the other. -/
def changeAll (interpretation : Interpretation π) (history : List (DispatchChange π)) :
    Interpretation π :=
  history.foldl change interpretation

end Interpretation

/-! ## The pieces are a map -/

/-- A table of names and a row of commands hold the meanings of an interpretation, and the same
parts. -/
structure DispatchTable.Represents {σ π : Type} (interner : Interner σ) (table : DispatchTable σ π)
    (interpretation : Interpretation π) : Prop where
  reached : interner.Reached table.names
  parts : table.parts = interpretation.parts
  count : interner.count table.names = interpretation.meanings.commands.size
  known : ∀ symbol, (interner.resolve table.names [symbol]).isSome =
    interpretation.meanings.commands.contains symbol
  command : ∀ symbol, DispatchTable.command interner table symbol =
    interpretation.meanings.command symbol

namespace DispatchTable

variable {σ π : Type} {interner : Interner σ} {table : DispatchTable σ π}
  {interpretation : Interpretation π}

/-- A table without meanings holds none. -/
theorem represents_empty (lawful : interner.Lawful) (seed : Option UInt64) (growthAxis : Vec3) :
    Represents interner (empty interner : DispatchTable σ π) (.empty seed growthAxis) where
  reached := .empty
  parts := rfl
  count := lawful.count_empty
  known symbol := by
    rw [empty, lawful.resolve_empty]
    rfl
  command symbol := by
    rw [command, empty, lawful.resolve_empty]
    rfl

namespace Represents

variable {names : σ} {symbol : Char} {command : TurtleCommand}

/-- A symbol with a number has its command at that number, and no other symbol does. -/
theorem given (held : Represents interner table interpretation) (reached : interner.Reached names)
    {place : Nat} (resolve : ∀ other, interner.resolve names other =
      if other = [symbol] then some place else interner.resolve table.names other)
    (others : ∀ other, other ≠ [symbol] → interner.resolve table.names other ≠ some place)
    (count : interner.count names = interner.count table.names +
      if (interner.resolve table.names [symbol]).isSome then 0 else 1)
    (room : (interner.resolve table.names [symbol]).isSome ∨
      interner.count table.names < Meanings.capacity) :
    Represents interner
      { table with names, commands := putCommand table.commands place command }
      (interpretation.assign symbol command) := by
  have taken : (interpretation.assign symbol command).meanings.commands =
      interpretation.meanings.commands.insert symbol command := by
    rw [held.known, held.count] at room
    rw [Interpretation.assign, Meanings.assign, if_pos (by simpa using room)]
  have named (other : Char) : interner.resolve names [other] =
      if other = symbol then some place else interner.resolve table.names [other] := by
    rw [resolve]
    simp
  constructor
  · exact reached
  · exact held.parts
  · rw [taken, Std.TreeMap.size_insert, count, held.count, held.known]
    split <;> rfl
  · intro other
    rw [taken, named, Std.TreeMap.contains_insert, ← held.known]
    grind
  · intro other
    have before := held.command other
    rw [DispatchTable.command, Meanings.command] at before ⊢
    rw [taken, Std.TreeMap.getD_insert, named]
    by_cases same : other = symbol
    · simp [same, getD_putCommand]
    · have elsewhere := others [other] (by simpa using same)
      rw [if_neg same, if_neg (by simpa using fun equal => same equal.symm), ← before]
      cases found : interner.resolve table.names [other] with
      | none => rfl
      | some there =>
        have different : there ≠ place := fun equal => elsewhere (equal ▸ found)
        simp [getD_putCommand, different]

/-- A symbol without room leaves everything as it is. -/
theorem refused (held : Represents interner table interpretation)
    (reached : interner.Reached names) (agree : interner.Agree table.names names)
    (absent : interner.resolve table.names [symbol] = none)
    (full : Meanings.capacity ≤ interner.count table.names) :
    Represents interner { table with names } (interpretation.assign symbol command) := by
  have dropped : interpretation.assign symbol command = interpretation := by
    have unknown : interpretation.meanings.commands.contains symbol = false := by
      rw [← held.known, absent]
      rfl
    rw [held.count] at full
    rw [Interpretation.assign, Meanings.assign, unknown, if_neg (by simpa using full)]
  rw [dropped]
  constructor
  · exact reached
  · exact held.parts
  · rw [← held.count]
    exact agree.count
  · intro other
    rw [← held.known, agree.resolve]
  · intro other
    rw [← held.command, DispatchTable.command, agree.resolve]
    rfl

/-- The same is held when a symbol gets a meaning. -/
theorem assign (held : Represents interner table interpretation) (lawful : interner.Lawful)
    (symbol : Char) (command : TurtleCommand) :
    Represents interner (table.assign interner symbol command)
      (interpretation.assign symbol command) := by
  have reached : interner.Reached (interner.intern table.names [symbol]).2 :=
    .intern held.reached [symbol]
  have interned := lawful.interned held.reached [symbol]
  rw [DispatchTable.assign]
  generalize interner.intern table.names [symbol] = result at interned reached
  cases interned with
  | given resolve others count room => exact held.given reached resolve others count room
  | refused agree absent full => exact held.refused reached agree absent full

/-- The same is held when a symbol draws a new part, which is there even if the symbol is
refused. -/
theorem register (held : Represents interner table interpretation) (lawful : interner.Lawful)
    (symbol : Char) (part : π) :
    Represents interner (table.register interner symbol part)
      (interpretation.register symbol part) := by
  have pushed : Represents interner { table with parts := interpretation.parts.push part }
      { interpretation with parts := interpretation.parts.push part } :=
    ⟨held.reached, rfl, held.count, held.known, held.command⟩
  rw [DispatchTable.register, Interpretation.register, held.parts]
  exact pushed.assign lawful symbol _

/-- The same is held behind a change. -/
theorem change (held : Represents interner table interpretation) (lawful : interner.Lawful)
    (change : DispatchChange π) :
    Represents interner (table.change interner change) (interpretation.change change) := by
  cases change with
  | assign symbol command => exact held.assign lawful symbol command
  | register symbol part => exact held.register lawful symbol part
  | standard =>
    rw [DispatchTable.change, Interpretation.change, withStandardSymbols,
      Interpretation.withStandardSymbols]
    generalize Interpretation.standardSymbols = entries
    induction entries generalizing table interpretation with
    | nil => exact held
    | cons entry entries ih => exact ih (held.assign lawful entry.1 entry.2)

/-- The same is held behind changes. -/
theorem changeAll (held : Represents interner table interpretation) (lawful : interner.Lawful)
    (history : List (DispatchChange π)) :
    Represents interner (table.changeAll interner history) (interpretation.changeAll history) := by
  induction history generalizing table interpretation with
  | nil => exact held
  | cons first history ih => exact ih (held.change lawful first)

end Represents

end DispatchTable

/-! ## What was assigned -/

/-- The meanings that a change assigns, when a number of parts is there. -/
def DispatchChange.assignments {π : Type} (parts : Nat) :
    DispatchChange π → List (Char × TurtleCommand)
  | .assign symbol command => [(symbol, command)]
  | .register symbol _ => [(symbol, .draw parts)]
  | .standard => Interpretation.standardSymbols

/-- The part that a change brings. -/
def DispatchChange.part? {π : Type} : DispatchChange π → Option π
  | .register _ part => some part
  | _ => none

/-- The meanings that changes assign in order, when a number of parts is there at the start. -/
def assignments {π : Type} (parts : Nat) : List (DispatchChange π) → List (Char × TurtleCommand)
  | [] => []
  | change :: history =>
    change.assignments parts ++ assignments (parts + change.part?.toList.length) history

namespace Meanings

variable {assigned : List (Char × TurtleCommand)}

/-- Assigns meanings one after the other. -/
def assignAll (meanings : Meanings) (assigned : List (Char × TurtleCommand)) : Meanings :=
  assigned.foldl (fun meanings entry => meanings.assign entry.1 entry.2) meanings

/-- The symbols with a meaning: those that were given one first, as many as have room. -/
def known (assigned : List (Char × TurtleCommand)) : List Char :=
  (assigned.map Prod.fst).eraseDups.take capacity

/-- The meaning that a symbol was given last. -/
def latest (assigned : List (Char × TurtleCommand)) (symbol : Char) : Option TurtleCommand :=
  assigned.reverse.lookup symbol

/-- The meaning of a symbol behind assignments. -/
def meaning (assigned : List (Char × TurtleCommand)) (symbol : Char) : TurtleCommand :=
  if symbol ∈ known assigned then (latest assigned symbol).getD .ignore else .ignore

/-- A further symbol comes last, if it is not there yet. -/
theorem eraseDups_concat (symbols : List Char) (symbol : Char) :
    (symbols ++ [symbol]).eraseDups =
      symbols.eraseDups ++ if symbol ∈ symbols then [] else [symbol] := by
  rw [List.eraseDups_append]
  by_cases present : symbol ∈ symbols
  · simp [present, List.removeAll]
  · simp [present, List.removeAll, List.eraseDups_cons]

/-- A symbol becomes known if there is room. -/
theorem known_concat (assigned : List (Char × TurtleCommand)) (entry : Char × TurtleCommand) :
    known (assigned ++ [entry]) =
      if entry.1 ∈ known assigned ∨ capacity ≤ (known assigned).length then known assigned
      else known assigned ++ [entry.1] := by
  have length : (known assigned).length =
      min capacity (assigned.map Prod.fst).eraseDups.length := List.length_take
  rw [known, List.map_append, List.map_cons, List.map_nil, eraseDups_concat, List.take_append,
    ← known]
  by_cases full : capacity ≤ (assigned.map Prod.fst).eraseDups.length
  · simp [length, full]
  · have all : known assigned = (assigned.map Prod.fst).eraseDups :=
      List.take_of_length_le (by omega)
    have room : 0 < capacity - (assigned.map Prod.fst).eraseDups.length := by omega
    simp only [all, List.mem_eraseDups, full, or_false]
    split
    · rw [List.take_nil, List.append_nil]
    · rw [List.take_of_length_le room]

/-- What a table holds behind assignments. -/
structure Holds (assigned : List (Char × TurtleCommand)) (meanings : Meanings) : Prop where
  size : meanings.commands.size = (known assigned).length
  known : ∀ symbol, meanings.commands.contains symbol = true ↔ symbol ∈ known assigned
  latest : ∀ symbol ∈ Meanings.known assigned, meanings.commands[symbol]? = latest assigned symbol

/-- An empty table holds nothing. -/
theorem holds_empty : Holds [] empty where
  size := rfl
  known := by simp [known, empty]
  latest := by simp [known]

/-- Another symbol keeps its latest meaning. -/
theorem latest_concat (assigned : List (Char × TurtleCommand)) (entry : Char × TurtleCommand)
    (symbol : Char) : latest (assigned ++ [entry]) symbol =
      if symbol = entry.1 then some entry.2 else latest assigned symbol := by
  rw [latest, List.reverse_append, List.reverse_singleton, List.singleton_append, List.lookup_cons]
  by_cases same : symbol = entry.1
  · simp [same]
  · simp [same, latest, beq_false_of_ne same]

/-- An assignment reaches its symbol, if that is known or if there is room, and no other one. -/
theorem meaning_concat (assigned : List (Char × TurtleCommand)) (entry : Char × TurtleCommand)
    (symbol : Char) : meaning (assigned ++ [entry]) symbol =
      if symbol = entry.1 then
        if entry.1 ∈ known assigned ∨ (known assigned).length < capacity then entry.2 else .ignore
      else meaning assigned symbol := by
  rw [meaning, meaning, known_concat, latest_concat]
  grind

/-- A table holds one more assignment, or it drops it, because it is full of other symbols. -/
theorem Holds.assign {meanings : Meanings} (holds : Holds assigned meanings)
    (entry : Char × TurtleCommand) :
    Holds (assigned ++ [entry]) (meanings.assign entry.1 entry.2) := by
  have condition : (meanings.commands.contains entry.1 || meanings.commands.size < capacity) =
      true ↔ entry.1 ∈ Meanings.known assigned ∨ (Meanings.known assigned).length < capacity := by
    rw [Bool.or_eq_true, decide_eq_true_eq, holds.known, holds.size]
  by_cases taken : entry.1 ∈ Meanings.known assigned ∨ (Meanings.known assigned).length < capacity
  · rw [Meanings.assign, if_pos (condition.mpr taken)]
    constructor
    · rw [Std.TreeMap.size_insert, known_concat, holds.size]
      grind [holds.known entry.1]
    · intro symbol
      rw [Std.TreeMap.contains_insert, known_concat]
      grind [holds.known symbol]
    · intro symbol among
      rw [Std.TreeMap.getElem?_insert, latest_concat]
      grind [holds.latest symbol, known_concat]
  · rw [Meanings.assign, if_neg fun fits => taken (condition.mp fits)]
    have same : Meanings.known (assigned ++ [entry]) = Meanings.known assigned := by
      rw [known_concat, if_pos (by omega)]
    constructor
    · rw [same, holds.size]
    · simpa only [same] using holds.known
    · intro symbol among
      rw [same] at among
      have other : symbol ≠ entry.1 := fun equal => taken (.inl (equal ▸ among))
      rw [latest_concat, if_neg other, holds.latest symbol among]

/-- A table holds what is assigned to it. -/
theorem Holds.assignAll {meanings : Meanings} (holds : Holds assigned meanings)
    (more : List (Char × TurtleCommand)) : Holds (assigned ++ more) (meanings.assignAll more) := by
  induction more generalizing assigned meanings with
  | nil =>
    rw [List.append_nil]
    exact holds
  | cons entry more ih =>
    rw [List.append_cons]
    exact ih (holds.assign entry)

/-- The command of a symbol is its meaning. -/
theorem Holds.command {meanings : Meanings} (holds : Holds assigned meanings) (symbol : Char) :
    meanings.command symbol = meaning assigned symbol := by
  rw [Meanings.command, meaning, Std.TreeMap.getD_eq_getD_getElem?]
  split
  · next among => rw [holds.latest symbol among]
  · next absent =>
    rw [← holds.known, Std.TreeMap.contains_eq_isSome_getElem?] at absent
    rw [Option.not_isSome_iff_eq_none.mp absent, Option.getD_none]

end Meanings

/-! ## Histories -/

namespace Interpretation

variable {π : Type}

/-- A change assigns its meanings. -/
theorem meanings_change (interpretation : Interpretation π) (change : DispatchChange π) :
    (interpretation.change change).meanings =
      interpretation.meanings.assignAll (change.assignments interpretation.parts.size) := by
  cases change <;> rfl

/-- A change brings its part. -/
theorem parts_change (interpretation : Interpretation π) (change : DispatchChange π) :
    (interpretation.change change).parts = interpretation.parts ++ change.part?.toArray := by
  cases change <;> rfl

/-- Changes assign their meanings and bring their parts one after the other. -/
theorem changeAll_eq (interpretation : Interpretation π) (history : List (DispatchChange π)) :
    (interpretation.changeAll history).meanings =
        interpretation.meanings.assignAll (assignments interpretation.parts.size history) ∧
      (interpretation.changeAll history).parts.toList =
        interpretation.parts.toList ++ history.filterMap DispatchChange.part? := by
  induction history generalizing interpretation with
  | nil => simp [changeAll, assignments, Meanings.assignAll]
  | cons change history ih =>
    obtain ⟨meanings, parts⟩ := ih (interpretation.change change)
    constructor
    · rw [changeAll, List.foldl_cons, ← changeAll, meanings, meanings_change, parts_change,
        Array.size_append, assignments, Meanings.assignAll, Meanings.assignAll, Meanings.assignAll,
        List.foldl_append]
      cases change <;> rfl
    · rw [changeAll, List.foldl_cons, ← changeAll, parts, parts_change]
      cases change <;> simp [DispatchChange.part?, List.filterMap_cons]

end Interpretation

namespace DispatchTable

variable {σ π : Type} {interner : Interner σ}

/-- Behind any history of changes, the command of a symbol is the one that was assigned to it last,
if it was among the first symbols that were given one, as many as have room, and otherwise to do
nothing. A further command reaches its own symbol, if that is known or if there is room, and no
other one. The parts are those that were brought, also for symbols that were refused. The pieces say
the same as the interpretation behind the same history. -/
theorem command_of_history (lawful : interner.Lawful) (history : List (DispatchChange π)) :
    let table := (empty interner : DispatchTable σ π).changeAll interner history
    let assigned := assignments 0 history
    (∀ symbol, table.command interner symbol = Meanings.meaning assigned symbol) ∧
      (∀ symbol command,
        (table.assign interner symbol command).command interner symbol =
            (if symbol ∈ Meanings.known assigned ∨
              (Meanings.known assigned).length < Meanings.capacity then command else .ignore) ∧
          ∀ other, other ≠ symbol →
            (table.assign interner symbol command).command interner other =
              table.command interner other) ∧
      table.parts.toList = history.filterMap DispatchChange.part? ∧
      ∀ seed growthAxis, let interpretation :=
          (Interpretation.empty seed growthAxis).changeAll history
        table.parts = interpretation.parts ∧
          ∀ symbol, table.command interner symbol = interpretation.meanings.command symbol := by
  intro table assigned
  have represents (seed : Option UInt64) (growthAxis : Vec3) : Represents interner table
      ((Interpretation.empty seed growthAxis).changeAll history) :=
    (represents_empty lawful seed growthAxis).changeAll lawful history
  have holds (seed : Option UInt64) (growthAxis : Vec3) : Meanings.Holds assigned
      ((Interpretation.empty seed growthAxis : Interpretation π).changeAll history).meanings := by
    rw [(Interpretation.changeAll_eq _ history).1]
    exact Meanings.holds_empty.assignAll assigned
  have held := represents none .unitY
  have commands (symbol : Char) : table.command interner symbol =
      Meanings.meaning assigned symbol := by
    rw [held.command, (holds none .unitY).command]
  have further (symbol other : Char) (command : TurtleCommand) :
      (table.assign interner symbol command).command interner other =
        Meanings.meaning (assigned ++ [(symbol, command)]) other := by
    rw [(held.assign lawful symbol command).command]
    exact ((holds none .unitY).assign (symbol, command)).command other
  refine ⟨commands, fun symbol command => ⟨?_, fun other different => ?_⟩, ?_, fun seed axis => ?_⟩
  · rw [further, Meanings.meaning_concat, if_pos rfl]
  · rw [further, Meanings.meaning_concat, if_neg different, commands]
  · rw [held.parts, (Interpretation.changeAll_eq _ history).2]
    rfl
  · exact ⟨(represents seed axis).parts, (represents seed axis).command⟩

/-- A part is drawn by its symbol, a symbol for turning can be made to do nothing, and a symbol that
was given no meaning does nothing. -/
theorem command_of_history_listed :
    Interner.listed.Lawful ∧
      let table := (empty Interner.listed : DispatchTable (List Text) Marker).changeAll
        Interner.listed [.standard, .register 'D' .dot, .assign 'X' .ignore]
      table.command Interner.listed 'D' = .draw 0 ∧ table.command Interner.listed '[' = .push ∧
        table.command Interner.listed 'X' = .ignore ∧ table.command Interner.listed 'é' = .ignore ∧
        table.parts.toList = [.dot] := by
  have said := command_of_history Interner.lawful_listed
    [.standard, .register 'D' Marker.dot, .assign 'X' .ignore]
  exact ⟨Interner.lawful_listed, (said.1 'D').trans (by decide), (said.1 '[').trans (by decide),
    (said.1 'X').trans (by decide), (said.1 'é').trans (by decide), said.2.2.1⟩

end DispatchTable

end Arbor
