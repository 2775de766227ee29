import Arbor.Decimal.Number
import Arbor.ParameterList
import Arbor.Text.Blank
import Arbor.Turtle.Meanings

/-!
# Turtle interpretations

An interpretation turns a sequence into a tree of parts and then into a mesh. It reads
the sequence from left to right: a turning or drawing symbol takes the parameter list
behind it, a branch symbol takes none, and a symbol without a meaning is skipped together
with its list. The parameters of a list are numbers in single precision, read without
the blanks beside them; those of a skipped list may be anything.
-/
namespace Arbor

/-- Why a sequence cannot be interpreted. Positions are byte offsets of the sequence. -/
inductive InterpretationError where
  /-- The parameter list that opens at this position does not end. -/
  | brackets (position : Nat)
  /-- A turning symbol has no parameter list. -/
  | missingParameters (symbol : Char) (position : Nat)
  /-- A parameter is no number. -/
  | invalidParameter (symbol : Char) (position : Nat) (text : Text)
  /-- A symbol has less parameters than it needs. -/
  | tooFewParameters (symbol : Char) (expected found : Nat)
  /-- Nothing was drawn. -/
  | emptyResult
  deriving DecidableEq, Repr

/-- The wording of a fault. -/
def InterpretationError.message : InterpretationError → String
  | .brackets position => s!"unbalanced brackets at position {position}"
  | .missingParameters symbol position =>
    s!"symbol '{symbol}' at position {position} requires a parameter list"
  | .invalidParameter symbol position text =>
    s!"symbol '{symbol}' at position {position} has a non-numeric parameter '{String.ofList text}'"
  | .tooFewParameters symbol expected found =>
    s!"symbol '{symbol}' needs {expected} parameter(s), got {found}"
  | .emptyResult => "no geometry produced"

/-- The meanings of symbols and what else it takes to grow a mesh. -/
structure Interpretation (π : Type) where
  meanings : Meanings
  /-- The parts of drawing symbols by number. -/
  parts : Array π
  /-- Material handles for the groups of a mesh in order. -/
  materials : List UInt8
  /-- The seed of parts that draw numbers, if it is fixed. -/
  seed : Option UInt64
  /-- The axis along which parts advance the turtle. -/
  growthAxis : Vec3

namespace Interpretation

variable {π : Type}

/-- No symbol means anything. -/
def empty (seed : Option UInt64) (growthAxis : Vec3) : Interpretation π :=
  ⟨.empty, #[], [], seed, growthAxis⟩

/-- Gives a symbol a meaning. -/
def assign (interpretation : Interpretation π) (symbol : Char) (command : TurtleCommand) :
    Interpretation π :=
  { interpretation with meanings := interpretation.meanings.assign symbol command }

/-- Makes a symbol draw a part. -/
def register (interpretation : Interpretation π) (symbol : Char) (part : π) :
    Interpretation π :=
  let index := interpretation.parts.size
  { interpretation with parts := interpretation.parts.push part }.assign symbol (.draw index)

/-- The symbols for turning and branching. -/
def standardSymbols : List (Char × TurtleCommand) :=
  [('X', .rotate .x), ('Y', .rotate .y), ('Z', .rotate .z), ('[', .push), (']', .pop)]

/-- Gives the symbols for turning and branching their meanings. -/
def withStandardSymbols (interpretation : Interpretation π) : Interpretation π :=
  standardSymbols.foldl (fun interpretation entry => interpretation.assign entry.1 entry.2)
    interpretation

/-- Adds a material handle behind the others. -/
def addMaterial (interpretation : Interpretation π) (material : UInt8) : Interpretation π :=
  { interpretation with materials := interpretation.materials ++ [material] }

/-! ## Reading parameters -/

/-- The numbers that the arguments of a list write, the first of which begins at
`position`. Blanks at the ends of an argument are left aside. -/
def readParameters (symbol : Char) (position : Nat) :
    List Text → Except InterpretationError (List Float32)
  | [] => .ok []
  | piece :: pieces =>
    let text := Text.trim piece
    match readSingle? text with
    | none => .error (.invalidParameter symbol position text)
    | some value =>
      (readParameters symbol (position + Text.byteLength piece + 1) pieces).map (value :: ·)

/-- Takes the parameter list at the start of a text: its parameters, if there is a list,
then the position and the text behind it. -/
def takeParameters (symbol : Char) (position : Nat) (text : Text) :
    Except InterpretationError (Option (List Float32) × Nat × Text) :=
  match ParameterList.take position text with
  | .error _ => .error (.brackets position)
  | .ok (none, rest) => .ok (none, position, rest)
  | .ok (some contents, rest) =>
    match ParameterList.arguments (position + 1) contents with
    | .error _ => .error (.brackets position)
    | .ok pieces =>
      (readParameters symbol (position + 1) pieces).map fun parameters =>
        (some parameters, position + Text.byteLength contents + 2, rest)

/-- Skips the parameter list at the start of a text, whatever it holds. -/
def skipParameters (position : Nat) (text : Text) : Except InterpretationError (Nat × Text) :=
  match ParameterList.take position text with
  | .error _ => .error (.brackets position)
  | .ok (none, rest) => .ok (position, rest)
  | .ok (some contents, rest) => .ok (position + Text.byteLength contents + 2, rest)

/-! ## Walking a sequence -/

/-- Does what a symbol at `position` means, whose parameter list is at the start of
`rest`; then the position and the text behind the symbol and what it took. -/
def act [Part π] (interpretation : Interpretation π) (turtle : Turtle π) (symbol : Char)
    (position : Nat) (rest : Text) : Except InterpretationError (Turtle π × Nat × Text) :=
  let behind := position + symbol.utf8Size
  match interpretation.meanings.command symbol with
  | .rotate axis => do
    let (parameters, place) ← takeParameters symbol behind rest
    match parameters with
    | none => .error (.missingParameters symbol position)
    | some [] => .error (.tooFewParameters symbol 1 0)
    | some (angle :: _) => .ok (turtle.rotate axis angle, place)
  | .draw index => do
    let (parameters, place) ← takeParameters symbol behind rest
    match interpretation.parts[index]? with
    | none => .ok (turtle, place)
    | some part =>
      let parameters := parameters.getD []
      if parameters.length < Part.arity part then
        .error (.tooFewParameters symbol (Part.arity part) parameters.length)
      else
        .ok (turtle.spawn part parameters, place)
  | .push => .ok (turtle.save, behind, rest)
  | .pop => .ok (turtle.restore, behind, rest)
  | .ignore => (skipParameters behind rest).map fun place => (turtle, place)

/-- Acts on the symbols of a text that begins at `position`, at most `count` of them. -/
def walk [Part π] (interpretation : Interpretation π) :
    Nat → Turtle π → Nat → Text → Except InterpretationError (Turtle π)
  | 0, turtle, _, _ => .ok turtle
  | _, turtle, _, [] => .ok turtle
  | count + 1, turtle, position, symbol :: rest => do
    let (turtle, position, rest) ← interpretation.act turtle symbol position rest
    walk interpretation count turtle position rest

/-- The turtle behind a whole sequence. Every symbol takes at least one character, so the
sequence is walked to its end. -/
def finalTurtle [Part π] (interpretation : Interpretation π) (sequence : Text) :
    Except InterpretationError (Turtle π) :=
  interpretation.walk sequence.length (.start interpretation.growthAxis) 0 sequence

/-- The tree that a sequence describes. -/
def tree [Part π] (interpretation : Interpretation π) (sequence : Text) :
    Except InterpretationError (PartTree π) :=
  (interpretation.finalTurtle sequence).map Turtle.tree

/-- The mesh that a sequence describes. Parts draw their numbers from the seed or, if
there is none, from the generator that the caller provides; there is no answer when a
number had to be drawn that does not exist. -/
def mesh [Part π] (interpretation : Interpretation π) (fresh : Generator) (sequence : Text) :
    Option (Except InterpretationError Mesh) :=
  match interpretation.tree sequence with
  | .error fault => some (.error fault)
  | .ok tree =>
    if tree.isEmpty then
      some (.error .emptyResult)
    else
      let generator := (interpretation.seed.map Generator.ofSeed).getD fresh
      (tree.emit.run generator).map fun (mesh, _) =>
        .ok { mesh with materials := interpretation.materials }

end Interpretation

end Arbor
