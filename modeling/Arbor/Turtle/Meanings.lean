import Std.Data.TreeMap
import Arbor.Turtle.Basic

/-!
# The meanings of symbols

A symbol may turn the turtle, draw a part, save or restore the frame, or do nothing. The
table of meanings holds a limited number of symbols. When it is full a further symbol
gets no meaning, while a symbol it holds can still be given another one.
-/
namespace Arbor

/-- What a symbol does. -/
inductive TurtleCommand where
  /-- Turns around an axis by the first parameter. -/
  | rotate (axis : Axis)
  /-- Spawns the part with this number. -/
  | draw (index : Nat)
  /-- Saves the frame. -/
  | push
  /-- Restores the frame saved last. -/
  | pop
  /-- Nothing. -/
  | ignore
  deriving DecidableEq, Repr

/-- The commands by symbol. -/
structure Meanings where
  commands : Std.TreeMap Char TurtleCommand

namespace Meanings

/-- How many symbols can have a meaning. -/
def capacity : Nat := 65535

/-- No symbol has a meaning. -/
def empty : Meanings :=
  ⟨∅⟩

instance : Inhabited Meanings :=
  ⟨empty⟩

/-- Gives a symbol a meaning, if it has one already or if there is room for it. -/
def assign (meanings : Meanings) (symbol : Char) (command : TurtleCommand) : Meanings :=
  if meanings.commands.contains symbol || meanings.commands.size < capacity then
    ⟨meanings.commands.insert symbol command⟩
  else
    meanings

/-- The meaning of a symbol, which is to do nothing unless it was given another one. -/
def command (meanings : Meanings) (symbol : Char) : TurtleCommand :=
  meanings.commands.getD symbol .ignore

end Meanings

end Arbor
