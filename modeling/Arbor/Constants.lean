import Arbor.Table
import Arbor.Text.Blank
import Arbor.Decimal.Number

/-!
# Constants and scopes

Constants are numbers with names that every expression of a system may use. A scope
is what one evaluation sees: the values bound to the parameters of a rule, then the
constants, then the two numbers that always have a name. The first of these that
knows a name decides its value, and of several bindings of one name the first.
-/
namespace Arbor

/-- Numbers by name. -/
abbrev Constants := Table Float

/-- A text that defines no constant. -/
structure ConstantError where
  /-- The text as it was given. -/
  text : Text
  deriving DecidableEq, Repr

/-- The wording of the refusal. -/
def ConstantError.message (fault : ConstantError) : String :=
  s!"malformed constant definition: '{String.ofList fault.text}'"

namespace Constants

/-- Reads a definition: a name and a number with one equals sign between them, blanks at
the ends of either left aside. -/
def definition? (text : Text) : Option (Text × Float) :=
  match Text.splitOn ['='] text with
  | [name, value] => do
    let number ← readDouble? (Text.trim value)
    let name := Text.trim name
    if name.isEmpty then none else some (name, number)
  | _ => none

/-- Adds the constant that a text defines. -/
def define (constants : Constants) (text : Text) : Except ConstantError Constants :=
  match definition? text with
  | some (name, value) => .ok (constants.insert name value)
  | none => .error ⟨text⟩

end Constants

/-- The names that one evaluation may use. -/
structure Scope where
  /-- The values of the parameters, in the order of the parameters. -/
  bindings : List (Text × Float)
  constants : Constants

namespace Scope

/-- The ratio of a circle's circumference to its diameter. -/
def pi : Float := Float.ofBits 0x400921FB54442D18

/-- The base of the natural logarithm. -/
def e : Float := Float.ofBits 0x4005BF0A8B145769

/-- The numbers that have a name without being defined. -/
def builtIn? (name : Text) : Option Float :=
  if name = ['P', 'I'] then some pi else if name = ['E'] then some e else none

/-- The value of a name. -/
def lookup (scope : Scope) (name : Text) : Option Float :=
  (scope.bindings.lookup name).or ((scope.constants.get? name).or (builtIn? name))

end Scope

end Arbor
