import Arbor.Text.Alphabet
import Arbor.Decimal.Number
import Arbor.Expression.Tree

/-!
# The grammar of expressions

From the loosest to the tightest binding: disjunction, conjunction, one comparison,
sums, products, a sign, powers, atoms. Sums and products group to the left and powers
to the right. Blanks and comments may stand beside every symbol.

A reader takes the longest phrase of its kind and returns its tree with the text
behind it, from which blanks are already gone. Where a phrase cannot go on, the reader
stops and hands back the text at that place. Two limits keep reading bounded: groups,
calls and exponents nest at most `nestingLimit` deep, and a call takes at most
`argumentLimit` arguments. The arguments of a call are the one place where a stop does
not end everything: the list then ends before the argument that could not be read.

Loops over operators are bounded by the length of the whole text, because every round
takes at least one character.
-/
namespace Arbor

/-- Why and where reading stopped. -/
inductive Stop where
  /-- A limit of the grammar was reached in front of this text. -/
  | tooLarge (rest : Text)
  /-- What the grammar asks for is not at the start of this text. -/
  | unexpected (rest : Text)
  deriving DecidableEq, Repr

/-- Takes a phrase off the start of a text. -/
abbrev Reader (α : Type) := Text → Except Stop (α × Text)

namespace Reader

/-- How deep groups, calls and exponents may nest. -/
def nestingLimit : Nat := 64

/-- How many arguments a call may have. -/
def argumentLimit : Nat := 32

/-- How many characters a name may have. -/
def nameLimit : Nat := 64

/-! ## Blanks, symbols and names -/

/-- The text behind the end of a comment that is open. -/
def afterComment? : Text → Option Text
  | [] => none
  | '*' :: '/' :: rest => some rest
  | _ :: rest => afterComment? rest

theorem length_afterComment? {text rest : Text} (closed : afterComment? text = some rest) :
    rest.length < text.length := by
  fun_induction afterComment? text with
  | case1 => cases closed
  | case2 => cases closed; simp only [List.length_cons]; omega
  | case3 _ _ _ ih => have := ih closed; simp only [List.length_cons]; omega

/-- Whether a character ends a line comment. -/
def isLineEnd (c : Char) : Bool :=
  c == '\n' || c == '\r'

/-- Whether a character may stand between symbols. -/
def isSpacing (c : Char) : Bool :=
  c == ' ' || c == '\t' || isLineEnd c

/-- Takes the spacing and the comments off the start of a text. A comment in asterisks
has to be closed, and one to the end of the line has to have a character. -/
def skipBlanks (text : Text) : Text :=
  match text with
  | '/' :: '*' :: rest =>
    match _closed : afterComment? rest with
    | some after => skipBlanks after
    | none => text
  | '/' :: '/' :: c :: rest =>
    if isLineEnd c then text else skipBlanks (rest.dropWhile (!isLineEnd ·))
  | c :: rest => if isSpacing c then skipBlanks rest else text
  | [] => []
termination_by text.length
decreasing_by
  · have := length_afterComment? _closed; simp only [List.length_cons]; omega
  · have := (List.dropWhile_sublist (l := rest) (!isLineEnd ·)).length_le
    simp only [List.length_cons]; omega
  · simp only [List.length_cons]; omega

/-- The text behind a symbol and the blanks beside it, if it comes next. -/
def symbol? (symbol : Text) (text : Text) : Option Text :=
  (symbol.isPrefixOf? (skipBlanks text)).map skipBlanks

/-- Whether a name is one of the words for values that are no numbers. -/
def isReserved (name : Text) : Bool :=
  let word := name.map Char.toLower
  word == ['n', 'a', 'n'] || word == ['i', 'n', 'f'] ||
    word == ['i', 'n', 'f', 'i', 'n', 'i', 't', 'y']

/-- The name at the start of a text. -/
def name? : Text → Option (Text × Text)
  | [] => none
  | first :: rest =>
    let others := (rest.take (nameLimit - 1)).takeWhile isNameCharacter
    let name := first :: others
    if isAlphabetic first && !isReserved name then
      some (name, rest.drop others.length)
    else
      none

/-! ## Operators -/

/-- The first of several symbols that comes next, with what it stands for. -/
def firstSymbol? {α : Type} (symbols : List (Text × α)) (text : Text) : Option (α × Text) :=
  symbols.findSome? fun entry => (symbol? entry.1 text).map fun rest => (entry.2, rest)

/-- How two operands become one tree. -/
abbrev Combination := Tree → Tree → Tree

/-- The operators of a disjunction. -/
def disjunctionSymbols : List (Text × Combination) :=
  [(['|'], .logical .either)]

/-- The operators of a conjunction. -/
def conjunctionSymbols : List (Text × Combination) :=
  [(['&'], .logical .both)]

/-- The operators of a comparison; a longer one stands before its beginning. -/
def comparisonSymbols : List (Text × Combination) :=
  [(['=', '='], .logical .equal), (['!', '='], .logical .different),
   (['<', '='], .logical .lessOrEqual), (['>', '='], .logical .greaterOrEqual),
   (['<'], .logical .less), (['>'], .logical .greater), (['='], .logical .equal)]

/-- The operators of a sum. -/
def sumSymbols : List (Text × Combination) :=
  [(['+'], .arithmetic .sum), (['-'], .arithmetic .difference)]

/-- The operators of a product. -/
def productSymbols : List (Text × Combination) :=
  [(['*'], .arithmetic .product), (['/'], .arithmetic .quotient)]

/-- The operators in front of a power. -/
def signSymbols : List (Text × (Tree → Tree)) :=
  [(['!'], .complement), (['-'], .negation)]

/-- The operator of a sum, which is not the beginning of an arrow. -/
def sumSymbol? (text : Text) : Option (Combination × Text) :=
  if ['-', '>'].isPrefixOf (skipBlanks text) then none else firstSymbol? sumSymbols text

/-- Goes on with a chain of operands of which `left` is read. -/
def chainFrom (operator? : Text → Option (Combination × Text)) (operand : Reader Tree) :
    Nat → Tree → Reader Tree
  | 0, left => fun text => .ok (left, text)
  | rounds + 1, left => fun text =>
    match operator? text with
    | none => .ok (left, text)
    | some (combine, rest) => do
      let (right, rest) ← operand rest
      chainFrom operator? operand rounds (combine left right) rest

/-- One operand or several with operators between them, grouped to the left. -/
def chain (rounds : Nat) (operator? : Text → Option (Combination × Text))
    (operand : Reader Tree) : Reader Tree := fun text => do
  let (first, rest) ← operand text
  chainFrom operator? operand rounds first rest

/-- A power, with or without a sign in front. -/
def signed (power : Reader Tree) : Reader Tree := fun text =>
  match firstSymbol? signSymbols text with
  | none => power text
  | some (apply, rest) => do
    let (operand, rest) ← power rest
    pure (apply operand, rest)

/-- Everything from a sum on that is built around a reader for powers. -/
def sum (rounds : Nat) (power : Reader Tree) : Reader Tree :=
  chain rounds sumSymbol? (chain rounds (firstSymbol? productSymbols) (signed power))

/-- A sum, or two with a comparison between them. -/
def comparison (rounds : Nat) (power : Reader Tree) : Reader Tree :=
  chain 1 (firstSymbol? comparisonSymbols) (sum rounds power)

/-- A whole expression that is built around a reader for powers. -/
def expression (rounds : Nat) (power : Reader Tree) : Reader Tree :=
  chain rounds (firstSymbol? disjunctionSymbols)
    (chain rounds (firstSymbol? conjunctionSymbols) (comparison rounds power))

/-! ## Atoms and powers -/

/-- Asks for a closing bracket. -/
def closing (text : Text) : Except Stop Text :=
  match symbol? [')'] text with
  | some rest => .ok rest
  | none => .error (.unexpected (skipBlanks text))

/-- The arguments of a call, of which `left` more are allowed. -/
def arguments (argument : Reader Tree) : Nat → Reader (List Tree)
  | 0 => fun text => .error (.tooLarge text)
  | left + 1 => fun text =>
    match argument text with
    | .error _ => .ok ([], text)
    | .ok (first, rest) =>
      match symbol? [','] rest with
      | none => .ok ([first], rest)
      | some rest => do
        let (others, rest) ← arguments argument left rest
        pure (first :: others, rest)

/-- A name, alone or with arguments. -/
def nameOrCall (inner : Reader Tree) (name : Text) : Reader Tree := fun text =>
  match symbol? ['('] text with
  | none => .ok (.reference name, skipBlanks text)
  | some rest => do
    let (values, rest) ← arguments inner argumentLimit rest
    let rest ← closing rest
    pure (.call name values, rest)

/-- An expression in brackets. -/
def group (inner : Reader Tree) : Reader Tree := fun text =>
  match text with
  | '(' :: rest => do
    let (tree, rest) ← inner rest
    let rest ← closing rest
    pure (tree, rest)
  | _ => .error (.unexpected text)

/-- A number, a name, a call or a group. A numeral may have a sign of its own; one with a
dangling exponent letter or with an infinite value is nothing at all. -/
def atom (inner : Reader Tree) : Reader Tree := fun text =>
  let text := skipBlanks text
  let (negative, unsigned) := Numeral.splitSign text
  match Numeral.scan unsigned with
  | .danglingExponent => .error (.unexpected text)
  | .found numeral rest =>
    match numeral.finiteDouble? with
    | some value => .ok (.number (if negative then -value else value), skipBlanks rest)
    | none => .error (.unexpected text)
  | .missing =>
    match name? text with
    | some (name, rest) => nameOrCall inner name rest
    | none => group inner text

/-- An atom with an exponent or without, when `room` more levels may be opened. -/
def power (rounds : Nat) : Nat → Reader Tree
  | 0 => fun text => .error (.tooLarge text)
  | room + 1 => fun text => do
    let (base, rest) ← atom (expression rounds (power rounds room)) text
    match symbol? ['^'] rest with
    | none => pure (base, rest)
    | some rest => do
      let (exponent, rest) ← power rounds room rest
      pure (.arithmetic .power base exponent, rest)

end Reader

/-- Reads an expression at the start of a text. -/
def Tree.read : Reader Tree := fun text =>
  Reader.expression text.length (Reader.power text.length (Reader.nestingLimit + 1)) text

end Arbor
