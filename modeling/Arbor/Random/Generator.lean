/-!
# The random stream

The stream is the keystream of the ChaCha cipher with twelve rounds: the words of
block 0, then those of block 1 and so on, each block being a function of the key and
of its number. A generator is the place in this stream that has been reached: the
key, the number of the next block and the words of the current block that have not
been taken yet. A key of 256 bits is stretched from a seed of 64 bits by a linear
congruential sequence with a permuted output.

A block is four rows of four words. A round mixes the columns of the four rows, that
is, it works on whole rows at once; turning the rows before and after makes the same
step mix the diagonals.
-/
namespace Arbor

/-- A word turned to the left by less than its width. -/
def rotateLeft (word : UInt32) (count : UInt32) : UInt32 :=
  (word <<< count) ||| (word >>> (32 - count))

/-- Four words of a block. -/
structure Row where
  a : UInt32
  b : UInt32
  c : UInt32
  d : UInt32
  deriving DecidableEq, Repr, Inhabited

namespace Row

/-- Combines two rows word by word. -/
def zip (f : UInt32 → UInt32 → UInt32) (x y : Row) : Row :=
  ⟨f x.a y.a, f x.b y.b, f x.c y.c, f x.d y.d⟩

/-- The row with the words of two rows added. -/
def add : Row → Row → Row := zip (· + ·)

/-- Mixes a row into another and turns each word of the result. -/
def mix (count : UInt32) : Row → Row → Row := zip fun x y => rotateLeft (x ^^^ y) count

/-- The row moved to the left by one place. -/
def turn (row : Row) : Row :=
  ⟨row.b, row.c, row.d, row.a⟩

/-- The words of a row in order. -/
def toList (row : Row) : List UInt32 :=
  [row.a, row.b, row.c, row.d]

end Row

/-- Sixteen words in four rows. -/
structure Block where
  first : Row
  second : Row
  third : Row
  fourth : Row
  deriving DecidableEq, Repr, Inhabited

namespace Block

/-- One quarter round on every column. -/
def mixColumns (block : Block) : Block :=
  let first := block.first.add block.second
  let fourth := block.fourth.mix 16 first
  let third := block.third.add fourth
  let second := block.second.mix 12 third
  let first := first.add second
  let fourth := fourth.mix 8 first
  let third := third.add fourth
  let second := second.mix 7 third
  ⟨first, second, third, fourth⟩

/-- Moves the diagonals into the columns. -/
def gatherDiagonals (block : Block) : Block :=
  ⟨block.first, block.second.turn, block.third.turn.turn, block.fourth.turn.turn.turn⟩

/-- Moves the columns back into the diagonals. -/
def spreadDiagonals (block : Block) : Block :=
  ⟨block.first, block.second.turn.turn.turn, block.third.turn.turn, block.fourth.turn⟩

/-- A round on the columns and a round on the diagonals. -/
def doubleRound (block : Block) : Block :=
  block.mixColumns.gatherDiagonals.mixColumns.spreadDiagonals

/-- The block with the words of two blocks added. -/
def add (x y : Block) : Block :=
  ⟨x.first.add y.first, x.second.add y.second, x.third.add y.third, x.fourth.add y.fourth⟩

/-- The words of a block in order. -/
def toList (block : Block) : List UInt32 :=
  block.first.toList ++ block.second.toList ++ block.third.toList ++ block.fourth.toList

end Block

/-- A key of 256 bits. -/
structure Key where
  low : Row
  high : Row
  deriving DecidableEq, Repr, Inhabited

namespace Key

/-- The block from which block `number` of the stream is made: four fixed words, the key
and the number in two words. -/
def input (key : Key) (number : UInt64) : Block where
  first := ⟨0x61707865, 0x3320646e, 0x79622d32, 0x6b206574⟩
  second := key.low
  third := key.high
  fourth := ⟨number.toUInt32, (number >>> 32).toUInt32, 0, 0⟩

/-- Block `number` of the stream: twelve rounds, then the input is added. -/
def block (key : Key) (number : UInt64) : Block :=
  let input := key.input number
  (Nat.repeat Block.doubleRound 6 input).add input

/-- The state behind a state of the sequence that stretches a seed. -/
def stretch (state : UInt64) : UInt64 :=
  state * 6364136223846793005 + 11634580027462260723

/-- The word that a state of this sequence shows. -/
def shown (state : UInt64) : UInt32 :=
  let word := (((state >>> 18) ^^^ state) >>> 27).toUInt32
  let turns : UInt32 := (state >>> 59).toUInt32
  rotateLeft word ((0 - turns) % 32)

/-- The key of a seed: the words that the first eight states behind the seed show. -/
def ofSeed (seed : UInt64) : Key :=
  let word (steps : Nat) := shown (Nat.repeat stretch steps seed)
  ⟨⟨word 1, word 2, word 3, word 4⟩, ⟨word 5, word 6, word 7, word 8⟩⟩

end Key

/-- A place in a random stream. -/
structure Generator where
  /-- The key of the stream. -/
  key : Key
  /-- The number of the block behind the current one. -/
  number : UInt64
  /-- The words of the current block that are still to be taken. -/
  pending : List UInt32
  deriving DecidableEq, Repr, Inhabited

namespace Generator

/-- The beginning of the stream of a seed. -/
def ofSeed (seed : UInt64) : Generator :=
  ⟨Key.ofSeed seed, 0, []⟩

/-- Takes one word, from the next block if none of the current one is left. -/
def next (generator : Generator) : UInt32 × Generator :=
  match generator.pending with
  | word :: pending => (word, { generator with pending })
  | [] =>
    let block := generator.key.block generator.number
    (block.first.a, ⟨generator.key, generator.number + 1, block.toList.tail⟩)

/-- Takes two words, the low one first, also across the end of a block. -/
def next64 (generator : Generator) : UInt64 × Generator :=
  let (low, generator) := generator.next
  let (high, generator) := generator.next
  (high.toUInt64 <<< 32 ||| low.toUInt64, generator)

end Generator

end Arbor
