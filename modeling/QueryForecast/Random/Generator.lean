/-!
# The random generator

A deterministic source of 32-bit words: the ChaCha stream cipher with twelve rounds, keyed from a
64-bit seed. Training draws its row and column samples and its held-out split from it, so the same
data, settings and seed always give the same model.

The cipher state is four rows of four words. A round mixes the four columns, which is a step on
whole rows; turning the rows against each other makes the next round mix the diagonals.
-/

namespace QueryForecast.Random

/-- Four words side by side. -/
structure Row where
  a : UInt32
  b : UInt32
  c : UInt32
  d : UInt32
  deriving DecidableEq, Repr

namespace Row

/-- The sums of the words. -/
def add (x y : Row) : Row :=
  ⟨x.a + y.a, x.b + y.b, x.c + y.c, x.d + y.d⟩

/-- The exclusive ors of the words. -/
def xor (x y : Row) : Row :=
  ⟨x.a ^^^ y.a, x.b ^^^ y.b, x.c ^^^ y.c, x.d ^^^ y.d⟩

/-- Turns the bits of a word to the left. -/
def turnWord (n : UInt32) (w : UInt32) : UInt32 :=
  (w <<< n) ||| (w >>> (32 - n))

/-- Turns the bits of every word to the left. -/
def turn (n : UInt32) (x : Row) : Row :=
  ⟨turnWord n x.a, turnWord n x.b, turnWord n x.c, turnWord n x.d⟩

/-- Moves every word one place to the left. -/
def rotate (x : Row) : Row := ⟨x.b, x.c, x.d, x.a⟩

/-- The words in order. -/
def toList (x : Row) : List UInt32 := [x.a, x.b, x.c, x.d]

end Row

/-- The cipher state. -/
structure Block where
  first : Row
  second : Row
  third : Row
  fourth : Row
  deriving DecidableEq, Repr

namespace Block

/-- Mixes the four columns. -/
def mixColumns (s : Block) : Block :=
  let a := s.first.add s.second
  let d := (s.fourth.xor a).turn 16
  let c := s.third.add d
  let b := (s.second.xor c).turn 12
  let a := a.add b
  let d := (d.xor a).turn 8
  let c := c.add d
  let b := (b.xor c).turn 7
  ⟨a, b, c, d⟩

/-- Mixes the four diagonals. -/
def mixDiagonals (s : Block) : Block :=
  let t := mixColumns ⟨s.first, s.second.rotate, s.third.rotate.rotate,
    s.fourth.rotate.rotate.rotate⟩
  ⟨t.first, t.second.rotate.rotate.rotate, t.third.rotate.rotate, t.fourth.rotate⟩

/-- `n` double rounds. -/
def doubleRounds : Nat → Block → Block
  | 0, s => s
  | n + 1, s => doubleRounds n s.mixColumns.mixDiagonals

/-- The words of a block of output: twelve rounds, and the initial state added to the result. -/
def words (s : Block) : List UInt32 :=
  let t := doubleRounds 6 s
  (t.first.add s.first).toList ++ (t.second.add s.second).toList ++
    (t.third.add s.third).toList ++ (t.fourth.add s.fourth).toList

end Block

/-- A generator: its key, the number of the next block, and the words of the current block that
have not been drawn. -/
structure Generator where
  low : Row
  high : Row
  counter : UInt64
  pending : List UInt32
  deriving DecidableEq, Repr

/-- The constant words of the cipher. -/
def constants : Row := ⟨0x61707865, 0x3320646e, 0x79622d32, 0x6b206574⟩

/-- The block of a key and a block number. -/
def Generator.block (g : Generator) : Block :=
  ⟨constants, g.low, g.high, ⟨g.counter.toUInt32, (g.counter >>> 32).toUInt32, 0, 0⟩⟩

/-- One step of the seed expansion: the next seed and the key word taken from it. -/
def expandSeed (seed : UInt64) : UInt64 × UInt32 :=
  let s := seed * 6364136223846793005 + 11634580027462260723
  let word := (((s >>> 18) ^^^ s) >>> 27).toUInt32
  let turns := (s >>> 59).toUInt32
  (s, Row.turnWord (32 - turns) word)

/-- Four key words from a seed, and the seed after them. -/
def keyRow (seed : UInt64) : UInt64 × Row :=
  let (s, a) := expandSeed seed
  let (s, b) := expandSeed s
  let (s, c) := expandSeed s
  let (s, d) := expandSeed s
  (s, ⟨a, b, c, d⟩)

/-- The generator of a seed. -/
def Generator.ofSeed (seed : UInt64) : Generator :=
  let (s, low) := keyRow seed
  let (_, high) := keyRow s
  ⟨low, high, 0, []⟩

/-- The next word. -/
def Generator.next (g : Generator) : UInt32 × Generator :=
  match g.pending with
  | w :: rest => (w, { g with pending := rest })
  | [] =>
    match g.block.words with
    | w :: rest => (w, { g with counter := g.counter + 1, pending := rest })
    | [] => (0, { g with counter := g.counter + 1 })

end QueryForecast.Random
