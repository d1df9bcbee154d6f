/-!
# The seeded generator

A keystream of 32 bit words decides everything random: the first weights of a
network, the batches drawn from the memory and the observations of a synthetic
episode. The stream is that of the ChaCha block function with twelve rounds,
keyed by eight words that a linear congruence derives from the seed, with a
block counter from zero and no nonce. A generator is a value: drawing returns
the word together with the generator that continues after it.
-/

namespace DeferredReward

/-- Four words side by side: one row of the state of a block. -/
structure Lanes where
  a : UInt32
  b : UInt32
  c : UInt32
  d : UInt32
  deriving DecidableEq, Repr, Inhabited

namespace Lanes

/-- An operation on the words at equal places. -/
def zip (f : UInt32 → UInt32 → UInt32) (x y : Lanes) : Lanes :=
  ⟨f x.a y.a, f x.b y.b, f x.c y.c, f x.d y.d⟩

/-- Every word rotated left by `amount` bits, for an amount from 1 to 31. -/
def rotateBits (amount : UInt32) (x : Lanes) : Lanes :=
  let turn (w : UInt32) : UInt32 := (w <<< amount) ||| (w >>> (32 - amount))
  ⟨turn x.a, turn x.b, turn x.c, turn x.d⟩

/-- The words moved one place to the left, the first to the end. -/
def shift (x : Lanes) : Lanes := ⟨x.b, x.c, x.d, x.a⟩

/-- The words in order. -/
def toList (x : Lanes) : List UInt32 := [x.a, x.b, x.c, x.d]

end Lanes

/-- The four rows of the state of a block. -/
structure Block where
  first : Lanes
  second : Lanes
  third : Lanes
  fourth : Lanes
  deriving DecidableEq, Repr, Inhabited

namespace Block

/-- The quarter round, on the four columns at once. -/
def mixColumns (s : Block) : Block :=
  let first := Lanes.zip (· + ·) s.first s.second
  let fourth := (Lanes.zip (· ^^^ ·) s.fourth first).rotateBits 16
  let third := Lanes.zip (· + ·) s.third fourth
  let second := (Lanes.zip (· ^^^ ·) s.second third).rotateBits 12
  let first := Lanes.zip (· + ·) first second
  let fourth := (Lanes.zip (· ^^^ ·) fourth first).rotateBits 8
  let third := Lanes.zip (· + ·) third fourth
  let second := (Lanes.zip (· ^^^ ·) second third).rotateBits 7
  ⟨first, second, third, fourth⟩

/-- The quarter round on the diagonals: the rows are shifted so that the
diagonals become columns, mixed, and shifted back. -/
def mixDiagonals (s : Block) : Block :=
  let t := mixColumns ⟨s.first, s.second.shift, s.third.shift.shift, s.fourth.shift.shift.shift⟩
  ⟨t.first, t.second.shift.shift.shift, t.third.shift.shift, t.fourth.shift⟩

/-- `rounds` double rounds. -/
def mix : (rounds : Nat) → Block → Block
  | 0, s => s
  | rounds + 1, s => mix rounds s.mixColumns.mixDiagonals

/-- The sixteen words of a block: the mixed state added to the state. -/
def words (s : Block) : List UInt32 :=
  let t := mix 6 s
  (Lanes.zip (· + ·) t.first s.first).toList ++ (Lanes.zip (· + ·) t.second s.second).toList ++
  (Lanes.zip (· + ·) t.third s.third).toList ++ (Lanes.zip (· + ·) t.fourth s.fourth).toList

end Block

/-- The position in a keystream. -/
structure Generator where
  /-- The first half of the key. -/
  keyLow : Lanes
  /-- The second half of the key. -/
  keyHigh : Lanes
  /-- The number of the next block. -/
  counter : UInt64
  /-- The words of the current block that have not been drawn. -/
  pending : List UInt32
  deriving DecidableEq, Repr, Inhabited

namespace Generator

/-- One word of the key and the state of the linear congruence after it. -/
def keyWord (state : UInt64) : UInt32 × UInt64 :=
  let state := state * 6364136223846793005 + 11634580027462260723
  let word := (((state >>> 18) ^^^ state) >>> 27).toUInt32
  let amount := (state >>> 59).toUInt32
  ((word >>> amount) ||| (word <<< ((32 - amount) % 32)), state)

/-- Four words of the key. -/
def keyLanes (state : UInt64) : Lanes × UInt64 :=
  let (a, state) := keyWord state
  let (b, state) := keyWord state
  let (c, state) := keyWord state
  let (d, state) := keyWord state
  (⟨a, b, c, d⟩, state)

/-- The generator of a seed, at the start of its stream. -/
def ofSeed (seed : UInt64) : Generator :=
  let (keyLow, state) := keyLanes seed
  let (keyHigh, _) := keyLanes state
  ⟨keyLow, keyHigh, 0, []⟩

/-- The words of the block with number `counter`. -/
def blockWords (g : Generator) : List UInt32 :=
  Block.words ⟨⟨0x61707865, 0x3320646e, 0x79622d32, 0x6b206574⟩, g.keyLow, g.keyHigh,
    ⟨g.counter.toUInt32, (g.counter >>> 32).toUInt32, 0, 0⟩⟩

/-- The next word. -/
def word (g : Generator) : UInt32 × Generator :=
  match g.pending with
  | w :: rest => (w, { g with pending := rest })
  | [] =>
    match g.blockWords with
    | w :: rest => (w, { g with counter := g.counter + 1, pending := rest })
    | [] => (0, g)

/-- The next two words as one number, the earlier one as its low half. -/
def longWord (g : Generator) : UInt64 × Generator :=
  let (low, g) := g.word
  let (high, g) := g.word
  (low.toUInt64 ||| (high.toUInt64 <<< 32), g)

end Generator

end DeferredReward
