import DeferredReward.Arithmetic
import DeferredReward.Generator.Basic
import DeferredReward.Matrix.Basic

/-!
# Uniform draws

Real numbers of an interval from 52 bits of the stream, matrices of them row by
row, and integers of a range without bias: a word is refused when it lies in
the part of the word range that the integers cannot share evenly. A single draw
refuses more words than it must, to find the bound at once; where many are drawn
from one range, no word is refused that the integers can share.
-/

namespace DeferredReward.Generator

/-- A number of the interval from `low` to `high`. -/
def real {α : Type} [Analysis α] (low high : α) (g : Generator) : α × Generator :=
  let (bits, g) := g.longWord
  (Analysis.pointBetween low high (bits >>> 12).toNat, g)

/-- `count` numbers of the interval in the order of drawing, after those drawn before. -/
def realsOnto {α : Type} [Analysis α] (low high : α) :
    (count : Nat) → Array α → Generator → Array α × Generator
  | 0, drawn, g => (drawn, g)
  | count + 1, drawn, g =>
    let (x, g) := g.real low high
    realsOnto low high count (drawn.push x) g

theorem size_realsOnto {α : Type} [Analysis α] (low high : α) (count : Nat) (drawn : Array α)
    (g : Generator) : (realsOnto low high count drawn g).1.size = drawn.size + count := by
  induction count generalizing drawn g with
  | zero => rfl
  | succ count ih => rw [realsOnto, ih, Array.size_push]; omega

/-- `count` numbers of the interval in the order of drawing. -/
def reals {α : Type} [Analysis α] (low high : α) (count : Nat) (g : Generator) :
    Array α × Generator :=
  realsOnto low high count #[] g

/-- A matrix of numbers of the interval, drawn row by row. -/
def matrix {α : Type} [Analysis α] (low high : α) (shape : Shape) (g : Generator) :
    Matrix α × Generator :=
  (⟨shape.rows, shape.cols, (g.reals low high (shape.rows * shape.cols)).1, by
      rw [reals, size_realsOnto]; exact Nat.zero_add _⟩,
    (g.reals low high (shape.rows * shape.cols)).2)

/-- The largest low half of a product that is accepted: one less than the range
moved up until its first bit is the first bit of a word. -/
def zone (range : UInt32) : UInt32 :=
  (range <<< UInt32.ofNat (31 - range.toNat.log2)) - 1

/-- A number below `range` from the first acceptable word: the high half of its
product with the range. A word is refused with a chance below one half; after
`tries` refusals the next word counts as it is. -/
def belowRange (range : UInt32) : (tries : Nat) → Generator → Nat × Generator
  | 0, g =>
    let (w, g) := g.word
    (((w.toUInt64 * range.toUInt64) >>> 32).toNat, g)
  | tries + 1, g =>
    let (w, g') := g.word
    let product := w.toUInt64 * range.toUInt64
    if product.toUInt32 ≤ zone range then ((product >>> 32).toNat, g')
    else belowRange range tries g'

/-- A whole number from `low` to `high`, both included. The whole range of
words needs no refusal. -/
def integer (low high : Nat) (g : Generator) : Nat × Generator :=
  let range := UInt32.ofNat (high - low + 1)
  if range = 0 then
    let (w, g) := g.word
    (w.toNat, g)
  else
    let (offset, g) := belowRange range 1000 g
    (low + offset, g)

/-- The number of words: those of 64 bits for a wide range, and those of 32. -/
def wordCount (wide : Bool) : Nat := if wide then UInt64.size else UInt32.size

/-- The next word of 64 or of 32 bits as a number. -/
def wordBelow (wide : Bool) (g : Generator) : Nat × Generator :=
  if wide then (g.longWord.1.toNat, g.longWord.2) else (g.word.1.toNat, g.word.2)

/-- A number below `range`: the high half of its product with a word. A word is
refused when the low half is among the last that the range cannot share evenly;
after `tries` refusals the next word counts as it is. -/
def evenlyBelow (wide : Bool) (range : Nat) : (tries : Nat) → Generator → Nat × Generator
  | 0, g =>
    let (w, g) := g.wordBelow wide
    (w * range / wordCount wide, g)
  | tries + 1, g =>
    let (w, g) := g.wordBelow wide
    let product := w * range
    if product % wordCount wide + wordCount wide % range < wordCount wide then
      (product / wordCount wide, g)
    else evenlyBelow wide range tries g

end DeferredReward.Generator
