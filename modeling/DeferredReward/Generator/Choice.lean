import DeferredReward.Generator.Uniform

/-!
# Distinct positions drawn at random

A batch is drawn by choosing distinct positions below a length, in one of three
ways. A choice that takes a large part of the positions exchanges elements of the
list of all of them. A smaller one goes through the last positions and takes for
each either a position drawn up to it or, when that is taken, the position itself;
up to fifty positions it keeps the order random by inserting, beyond, it appends
and shuffles at the end. A choice of many positions that are a small part of all
draws them one by one, and again where one has been drawn before.
-/

namespace DeferredReward.Generator

/-- The first `count` places of the list filled by exchanging place `i` with a
place drawn from `i` on. -/
def exchangeFrom (last : Nat) : (count i : Nat) → Array Nat → Generator → Array Nat × Generator
  | 0, _, positions, g => (positions, g)
  | count + 1, i, positions, g =>
    let (j, g) := g.integer i last
    exchangeFrom last count (i + 1) (positions.swapIfInBounds i j) g

/-- Distinct positions by exchanging elements of the list of all positions. -/
def chooseInPlace (length count : Nat) (g : Generator) : List Nat × Generator :=
  let (positions, g) := exchangeFrom (length - 1) count 0 (Array.range length) g
  ((positions.extract 0 count).toList, g)

/-- The list with `new` before the first `old`. -/
def insertBefore (old new : Nat) : List Nat → List Nat
  | [] => []
  | x :: rest => if x = old then new :: x :: rest else x :: insertBefore old new rest

/-- One position for each of `count` upper ends from `last` on: a drawn one, or
the upper end itself, put before the drawn one that is already there. -/
def insertFrom : (count last : Nat) → List Nat → Generator → List Nat × Generator
  | 0, _, chosen, g => (chosen, g)
  | count + 1, last, chosen, g =>
    let (t, g) := g.integer 0 last
    let chosen := if t ∈ chosen then insertBefore t last chosen else chosen ++ [t]
    insertFrom count (last + 1) chosen g

/-- The same positions without regard for their order. -/
def appendFrom : (count last : Nat) → List Nat → Generator → List Nat × Generator
  | 0, _, chosen, g => (chosen, g)
  | count + 1, last, chosen, g =>
    let (t, g) := g.integer 0 last
    appendFrom count (last + 1) (chosen ++ [if t ∈ chosen then last else t]) g

/-- A shuffle from the end: place `i` is exchanged with one drawn up to it. -/
def shuffleDown : (i : Nat) → Array Nat → Generator → Array Nat × Generator
  | 0, positions, g => (positions, g)
  | i + 1, positions, g =>
    let (j, g) := g.integer 0 (i + 1)
    shuffleDown i (positions.swapIfInBounds (i + 1) j) g

/-- Distinct positions by going through the last `count` upper ends. -/
def chooseSparsely (length count : Nat) (g : Generator) : List Nat × Generator :=
  if count < 50 then insertFrom count (length - count) [] g
  else
    let (chosen, g) := appendFrom count (length - count) [] g
    let (positions, g) := shuffleDown (count - 1) chosen.toArray g
    (positions.toList, g)

/-- A position below `length` that is not among the chosen ones, drawn again as
long as it is; after `tries` repetitions the first one that is left. -/
def newBelow (length : Nat) (chosen : List Nat) : (tries : Nat) → Generator → Nat × Generator
  | 0, g => (((List.range length).find? fun i => i ∉ chosen).getD 0, g)
  | tries + 1, g =>
    let (i, g) := g.evenlyBelow (UInt32.size ≤ length) length 1000
    if i ∈ chosen then newBelow length chosen tries g else (i, g)

/-- The chosen positions with `count` new ones after them. -/
def appendNew (length : Nat) : (count : Nat) → List Nat → Generator → List Nat × Generator
  | 0, chosen, g => (chosen, g)
  | count + 1, chosen, g =>
    let (i, g) := newBelow length chosen 1000 g
    appendNew length count (chosen ++ [i]) g

/-- Distinct positions by repeating draws. -/
def chooseRepeatedly (length count : Nat) (g : Generator) : List Nat × Generator :=
  appendNew length count [] g

/-- Whether a choice takes so many of the positions that exchanging is preferred,
judged in single precision, with other bounds for long lists. -/
def isDense (length count : Nat) : Bool :=
  let long := 500000 ≤ length
  let taken := Float32.ofNat count
  if count < 163 then
    let slope : Float32 := if long then 8 / 45 else 1.6
    let start : Float32 := if long then 70 / 9 else 10
    11 < count && Float32.ofNat length < (start + slope * taken) * taken
  else Float32.ofNat length < (if long then 330 / 9 else 270) * taken

/-- `count` distinct positions below `length`, for a count up to the length, in
the order in which they were drawn. Lengths beyond a word of 32 bits are never
listed. -/
def choose (length count : Nat) (g : Generator) : List Nat × Generator :=
  if UInt32.size ≤ length then chooseRepeatedly length count g
  else if isDense length count then chooseInPlace length count g
  else if count < 163 then chooseSparsely length count g
  else chooseRepeatedly length count g

/-- A way to choose positions: `count` of them below `length`, with the generator
after it. -/
abbrev Chooser := (length count : Nat) → Generator → List Nat × Generator

end DeferredReward.Generator
