import DeferredReward.Decimal.Layout

/-!
# Values of the data format

Configurations and snapshots are texts in the JSON format. A number is either a
whole number of 64 bits, signed or not, or a double; the two are kept apart,
since fields that want a whole number refuse a double. An object keeps its
members as they were written, repetitions included.
-/

namespace DeferredReward

namespace Json

/-- A number as it is written: whole or not. -/
inductive Number where
  /-- A whole number without fraction or exponent, from `-2 ^ 63` to `2 ^ 64 - 1`. -/
  | integer (n : Int)
  /-- Any other number. -/
  | real (x : Float)

/-- The nearest double. -/
def Number.toFloat : Number → Float
  | integer n => Float.ofInt n
  | real x => x

/-- Whether the number is finite. A whole number is. -/
def Number.isFinite : Number → Bool
  | integer _ => true
  | real x => x.isFinite

end Json

/-- A value of the data format. -/
inductive Json where
  /-- The absent value. -/
  | null
  /-- A truth value. -/
  | bool (b : Bool)
  /-- A number. -/
  | number (n : Json.Number)
  /-- A text. -/
  | string (s : String)
  /-- A sequence of values. -/
  | array (elements : List Json)
  /-- Named values in their order, repetitions included. -/
  | object (members : List (String × Json))
  deriving Inhabited

namespace Json

/-- Doubles are written by their shortest decimal, positionally from `1e-5` up
to below `1e16`; a whole one ends in `.0`, and of two equally near decimals the
even one is taken. -/
def numberLayout : Decimal.Layout := ⟨fun leading => -5 ≤ leading && leading ≤ 15, ".0", .even⟩

example : (Decimal.mk 15 (-1)).text numberLayout = "1.5" := by decide +kernel

example : (Decimal.mk 1 15).text numberLayout = "1000000000000000.0" := by decide +kernel

example : (Decimal.mk 1 16).text numberLayout = "1e+16" := by decide +kernel

example : (Decimal.mk 12 (-6)).text numberLayout = "0.000012" := by decide +kernel

example : (Decimal.mk 12 (-7)).text numberLayout = "1.2e-6" := by decide +kernel

/-- The value of a double: there is no number for infinities and undefined values. -/
def ofFloat (x : Float) : Json := if x.isFinite then .number (.real x) else .null

/-- The value of a natural number. -/
def ofNat (n : Nat) : Json := .number (.integer n)

/-- The last value among members of that name. -/
def lastMember? (members : List (String × Json)) (name : String) : Option Json :=
  (members.reverse.find? fun member => member.1 == name).map Prod.snd

end Json

end DeferredReward
