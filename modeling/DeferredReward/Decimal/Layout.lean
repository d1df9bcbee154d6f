import DeferredReward.Decimal.Shortest

/-!
# Decimal texts

A decimal is written either positionally or as digits with an exponent of ten.
A layout says which exponents are positional, whether a whole number shows
that it is one of the doubles, and which of two equally short and near decimals
stands for a double.
-/

namespace DeferredReward

namespace Decimal

/-- The decisions of a format for decimal numbers. -/
structure Layout where
  /-- Whether a number whose leading digit has this exponent is written positionally. -/
  positional : Int → Bool
  /-- What is appended to a whole number. -/
  wholeMark : String
  /-- Which of two equally near decimals is written. -/
  tie : Tie

/-- The digits as characters. -/
def digitChars (d : Decimal) : List Char := d.digits.repr.toList

/-- The exponent of ten of the leading digit. -/
def leading (d : Decimal) : Int := d.exponent + d.digitChars.length - 1

/-- The text without an exponent. -/
def positionalText (mark : String) (d : Decimal) : String :=
  let digits := d.digitChars
  let whole := (digits.length + d.exponent).toNat
  if 0 ≤ d.exponent then
    String.ofList (digits ++ List.replicate d.exponent.toNat '0') ++ mark
  else if 0 < whole then
    String.ofList (digits.take whole) ++ "." ++ String.ofList (digits.drop whole)
  else
    "0." ++ String.ofList (List.replicate ((-d.exponent).toNat - digits.length) '0' ++ digits)

/-- The text with an exponent, whose sign is always written. -/
def exponentText (d : Decimal) : String :=
  let exponent := d.leading
  let sign := if exponent < 0 then "-" else "+"
  let mantissa := match d.digitChars with
    | first :: second :: rest => String.ofList (first :: '.' :: second :: rest)
    | digits => String.ofList digits
  mantissa ++ "e" ++ sign ++ exponent.natAbs.repr

/-- The text of a magnitude in a layout. -/
def text (layout : Layout) (d : Decimal) : String :=
  if d.digits = 0 then "0" ++ layout.wholeMark
  else if layout.positional d.leading then d.positionalText layout.wholeMark
  else d.exponentText

/-- The text of a double in a layout, by its shortest decimal. -/
def ofFloat (layout : Layout) (x : Float) : String :=
  match FloatClass.of x with
  | .nan => "NaN"
  | .infinite negative => if negative then "-inf" else "inf"
  | .finite negative b => (if negative then "-" else "") ++ (shortest layout.tie b).text layout

end Decimal

end DeferredReward
