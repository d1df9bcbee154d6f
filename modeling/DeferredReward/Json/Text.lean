import DeferredReward.Json.Basic

/-!
# The compact text of a value

Values are written without blanks, members in their order. Inside a string a
backslash stands before quotes and backslashes, the usual letters stand for
the controls that have one, and the other controls are given by number.
-/

namespace DeferredReward.Json

/-- The text of a number. -/
def Number.text : Number → String
  | integer n => if n < 0 then "-" ++ n.natAbs.repr else n.natAbs.repr
  | real x => Decimal.ofFloat numberLayout x

/-- A hexadecimal digit. -/
def hexDigit (n : Nat) : Char := (Nat.toDigits 16 (n % 16)).headD '0'

/-- How a character is written inside a string. -/
def escaped (c : Char) : List Char :=
  match c with
  | '"' => ['\\', '"']
  | '\\' => ['\\', '\\']
  | '\n' => ['\\', 'n']
  | '\r' => ['\\', 'r']
  | '\t' => ['\\', 't']
  | _ =>
    if c.toNat = 8 then ['\\', 'b']
    else if c.toNat = 12 then ['\\', 'f']
    else if c.toNat < 32 then ['\\', 'u', '0', '0', hexDigit (c.toNat / 16), hexDigit c.toNat]
    else [c]

/-- A string between its quotes. -/
def stringChars (s : String) : List Char := '"' :: (s.toList.flatMap escaped ++ ['"'])

mutual

/-- The characters of a value. -/
def chars : Json → List Char
  | null => "null".toList
  | bool b => (if b then "true" else "false").toList
  | number n => n.text.toList
  | string s => stringChars s
  | array elements => '[' :: (elementChars elements ++ [']'])
  | object members => '{' :: (memberChars members ++ ['}'])

/-- The characters of the elements of a sequence, commas between them. -/
def elementChars : List Json → List Char
  | [] => []
  | [element] => chars element
  | element :: rest => chars element ++ ',' :: elementChars rest

/-- The characters of the members of an object, commas between them. -/
def memberChars : List (String × Json) → List Char
  | [] => []
  | [(name, value)] => stringChars name ++ ':' :: chars value
  | (name, value) :: rest => stringChars name ++ ':' :: (chars value ++ ',' :: memberChars rest)

end

/-- The text of a value. -/
def text (value : Json) : String := String.ofList value.chars

end DeferredReward.Json
