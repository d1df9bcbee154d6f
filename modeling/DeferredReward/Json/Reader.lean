import DeferredReward.Decimal.Reading
import DeferredReward.Json.Error

/-!
# Reading the data format

A reader takes characters off the front of a text and returns what they say
together with the rest. It stops at the first problem; what follows in the text
is never looked at, so that of two problems the earlier one is reported.

The place of a problem is the number of bytes that have not been looked at. A
byte is looked at when a decision depends on it, and of a character that fits
nowhere the first byte decides. When a value has been read completely before it
is found unsuitable, a stream has already fetched the byte that ended the value,
while a text held as a whole has not; `Source` tells the two apart.

Containers nest at most 127 deep.
-/

namespace DeferredReward.Json

/-- Where the characters come from. -/
inductive Source where
  /-- A text held as a whole. -/
  | text
  /-- A stream that fetches bytes one by one. -/
  | stream
  deriving DecidableEq, Repr

/-- A problem and the number of bytes not looked at. -/
structure Stop where
  problem : Problem
  unread : Nat

/-- A reader of values of `β`: what the first characters say, and the rest. -/
abbrev Read (β : Type) := List Char → Except Stop (β × List Char)

/-- Stops at text that is none of the format, with `rest` not looked at. -/
def malformedAt {β : Type} (cause : Malformed) (rest : List Char) : Except Stop β :=
  .error ⟨.malformed cause, byteCount rest⟩

/-- Stops at text that is none of the format because of its next character, of
which one byte has been looked at. -/
def malformedBefore {β : Type} (cause : Malformed) (rest : List Char) : Except Stop β :=
  .error ⟨.malformed cause, byteCount rest - 1⟩

/-- Stops at an unsuitable value, with `rest` not looked at. -/
def mismatchAt {β : Type} (cause : Mismatch) (rest : List Char) : Except Stop β :=
  .error ⟨.mismatch cause, byteCount rest⟩

/-- Stops at an unsuitable value whose end the next character has shown. -/
def mismatchBefore {β : Type} (source : Source) (cause : Mismatch) (rest : List Char) :
    Except Stop β :=
  .error ⟨.mismatch cause, match source with
    | .text => byteCount rest
    | .stream => byteCount rest - 1⟩

/-- Whether a character is a blank of the format. -/
def isBlank (c : Char) : Bool := c == ' ' || c == '\n' || c == '\t' || c == '\r'

/-- The text without the blanks at its front. -/
def skipBlanks (text : List Char) : List Char := text.dropWhile isBlank

/-- Reads the given letters. -/
def letters : List Char → Read Unit
  | [], rest => .ok ((), rest)
  | _ :: _, [] => malformedAt .endInValue []
  | c :: word, d :: rest =>
    if c = d then letters word rest else malformedBefore .unknownWord (d :: rest)

/-! ## Strings -/

/-- The value of a hexadecimal digit. -/
def hexValue? (c : Char) : Option Nat :=
  if '0' ≤ c ∧ c ≤ '9' then some (c.toNat - '0'.toNat)
  else if 'a' ≤ c ∧ c ≤ 'f' then some (c.toNat - 'a'.toNat + 10)
  else if 'A' ≤ c ∧ c ≤ 'F' then some (c.toNat - 'A'.toNat + 10)
  else none

/-- The value of four hexadecimal digits. -/
def hexValue4? (a b c d : Char) : Option Nat := do
  return (((← hexValue? a) * 16 + (← hexValue? b)) * 16 + (← hexValue? c)) * 16 + (← hexValue? d)

/-- Stops at text that does not begin with four hexadecimal digits. Four bytes
are fetched before any of them is looked at. -/
def notFourHex {β : Type} (text : List Char) : Except Stop β :=
  if byteCount text < 4 then malformedAt .endInString []
  else .error ⟨.malformed .invalidEscape, byteCount text - 4⟩

/-- Reads four hexadecimal digits. -/
def fourHex : Read Nat
  | a :: b :: c :: d :: rest =>
    match hexValue4? a b c d with
    | some n => .ok (n, rest)
    | none => notFourHex (a :: b :: c :: d :: rest)
  | text => notFourHex text

/-- Reads a character given by number, after `\u`: one unit, or a pair of
surrogates of which the second is given in the same way. -/
def numberedChar : Read Char := fun text => do
  let (high, rest) ← fourHex text
  if 0xDC00 ≤ high ∧ high ≤ 0xDFFF then malformedAt .loneSurrogate rest
  else if high < 0xD800 ∨ 0xDBFF < high then .ok (Char.ofNat high, rest)
  else
    match rest with
    | '\\' :: 'u' :: rest => do
      let (low, rest) ← fourHex rest
      if low < 0xDC00 ∨ 0xDFFF < low then malformedAt .loneSurrogate rest
      else .ok (Char.ofNat ((high - 0xD800) * 0x400 + (low - 0xDC00) + 0x10000), rest)
    | [] => malformedAt .endInString []
    | ['\\'] => malformedAt .endInString []
    | '\\' :: rest => malformedBefore .unpairedSurrogate rest
    | rest => malformedBefore .unpairedSurrogate rest

/-- Reads what follows a backslash in a string. -/
def escapedChar : Read Char
  | [] => malformedAt .endInString []
  | c :: rest =>
    match c with
    | '"' => .ok ('"', rest)
    | '\\' => .ok ('\\', rest)
    | '/' => .ok ('/', rest)
    | 'b' => .ok (Char.ofNat 8, rest)
    | 'f' => .ok (Char.ofNat 12, rest)
    | 'n' => .ok ('\n', rest)
    | 'r' => .ok ('\r', rest)
    | 't' => .ok ('\t', rest)
    | 'u' => numberedChar rest
    | _ => malformedBefore .invalidEscape (c :: rest)

/-- Reads the rest of a string up to its quote; `reversed` holds what has been
read, last character first. Each character takes one unit of fuel. -/
def stringFrom : (fuel : Nat) → (reversed : List Char) → Read String
  | 0, _, _ => malformedAt .endInString []
  | fuel + 1, reversed, text =>
    match text with
    | [] => malformedAt .endInString []
    | c :: rest =>
      if c = '"' then .ok (String.ofList reversed.reverse, rest)
      else if c = '\\' then do
        let (c, rest) ← escapedChar rest
        stringFrom fuel (c :: reversed) rest
      else if c.toNat < 32 then malformedAt .rawControl rest
      else stringFrom fuel (c :: reversed) rest

/-- Reads a string after its first quote. -/
def stringBody : Read String := fun text => stringFrom (text.length + 1) [] text

/-! ## Numbers -/

/-- The number that digits stand for. -/
def digitsValue (digits : List Char) : Nat :=
  digits.foldl (fun n c => n * 10 + (c.toNat - '0'.toNat)) 0

/-- A number without fraction and exponent. Minus zero and numbers beyond 64
bits are doubles. -/
def wholeNumber (negative : Bool) (n : Nat) : Number :=
  if negative then
    if n = 0 ∨ UInt64.size / 2 < n then .real (Decimal.withSign true ⟨n, 0⟩) else .integer (-n)
  else if n < UInt64.size then .integer n
  else .real (Decimal.toFloat ⟨n, 0⟩)

/-- The number when it is finite. -/
def inRange (source : Source) (n : Number) (rest : List Char) :
    Except Stop (Number × List Char) :=
  if n.isFinite then .ok (n, rest)
  else match source with
    | .text => malformedAt .numberOutOfRange rest
    | .stream => malformedBefore .numberOutOfRange rest

/-- A double from its sign, digits and exponent. -/
def realNumber (negative : Bool) (digits : Nat) (exponent : Int) : Number :=
  .real (Decimal.withSign negative ⟨digits, exponent⟩)

/-- The largest exponent that is told apart from larger ones. -/
def exponentLimit : Nat := 2147483647

/-- The text behind the digit with which the digits at its front exceed the
exponent limit; none if they do not. `n` is the number of the digits before. -/
def excess? : (n : Nat) → (text : List Char) → Option (List Char)
  | _, [] => none
  | n, c :: rest =>
    if c.isDigit then
      let n := n * 10 + (c.toNat - '0'.toNat)
      if exponentLimit < n then some rest else excess? n rest
    else none

/-- Reads the exponent, after its sign, of a number with the given digits. An
exponent beyond the limit ends the reading at once, unless the number is zero
anyway. -/
def exponentDigits (digits : Nat) (negative : Bool) : Read Int
  | [] => malformedAt .endInValue []
  | c :: rest =>
    if c.isDigit then
      match excess? 0 (c :: rest), !negative && digits != 0 with
      | some rest, true => malformedAt .numberOutOfRange rest
      | _, _ =>
        let n : Int := digitsValue ((c :: rest).takeWhile Char.isDigit)
        .ok (if negative then -n else n, (c :: rest).dropWhile Char.isDigit)
    else malformedBefore .invalidNumber (c :: rest)

/-- Reads the exponent, after its letter, of a number with the given digits. -/
def exponentPart (digits : Nat) : Read Int
  | '+' :: rest => exponentDigits digits false rest
  | '-' :: rest => exponentDigits digits true rest
  | rest => exponentDigits digits false rest

/-- Reads what may follow the digits of a number: an exponent. -/
def scaled (source : Source) (negative : Bool) (digits : Nat) (exponent : Int) : Read Number
  | 'e' :: rest | 'E' :: rest => do
    let (n, rest) ← exponentPart digits rest
    inRange source (realNumber negative digits (exponent + n)) rest
  | rest => inRange source (realNumber negative digits exponent) rest

/-- Reads what may follow the whole part of a number: a fraction, an exponent. -/
def continued (source : Source) (negative : Bool) (whole : List Char) : Read Number
  | '.' :: rest =>
    match rest.takeWhile Char.isDigit, rest.dropWhile Char.isDigit with
    | [], [] => malformedAt .endInValue []
    | [], rest => malformedBefore .invalidNumber rest
    | fraction, rest =>
      scaled source negative (digitsValue (whole ++ fraction)) (-fraction.length) rest
  | 'e' :: rest => scaled source negative (digitsValue whole) 0 ('e' :: rest)
  | 'E' :: rest => scaled source negative (digitsValue whole) 0 ('E' :: rest)
  | rest => inRange source (wholeNumber negative (digitsValue whole)) rest

/-- Reads a number after its sign. A leading zero stands alone. -/
def unsignedNumber (source : Source) (negative : Bool) : Read Number
  | [] => malformedAt .endInValue []
  | c :: rest =>
    if c = '0' then
      match rest with
      | d :: _ =>
        if d.isDigit then malformedBefore .invalidNumber rest
        else continued source negative [c] rest
      | [] => continued source negative [c] rest
    else if c.isDigit then
      continued source negative (c :: rest.takeWhile Char.isDigit) (rest.dropWhile Char.isDigit)
    else malformedBefore .invalidNumber (c :: rest)

/-! ## Values -/

/-- The first character of a value, and the text from there on. -/
def valueStart (text : List Char) : Except Stop (Char × List Char) :=
  match skipBlanks text with
  | [] => malformedAt .endInValue []
  | c :: rest => .ok (c, rest)

/-- Reads up to the next element of a sequence, or the closing bracket: whether
there is an element. -/
def nextElement (isFirst : Bool) : Read Bool := fun text =>
  match skipBlanks text with
  | [] => malformedAt .endInSequence []
  | ']' :: rest => .ok (false, rest)
  | c :: rest =>
    if isFirst then .ok (true, c :: rest)
    else if c = ',' then
      match skipBlanks rest with
      | [] => malformedAt .endInValue []
      | ']' :: rest => malformedAt .trailingComma rest
      | rest => .ok (true, rest)
    else malformedBefore .unseparatedElements (c :: rest)

/-- Reads the elements of a sequence after its bracket, up to and including the
closing one; `reversed` holds those already read. -/
def elementsFrom {β : Type} (item : Read β) : (fuel : Nat) → (reversed : List β) → Read (List β)
  | 0, _, _ => malformedAt .endInSequence []
  | fuel + 1, reversed, text => do
    match ← nextElement reversed.isEmpty text with
    | (false, rest) => return (reversed.reverse, rest)
    | (true, rest) =>
      let (x, rest) ← item rest
      elementsFrom item fuel (x :: reversed) rest

/-- Reads the name of the next member of an object, or the closing brace. -/
def nextName (isFirst : Bool) : Read (Option String) := fun text =>
  match skipBlanks text with
  | [] => malformedAt .endInObject []
  | '}' :: rest => .ok (none, rest)
  | c :: rest =>
    if isFirst then
      if c = '"' then do
        let (name, rest) ← stringBody rest
        return (some name, rest)
      else malformedBefore .unquotedName (c :: rest)
    else if c = ',' then
      match skipBlanks rest with
      | [] => malformedAt .endInValue []
      | '"' :: rest => do
        let (name, rest) ← stringBody rest
        return (some name, rest)
      | '}' :: rest => malformedAt .trailingComma rest
      | rest => malformedBefore .unquotedName rest
    else malformedBefore .unseparatedMembers (c :: rest)

/-- Reads the colon between a name and its value. -/
def colon : Read Unit := fun text =>
  match skipBlanks text with
  | [] => malformedAt .endInObject []
  | ':' :: rest => .ok ((), rest)
  | rest => malformedBefore .missingColon rest

/-- Reads the members of an object after its brace, up to and including the
closing one; `reversed` holds those already read. -/
def membersFrom {β : Type} (item : Read β) :
    (fuel : Nat) → (reversed : List (String × β)) → Read (List (String × β))
  | 0, _, _ => malformedAt .endInObject []
  | fuel + 1, reversed, text => do
    match ← nextName reversed.isEmpty text with
    | (none, rest) => return (reversed.reverse, rest)
    | (some name, rest) =>
      let ((), rest) ← colon rest
      let (x, rest) ← item rest
      membersFrom item fuel ((name, x) :: reversed) rest

/-- Reads the elements of a sequence after its bracket. -/
def elements {β : Type} (item : Read β) : Read (List β) := fun text =>
  elementsFrom item (text.length + 1) [] text

/-- Reads the members of an object after its brace. -/
def members {β : Type} (item : Read β) : Read (List (String × β)) := fun text =>
  membersFrom item (text.length + 1) [] text

/-- Reads a value; `container` reads on after an opening bracket or brace. -/
def valueWith (source : Source) (container : Char → Read Json) : Read Json := fun text => do
  let (c, rest) ← valueStart text
  match c with
  | 'n' => return (.null, (← letters ['u', 'l', 'l'] rest).2)
  | 't' => return (.bool true, (← letters ['r', 'u', 'e'] rest).2)
  | 'f' => return (.bool false, (← letters ['a', 'l', 's', 'e'] rest).2)
  | '"' =>
    let (s, rest) ← stringBody rest
    return (.string s, rest)
  | '[' => container '[' rest
  | '{' => container '{' rest
  | '-' =>
    let (n, rest) ← unsignedNumber source true rest
    return (.number n, rest)
  | _ =>
    if c.isDigit then
      let (n, rest) ← unsignedNumber source false (c :: rest)
      return (.number n, rest)
    else malformedBefore .noValue (c :: rest)

/-- Reads a value in which containers nest at most `depth` deep. -/
def value (source : Source) : (depth : Nat) → Read Json
  | 0 => valueWith source fun _ rest => malformedAt .tooDeep rest
  | depth + 1 => valueWith source fun bracket rest =>
    if bracket = '[' then do
      let (xs, rest) ← elements (value source depth) rest
      return (.array xs, rest)
    else do
      let (xs, rest) ← members (value source depth) rest
      return (.object xs, rest)

/-- The nesting that a text may have. -/
def depthLimit : Nat := 127

/-- Stops at a value that is not what is expected. The value is read as far as
it takes to describe it. -/
def unexpected {β : Type} (source : Source) (expected : String) (text : List Char) :
    Except Stop β := do
  let (found, rest) ← valueWith source (fun bracket rest =>
    mismatchBefore source (.wrongType (if bracket = '[' then .sequence else .map) expected)
      (bracket :: rest)) text
  match found with
  | .number n => mismatchBefore source (.wrongType (.number n) expected) rest
  | found => mismatchAt (.wrongType (.of found) expected) rest

/-- What a whole text says: blanks may surround the value, nothing else. -/
def document {β : Type} (read : Read β) (text : String) : Except ReadError β :=
  let chars := text.toList
  let result := do
    let (x, rest) ← read chars
    match skipBlanks rest with
    | [] => return x
    | rest => malformedBefore .trailingText rest
  result.mapError fun stop =>
    ⟨stop.problem, some (.after chars (byteCount chars - stop.unread))⟩

/-- Reads any value. -/
def anyValue (source : Source) : Read Json := value source depthLimit

end DeferredReward.Json
