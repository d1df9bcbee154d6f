import DeferredReward.Json.Basic
import DeferredReward.Text.Quoted

/-!
# Errors of reading

Reading goes wrong in two ways. A text can be malformed, that is, no text of
the format at all; or its value can be a mismatch for what is wanted, and then
the message says what was found and what was expected. An error found in a text
carries the position up to which the text had been looked at.
-/

namespace DeferredReward.Json

/-- The ways in which a text is no text of the format. -/
inductive Malformed where
  /-- The text ends inside a sequence. -/
  | endInSequence
  /-- The text ends inside an object. -/
  | endInObject
  /-- The text ends inside a string. -/
  | endInString
  /-- The text ends where a value should be, or inside one. -/
  | endInValue
  /-- A name is not followed by a colon. -/
  | missingColon
  /-- An element is followed by neither a comma nor the end of the sequence. -/
  | unseparatedElements
  /-- A member is followed by neither a comma nor the end of the object. -/
  | unseparatedMembers
  /-- A word that is none of the three literal ones. -/
  | unknownWord
  /-- A character that starts no value. -/
  | noValue
  /-- A backslash followed by what it cannot be followed by. -/
  | invalidEscape
  /-- Digits that do not form a number. -/
  | invalidNumber
  /-- A number whose nearest double is infinite. -/
  | numberOutOfRange
  /-- A control character inside a string. -/
  | rawControl
  /-- The name of a member is no string. -/
  | unquotedName
  /-- One half of a surrogate pair without the other. -/
  | loneSurrogate
  /-- A comma before the end of a sequence or object. -/
  | trailingComma
  /-- Text behind the value. -/
  | trailingText
  /-- The first half of a surrogate pair is not followed by an escape. -/
  | unpairedSurrogate
  /-- Containers nest too deep. -/
  | tooDeep
  deriving DecidableEq, Repr

/-- The text of the error. -/
def Malformed.message : Malformed → String
  | endInSequence => "EOF while parsing a list"
  | endInObject => "EOF while parsing an object"
  | endInString => "EOF while parsing a string"
  | endInValue => "EOF while parsing a value"
  | missingColon => "expected `:`"
  | unseparatedElements => "expected `,` or `]`"
  | unseparatedMembers => "expected `,` or `\x7d`"
  | unknownWord => "expected ident"
  | noValue => "expected value"
  | invalidEscape => "invalid escape"
  | invalidNumber => "invalid number"
  | numberOutOfRange => "number out of range"
  | rawControl => "control character (\\u0000-\\u001F) found while parsing a string"
  | unquotedName => "key must be a string"
  | loneSurrogate => "lone leading surrogate in hex escape"
  | trailingComma => "trailing comma"
  | trailingText => "trailing characters"
  | unpairedSurrogate => "unexpected end of hex escape"
  | tooDeep => "recursion limit exceeded"

/-- What a value turned out to be. -/
inductive Found where
  | null
  | bool (b : Bool)
  | number (n : Number)
  | string (s : String)
  | sequence
  | map

/-- The description of what was found. -/
def Found.describe : Found → String
  | null => "null"
  | bool b => s!"boolean `{b}`"
  | number (.integer n) => s!"integer `{n}`"
  | number (.real x) => s!"floating point `{Decimal.ofFloat numberLayout x}`"
  | string s => s!"string {Text.quoted s}"
  | sequence => "sequence"
  | map => "map"

/-- What a value is found to be. -/
def Found.of : Json → Found
  | .null => null
  | .bool b => bool b
  | .number n => number n
  | .string s => string s
  | .array _ => sequence
  | .object _ => map

/-- The ways in which a value does not suit what is wanted. -/
inductive Mismatch where
  /-- A value of another kind. -/
  | wrongType (found : Found) (expected : String)
  /-- A value of the right kind outside the admitted ones. -/
  | wrongValue (found : Found) (expected : String)
  /-- A sequence that ends too early. -/
  | wrongLength (length : Nat) (expected : String)
  /-- A name that is none of the choices. -/
  | unknownVariant (name : String) (choices : List String)
  /-- A member that is none of the known ones. -/
  | unknownField (name : String) (known : List String)
  /-- A required member that is absent. -/
  | missingField (name : String)
  /-- A matrix in a version of the format that cannot be read. -/
  | unknownVersion (version : Nat)
  /-- A matrix whose elements are not as many as its shape says. -/
  | sizeMismatch

/-- Names in back quotes, commas between them. -/
def listed (names : List String) : String := ", ".intercalate (names.map fun name => s!"`{name}`")

/-- The text of the error. -/
def Mismatch.message : Mismatch → String
  | wrongType found expected => s!"invalid type: {found.describe}, expected {expected}"
  | wrongValue found expected => s!"invalid value: {found.describe}, expected {expected}"
  | wrongLength length expected => s!"invalid length {length}, expected {expected}"
  | unknownVariant name choices => s!"unknown variant `{name}`, expected one of {listed choices}"
  | unknownField name known => s!"unknown field `{name}`, expected one of {listed known}"
  | missingField name => s!"missing field `{name}`"
  | unknownVersion version => s!"unknown array version: {version}"
  | sizeMismatch => "data and dimension must match in size"

/-- Why a text or a value cannot be read. -/
inductive Problem where
  /-- The text is none of the format. -/
  | malformed (cause : Malformed)
  /-- The value is not of the wanted shape. -/
  | mismatch (cause : Mismatch)

/-- The text of the problem. -/
def Problem.message : Problem → String
  | malformed cause => cause.message
  | mismatch cause => cause.message

/-- A place in a text: the line, from one, and the bytes of it already passed. -/
structure Position where
  line : Nat
  column : Nat
  deriving DecidableEq, Repr

/-- The number of bytes that characters take. -/
def byteCount (text : List Char) : Nat := text.foldl (fun n c => n + c.utf8Size) 0

/-- The place further by a number of bytes of the text that begins at the
place. It may lie inside a character. -/
def Position.advance (place : Position) : (text : List Char) → (bytes : Nat) → Position
  | [], _ => place
  | c :: rest, bytes =>
    if bytes = 0 then place
    else if c = '\n' then Position.advance ⟨place.line + 1, 0⟩ rest (bytes - 1)
    else Position.advance { place with column := place.column + min bytes c.utf8Size } rest
      (bytes - c.utf8Size)

/-- The place behind the first bytes of a text. -/
def Position.after (text : List Char) (bytes : Nat) : Position := advance ⟨1, 0⟩ text bytes

/-- Behind a line, a character of two bytes and the first byte of another one. -/
example : Position.after "a\néé".toList 5 = ⟨2, 3⟩ := by decide +kernel

/-- A problem, with its place when it was met in a text. -/
structure ReadError where
  /-- What is wrong. -/
  problem : Problem
  /-- Where reading had arrived. -/
  position : Option Position

/-- The text of the error: the problem and its place. -/
def ReadError.message (e : ReadError) : String :=
  match e.position with
  | none => e.problem.message
  | some ⟨line, column⟩ => s!"{e.problem.message} at line {line} column {column}"

end DeferredReward.Json
