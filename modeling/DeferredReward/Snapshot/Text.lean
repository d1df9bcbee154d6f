import DeferredReward.Json.Reader
import DeferredReward.Json.Text
import DeferredReward.Json.Wanted
import DeferredReward.Parameters

/-!
# The text of a snapshot

A snapshot is an object with one member for each parameter, in order. A matrix
is the object of the format's version, the two sizes and the elements row by
row; an element that is no finite number is written as the absent value, which
does not read back. Reading takes the fields of a matrix in any order, or the
same three things as a sequence.

Reading is done straight from the characters, so that a snapshot that is wrong
in two places is reported by the first of them.
-/

namespace DeferredReward.Snapshot

open Json

/-! ## Writing -/

/-- The value of a matrix. -/
def ofMatrix (m : Matrix Float) : Json :=
  .object [("v", ofNat 1), ("dim", .array [ofNat m.rows, ofNat m.cols]),
    ("data", .array (m.data.toList.map ofFloat))]

/-- The value of a parameter catalog. -/
def ofParameters (p : Parameters Float) : Json :=
  .object (p.entries.map fun entry => (entry.1, ofMatrix entry.2))

/-- The text of a snapshot. -/
def write (p : Parameters Float) : String := (ofParameters p).text

/-! ## Reading -/

/-- Reads a number and converts it. -/
def numberAs {β : Type} (expected : String) (convert : Number → Except Mismatch β) : Read β :=
  fun text => do
    let (c, rest) ← valueStart text
    if c = '-' ∨ c.isDigit then
      let (n, rest) ← if c = '-' then unsignedNumber .stream true rest
        else unsignedNumber .stream false (c :: rest)
      match convert n with
      | .ok x => return (x, rest)
      | .error cause => mismatchBefore .stream cause rest
    else unexpected .stream expected (c :: rest)

/-- Reads a whole number below a limit. -/
def unsigned (limit : Nat) (expected : String) : Read Nat :=
  numberAs expected (Number.unsigned limit expected)

/-- Reads an element of a matrix. -/
def element : Read Float := numberAs "f64" fun n => .ok n.toFloat

/-- Reads the elements of a matrix. -/
def elementList : Read (List Float) := fun text => do
  match ← valueStart text with
  | ('[', rest) => elements element rest
  | (c, rest) => unexpected .stream "a sequence" (c :: rest)

/-- Reads the bracket that closes a sequence whose elements are complete. -/
def closeSequence : Read Unit := fun text =>
  match skipBlanks text with
  | [] => malformedAt .endInSequence []
  | ']' :: rest => .ok ((), rest)
  | ',' :: rest =>
    match skipBlanks rest with
    | ']' :: rest => malformedAt .trailingComma rest
    | rest => malformedBefore .trailingText rest
  | rest => malformedBefore .trailingText rest

/-- Reads the two sizes of a matrix. -/
def sizes : Read Shape := fun text => do
  match ← valueStart text with
  | ('[', rest) =>
    let size (count : Nat) : Read Nat := fun text => do
      match ← nextElement (count == 0) text with
      | (false, rest) => mismatchAt (.wrongLength count "an array of length 2") rest
      | (true, rest) => unsigned UInt64.size "usize" rest
    let (rows, rest) ← size 0 rest
    let (cols, rest) ← size 1 rest
    let ((), rest) ← closeSequence rest
    return (⟨rows, cols⟩, rest)
  | (c, rest) => unexpected .stream "an array of length 2" (c :: rest)

/-- The matrix of a shape and elements. Sizes beyond what can be addressed are
refused even when another size is zero. -/
def assemble (shape : Shape) (elements : List Float) : Except Mismatch (Matrix Float) :=
  if max shape.rows 1 * max shape.cols 1 < UInt64.size / 2 then
    match Matrix.ofArray? shape elements.toArray with
    | some m => .ok m
    | none => .error .sizeMismatch
  else .error .sizeMismatch

/-- Stops inside an object that is given up: its end is passed if it comes next. -/
def abandonObject {β : Type} (cause : Mismatch) (text : List Char) : Except Stop β :=
  match skipBlanks text with
  | '}' :: rest => mismatchAt cause rest
  | rest => mismatchBefore .stream cause rest

/-- Stops inside a sequence that is given up: its end, or the next comma, is
passed if it comes next. -/
def abandonSequence {β : Type} (cause : Mismatch) (text : List Char) : Except Stop β :=
  match skipBlanks text with
  | ']' :: rest => mismatchAt cause rest
  | ',' :: rest => mismatchBefore .stream cause (skipBlanks rest)
  | rest => mismatchBefore .stream cause rest

/-- The fields of a matrix met so far. -/
structure Fields where
  /-- Whether a version has been read; only version one can be. -/
  versioned : Bool
  /-- The sizes. -/
  shape : Option Shape
  /-- The elements. -/
  elements : Option (List Float)

/-- Reads the fields of a matrix after the brace, up to and including the
closing one. A repeated field counts as it was last read. -/
def fieldsFrom : (fuel : Nat) → (isFirst : Bool) → Fields → Read Fields
  | 0, _, _, _ => malformedAt .endInObject []
  | fuel + 1, isFirst, fields, text => do
    match ← nextName isFirst text with
    | (none, rest) => return (fields, rest)
    | (some "v", rest) =>
      let ((), rest) ← colon rest
      let (version, rest) ← unsigned 256 "u8" rest
      if version = 1 then fieldsFrom fuel false { fields with versioned := true } rest
      else abandonObject (.unknownVersion version) rest
    | (some "dim", rest) =>
      let ((), rest) ← colon rest
      let (shape, rest) ← sizes rest
      fieldsFrom fuel false { fields with shape := some shape } rest
    | (some "data", rest) =>
      let ((), rest) ← colon rest
      let (elements, rest) ← elementList rest
      fieldsFrom fuel false { fields with elements := some elements } rest
    | (some name, rest) => abandonObject (.unknownField name ["v", "dim", "data"]) rest

/-- The matrix of its fields, all of which are required. -/
def ofFields (fields : Fields) : Except Mismatch (Matrix Float) :=
  match fields.versioned, fields.elements, fields.shape with
  | false, _, _ => .error (.missingField "v")
  | _, none, _ => .error (.missingField "data")
  | _, _, none => .error (.missingField "dim")
  | _, some elements, some shape => assemble shape elements

/-- What messages call a matrix. -/
def matrixName : String := "ndarray representation"

/-- Reads a matrix given as a sequence, after the bracket. -/
def matrixSequence : Read (Matrix Float) := fun text => do
  let part {β : Type} (count : Nat) (item : Read β) : Read β := fun text => do
    match ← nextElement (count == 0) text with
    | (false, rest) => mismatchAt (.wrongLength count matrixName) rest
    | (true, rest) => item rest
  let (version, rest) ← part 0 (unsigned 256 "u8") text
  if version = 1 then
    let (shape, rest) ← part 1 sizes rest
    let (elements, rest) ← part 2 elementList rest
    match assemble shape elements with
    | .ok m =>
      let ((), rest) ← closeSequence rest
      return (m, rest)
    | .error cause => abandonSequence cause rest
  else abandonSequence (.unknownVersion version) rest

/-- Reads a matrix. -/
def matrix : Read (Matrix Float) := fun text => do
  match ← valueStart text with
  | ('{', rest) =>
    let (fields, rest) ← fieldsFrom (rest.length + 1) true ⟨false, none, none⟩ rest
    match ofFields fields with
    | .ok m => return (m, rest)
    | .error cause => mismatchAt cause rest
  | ('[', rest) => matrixSequence rest
  | (c, rest) => unexpected .stream matrixName (c :: rest)

/-- Reads a parameter catalog. A repeated name keeps its place and its last value. -/
def parameters : Read (Parameters Float) := fun text => do
  match ← valueStart text with
  | ('{', rest) =>
    let (entries, rest) ← members matrix rest
    return (Catalog.ofList entries, rest)
  | (c, rest) => unexpected .stream "a map" (c :: rest)

/-- What the text of a snapshot says. -/
def read (text : String) : Except ReadError (Parameters Float) := document parameters text

end DeferredReward.Snapshot
