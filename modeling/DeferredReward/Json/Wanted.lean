import DeferredReward.Json.Error

/-!
# What fields want

The conversions from a value to what a field holds, shared by everything that
is read: a whole number below a limit, a double, a text, a truth value.
`expected` is the name that messages give to what is wanted.
-/

namespace DeferredReward.Json

/-- A whole number below `limit`. A number with a sign is of the right kind but
out of place, and a double is of another kind. -/
def Number.unsigned (limit : Nat) (expected : String) : Number → Except Mismatch Nat
  | integer n =>
    if 0 ≤ n ∧ n < limit then .ok n.toNat
    else .error (.wrongValue (.number (.integer n)) expected)
  | real x => .error (.wrongType (.number (.real x)) expected)

/-- The mismatch of a value that is not of the expected kind. -/
def wrongType {β : Type} (expected : String) (value : Json) : Except Mismatch β :=
  .error (.wrongType (.of value) expected)

/-- A whole number of 64 bits. -/
def word (expected : String) : Json → Except Mismatch UInt64
  | .number n => (n.unsigned UInt64.size expected).map UInt64.ofNat
  | value => wrongType expected value

/-- A double. Any number will do. -/
def float : Json → Except Mismatch Float
  | .number n => .ok n.toFloat
  | value => wrongType "f64" value

/-- A truth value. -/
def truth : Json → Except Mismatch Bool
  | .bool b => .ok b
  | value => wrongType "a boolean" value

/-- A text. -/
def plainText (expected : String) : Json → Except Mismatch String
  | .string s => .ok s
  | value => wrongType expected value

/-- A value that may be absent. -/
def optional {β : Type} (item : Json → Except Mismatch β) : Json → Except Mismatch (Option β)
  | .null => .ok none
  | value => (item value).map some

/-- A sequence of values. -/
def sequence {β : Type} (item : Json → Except Mismatch β) : Json → Except Mismatch (List β)
  | .array elements => elements.mapM item
  | value => wrongType "a sequence" value

end DeferredReward.Json
