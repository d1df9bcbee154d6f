import DeferredReward.Matrix.Basic

/-!
# Rows stacked into a matrix

Feature vectors of one length become the rows of a matrix in their order.
There is no matrix for no rows, since their length is unknown, nor for rows of
different lengths.
-/

namespace DeferredReward

/-- Why rows do not form a matrix. -/
inductive StackError where
  /-- There is no row. -/
  | noRows
  /-- Two rows have different lengths. -/
  | raggedRows
  deriving DecidableEq, Repr

/-- The text of the error. -/
def StackError.message : StackError → String
  | noRows => "ShapeError/Unsupported: unsupported operation"
  | raggedRows => "ShapeError/IncompatibleShape: incompatible shapes"

/-- The matrix whose rows are the given ones. -/
def Matrix.ofRows {α : Type} [Zero α] (rows : Array (Array α)) : Except StackError (Matrix α) :=
  match rows[0]? with
  | none => .error .noRows
  | some first =>
    if rows.all fun row => row.size == first.size then
      .ok (Matrix.ofFn rows.size first.size fun i j => (rows.getD i #[]).getD j 0)
    else .error .raggedRows

end DeferredReward
