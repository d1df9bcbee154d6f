import DeferredReward.Catalog
import DeferredReward.Fault

/-!
# Parameter catalogs

The parameters of a network, its gradients and its snapshots are catalogs of
matrices. `mismatch?` is the one comparison that loading, optimizing and
blending make between two of them.
-/

namespace DeferredReward

/-- Named matrices: the parameters of a network or their gradients. -/
abbrev Parameters (α : Type) := Catalog (Matrix α)

namespace Parameters

variable {α β : Type}

/-- Whether the catalog holds a matrix of that shape under that name. -/
def hasShape (p : Parameters α) (name : String) (shape : Shape) : Bool :=
  match p.find? name with
  | some m => m.shape == shape
  | none => false

/-- The matrix under a name that has to be there. -/
def fetch (p : Parameters α) (name : String) : Except Fault (Matrix α) :=
  match p.find? name with
  | some m => .ok m
  | none => .error (.missingName name)

/-- The first name of `own` that `other` lacks or holds with another shape. -/
def mismatch? (own : Parameters α) (other : Parameters β) : Option String :=
  (own.entries.find? fun entry => !other.hasShape entry.1 entry.2.shape).map Prod.fst

/-- No mismatch means that every name of `own` is in `other` with its shape. -/
theorem mismatch?_eq_none_iff (own : Parameters α) (other : Parameters β) :
    own.mismatch? other = none ↔
      ∀ entry ∈ own.entries, other.hasShape entry.1 entry.2.shape = true := by
  simp [mismatch?]

end Parameters

end DeferredReward
