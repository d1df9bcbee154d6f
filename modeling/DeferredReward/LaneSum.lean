/-!
# Sums in eight lanes

Numbers that lie side by side in memory are added in eight running sums, each of
which takes one of every eight numbers. At the end the first is added to the fifth,
the second to the sixth and so on, these four are added up, and what is left of the
numbers follows one by one. Where addition is associative and commutative this is
their sum; on doubles it is rounded differently from the sum in order as soon as
there are eight of them.
-/

namespace DeferredReward

variable {α : Type}

/-- Eight running sums. -/
structure LaneSums (α : Type) where
  first : α
  second : α
  third : α
  fourth : α
  fifth : α
  sixth : α
  seventh : α
  eighth : α

namespace LaneSums

/-- Eight sums of nothing. -/
def empty [Zero α] : LaneSums α := ⟨0, 0, 0, 0, 0, 0, 0, 0⟩

/-- The sums after as many eights of values as there are, and the values that are left. -/
def addEights [Add α] (s : LaneSums α) : List α → LaneSums α × List α
  | a :: b :: c :: d :: e :: f :: g :: h :: rest =>
    addEights ⟨s.first + a, s.second + b, s.third + c, s.fourth + d,
      s.fifth + e, s.sixth + f, s.seventh + g, s.eighth + h⟩ rest
  | rest => (s, rest)

/-- The sums added up, each with the one four places on. -/
def joined [Zero α] [Add α] (s : LaneSums α) : α :=
  0 + (s.first + s.fifth) + (s.second + s.sixth) + (s.third + s.seventh) + (s.fourth + s.eighth)

end LaneSums

/-- The sum of values that lie side by side. -/
@[specialize] def laneSum [Zero α] [Add α] (values : List α) : α :=
  let (sums, rest) := LaneSums.empty.addEights values
  rest.foldl (· + ·) sums.joined

end DeferredReward
