import DeferredReward.Arithmetic

/-!
# Averages of consecutive blocks

A curve is smoothed by cutting it into consecutive blocks of one length and
taking the mean of each. The places of the blocks are machine words: from the
start of a block its end is the start plus the block length, or the end of the
curve when that is not beyond it.
-/

namespace DeferredReward

variable {α : Type}

/-- The sum of values in their order, started from the zero that is neutral for
every value, the negative one included. -/
def sumFrom [Arithmetic α] (values : List α) : α := values.foldl (· + ·) (-0)

/-- The mean of the values. -/
def mean [Arithmetic α] (values : List α) : α :=
  sumFrom values / NatCast.natCast values.length

/-- The end of the block that starts at `start` in a curve of `length` values. -/
def blockEnd (window length start : UInt64) : UInt64 :=
  if start + window < length then start + window else length

/-- The means of the blocks from `start` on, at most `fuel` of them. -/
def averagesFrom [Arithmetic α] (window : UInt64) (values : Array α) :
    (fuel : Nat) → (start : UInt64) → List α
  | 0, _ => []
  | fuel + 1, start =>
    let length := UInt64.ofNat values.size
    if start < length then
      let stop := blockEnd window length start
      mean (values.extract start.toNat stop.toNat).toList :: averagesFrom window values fuel stop
    else []

/-- The means of consecutive blocks of `window` values; the last block holds
what is left, and a window of zero counts as one. -/
def blockAverages [Arithmetic α] (window : UInt64) (values : Array α) : List α :=
  averagesFrom (max window 1) values values.size 0

end DeferredReward
