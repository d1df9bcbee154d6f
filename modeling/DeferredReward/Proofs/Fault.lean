import DeferredReward.Fault

/-!
# Computations that meet no fault

A computation of several steps has a result exactly when every step has one. Two
computations have the same outcome when they meet the same fault or have results
that are related as a statement wants them; step by step this is so for the
whole when it is so for every step.
-/

namespace DeferredReward

variable {ε β γ : Type}

/-- A computation with a result has a result of its first step, and goes on from there. -/
theorem exists_of_bind_eq_ok {first : Except ε β} {next : β → Except ε γ} {result : γ}
    (h : (first >>= next) = .ok result) : ∃ value, first = .ok value ∧ next value = .ok result := by
  cases first with
  | error e => cases h
  | ok value => exact ⟨value, rfl, h⟩

/-- A step with a result is followed by the next one. -/
theorem bind_eq_of_ok {first : Except ε β} {next : β → Except ε γ} {value : β}
    (h : first = .ok value) : (first >>= next) = next value := by
  rw [h]
  rfl

/-- Both computations meet the same fault, or both have results and these are related. -/
inductive SameOutcome {β γ : Type} (related : β → γ → Prop) :
    Except Fault β → Except Fault γ → Prop where
  /-- The same fault. -/
  | fault (cause : Fault) : SameOutcome related (.error cause) (.error cause)
  /-- Related results. -/
  | result {x : β} {y : γ} (h : related x y) : SameOutcome related (.ok x) (.ok y)

namespace SameOutcome

variable {β γ β' γ' : Type} {related : β → γ → Prop} {related' : β' → γ' → Prop}

/-- The same computation agrees with itself. -/
theorem of_eq {x y : Except Fault β} (h : x = y) : SameOutcome Eq x y := by
  subst h
  cases x with
  | error cause => exact .fault cause
  | ok value => exact .result rfl

/-- Computations that agree and go on in agreement agree as a whole. -/
theorem bind {x : Except Fault β} {y : Except Fault γ} {f : β → Except Fault β'}
    {g : γ → Except Fault γ'} (h : SameOutcome related x y)
    (hnext : ∀ a b, related a b → SameOutcome related' (f a) (g b)) :
    SameOutcome related' (x >>= f) (y >>= g) := by
  cases h with
  | fault cause => exact .fault cause
  | result h => exact hnext _ _ h

/-- What follows from one relation of the results relates the computations in its way too. -/
theorem imp {x : Except Fault β} {y : Except Fault γ} {stronger : β → γ → Prop}
    (h : SameOutcome stronger x y) (himp : ∀ a b, stronger a b → related a b) :
    SameOutcome related x y := by
  cases h with
  | fault cause => exact .fault cause
  | result h => exact .result (himp _ _ h)

/-- Functions of the results of computations that agree. -/
theorem map {x : Except Fault β} {y : Except Fault γ} {f : β → β'} {g : γ → γ'}
    (h : SameOutcome related x y) (hmap : ∀ a b, related a b → related' (f a) (g b)) :
    SameOutcome related' (x.map f) (y.map g) := by
  cases h with
  | fault cause => exact .fault cause
  | result h => exact .result (hmap _ _ h)

end SameOutcome

end DeferredReward
