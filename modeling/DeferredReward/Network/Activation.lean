import DeferredReward.Arithmetic

/-!
# Activations

An activation layer applies one function to every element, and needs the slope
of that function for the backward pass. `Pointwise` is such a pair, of any two
functions; `Activation` lists the three that a configuration can name.
-/

namespace DeferredReward

/-- A function of one number with the slope that backward passes use for it. -/
structure Pointwise (α : Type) where
  /-- The function. -/
  value : α → α
  /-- Its slope. -/
  slope : α → α

/-- The activations that can be chosen by name. -/
inductive Activation where
  /-- Negative numbers become zero. -/
  | relu
  /-- The hyperbolic tangent. -/
  | tanh
  /-- The logistic curve from zero to one. -/
  | sigmoid
  deriving DecidableEq, Repr

namespace Activation

/-- Hidden layers are rectified unless a configuration says otherwise. -/
instance : Inhabited Activation := ⟨relu⟩

/-- The name in configurations. -/
def name : Activation → String
  | relu => "relu"
  | tanh => "tanh"
  | sigmoid => "sigmoid"

/-- Every activation, in the order in which messages list them. -/
def all : List Activation := [relu, tanh, sigmoid]

/-- The activation of that name. -/
def ofName? (name : String) : Option Activation := all.find? fun a => a.name == name

@[simp] theorem ofName?_name (a : Activation) : ofName? a.name = some a := by
  cases a <;> decide

variable {α : Type} [Analysis α]

/-- The logistic function `1 / (1 + exp (-x))`. -/
def logistic (x : α) : α := 1 / (1 + Analysis.exp (-x))

/-- The function and slope of an activation. The slope of the rectifier at
zero is zero. -/
def curve : Activation → Pointwise α
  | relu => ⟨fun x => Arithmetic.larger x 0, fun x => if Arithmetic.less 0 x then 1 else 0⟩
  | tanh => ⟨Analysis.tanh, fun x => 1 - Analysis.tanh x * Analysis.tanh x⟩
  | sigmoid => ⟨logistic, fun x => logistic x * (1 - logistic x)⟩

end Activation

end DeferredReward
