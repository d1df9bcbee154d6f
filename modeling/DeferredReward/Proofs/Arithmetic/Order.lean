import DeferredReward.Proofs.Arithmetic.Doubles
import DeferredReward.Proofs.Arithmetic.Exact
import Mathlib.Tactic.NormNum

/-!
# Numbers that can be compared

The order tests of an arithmetic decide between any two numbers that are defined, and
none of them holds of a number that is not. This is all that is needed to move a number
into an interval. The real numbers are all defined. Doubles are compared with regard to
signed zeros and infinities, and turned round a comparison gives the opposite answer. A
double between zero and one stands for a number that lies there.

Main statements: `Double.compare_swap`, `Double.compare_eq_none_iff`, `Double.exists_number`,
`Arithmetic.clamp_mem`.
-/

namespace DeferredReward

/-- The order tests decide between numbers that are defined. -/
class OrderTests (α : Type) [Arithmetic α] : Prop where
  /-- No number is smaller than itself. -/
  less_self (x : α) : Arithmetic.less x x = false
  /-- A number is at most another when both are defined and the other is not smaller. -/
  atMost_iff (x y : α) : Arithmetic.atMost x y = true ↔
    Arithmetic.isNaN x = false ∧ Arithmetic.isNaN y = false ∧ Arithmetic.less y x = false

instance : OrderTests ℝ where
  less_self x := decide_eq_false (lt_irrefl x)
  atMost_iff x y := by
    have hdefined : ∀ z : ℝ, Arithmetic.isNaN z = false := fun _ => rfl
    rw [Arithmetic.atMost_eq, Arithmetic.less_eq, hdefined, hdefined, decide_eq_true_eq,
      decide_eq_false_iff_not, not_lt]
    exact ⟨fun h => ⟨rfl, rfl, h⟩, fun h => h.2.2⟩

namespace Double

open Float.Model Float.Model.UnpackedFloat

/-- A comparison turned round has the opposite answer. -/
theorem compare_swap (a b : UnpackedFloat) :
    b.compare a = (a.compare b).map Ordering.swap := by
  have hswap : ∀ (e e' : ℤ) (m m' : ℕ), (compare e' e).then (compare m' m) =
      ((compare e e').then (compare m m')).swap := by
    intro e e' m m'
    rw [Ordering.swap_then, ← Std.OrientedOrd.eq_swap, ← Std.OrientedOrd.eq_swap]
  cases a with
  | notANumber => cases b <;> rfl
  | infinity sign =>
    cases b with
    | infinity sign' => cases sign <;> cases sign' <;> rfl
    | notANumber | zero | finite => cases sign <;> rfl
  | zero sign =>
    cases b with
    | notANumber | zero => rfl
    | infinity sign' | finite sign' => cases sign' <;> rfl
  | finite sign m e =>
    cases b with
    | notANumber => rfl
    | zero => cases sign <;> rfl
    | infinity sign' => cases sign <;> cases sign' <;> rfl
    | finite sign' m' e' =>
      -- Of two finite numbers of one sign the exponents decide, and then the mantissas.
      cases sign <;> cases sign'
      · exact congrArg (fun order => some order.swap) (hswap e e' m m')
      · rfl
      · rfl
      · exact congrArg some (hswap e e' m m')

theorem exists_compare {a b : UnpackedFloat} (ha : a ≠ .notANumber) (hb : b ≠ .notANumber) :
    ∃ order, a.compare b = some order := by
  cases a with
  | notANumber => exact absurd rfl ha
  | infinity sign =>
    cases b with
    | notANumber => exact absurd rfl hb
    | infinity | zero | finite => cases sign <;> exact ⟨_, rfl⟩
  | zero sign =>
    cases b with
    | notANumber => exact absurd rfl hb
    | zero => exact ⟨_, rfl⟩
    | infinity sign' | finite sign' => cases sign' <;> exact ⟨_, rfl⟩
  | finite sign m e =>
    cases b with
    | notANumber => exact absurd rfl hb
    | zero => cases sign <;> exact ⟨_, rfl⟩
    | infinity sign' | finite sign' => cases sign <;> cases sign' <;> exact ⟨_, rfl⟩

/-- There is an answer unless one of the numbers is undefined. -/
theorem compare_eq_none_iff (a b : UnpackedFloat) :
    a.compare b = none ↔ a = .notANumber ∨ b = .notANumber := by
  have hundefined : ∀ b : UnpackedFloat, UnpackedFloat.notANumber.compare b = none :=
    fun b => by cases b <;> rfl
  constructor
  · intro h
    by_contra hdefined
    rw [not_or] at hdefined
    obtain ⟨order, horder⟩ := exists_compare hdefined.1 hdefined.2
    rw [h] at horder
    cases horder
  · rintro (rfl | rfl)
    · exact hundefined b
    · rw [compare_swap .notANumber a, hundefined, Option.map_none]

theorem less_eq_compare (x y : Float) : Arithmetic.less x y =
    (x.toModel.unpack.compare y.toModel.unpack == some .lt) :=
  (Bool.decide_eq_true (b := x.lt y)).trans (Bool.decide_eq_true (b := x.toModel.lt y.toModel))

theorem atMost_eq_compare (x y : Float) : Arithmetic.atMost x y =
    (x.toModel.unpack.compare y.toModel.unpack).any Ordering.isLE :=
  (Bool.decide_eq_true (b := x.le y)).trans (Bool.decide_eq_true (b := x.toModel.le y.toModel))

theorem isNaN_eq_false_iff (x : Float) :
    Arithmetic.isNaN x = false ↔ x.toModel.unpack ≠ .notANumber := by
  have hmodel : Arithmetic.isNaN x = (x.toModel.unpack matches .notANumber) := rfl
  rw [hmodel]
  cases x.toModel.unpack with
  | notANumber => exact iff_of_false Bool.noConfusion fun hne => hne rfl
  | infinity | zero | finite => exact iff_of_true rfl fun heq => nomatch heq

instance : OrderTests Float where
  less_self x := by
    have hself := compare_swap x.toModel.unpack x.toModel.unpack
    rw [less_eq_compare]
    cases horder : x.toModel.unpack.compare x.toModel.unpack with
    | none => rfl
    | some order =>
      rw [horder] at hself
      cases order with
      | lt => cases hself
      | eq | gt => rfl
  atMost_iff x y := by
    rw [less_eq_compare, atMost_eq_compare, compare_swap x.toModel.unpack, isNaN_eq_false_iff,
      isNaN_eq_false_iff, ← and_assoc, ← not_or, ← compare_eq_none_iff]
    cases x.toModel.unpack.compare y.toModel.unpack with
    | none => simp
    | some order => cases order <;> simp

/-! ## The numbers that doubles stand for -/

/-- The number that a double stands for, if it is finite. -/
noncomputable def number? (x : Float) : Option ℝ :=
  match x.toModel.unpack with
  | .zero _ => some 0
  | .finite sign mantissa exponent _ => some (sign.apply mantissa * ((2 : ℕ) : ℝ) ^ exponent)
  | .infinity _ | .notANumber => none

/-- A mantissa that has no more bits than the exponent takes away gives at most one. -/
theorem scaled_le_one {mantissa place : ℕ} {exponent : ℤ} (hmantissa : mantissa ≤ 2 ^ place)
    (hexponent : exponent ≤ -place) : (mantissa : ℝ) * 2 ^ exponent ≤ 1 := by
  have hcast : (mantissa : ℝ) ≤ 2 ^ place := by exact_mod_cast hmantissa
  calc (mantissa : ℝ) * 2 ^ exponent
      ≤ 2 ^ place * 2 ^ (-place : ℤ) :=
        mul_le_mul hcast (zpow_le_zpow_right₀ one_le_two hexponent) (by positivity) (by positivity)
    _ = 1 := by
        rw [zpow_neg, zpow_natCast]
        exact mul_inv_cancel₀ (by positivity)

/-- A double that the tests place between zero and one stands for a number that is. -/
theorem exists_number {x : Float} (hlow : Arithmetic.atMost 0 x = true)
    (hhigh : Arithmetic.atMost x 1 = true) :
    ∃ r, number? x = some r ∧ 0 ≤ r ∧ r ≤ 1 := by
  have hlow : (UnpackedFloat.zero .positive).le x.toModel.unpack = true := le_of_atMost hlow
  have hhigh : x.toModel.unpack.le (.finite .positive (2 ^ 52) (-52) (by decide)) = true :=
    le_of_atMost hhigh
  cases hx : x.toModel.unpack with
  | notANumber =>
    rw [hx] at hlow
    cases hlow
  | infinity sign =>
    rw [hx] at hlow hhigh
    cases sign with
    | positive => cases hhigh
    | negative => cases hlow
  | zero sign => exact ⟨0, by rw [number?, hx], le_rfl, zero_le_one⟩
  | finite sign mantissa exponent hpos =>
    rw [hx] at hlow hhigh
    cases sign with
    | negative => cases hlow
    | positive =>
      have horder : exponent < -52 ∨ exponent = -52 ∧ mantissa ≤ 2 ^ 52 := by
        have hcompare : ((compare exponent (-52)).then (compare mantissa (2 ^ 52))).isLE = true :=
          hhigh
        rwa [Ordering.isLE_then_iff_or, Int.compare_eq_lt, Int.compare_eq_eq, Nat.isLE_compare]
          at hcompare
      refine ⟨mantissa * 2 ^ exponent, ?_, by positivity, ?_⟩
      · rw [number?, hx, Nat.cast_ofNat]
        rfl
      · obtain hsmall | ⟨hone, hle⟩ := horder
        · exact scaled_le_one (mantissa_lt hx).le (by omega)
        · exact scaled_le_one hle (by omega)

end Double

namespace Arithmetic

variable {α : Type} [Arithmetic α] [OrderTests α] {low high x : α}

theorem atMost_self (hx : isNaN x = false) : atMost x x = true :=
  (OrderTests.atMost_iff x x).2 ⟨hx, hx, OrderTests.less_self x⟩

/-- A number that is defined is moved between the bounds. -/
theorem clamp_mem (hbounds : atMost low high = true) (hx : isNaN x = false) :
    atMost low (clamp low high x) = true ∧ atMost (clamp low high x) high = true := by
  obtain ⟨hlow, hhigh, _⟩ := (OrderTests.atMost_iff low high).1 hbounds
  rw [clamp]
  cases hbelow : less x low with
  | true => exact ⟨atMost_self hlow, hbounds⟩
  | false =>
    cases habove : less high x with
    | true => exact ⟨hbounds, atMost_self hhigh⟩
    | false =>
      exact ⟨(OrderTests.atMost_iff low x).2 ⟨hlow, hx, hbelow⟩,
        (OrderTests.atMost_iff x high).2 ⟨hx, hhigh, habove⟩⟩

/-- A number between the bounds stays where it is. -/
theorem clamp_eq_self (hlow : atMost low x = true) (hhigh : atMost x high = true) :
    clamp low high x = x := by
  have hbelow := ((OrderTests.atMost_iff low x).1 hlow).2.2
  have habove := ((OrderTests.atMost_iff x high).1 hhigh).2.2
  rw [clamp, hbelow, habove]
  rfl

end Arithmetic

end DeferredReward
