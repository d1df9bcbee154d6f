import DeferredReward.Json.Wanted
import DeferredReward.Proofs.Json.Containers
import DeferredReward.Snapshot.Text
import Mathlib.Data.List.TakeWhile

/-!
# Numbers read back

The digits of a number end where something else begins, and stand for the number
that they are the digits of. A natural number within the limit of a field is read
back from its digits.

Main statements: `unsignedNumber_digits`, `unsigned_answers`.
-/

namespace DeferredReward.Json

/-- The text does not begin with a digit. -/
def NoDigit (rest : List Char) : Prop := ∀ c ∈ rest.head?, c.isDigit = false

/-- What stands behind a value begins with one of these: blanks, a comma, the ends of containers. -/
def endings : List Char := [' ', '\n', '\t', '\r', ',', ']', '}']

/-- The text ends, or goes on with what can stand behind a value. -/
def Ends (rest : List Char) : Prop := ∀ c ∈ rest.head?, c ∈ endings

theorem Ends.noDigit {rest : List Char} (h : Ends rest) : NoDigit rest := by
  have hall : endings.all (fun c => !c.isDigit) = true := rfl
  exact fun c hc => by simpa using List.all_eq_true.1 hall c (h c hc)

/-- What follows a value in a compact text can stand behind it in any text. -/
theorem Follows.ends {rest : List Char} (h : Follows rest) : Ends rest := by
  intro c hc
  cases h with
  | nothing => cases hc
  | comma | bracket | brace =>
    cases hc
    decide

theorem Follows.noDigit {rest : List Char} (h : Follows rest) : NoDigit rest := h.ends.noDigit

/-- Digits before something else are found. -/
theorem takeWhile_digits {digits rest : List Char} (hdigits : ∀ c ∈ digits, c.isDigit = true)
    (hrest : NoDigit rest) :
    (digits ++ rest).takeWhile Char.isDigit = digits ∧
      (digits ++ rest).dropWhile Char.isDigit = rest := by
  rw [List.takeWhile_append_of_pos hdigits, List.dropWhile_append_of_pos hdigits]
  cases rest with
  | nil => exact ⟨List.append_nil _, rfl⟩
  | cons c rest =>
    have hc := hrest c rfl
    rw [List.takeWhile_cons_of_neg (by simp [hc]), List.dropWhile_cons_of_neg (by simp [hc])]
    exact ⟨List.append_nil _, rfl⟩

theorem digitsValue_eq (digits : List Char) :
    digitsValue digits = Nat.ofDigitChars 10 digits 0 := by
  unfold digitsValue Nat.ofDigitChars
  refine congrArg (fun f => digits.foldl f 0) ?_
  funext value c
  rw [Nat.mul_comm]

/-- The digits of a number stand for it. -/
theorem digitsValue_repr (n : Nat) : digitsValue n.repr.toList = n := by
  rw [digitsValue_eq, Nat.toList_repr, Nat.ofDigitChars_ten_toDigits]

theorem isDigit_of_mem_repr {n : Nat} : ∀ c ∈ n.repr.toList, c.isDigit = true := by
  intro c hc
  rw [Nat.toList_repr] at hc
  exact Nat.isDigit_of_mem_toDigits (by decide) (by decide) hc

/-- Only zero has a zero as its first digit. -/
theorem head_repr_ne_zero {n : Nat} (h : 0 < n) :
    ∃ c rest, n.repr.toList = c :: rest ∧ c ≠ '0' := by
  rw [Nat.toList_repr]
  induction n using Nat.strong_induction_on with
  | _ n ih =>
    rw [Nat.toDigits_eq_if (by decide)]
    split
    · rename_i hsmall
      refine ⟨_, [], rfl, ?_⟩
      have hall : ∀ n < 10, 0 < n → n.digitChar ≠ '0' := by decide
      exact hall n hsmall h
    · obtain ⟨c, rest, hdigits, hc⟩ := ih (n / 10) (by omega) (by omega)
      exact ⟨c, rest ++ [(n % 10).digitChar], by rw [hdigits]; rfl, hc⟩

/-- Digits can be those of a number: there are some, and a leading zero stands alone. -/
def IsNumeral (digits : List Char) : Prop :=
  digits = ['0'] ∨ ∃ c rest, digits = c :: rest ∧ c ≠ '0' ∧ ∀ c ∈ digits, c.isDigit = true

theorem isNumeral_repr (n : Nat) : IsNumeral n.repr.toList := by
  rcases Nat.eq_zero_or_pos n with rfl | hpos
  · exact .inl rfl
  · obtain ⟨c, rest, hdigits, hc⟩ := head_repr_ne_zero hpos
    exact .inr ⟨c, rest, hdigits, hc, isDigit_of_mem_repr⟩

/-- The digits of a number are read up to what follows them. -/
theorem unsignedNumber_digits (source : Source) (negative : Bool) {digits rest : List Char}
    (hdigits : IsNumeral digits) (hrest : NoDigit rest) :
    unsignedNumber source negative (digits ++ rest) =
      continued source negative digits rest := by
  rcases hdigits with rfl | ⟨c, tail, rfl, hzero, hall⟩
  · cases rest with
    | nil => rfl
    | cons d rest =>
      have hd := hrest d rfl
      rw [List.singleton_append, unsignedNumber.eq_def]
      dsimp only
      rw [if_pos rfl, hd]
      rfl
  · rw [List.forall_mem_cons] at hall
    obtain ⟨htake, hdrop⟩ := takeWhile_digits hall.2 hrest
    rw [List.cons_append, unsignedNumber.eq_def]
    dsimp only
    rw [if_neg hzero, if_pos hall.1, htake, hdrop]

/-- A numeral begins a value. -/
theorem opens_of_isNumeral {digits : List Char} (h : IsNumeral digits) :
    ∃ c rest, digits = c :: rest ∧ c.isDigit = true := by
  rcases h with rfl | ⟨c, rest, rfl, _, hall⟩
  · exact ⟨'0', [], rfl, rfl⟩
  · exact ⟨c, rest, rfl, hall c List.mem_cons_self⟩

/-- A digit is no blank and closes no container. -/
theorem of_isDigit {c : Char} (h : c.isDigit = true) :
    isBlank c = false ∧ c ≠ ']' ∧ c ≠ '}' ∧ c ≠ '-' := by
  have hne : ∀ d : Char, d.isDigit = false → c ≠ d := by
    rintro d hd rfl
    rw [h] at hd
    cases hd
  refine ⟨?_, hne ']' rfl, hne '}' rfl, hne '-' rfl⟩
  unfold isBlank
  simp [hne ' ' rfl, hne '\n' rfl, hne '\t' rfl, hne '\r' rfl]

/-- A number is read after its sign, when there is one. -/
theorem numberAs_eq {β : Type} (expected : String) (convert : Number → Except Mismatch β)
    (negative : Bool) {digits : List Char} (hdigits : IsNumeral digits) {rest : List Char}
    (hrest : NoDigit rest) {n : Number} {x : β} {after : List Char}
    (hread : continued .stream negative digits rest = .ok (n, after))
    (hconvert : convert n = .ok x) :
    Snapshot.numberAs expected convert
      ((if negative then ['-'] else []) ++ (digits ++ rest)) = .ok (x, after) := by
  have hnumber := unsignedNumber_digits .stream negative hdigits hrest
  rw [hread] at hnumber
  obtain ⟨c, tail, rfl, hc⟩ := opens_of_isNumeral hdigits
  obtain ⟨hblank, _, _, hminus⟩ := of_isDigit hc
  unfold Snapshot.numberAs
  cases negative with
  | true =>
    have hstart : valueStart ('-' :: (c :: tail ++ rest)) = .ok ('-', c :: tail ++ rest) := rfl
    rw [if_pos rfl, List.singleton_append, bind_eq_of_ok hstart]
    dsimp only
    rw [if_pos (.inl rfl), if_pos rfl, bind_eq_of_ok hnumber]
    dsimp only
    rw [hconvert]
    rfl
  | false =>
    have hstart : valueStart (c :: tail ++ rest) = .ok (c, tail ++ rest) := by
      rw [valueStart, skipBlanks, List.cons_append,
        List.dropWhile_cons_of_neg (by simp [hblank])]
    rw [if_neg Bool.false_ne_true, List.nil_append, bind_eq_of_ok hstart]
    dsimp only
    rw [if_pos (.inr hc), if_neg hminus]
    have hnumber : unsignedNumber .stream false (c :: (tail ++ rest)) = .ok (n, after) := hnumber
    rw [bind_eq_of_ok hnumber]
    dsimp only
    rw [hconvert]
    rfl

/-- Nothing that can stand behind a value continues a whole number or a fraction. -/
theorem Ends.continues_nothing {rest : List Char} (h : Ends rest) (source : Source)
    (negative : Bool) :
    (∀ digits, continued source negative digits rest =
      inRange source (wholeNumber negative (digitsValue digits)) rest) ∧
    ∀ significand exponent, scaled source negative significand exponent rest =
      inRange source (realNumber negative significand exponent) rest := by
  cases rest with
  | nil => exact ⟨fun _ => rfl, fun _ _ => rfl⟩
  | cons c tail =>
    have hc := h c rfl
    simp only [endings, List.mem_cons, List.not_mem_nil, or_false] at hc
    obtain rfl | rfl | rfl | rfl | rfl | rfl | rfl := hc
    all_goals exact ⟨fun _ => rfl, fun _ _ => rfl⟩

/-- The text of a natural number. -/
theorem chars_ofNat (n : Nat) : chars (ofNat n) = n.repr.toList := by
  have hnonneg : ¬(n : Int) < 0 := Int.not_lt.2 (Int.natCast_nonneg n)
  rw [ofNat, chars, Number.text, if_neg hnonneg, Int.natAbs_natCast]

theorem opens_ofNat (n : Nat) : Opens (chars (ofNat n)) := by
  obtain ⟨c, rest, hdigits, hc⟩ := opens_of_isNumeral (isNumeral_repr n)
  obtain ⟨hblank, hbracket, hbrace, _⟩ := of_isDigit hc
  rw [chars_ofNat]
  exact ⟨c, rest, hdigits, hblank, hbracket, hbrace⟩

/-- A natural number below the limit is read back. -/
theorem unsigned_answers {limit n : Nat} (hlimit : n < limit) (hword : n < UInt64.size)
    (expected : String) :
    Answers (Snapshot.unsigned limit expected) (chars (ofNat n)) (some n) := by
  intro rest hrest
  have hread : continued .stream false n.repr.toList rest = .ok (.integer n, rest) := by
    rw [(hrest.ends.continues_nothing .stream false).1, digitsValue_repr, wholeNumber, if_neg Bool.false_ne_true,
      if_pos hword]
    rfl
  have hconvert : Number.unsigned limit expected (.integer n) = .ok n := by
    rw [Number.unsigned, if_pos ⟨Int.natCast_nonneg n, Int.ofNat_lt.2 hlimit⟩, Int.toNat_natCast]
  have hwhole := numberAs_eq expected (Number.unsigned limit expected) false (isNumeral_repr n)
    hrest.noDigit hread hconvert
  rw [chars_ofNat]
  exact hwhole

end DeferredReward.Json
