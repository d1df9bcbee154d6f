import DeferredReward.Proofs.Decimal.Doubles
import DeferredReward.Proofs.Decimal.Shortest
import DeferredReward.Proofs.Json.Grammar
import Mathlib.Tactic.NormNum
import Mathlib.Tactic.Positivity
import Mathlib.Tactic.Ring

/-!
# Doubles read back

The text of a decimal, positional or with an exponent, is read as a decimal of
the same value. A finite double is written by a decimal that rounds to it, and
so it is read back, sign included.

Main statements: `readsAs_text`, `ofFloat_answers`.
-/

namespace DeferredReward.Json

/-! ## Fractions and exponents -/

/-- Digits behind the point are read up to what follows them. -/
theorem continued_point (source : Source) (negative : Bool) (whole : List Char)
    {fraction rest : List Char} (hdigits : Digits fraction) (hrest : NoDigit rest) :
    continued source negative whole ('.' :: (fraction ++ rest)) =
      scaled source negative (digitsValue (whole ++ fraction)) (-fraction.length) rest := by
  obtain ⟨htake, hdrop⟩ := takeWhile_digits hdigits.isDigit hrest
  obtain ⟨c, fraction, rfl⟩ := List.exists_cons_of_ne_nil hdigits.ne_nil
  rw [continued, htake, hdrop]

/-- Digits that stand for a number within the exponent limit do not exceed it. -/
theorem excess?_of_digits {digits rest : List Char} (hdigits : ∀ c ∈ digits, c.isDigit = true)
    (hrest : NoDigit rest) (n : Nat) (hlimit : Nat.ofDigitChars 10 digits n ≤ exponentLimit) :
    excess? n (digits ++ rest) = none := by
  induction digits generalizing n with
  | nil =>
    cases rest with
    | nil => rfl
    | cons c rest =>
      rw [List.nil_append, excess?, hrest c rfl]
      rfl
  | cons c digits ih =>
    rw [List.forall_mem_cons] at hdigits
    have hvalue : Nat.ofDigitChars 10 (c :: digits) n =
        Nat.ofDigitChars 10 digits (n * 10 + (c.toNat - '0'.toNat)) := by
      rw [Nat.ofDigitChars_cons, Nat.mul_comm]
    rw [hvalue] at hlimit
    have hgrows : n * 10 + (c.toNat - '0'.toNat) ≤
        Nat.ofDigitChars 10 digits (n * 10 + (c.toNat - '0'.toNat)) := by
      rw [Nat.ofDigitChars_eq_ofDigitChars_zero]
      exact Nat.le_add_right_of_le (Nat.le_mul_of_pos_left _ (Nat.pow_pos (by decide)))
    rw [List.cons_append, excess?, if_pos hdigits.1]
    dsimp only
    rw [if_neg (by omega)]
    exact ih hdigits.2 _ hlimit

/-- The digits of an exponent are read up to what follows them. -/
theorem exponentDigits_of_digits {significand : ℕ} {negative : Bool} {digits rest : List Char}
    (hdigits : Digits digits)
    (hlimit : digitsValue digits ≤ exponentLimit ∨ negative = true ∨ significand = 0)
    (hrest : NoDigit rest) :
    exponentDigits significand negative (digits ++ rest) =
      .ok (if negative then -(digitsValue digits : ℤ) else digitsValue digits, rest) := by
  obtain ⟨htake, hdrop⟩ := takeWhile_digits hdigits.isDigit hrest
  have hharmless : excess? 0 (digits ++ rest) = none ∨ (!negative && significand != 0) = false := by
    obtain hsmall | rfl | rfl := hlimit
    · rw [digitsValue_eq] at hsmall
      exact .inl (excess?_of_digits hdigits.isDigit hrest 0 hsmall)
    · exact .inr rfl
    · exact .inr (Bool.and_false _)
  obtain ⟨c, tail, rfl⟩ := List.exists_cons_of_ne_nil hdigits.ne_nil
  have hc := hdigits.isDigit c List.mem_cons_self
  rw [List.cons_append] at *
  rw [exponentDigits, if_pos hc]
  split
  · rename_i hexcess hcounts
    obtain hnone | hfalse := hharmless
    · rw [hnone] at hexcess
      cases hexcess
    · rw [hfalse] at hcounts
      cases hcounts
  · rw [htake, hdrop]

/-- An exponent is read after its letter. -/
theorem exponentPart_of_digits {significand : ℕ} {sign digits rest : List Char} {negative : Bool}
    (hsign : (sign, negative) ∈ exponentSigns) (hdigits : Digits digits)
    (hlimit : digitsValue digits ≤ exponentLimit ∨ negative = true ∨ significand = 0)
    (hrest : NoDigit rest) :
    exponentPart significand (sign ++ (digits ++ rest)) =
      .ok (if negative then -(digitsValue digits : ℤ) else digitsValue digits, rest) := by
  have hread := exponentDigits_of_digits hdigits hlimit hrest
  simp only [exponentSigns, List.mem_cons, Prod.mk.injEq, List.not_mem_nil, or_false] at hsign
  obtain ⟨rfl, rfl⟩ | ⟨rfl, rfl⟩ | ⟨rfl, rfl⟩ := hsign
  · -- Without a sign the first digit is met in its place, and is none.
    obtain ⟨c, tail, rfl⟩ := List.exists_cons_of_ne_nil hdigits.ne_nil
    have hc := hdigits.isDigit c List.mem_cons_self
    rw [List.nil_append, List.cons_append, exponentPart]
    · exact hread
    · rintro rest' heq
      obtain ⟨rfl, -⟩ := List.cons.inj heq
      cases hc
    · rintro rest' heq
      obtain ⟨rfl, -⟩ := List.cons.inj heq
      cases hc
  · exact hread
  · exact hread

/-- What follows the digits of a number is read as its exponent. -/
theorem SpellsExponent.scaled_eq {significand : ℕ} {amount : ℤ} {text rest : List Char}
    (h : SpellsExponent significand amount text) (hrest : Ends rest) (source : Source)
    (negative : Bool) (exponent : ℤ) :
    scaled source negative significand exponent (text ++ rest) =
      inRange source (realNumber negative significand (exponent + amount)) rest := by
  cases h with
  | absent =>
    rw [List.nil_append, Int.add_zero]
    exact (hrest.continues_nothing source negative).2 significand exponent
  | given hletter hsign hdigits hlimit =>
    have hread := exponentPart_of_digits hsign hdigits hlimit hrest.noDigit
    obtain rfl | rfl := hletter
    · rw [List.cons_append, List.append_assoc, scaled, bind_eq_of_ok hread]
    · rw [List.cons_append, List.append_assoc, scaled, bind_eq_of_ok hread]

/-- An exponent does not begin with a digit. -/
theorem SpellsExponent.noDigit {significand : ℕ} {amount : ℤ} {text rest : List Char}
    (h : SpellsExponent significand amount text) (hrest : Ends rest) : NoDigit (text ++ rest) := by
  cases h with
  | absent => exact hrest.noDigit
  | given hletter =>
    intro c hc
    cases hc
    obtain rfl | rfl := hletter <;> rfl

/-- What follows the whole part of a number that has a fraction or an exponent. -/
theorem continued_real {whole fraction point power rest : List Char} {amount : ℤ}
    (hfraction : SpellsFraction fraction point)
    (hexponent : SpellsExponent (digitsValue (whole ++ fraction)) amount power)
    (hsome : point ++ power ≠ []) (hrest : Ends rest) (source : Source) (negative : Bool) :
    NoDigit (point ++ (power ++ rest)) ∧
    continued source negative whole (point ++ (power ++ rest)) =
      inRange source (realNumber negative (digitsValue (whole ++ fraction))
        (-(fraction.length : ℤ) + amount)) rest := by
  have hscaled := hexponent.scaled_eq hrest source negative
  have hnone := hexponent.noDigit hrest
  cases hfraction with
  | absent =>
    refine ⟨hnone, ?_⟩
    cases hexponent with
    | absent => exact absurd rfl hsome
    | given hletter hsign hdigits hlimit =>
      have hplace : -(([] : List Char).length : ℤ) = 0 := rfl
      rw [List.append_nil] at hscaled
      rw [List.append_nil, hplace]
      obtain rfl | rfl := hletter
      · exact hscaled 0
      · exact hscaled 0
  | point h =>
    refine ⟨fun c hc => ?_, ?_⟩
    · cases hc
      rfl
    · rw [List.cons_append, continued_point source negative whole h hnone, hscaled]

/-- The digits of a number are some. -/
theorem digits_repr (n : Nat) : Digits n.repr.toList := by
  obtain ⟨c, tail, htext, _⟩ := opens_of_isNumeral (isNumeral_repr n)
  exact ⟨by rw [htext]; exact List.cons_ne_nil c tail, isDigit_of_mem_repr⟩

/-- An exponent within the limit is written as one of its spellings. -/
theorem spellsExponent_text (significand : Nat) {exponent : Int}
    (hlimit : exponent.natAbs ≤ exponentLimit) :
    SpellsExponent significand exponent
      ('e' :: ((if exponent < 0 then "-" else "+").toList ++ exponent.natAbs.repr.toList)) := by
  have hvalue := digitsValue_repr exponent.natAbs
  have hdigits := digits_repr exponent.natAbs
  by_cases hsign : exponent < 0
  · have hspells : SpellsExponent significand _ ('e' :: (['-'] ++ exponent.natAbs.repr.toList)) :=
      .given (.inl rfl) (by decide : (['-'], true) ∈ exponentSigns) hdigits (.inr (.inl rfl))
    rw [hvalue, if_pos rfl, Int.ofNat_natAbs_of_nonpos hsign.le, Int.neg_neg] at hspells
    rw [if_pos hsign]
    exact hspells
  · have hspells : SpellsExponent significand _ ('e' :: (['+'] ++ exponent.natAbs.repr.toList)) :=
      .given (.inl rfl) (by decide : (['+'], false) ∈ exponentSigns) hdigits
        (.inl (hvalue.trans_le hlimit))
    rw [hvalue, if_neg Bool.false_ne_true, Int.natAbs_of_nonneg (Int.not_lt.1 hsign)] at hspells
    rw [if_neg hsign]
    exact hspells

/-! ## The layouts -/

/-- The text is read, whatever its sign and whatever of the format follows, as the double nearest to
the decimal. -/
def ReadsAs (text : List Char) (d : Decimal) : Prop :=
  ∃ whole tail, text = whole ++ tail ∧ IsNumeral whole ∧
    ∀ source negative rest, Follows rest → NoDigit (tail ++ rest) ∧
      continued source negative whole (tail ++ rest) =
        inRange source (.real (d.withSign negative)) rest

/-- A numeral with a fraction, an exponent or both. -/
theorem readsAs_real {whole fraction point power : List Char} {amount : Int}
    (hwhole : IsNumeral whole) (hfraction : SpellsFraction fraction point)
    (hexponent : SpellsExponent (digitsValue (whole ++ fraction)) amount power)
    (hsome : point ++ power ≠ []) :
    ReadsAs (whole ++ (point ++ power))
      ⟨digitsValue (whole ++ fraction), -(fraction.length : Int) + amount⟩ := by
  refine ⟨whole, point ++ power, rfl, hwhole, fun source negative rest hrest => ?_⟩
  rw [List.append_assoc]
  exact continued_real hfraction hexponent hsome hrest.ends source negative

/-- A numeral and digits behind the point. -/
theorem readsAs_point {whole fraction : List Char} (hwhole : IsNumeral whole)
    (hfraction : ∀ c ∈ fraction, c.isDigit = true) (hne : fraction ≠ []) :
    ReadsAs (whole ++ '.' :: fraction) ⟨digitsValue (whole ++ fraction), -fraction.length⟩ := by
  have hread := readsAs_real hwhole (.point ⟨hne, hfraction⟩) .absent (List.cons_ne_nil _ _)
  rw [List.append_nil, Int.add_zero] at hread
  exact hread

/-- A numeral with an exponent. -/
theorem readsAs_exponent {whole : List Char} (hwhole : IsNumeral whole) {exponent : Int}
    (hlimit : exponent.natAbs ≤ exponentLimit) :
    ReadsAs (whole ++ 'e' :: ((if exponent < 0 then "-" else "+").toList ++
      exponent.natAbs.repr.toList)) ⟨digitsValue whole, exponent⟩ := by
  have hread := readsAs_real hwhole .absent (spellsExponent_text _ hlimit) (List.cons_ne_nil _ _)
  rw [List.append_nil, List.length_nil, Nat.cast_zero, Int.neg_zero, Int.zero_add] at hread
  exact hread

/-- A numeral with digits behind the point and an exponent. -/
theorem readsAs_point_exponent {whole fraction : List Char} (hwhole : IsNumeral whole)
    (hfraction : ∀ c ∈ fraction, c.isDigit = true) (hne : fraction ≠ []) {exponent : Int}
    (hlimit : exponent.natAbs ≤ exponentLimit) :
    ReadsAs (whole ++ '.' :: (fraction ++ 'e' :: ((if exponent < 0 then "-" else "+").toList ++
      exponent.natAbs.repr.toList)))
        ⟨digitsValue (whole ++ fraction), -fraction.length + exponent⟩ :=
  readsAs_real hwhole (.point ⟨hne, hfraction⟩) (spellsExponent_text _ hlimit)
    (List.cons_ne_nil _ _)

/-- The digits of a number other than zero, and more behind them, are a numeral. -/
theorem isNumeral_of_prefix {digits more : List Char} {n : Nat} (hpos : 0 < n)
    (hall : ∀ c ∈ digits ++ more, c.isDigit = true) (hne : digits ≠ [])
    (hdigits : ∃ rest, n.repr.toList = digits ++ rest) : IsNumeral (digits ++ more) := by
  obtain ⟨c, tail, htext, hc⟩ := head_repr_ne_zero hpos
  obtain ⟨rest, hprefix⟩ := hdigits
  obtain ⟨d, digits, rfl⟩ := List.exists_cons_of_ne_nil hne
  rw [htext] at hprefix
  obtain ⟨rfl, _⟩ := List.cons.inj hprefix
  exact .inr ⟨c, digits ++ more, rfl, hc, hall⟩

section Layouts

open Decimal

variable {d : Decimal}

theorem isDigit_of_mem_digitChars : ∀ c ∈ d.digitChars, c.isDigit = true := isDigit_of_mem_repr

theorem digitsValue_digitChars : digitsValue d.digitChars = d.digits := digitsValue_repr d.digits

theorem digitChars_ne_nil : d.digitChars ≠ [] := (digits_repr d.digits).ne_nil

theorem isDigit_of_mem_zero : ∀ c ∈ ['0'], c.isDigit = true := by
  intro c hc
  rw [List.mem_singleton.1 hc]
  rfl

theorem isDigit_of_mem_zeros {n : Nat} : ∀ c ∈ List.replicate n '0', c.isDigit = true := by
  intro c hc
  rw [List.eq_of_mem_replicate hc]
  rfl

/-- A whole number is written with one more digit behind the point. -/
theorem readsAs_whole (hpos : 0 < d.digits) {n : Nat} (hn : d.exponent = n) :
    ∃ d', ReadsAs (d.digitChars ++ List.replicate n '0' ++ ['.', '0']) d' ∧
      d'.value = d.value ∧ 0 < d'.digits := by
  have hnumeral : IsNumeral (d.digitChars ++ List.replicate n '0') :=
    isNumeral_of_prefix hpos
      (List.forall_mem_append.2 ⟨isDigit_of_mem_digitChars, isDigit_of_mem_zeros⟩)
      digitChars_ne_nil ⟨[], (List.append_nil _).symm⟩
  have hdigits : digitsValue (d.digitChars ++ List.replicate n '0' ++ ['0']) =
      10 * (10 ^ n * d.digits) := by
    have hvalue := digitsValue_digitChars (d := d)
    have hzero : ['0'] = List.replicate 1 '0' := rfl
    rw [digitsValue_eq] at hvalue ⊢
    rw [hzero, Nat.ofDigitChars_append, Nat.ofDigitChars_append, hvalue,
      Nat.ofDigitChars_replicate_zero, Nat.ofDigitChars_replicate_zero]
  have hread := readsAs_point hnumeral isDigit_of_mem_zero (List.cons_ne_nil '0' [])
  refine ⟨_, hread, ?_, ?_⟩
  · rw [Decimal.value, Decimal.value, hdigits, hn]
    push_cast
    norm_num
    ring
  · dsimp only
    rw [hdigits]
    positivity

/-- The point stands among the digits. -/
theorem readsAs_inside (hpos : 0 < d.digits) {n : Nat} (hn : 0 < n)
    (hexponent : d.exponent = (n : Int) - d.digitChars.length) (hfraction : d.exponent < 0) :
    ReadsAs (d.digitChars.take n ++ '.' :: d.digitChars.drop n) d := by
  have hall := isDigit_of_mem_digitChars (d := d)
  have hlength : (d.digitChars.drop n).length = d.digitChars.length - n := List.length_drop
  have hnumeral : IsNumeral (d.digitChars.take n ++ []) := by
    refine isNumeral_of_prefix hpos ?_ ?_ ⟨_, (List.take_append_drop n d.digitChars).symm⟩
    · rw [List.append_nil]
      exact fun c hc => hall c (List.mem_of_mem_take hc)
    · rw [← List.length_pos_iff, List.length_take]
      omega
  rw [List.append_nil] at hnumeral
  have hne : d.digitChars.drop n ≠ [] := by
    rw [← List.length_pos_iff, hlength]
    omega
  have hpoint := readsAs_point hnumeral (fun c hc => hall c (List.mem_of_mem_drop hc)) hne
  rw [List.take_append_drop, digitsValue_digitChars, hlength] at hpoint
  have hplace : -((d.digitChars.length - n : Nat) : Int) = d.exponent := by omega
  rw [hplace] at hpoint
  exact hpoint

/-- The point stands before the digits, which zeros separate from it. -/
theorem readsAs_small (n : Nat)
    (hexponent : d.exponent = -((n + d.digitChars.length : Nat) : Int)) :
    ReadsAs (['0'] ++ '.' :: (List.replicate n '0' ++ d.digitChars)) d := by
  have hdigits : digitsValue (['0'] ++ (List.replicate n '0' ++ d.digitChars)) = d.digits := by
    have hvalue := digitsValue_digitChars (d := d)
    have hzero : ['0'] = List.replicate 1 '0' := rfl
    rw [digitsValue_eq] at hvalue ⊢
    rw [hzero, Nat.ofDigitChars_append, Nat.ofDigitChars_append, Nat.ofDigitChars_replicate_zero,
      Nat.ofDigitChars_replicate_zero, Nat.mul_zero, hvalue]
  have hall : ∀ c ∈ List.replicate n '0' ++ d.digitChars, c.isDigit = true :=
    List.forall_mem_append.2 ⟨isDigit_of_mem_zeros, isDigit_of_mem_digitChars⟩
  have hpoint := readsAs_point (.inl rfl : IsNumeral ['0']) hall
    (List.append_ne_nil_of_right_ne_nil _ digitChars_ne_nil)
  rw [hdigits, List.length_append, List.length_replicate, ← hexponent] at hpoint
  exact hpoint

/-- The text without an exponent is read as a decimal of the same value. -/
theorem readsAs_positional (hpos : 0 < d.digits) :
    ∃ d', ReadsAs (d.positionalText ".0").toList d' ∧ d'.value = d.value ∧ 0 < d'.digits := by
  unfold positionalText
  dsimp only
  split
  · rename_i hwhole
    rw [String.toList_append, String.toList_ofList]
    exact readsAs_whole hpos (Int.toNat_of_nonneg hwhole).symm
  · rename_i hfraction
    rw [Int.not_le] at hfraction
    split
    · rename_i hinside
      have hread := readsAs_inside hpos hinside (by omega) hfraction
      rw [String.toList_append, String.toList_append, String.toList_ofList, String.toList_ofList,
        String.toList_ofList, List.append_assoc]
      exact ⟨d, hread, rfl, hpos⟩
    · rename_i hsmall
      have hread := readsAs_small (d := d) ((-d.exponent).toNat - d.digitChars.length) (by omega)
      rw [String.toList_append, String.toList_ofList, String.toList_ofList]
      exact ⟨d, hread, rfl, hpos⟩

/-- The text with an exponent is read as the same decimal. -/
theorem readsAs_exponentText (hpos : 0 < d.digits) (hlimit : d.leading.natAbs ≤ exponentLimit) :
    ReadsAs d.exponentText.toList d := by
  have hall := isDigit_of_mem_digitChars (d := d)
  have hvalue := digitsValue_digitChars (d := d)
  have hleading : d.leading = d.exponent + d.digitChars.length - 1 := rfl
  have hnumeral : ∀ c rest, d.digitChars = c :: rest → IsNumeral [c] := by
    intro c rest hchars
    have hprefix : IsNumeral ([c] ++ []) := by
      refine isNumeral_of_prefix hpos ?_ (List.cons_ne_nil c []) ⟨rest, hchars⟩
      intro e he
      rw [List.append_nil, List.mem_singleton] at he
      rw [he]
      exact hall c (hchars ▸ List.mem_cons_self)
    exact hprefix
  unfold exponentText
  dsimp only
  rw [String.toList_append, String.toList_append, String.toList_append]
  rcases hchars : d.digitChars with _ | ⟨c, _ | ⟨second, rest⟩⟩
  · exact absurd hchars digitChars_ne_nil
  · have hread := readsAs_exponent (hnumeral c [] hchars) hlimit
    rw [hchars] at hvalue hleading
    have hplace : d.leading = d.exponent := by
      rw [hleading, List.length_singleton]
      omega
    have hsame : (⟨d.digits, d.leading⟩ : Decimal) = d := by rw [hplace]
    rw [hvalue, hsame] at hread
    dsimp only
    rw [String.toList_ofList, String.toList_ofList, List.append_assoc, List.append_assoc]
    exact hread
  · have hread := readsAs_point_exponent (hnumeral c (second :: rest) hchars)
      (fun e he => hall e (hchars ▸ List.mem_cons_of_mem c he)) (List.cons_ne_nil second rest)
      hlimit
    rw [hchars] at hvalue hleading
    have hplace : -((second :: rest).length : Int) + d.leading = d.exponent := by
      rw [hleading, List.length_cons (a := c)]
      omega
    have hsame : (⟨d.digits, -((second :: rest).length : Int) + d.leading⟩ : Decimal) = d := by
      rw [hplace]
    rw [List.singleton_append, List.singleton_append, hvalue, hsame] at hread
    dsimp only
    rw [String.toList_ofList, String.toList_ofList, List.append_assoc, List.append_assoc]
    exact hread

/-- The text of a decimal is read as a decimal of the same value. -/
theorem readsAs_text (hlimit : d.leading.natAbs ≤ exponentLimit) :
    ∃ d', ReadsAs (d.text numberLayout).toList d' ∧ d'.value = d.value ∧
      (d'.digits = 0 ↔ d.digits = 0) := by
  unfold Decimal.text
  by_cases hzero : d.digits = 0
  · rw [if_pos hzero]
    have hread : ReadsAs ['0', '.', '0'] ⟨0, -1⟩ :=
      readsAs_point (.inl rfl : IsNumeral ['0']) isDigit_of_mem_zero (List.cons_ne_nil '0' [])
    have htext : ("0" ++ numberLayout.wholeMark).toList = ['0', '.', '0'] := by decide
    rw [htext]
    refine ⟨_, hread, ?_, iff_of_true rfl hzero⟩
    rw [Decimal.value, Decimal.value, hzero, Nat.cast_zero, zero_mul, zero_mul]
  · have hpos := Nat.pos_of_ne_zero hzero
    rw [if_neg hzero]
    split
    · obtain ⟨d', hread, hvalue, hpos'⟩ := readsAs_positional hpos
      exact ⟨d', hread, hvalue, iff_of_false hpos'.ne' hzero⟩
    · exact ⟨d, readsAs_exponentText hpos hlimit, rfl, Iff.rfl⟩

end Layouts

/-! ## Doubles -/

/-- The characters of a finite double are those of a sign and a decimal, from which it is read. -/
theorem chars_ofFloat {x : Float} (h : x.isFinite = true) :
    ∃ negative text d, chars (ofFloat x) = (if negative then ['-'] else []) ++ text ∧
      ReadsAs text d ∧ d.withSign negative = x := by
  obtain ⟨negative, b, hclass, hb, hnonzero, hzero⟩ := withSign_of_class h
  have hchars : chars (ofFloat x) = (if negative then ['-'] else []) ++
      ((Decimal.shortest .even b).text numberLayout).toList := by
    rw [ofFloat, if_pos h, chars, Number.text, Decimal.ofFloat, hclass]
    dsimp only
    rw [String.toList_append]
    cases negative <;> rfl
  rcases Nat.eq_zero_or_pos b.mantissa with hmantissa | hmantissa
  · have hshortest : Decimal.shortest .even b = ⟨0, 0⟩ := by
      rw [Decimal.shortest, if_pos hmantissa]
    obtain ⟨d, hread, _, hdigits⟩ := readsAs_text (d := ⟨0, 0⟩) (by decide)
    rw [hshortest] at hchars
    exact ⟨negative, _, d, hchars, hread, hzero hmantissa d (hdigits.2 rfl)⟩
  · obtain ⟨hdigits, hrounds⟩ := Decimal.shortest_rounds hb hmantissa .even
    obtain ⟨hleast, hgreatest⟩ := Decimal.leading_mem_of_rounds hb hmantissa hdigits hrounds
    have hlimit : (Decimal.shortest .even b).leading.natAbs ≤ exponentLimit := by
      have hleading : (Decimal.shortest .even b).leading = (Decimal.shortest .even b).exponent +
          (Decimal.shortest .even b).digits.repr.length - 1 := rfl
      rw [hleading, exponentLimit]
      omega
    obtain ⟨d, hread, hvalue, hdigits'⟩ := readsAs_text hlimit
    have hpos : 0 < d.digits := Nat.pos_of_ne_zero (mt hdigits'.1 hdigits.ne')
    rw [← hvalue] at hrounds
    exact ⟨negative, _, d, hchars, hread, hnonzero hmantissa d hpos hrounds⟩

/-- A finite double begins a value. -/
theorem opens_ofFloat {x : Float} (h : x.isFinite = true) : Opens (chars (ofFloat x)) := by
  obtain ⟨negative, text, d, hchars, ⟨whole, tail, rfl, hwhole, _⟩, _⟩ := chars_ofFloat h
  obtain ⟨c, rest, rfl, hc⟩ := opens_of_isNumeral hwhole
  obtain ⟨hblank, hbracket, hbrace, _⟩ := of_isDigit hc
  rw [hchars]
  cases negative with
  | true => exact ⟨'-', _, rfl, rfl, by decide, by decide⟩
  | false => exact ⟨c, _, rfl, hblank, hbracket, hbrace⟩

/-- A finite double is read back. -/
theorem ofFloat_answers {x : Float} (h : x.isFinite = true) :
    Answers Snapshot.element (chars (ofFloat x)) (some x) := by
  intro rest hrest
  obtain ⟨negative, text, d, hchars, ⟨whole, tail, rfl, hwhole, hread⟩, hx⟩ := chars_ofFloat h
  obtain ⟨hdigits, hread⟩ := hread .stream negative rest hrest
  have hfinite : Number.isFinite (.real x) = true := h
  rw [hx, inRange, if_pos hfinite] at hread
  have helement := numberAs_eq "f64" (fun n => .ok n.toFloat) negative hwhole hdigits hread rfl
  rw [hchars, List.append_assoc, List.append_assoc]
  exact helement

end DeferredReward.Json
