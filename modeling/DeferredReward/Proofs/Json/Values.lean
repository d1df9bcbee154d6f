import DeferredReward.Proofs.Json.Decimals

/-!
# Values read back

The text of a value is read as that value when the containers in it do not nest
deeper than the reader allows, when its doubles are finite and its whole numbers
have 64 bits. Everything that the format can express is of this kind; a number
that is not has no text of its own.

Main statements: `members_of_answers`, `value_answers`.
-/

namespace DeferredReward.Json

/-- The value has a text, and containers nest at most that deep in it. -/
inductive Readable : ℕ → Json → Prop where
  /-- The absent value. -/
  | null (depth : ℕ) : Readable depth .null
  /-- A truth value. -/
  | bool (depth : ℕ) (b : Bool) : Readable depth (.bool b)
  /-- A whole number of 64 bits. -/
  | integer (depth : ℕ) {n : ℤ} (hlow : -(UInt64.size / 2 : ℕ) ≤ n) (hhigh : n < UInt64.size) :
      Readable depth (.number (.integer n))
  /-- A finite double. -/
  | real (depth : ℕ) {x : Float} (h : x.isFinite = true) : Readable depth (.number (.real x))
  /-- A text. -/
  | string (depth : ℕ) (s : String) : Readable depth (.string s)
  /-- A sequence of such values. -/
  | array {depth : ℕ} {elements : List Json} (h : ∀ element ∈ elements, Readable depth element) :
      Readable (depth + 1) (.array elements)
  /-- Such values under names. -/
  | object {depth : ℕ} {members : List (String × Json)}
      (h : ∀ member ∈ members, Readable depth member.2) : Readable (depth + 1) (.object members)

/-- A word of 64 bits has a text. -/
theorem readable_ofNat (depth : ℕ) (n : UInt64) : Readable depth (.ofNat n.toNat) := by
  have hhigh : n.toNat < UInt64.size := n.toNat_lt
  exact .integer depth (by omega) (by omega)

/-- What is written for a double has a text, whether the double is finite or not. -/
theorem readable_ofFloat (depth : ℕ) (x : Float) : Readable depth (.ofFloat x) := by
  unfold ofFloat
  split
  · rename_i hfinite
    exact .real depth hfinite
  · exact .null depth

/-- At every depth a value is read by its first character. -/
theorem exists_value_eq (source : Source) (depth : ℕ) :
    ∃ container, value source depth = valueWith source container := by
  cases depth with
  | zero => exact ⟨_, rfl⟩
  | succ depth => exact ⟨_, rfl⟩

/-! ## Numbers -/

/-- A digit begins a number. -/
theorem valueWith_digit (source : Source) (container : Char → Read Json) {c : Char}
    (hc : c.isDigit = true) (rest : List Char) :
    valueWith source container (c :: rest) =
      unsignedNumber source false (c :: rest) >>= fun read => .ok (.number read.1, read.2) := by
  obtain ⟨hblank, _, _, hminus⟩ := of_isDigit hc
  have hstart : valueStart (c :: rest) = .ok (c, rest) := by
    rw [valueStart, skipBlanks, List.dropWhile_cons_of_neg (by simp [hblank])]
  rw [valueWith, bind_eq_of_ok hstart]
  dsimp only
  split
  case h_7 => exact absurd rfl hminus
  case h_8 =>
    rw [if_pos hc]
    rfl
  all_goals exact absurd hc (by decide)

/-- A number is read after its sign, when there is one. -/
theorem valueWith_number (source : Source) (container : Char → Read Json) (negative : Bool)
    {digits : List Char} (hdigits : IsNumeral digits) {rest : List Char} (hrest : NoDigit rest)
    {n : Number} {after : List Char}
    (hread : continued source negative digits rest = .ok (n, after)) :
    valueWith source container ((if negative then ['-'] else []) ++ (digits ++ rest)) =
      .ok (.number n, after) := by
  have hnumber := unsignedNumber_digits source negative hdigits hrest
  rw [hread] at hnumber
  cases negative with
  | true =>
    have hstart : valueStart ('-' :: (digits ++ rest)) = .ok ('-', digits ++ rest) := rfl
    rw [if_pos rfl, List.singleton_append, valueWith, bind_eq_of_ok hstart]
    dsimp only
    rw [bind_eq_of_ok hnumber]
    rfl
  | false =>
    obtain ⟨c, tail, rfl, hc⟩ := opens_of_isNumeral hdigits
    rw [List.cons_append] at hnumber
    rw [if_neg Bool.false_ne_true, List.nil_append, List.cons_append,
      valueWith_digit source container hc, hnumber]
    rfl

/-- A number written as a sign and a numeral begins a value. -/
theorem opens_number (negative : Bool) {digits : List Char} (h : IsNumeral digits)
    (tail : List Char) : Opens ((if negative then ['-'] else []) ++ (digits ++ tail)) := by
  obtain ⟨c, rest, rfl, hc⟩ := opens_of_isNumeral h
  obtain ⟨hblank, hbracket, hbrace, _⟩ := of_isDigit hc
  cases negative with
  | true => exact ⟨'-', _, rfl, rfl, by decide, by decide⟩
  | false => exact ⟨c, _, rfl, hblank, hbracket, hbrace⟩

/-- The text of a whole number is a sign and a numeral. -/
theorem chars_integer (n : ℤ) :
    chars (.number (.integer n)) =
      (if decide (n < 0) then ['-'] else []) ++ n.natAbs.repr.toList := by
  rw [chars, Number.text]
  by_cases hsign : n < 0
  · rw [if_pos hsign, decide_eq_true hsign, if_pos rfl, String.toList_append]
    rfl
  · rw [if_neg hsign, decide_eq_false hsign, if_neg Bool.false_ne_true, List.nil_append]

/-- The sign and the amount of a whole number of 64 bits are that number. -/
theorem wholeNumber_natAbs {n : ℤ} (hlow : -(UInt64.size / 2 : ℕ) ≤ n) (hhigh : n < UInt64.size) :
    wholeNumber (decide (n < 0)) n.natAbs = .integer n := by
  unfold wholeNumber
  by_cases hsign : n < 0
  · rw [decide_eq_true hsign, if_pos rfl, if_neg (by omega)]
    exact congrArg Number.integer (by omega)
  · rw [decide_eq_false hsign, if_neg Bool.false_ne_true, if_pos (by omega)]
    exact congrArg Number.integer (by omega)

/-- A whole number of 64 bits is read back. -/
theorem integer_answers {n : ℤ} (hlow : -(UInt64.size / 2 : ℕ) ≤ n) (hhigh : n < UInt64.size)
    (source : Source) (container : Char → Read Json) :
    Opens (chars (.number (.integer n))) ∧
      Answers (valueWith source container) (chars (.number (.integer n)))
        (some (.number (.integer n))) := by
  have hnumeral := isNumeral_repr n.natAbs
  rw [chars_integer]
  constructor
  · have hopens := opens_number (decide (n < 0)) hnumeral []
    rwa [List.append_nil] at hopens
  · intro rest hrest
    have hread : continued source (decide (n < 0)) n.natAbs.repr.toList rest =
        .ok (.integer n, rest) := by
      rw [(hrest.ends.continues_nothing source _).1, digitsValue_repr,
        wholeNumber_natAbs hlow hhigh]
      rfl
    rw [List.append_assoc]
    exact valueWith_number source container _ hnumeral hrest.noDigit hread

/-- A finite double is read back as a value. -/
theorem real_answers {x : Float} (h : x.isFinite = true) (source : Source)
    (container : Char → Read Json) :
    Opens (chars (.number (.real x))) ∧
      Answers (valueWith source container) (chars (.number (.real x)))
        (some (.number (.real x))) := by
  obtain ⟨negative, text, d, hchars, ⟨whole, tail, rfl, hwhole, hreads⟩, hx⟩ := chars_ofFloat h
  have hvalue : ofFloat x = .number (.real x) := if_pos h
  rw [hvalue] at hchars
  rw [hchars]
  refine ⟨opens_number negative hwhole tail, fun rest hrest => ?_⟩
  obtain ⟨hdigits, hread⟩ := hreads source negative rest hrest
  have hrange : inRange source (.real x) rest = .ok (.real x, rest) := if_pos h
  rw [hx, hrange] at hread
  rw [List.append_assoc, List.append_assoc]
  exact valueWith_number source container negative hwhole hdigits hread

/-! ## All values -/

/-- Values that are all read back are read back as a sequence. -/
theorem elements_of_answers {item : Read Json} {values : List Json}
    (h : ∀ v ∈ values, Opens (chars v) ∧ Answers item (chars v) (some v)) (rest : List Char) :
    elements item (separated true (values.map chars) ++ ']' :: rest) = .ok (values, rest) := by
  have hitems : ∀ i ∈ values.map fun v => (chars v, some v), Opens i.1 ∧ Answers item i.1 i.2 := by
    intro i hi
    obtain ⟨v, hv, rfl⟩ := List.mem_map.1 hi
    exact h v hv
  have hread := elements_answers _ hitems rest
  have hall : values.mapM (Prod.snd ∘ fun v => (chars v, some v)) = some values :=
    mapM_of_kept fun _ _ => rfl
  rw [List.map_map, List.mapM_map, hall] at hread
  exact hread

/-- Values that are all read back are read back under their names. -/
theorem members_of_answers {item : Read Json} {named : List (String × Json)}
    (h : ∀ m ∈ named, Answers item (chars m.2) (some m.2)) (rest : List Char) :
    members item (separated true (named.map fun m => memberText m.1 (chars m.2)) ++ '}' :: rest) =
      .ok (named, rest) := by
  have hitems : ∀ i ∈ named.map fun m => (m.1, chars m.2, some m.2), Answers item i.2.1 i.2.2 := by
    intro i hi
    obtain ⟨m, hm, rfl⟩ := List.mem_map.1 hi
    exact h m hm
  have hread := members_answers _ hitems rest
  have hall : named.mapM (namedAnswer ∘ fun m => (m.1, chars m.2, some m.2)) = some named :=
    mapM_of_kept fun _ _ => rfl
  rw [List.map_map, List.mapM_map, hall] at hread
  exact hread

/-- A value is read back by a reader that allows its depth. -/
theorem value_answers {depth : ℕ} {v : Json} (h : Readable depth v) (source : Source) :
    Opens (chars v) ∧ Answers (value source depth) (chars v) (some v) := by
  induction h with
  | null depth =>
    obtain ⟨container, hvalue⟩ := exists_value_eq source depth
    rw [hvalue]
    exact ⟨⟨'n', _, rfl, rfl, by decide, by decide⟩, fun rest _ => rfl⟩
  | bool depth b =>
    obtain ⟨container, hvalue⟩ := exists_value_eq source depth
    rw [hvalue]
    cases b with
    | true => exact ⟨⟨'t', _, rfl, rfl, by decide, by decide⟩, fun rest _ => rfl⟩
    | false => exact ⟨⟨'f', _, rfl, rfl, by decide, by decide⟩, fun rest _ => rfl⟩
  | integer depth hlow hhigh =>
    obtain ⟨container, hvalue⟩ := exists_value_eq source depth
    rw [hvalue]
    exact integer_answers hlow hhigh source container
  | real depth hfinite =>
    obtain ⟨container, hvalue⟩ := exists_value_eq source depth
    rw [hvalue]
    exact real_answers hfinite source container
  | string depth s =>
    obtain ⟨container, hvalue⟩ := exists_value_eq source depth
    rw [hvalue]
    refine ⟨⟨'"', _, rfl, rfl, by decide, by decide⟩, fun rest _ => ?_⟩
    have hstart : ∀ text, valueStart ('"' :: text) = .ok ('"', text) := fun _ => rfl
    change valueWith source container (stringChars s ++ rest) = .ok (.string s, rest)
    rw [stringChars_append, valueWith, bind_eq_of_ok (hstart _)]
    dsimp only
    rw [bind_eq_of_ok (stringBody_escaped s rest)]
    rfl
  | @array depth values _ ih =>
    refine ⟨⟨'[', _, rfl, rfl, by decide, by decide⟩, fun rest _ => ?_⟩
    have hvalue : ∀ text, value source (depth + 1) ('[' :: text) =
        elements (value source depth) text >>= fun read => .ok (.array read.1, read.2) :=
      fun _ => rfl
    change value source (depth + 1) (chars (.array values) ++ rest) = .ok (.array values, rest)
    rw [chars_array_append, hvalue, elements_of_answers ih]
    rfl
  | @object depth named _ ih =>
    refine ⟨⟨'{', _, rfl, rfl, by decide, by decide⟩, fun rest _ => ?_⟩
    have hvalue : ∀ text, value source (depth + 1) ('{' :: text) =
        members (value source depth) text >>= fun read => .ok (.object read.1, read.2) :=
      fun _ => rfl
    change value source (depth + 1) (chars (.object named) ++ rest) = .ok (.object named, rest)
    rw [chars_object_append, hvalue, members_of_answers fun m hm => (ih m hm).2]
    rfl

/-- A whole text is what its reader reads off it. -/
theorem document_of_read {β : Type} {read : Read β} {text : List Char} {x : β}
    (h : read text = .ok (x, [])) : document read (String.ofList text) = .ok x := by
  rw [document, String.toList_ofList, h]
  rfl

end DeferredReward.Json
