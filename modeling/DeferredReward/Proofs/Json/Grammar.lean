import DeferredReward.Proofs.Json.Numbers

/-!
# The grammar of the data format

Which texts stand for a value, told without a reader: blanks may stand around every part,
a character of a string may be written plainly or by an escape, a number with or without
fraction and exponent. Most values have many texts.

What number digits stand for is left to the functions that a reader uses too; told here is
where digits, escapes, commas and blanks may stand. A number has to be finite as a double,
and containers nest at most as deep as is said.
-/

namespace DeferredReward.Json

/-! ## Tokens -/

/-- The text consists of blanks. -/
def Blank (text : List Char) : Prop := ∀ c ∈ text, isBlank c = true

instance (text : List Char) : Decidable (Blank text) :=
  decidable_of_iff (text.all isBlank = true) List.all_eq_true

/-- Some digits. -/
structure Digits (digits : List Char) : Prop where
  /-- There is one. -/
  ne_nil : digits ≠ []
  /-- There is nothing else. -/
  isDigit : ∀ c ∈ digits, c.isDigit = true

/-- The text is the part of a number behind its point with these digits, or absent with none. -/
inductive SpellsFraction : List Char → List Char → Prop where
  /-- There is no fraction. -/
  | absent : SpellsFraction [] []
  /-- A point and digits. -/
  | point {digits : List Char} (h : Digits digits) : SpellsFraction digits ('.' :: digits)

/-- The signs of an exponent, with whether they make it negative. -/
def exponentSigns : List (List Char × Bool) := [([], false), (['+'], false), (['-'], true)]

/-- The text is an exponent of that amount, or absent. An exponent beyond the limit may stand
where it is negative or where all other digits are zero. -/
inductive SpellsExponent (significand : ℕ) : ℤ → List Char → Prop where
  /-- There is no exponent. -/
  | absent : SpellsExponent significand 0 []
  /-- A letter, a sign and digits. -/
  | given {letter : Char} {sign digits : List Char} {negative : Bool}
      (hletter : letter = 'e' ∨ letter = 'E') (hsign : (sign, negative) ∈ exponentSigns)
      (hdigits : Digits digits)
      (hlimit : digitsValue digits ≤ exponentLimit ∨ negative = true ∨ significand = 0) :
      SpellsExponent significand
        (if negative then -(digitsValue digits : ℤ) else digitsValue digits)
        (letter :: (sign ++ digits))

/-- The text stands for a number. -/
inductive SpellsNumber : Number → List Char → Prop where
  /-- A sign and digits without a needless zero in front. -/
  | whole (negative : Bool) {digits : List Char} (hdigits : IsNumeral digits) :
      SpellsNumber (wholeNumber negative (digitsValue digits))
        ((if negative then ['-'] else []) ++ digits)
  /-- The same with a fraction, an exponent or both. -/
  | real (negative : Bool) {whole fraction point power : List Char} {exponent : ℤ}
      (hwhole : IsNumeral whole) (hfraction : SpellsFraction fraction point)
      (hexponent : SpellsExponent (digitsValue (whole ++ fraction)) exponent power)
      (hsome : point ++ power ≠ []) :
      SpellsNumber (realNumber negative (digitsValue (whole ++ fraction))
          (-(fraction.length : ℤ) + exponent))
        ((if negative then ['-'] else []) ++ (whole ++ (point ++ power)))

/-! ## Values -/

/-- What stands before a part: blanks, and a comma among them unless it is the first. -/
inductive Leads : (isFirst : Bool) → List Char → Prop where
  /-- Blanks before the first part. -/
  | first {blanks : List Char} (h : Blank blanks) : Leads true blanks
  /-- A comma with blanks around it. -/
  | next {blanks gap : List Char} (h : Blank blanks) (hgap : Blank gap) :
      Leads false (blanks ++ ',' :: gap)

/-- The text stands for a list of parts up to the end of their container, each as `spells` says
and with commas between them. -/
inductive SpellsList {β : Type} (closing : Char) (spells : β → List Char → Prop) :
    (isFirst : Bool) → List β → List Char → Prop where
  /-- The end, after blanks. -/
  | close {isFirst : Bool} {blanks : List Char} (h : Blank blanks) :
      SpellsList closing spells isFirst [] (blanks ++ [closing])
  /-- One more part in front. -/
  | part {isFirst : Bool} {lead text rest : List Char} {x : β} {xs : List β}
      (hlead : Leads isFirst lead) (h : spells x text)
      (hrest : SpellsList closing spells false xs rest) :
      SpellsList closing spells isFirst (x :: xs) (lead ++ (text ++ rest))

/-- The text stands for a value under a name: a string, a colon and the value, with blanks around
the colon. -/
inductive SpellsMember (spells : Json → List Char → Prop) : String × Json → List Char → Prop where
  /-- The name and its value. -/
  | named {name : String} {v : Json} {label gap gap' text : List Char}
      (hname : SpellsString name label) (hgap : Blank gap) (hgap' : Blank gap')
      (h : spells v text) :
      SpellsMember spells (name, v) (label ++ (gap ++ ':' :: (gap' ++ text)))

/-- The text stands for a value without parts. -/
inductive SpellsPlain : Json → List Char → Prop where
  /-- The absent value. -/
  | null : SpellsPlain .null ['n', 'u', 'l', 'l']
  /-- A truth value. -/
  | isTrue : SpellsPlain (.bool true) ['t', 'r', 'u', 'e']
  /-- The other truth value. -/
  | isFalse : SpellsPlain (.bool false) ['f', 'a', 'l', 's', 'e']
  /-- A finite number. -/
  | number {n : Number} {text : List Char} (h : SpellsNumber n text) (hfinite : n.isFinite = true) :
      SpellsPlain (.number n) text
  /-- A string. -/
  | string {s : String} {text : List Char} (h : SpellsString s text) : SpellsPlain (.string s) text

/-- The text stands for a container whose parts are spelled as `inner` says. -/
inductive SpellsContainer (inner : Json → List Char → Prop) : Json → List Char → Prop where
  /-- A sequence. -/
  | array {xs : List Json} {text : List Char} (h : SpellsList ']' inner true xs text) :
      SpellsContainer inner (.array xs) ('[' :: text)
  /-- An object. -/
  | object {members : List (String × Json)} {text : List Char}
      (h : SpellsList '}' (SpellsMember inner) true members text) :
      SpellsContainer inner (.object members) ('{' :: text)

/-- The text stands for a value in which containers nest at most `depth` deep. -/
def Spells : (depth : ℕ) → Json → List Char → Prop
  | 0, v, text => SpellsPlain v text
  | depth + 1, v, text => SpellsPlain v text ∨ SpellsContainer (Spells depth) v text

/-- A value without parts does not nest. -/
theorem Spells.plain {v : Json} {text : List Char} (h : SpellsPlain v text) (depth : ℕ) :
    Spells depth v text := by
  cases depth with
  | zero => exact h
  | succ depth => exact .inl h

/-- A container nests one deeper than its parts. -/
theorem Spells.container {depth : ℕ} {v : Json} {text : List Char}
    (h : SpellsContainer (Spells depth) v text) : Spells (depth + 1) v text := .inr h

/-- The whole text stands for a value, with blanks around it and nothing else. -/
def SpellsText (v : Json) (text : String) : Prop :=
  ∃ before inner after, Blank before ∧ Blank after ∧ Spells depthLimit v inner ∧
    text.toList = before ++ (inner ++ after)

end DeferredReward.Json
