import DeferredReward.Json.Reader
import DeferredReward.Json.Text
import DeferredReward.Proofs.Fault

/-!
# Strings read back

Most strings have many texts: a character may stand for itself between the quotes
or be given by an escape. Each of these texts is read as the string, and what
follows is left: no escape is taken for another one, and no character of the
string for its end. The text that a string is written as is one of them.

Main statements: `SpellsString.read`, `stringBody_escaped`.
-/

namespace DeferredReward.Json

/-! ## Spellings -/

/-- The letters that stand, behind a backslash, for one character. -/
def shortEscapes : List (Char × Char) :=
  [('"', '"'), ('\\', '\\'), ('/', '/'), ('b', Char.ofNat 8), ('f', Char.ofNat 12), ('n', '\n'),
    ('r', '\r'), ('t', '\t')]

/-- The text stands for a character of a string. -/
inductive SpellsChar : Char → List Char → Prop where
  /-- The character itself, unless it is a control, a quote or a backslash. -/
  | plain {c : Char} (hprinted : 32 ≤ c.toNat) (hquote : c ≠ '"') (hbackslash : c ≠ '\\') :
      SpellsChar c [c]
  /-- A backslash and a letter. -/
  | short {letter c : Char} (h : (letter, c) ∈ shortEscapes) : SpellsChar c ['\\', letter]
  /-- The number of the character in four hexadecimal digits. -/
  | numbered {a b c d : Char} {n : Nat} (h : hexValue4? a b c d = some n)
      (hwhole : n < 0xD800 ∨ 0xDFFF < n) : SpellsChar (Char.ofNat n) ['\\', 'u', a, b, c, d]
  /-- Two halves of four hexadecimal digits each. -/
  | paired {a b c d a' b' c' d' : Char} {high low : Nat} (hhigh : hexValue4? a b c d = some high)
      (hlow : hexValue4? a' b' c' d' = some low) (hfirst : 0xD800 ≤ high ∧ high ≤ 0xDBFF)
      (hsecond : 0xDC00 ≤ low ∧ low ≤ 0xDFFF) :
      SpellsChar (Char.ofNat ((high - 0xD800) * 0x400 + (low - 0xDC00) + 0x10000))
        ['\\', 'u', a, b, c, d, '\\', 'u', a', b', c', d']

/-- The text stands for characters, one after the other. -/
inductive SpellsChars : List Char → List Char → Prop where
  /-- Nothing is written for no characters. -/
  | nil : SpellsChars [] []
  /-- One more character in front. -/
  | cons {c : Char} {characters text rest : List Char} (h : SpellsChar c text)
      (hrest : SpellsChars characters rest) : SpellsChars (c :: characters) (text ++ rest)

/-- The text stands for a string, between its quotes. -/
inductive SpellsString (s : String) : List Char → Prop where
  /-- The characters between quotes. -/
  | quoted {text : List Char} (h : SpellsChars s.toList text) :
      SpellsString s ('"' :: (text ++ ['"']))

/-! ## Reading them -/

/-- One character is read from any of its spellings. -/
theorem SpellsChar.stringFrom_eq {c : Char} {text : List Char} (h : SpellsChar c text)
    (fuel : Nat) (reversed rest : List Char) :
    stringFrom (fuel + 1) reversed (text ++ rest) = stringFrom fuel (c :: reversed) rest := by
  have hescaped : ∀ inner, escapedChar inner = .ok (c, rest) →
      stringFrom (fuel + 1) reversed ('\\' :: inner) = stringFrom fuel (c :: reversed) rest := by
    intro inner hinner
    rw [stringFrom, if_neg (by decide), if_pos rfl, bind_eq_of_ok hinner]
  cases h with
  | plain hprinted hquote hbackslash =>
    rw [List.singleton_append, stringFrom, if_neg hquote, if_neg hbackslash,
      if_neg (Nat.not_lt.2 hprinted)]
  | @short letter _ h =>
    refine hescaped _ ?_
    have hall : ∀ entry ∈ shortEscapes, ∀ rest,
        escapedChar (entry.1 :: rest) = .ok (entry.2, rest) := by
      simp only [shortEscapes, List.forall_mem_cons]
      exact ⟨fun _ => rfl, fun _ => rfl, fun _ => rfl, fun _ => rfl, fun _ => rfl, fun _ => rfl,
        fun _ => rfl, fun _ => rfl, fun _ hentry => absurd hentry List.not_mem_nil⟩
    exact hall (letter, c) h rest
  | @numbered a b c d n h hwhole =>
    have hfour : fourHex (a :: b :: c :: d :: rest) = .ok (n, rest) := by rw [fourHex, h]
    refine hescaped ('u' :: a :: b :: c :: d :: rest) ?_
    change numberedChar (a :: b :: c :: d :: rest) = _
    rw [numberedChar, bind_eq_of_ok hfour]
    dsimp only
    rw [if_neg (by omega), if_pos (by omega)]
  | @paired a b c d a' b' c' d' high low hhigh hlow hfirst hsecond =>
    have hfour : ∀ rest, fourHex (a :: b :: c :: d :: rest) = .ok (high, rest) := by
      intro rest
      rw [fourHex, hhigh]
    have hfour' : fourHex (a' :: b' :: c' :: d' :: rest) = .ok (low, rest) := by rw [fourHex, hlow]
    refine hescaped ('u' :: a :: b :: c :: d :: '\\' :: 'u' :: a' :: b' :: c' :: d' :: rest) ?_
    change numberedChar (a :: b :: c :: d :: '\\' :: 'u' :: a' :: b' :: c' :: d' :: rest) = _
    rw [numberedChar, bind_eq_of_ok (hfour _)]
    dsimp only
    rw [if_neg (by omega), if_neg (by omega)]
    refine (bind_eq_of_ok hfour').trans ?_
    dsimp only
    rw [if_neg (by omega)]

/-- A character is spelled by at least one. -/
theorem SpellsChar.ne_nil {c : Char} {text : List Char} (h : SpellsChar c text) : text ≠ [] := by
  cases h <;> exact List.cons_ne_nil _ _

/-- Characters are read up to the quote behind them, with one unit of fuel each. -/
theorem SpellsChars.stringFrom_eq {characters text : List Char} (h : SpellsChars characters text)
    (fuel : Nat) (reversed rest : List Char) (hfuel : characters.length < fuel) :
    stringFrom fuel reversed (text ++ '"' :: rest) =
      .ok (String.ofList (reversed.reverse ++ characters), rest) := by
  induction h generalizing fuel reversed with
  | nil =>
    cases fuel with
    | zero => cases hfuel
    | succ fuel => rw [List.nil_append, List.append_nil, stringFrom, if_pos rfl]
  | @cons c characters text tail h hrest ih =>
    rw [List.length_cons] at hfuel
    cases fuel with
    | zero => cases hfuel
    | succ fuel =>
      rw [List.append_assoc, h.stringFrom_eq, ih fuel (c :: reversed)
        (Nat.lt_of_succ_lt_succ hfuel), List.reverse_cons, List.append_assoc,
        List.singleton_append]

/-- There are no more characters than are written for them. -/
theorem SpellsChars.length_le {characters text : List Char} (h : SpellsChars characters text) :
    characters.length ≤ text.length := by
  induction h with
  | nil => exact Nat.le_refl _
  | cons h _ ih =>
    have hpos := List.length_pos_iff.2 h.ne_nil
    rw [List.length_cons, List.length_append]
    omega

/-- A string is read off any of its spellings, after its first quote. -/
theorem SpellsString.read {s : String} {text : List Char} (h : SpellsString s text)
    (rest : List Char) :
    ∃ inner, text ++ rest = '"' :: inner ∧ stringBody inner = .ok (s, rest) := by
  cases h with
  | @quoted text h =>
    refine ⟨text ++ '"' :: rest, by simp, ?_⟩
    have hlength := h.length_le
    rw [stringBody, h.stringFrom_eq _ [] rest (by rw [List.length_append]; omega),
      List.reverse_nil, List.nil_append, String.ofList_toList]

/-! ## The written text -/

/-- The two last digits of a control character given by number stand for it. -/
theorem hexValue4?_hexDigit {n : Nat} (h : n < 32) :
    hexValue4? '0' '0' (hexDigit (n / 16)) (hexDigit n) = some n := by
  have hall : ∀ n < 32, hexValue4? '0' '0' (hexDigit (n / 16)) (hexDigit n) = some n := by decide
  exact hall n h

/-- A character is spelled by what is written for it. -/
theorem spellsChar_escaped (c : Char) : SpellsChar c (escaped c) := by
  unfold escaped
  split
  · exact .short (by decide)
  · exact .short (by decide)
  · exact .short (by decide)
  · exact .short (by decide)
  · exact .short (by decide)
  · rename_i hquote hbackslash _ _ _
    split
    · rename_i hback
      have hchar : c = Char.ofNat 8 := by rw [← hback, Char.ofNat_toNat]
      rw [hchar]
      exact .short (by decide)
    · split
      · rename_i hfeed
        have hchar : c = Char.ofNat 12 := by rw [← hfeed, Char.ofNat_toNat]
        rw [hchar]
        exact .short (by decide)
      · split
        · rename_i hcontrol
          have hnumber := SpellsChar.numbered (hexValue4?_hexDigit hcontrol) (.inl (by omega))
          rwa [Char.ofNat_toNat] at hnumber
        · rename_i hprinted
          exact .plain (Nat.not_lt.1 hprinted) hquote hbackslash

/-- So are characters one after the other. -/
theorem spellsChars_flatMap (characters : List Char) :
    SpellsChars characters (characters.flatMap escaped) := by
  induction characters with
  | nil => exact .nil
  | cons c tail ih => exact .cons (spellsChar_escaped c) ih

/-- The written text of a string is one of its spellings. -/
theorem spellsString_stringChars (s : String) : SpellsString s (stringChars s) :=
  .quoted (spellsChars_flatMap s.toList)

theorem stringChars_append (s : String) (rest : List Char) :
    stringChars s ++ rest = '"' :: (s.toList.flatMap escaped ++ '"' :: rest) := by
  simp [stringChars]

/-- A string is read back, after its first quote. -/
theorem stringBody_escaped (s : String) (rest : List Char) :
    stringBody (s.toList.flatMap escaped ++ '"' :: rest) = .ok (s, rest) := by
  obtain ⟨inner, htext, hread⟩ := (spellsString_stringChars s).read rest
  rw [stringChars_append] at htext
  rw [(List.cons.inj htext).2, hread]

end DeferredReward.Json
