import DeferredReward.Proofs.Json.Grammar
import DeferredReward.Proofs.Json.Values

/-!
# Every spelling is read

The reader takes each text of the grammar for the value that it stands for, whatever blanks,
escapes and spellings of numbers it uses: numbers are read up to what ends them, containers
part by part, and a whole text with the blanks around it. The texts that values are written
as are some of many.

Main statements: `SpellsNumber.read`, `Spells.read`, `document_of_blanks`.
-/

namespace DeferredReward.Json

variable {β : Type}

/-! ## Numbers -/

/-- The reader reads the value off the text and leaves what follows, when this can stand behind a
value. -/
def Reads (read : Read β) (text : List Char) (x : β) : Prop :=
  ∀ rest, Ends rest → read (text ++ rest) = .ok (x, rest)

/-- A finite number is read off any of its spellings as a value. -/
theorem SpellsNumber.read {n : Number} {text : List Char} (h : SpellsNumber n text)
    (hfinite : n.isFinite = true) (source : Source) (container : Char → Read Json) :
    Opens text ∧ Reads (valueWith source container) text (.number n) := by
  have hrange : ∀ rest, inRange source n rest = .ok (n, rest) := fun rest => if_pos hfinite
  cases h with
  | whole negative hdigits =>
    constructor
    · have hopens := opens_number negative hdigits []
      rwa [List.append_nil] at hopens
    · intro rest hrest
      have hread := ((hrest.continues_nothing source negative).1 _).trans (hrange rest)
      rw [List.append_assoc]
      exact valueWith_number source container negative hdigits hrest.noDigit hread
  | real negative hwhole hfraction hexponent hsome =>
    refine ⟨opens_number negative hwhole _, fun rest hrest => ?_⟩
    obtain ⟨hnone, hread⟩ := continued_real hfraction hexponent hsome hrest source negative
    rw [List.append_assoc, List.append_assoc, List.append_assoc]
    exact valueWith_number source container negative hwhole hnone (hread.trans (hrange rest))

/-! ## Containers -/

theorem Blank.skipBlanks_append {blanks : List Char} (h : Blank blanks) (text : List Char) :
    skipBlanks (blanks ++ text) = skipBlanks text :=
  List.dropWhile_append_of_pos h

/-- Blanks can stand behind a value too. -/
theorem Ends.blanks {blanks rest : List Char} (hrest : Ends rest) (h : Blank blanks) :
    Ends (blanks ++ rest) := by
  cases blanks with
  | nil => exact hrest
  | cons c tail =>
    intro d hd
    cases hd
    have hc := h c List.mem_cons_self
    simp only [isBlank, Bool.or_eq_true, beq_iff_eq] at hc
    simp only [endings, List.mem_cons]
    tauto

/-- What follows a part of a container can stand behind a value. -/
theorem SpellsList.ends {closing : Char} {spells : β → List Char → Prop} {xs : List β}
    {text : List Char} (h : SpellsList closing spells false xs text) (hclosing : closing ∈ endings)
    (rest : List Char) : Ends (text ++ rest) := by
  have hchar : ∀ c ∈ endings, ∀ tail, Ends (c :: tail) := by
    intro c hc tail d hd
    cases hd
    exact hc
  cases h with
  | close hblanks =>
    rw [List.append_assoc]
    exact (hchar closing hclosing _).blanks hblanks
  | part hlead =>
    cases hlead with
    | next hblanks =>
      rw [List.append_assoc, List.append_assoc]
      exact (hchar ',' (by decide) _).blanks hblanks

/-- There are no more parts than characters. -/
theorem SpellsList.length_le {closing : Char} {spells : β → List Char → Prop} {isFirst : Bool}
    {xs : List β} {text : List Char} (h : SpellsList closing spells isFirst xs text)
    (hne : ∀ x text, spells x text → text ≠ []) : xs.length ≤ text.length := by
  induction h with
  | close => exact Nat.zero_le _
  | part _ h _ ih =>
    have hpos := List.length_pos_iff.2 (hne _ _ h)
    rw [List.length_cons, List.length_append, List.length_append]
    omega

/-- Blanks behind a comma count for nothing. -/
theorem nextElement_comma {text text' : List Char} (h : skipBlanks text = skipBlanks text') :
    nextElement false (',' :: text) = nextElement false (',' :: text') := by
  have hstart : ∀ text, skipBlanks (',' :: text) = ',' :: text := fun _ => rfl
  simp [nextElement, hstart, h]

/-- The next element is found behind what leads to it. -/
theorem nextElement_lead {isFirst : Bool} {lead text : List Char} (hlead : Leads isFirst lead)
    (h : Opens text) (rest : List Char) :
    nextElement isFirst (lead ++ (text ++ rest)) = .ok (true, text ++ rest) := by
  have hblanks : ∀ {blanks}, Blank blanks → ∀ text,
      nextElement isFirst (blanks ++ text) = nextElement isFirst text := by
    intro blanks hblank text
    rw [nextElement, nextElement, hblank.skipBlanks_append]
  have hfound := nextElement_separated h isFirst [] rest
  simp only [separated, List.nil_append] at hfound
  cases hlead with
  | first hlead =>
    simp only [separated, List.append_nil] at hfound
    rw [hblanks hlead, hfound]
  | @next blanks gap hlead hgap =>
    simp only [separated, List.append_nil, List.cons_append] at hfound
    rw [List.append_assoc, hblanks hlead, List.cons_append,
      nextElement_comma (hgap.skipBlanks_append _), hfound]

/-- The end of a sequence is found behind blanks. -/
theorem nextElement_close {blanks : List Char} (h : Blank blanks) (isFirst : Bool)
    (rest : List Char) : nextElement isFirst (blanks ++ ']' :: rest) = .ok (false, rest) := by
  rw [nextElement, h.skipBlanks_append]
  rfl

/-- Elements are read one after the other from what stands for them. -/
theorem SpellsList.elementsFrom_eq {item : Read β} {spells : β → List Char → Prop}
    (hitem : ∀ x text, spells x text → Opens text ∧ Reads item text x) {isFirst : Bool}
    {xs : List β} {text : List Char} (h : SpellsList ']' spells isFirst xs text) (fuel : ℕ)
    (reversed : List β) (hfirst : reversed.isEmpty = isFirst) (rest : List Char)
    (hfuel : xs.length < fuel) :
    elementsFrom item fuel reversed (text ++ rest) = .ok (reversed.reverse ++ xs, rest) := by
  induction h generalizing fuel reversed with
  | close hblanks =>
    cases fuel with
    | zero => cases hfuel
    | succ fuel =>
      rw [elementsFrom, List.append_assoc, List.singleton_append,
        bind_eq_of_ok (nextElement_close hblanks _ _), List.append_nil]
      rfl
  | @part isFirst lead text more x xs hlead hx hmore ih =>
    cases fuel with
    | zero => cases hfuel
    | succ fuel =>
      obtain ⟨hopens, hread⟩ := hitem x text hx
      rw [elementsFrom, hfirst, List.append_assoc, List.append_assoc,
        bind_eq_of_ok (nextElement_lead hlead hopens _)]
      refine (bind_eq_of_ok (hread _ (hmore.ends (by decide) rest))).trans ?_
      dsimp only
      rw [ih fuel (x :: reversed) rfl (Nat.lt_of_succ_lt_succ hfuel), List.reverse_cons,
        List.append_assoc]
      rfl

/-- The elements of a sequence are read off what stands for them behind the bracket. -/
theorem SpellsList.elements_eq {item : Read β} {spells : β → List Char → Prop}
    (hitem : ∀ x text, spells x text → Opens text ∧ Reads item text x) {xs : List β}
    {text : List Char} (h : SpellsList ']' spells true xs text) (rest : List Char) :
    elements item (text ++ rest) = .ok (xs, rest) := by
  have hlength := h.length_le fun x text hx => by
    obtain ⟨⟨c, tail, rfl, _⟩, _⟩ := hitem x text hx
    exact List.cons_ne_nil c tail
  rw [elements, h.elementsFrom_eq hitem _ [] rfl rest (by rw [List.length_append]; omega)]
  rfl

theorem nextName_comma {text text' : List Char} (h : skipBlanks text = skipBlanks text') :
    nextName false (',' :: text) = nextName false (',' :: text') := by
  have hstart : ∀ text, skipBlanks (',' :: text) = ',' :: text := fun _ => rfl
  simp [nextName, hstart, h]

/-- The next name is found behind what leads to it. -/
theorem nextName_lead {isFirst : Bool} {lead label : List Char} {name : String}
    (hlead : Leads isFirst lead) (h : SpellsString name label) (rest : List Char) :
    nextName isFirst (lead ++ (label ++ rest)) = .ok (some name, rest) := by
  obtain ⟨inner, hlabel, hread⟩ := h.read rest
  have hblanks : ∀ {blanks}, Blank blanks → ∀ text,
      nextName isFirst (blanks ++ text) = nextName isFirst text := by
    intro blanks hblank text
    rw [nextName, nextName, hblank.skipBlanks_append]
  rw [hlabel]
  cases hlead with
  | first hlead =>
    rw [hblanks hlead]
    exact bind_eq_of_ok hread
  | @next blanks gap hlead hgap =>
    rw [List.append_assoc, hblanks hlead, List.cons_append,
      nextName_comma (hgap.skipBlanks_append _)]
    exact bind_eq_of_ok hread

/-- The end of an object is found behind blanks. -/
theorem nextName_close {blanks : List Char} (h : Blank blanks) (isFirst : Bool)
    (rest : List Char) : nextName isFirst (blanks ++ '}' :: rest) = .ok (none, rest) := by
  rw [nextName, h.skipBlanks_append]
  rfl

/-- A colon is found behind blanks. -/
theorem colon_blanks {blanks : List Char} (h : Blank blanks) (rest : List Char) :
    colon (blanks ++ ':' :: rest) = .ok ((), rest) := by
  rw [colon, h.skipBlanks_append]
  rfl

/-- Members are read one after the other from what stands for them. -/
theorem SpellsList.membersFrom_eq {item : Read Json} {spells : Json → List Char → Prop}
    (hitem : ∀ v text, spells v text → Reads item text v)
    (hblanks : ∀ gap text, Blank gap → item (gap ++ text) = item text) {isFirst : Bool}
    {named : List (String × Json)} {text : List Char}
    (h : SpellsList '}' (SpellsMember spells) isFirst named text) (fuel : ℕ)
    (reversed : List (String × Json)) (hfirst : reversed.isEmpty = isFirst) (rest : List Char)
    (hfuel : named.length < fuel) :
    membersFrom item fuel reversed (text ++ rest) = .ok (reversed.reverse ++ named, rest) := by
  induction h generalizing fuel reversed with
  | close hblank =>
    cases fuel with
    | zero => cases hfuel
    | succ fuel =>
      rw [membersFrom, List.append_assoc, List.singleton_append,
        bind_eq_of_ok (nextName_close hblank _ _), List.append_nil]
      rfl
  | @part isFirst lead text more member named hlead hmember hmore ih =>
    cases fuel with
    | zero => cases hfuel
    | succ fuel =>
      cases hmember with
      | @named name v label gap gap' text hname hgap hgap' hv =>
        rw [membersFrom, hfirst]
        simp only [List.append_assoc, List.cons_append]
        refine (bind_eq_of_ok (nextName_lead hlead hname _)).trans ?_
        refine (bind_eq_of_ok (colon_blanks hgap _)).trans ?_
        dsimp only
        rw [hblanks _ _ hgap']
        refine (bind_eq_of_ok (hitem v text hv _ (hmore.ends (by decide) rest))).trans ?_
        dsimp only
        rw [ih fuel ((name, v) :: reversed) rfl (Nat.lt_of_succ_lt_succ hfuel), List.reverse_cons,
          List.append_assoc]
        rfl

/-- The members of an object are read off what stands for them behind the brace. -/
theorem SpellsList.members_eq {item : Read Json} {spells : Json → List Char → Prop}
    (hitem : ∀ v text, spells v text → Reads item text v)
    (hblanks : ∀ gap text, Blank gap → item (gap ++ text) = item text)
    {named : List (String × Json)} {text : List Char}
    (h : SpellsList '}' (SpellsMember spells) true named text) (rest : List Char) :
    members item (text ++ rest) = .ok (named, rest) := by
  have hlength := h.length_le fun member text hmember => by
    cases hmember with
    | named hname =>
      cases hname
      exact List.cons_ne_nil _ _
  rw [members, h.membersFrom_eq hitem hblanks _ [] rfl rest (by rw [List.length_append]; omega)]
  rfl

/-! ## Values -/

/-- Blanks before a value are passed over. -/
theorem value_blanks (source : Source) (depth : ℕ) {blanks : List Char} (h : Blank blanks)
    (text : List Char) : value source depth (blanks ++ text) = value source depth text := by
  obtain ⟨container, hvalue⟩ := exists_value_eq source depth
  rw [hvalue, valueWith, valueWith, valueStart, valueStart, h.skipBlanks_append]

/-- A value without parts is read off what stands for it. -/
theorem SpellsPlain.read {v : Json} {text : List Char} (h : SpellsPlain v text) (source : Source)
    (container : Char → Read Json) : Opens text ∧ Reads (valueWith source container) text v := by
  cases h with
  | null => exact ⟨⟨'n', _, rfl, rfl, by decide, by decide⟩, fun rest _ => rfl⟩
  | isTrue => exact ⟨⟨'t', _, rfl, rfl, by decide, by decide⟩, fun rest _ => rfl⟩
  | isFalse => exact ⟨⟨'f', _, rfl, rfl, by decide, by decide⟩, fun rest _ => rfl⟩
  | number h hfinite => exact h.read hfinite source container
  | string h =>
    constructor
    · cases h
      exact ⟨'"', _, rfl, rfl, by decide, by decide⟩
    · intro rest _
      obtain ⟨inner, htext, hread⟩ := h.read rest
      have hstart : valueStart ('"' :: inner) = .ok ('"', inner) := rfl
      rw [htext, valueWith, bind_eq_of_ok hstart]
      exact bind_eq_of_ok hread

/-- A value is read off what stands for it, by a reader that allows its depth. -/
theorem Spells.read {depth : ℕ} {v : Json} {text : List Char} (h : Spells depth v text)
    (source : Source) : Opens text ∧ Reads (value source depth) text v := by
  induction depth generalizing v text with
  | zero => exact SpellsPlain.read h source _
  | succ depth ih =>
    obtain hplain | hcontainer := h
    · exact hplain.read source _
    · cases hcontainer with
      | array h =>
        refine ⟨⟨'[', _, rfl, rfl, by decide, by decide⟩, fun rest _ => ?_⟩
        exact bind_eq_of_ok (h.elements_eq (fun _ _ => ih) rest)
      | object h =>
        refine ⟨⟨'{', _, rfl, rfl, by decide, by decide⟩, fun rest _ => ?_⟩
        have hmembers := h.members_eq (fun _ _ hv => (ih hv).2)
          (fun _ text hgap => value_blanks source depth hgap text) rest
        exact bind_eq_of_ok hmembers

/-- A whole text is what its reader reads off it, up to blanks. -/
theorem document_of_blanks {read : Read β} {text : String} {x : β} {after : List Char}
    (h : read text.toList = .ok (x, after)) (hafter : Blank after) :
    document read text = .ok x := by
  have hskip : skipBlanks after = [] := by
    rw [skipBlanks, List.dropWhile_eq_nil_iff]
    exact hafter
  rw [document]
  dsimp only
  rw [bind_eq_of_ok h]
  dsimp only
  rw [hskip]
  rfl

end DeferredReward.Json
