import DeferredReward.Proofs.Json.Strings

/-!
# Sequences and objects read back

A reader answers a text when, whatever of the format follows, it reads the same
value off the text and leaves what follows, or stops in the text. A reader of
sequences answers the texts of elements, separated by commas, when the reader of
elements answers each of them; it is the same with the members of an object. So
a reader of containers stops as soon as one part cannot be read, and reads all of
them in order otherwise.

Main statements: `elements_answers`, `members_answers`.
-/

namespace DeferredReward.Json

variable {β γ : Type}

/-! ## Answers to texts -/

/-- What can stand behind a value. -/
inductive Follows : List Char → Prop where
  /-- The end of the text. -/
  | nothing : Follows []
  /-- A comma before the next value. -/
  | comma (rest : List Char) : Follows (',' :: rest)
  /-- The end of a sequence. -/
  | bracket (rest : List Char) : Follows (']' :: rest)
  /-- The end of an object. -/
  | brace (rest : List Char) : Follows ('}' :: rest)

/-- The result is the value with the rest of the text, or an error when there is no value. -/
def Yields (result : Except Stop (β × List Char)) (rest : List Char) : Option β → Prop
  | some x => result = .ok (x, rest)
  | none => ∃ stop, result = .error stop

/-- Before anything that can stand there the reader reads the value off the text, or stops in it
when there is no value. -/
def Answers (read : Read β) (text : List Char) (answer : Option β) : Prop :=
  ∀ rest, Follows rest → Yields (read (text ++ rest)) rest answer

/-- A reading that goes on after an answer yields what it does from there, or stops. -/
theorem Yields.bind {result : Except Stop (β × List Char)} {rest rest' : List Char}
    {answer : Option β} {next : β × List Char → Except Stop (γ × List Char)}
    {answer' : β → Option γ} (h : Yields result rest answer)
    (hnext : ∀ x, answer = some x → Yields (next (x, rest)) rest' (answer' x)) :
    Yields (result >>= next) rest' (answer.bind answer') := by
  cases answer with
  | none =>
    obtain ⟨stop, rfl⟩ := h
    exact ⟨stop, rfl⟩
  | some x =>
    have h : result = .ok (x, rest) := h
    rw [h]
    exact hnext x rfl

/-- The text starts with a character that belongs to a value. -/
def Opens (text : List Char) : Prop :=
  ∃ c rest, text = c :: rest ∧ isBlank c = false ∧ c ≠ ']' ∧ c ≠ '}'

theorem Opens.append {text : List Char} (h : Opens text) (rest : List Char) :
    Opens (text ++ rest) := by
  obtain ⟨c, tail, rfl, hc⟩ := h
  exact ⟨c, tail ++ rest, rfl, hc⟩

theorem Opens.skipBlanks {text : List Char} (h : Opens text) : skipBlanks text = text := by
  obtain ⟨c, tail, rfl, hblank, _⟩ := h
  rw [Json.skipBlanks, List.dropWhile_cons, hblank]
  rfl

/-! ## Parts separated by commas -/

/-- Texts with commas before all of them, or before all but the first. -/
def separated : (isFirst : Bool) → List (List Char) → List Char
  | _, [] => []
  | true, text :: rest => text ++ separated false rest
  | false, text :: rest => ',' :: (text ++ separated false rest)

theorem elementChars_eq (elements : List Json) :
    elementChars elements = separated true (elements.map chars) := by
  induction elements with
  | nil => rfl
  | cons element rest ih =>
    cases rest with
    | nil => exact (List.append_nil _).symm
    | cons next rest =>
      rw [elementChars, ih]
      · rfl
      · exact List.cons_ne_nil _ _

/-- The text of a member with the text of its value. -/
def memberText (name : String) (text : List Char) : List Char := stringChars name ++ ':' :: text

theorem memberChars_eq (members : List (String × Json)) :
    memberChars members =
      separated true (members.map fun member => memberText member.1 (chars member.2)) := by
  induction members with
  | nil => rfl
  | cons member rest ih =>
    obtain ⟨name, value⟩ := member
    cases rest with
    | nil => simp [memberChars, separated, memberText]
    | cons next rest =>
      rw [memberChars, ih]
      · simp [separated, memberText]
      · exact List.cons_ne_nil _ _

/-- The text of a sequence, with what follows it. -/
theorem chars_array_append (elements : List Json) (rest : List Char) :
    chars (.array elements) ++ rest =
      '[' :: (separated true (elements.map chars) ++ ']' :: rest) := by
  rw [chars, elementChars_eq, List.cons_append, List.append_assoc]
  rfl

/-- The text of an object, with what follows it. -/
theorem chars_object_append (members : List (String × Json)) (rest : List Char) :
    chars (.object members) ++ rest =
      '{' :: (separated true (members.map fun member => memberText member.1 (chars member.2)) ++
        '}' :: rest) := by
  rw [chars, memberChars_eq, List.cons_append, List.append_assoc]
  rfl

/-- What stands between two parts, or behind the last one, can stand behind a value. -/
theorem follows_separated {rest : List Char} (h : Follows rest) (texts : List (List Char)) :
    Follows (separated false texts ++ rest) := by
  cases texts with
  | nil => exact h
  | cons text more => exact .comma _

/-- The first answer comes before the others. -/
theorem mapM_cons_map {ι : Type} (answer : ι → Option β) (i : ι) (items : List ι)
    (reversed : List β) :
    ((i :: items).mapM answer).map (reversed.reverse ++ ·) =
      (answer i).bind fun x => (items.mapM answer).map ((x :: reversed).reverse ++ ·) := by
  rw [List.mapM_cons]
  cases answer i with
  | none => rfl
  | some x => cases items.mapM answer <;> simp

/-- Items that are all kept are kept together. -/
theorem mapM_of_kept {f : β → Option β} {xs : List β} (h : ∀ x ∈ xs, f x = some x) :
    xs.mapM f = some xs := by
  induction xs with
  | nil => rfl
  | cons x xs ih =>
    rw [List.forall_mem_cons] at h
    rw [List.mapM_cons, h.1, ih h.2]
    rfl

/-! ## Sequences -/

/-- The next element is found with its comma, which the first one has not. -/
theorem nextElement_separated {text : List Char} (h : Opens text) (isFirst : Bool)
    (texts : List (List Char)) (rest : List Char) :
    nextElement isFirst (separated isFirst (text :: texts) ++ rest) =
      .ok (true, text ++ (separated false texts ++ rest)) := by
  have hskip := (h.append (separated false texts ++ rest)).skipBlanks
  obtain ⟨c, tail, rfl, _, hbracket, _⟩ := h
  rw [List.cons_append] at hskip ⊢
  cases isFirst with
  | true =>
    rw [nextElement, separated, List.append_assoc, List.cons_append, hskip]
    split
    · contradiction
    · rename_i heq
      exact absurd (List.cons.inj heq).1 hbracket
    · rename_i heq
      rw [if_pos rfl, ← heq]
  | false =>
    have hcomma : ∀ text, skipBlanks (',' :: text) = ',' :: text := fun _ => rfl
    rw [nextElement, separated, List.cons_append, List.append_assoc, List.cons_append, hcomma]
    split
    · contradiction
    · rename_i heq
      exact absurd (List.cons.inj heq).1 (by decide)
    rename_i heq
    obtain ⟨rfl, rfl⟩ := List.cons.inj heq
    rw [if_neg Bool.false_ne_true, if_pos rfl, hskip]
    split
    · contradiction
    · rename_i heq
      exact absurd (List.cons.inj heq).1 hbracket
    · rfl

/-- Elements are read one after the other until one cannot be read. -/
theorem elementsFrom_answers {item : Read β} (items : List (List Char × Option β))
    (hitems : ∀ i ∈ items, Opens i.1 ∧ Answers item i.1 i.2) (fuel : Nat) (reversed : List β)
    (rest : List Char) (hfuel : items.length < fuel) :
    Yields (elementsFrom item fuel reversed
        (separated reversed.isEmpty (items.map Prod.fst) ++ ']' :: rest)) rest
      ((items.mapM Prod.snd).map (reversed.reverse ++ ·)) := by
  induction items generalizing fuel reversed with
  | nil =>
    cases fuel with
    | zero => cases hfuel
    | succ fuel =>
      rw [List.mapM_nil]
      change elementsFrom item (fuel + 1) reversed (']' :: rest) =
        .ok (reversed.reverse ++ [], rest)
      rw [List.append_nil]
      rfl
  | cons i items ih =>
    obtain ⟨text, answer⟩ := i
    rw [List.forall_mem_cons] at hitems
    obtain ⟨⟨hopens, hanswers⟩, hitems⟩ := hitems
    cases fuel with
    | zero => cases hfuel
    | succ fuel =>
      have hfollows : Follows (separated false (items.map Prod.fst) ++ ']' :: rest) :=
        follows_separated (.bracket rest) _
      rw [elementsFrom, List.map_cons,
        bind_eq_of_ok (nextElement_separated hopens reversed.isEmpty _ _)]
      rw [mapM_cons_map]
      refine (hanswers _ hfollows).bind fun x _ => ?_
      exact ih hitems fuel (x :: reversed) (Nat.lt_of_succ_lt_succ hfuel)

/-- There are no more texts than characters. -/
theorem length_le_separated (isFirst : Bool) (texts : List (List Char))
    (h : ∀ text ∈ texts, text ≠ []) : texts.length ≤ (separated isFirst texts).length := by
  induction texts generalizing isFirst with
  | nil => exact Nat.zero_le _
  | cons text rest ih =>
    rw [List.forall_mem_cons] at h
    have hpos := List.length_pos_iff.2 h.1
    have hrest := ih false h.2
    cases isFirst <;>
      simp only [separated, List.length_cons, List.length_append] <;> omega

/-- The elements of a sequence are read in order, or reading stops at the first that cannot be. -/
theorem elements_answers {item : Read β} (items : List (List Char × Option β))
    (hitems : ∀ i ∈ items, Opens i.1 ∧ Answers item i.1 i.2) (rest : List Char) :
    Yields (elements item (separated true (items.map Prod.fst) ++ ']' :: rest)) rest
      (items.mapM Prod.snd) := by
  have hlength := length_le_separated true (items.map Prod.fst) <| by
    intro text htext
    obtain ⟨i, hi, rfl⟩ := List.mem_map.1 htext
    obtain ⟨c, tail, hopens, _⟩ := (hitems i hi).1
    rw [hopens]
    exact List.cons_ne_nil c tail
  have hfuel : items.length <
      (separated true (items.map Prod.fst) ++ ']' :: rest).length + 1 := by
    rw [List.length_map] at hlength
    rw [List.length_append]
    omega
  have hwhole := elementsFrom_answers items hitems _ [] rest hfuel
  have hanswer : (items.mapM Prod.snd).map ([].reverse ++ ·) = items.mapM Prod.snd :=
    Option.map_id'
  rw [hanswer] at hwhole
  exact hwhole

/-! ## Objects -/

/-- The member with the answer to its value. -/
def namedAnswer (member : String × List Char × Option β) : Option (String × β) :=
  member.2.2.map (member.1, ·)

/-- The next name is found with its comma, which the first one has not. -/
theorem nextName_separated (name : String) (text : List Char) (isFirst : Bool)
    (texts : List (List Char)) (rest : List Char) :
    nextName isFirst (separated isFirst (memberText name text :: texts) ++ rest) =
      .ok (some name, ':' :: (text ++ (separated false texts ++ rest))) := by
  have hname : ∀ rest, stringBody (name.toList.flatMap escaped ++ '"' :: rest) >>=
      (fun read => .ok (some read.1, read.2)) = .ok (some name, rest) := by
    intro rest
    rw [stringBody_escaped]
    rfl
  cases isFirst with
  | true =>
    rw [separated, memberText, List.append_assoc, List.append_assoc, stringChars_append]
    exact hname _
  | false =>
    rw [separated, memberText, List.cons_append, List.append_assoc, List.append_assoc,
      stringChars_append]
    exact hname _

/-- Members are read one after the other until one cannot be read. -/
theorem membersFrom_answers {item : Read β} (items : List (String × List Char × Option β))
    (hitems : ∀ i ∈ items, Answers item i.2.1 i.2.2) (fuel : Nat) (reversed : List (String × β))
    (rest : List Char) (hfuel : items.length < fuel) :
    Yields (membersFrom item fuel reversed
        (separated reversed.isEmpty (items.map fun i => memberText i.1 i.2.1) ++
          '}' :: rest)) rest
      ((items.mapM namedAnswer).map (reversed.reverse ++ ·)) := by
  induction items generalizing fuel reversed with
  | nil =>
    cases fuel with
    | zero => cases hfuel
    | succ fuel =>
      rw [List.mapM_nil]
      change membersFrom item (fuel + 1) reversed ('}' :: rest) = .ok (reversed.reverse ++ [], rest)
      rw [List.append_nil]
      rfl
  | cons i items ih =>
    obtain ⟨name, text, answer⟩ := i
    rw [List.forall_mem_cons] at hitems
    obtain ⟨hanswers, hitems⟩ := hitems
    cases fuel with
    | zero => cases hfuel
    | succ fuel =>
      have hfollows : Follows (separated false
          (items.map fun i => memberText i.1 i.2.1) ++ '}' :: rest) :=
        follows_separated (.brace rest) _
      rw [membersFrom, List.map_cons,
        bind_eq_of_ok (nextName_separated name text reversed.isEmpty _ _)]
      rw [mapM_cons_map, namedAnswer, Option.bind_map]
      refine (hanswers _ hfollows).bind fun x _ => ?_
      exact ih hitems fuel ((name, x) :: reversed) (Nat.lt_of_succ_lt_succ hfuel)

/-- The members of an object are read in order, or reading stops at the first that cannot be. -/
theorem members_answers {item : Read β} (items : List (String × List Char × Option β))
    (hitems : ∀ i ∈ items, Answers item i.2.1 i.2.2) (rest : List Char) :
    Yields (members item (separated true
        (items.map fun i => memberText i.1 i.2.1) ++ '}' :: rest)) rest
      (items.mapM namedAnswer) := by
  have hlength := length_le_separated true
    (items.map fun i => memberText i.1 i.2.1) <| by
      intro text htext
      obtain ⟨i, hi, rfl⟩ := List.mem_map.1 htext
      exact List.append_ne_nil_of_right_ne_nil _ (List.cons_ne_nil _ _)
  have hfuel : items.length < (separated true
      (items.map fun i => memberText i.1 i.2.1) ++ '}' :: rest).length + 1 := by
    rw [List.length_map] at hlength
    rw [List.length_append]
    omega
  have hwhole := membersFrom_answers items hitems _ [] rest hfuel
  have hanswer : (items.mapM namedAnswer).map ([].reverse ++ ·) = items.mapM namedAnswer :=
    Option.map_id'
  rw [hanswer] at hwhole
  exact hwhole

end DeferredReward.Json
