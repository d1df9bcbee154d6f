import DeferredReward.Json.Wanted
import Mathlib.Data.List.Forall2

/-!
# Values that are the same

Two values are alike when they differ only in what objects do not tell apart: the order of
members, members before the last one of their name, and so on inside them. No field can tell
such values from each other, nor can the message about one that it refuses.

Main statements: `Alike.refl`, `mem_names_iff_of_alike`, `respects_sequence`.
-/

namespace DeferredReward.Json

/-- The values are the same, up to members that do not count. -/
inductive Alike : Json → Json → Prop where
  /-- The absent value. -/
  | null : Alike .null .null
  /-- The same truth value. -/
  | bool (b : Bool) : Alike (.bool b) (.bool b)
  /-- The same number. -/
  | number (n : Number) : Alike (.number n) (.number n)
  /-- The same text. -/
  | string (s : String) : Alike (.string s) (.string s)
  /-- The same values in the same places. -/
  | array {xs ys : List Json} (h : List.Forall₂ Alike xs ys) : Alike (.array xs) (.array ys)
  /-- Under each name the same last value, or none. -/
  | object {xs ys : List (String × Json)}
      (h : ∀ name, Option.Rel Alike (lastMember? xs name) (lastMember? ys name)) :
      Alike (.object xs) (.object ys)

/-! ## Members -/

/-- The last value of a name is that of a member. -/
theorem mem_of_lastMember? {members : List (String × Json)} {name : String} {v : Json}
    (h : lastMember? members name = some v) : (name, v) ∈ members := by
  obtain ⟨member, hfind, rfl⟩ := Option.map_eq_some_iff.1 h
  have hname : member.1 = name := by simpa using List.find?_some hfind
  rw [← hname]
  exact List.mem_reverse.1 (List.mem_of_find?_eq_some hfind)

/-- A name has a last value when a member has it. -/
theorem lastMember?_eq_none_iff {members : List (String × Json)} {name : String} :
    lastMember? members name = none ↔ name ∉ members.map Prod.fst := by
  rw [lastMember?, Option.map_eq_none_iff, List.find?_eq_none, List.mem_map]
  constructor
  · rintro hnone ⟨member, hmember, rfl⟩
    exact hnone member (List.mem_reverse.2 hmember) (beq_self_eq_true member.1)
  · intro hname member hmember hsame
    exact hname ⟨member, List.mem_reverse.1 hmember, beq_iff_eq.1 hsame⟩

theorem lastMember?_cons (member : String × Json) (rest : List (String × Json)) (name : String) :
    lastMember? (member :: rest) name =
      (lastMember? rest name).or (if member.1 = name then some member.2 else none) := by
  rw [lastMember?, lastMember?, List.reverse_cons, List.find?_append, List.find?_singleton,
    Option.map_or]
  simp only [beq_iff_eq]
  split <;> rfl

theorem Alike.refl (v : Json) : Alike v v := by
  match v with
  | .null => exact .null
  | .bool b => exact .bool b
  | .number n => exact .number n
  | .string s => exact .string s
  | .array xs => exact .array (List.forall₂_same.2 fun x _ => Alike.refl x)
  | .object members =>
    refine .object fun name => ?_
    cases h : lastMember? members name with
    | none => exact .none
    | some w =>
      -- The last value of a name is a part of the object.
      have hpart : sizeOf w < 1 + sizeOf members := by
        have hsize := List.sizeOf_lt_of_mem (mem_of_lastMember? h)
        rw [Prod.mk.sizeOf_spec] at hsize
        omega
      exact .some (Alike.refl w)
termination_by sizeOf v

/-- A value that may be absent, too, is like itself. -/
theorem Alike.optional_refl (v : Option Json) : Option.Rel Alike v v := by
  cases v with
  | none => exact .none
  | some w => exact .some (Alike.refl w)

/-- Objects that are alike have the same names. -/
theorem mem_names_iff_of_alike {xs ys : List (String × Json)}
    (h : ∀ name, Option.Rel Alike (lastMember? xs name) (lastMember? ys name)) (name : String) :
    name ∈ xs.map Prod.fst ↔ name ∈ ys.map Prod.fst := by
  have hnone : ∀ {v w : Option Json}, Option.Rel Alike v w → (v = none ↔ w = none) := by
    intro v w hrel
    cases hrel with
    | some _ => exact iff_of_false (fun h => nomatch h) (fun h => nomatch h)
    | none => exact Iff.rfl
  have hnames := hnone (h name)
  rw [lastMember?_eq_none_iff, lastMember?_eq_none_iff] at hnames
  exact not_iff_not.1 hnames

/-! ## What fields make of values -/

/-- The conversion makes the same of values that are alike. -/
def Respects {β : Type} (convert : Json → Except Mismatch β) : Prop :=
  ∀ ⦃v w : Json⦄, Alike v w → convert v = convert w

theorem respects_word (expected : String) : Respects (word expected) := by
  intro v w h
  cases h <;> rfl

theorem respects_float : Respects float := by
  intro v w h
  cases h <;> rfl

theorem respects_truth : Respects truth := by
  intro v w h
  cases h <;> rfl

theorem respects_plainText (expected : String) : Respects (plainText expected) := by
  intro v w h
  cases h <;> rfl

/-- What is made of the result makes no difference. -/
theorem Respects.map {β γ : Type} {convert : Json → Except Mismatch β} (h : Respects convert)
    (f : β → γ) : Respects fun v => (convert v).map f :=
  fun _ _ halike => congrArg (Except.map f) (h halike)

theorem respects_optional {β : Type} {item : Json → Except Mismatch β} (hitem : Respects item) :
    Respects (optional item) := by
  intro v w h
  cases h with
  | null => rfl
  | bool | number | string => rfl
  | array h => exact congrArg (Except.map some) (hitem (.array h))
  | object h => exact congrArg (Except.map some) (hitem (.object h))

/-- Elements that are alike in their places are converted to the same, or the same one is
refused. -/
theorem respects_sequence {β : Type} {item : Json → Except Mismatch β} (hitem : Respects item) :
    Respects (sequence item) := by
  intro v w h
  cases h with
  | @array xs ys h =>
    change xs.mapM item = ys.mapM item
    induction h with
    | nil => rfl
    | cons hx _ ih => rw [List.mapM_cons, List.mapM_cons, hitem hx, ih]
  | null | bool | number | string | object => rfl

end DeferredReward.Json
