import DeferredReward.Proofs.Config.RoundTrip
import DeferredReward.Proofs.Json.Alike
import DeferredReward.Proofs.Json.Spellings

/-!
# What a configuration depends on

Members that give every setting the same last value describe the same configuration, or are
refused for the same reason, however many of them are bad or missing at once. So the order of
members counts for nothing, nor do members before the last one of their name and members that
are no settings; and a text counts for what it says, whichever of its spellings it is.

Main statements: `decode_congr`, `ofText_of_spells`, `outcome_of_lastValues`.
-/

namespace DeferredReward

open Json

/-- A list without repetitions of one name has this name only. -/
theorem eraseDups_eq_singleton_iff {names : List String} {name : String} :
    names.eraseDups = [name] ↔ name ∈ names ∧ ∀ other ∈ names, other = name := by
  constructor
  · intro h
    have hmem : ∀ other, other ∈ names ↔ other ∈ [name] := by
      intro other
      rw [← h, List.mem_eraseDups]
    exact ⟨(hmem name).2 List.mem_cons_self, fun other h => List.mem_singleton.1 ((hmem other).1 h)⟩
  · rintro ⟨hname, hall⟩
    obtain ⟨first, rest, rfl⟩ := List.exists_cons_of_ne_nil (List.ne_nil_of_mem hname)
    rw [List.forall_mem_cons] at hall
    obtain ⟨rfl, hrest⟩ := hall
    have hnone : rest.filter (fun other => !other == first) = [] := by
      rw [List.filter_eq_nil_iff]
      intro other hother
      simp [hrest other hother]
    rw [List.eraseDups_cons, hnone, List.eraseDups_nil]

namespace Activation

/-- What stands under the only name of an object is accepted for an activation. -/
def withContent (activation : Activation) : Json → Except Mismatch Activation
  | .null => .ok activation
  | content => wrongType "unit" content

/-- An object with a single name is the activation of this name. -/
theorem ofJson_of_name {members : List (String × Json)} {name : String}
    (h : (members.map Prod.fst).eraseDups = [name]) :
    ofJson (.object members) =
      ofJson (.string name) >>= (withContent · ((lastMember? members name).getD .null)) := by
  unfold ofJson
  dsimp only
  rw [h]
  rfl

/-- An object of any other number of names is none. -/
theorem ofJson_of_names {members : List (String × Json)}
    (h : ∀ name, (members.map Prod.fst).eraseDups ≠ [name]) :
    ofJson (.object members) = .error (.wrongValue .map "map with a single key") := by
  unfold ofJson
  dsimp only
  split
  · rename_i name hname
    exact absurd hname (h name)
  · rfl

theorem respects_ofJson : Respects ofJson := by
  intro v w halike
  cases halike with
  | null | bool | number | string | array => rfl
  | @object xs ys h =>
    have hnames : ∀ name, (xs.map Prod.fst).eraseDups = [name] ↔
        (ys.map Prod.fst).eraseDups = [name] := by
      intro name
      rw [eraseDups_eq_singleton_iff, eraseDups_eq_singleton_iff]
      simp only [mem_names_iff_of_alike h]
    have hcontent : ∀ {v w : Option Json}, Option.Rel Alike v w → ∀ activation,
        withContent activation (v.getD .null) = withContent activation (w.getD .null) := by
      intro v w hrel activation
      cases hrel with
      | none => rfl
      | some halike => cases halike <;> rfl
    by_cases hsingle : ∃ name, (xs.map Prod.fst).eraseDups = [name]
    · obtain ⟨name, hname⟩ := hsingle
      rw [ofJson_of_name hname, ofJson_of_name ((hnames name).1 hname)]
      exact congrArg (ofJson (.string name) >>= ·) (funext (hcontent (h name)))
    · rw [not_exists] at hsingle
      rw [ofJson_of_names hsingle, ofJson_of_names fun name => mt (hnames name).2 (hsingle name)]

end Activation

namespace Config

/-- Both lists of members give every setting the same last value, or none. -/
def SameSettings (left right : List (String × Json)) : Prop :=
  ∀ setting : Setting,
    Option.Rel Alike (lastMember? left setting.key) (lastMember? right setting.key)

variable {left right : List (String × Json)}

/-- A setting is read as the same, or refused for the same reason. -/
theorem SameSettings.setting?_eq (h : SameSettings left right) {β : Type} (setting : Setting)
    {convert : Json → Except Mismatch β} (hconvert : Respects convert) :
    setting? left setting convert = setting? right setting convert := by
  have hlast := h setting
  unfold setting?
  generalize lastMember? left setting.key = v at hlast ⊢
  generalize lastMember? right setting.key = w at hlast ⊢
  cases hlast with
  | none => rfl
  | some halike => exact congrArg (Except.map some) (hconvert halike)

/-- All settings together are read as the same, or the same first problem is met. -/
theorem decode_congr (h : SameSettings left right) : decode left = decode right := by
  have hsize := respects_word "usize"
  have hcount := respects_word "u64"
  have hpath := (respects_plainText "path string").map Path.mk
  unfold decode
  simp only [h.setting?_eq .hiddenActivation Activation.respects_ofJson,
    h.setting?_eq .hiddenSizes (respects_sequence hsize),
    h.setting?_eq .inputSize (respects_optional hsize), h.setting?_eq .batchSize hsize,
    h.setting?_eq .device (respects_plainText "a string"), h.setting?_eq .epochs hcount,
    h.setting?_eq .exploreDecay respects_float, h.setting?_eq .exploreStop respects_float,
    h.setting?_eq .exploreStart respects_float, h.setting?_eq .discount respects_float,
    h.setting?_eq .loadModel respects_truth, h.setting?_eq .loadPath (respects_optional hpath),
    h.setting?_eq .learningRate respects_float, h.setting?_eq .memorySize hsize,
    h.setting?_eq .outputPath hpath, h.setting?_eq .rewardWeight respects_float,
    h.setting?_eq .saveInterval hcount, h.setting?_eq .seed hcount,
    h.setting?_eq .blendWeight respects_float]

theorem ofMembers_congr (h : SameSettings left right) : ofMembers left = ofMembers right := by
  rw [ofMembers, ofMembers, decode_congr h]

/-! ## Lists of members with the same settings -/

/-- The entries are the members as a map: each name once, with its last value, in any order. -/
structure IsMapOf (entries members : List (String × Json)) : Prop where
  /-- No name is repeated. -/
  nodup : (entries.map Prod.fst).Nodup
  /-- Under each name stands the last value. -/
  lookup : ∀ name, Option.Rel Alike (entries.lookup name) (lastMember? members name)

/-- Among entries of distinct names the only value of a name is the last one. -/
theorem lastMember?_eq_lookup {entries : List (String × Json)}
    (h : (entries.map Prod.fst).Nodup) (name : String) :
    lastMember? entries name = entries.lookup name := by
  cases hlookup : entries.lookup name with
  | none =>
    rw [lastMember?_eq_none_iff, List.mem_map]
    rintro ⟨entry, hentry, rfl⟩
    have hother := List.lookup_eq_none_iff.1 hlookup entry hentry
    rw [bne_self_eq_false] at hother
    cases hother
  | some v =>
    obtain ⟨before, after, rfl, _⟩ := List.lookup_eq_some_iff.1 hlookup
    exact lastMember?_of_mem h (List.mem_append_right before List.mem_cons_self)

theorem IsMapOf.sameSettings {entries members : List (String × Json)}
    (h : IsMapOf entries members) : SameSettings entries members := by
  intro setting
  rw [lastMember?_eq_lookup h.nodup]
  exact h.lookup setting.key

/-- Members are a map once those that a later one replaces are left out. -/
theorem exists_isMapOf (members : List (String × Json)) : ∃ entries, IsMapOf entries members := by
  obtain ⟨entries, hnodup, hlast⟩ : ∃ entries : List (String × Json),
      (entries.map Prod.fst).Nodup ∧
        ∀ name, lastMember? entries name = lastMember? members name := by
    induction members with
    | nil => exact ⟨[], List.nodup_nil, fun _ => rfl⟩
    | cons member rest ih =>
      obtain ⟨entries, hnodup, hlast⟩ := ih
      by_cases hreplaced : member.1 ∈ rest.map Prod.fst
      · refine ⟨entries, hnodup, fun name => ?_⟩
        rw [lastMember?_cons, hlast name]
        cases hvalue : lastMember? rest name with
        | some v => rfl
        | none =>
          have hother : member.1 ≠ name := fun heq =>
            lastMember?_eq_none_iff.1 hvalue (heq ▸ hreplaced)
          rw [if_neg hother, Option.or_none]
      · have hnew : member.1 ∉ entries.map Prod.fst := by
          rwa [← lastMember?_eq_none_iff, hlast, lastMember?_eq_none_iff]
        refine ⟨member :: entries, List.nodup_cons.2 ⟨hnew, hnodup⟩, fun name => ?_⟩
        rw [lastMember?_cons, lastMember?_cons, hlast name]
  refine ⟨entries, hnodup, fun name => ?_⟩
  rw [← lastMember?_eq_lookup hnodup, hlast name]
  exact Alike.optional_refl _

/-- The last values of the settings, in the order of the settings. -/
def lastSettings (members : List (String × Json)) : List (String × Json) :=
  Setting.all.filterMap fun setting =>
    (lastMember? members setting.key).map (setting.key, ·)

theorem mem_lastSettings_iff {members : List (String × Json)} {name : String} {v : Json} :
    (name, v) ∈ lastSettings members ↔
      ∃ setting : Setting, setting.key = name ∧ lastMember? members setting.key = some v := by
  rw [lastSettings, List.mem_filterMap]
  constructor
  · rintro ⟨setting, -, hsetting⟩
    obtain ⟨w, hw, heq⟩ := Option.map_eq_some_iff.1 hsetting
    obtain ⟨rfl, rfl⟩ := Prod.mk.inj heq
    exact ⟨setting, rfl, hw⟩
  · rintro ⟨setting, rfl, hv⟩
    exact ⟨setting, setting.mem_all, by rw [hv]; rfl⟩

/-- No name is repeated among them. -/
theorem nodup_lastSettings (members : List (String × Json)) :
    ((lastSettings members).map Prod.fst).Nodup := by
  have hkeys : ∀ settings : List Setting, ((settings.filterMap fun setting =>
      (lastMember? members setting.key).map (setting.key, ·)).map Prod.fst).Sublist
        (settings.map Setting.key) := by
    intro settings
    induction settings with
    | nil => exact .slnil
    | cons setting rest ih =>
      rw [List.filterMap_cons]
      cases lastMember? members setting.key with
      | none => exact ih.cons _
      | some v => exact ih.cons_cons _
  exact Setting.nodup_keys.sublist (hkeys Setting.all)

/-- They give every setting the value that the members give it. -/
theorem lastMember?_lastSettings (members : List (String × Json)) (setting : Setting) :
    lastMember? (lastSettings members) setting.key = lastMember? members setting.key := by
  cases hvalue : lastMember? members setting.key with
  | none =>
    rw [lastMember?_eq_none_iff, List.mem_map]
    rintro ⟨⟨name, v⟩, hentry, rfl⟩
    obtain ⟨other, hother, hv⟩ := mem_lastSettings_iff.1 hentry
    rw [hother, hvalue] at hv
    cases hv
  | some v =>
    exact lastMember?_of_mem (nodup_lastSettings members)
      (mem_lastSettings_iff.2 ⟨setting, rfl, hvalue⟩)

theorem SameSettings.of_eq (h : ∀ setting : Setting,
    lastMember? left setting.key = lastMember? right setting.key) : SameSettings left right := by
  intro setting
  rw [h setting]
  exact Alike.optional_refl _

/-! ## Outcomes -/

/-- A text that stands for an object is read as its members, whatever its spelling. -/
theorem ofText_of_spells {members : List (String × Json)} {text : String}
    (h : SpellsText (.object members) text) : ofText text = ofMembers members := by
  obtain ⟨before, inner, after, hbefore, hafter, hinner, htext⟩ := h
  have hread : objectMembers text.toList = .ok (members, after) := by
    obtain hplain | hcontainer := hinner
    · cases hplain
    cases hcontainer with
    | @object _ body hbody =>
      have hstart : valueStart (before ++ ('{' :: body ++ after)) = .ok ('{', body ++ after) := by
        rw [valueStart, hbefore.skipBlanks_append]
        rfl
      rw [htext, objectMembers, bind_eq_of_ok hstart]
      exact hbody.members_eq (fun _ _ hv => (hv.read .text).2)
        (fun _ text hgap => value_blanks .text _ hgap text) after
  rw [ofText, document_of_blanks hread hafter]

/-- A refusal is that of a value that does not fit, without a place, or of a setting. -/
theorem ofMembers_eq_error {members : List (String × Json)} {e : ConfigError}
    (h : ofMembers members = .error e) :
    (∃ cause, e = .unreadable ⟨.mismatch cause, none⟩) ∨ ∃ cause, e = .rejected cause := by
  unfold ofMembers at h
  split at h
  · cases h
    exact .inl ⟨_, rfl⟩
  · split at h
    · cases h
      exact .inr ⟨_, rfl⟩
    · cases h

/-- Two lists of members that give every setting the same last value have one outcome, be it a
configuration or an error, and an error with the same cause. It is had from the members as they
are, from the last values of the settings alone and from the members as a map with its entries in
any order; it is had from every text that stands for an object of the members, and from every
file with such a text. An error is that of a value that does not fit or is missing, without a
place in a text, or that of a setting that is not accepted. -/
theorem outcome_of_lastValues (h : SameSettings left right) :
    ∃ outcome : Except ConfigError (Config Float),
      (∀ members ∈ [left, right],
        ofMembers members = outcome ∧ ofMembers (lastSettings members) = outcome ∧
        (∀ entries, IsMapOf entries members → ofMembers entries = outcome) ∧
        ∀ text, SpellsText (.object members) text →
          ofText text = outcome ∧
          ∀ (tree : FileTree) path, tree.read path = .ok text →
            (ofFile path : StateM FileTree _).run tree = (outcome, tree)) ∧
      ∀ e, outcome = .error e →
        (∃ cause, e = .unreadable ⟨.mismatch cause, none⟩) ∨ ∃ cause, e = .rejected cause := by
  refine ⟨ofMembers left, fun members hmembers => ?_, fun e => ofMembers_eq_error⟩
  have hsame : ofMembers members = ofMembers left := by
    obtain rfl | hright := List.mem_cons.1 hmembers
    · rfl
    · rw [List.mem_singleton.1 hright, ofMembers_congr h]
  refine ⟨hsame, ?_, fun entries hentries => ?_, fun text htext => ?_⟩
  · rw [ofMembers_congr (.of_eq (lastMember?_lastSettings members)), hsame]
  · rw [ofMembers_congr hentries.sameSettings, hsame]
  · have hread := (ofText_of_spells htext).trans hsame
    refine ⟨hread, fun tree path hfile => ?_⟩
    rw [ofFile_of_read hfile, hread]

/-- Members with a first rate that does not count, one that counts for nothing and several bad
ones. -/
def roundabout : List (String × Json) :=
  [("training.lr", .number (realNumber false 15 (-1))), ("extra", .array [.bool true]),
    ("model.hidden_activation", .object [("tanh", .bool true), ("tanh", .null)]),
    ("training.lr", .bool true), ("training.tau", .null)]

/-- The same settings, in another order. -/
def direct : List (String × Json) :=
  [("training.tau", .null), ("model.hidden_activation", .object [("tanh", .null)]),
    ("training.lr", .bool true)]

theorem sameSettings_roundabout : SameSettings roundabout direct := by
  have hactivation : Alike (.object [("tanh", .bool true), ("tanh", .null)])
      (.object [("tanh", .null)]) := by
    refine .object fun name => ?_
    by_cases hname : "tanh" = name
    · subst hname
      exact .some .null
    · simp only [lastMember?, List.reverse_cons, List.reverse_nil, List.nil_append,
        List.cons_append, List.find?_cons, beq_eq_false_iff_ne.2 hname, List.find?_nil,
        Option.map_none]
      exact .none
  intro setting
  cases setting with
  | hiddenActivation => exact .some hactivation
  | learningRate => exact .some (.bool true)
  | blendWeight => exact .some .null
  | _ => exact .none

/-- A text of these members, with blanks, an exponent and a letter given by number. -/
def roundaboutText : String :=
  "\x7b\"training.lr\":1.5e0 , \"extra\":[true ],\n" ++
  "\"model.hidden_activation\":\x7b\"tanh\":true,\"tanh\":null\x7d," ++
  "\"\\u0074raining.lr\" : true,\"training.tau\":null\x7d\n"

theorem spellsText_roundabout : SpellsText (.object roundabout) roundaboutText := by
  have hname := spellsString_stringChars
  have hletter : SpellsChar (Char.ofNat 0x74) ['\\', 'u', '0', '0', '7', '4'] :=
    .numbered rfl (.inl (by decide))
  have hspelled : SpellsString "training.lr"
      ('"' :: (['\\', 'u', '0', '0', '7', '4'] ++ "raining.lr".toList.flatMap escaped ++
        ['"'])) := by
    have hfirst : "training.lr".toList = Char.ofNat 0x74 :: "raining.lr".toList := by decide
    exact .quoted (hfirst ▸ .cons hletter (spellsChars_flatMap _))
  have hdigits : ∀ c : Char, c.isDigit = true → Digits [c] :=
    fun c hc => ⟨List.cons_ne_nil c [], fun d hd => List.mem_singleton.1 hd ▸ hc⟩
  have hrate : SpellsNumber (realNumber false 15 (-1)) ['1', '.', '5', 'e', '0'] := by
    have hexponent : SpellsExponent 15 0 ['e', '0'] :=
      .given (.inl rfl) (.head _ : ([], false) ∈ exponentSigns) (hdigits '0' rfl) (.inl (by decide))
    have hwhole : IsNumeral ['1'] := .inr ⟨'1', [], rfl, by decide, (hdigits '1' rfl).isDigit⟩
    exact .real false hwhole (.point (hdigits '5' rfl)) hexponent (List.cons_ne_nil _ _)
  have hnone : Blank [] := by decide
  have hspace : Blank [' '] := by decide
  have hline : Blank ['\n'] := by decide
  have htanh : SpellsContainer (Spells 125) (.object [("tanh", .bool true), ("tanh", .null)]) _ :=
    .object (.part (.first hnone) (.named (hname "tanh") hnone hnone (.plain .isTrue 125)) <|
      .part (.next hnone hnone) (.named (hname "tanh") hnone hnone (.plain .null 125)) <|
      .close hnone)
  have hextra : SpellsContainer (Spells 125) (.array [.bool true]) _ :=
    .array (.part (.first hnone) (.plain .isTrue 125) (.close hspace))
  have hmembers : SpellsList '}' (SpellsMember (Spells 126)) true roundabout _ :=
    .part (.first hnone)
      (.named (hname "training.lr") hnone hnone (.plain (.number hrate (by decide +kernel)) 126)) <|
    .part (.next hspace hspace) (.named (hname "extra") hnone hnone (.container hextra)) <|
    .part (.next hnone hline)
      (.named (hname "model.hidden_activation") hnone hnone (.container htanh)) <|
    .part (.next hnone hnone) (.named hspelled hspace hspace (.plain .isTrue 126)) <|
    .part (.next hnone hnone) (.named (hname "training.tau") hnone hnone (.plain .null 126)) <|
    .close hnone
  exact ⟨[], _, ['\n'], hnone, hline, .container (.object hmembers), by decide +kernel⟩

/-- A text of the members in the other order. -/
def directText : String :=
  "\x7b\"training.tau\":null,\"model.hidden_activation\":\x7b\"tanh\":null\x7d," ++
  "\"training.lr\":true\x7d"

theorem spellsText_direct : SpellsText (.object direct) directText := by
  have hname := spellsString_stringChars
  have hnone : Blank [] := by decide
  have htanh : SpellsContainer (Spells 125) (.object [("tanh", .null)]) _ :=
    .object (.part (.first hnone) (.named (hname "tanh") hnone hnone (.plain .null 125))
      (.close hnone))
  have hmembers : SpellsList '}' (SpellsMember (Spells 126)) true direct _ :=
    .part (.first hnone) (.named (hname "training.tau") hnone hnone (.plain .null 126)) <|
    .part (.next hnone hnone)
      (.named (hname "model.hidden_activation") hnone hnone (.container htanh)) <|
    .part (.next hnone hnone) (.named (hname "training.lr") hnone hnone (.plain .isTrue 126)) <|
    .close hnone
  exact ⟨[], _, [], hnone, hnone, .container (.object hmembers), by decide +kernel⟩

/-- A rate that is no number is what files with either text are refused for, not the blend weight
that is none, nor the settings that are missing. -/
theorem outcome_of_lastValues_roundabout :
    SameSettings roundabout direct ∧
    (∃ entries, IsMapOf entries roundabout ∧
      ofMembers entries =
        .error (.unreadable ⟨.mismatch (.wrongType (.bool true) "f64"), none⟩)) ∧
    ∀ text ∈ [roundaboutText, directText],
      ∃ tree : FileTree, tree.read ⟨"config.json"⟩ = .ok text ∧
        (ofFile ⟨"config.json"⟩ : StateM FileTree _).run tree =
          (.error (.unreadable ⟨.mismatch (.wrongType (.bool true) "f64"), none⟩), tree) := by
  obtain ⟨outcome, hruns, -⟩ := outcome_of_lastValues sameSettings_roundabout
  obtain ⟨-, -, hmap, hroundabout⟩ := hruns roundabout (.head _)
  obtain ⟨hrefused, -, -, hdirect⟩ := hruns direct (.tail _ (.head _))
  have houtcome :
      outcome = .error (.unreadable ⟨.mismatch (.wrongType (.bool true) "f64"), none⟩) :=
    hrefused.symm
  rw [← houtcome]
  obtain ⟨entries, hentries⟩ := exists_isMapOf roundabout
  refine ⟨sameSettings_roundabout, ⟨entries, hentries, hmap entries hentries⟩,
    fun text htext => ?_⟩
  have hfile : FileTree.Writable FileTree.empty ⟨"config.json"⟩ :=
    FileTree.writable_of_empty (by decide +kernel) (by decide +kernel)
  obtain ⟨tree, hwrite⟩ := FileTree.exists_write_of_writable hfile text
  have hread := FileTree.read_of_write hwrite
  refine ⟨tree, hread, ?_⟩
  obtain rfl | htext := List.mem_cons.1 htext
  · exact (hroundabout _ spellsText_roundabout).2 tree _ hread
  · obtain rfl := List.mem_singleton.1 htext
    exact (hdirect _ spellsText_direct).2 tree _ hread

end Config

end DeferredReward
