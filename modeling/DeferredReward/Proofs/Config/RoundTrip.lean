import DeferredReward.Config.Reading
import DeferredReward.Config.Writing
import DeferredReward.Proofs.Arithmetic.Doubles
import DeferredReward.Proofs.Config
import DeferredReward.Proofs.Json.Values
import DeferredReward.Proofs.Storage.Tree

/-!
# Configurations read back

An accepted configuration is read back from its members, in whatever order they
come, and from their text in a file: it is the same in all settings. There is one
exception. All rates of an accepted configuration are finite but for the one of
exploration's decay, of which only the sign is tested; when it is infinite it is
written as the absent value, which is not a number, so that nothing is read back.

Main statements: `finiteRates_of_validate`, `decode_eq`, `read_written`.
-/

namespace DeferredReward

/-- The settings in their order. -/
def Setting.all : List Setting :=
  [.batchSize, .discount, .exploreStart, .exploreStop, .exploreDecay, .learningRate, .blendWeight,
    .device, .epochs, .loadModel, .loadPath, .rewardWeight, .saveInterval, .outputPath,
    .memorySize, .seed, .inputSize, .hiddenSizes, .hiddenActivation]

theorem Setting.mem_all (setting : Setting) : setting ∈ Setting.all := by
  cases setting <;> decide

/-- No two settings have the same key. -/
theorem Setting.nodup_keys : (Setting.all.map Setting.key).Nodup := by
  decide +kernel

namespace Json

/-! ## Members under their names -/

/-- The value under a name that no other member has. -/
theorem lastMember?_of_mem {members : List (String × Json)}
    (hnodup : (members.map Prod.fst).Nodup) {name : String} {v : Json}
    (h : (name, v) ∈ members) : lastMember? members name = some v := by
  unfold lastMember?
  cases hfind : members.reverse.find? fun member => member.1 == name with
  | none =>
    have hnone := List.find?_eq_none.1 hfind (name, v) (List.mem_reverse.2 h)
    exact absurd (beq_self_eq_true name) hnone
  | some member =>
    have hmem := List.mem_reverse.1 (List.mem_of_find?_eq_some hfind)
    have hname : member.1 = name := by simpa using List.find?_some hfind
    have hsame := List.inj_on_of_nodup_map hnodup hmem h hname
    rw [hsame]
    rfl

/-! ## What fields want of what is written -/

theorem word_ofNat (expected : String) (n : UInt64) : word expected (.ofNat n.toNat) = .ok n := by
  have hlimit : (n.toNat : ℤ) < UInt64.size := Int.ofNat_lt.2 n.toNat_lt
  have hword : Number.unsigned UInt64.size expected (.integer n.toNat) = .ok n.toNat := by
    rw [Number.unsigned, if_pos ⟨Int.natCast_nonneg _, hlimit⟩, Int.toNat_natCast]
  change (Number.unsigned UInt64.size expected (.integer n.toNat)).map UInt64.ofNat = .ok n
  rw [hword]
  exact congrArg Except.ok UInt64.ofNat_toNat

theorem float_ofFloat {x : Float} (h : x.isFinite = true) : float (.ofFloat x) = .ok x := by
  rw [ofFloat, if_pos h]
  rfl

/-- A value that may be absent is read back when it is read back where it is there. -/
theorem optional_map {β : Type} {item : Json → Except Mismatch β} {written : β → Json}
    (hitem : ∀ x, item (written x) = .ok x) (hnull : ∀ x, written x ≠ .null) (x : Option β) :
    optional item ((x.map written).getD .null) = .ok x := by
  cases x with
  | none => rfl
  | some x =>
    change optional item (written x) = .ok (some x)
    rw [optional]
    · rw [hitem]
      rfl
    · exact hnull x

/-- A sequence is read back when its elements are. -/
theorem sequence_map {β : Type} {item : Json → Except Mismatch β} {written : β → Json}
    (hitem : ∀ x, item (written x) = .ok x) (xs : List β) :
    sequence item (.array (xs.map written)) = .ok xs := by
  change (xs.map written).mapM item = .ok xs
  induction xs with
  | nil => rfl
  | cons x xs ih =>
    rw [List.map_cons, List.mapM_cons, hitem, ih]
    rfl

end Json

theorem Activation.ofJson_name (a : Activation) : Activation.ofJson (.string a.name) = .ok a := by
  unfold Activation.ofJson
  dsimp only
  rw [Activation.ofName?_name]

namespace Config

open Json

/-! ## What is written -/

/-- The value that is written under the key of a setting. -/
def written (c : Config Float) : Setting → Json
  | .batchSize => .ofNat c.batchSize.toNat
  | .discount => .ofFloat c.discount
  | .exploreStart => .ofFloat c.exploreStart
  | .exploreStop => .ofFloat c.exploreStop
  | .exploreDecay => .ofFloat c.exploreDecay
  | .learningRate => .ofFloat c.learningRate
  | .blendWeight => .ofFloat c.blendWeight
  | .device => .string c.device
  | .epochs => .ofNat c.epochs.toNat
  | .loadModel => .bool c.loadModel
  | .loadPath => (c.loadPath.map fun path => Json.string path.text).getD .null
  | .rewardWeight => .ofFloat c.rewardWeight
  | .saveInterval => .ofNat c.saveInterval.toNat
  | .outputPath => .string c.outputPath.text
  | .memorySize => .ofNat c.memorySize.toNat
  | .seed => .ofNat c.seed.toNat
  | .inputSize => (c.inputSize.map fun size => Json.ofNat size.toNat).getD .null
  | .hiddenSizes => .array (c.hiddenSizes.map fun size => .ofNat size.toNat)
  | .hiddenActivation => .string c.hiddenActivation.name

theorem toJson_eq (c : Config Float) :
    c.toJson = .object (Setting.all.map fun setting => (setting.key, c.written setting)) := rfl

variable {c : Config Float} {given : List (String × Json)}

/-- Among the members, in any order, each setting has the value that was written. -/
theorem lastMember?_of_perm
    (h : given.Perm (Setting.all.map fun setting => (setting.key, c.written setting)))
    (setting : Setting) : lastMember? given setting.key = some (c.written setting) := by
  refine lastMember?_of_mem ?_ ?_
  · have hkeys := h.map Prod.fst
    rw [List.map_map] at hkeys
    exact hkeys.nodup_iff.2 Setting.nodup_keys
  · exact h.mem_iff.2 (List.mem_map.2 ⟨setting, setting.mem_all, rfl⟩)

/-- Everything that is written can be read as a value. -/
theorem readable_written (c : Config Float) (setting : Setting) (depth : ℕ) :
    Readable (depth + 1) (c.written setting) := by
  cases setting with
  | batchSize | epochs | saveInterval | memorySize | seed => exact readable_ofNat _ _
  | discount | exploreStart | exploreStop | exploreDecay | learningRate | blendWeight
  | rewardWeight => exact readable_ofFloat _ _
  | device | outputPath | hiddenActivation => exact .string _ _
  | loadModel => exact .bool _ _
  | loadPath =>
    rw [written]
    cases c.loadPath with
    | none => exact .null _
    | some path => exact .string _ _
  | inputSize =>
    rw [written]
    cases c.inputSize with
    | none => exact .null _
    | some size => exact readable_ofNat _ size
  | hiddenSizes =>
    refine .array fun element helement => ?_
    obtain ⟨size, _, rfl⟩ := List.mem_map.1 helement
    exact readable_ofNat depth size

/-! ## What is read -/

/-- All rates are finite, apart from that of exploration's decay. -/
structure FiniteRates (c : Config Float) : Prop where
  discount : c.discount.isFinite = true
  exploreStart : c.exploreStart.isFinite = true
  exploreStop : c.exploreStop.isFinite = true
  learningRate : c.learningRate.isFinite = true
  blendWeight : c.blendWeight.isFinite = true
  rewardWeight : c.rewardWeight.isFinite = true

/-- The members of a configuration with finite rates, in any order, describe it as soon as the
decay of exploration is a number. -/
theorem decode_eq (hfinite : c.FiniteRates)
    (h : given.Perm (Setting.all.map fun setting => (setting.key, c.written setting))) :
    decode given =
      (float (.ofFloat c.exploreDecay)).map fun exploreDecay => { c with exploreDecay } := by
  have hsetting : ∀ {β : Type} (setting : Setting) (convert : Json → Except Mismatch β),
      setting? given setting convert = (convert (c.written setting)).map some := by
    intro β setting convert
    rw [setting?, lastMember?_of_perm h]
  have hsizes := sequence_map (fun size => word_ofNat "usize" size) c.hiddenSizes
  have hinput := optional_map (fun size => word_ofNat "usize" size)
    (fun _ hnull => nomatch hnull) c.inputSize
  have hpath : ∀ path : Path, Json.string path.text ≠ .null := fun _ hnull => nomatch hnull
  have hload : optional (fun v => (plainText "path string" v).map Path.mk)
      ((c.loadPath.map fun path => Json.string path.text).getD .null) = .ok c.loadPath :=
    @optional_map Path _ (fun path => .string path.text) (fun _ => rfl) hpath c.loadPath
  unfold decode
  simp only [hsetting, written, word_ofNat, float_ofFloat, hfinite.discount, hfinite.exploreStart,
    hfinite.exploreStop, hfinite.learningRate, hfinite.blendWeight, hfinite.rewardWeight,
    Activation.ofJson_name, hsizes, hinput, hload]
  cases float (.ofFloat c.exploreDecay) <;> rfl

/-! ## What is accepted -/

/-- A number of an interval is finite. -/
theorem isFinite_of_holds {interval : UnitInterval} {x : Float} (h : interval.holds x = true) :
    x.isFinite = true := by
  cases interval with
  | openBoth =>
    obtain ⟨hlow, hhigh⟩ := Bool.and_eq_true_iff.1 h
    exact Double.isFinite_of_atMost (Double.atMost_of_less hlow) (Double.atMost_of_less hhigh)
  | openLow =>
    obtain ⟨hlow, hhigh⟩ := Bool.and_eq_true_iff.1 h
    exact Double.isFinite_of_atMost (Double.atMost_of_less hlow) hhigh
  | closed =>
    obtain ⟨hlow, hhigh⟩ := Bool.and_eq_true_iff.1 h
    exact Double.isFinite_of_atMost hlow hhigh

/-- The rates of an accepted configuration are finite; the decay of exploration is finite or the
positive infinity. -/
theorem finiteRates_of_validate (h : c.validate = .ok ()) :
    c.FiniteRates ∧
      (c.exploreDecay.isFinite = true ∨ FloatClass.of c.exploreDecay = .infinite false) := by
  obtain ⟨hdiscount, hblend, hreward, hstart, hstop⟩ := holds_of_validate h
  constructor
  · exact {
      discount := isFinite_of_holds hdiscount
      exploreStart := isFinite_of_holds hstart
      exploreStop := isFinite_of_holds hstop
      learningRate := (learningRate_of_validate h).2
      blendWeight := isFinite_of_holds hblend
      rewardWeight := isFinite_of_holds hreward }
  · exact Double.isFinite_or_infinite (Double.atMost_of_less (less_exploreDecay h))

/-! ## From members and from files -/

/-- The text of members is read as these members when their values can be read. -/
theorem ofText_text (h : ∀ member ∈ given, Readable (depthLimit - 1) member.2) :
    ofText (Json.object given).text = ofMembers given := by
  have hstart : ∀ text, valueStart ('{' :: text) = .ok ('{', text) := fun _ => rfl
  have hread : objectMembers (chars (.object given)) = .ok (given, []) := by
    rw [← List.append_nil (chars _), chars_object_append, objectMembers, bind_eq_of_ok (hstart _)]
    exact members_of_answers (fun member hmem => (value_answers (h member hmem) .text).2) []
  rw [ofText, text, document_of_read hread]

/-- A file is read as its text. -/
theorem ofFile_of_read {tree : FileTree} {path : Path} {text : String}
    (h : tree.read path = .ok text) :
    (ofFile path : StateM FileTree _).run tree = (ofText text, tree) := by
  have hread : (FileSystem.read path : StateM FileTree _).run tree = (.ok text, tree) := by
    rw [FileTree.run_read, h]
  unfold ofFile
  rw [StateT.run_bind, hread]
  rfl

/-- The refusal of a rate that is not a number. -/
def noNumber : ConfigError := .unreadable ⟨.mismatch (.wrongType (.of .null) "f64"), none⟩

/-- The members of an accepted configuration, in any order, give it back when the decay of
exploration is finite, and are refused otherwise. -/
theorem ofMembers_written (h : c.validate = .ok ())
    (hgiven : given.Perm (Setting.all.map fun setting => (setting.key, c.written setting))) :
    ofMembers given = if c.exploreDecay.isFinite then .ok c else .error noNumber := by
  obtain ⟨hfinite, _⟩ := finiteRates_of_validate h
  by_cases hdecay : c.exploreDecay.isFinite = true
  · rw [if_pos hdecay, ofMembers, decode_eq hfinite hgiven, float_ofFloat hdecay]
    dsimp only [Except.bind, Except.map]
    rw [h]
  · have hnull : ofFloat c.exploreDecay = .null := if_neg hdecay
    rw [if_neg hdecay, ofMembers, decode_eq hfinite hgiven, hnull]
    rfl

/-- The rates of an accepted configuration are finite but for the decay of exploration, which may
be the positive infinity. Its members, in whatever order, give the configuration back when this
decay is finite and only then, directly and as the text of a file; an infinite decay is written as
the absent value and refused as no number. -/
theorem read_written (h : c.validate = .ok ()) :
    c.FiniteRates ∧
    (c.exploreDecay.isFinite = true ∨ FloatClass.of c.exploreDecay = .infinite false) ∧
    ∃ members, c.toJson = .object members ∧ ∀ given, given.Perm members →
      (ofMembers given = .ok c ↔ c.exploreDecay.isFinite = true) ∧
      (∀ (tree : FileTree) path, tree.read path = .ok (Json.object given).text →
        ((ofFile path : StateM FileTree _).run tree = (.ok c, tree) ↔
          c.exploreDecay.isFinite = true)) ∧
      (FloatClass.of c.exploreDecay = .infinite false →
        (Setting.exploreDecay.key, Json.null) ∈ given ∧
        ofMembers given = .error noNumber ∧
        ∀ (tree : FileTree) path, tree.read path = .ok (Json.object given).text →
          (ofFile path : StateM FileTree _).run tree = (.error noNumber, tree)) := by
  obtain ⟨hfinite, hclass⟩ := finiteRates_of_validate h
  refine ⟨hfinite, hclass, _, c.toJson_eq, fun given hgiven => ?_⟩
  have hmembers := ofMembers_written h hgiven
  have hfile : ∀ (tree : FileTree) path, tree.read path = .ok (Json.object given).text →
      (ofFile path : StateM FileTree _).run tree =
        (if c.exploreDecay.isFinite then .ok c else .error noNumber, tree) := by
    intro tree path hread
    have hreadable : ∀ member ∈ given, Readable (depthLimit - 1) member.2 := by
      intro member hmem
      obtain ⟨setting, _, rfl⟩ := List.mem_map.1 (hgiven.mem_iff.1 hmem)
      exact readable_written c setting 125
    rw [ofFile_of_read hread, ofText_text hreadable, hmembers]
  by_cases hdecay : c.exploreDecay.isFinite = true
  · rw [if_pos hdecay] at hmembers
    refine ⟨iff_of_true hmembers hdecay, fun tree path hread => iff_of_true ?_ hdecay, ?_⟩
    · rw [hfile tree path hread, if_pos hdecay]
    · intro hinfinite
      obtain ⟨_, _, hnumber, _⟩ := finite_class hdecay
      rw [hinfinite] at hnumber
      cases hnumber
  · rw [if_neg hdecay] at hmembers
    have hfails : ∀ (tree : FileTree) path, tree.read path = .ok (Json.object given).text →
        (ofFile path : StateM FileTree _).run tree = (.error noNumber, tree) := by
      intro tree path hread
      rw [hfile tree path hread, if_neg hdecay]
    refine ⟨iff_of_false ?_ hdecay, fun tree path hread => iff_of_false ?_ hdecay, fun _ => ?_⟩
    · rw [hmembers]
      exact fun hok => nomatch hok
    · rw [hfails tree path hread]
      exact fun hok => nomatch hok
    · have hnull : c.written .exploreDecay = .null := if_neg hdecay
      have hmember := List.mem_map_of_mem (f := fun setting => (setting.key, c.written setting))
        (Setting.mem_all .exploreDecay)
      rw [hnull] at hmember
      exact ⟨hgiven.mem_iff.2 hmember, hmembers, hfails⟩

/-- A configuration with the largest seed, minus zero for a rate, odd characters and nothing that
can be absent. -/
def oddConfig (exploreDecay : Float) : Config Float where
  batchSize := 1
  discount := 0.1
  exploreStart := 1.0
  exploreStop := -0.0
  exploreDecay := exploreDecay
  learningRate := 1e300
  blendWeight := 1.0
  device := "\" \\ π"
  epochs := 1
  loadModel := false
  loadPath := none
  rewardWeight := 0.5
  saveInterval := 1
  outputPath := ⟨"."⟩
  memorySize := 1
  seed := 18446744073709551615
  inputSize := none
  hiddenSizes := []
  hiddenActivation := .tanh

/-- It is read back from a file, but not when it is written with an infinite decay. -/
theorem read_written_oddConfig :
    (∃ tree : FileTree, tree.read ⟨"config.json"⟩ = .ok (oddConfig 1e300).toJson.text ∧
      (ofFile ⟨"config.json"⟩ : StateM FileTree _).run tree = (.ok (oddConfig 1e300), tree)) ∧
    ∃ tree : FileTree, tree.read ⟨"config.json"⟩ = .ok (oddConfig (1.0 / 0.0)).toJson.text ∧
      (ofFile ⟨"config.json"⟩ : StateM FileTree _).run tree = (.error noNumber, tree) := by
  have hvalid : (oddConfig 1e300).validate = .ok () := by
    rw [validate_eq_ok_iff]
    decide +kernel
  have hvalid' : (oddConfig (1.0 / 0.0)).validate = .ok () := by
    rw [validate_eq_ok_iff]
    decide +kernel
  have hfinite : (1e300 : Float).isFinite = true := by decide +kernel
  have hinfinite : FloatClass.of (1.0 / 0.0) = .infinite false := by decide +kernel
  have hfile : FileTree.Writable FileTree.empty ⟨"config.json"⟩ :=
    FileTree.writable_of_empty (by decide +kernel) (by decide +kernel)
  obtain ⟨tree, hwrite⟩ := FileTree.exists_write_of_writable hfile (oddConfig 1e300).toJson.text
  obtain ⟨tree', hwrite'⟩ :=
    FileTree.exists_write_of_writable hfile (oddConfig (1.0 / 0.0)).toJson.text
  have hread := FileTree.read_of_write hwrite
  have hread' := FileTree.read_of_write hwrite'
  obtain ⟨_, _, _, hmembers, hgiven⟩ := read_written hvalid
  obtain ⟨_, _, _, hmembers', hgiven'⟩ := read_written hvalid'
  refine ⟨⟨tree, hread, ?_⟩, tree', hread', ?_⟩
  · rw [hmembers] at hread
    exact ((hgiven _ (.refl _)).2.1 tree _ hread).2 hfinite
  · rw [hmembers'] at hread'
    exact ((hgiven' _ (.refl _)).2.2 hinfinite).2.2 tree' _ hread'

end Config

end DeferredReward
