import TaintFlow.Config.Load
import TaintFlow.Proofs.Files.Path
import TaintFlow.Proofs.Pointwise
import TaintFlow.Proofs.Text.Case
import TaintFlow.Yaml.Value

/-!
# Layers of a configuration

A configuration comes about in stages: from the defaults and a file, then with the environment, then
with options.  Each stage replaces some settings and checks them all once more, those that are in
normal form already too.  A check of these changes nothing (`Normal.means`), so the stages come down
to one check of the layers on top of each other (`check_under`).

* `Settings.Means` says what settings come to, field by field (`check_eq_ok_iff`),
* `Config.Normal` is what holds of every configuration (`normal_of_means`),
* `Config.Layer` holds the settings that one source gives, `Config.under` puts them over others,
* `Config.layers_keep_normal_form` says all this of the configurations that are created.
-/

namespace TaintFlow

open TaintFlow.Files

/-! ### Normal forms -/

/-- The ending of a file in normal form. -/
structure IsNormalEnding (ending : String) : Prop where
  trimmed : Text.trim ending = ending
  lower : Text.lower ending = ending
  dotted : ending.startsWith "." = true

theorem IsNormalEnding.normalEnding_text {ending : String} (h : IsNormalEnding ending) :
    normalEnding (.text ending) = ending := by
  simp [normalEnding, Value.toText, h.trimmed, h.lower, h.dotted]

theorem isNormalEnding_normalEnding (v : Value) : IsNormalEnding (normalEnding v) := by
  have htrimmed : Text.Trimmed (Text.lower (Text.trim v.toText)).toList := by
    refine Text.trimmed_lower ?_
    rw [Text.trim, String.toList_ofList]
    exact Text.trimmed_trimBlanks _
  unfold normalEnding
  dsimp only
  split
  · rename_i hdot
    exact ⟨Text.trim_eq_self htrimmed, Text.lower_lower _, hdot⟩
  · have hlist : ("." ++ Text.lower (Text.trim v.toText)).toList =
        '.' :: (Text.lower (Text.trim v.toText)).toList := by
      simp
    refine ⟨Text.trim_eq_self ?_, Text.lower_of_settled ?_, ?_⟩
    · rw [hlist]
      refine ⟨fun c hc => ?_, fun c hc => ?_⟩
      · rw [← Option.mem_some.1 hc]
        decide
      · cases hlast : (Text.lower (Text.trim v.toText)).toList.getLast? with
        | none =>
          rw [List.getLast?_cons, hlast] at hc
          rw [← Option.mem_some.1 hc]
          decide
        | some d =>
          rw [List.getLast?_cons, hlast] at hc
          rw [← Option.mem_some.1 hc]
          exact htrimmed.2 d hlast
    · rw [hlist]
      exact List.forall_mem_cons.2 ⟨by decide, fun c => Text.settled_of_mem_lower⟩
    · rw [String.startsWith_string_iff, hlist]
      exact ⟨_, rfl⟩

theorem Files.Path.normal_normal (path : String) : Path.normal (Path.normal path) = Path.normal path := by
  have hplain : ∀ c ∈ Path.components path, Path.Plain c := fun _ => Path.plain_of_mem_components
  have hanchor := Path.isAnchor_anchor path
  rw [Path.normal, Path.normal, Path.anchor_ofParts hanchor hplain, Path.components_ofParts hanchor hplain]

theorem Vulnerability.ofName?_key (v : Vulnerability) : Vulnerability.ofName? v.key = some v := by
  cases v <;> decide +kernel

namespace Settings

/-! ### What settings mean -/

/-- The directory of the catalogs that a value gives. -/
def pathOf (v : Value) : Except ConfigError (Option String) :=
  catalogPath { catalogDir := v }

/-- The endings that a value gives. -/
def endingsOf (v : Value) : Except ConfigError (List String) :=
  (itemsOf v).map (·.map normalEnding)

/-- The families that a value gives. -/
def familiesOf (v : Value) : Except ConfigError (List Vulnerability) := do
  (← itemsOf v).mapM family

/-- Every field of a configuration is the normal form of the setting of its name. -/
structure Means (s : Settings) (c : Config) : Prop where
  catalogDir : pathOf s.catalogDir = .ok c.catalogDir
  endings : endingsOf s.endings = .ok c.endings
  vulnerabilities : familiesOf s.vulnerabilities = .ok c.vulnerabilities
  maxDepth : checkedPositive .depth s.maxDepth = .ok c.maxDepth
  hasEnding : c.endings ≠ []
  maxFileSize : checkedPositive .fileSize s.maxFileSize = .ok c.maxFileSize
  directive : checkedDirective s.directive = .ok c.directive
  excludes : s.excludes = c.excludes

/-- A check reads each setting once. -/
theorem check_eq (s : Settings) : s.check = (do
    let catalogDir ← pathOf s.catalogDir
    let endings ← endingsOf s.endings
    let vulnerabilities ← familiesOf s.vulnerabilities
    let maxDepth ← checkedPositive .depth s.maxDepth
    if endings.isEmpty then throw .noEnding
    let maxFileSize ← checkedPositive .fileSize s.maxFileSize
    let directive ← checkedDirective s.directive
    return { maxDepth, endings, vulnerabilities, catalogDir, excludes := s.excludes, maxFileSize,
             directive }) := by
  change _ = s.catalogPath >>= _
  unfold check endingsOf familiesOf
  cases s.catalogPath <;> cases itemsOf s.endings <;> cases itemsOf s.vulnerabilities <;> rfl

theorem check_eq_ok_iff {s : Settings} {c : Config} : s.check = .ok c ↔ s.Means c := by
  constructor
  · intro h
    rw [check_eq] at h
    obtain ⟨catalogDir, hdir, h⟩ := bind_eq_ok_iff.1 h
    obtain ⟨endings, hendings, h⟩ := bind_eq_ok_iff.1 h
    obtain ⟨families, hfamilies, h⟩ := bind_eq_ok_iff.1 h
    obtain ⟨depth, hdepth, h⟩ := bind_eq_ok_iff.1 h
    cases endings with
    | nil => cases h
    | cons ending rest =>
      obtain ⟨size, hsize, h⟩ := bind_eq_ok_iff.1 h
      obtain ⟨directive, hdirective, h⟩ := bind_eq_ok_iff.1 h
      cases h
      exact ⟨hdir, hendings, hfamilies, hdepth, List.cons_ne_nil _ _, hsize, hdirective, rfl⟩
  · rintro ⟨hdir, hendings, hfamilies, hdepth, hne, hsize, hdirective, hexcludes⟩
    rw [check_eq, hdir, hendings, hfamilies, hdepth, hsize, hdirective, hexcludes]
    obtain ⟨depth, endings, families, dir, excludes, size, directive⟩ := c
    cases endings with
    | nil => exact absurd rfl hne
    | cons ending rest => rfl

theorem positive?_eq_some_iff {v : Value} {n : Nat} :
    positive? v = some n ↔ v = .int n ∧ 1 ≤ n := by
  cases v with
  | int k =>
    simp only [positive?, Option.ite_none_right_eq_some, Option.some.injEq, Value.int.injEq]
    omega
  | _ => simp [positive?]

theorem checkedPositive_eq_ok_iff {error : Value → ConfigError} {v : Value} {n : Nat} :
    checkedPositive error v = .ok n ↔ v = .int n ∧ 1 ≤ n := by
  rw [← positive?_eq_some_iff, checkedPositive]
  cases positive? v <;> simp

theorem notBlank_eq_ok_iff {d directive : Java.Directive} :
    checkedDirective.notBlank d = .ok directive ↔ d = directive ∧ directive.isBlank = false := by
  unfold checkedDirective.notBlank
  split
  · rename_i hblank
    simp only [reduceCtorEq, false_iff, not_and, Bool.not_eq_false]
    rintro rfl
    exact hblank
  · rename_i hblank
    simp only [Except.ok.injEq, iff_self_and]
    rintro rfl
    exact Bool.eq_false_iff.2 hblank

theorem checkedDirective_eq_ok_iff {v : Value} {directive : Java.Directive} :
    checkedDirective v = .ok directive ↔ v = directive.setting ∧ directive.isBlank = false := by
  cases v with
  | text s =>
    rw [checkedDirective, notBlank_eq_ok_iff]
    cases directive <;> simp [Java.Directive.setting]
  | binary bytes =>
    rw [checkedDirective, notBlank_eq_ok_iff]
    cases directive <;> simp [Java.Directive.setting]
  | _ => cases directive <;> simp [checkedDirective, Java.Directive.setting]

end Settings

namespace Config

open Settings

/-- What holds of a configuration in normal form. -/
structure Normal (c : Config) : Prop where
  maxDepth : 1 ≤ c.maxDepth
  maxFileSize : 1 ≤ c.maxFileSize
  directive : c.directive.isBlank = false
  hasEnding : c.endings ≠ []
  endings : ∀ ending ∈ c.endings, IsNormalEnding ending
  catalogDir : ∀ dir ∈ c.catalogDir, Path.normal dir = dir

theorem normal_of_means {s : Settings} {c : Config} (h : s.Means c) : c.Normal where
  maxDepth := (checkedPositive_eq_ok_iff.1 h.maxDepth).2
  maxFileSize := (checkedPositive_eq_ok_iff.1 h.maxFileSize).2
  directive := (checkedDirective_eq_ok_iff.1 h.directive).2
  hasEnding := h.hasEnding
  endings := by
    have hendings := h.endings
    rw [endingsOf] at hendings
    cases hitems : itemsOf s.endings with
    | error e =>
      rw [hitems] at hendings
      cases hendings
    | ok items =>
      rw [hitems] at hendings
      rw [← Except.ok.inj hendings]
      rintro ending hending
      obtain ⟨v, -, rfl⟩ := List.mem_map.1 hending
      exact isNormalEnding_normalEnding v
  catalogDir := by
    intro dir hdir
    have hpath := h.catalogDir
    rw [Option.mem_def.1 hdir] at hpath
    cases hv : s.catalogDir with
    | text path =>
      rw [hv] at hpath
      rw [← Option.some.inj (Except.ok.inj hpath)]
      exact Path.normal_normal path
    | _ =>
      rw [hv] at hpath
      cases hpath

/-- A configuration in normal form is what its own settings mean. -/
theorem Normal.means {c : Config} (h : c.Normal) : c.settings.Means c where
  catalogDir := by
    change pathOf ((c.catalogDir.map Value.text).getD .null) = _
    cases hdir : c.catalogDir with
    | none => rfl
    | some dir =>
      change Except.ok (some (Path.normal dir)) = _
      rw [h.catalogDir dir hdir]
  endings := by
    have hitems : itemsOf c.settings.endings = .ok (c.endings.map Value.text) := rfl
    have hsame : (c.endings.map Value.text).map normalEnding = c.endings := by
      rw [List.map_map, Function.comp_def]
      have hending : ∀ ending ∈ c.endings, normalEnding (.text ending) = id ending :=
        fun ending hmem => (h.endings ending hmem).normalEnding_text
      rw [List.map_congr_left hending, List.map_id]
    rw [endingsOf, hitems]
    exact congrArg Except.ok hsame
  vulnerabilities := by
    change (c.vulnerabilities.map fun v => Value.text v.key).mapM family = _
    refine mapM_eq_ok_iff.2 (List.forall₂_map_left_iff.2 (List.forall₂_same.2 fun v _ => ?_))
    simp [family, Value.toText, Vulnerability.ofName?_key]
  maxDepth := checkedPositive_eq_ok_iff.2 ⟨rfl, h.maxDepth⟩
  hasEnding := h.hasEnding
  maxFileSize := checkedPositive_eq_ok_iff.2 ⟨rfl, h.maxFileSize⟩
  directive := checkedDirective_eq_ok_iff.2 ⟨rfl, h.directive⟩
  excludes := rfl

/-! ### Layers -/

/-- The settings that one source gives. -/
structure Layer where
  maxDepth : Option Value := none
  endings : Option Value := none
  vulnerabilities : Option Value := none
  catalogDir : Option Value := none
  excludes : Option Value := none
  maxFileSize : Option Value := none
  directive : Option Value := none

/-- Settings under a layer: what the layer gives counts more. -/
def under (s : Settings) (r : Layer) : Settings where
  maxDepth := r.maxDepth.getD s.maxDepth
  endings := r.endings.getD s.endings
  vulnerabilities := r.vulnerabilities.getD s.vulnerabilities
  catalogDir := r.catalogDir.getD s.catalogDir
  excludes := r.excludes.getD s.excludes
  maxFileSize := r.maxFileSize.getD s.maxFileSize
  directive := r.directive.getD s.directive

/-- What the entries of a mapping give. -/
def Layer.ofEntries (entries : List (Value × Value)) : Layer where
  maxDepth := Value.get? "max_depth" entries
  endings := Value.get? "extensions" entries
  vulnerabilities := Value.get? "vulnerabilities" entries
  catalogDir := Value.get? "catalog_dir" entries
  excludes := Value.get? "exclude_patterns" entries
  maxFileSize := Value.get? "max_file_size" entries
  directive := Value.get? "trusted_directive" entries

/-- What variables of the environment give, those with a text other than the empty one.  A number
of hops that is no integer stays a text. -/
def Layer.ofEnvironment (environment : Environment) : Layer where
  catalogDir := (lookup? environment catalogVariable).map Value.text
  maxDepth := (lookup? environment depthVariable).map fun text =>
    ((Text.integer? text).map Value.int).getD (.text text)

/-- What options give. -/
def Layer.ofOptions (o : Options) : Layer where
  vulnerabilities := if o.vulnerabilities.isPresent then some o.vulnerabilities else none
  catalogDir := if o.catalogDir.isPresent then some o.catalogDir else none
  maxDepth := match o.maxDepth with | .null => none | depth => some depth
  endings := if o.endings.isPresent then some o.endings else none
  directive := match o.directive with | .null => none | directive => some directive

theorem apply_getD {β : Type} {f : Value → β} {v w : Value} (h : f v = f w) (r : Option Value) :
    f (r.getD v) = f (r.getD w) := by
  cases r with
  | none => exact h
  | some _ => rfl

/-- Under a layer, it makes no difference that settings were checked and brought into normal form
before. -/
theorem check_under {s : Settings} {c : Config} (h : s.check = .ok c) (r : Layer) :
    (under s r).check = (under c.settings r).check := by
  have hs := check_eq_ok_iff.1 h
  have hc := (normal_of_means hs).means
  have hexcludes : s.excludes = c.settings.excludes := hs.excludes
  simp only [check_eq, under, hexcludes,
    apply_getD (hs.catalogDir.trans hc.catalogDir.symm),
    apply_getD (hs.endings.trans hc.endings.symm),
    apply_getD (hs.vulnerabilities.trans hc.vulnerabilities.symm),
    apply_getD (hs.maxDepth.trans hc.maxDepth.symm),
    apply_getD (hs.maxFileSize.trans hc.maxFileSize.symm),
    apply_getD (hs.directive.trans hc.directive.symm)]

theorem withOptions_eq (c : Config) (o : Options) :
    c.withOptions o = (under c.settings (.ofOptions o)).check := by
  have hpresent (v w : Value) : (if v.isPresent then v else w) =
      (if v.isPresent then some v else none).getD w := by
    split <;> rfl
  unfold withOptions under Layer.ofOptions
  simp only [hpresent]
  -- what is left are the two options for which only null stands for nothing
  cases o.maxDepth <;> cases o.directive <;> rfl

theorem check_of_withEnvironment {c d : Config} {environment : Environment}
    (h : c.withEnvironment environment = .ok d) :
    (under c.settings (.ofEnvironment environment)).check = .ok d := by
  unfold withEnvironment at h
  unfold under Layer.ofEnvironment
  cases hdir : lookup? environment catalogVariable <;>
    cases hdepth : lookup? environment depthVariable with
  | none => simpa [hdir, hdepth] using h
  | some text =>
    cases hn : Text.integer? text with
    | none =>
      simp only [hdepth, hn] at h
      cases h
    | some n => simpa [hdir, hdepth, hn] using h

/-- What a file gives: nothing if none is named or it holds nothing, else the entries of the mapping
that it holds. -/
inductive FileGives (read : ValueReader) (fs : FileSystem) :
    Option String → List (Value × Value) → Prop
  | none : FileGives read fs none []
  | unnamed : FileGives read fs (some "") []
  | blank {file text : String} {bytes : ByteArray} :
      fs.read (Path.normal file) = .ok bytes → strictText? bytes = some text →
      read text = .ok .null → FileGives read fs (some file) []
  | mapping {file text : String} {bytes : ByteArray} {entries : List (Value × Value)} :
      fs.read (Path.normal file) = .ok bytes → strictText? bytes = some text →
      read text = .ok (.map entries) → FileGives read fs (some file) entries

section

variable {read : ValueReader} {fs : FileSystem} {environment : Environment} {c : Config}

theorem exists_entries_of_ofFile {file : String} (h : ofFile read fs file = .ok c) :
    ∃ entries, FileGives read fs (some file) entries ∧ ofMap entries = .ok c := by
  unfold ofFile at h
  obtain ⟨bytes, hbytes, h⟩ := bind_eq_ok_iff.1 h
  have hfile : fs.read (Path.normal file) = .ok bytes := by
    cases hr : fs.read (Path.normal file) <;> rw [hr] at hbytes <;> cases hbytes
    rfl
  cases htext : strictText? bytes with
  | none =>
    rw [htext] at h
    cases h
  | some text =>
    rw [htext] at h
    cases hvalue : read text with
    | error fault =>
      cases fault <;> simp only [hvalue] at h <;> cases h
    | ok value =>
      simp only [hvalue] at h
      cases value with
      | null =>
        simp only [pure_bind] at h
        split at h
        · cases h
        · exact ⟨[], .blank hfile htext hvalue, h⟩
      | map entries =>
        simp only [pure_bind] at h
        split at h
        · cases h
        · exact ⟨entries, .mapping hfile htext hvalue, h⟩
      | _ => cases h

theorem exists_entries_of_load {file : Option String}
    (h : load read fs file environment = .ok c) :
    ∃ entries base, FileGives read fs file entries ∧ ofMap entries = .ok base ∧
      base.withEnvironment environment = .ok c := by
  cases file with
  | none =>
    obtain ⟨base, hbase, hc⟩ := bind_eq_ok_iff.1 h
    exact ⟨[], base, .none, hbase, hc⟩
  | some file =>
    unfold load at h
    dsimp only at h
    split at h
    · rename_i hunnamed
      obtain ⟨base, hbase, hc⟩ := bind_eq_ok_iff.1 h
      rw [beq_iff_eq.1 hunnamed]
      exact ⟨[], base, .unnamed, hbase, hc⟩
    · obtain ⟨base, hbase, hc⟩ := bind_eq_ok_iff.1 h
      obtain ⟨entries, hgives, hmap⟩ := exists_entries_of_ofFile hbase
      exact ⟨entries, base, hgives, hmap, hc⟩

theorem check_of_ofMap {entries : List (Value × Value)} {c : Config} (h : ofMap entries = .ok c) :
    (under {} (.ofEntries entries)).check = .ok c := by
  unfold ofMap at h
  dsimp only at h
  split at h
  · exact h
  · split at h <;> cases h

/-- An environment that sets no variable leaves a configuration in normal form as it is. -/
theorem Normal.withEnvironment_idle {c : Config} (h : c.Normal) {idle : Environment}
    (hdir : lookup? idle catalogVariable = none) (hdepth : lookup? idle depthVariable = none) :
    c.withEnvironment idle = .ok c := by
  unfold withEnvironment
  rw [hdir, hdepth]
  exact check_eq_ok_iff.2 h.means

/-- A configuration that is created is in normal form, and each of its fields is what the options,
else the environment, else the file, else the defaults give.  At each stage on the way, an
environment without settings changes nothing, as often as it is applied.  All this holds however
documents are read. -/
theorem layers_keep_normal_form {o : Options} (h : create read fs environment o = .ok c) :
    c.Normal ∧
      ∃ entries base loaded, FileGives read fs o.configFile entries ∧
        ofMap entries = .ok base ∧ base.withEnvironment environment = .ok loaded ∧
        loaded.withOptions o = .ok c ∧
        (under (under (under {} (.ofEntries entries)) (.ofEnvironment environment))
          (.ofOptions o)).Means c ∧
        ∀ d ∈ [base, loaded, c], ∀ idle, lookup? idle catalogVariable = none →
          lookup? idle depthVariable = none →
          ∀ n, (fun r => r >>= (withEnvironment · idle))^[n] (.ok d) = .ok d := by
  obtain ⟨loaded, hload, hoptions⟩ := bind_eq_ok_iff.1 h
  obtain ⟨entries, base, hgives, hmap, hloaded⟩ := exists_entries_of_load hload
  -- each stage is one check of a layer over what the stage before left, in normal form
  have hfirst := check_of_ofMap hmap
  have hsecond := check_of_withEnvironment hloaded
  have hthird := hoptions
  rw [← check_under hfirst] at hsecond
  rw [withOptions_eq, ← check_under hsecond] at hthird
  have hnormal : ∀ d ∈ [base, loaded, c], d.Normal := by
    simp only [List.mem_cons, List.not_mem_nil, or_false]
    rintro d (rfl | rfl | rfl)
    · exact normal_of_means (check_eq_ok_iff.1 hfirst)
    · exact normal_of_means (check_eq_ok_iff.1 hsecond)
    · exact normal_of_means (check_eq_ok_iff.1 hthird)
  refine ⟨hnormal c (by simp), entries, base, loaded, hgives, hmap, hloaded, hoptions,
    check_eq_ok_iff.1 hthird, ?_⟩
  intro d hd idle hdir hdepth n
  induction n with
  | zero => rfl
  | succ n ih =>
    rw [Function.iterate_succ_apply', ih]
    exact (hnormal d hd).withEnvironment_idle hdir hdepth

end

/-- A file with a number of hops and two endings, one of them with blanks around it. -/
def layeredFiles : FileSystem where
  root := .directory [("scan.yml", .file "max_depth: 4\nextensions: [' JSP ', Java]\n".toUTF8)]

def layeredOptions : Options where
  configFile := some "scan.yml"
  catalogDir := .text "kb//java/"

/-- The environment sets the number of hops, and to no effect the directory. -/
def layeredEnvironment : Environment :=
  [(depthVariable, "7"), (catalogVariable, "")]

theorem layered_settings_are_created :
    ∃ c, create Yaml.value layeredFiles layeredEnvironment layeredOptions = .ok c ∧
      (c.maxDepth, c.endings, c.catalogDir) = (7, [".jsp", ".java"], some "kb/java") ∧
      c.Normal ∧ c.withEnvironment [] = .ok c := by
  have hcreate : (create Yaml.value layeredFiles layeredEnvironment layeredOptions).toOption.map
      (fun c => (c.maxDepth, c.endings, c.catalogDir)) =
      some (7, [".jsp", ".java"], some "kb/java") := by
    decide +kernel
  cases h : create Yaml.value layeredFiles layeredEnvironment layeredOptions with
  | error e =>
    rw [h] at hcreate
    cases hcreate
  | ok c =>
    rw [h] at hcreate
    obtain ⟨hnormal, _, _, _, _, _, _, _, _, hidle⟩ := layers_keep_normal_form h
    exact ⟨c, rfl, Option.some.inj hcreate, hnormal, hidle c (by simp) [] rfl rfl 1⟩

end Config

end TaintFlow
