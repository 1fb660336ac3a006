import TaintFlow.Proofs.Java.Unit
import TaintFlow.Proofs.Scan.Cancellation
import TaintFlow.Proofs.Scan.Edits

/-!
# The units that a scan leaves

A scan removes the units under its target whose files are not collected any more, and it updates the
units of the files that it can read.  Between the two there is a gap: the unit of a file that is
collected and cannot be read is neither removed nor updated, and so it stays.  Nor does a scan of a
target that does not exist remove anything.

* `mem_unitPaths_updates` : the units after updates, whatever the order of their files.
* `units_after_scan` : the units under the target after a scan.
* `unreadable_unit_stays` : a unit that outlives the file it was built from.
-/

namespace TaintFlow

open TaintFlow.Code TaintFlow.Files

namespace Workspace

variable {w : Workspace} {unit : String}

theorem mem_unitPaths_removeUnit {path : String} :
    unit ∈ (w.removeUnit path).graph.unitPaths ↔ unit ∈ w.graph.unitPaths ∧ unit ≠ path := by
  change unit ∈ (w.graph.removeUnit path).units.keys ↔ _
  rw [CallGraph.removeUnit_units, Table.mem_keys_erase]
  rfl

theorem mem_unitPaths_replaceUnit {u : SourceUnit} :
    unit ∈ (w.replaceUnit u).graph.unitPaths ↔ unit ∈ w.graph.unitPaths ∨ unit = u.path := by
  change unit ∈ (w.graph.replaceUnit u).units.keys ↔ _
  rw [CallGraph.replaceUnit_units, CallGraph.removeUnit_units, Table.mem_keys_insert,
    Table.mem_keys_erase]
  by_cases h : unit = u.path <;> simp [h, CallGraph.unitPaths]

theorem mem_unitPaths_removals {ε : Type} (read : UnitReader ε) (paths : List String) :
    unit ∈ ((paths.map Edit.remove).foldl (Edit.apply read) w).graph.unitPaths ↔
      unit ∈ w.graph.unitPaths ∧ unit ∉ paths := by
  induction paths generalizing w with
  | nil => simp
  | cons path paths ih =>
    rw [List.map_cons, List.foldl_cons, ih]
    simp only [Edit.apply, mem_unitPaths_removeUnit, List.mem_cons, not_or, and_assoc]

/-- The units after updates: of the files that were updated those that could be read, and of the
others those that were there. -/
theorem mem_unitPaths_updates {ε : Type} {read : UnitReader ε}
    (hread : ∀ path text u, read path text = .ok u → u.path = path) (text : String → String)
    (paths : List String) :
    unit ∈ ((paths.map fun path => Edit.update path (text path)).foldl (Edit.apply read)
        w).graph.unitPaths ↔
      (unit ∈ paths ∧ (read unit (text unit)).isOk = true) ∨
        (unit ∉ paths ∧ unit ∈ w.graph.unitPaths) := by
  have hstep : ∀ (w : Workspace) (path : String),
      unit ∈ ((Edit.update path (text path)).apply read w).graph.unitPaths ↔
        (unit = path ∧ (read unit (text unit)).isOk = true) ∨
          (unit ≠ path ∧ unit ∈ w.graph.unitPaths) := by
    intro w path
    simp only [Edit.apply, update]
    cases hok : read path (text path) with
    | error f =>
      have hbefore : unit ∈ (w.addError ("Failed to parse " ++ path ++ ": " ++
          detail)).graph.unitPaths ↔ unit ∈ w.graph.unitPaths := Iff.rfl
      rw [mem_unitPaths_removeUnit, hbefore]
      by_cases hunit : unit = path
      · subst hunit
        simp [hok, Except.isOk, Except.toBool]
      · simp [hunit]
    | ok u =>
      rw [mem_unitPaths_replaceUnit, hread path _ u hok]
      by_cases hunit : unit = path
      · subst hunit
        simp [hok, Except.isOk, Except.toBool]
      · simp [hunit]
  induction paths generalizing w with
  | nil => simp
  | cons path paths ih =>
    rw [List.map_cons, List.foldl_cons]
    refine ih.trans ?_
    rw [hstep]
    by_cases hunit : unit ∈ paths
    · simp [hunit]
    · by_cases hpath : unit = path
      · subst hpath
        simp [hunit]
      · simp [hunit, hpath]

end Workspace

namespace Scanner

variable (s : Scanner) (fs : FileSystem) (path : String) (excludes : List Value)

/-- The scan builds a unit: it collects the file and reads its text. -/
def Builds (unit : String) : Prop :=
  ∃ files, Collect.ofRequest s.config fs path excludes = .ok files ∧ unit ∈ files ∧
    fs.isReadable unit = true ∧ (s.reader unit (fs.textAt unit)).isOk = true

/-- The scan leaves a unit as it is: its target does not exist, or it collects the file and cannot
read it. -/
def Overlooks (unit : String) : Prop :=
  fs.contains (fs.resolve path) = false ∨
    ∃ files, Collect.ofRequest s.config fs path excludes = .ok files ∧ unit ∈ files ∧
      fs.isReadable unit = false

/-- Nothing is collected for a target that does not exist. -/
theorem not_builds_of_not_contains {unit : String}
    (h : fs.contains (fs.resolve path) = false) : ¬ s.Builds fs path excludes unit := by
  rintro ⟨files, hfiles, hmem, -⟩
  unfold Collect.ofRequest Collect.files at hfiles
  cases hentry : fs.entry (fs.resolve path) with
  | ok entry =>
    rw [FileSystem.contains, hentry] at h
    cases h
  | error f =>
    split at hfiles
    · cases hfiles
    · rw [hentry] at hfiles
      cases hfiles
      cases hmem

/-- The units under the target after the edits of a scan. -/
theorem mem_unitPaths_built {target unit : String} {files : List String}
    (hending : ∀ file ∈ files, hasEnding s.config.endings file = true)
    (hunder : Path.isUnder target unit = true) :
    unit ∈ (s.built fs target files .never).workspace.graph.unitPaths ↔
      (unit ∈ files ∧ fs.isReadable unit = true ∧
        (s.reader unit (fs.textAt unit)).isOk = true) ∨
      (unit ∈ s.workspace.graph.unitPaths ∧ unit ∈ files ∧ fs.isReadable unit = false) := by
  have hread : ∀ path text u, s.reader path text = .ok u → u.path = path :=
    fun path text u h => (Java.faithful_unitWith _ _ path text u h).1
  rw [built_eq s fs hending]
  simp only [List.foldl_append, updates, removals]
  rw [Workspace.mem_unitPaths_updates hread, Workspace.mem_unitPaths_removals]
  by_cases hmem : unit ∈ files <;> by_cases hreadable : fs.isReadable unit = true <;>
    simp [hunder, hmem, hreadable]

variable {s fs path excludes}

/-- **The units that a scan leaves.**  After a scan that gives a result and is not cancelled, the
units under its target are those that it built and, of the units that were there before, those that
it overlooks: all of them if the target does not exist, and otherwise those of files that are still
collected and cannot be read.  How sources are parsed does not matter. -/
theorem units_after_scan {c : Cancellation} {r : ScanResult} {unit : String}
    (hr : (s.scan fs path excludes c).2 = .ok r) (hdone : r.cancelled = false)
    (hunder : Path.isUnder (fs.resolve path) unit = true) :
    unit ∈ (s.scan fs path excludes c).1.workspace.graph.unitPaths ↔
      s.Builds fs path excludes unit ∨
        (unit ∈ s.workspace.graph.unitPaths ∧ s.Overlooks fs path excludes unit) := by
  have hnever : s.scan fs path excludes c = s.scan fs path excludes .never := by
    refine s.scan_eq_never fs fun r' hr' => ?_
    rw [← Except.ok.inj (hr.symm.trans hr')]
    exact hdone
  rw [hnever] at hr ⊢
  rw [scan_eq] at hr ⊢
  by_cases hcontains : fs.contains (fs.resolve path) = true
  · rw [if_pos hcontains] at hr ⊢
    cases hfiles : Collect.ofRequest s.config fs path excludes with
    | error f =>
      rw [hfiles] at hr
      cases hr
    | ok files =>
      simp only
      rw [scanFiles_eq, conclude_fst]
      have hbuilt := mem_unitPaths_built s.cleared fs
        (fun file hfile => Collect.hasEnding_of_mem_ofRequest hfiles hfile) hunder
      refine hbuilt.trans ?_
      simp only [Builds, Overlooks, hfiles, hcontains, Except.ok.injEq, exists_eq_left',
        Bool.true_eq_false, false_or]
      rfl
  · have habsent : fs.contains (fs.resolve path) = false := Bool.eq_false_iff.2 hcontains
    rw [if_neg hcontains]
    simp only [s.not_builds_of_not_contains fs path excludes habsent, Overlooks, habsent, true_or,
      and_true, false_or]

/-- A scanner that has built one unit. -/
def oneUnitScanner : Scanner :=
  ((new .standard sampleConfig).scan (sampleFiles (.file "class A\x7b\x7d".toUTF8)) "/w" [] .never).1

/-- A directory in the place of the file, with a file in it. -/
def fileInside : FileSystem :=
  sampleFiles (.directory [("B.java", .file "class B\x7b\x7d".toUTF8)])

/-- When a directory takes the place of a file, the unit of the file goes and the unit of a file in
the directory comes. -/
theorem units_after_fileInside :
    "/w/A.java" ∈ oneUnitScanner.workspace.graph.unitPaths ∧
    "/w/A.java" ∉ (oneUnitScanner.scan fileInside "/w" [] .never).1.workspace.graph.unitPaths ∧
    "/w/A.java/B.java" ∈
      (oneUnitScanner.scan fileInside "/w" [] .never).1.workspace.graph.unitPaths := by
  have hresult : gives (fun r => !r.cancelled)
      (oneUnitScanner.scan fileInside "/w" [] .never).2 = true := by decide +kernel
  have hfiles : Collect.ofRequest oneUnitScanner.config fileInside "/w" [] =
      .ok ["/w/A.java/B.java"] := by rfl
  have hexists : fileInside.contains (fileInside.resolve "/w") = true := by decide +kernel
  obtain ⟨r, hr, hdone⟩ := exists_of_gives hresult
  have hcancelled : r.cancelled = false := by simpa using hdone
  refine ⟨by decide +kernel, fun hstale => ?_, ?_⟩
  · rcases (units_after_scan hr hcancelled (by decide +kernel)).1 hstale with
      ⟨files, heq, hmem, -⟩ | ⟨-, habsent | ⟨files, heq, hmem, -⟩⟩
    · cases hfiles.symm.trans heq
      simp at hmem
    · rw [hexists] at habsent
      cases habsent
    · cases hfiles.symm.trans heq
      simp at hmem
  · refine (units_after_scan hr hcancelled (by decide +kernel)).2 (.inl ⟨_, hfiles, ?_⟩)
    exact ⟨List.mem_singleton_self _, by decide +kernel, by decide +kernel⟩

/-- **A unit that outlives its file.**  The file of the unit is still there and cannot be read.  The
scan builds nothing and is not cancelled, and the unit stays. -/
theorem unreadable_unit_stays :
    gives (fun r => r.filesScanned = 0 ∧ r.cancelled = false)
        (oneUnitScanner.scan (sampleFiles .unreadable) "/w" [] .never).2 = true ∧
      (oneUnitScanner.scan (sampleFiles .unreadable) "/w" [] .never).1.workspace.graph.unitPaths =
        ["/w/A.java"] := by
  constructor <;> decide +kernel

end Scanner

end TaintFlow
