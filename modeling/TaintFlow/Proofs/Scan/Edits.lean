import TaintFlow.Proofs.Scan.Collect
import TaintFlow.Proofs.Workspace.Build

/-!
# A scan edits its workspace

Before it searches, a scan brings its workspace up to date by edits: it removes the units of files
that are no longer there, and it updates the files that it can read.

* `dropVanished_eq`, `built_eq` : the two kinds of edits, in their order.
-/

namespace TaintFlow

open TaintFlow.Files

namespace Files.FileSystem

variable (fs : FileSystem)

/-- Whether the file at a path can be read. -/
def isReadable (path : String) : Bool :=
  (fs.read path).isOk

/-- The text of the file at a path, empty if it cannot be read. -/
def textAt (path : String) : String :=
  match fs.read path with
  | .ok bytes => anyText bytes
  | .error _ => ""

variable {fs} {path : String}

theorem isReadable_of_ok {bytes : ByteArray} (h : fs.read path = .ok bytes) :
    fs.isReadable path = true := by
  rw [isReadable, h]
  rfl

theorem isReadable_of_error {f : Fault} (h : fs.read path = .error f) :
    fs.isReadable path = false := by
  rw [isReadable, h]
  rfl

theorem textAt_of_ok {bytes : ByteArray} (h : fs.read path = .ok bytes) :
    fs.textAt path = anyText bytes := by
  rw [textAt, h]

end Files.FileSystem

theorem Table.get?_foldl_insert {κ α : Type} [DecidableEq κ] (f : κ → α) {k : κ} {ks : List κ}
    {t : Table κ α} (h : k ∈ ks ∨ t.get? k = some (f k)) :
    ((ks.map fun k => (k, f k)).foldl (fun t (k, v) => t.insert k v) t).get? k = some (f k) := by
  induction ks generalizing t with
  | nil => exact h.resolve_left List.not_mem_nil
  | cons k' ks ih =>
    refine ih ?_
    rw [get?_insert]
    by_cases hk : k = k'
    · exact .inr (by rw [if_pos hk, hk])
    · rw [if_neg hk]
      exact h.imp_left fun hmem => (List.mem_cons.1 hmem).resolve_left hk

namespace Scanner

open Workspace

variable (s : Scanner) (fs : FileSystem)

theorem readTexts_eq (files : List String) :
    readTexts fs files =
      ((files.filter fs.isReadable).map fun path => (path, fs.textAt path),
        (files.filter fun path => !fs.isReadable path).map fun path => "Failed to read " ++ path) := by
  induction files with
  | nil => rfl
  | cons path files ih =>
    unfold readTexts
    rw [ih]
    cases hread : fs.read path with
    | error f => simp [FileSystem.isReadable_of_error hread]
    | ok bytes => simp [FileSystem.isReadable_of_ok hread, FileSystem.textAt_of_ok hread]

/-- The removals of units under the target whose files are not among the collected ones. -/
def removals (w : Workspace) (target : String) (files : List String) : List Edit :=
  (w.graph.unitPaths.filter fun unit => Path.isUnder target unit && !files.contains unit).map .remove

/-- The updates of the collected files that can be read. -/
def updates (files : List String) : List Edit :=
  (files.filter fs.isReadable).map fun path => .update path (fs.textAt path)

theorem dropVanished_eq {ε : Type} (read : UnitReader ε) (w : Workspace) (target : String)
    (files : List String) :
    dropVanished w target files = (removals w target files).foldl (Edit.apply read) w := by
  unfold dropVanished removals
  rw [List.foldl_map, List.foldl_filter]
  rfl

/-- **What a scan builds** without a token: its workspace after removals and updates. -/
theorem built_eq {target : String} {files : List String}
    (hending : ∀ file ∈ files, hasEnding s.config.endings file = true) :
    s.built fs target files .never =
      { s.startBuild fs target files .never with
        workspace := (removals s.workspace target files ++ updates fs files).foldl
          (Edit.apply s.reader) s.workspace
        updated := (files.filter fs.isReadable).filter fun path =>
          (s.reader path (fs.textAt path)).isOk } := by
  have hpaths : (readTexts fs files).1.map (·.1) = files.filter fs.isReadable := by
    rw [readTexts_eq, List.map_map]
    exact List.map_id _
  unfold built
  rw [hpaths]
  refine (Build.run_eq_updates s.reader fs s.config.endings fs.textAt ?_ ?_ rfl).trans ?_
  · exact fun path hpath => hending path (List.mem_filter.1 hpath).1
  · intro path hpath
    change Table.get? (List.foldl _ _ (readTexts fs files).1) path = _
    rw [readTexts_eq]
    exact Table.get?_foldl_insert fs.textAt (.inl hpath)
  · rw [List.foldl_append, ← dropVanished_eq]
    rfl

end Scanner

end TaintFlow
