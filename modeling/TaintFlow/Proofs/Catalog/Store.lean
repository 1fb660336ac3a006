import TaintFlow.Catalog.Store
import TaintFlow.Proofs.Table

/-!
# What a store keeps is what it would read

A store reads each catalog file at most once and keeps what it read.  `catalogOf` reads a catalog
without a store.  A store *caches* a file system when all that it keeps is what would be read there.

* `Caches.congr` : a store that caches a file system caches any other with the same catalog files.
-/

namespace TaintFlow.Catalog

open TaintFlow.Files

/-! ### Reading without a store -/

section

variable (read : ValueReader) (fs : FileSystem) (origin : Origin) (v : Vulnerability)

/-- The entry points of an origin. -/
def entryPointsOf : Except CatalogError (List Pattern) :=
  match origin with
  | .bundled => .ok Bundled.entryPoints
  | .directory dir => readEntryPoints read fs dir

/-- The exit points of a family. -/
def exitPointsOf : Except CatalogError (List ExitPoint) :=
  match origin with
  | .bundled => .ok (Bundled.exitPoints v)
  | .directory dir => readExitPoints read fs dir v

/-- The sanitization points of all families. -/
def commonSanitizersOf : Except CatalogError (List Pattern) :=
  match origin with
  | .bundled => .ok Bundled.commonSanitizers
  | .directory dir => readSanitizers read fs dir "common"

/-- The sanitization points of a family: the common ones, then its own. -/
def sanitizersOf : Except CatalogError (List Pattern) := do
  let common ← commonSanitizersOf read fs origin
  match origin with
  | .bundled => return common ++ Bundled.ownSanitizers v
  | .directory dir => return common ++ (← readSanitizers read fs dir v.key)

/-- The catalog of a family. -/
def catalogOf : Except CatalogError Catalog := do
  let entryPoints ← entryPointsOf read fs origin
  let exitPoints ← exitPointsOf read fs origin v
  let sanitizationPoints ← sanitizersOf read fs origin v
  return { vulnerability := v, entryPoints, exitPoints, sanitizationPoints }

end

/-- The files of an origin. -/
def Origin.files : Origin → List String
  | bundled => []
  | directory dir => entryFile dir :: sanitizationFile dir "common" ::
      Vulnerability.all.flatMap fun v => [exitFile dir v, sanitizationFile dir v.key]

/-- The files of an origin are alike in two file systems. -/
def Origin.SameIn (origin : Origin) (fs fs' : FileSystem) : Prop :=
  ∀ path ∈ origin.files, fs.read path = fs'.read path ∧ fs.contains path = fs'.contains path

section

variable {read : ValueReader} {fs fs' : FileSystem} {origin : Origin}

theorem readFile_congr {path : String} (h : fs.read path = fs'.read path) :
    readFile read fs path = readFile read fs' path := by
  unfold readFile
  rw [h]

theorem readRequired_congr {path : String}
    (h : fs.read path = fs'.read path ∧ fs.contains path = fs'.contains path) :
    readRequired read fs path = readRequired read fs' path := by
  unfold readRequired
  rw [h.2, readFile_congr h.1]

theorem readSanitizers_congr {dir name : String}
    (h : fs.read (sanitizationFile dir name) = fs'.read (sanitizationFile dir name) ∧
      fs.contains (sanitizationFile dir name) = fs'.contains (sanitizationFile dir name)) :
    readSanitizers read fs dir name = readSanitizers read fs' dir name := by
  unfold readSanitizers
  simp only [h.2, readFile_congr h.1]

theorem mem_files_directory {dir path : String} {v : Vulnerability}
    (h : path ∈ [exitFile dir v, sanitizationFile dir v.key]) :
    path ∈ (Origin.directory dir).files := by
  have hv : v ∈ Vulnerability.all := by cases v <;> decide
  exact List.mem_cons_of_mem _ (List.mem_cons_of_mem _ (List.mem_flatMap.2 ⟨v, hv, h⟩))

theorem entryPointsOf_congr (h : origin.SameIn fs fs') :
    entryPointsOf read fs origin = entryPointsOf read fs' origin := by
  cases origin with
  | bundled => rfl
  | directory dir =>
    simp only [entryPointsOf, readEntryPoints, readRequired_congr (h _ List.mem_cons_self)]

theorem commonSanitizersOf_congr (h : origin.SameIn fs fs') :
    commonSanitizersOf read fs origin = commonSanitizersOf read fs' origin := by
  cases origin with
  | bundled => rfl
  | directory dir =>
    have hcommon := h (sanitizationFile dir "common") (List.mem_cons_of_mem _ List.mem_cons_self)
    simp only [commonSanitizersOf, readSanitizers_congr hcommon]

theorem catalogOf_congr (h : origin.SameIn fs fs') (v : Vulnerability) :
    catalogOf read fs origin v = catalogOf read fs' origin v := by
  unfold catalogOf sanitizersOf exitPointsOf
  rw [entryPointsOf_congr h, commonSanitizersOf_congr h]
  cases origin with
  | bundled => rfl
  | directory dir =>
    have hexit := h _ (mem_files_directory (v := v) List.mem_cons_self)
    have hown := h _ (mem_files_directory (v := v) (List.mem_cons_of_mem _ List.mem_cons_self))
    simp only [readExitPoints, readRequired_congr hexit, readSanitizers_congr hown]

end

/-! ### Stores that cache a file system -/

namespace Store

/-- What the store keeps is what would be read. -/
structure Caches (read : ValueReader) (fs : FileSystem) (origin : Origin) (s : Store) : Prop where
  isFrom : s.origin = origin
  entryPoints : ∀ points, s.entryPoints = some points → entryPointsOf read fs origin = .ok points
  commonSanitizers : ∀ points, s.commonSanitizers = some points →
    commonSanitizersOf read fs origin = .ok points
  catalogs : ∀ v catalog, s.catalogs.get? v = some catalog →
    catalogOf read fs origin v = .ok catalog

/-- A store that caches a file system caches any other with the same catalog files. -/
theorem Caches.congr {read : ValueReader} {fs fs' : FileSystem} {origin : Origin} {s : Store}
    (h : Caches read fs origin s) (hsame : origin.SameIn fs fs') : Caches read fs' origin s where
  isFrom := h.isFrom
  entryPoints points hp := entryPointsOf_congr hsame ▸ h.entryPoints points hp
  commonSanitizers points hp := commonSanitizersOf_congr hsame ▸ h.commonSanitizers points hp
  catalogs v catalog hc := catalogOf_congr hsame v ▸ h.catalogs v catalog hc

theorem caches_new (read : ValueReader) (fs : FileSystem) (origin : Origin) :
    Caches read fs origin { origin } :=
  ⟨rfl, nofun, nofun, nofun⟩

/-- What comes after an operation is done on the store that the operation left, if it succeeded. -/
theorem run_bind {α β : Type} (op : Load α) (next : α → Load β) (s : Store) :
    (op >>= next).run.run s = match op.run.run s with
      | (.ok a, s') => (next a).run.run s'
      | (.error e, s') => (.error e, s') := by
  simp only [ExceptT.run_bind, StateT.run_bind]
  rcases op.run.run s with ⟨_ | a, s'⟩ <;> rfl

end Store

end TaintFlow.Catalog
