import TaintFlow.Scanner

/-!
# The stages of a scan

A scan collects files, builds units from them, searches the units for families of vulnerabilities,
and concludes with a result.  Here the stages have names, and two equations put a scan together from
them: `scan_eq` up to the collected files, and `scanFiles_eq` from there on.  Proofs about scans
treat the stages one by one.
-/

namespace TaintFlow

open TaintFlow.Files

/-- The files that a scan collects for a path, except for those that match a pattern. -/
def Collect.ofRequest (c : Config) (fs : FileSystem) (path : String) (excludes : List Value) :
    Except ScanFault (List String) :=
  match c.excludes.items? with
  | none => .error .badPattern
  | some own => Collect.files c (own ++ excludes) fs (fs.resolve path)

namespace Scanner

variable (s : Scanner) (fs : FileSystem)

/-- The scanner without what it noted in its last scan. -/
def cleared : Scanner :=
  { s with metrics := {}, workspace := { s.workspace with errors := [] } }

/-- Where the building of units starts: vanished units are gone, and the files are read. -/
def startBuild (target : String) (files : List String) (c : Cancellation) : Workspace.Build where
  workspace := dropVanished s.workspace target files
  texts := (readTexts fs files).1.foldl (fun t (path, text) => t.insert path text) {}
  cancellation := c

/-- What was built from the files that could be read. -/
def built (target : String) (files : List String) (c : Cancellation) : Workspace.Build :=
  (s.startBuild fs target files c).run s.reader fs s.config.endings
    ((readTexts fs files).1.map (·.1))

/-- The engine that looks for a family in the units of a workspace. -/
def engine (c : Config) (w : Workspace) (catalog : Catalog) : Flow.Engine where
  graph := w.graph
  catalog
  trusted := w.trusted
  maxDepth := c.maxDepth

/-- The progress after a family was looked for, with the outcome for it. -/
def Search.add (found : Search) (v : Vulnerability) (store : Catalog.Store) (o : Verify.Outcome) :
    Search :=
  { found with
    store
    metrics := (found.metrics.record ("verify." ++ v.key) 0.0).increment "problems" o.reported
    findings := found.findings ++ o.findings
    checked := found.checked ++ [v.key]
    cancellation := o.cancellation }

/-- With a catalog, a family is looked for by checking the units. -/
theorem searchOne_of_ok {read : ValueReader} {c : Config} {w : Workspace} {units : List String}
    {v : Vulnerability} {catalog : Catalog} {store : Catalog.Store} (found : Search)
    (h : (Catalog.Store.load read fs v).run.run found.store = (.ok catalog, store)) :
    searchOne read fs c w units v found =
      (found.add v store (Verify.run (engine c w catalog) units found.cancellation), none) := by
  unfold searchOne
  rw [h]
  rfl

/-- The progress after the catalog of a family could not be loaded: an error of the catalog is noted,
and any other ends the search. -/
def Search.reject (found : Search) (v : Vulnerability) (store : Catalog.Store) (e : CatalogError) :
    Search × Option ScanFault :=
  match ScanFault.ofCatalogError? e with
  | some fault => ({ found with store }, some fault)
  | none =>
    ({ found with store, errors := found.errors ++ [v.displayName ++ ": " ++ e.message] }, none)

theorem searchOne_of_error {read : ValueReader} {c : Config} {w : Workspace} {units : List String}
    {v : Vulnerability} {e : CatalogError} {store : Catalog.Store} (found : Search)
    (h : (Catalog.Store.load read fs v).run.run found.store = (.error e, store)) :
    searchOne read fs c w units v found = found.reject v store e := by
  unfold searchOne
  rw [h]
  rfl

/-- Where the search starts. -/
def startSearch (b : Workspace.Build) : Search where
  store := s.store
  metrics := (({} : Metrics).record "parse" 0.0).increment "units" b.updated.length
  cancellation := b.cancellation

/-- The search of all selected families. -/
def searched (b : Workspace.Build) : Search × Option ScanFault :=
  search s.readers.document fs s.config b.workspace b.updated s.config.selected
    (s.startSearch b)

/-- The result of a scan, given the messages about files that could not be read. -/
def resultOf (target : String) (unread : List String) (b : Workspace.Build) (found : Search) :
    ScanResult :=
  ScanResult.sorted
    { target
      findings := found.findings
      filesScanned := b.updated.length
      checked := found.checked
      errors := unread ++ b.workspace.errors ++ found.errors
      cancelled := found.cancellation.poll.1
      metrics := found.metrics }

/-- The scanner after a scan. -/
def keep (b : Workspace.Build) (found : Search) : Scanner :=
  { s with store := found.store, workspace := b.workspace, metrics := found.metrics }

/-- The end of a scan: a result, unless the search was stopped by a fault. -/
def conclude (target : String) (unread : List String) (b : Workspace.Build) :
    Search × Option ScanFault → Scanner × Except ScanFault ScanResult
  | (found, some f) => (s.keep b found, .error f)
  | (found, none) => (s.keep b found, .ok (resultOf target unread b found))

theorem conclude_fst (target : String) (unread : List String) (b : Workspace.Build)
    (p : Search × Option ScanFault) : (s.conclude target unread b p).1 = s.keep b p.1 := by
  obtain ⟨found, _ | f⟩ := p <;> rfl

/-- **A scan of collected files** builds units, searches them and concludes. -/
theorem scanFiles_eq (target : String) (files : List String) (c : Cancellation) :
    s.scanFiles fs target files c =
      s.conclude target (readTexts fs files).2 (s.built fs target files c)
        (s.searched fs (s.built fs target files c)) := by
  obtain ⟨⟨found, fault⟩, hf⟩ : ∃ p, s.searched fs (s.built fs target files c) = p := ⟨_, rfl⟩
  rw [hf]
  unfold searched startSearch built startBuild at hf
  unfold scanFiles
  simp only [hf]
  cases fault with
  | none => rfl
  | some f => rfl

/-- **A scan** of a path at which there is something collects files first. -/
theorem scan_eq (path : String) (excludes : List Value) (c : Cancellation) :
    s.scan fs path excludes c =
      if fs.contains (fs.resolve path) then
        match Collect.ofRequest s.config fs path excludes with
        | .error f => (s.cleared, .error f)
        | .ok files => s.cleared.scanFiles fs (fs.resolve path) files c
      else
        (s, .ok { target := fs.resolve path,
                  errors := ["Target path does not exist: " ++ fs.resolve path] }) := by
  unfold scan Collect.ofRequest
  by_cases hT : fs.contains (fs.resolve path) = true
  · simp only [hT, Bool.not_true, Bool.false_eq_true, if_false, if_true]
    cases s.config.excludes.items? with
    | none => rfl
    | some own =>
      cases hfiles : Collect.files s.config (own ++ excludes) fs (fs.resolve path) with
      | error f => simp only [hfiles, cleared]
      | ok files => simp only [hfiles, cleared]
  · simp only [hT, Bool.not_false, if_true, Bool.false_eq_true, if_false]

end Scanner

/-! ### A sample -/

/-- A configuration that looks for one family in small files. -/
def sampleConfig : Config where
  maxDepth := 3
  endings := [".java"]
  vulnerabilities := [.commandInjection]
  catalogDir := none
  excludes := .list []
  maxFileSize := 1000
  directive := .text "trusted"

/-- A directory with one source file. -/
def sampleFiles (entry : Entry) : FileSystem where
  root := .directory [("w", .directory [("A.java", entry)])]

/-- Whether a scan gave a result with a property. -/
def gives (p : ScanResult → Bool) : Except ScanFault ScanResult → Bool
  | .ok r => p r
  | .error _ => false

theorem exists_of_gives {p : ScanResult → Bool} {outcome : Except ScanFault ScanResult}
    (h : gives p outcome = true) : ∃ r, outcome = .ok r ∧ p r = true := by
  cases outcome with
  | ok r => exact ⟨r, rfl, h⟩
  | error fault => cases h

end TaintFlow
