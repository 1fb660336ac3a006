import TaintFlow.Proofs.Catalog.Loading
import TaintFlow.Proofs.Flow.Agreement
import TaintFlow.Proofs.Scan.Units

/-!
# Scanning again is scanning afresh

A scanner keeps its workspace and its store from scan to scan.  When all its scans were of one
target, what it keeps does not show in the next result: the workspace holds units under the target
only, and the scan touches all of them; the store keeps what would be read again.

* `Workspace.Below` : the workspace comes from sources under the target.  Every scan keeps this up,
  cancelled or not.
* `reflects_built` : after the edits of a scan, the sources behind the workspace are those that the
  scan updates, whatever was there before.
* `rescan_eq_scan_afresh` : the last scan of a history gives what a new scanner gives.
-/

namespace TaintFlow

open TaintFlow.Code TaintFlow.Files TaintFlow.Catalog

namespace Workspace

/-! ### Workspaces below a target -/

/-- The workspace holds what some sources under the target say. -/
def Below (target : String) (w : Workspace) : Prop :=
  ∃ us, Reflects w us ∧ ∀ u ∈ us, Path.isUnder target u.path = true

theorem below_empty (target : String) : Below target {} :=
  ⟨[], reflects_empty, nofun⟩

namespace Below

variable {target : String} {w : Workspace}

theorem addError (h : Below target w) (message : String) : Below target (w.addError message) := by
  obtain ⟨us, hus, hbelow⟩ := h
  exact ⟨us, hus.addError message, hbelow⟩

/-- Messages do not matter. -/
theorem withErrors (h : Below target w) (errors : List String) :
    Below target { w with errors } := by
  obtain ⟨us, hus, hbelow⟩ := h
  exact ⟨us, ⟨hus.nodup, hus.owns, hus.tidy, hus.graph, hus.trusted⟩, hbelow⟩

theorem removeUnit (h : Below target w) (path : String) : Below target (w.removeUnit path) := by
  obtain ⟨us, hus, hbelow⟩ := h
  exact ⟨_, hus.removeUnit path, fun u hu => hbelow u (List.mem_filter.1 hu).1⟩

theorem update {ε : Type} {read : UnitReader ε} (hread : read.Faithful) (h : Below target w)
    {path : String} (hpath : Path.isUnder target path = true) (text : String) :
    Below target (w.update read path text).1 := by
  unfold Workspace.update
  cases hu : read path text with
  | error f => exact (h.addError _).removeUnit path
  | ok u =>
    obtain ⟨rfl, hb⟩ := hread path text u hu
    obtain ⟨us, hus, hbelow⟩ := h
    refine ⟨_, hus.replaceUnit hb, fun u' hu' => ?_⟩
    rcases List.mem_append.1 hu' with hu' | hu'
    · exact hbelow u' (List.mem_filter.1 hu').1
    · rwa [List.mem_singleton.1 hu']

end Below

/-! ### Edits and messages -/

section

variable {ε : Type} (read : UnitReader ε)

/-- The message about an edit whose text cannot be read. -/
def complaints : Edit → List String
  | .update path text =>
    if (read path text).isOk then [] else ["Failed to parse " ++ path ++ ": " ++ detail]
  | .remove _ => []

theorem errors_apply (e : Edit) (w : Workspace) :
    (e.apply read w).errors = w.errors ++ complaints read e := by
  cases e with
  | remove path => exact (List.append_nil _).symm
  | update path text =>
    simp only [Edit.apply, update, complaints]
    cases read path text with
    | error f => rfl
    | ok u => exact (List.append_nil _).symm

theorem errors_foldl_apply (edits : List Edit) (w : Workspace) :
    (edits.foldl (Edit.apply read) w).errors = w.errors ++ edits.flatMap (complaints read) := by
  induction edits generalizing w with
  | nil => simp
  | cons e edits ih => rw [List.foldl_cons, ih, errors_apply, List.flatMap_cons, List.append_assoc]

theorem survivors_append_of_removals (paths : List String) (edits : List Edit) :
    survivors read (paths.map .remove ++ edits) = survivors read edits := by
  induction paths with
  | nil => rfl
  | cons path paths ih => exact ih

end

end Workspace

namespace Scanner

open Workspace

/-! ### The edits of a scan -/

section

variable {s : Scanner} {fs : FileSystem} {target : String} {files : List String}

/-- **After the edits of a scan** that can read all files, the sources behind the workspace are
those of the updates, whatever there was below the target before. -/
theorem reflects_built (hbelow : s.workspace.Below target)
    (hending : ∀ file ∈ files, hasEnding s.config.endings file = true)
    (hreadable : ∀ file ∈ files, fs.isReadable file = true) :
    Reflects (s.built fs target files .never).workspace
      ((survivors s.reader (updates fs files)).filterMap (source? s.reader)) := by
  obtain ⟨us, hus, hunder⟩ := hbelow
  have hread : s.reader.Faithful := Java.faithful_unitWith _ _
  -- a source under the target is collected again and updated, or else it is removed
  have htouched : ∀ u ∈ us, ∃ e ∈ removals s.workspace target files ++ updates fs files,
      e.path = u.path := by
    intro u hu
    by_cases hmem : u.path ∈ files
    · refine ⟨.update u.path (fs.textAt u.path), List.mem_append_right _ ?_, rfl⟩
      exact List.mem_map.2 ⟨_, List.mem_filter.2 ⟨hmem, hreadable _ hmem⟩, rfl⟩
    · refine ⟨.remove u.path, List.mem_append_left _ (List.mem_map.2 ⟨_, ?_, rfl⟩), rfl⟩
      have hknown : u.path ∈ s.workspace.graph.unitPaths :=
        hus.graph.toCovers.mem_keys_iff.2 (List.mem_map.2 ⟨u, hu, rfl⟩)
      exact List.mem_filter.2 ⟨hknown, by simp [hunder u hu, hmem]⟩
  have hnone : us.filter (fun u => ∀ e ∈ removals s.workspace target files ++ updates fs files,
      e.path ≠ u.path) = [] := by
    refine List.filter_eq_nil_iff.2 fun u hu hno => ?_
    obtain ⟨e, he, hpath⟩ := htouched u hu
    exact of_decide_eq_true hno e he hpath
  rw [built_eq s fs hending]
  have h := hus.foldl hread (removals s.workspace target files ++ updates fs files)
  rwa [foldl_track hread, hnone, List.nil_append, removals, survivors_append_of_removals] at h

theorem errors_built (hending : ∀ file ∈ files, hasEnding s.config.endings file = true) :
    (s.built fs target files .never).workspace.errors =
      s.workspace.errors ++ (updates fs files).flatMap (complaints s.reader) := by
  rw [built_eq s fs hending, errors_foldl_apply, List.flatMap_append]
  have hnone : (removals s.workspace target files).flatMap (complaints s.reader) = [] := by
    rw [removals, List.flatMap_map]
    exact List.flatMap_eq_nil_iff.2 fun _ _ => rfl
  rw [hnone, List.nil_append]

end

/-! ### The search -/

section

variable {read : ValueReader} {fs : FileSystem} {origin : Catalog.Origin} (c : Config)
  (w : Workspace) (units : List String)

variable (read fs) in
theorem store_searchOne (v : Vulnerability) (found : Search) :
    (searchOne read fs c w units v found).1.store =
      ((Store.load read fs v).run.run found.store).2 := by
  unfold searchOne
  split
  · split <;> simp only [*]
  · simp only [*]

/-- What loading keeps up of a store, a search keeps up as well. -/
theorem store_search {P : Store → Prop}
    (hload : ∀ v store, P store → P ((Store.load read fs v).run.run store).2) (vs : List Vulnerability)
    {found : Search} (h : P found.store) : P (search read fs c w units vs found).1.store := by
  induction vs generalizing found with
  | nil => exact h
  | cons v vs ih =>
    by_cases hspent : found.cancellation.Spent
    · rwa [search_of_spent read fs c w units hspent]
    · have hkept := hload v found.store h
      obtain ⟨⟨next, fault⟩, hone⟩ : ∃ p, searchOne read fs c w units v
          { found with cancellation := found.cancellation.poll.2 } = p := ⟨_, rfl⟩
      have hstore := store_searchOne read fs c w units v
        { found with cancellation := found.cancellation.poll.2 }
      rw [hone] at hstore
      rw [← hstore] at hkept
      rw [search_of_not_spent read fs c w units hspent hone]
      split
      · exact ih hkept
      · exact hkept

theorem caches_searchOne (v : Vulnerability) (found : Search)
    (h : Store.Caches read fs origin found.store) :
    Store.Caches read fs origin (searchOne read fs c w units v found).1.store := by
  rw [store_searchOne]
  exact (Store.yields_load h v).2

/-- What a search leaves in the store is what would be read. -/
theorem caches_search (vs : List Vulnerability) {found : Search}
    (h : Store.Caches read fs origin found.store) :
    Store.Caches read fs origin (search read fs c w units vs found).1.store :=
  store_search (P := Store.Caches read fs origin) c w units
    (fun v _ hstore => (Store.yields_load hstore v).2) vs h

variable {w} {w' : Workspace} (hgraph : w.graph.Same w'.graph) (htrusted : w.trusted = w'.trusted)

include hgraph htrusted

/-- One family is looked for alike with any store that caches the file system, and in any workspace
with the same tables. -/
theorem searchOne_alike (v : Vulnerability) (found : Search) {store : Store}
    (h : Store.Caches read fs origin found.store) (h' : Store.Caches read fs origin store) :
    ∃ store', Store.Caches read fs origin store' ∧
      searchOne read fs c w' units v { found with store } =
        ({ (searchOne read fs c w units v found).1 with store := store' },
          (searchOne read fs c w units v found).2) := by
  have hload : ∀ {store}, Store.Caches read fs origin store → ∃ store',
      Store.Caches read fs origin store' ∧
        (Store.load read fs v).run.run store = (catalogOf read fs origin v, store') := fun h =>
    ⟨_, (Store.yields_load h v).2, Prod.ext (Store.yields_load h v).1 rfl⟩
  obtain ⟨kept, -, hkept⟩ := hload h
  obtain ⟨kept', hcaches, hkept'⟩ := hload h'
  refine ⟨kept', hcaches, ?_⟩
  cases hcatalog : catalogOf read fs origin v with
  | error e =>
    rw [hcatalog] at hkept hkept'
    rw [searchOne_of_error fs found hkept, searchOne_of_error fs { found with store } hkept']
    unfold Search.reject
    split <;> rfl
  | ok catalog =>
    rw [hcatalog] at hkept hkept'
    have hrun : Verify.run (engine c w catalog) units found.cancellation =
        Verify.run (engine c w' catalog) units found.cancellation := by
      rw [Verify.run_of_same (engine c w catalog) hgraph, engine, engine, htrusted]
    rw [searchOne_of_ok fs found hkept, searchOne_of_ok fs { found with store } hkept', hrun]
    rfl

/-- **The search** is alike with any store that caches the file system, and in any workspace with
the same tables. -/
theorem search_alike (vs : List Vulnerability) {found : Search} {store : Store}
    (h : Store.Caches read fs origin found.store) (h' : Store.Caches read fs origin store) :
    ∃ store', search read fs c w' units vs { found with store } =
      ({ (search read fs c w units vs found).1 with store := store' },
        (search read fs c w units vs found).2) := by
  induction vs generalizing found store with
  | nil => exact ⟨store, rfl⟩
  | cons v vs ih =>
    by_cases hspent : found.cancellation.Spent
    · rw [search_of_spent read fs c w units hspent,
        search_of_spent read fs c w' units (s := { found with store }) hspent]
      exact ⟨store, rfl⟩
    · have hcaches := caches_searchOne c w units v
        { found with cancellation := found.cancellation.poll.2 } h
      obtain ⟨store', hstore', halike⟩ := searchOne_alike c units hgraph htrusted v
        { found with cancellation := found.cancellation.poll.2 } h h'
      obtain ⟨⟨next, fault⟩, hone⟩ : ∃ p, searchOne read fs c w units v
          { found with cancellation := found.cancellation.poll.2 } = p := ⟨_, rfl⟩
      rw [hone] at hcaches halike
      rw [search_of_not_spent read fs c w units hspent hone,
        search_of_not_spent read fs c w' units (s := { found with store }) hspent halike]
      split
      · exact ih hcaches hstore'
      · exact ⟨store', rfl⟩

end

/-! ### Histories of scans -/

/-- What a scanner is asked for. -/
structure Request where
  files : FileSystem
  path : String
  excludes : List Value := []
  cancellation : Cancellation := .never

/-- The target of a request. -/
def Request.target (q : Request) : String :=
  q.files.resolve q.path

/-- The scanner after a request. -/
def after (s : Scanner) (q : Request) : Scanner :=
  (s.scan q.files q.path q.excludes q.cancellation).1

/-- The answer to a request. -/
def answer (s : Scanner) (q : Request) : Except ScanFault ScanResult :=
  (s.scan q.files q.path q.excludes q.cancellation).2

/-- Where the catalogs of a configuration come from. -/
def originOf (c : Config) : Catalog.Origin :=
  .ofDirectory? c.catalogDir

/-- The scanner has readers and a configuration, its workspace comes from sources under the target,
and its store keeps what would be read from the file system. -/
structure KeepsTo (readers : Readers) (config : Config) (fs : FileSystem) (target : String)
    (s : Scanner) : Prop where
  readers_eq : s.readers = readers
  config_eq : s.config = config
  below : s.workspace.Below target
  caches : Store.Caches readers.document fs (originOf config) s.store

section

variable {readers : Readers} {config : Config} {fs : FileSystem} {target : String} {s s' : Scanner}

theorem keepsTo_new (readers : Readers) (config : Config) (fs : FileSystem) (target : String) :
    (new readers config).KeepsTo readers config fs target :=
  ⟨rfl, rfl, below_empty target, Store.caches_new readers.document fs _⟩

theorem KeepsTo.cleared (h : s.KeepsTo readers config fs target) :
    s.cleared.KeepsTo readers config fs target :=
  ⟨h.readers_eq, h.config_eq, h.below.withErrors [], h.caches⟩

theorem below_built (h : s.workspace.Below target) {files : List String}
    (hunder : ∀ file ∈ files, Path.isUnder target file = true) (c : Cancellation) :
    (s.built fs target files c).workspace.Below target := by
  have hdropped : (dropVanished s.workspace target files).Below target := by
    refine List.foldlRecOn _ _ h fun w hw unit _ => ?_
    split
    · exact hw.removeUnit unit
    · exact hw
  refine Build.run_induction s.reader fs s.config.endings (P := Below target)
    (fun w message hw => hw.addError message) (fun w text path hpath hw => ?_) hdropped
  rw [readTexts_eq, List.map_map] at hpath
  obtain ⟨file, hfile, rfl⟩ := List.mem_map.1 hpath
  exact hw.update (Java.faithful_unitWith _ _) (hunder file (List.mem_filter.1 hfile).1) text

/-- **One scan** of the target, cancelled or not, keeps up what a later one relies on. -/
theorem KeepsTo.after (h : s.KeepsTo readers config fs target) {q : Request}
    (htarget : q.target = target) (hnamed : q.files.root.Named)
    (hsame : (originOf config).SameIn q.files fs) :
    (s.after q).KeepsTo readers config fs target := by
  unfold Scanner.after
  rw [scan_eq]
  split
  · cases hfiles : Collect.ofRequest s.config q.files q.path q.excludes with
    | error f => exact h.cleared
    | ok files =>
      have hunder : ∀ file ∈ files, Path.isUnder target file = true := fun file hfile =>
        htarget ▸ Collect.isUnder_of_mem_ofRequest hfiles hnamed hfile
      simp only
      rw [scanFiles_eq, conclude_fst]
      refine ⟨h.readers_eq, h.config_eq, ?_, ?_⟩
      · change (s.cleared.built q.files q.target files q.cancellation).workspace.Below target
        rw [htarget]
        exact below_built h.cleared.below hunder q.cancellation
      · -- the search reads the catalog files of this request, which are like those of `fs`
        have hcaches : Store.Caches s.readers.document q.files (originOf config)
            s.cleared.store :=
          h.readers_eq ▸ h.caches.congr fun path hpath =>
            ⟨(hsame path hpath).1.symm, (hsame path hpath).2.symm⟩
        exact h.readers_eq ▸ (caches_search _ _ _ _ hcaches).congr hsame
  · exact h

/-- All scans of a history keep up what the last one relies on. -/
theorem KeepsTo.foldl_after (h : s.KeepsTo readers config fs target) {qs : List Request}
    (hqs : ∀ q ∈ qs, q.target = target ∧ q.files.root.Named ∧
      (originOf config).SameIn q.files fs) :
    (qs.foldl Scanner.after s).KeepsTo readers config fs target :=
  List.foldlRecOn qs Scanner.after h fun _ hs q hq =>
    hs.after (hqs q hq).1 (hqs q hq).2.1 (hqs q hq).2.2

/-! ### The last scan -/

/-- Two builds give the same answers. -/
structure BuiltAlike (b b' : Workspace.Build) : Prop where
  graph : b.workspace.graph.Same b'.workspace.graph
  trusted : b.workspace.trusted = b'.workspace.trusted
  errors : b.workspace.errors = b'.workspace.errors
  updated : b.updated = b'.updated
  cancellation : b.cancellation = b'.cancellation

variable (h : s.KeepsTo readers config fs target) (h' : s'.KeepsTo readers config fs target)

include h h'

/-- Two scanners that keep to a target build alike, when all collected files can be read. -/
theorem builtAlike (herrors : s.workspace.errors = s'.workspace.errors) {files : List String}
    (hending : ∀ file ∈ files, hasEnding config.endings file = true)
    (hreadable : ∀ file ∈ files, fs.isReadable file = true) :
    BuiltAlike (s.built fs target files .never) (s'.built fs target files .never) := by
  have hreader : s.reader = s'.reader := by
    rw [reader, reader, h.readers_eq, h'.readers_eq, h.config_eq, h'.config_eq]
  have hs : ∀ file ∈ files, hasEnding s.config.endings file = true := h.config_eq ▸ hending
  have hs' : ∀ file ∈ files, hasEnding s'.config.endings file = true := h'.config_eq ▸ hending
  have hbuilt := reflects_built h.below hs hreadable
  rw [hreader] at hbuilt
  obtain ⟨hgraph, htrusted⟩ := hbuilt.same (reflects_built h'.below hs' hreadable)
  refine ⟨hgraph, htrusted, ?_, ?_, ?_⟩
  · rw [errors_built hs, errors_built hs', herrors, hreader]
  · rw [built_eq s fs hs, built_eq s' fs hs', hreader]
  · rw [built_eq s fs hs, built_eq s' fs hs']
    rfl

theorem searched_alike {b b' : Workspace.Build} (hb : BuiltAlike b b') :
    ∃ store, s'.searched fs b' =
      ({ (s.searched fs b).1 with store }, (s.searched fs b).2) := by
  have hstart : s'.startSearch b' = { s.startSearch b with store := s'.store } := by
    unfold startSearch
    rw [hb.updated, hb.cancellation]
  unfold searched
  rw [hstart, h.readers_eq, h'.readers_eq, h.config_eq, h'.config_eq, ← hb.updated]
  exact search_alike config b.updated hb.graph hb.trusted config.selected h.caches h'.caches

/-- From collected files that can all be read, they come to the same answer. -/
theorem scanFiles_alike (herrors : s.workspace.errors = s'.workspace.errors) {files : List String}
    (hending : ∀ file ∈ files, hasEnding config.endings file = true)
    (hreadable : ∀ file ∈ files, fs.isReadable file = true) :
    (s.scanFiles fs target files .never).2 = (s'.scanFiles fs target files .never).2 := by
  have hb := builtAlike h h' herrors hending hreadable
  obtain ⟨store, halike⟩ := searched_alike h h' hb
  rw [scanFiles_eq, scanFiles_eq, halike]
  rcases s.searched fs (s.built fs target files .never) with ⟨found, _ | f⟩
  · simp only [conclude, resultOf, hb.updated, hb.errors]
  · rfl

/-- **Scanners that keep to a target answer alike**, when all files that are collected can be
read. -/
theorem scan_alike {path : String} {excludes : List Value} (htarget : fs.resolve path = target)
    (hreadable : ∀ files, Collect.ofRequest config fs path excludes = .ok files →
      ∀ file ∈ files, fs.isReadable file = true) :
    (s.scan fs path excludes .never).2 = (s'.scan fs path excludes .never).2 := by
  rw [scan_eq, scan_eq, h.config_eq, h'.config_eq]
  split
  · cases hfiles : Collect.ofRequest config fs path excludes with
    | error f => rfl
    | ok files =>
      simp only [htarget]
      exact scanFiles_alike h.cleared h'.cleared rfl
        (fun file hfile => Collect.hasEnding_of_mem_ofRequest hfiles hfile)
        (hreadable files hfiles)
  · rfl

end

/-- **Scanning again is scanning afresh.**  A scanner has answered any requests for one target: files
came, changed and went in between, patterns differed, and scans were cancelled.  If the catalog files
stayed the same, the last scan is not cancelled and it can read every file that it collects, then its
answer is that of a new scanner.  Of the file systems it is only asked that names hold no slash, so
that what lies in a directory has a path below it; of the readers nothing is asked. -/
theorem rescan_eq_scan_afresh (readers : Readers) (config : Config) (earlier : List Request)
    (last : Request) (htarget : ∀ q ∈ earlier, q.target = last.target)
    (hnamed : ∀ q ∈ earlier, q.files.root.Named)
    (hcatalogs : ∀ q ∈ earlier, (originOf config).SameIn q.files last.files)
    (hreadable : ∀ files, Collect.ofRequest config last.files last.path last.excludes = .ok files →
      ∀ file ∈ files, last.files.isReadable file = true)
    (hdone : ∀ r, (earlier.foldl after (new readers config)).answer last = .ok r →
      r.cancelled = false) :
    (earlier.foldl after (new readers config)).answer last =
      (new readers config).answer { last with cancellation := .never } := by
  have hkeeps := (keepsTo_new readers config last.files last.target).foldl_after fun q hq =>
    ⟨htarget q hq, hnamed q hq, hcatalogs q hq⟩
  have hnever : (earlier.foldl after (new readers config)).answer last =
      (earlier.foldl after (new readers config)).answer { last with cancellation := .never } :=
    congrArg Prod.snd (scan_eq_never _ last.files hdone)
  rw [hnever]
  exact scan_alike hkeeps (keepsTo_new readers config last.files last.target) rfl hreadable

/-- A directory with source files. -/
def sourceFiles (files : List (String × String)) : FileSystem where
  root := .directory [("w", .directory (files.map fun p => (p.1, .file p.2.toUTF8)))]

theorem named_sourceFiles {files : List (String × String)}
    (h : ∀ p ∈ files, '/' ∉ p.1.toList) : (sourceFiles files).root.Named := by
  have hdir : '/' ∉ "w".toList := by decide
  refine .directory (List.forall_mem_singleton.2 hdir) (List.forall_mem_singleton.2 ?_)
  refine .directory (fun x hx => ?_) (fun x hx => ?_)
  · obtain ⟨p, hp, rfl⟩ := List.mem_map.1 hx
    exact h p hp
  · obtain ⟨p, -, rfl⟩ := List.mem_map.1 hx
    exact .file _

/-- Two files, of which the second declares a method. -/
def helped : FileSystem :=
  sourceFiles [("A.java", "class A\x7b\x7d"),
    ("B.java", "class A\x7bT in()\x7breturn 1;\x7d\x7d")]

/-- The first file calls the method, and the second is gone. -/
def helpless : FileSystem :=
  sourceFiles [("A.java", "class A\x7bvoid f(Runtime r)\x7br.exec(in());\x7d\x7d")]

/-- A scan of both files, and one after the change that is cancelled at once. -/
def helpedHistory : List Request :=
  [{ files := helped, path := "/w" }, { files := helpless, path := "/w", cancellation := .after 0 }]

/-- The scanner has known the method that is called, and it finds what a new scanner finds, which
does not know it. -/
theorem rescan_helpless :
    ∃ r, (helpedHistory.foldl after (new .standard sampleConfig)).answer
        { files := helpless, path := "/w", cancellation := .after 100 } = .ok r ∧
      r.findings.length = 1 ∧
      (new .standard sampleConfig).answer { files := helpless, path := "/w" } = .ok r := by
  have hgives : gives (fun r => r.findings.length = 1 ∧ r.cancelled = false)
      ((helpedHistory.foldl after (new .standard sampleConfig)).answer
        { files := helpless, path := "/w", cancellation := .after 100 }) = true := by
    decide +kernel
  have hfiles : Collect.ofRequest sampleConfig helpless "/w" [] = .ok ["/w/A.java"] := by rfl
  obtain ⟨r, hr, hfound⟩ := exists_of_gives hgives
  obtain ⟨hlength, hdone⟩ := of_decide_eq_true hfound
  refine ⟨r, hr, hlength, ?_⟩
  rw [← hr]
  refine (rescan_eq_scan_afresh .standard sampleConfig helpedHistory
    { files := helpless, path := "/w", cancellation := .after 100 }
    (by decide +kernel) ?_ ?_ ?_ ?_).symm
  · rintro q (_ | ⟨_, _ | ⟨_, ⟨⟩⟩⟩)
    · exact named_sourceFiles (by decide)
    · exact named_sourceFiles (by decide)
  · intro q _ path hpath
    cases hpath
  · intro files hcollected file hfile
    cases hfiles.symm.trans hcollected
    rw [List.mem_singleton.1 hfile]
    decide +kernel
  · intro r' hr'
    rw [← Except.ok.inj (hr.symm.trans hr')]
    exact hdone

end Scanner

end TaintFlow
