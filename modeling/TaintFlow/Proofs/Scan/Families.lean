import TaintFlow.Proofs.Catalog.Loading
import TaintFlow.Proofs.Findings
import TaintFlow.Proofs.Result
import TaintFlow.Proofs.Scan.Rescan

/-!
# Families do not influence each other

A search looks for one family after the other, with one store of catalogs and one list of findings.
Loading a catalog never changes what the store gives for another family, and every finding is of the
family that was looked for.  So what is found of a family does not depend on the other families that
are selected, nor on their order, and neither does whether its catalog can be used.

* `searchOne_reports`, `search_reports` : what a search says of the families that it has come to.
* `says_of_answer` : so does the result of a scan.
* `filed_foldl_after` : the catalogs of a scanner are kept under the families they are for.
* `families_do_not_interfere` : scans that select other families, or the same in another order.
-/

namespace TaintFlow

open TaintFlow.Code TaintFlow.Files TaintFlow.Catalog

namespace Verify

open TaintFlow.Flow

theorem cancellation_run_never (E : Engine) (units : List String) :
    (run E units .never).cancellation = .never := by
  rw [run, checkUnits_never E units rfl]
  rfl

/-- Every finding of a check is of the family of its catalog. -/
theorem vulnerability_of_mem_run {E : Engine} {units : List String} {f : Finding}
    (h : f ∈ (run E units .never).findings) : f.vulnerability = E.catalog.vulnerability := by
  rw [run, checkUnits_never E units rfl] at h
  obtain ⟨unit, -, h⟩ := List.mem_flatMap.1 h
  obtain ⟨m, -, h⟩ := List.mem_flatMap.1 h
  obtain ⟨call, -, h⟩ := List.mem_flatMap.1 h
  obtain ⟨x, -, hreports⟩ := exists_left_of_forall₂ (reports_findingsOf E unit call) h
  exact hreports.vulnerability

end Verify

/-! ### Collecting -/

namespace Collect

section

variable {c c' : Config} {patterns : List Value}

theorem filesIn_congr (hscanned : isScanned c' patterns = isScanned c patterns) (dir : String)
    (entries : List (String × Entry)) :
    filesIn c' patterns dir entries = filesIn c patterns dir entries := by
  induction entries with
  | nil => rfl
  | cons x entries ih =>
    obtain ⟨name, entry⟩ := x
    rw [filesIn, filesIn, ih, hscanned]

mutual

theorem under_congr (hscanned : isScanned c' patterns = isScanned c patterns) (dir : String)
    (entry : Entry) : under c' patterns dir entry = under c patterns dir entry := by
  cases entry with
  | directory entries =>
    rw [under, under, filesIn_congr hscanned, underAll_congr hscanned dir entries]
  | file bytes => rfl
  | unreadable => rfl
  | brokenLink => rfl
termination_by structural entry

theorem underAll_congr (hscanned : isScanned c' patterns = isScanned c patterns) (dir : String)
    (entries : List (String × Entry)) :
    underAll c' patterns dir entries = underAll c patterns dir entries := by
  cases entries with
  | nil => rfl
  | cons x entries =>
    obtain ⟨name, entry⟩ := x
    rw [underAll, underAll, under_congr hscanned (Path.join dir name) entry,
      underAll_congr hscanned dir entries]
termination_by structural entries

end

end

/-- **Which files are collected** does not depend on the selected families. -/
theorem ofRequest_selecting (c : Config) (vs : List Vulnerability) (fs : FileSystem)
    (path : String) (excludes : List Value) :
    ofRequest { c with vulnerabilities := vs } fs path excludes = ofRequest c fs path excludes := by
  have hfiles : ∀ patterns target,
      Collect.files { c with vulnerabilities := vs } patterns fs target =
        Collect.files c patterns fs target := by
    intro patterns target
    have hscanned :
      isScanned { c with vulnerabilities := vs } patterns = isScanned c patterns := rfl
    have hunder : under { c with vulnerabilities := vs } patterns = under c patterns := by
      funext dir entry
      exact under_congr hscanned dir entry
    unfold Collect.files
    rw [hunder]
    rfl
  unfold ofRequest
  simp only [hfiles]

end Collect

namespace Scanner

/-! ### What a family contributes -/

section

variable (read : ValueReader) (fs : FileSystem) (c : Config) (w : Workspace) (units : List String)
  (store : Store)

/-- The findings of a family. -/
def findingsFor (v : Vulnerability) : List Finding :=
  match store.loaded read fs v with
  | .ok catalog => (Verify.run (engine c w catalog) units .never).findings
  | .error _ => []

/-- What is said of a family whose catalog cannot be used. -/
def complaint? (v : Vulnerability) : Option String :=
  match store.loaded read fs v with
  | .ok _ => none
  | .error e => some (v.displayName ++ ": " ++ e.message)

/-- The keys of the families whose catalogs can be used. -/
def usable (vs : List Vulnerability) : List String :=
  (vs.filter fun v => (complaint? read fs store v).isNone).map (·.key)

/-- The catalog of the family is loaded, or it has an error of its own. -/
def Decided (v : Vulnerability) : Prop :=
  ∀ e, store.loaded read fs v = .error e → e.isOfCatalog = true

/-- The search has gone through some families more: those with a catalog are listed, and of each
other one there is a message.  Without a token, it has added up what they contribute. -/
structure Search.Reports (seen : List Vulnerability) (found found' : Search) : Prop where
  gives : Store.GivesSame read fs store found'.store
  decided : ∀ v ∈ seen, Decided read fs store v
  checked : found'.checked = found.checked ++ usable read fs store seen
  errors : found'.errors = found.errors ++ seen.filterMap (complaint? read fs store)
  uncancelled : found.cancellation = .never → found'.cancellation = .never ∧
    found'.findings = found.findings ++ seen.flatMap (findingsFor read fs c w units store)

end

section

variable {read : ValueReader} {fs : FileSystem} {c : Config} {w : Workspace} {units : List String}
  {store : Store}

theorem vulnerability_of_mem_findingsFor (hfiled : store.Filed) {v : Vulnerability} {f : Finding}
    (h : f ∈ findingsFor read fs c w units store v) : f.vulnerability = v := by
  unfold findingsFor at h
  cases hloaded : store.loaded read fs v with
  | error e => rw [hloaded] at h; cases h
  | ok catalog =>
    rw [hloaded] at h
    exact (Verify.vulnerability_of_mem_run h).trans (hfiled.loaded hloaded)

theorem ofCatalogError?_eq_none_iff {e : CatalogError} :
    ScanFault.ofCatalogError? e = none ↔ e.isOfCatalog = true := by
  cases e <;> simp [ScanFault.ofCatalogError?, CatalogError.isOfCatalog]

theorem Search.Reports.refl {found : Search} (h : Store.GivesSame read fs store found.store) :
    found.Reports read fs c w units store [] found where
  gives := h
  decided := by simp
  checked := (List.append_nil _).symm
  errors := (List.append_nil _).symm
  uncancelled hnever := ⟨hnever, (List.append_nil _).symm⟩

theorem Search.Reports.trans {vs vs' : List Vulnerability} {found found' found'' : Search}
    (h : found.Reports read fs c w units store vs found')
    (h' : found'.Reports read fs c w units store vs' found'') :
    found.Reports read fs c w units store (vs ++ vs') found'' where
  gives := h'.gives
  decided v hv := (List.mem_append.1 hv).elim (h.decided v) (h'.decided v)
  checked := by
    rw [h'.checked, h.checked, usable, usable, usable, List.filter_append, List.map_append,
      List.append_assoc]
  errors := by rw [h'.errors, h.errors, List.filterMap_append, List.append_assoc]
  uncancelled hnever := by
    obtain ⟨hnever', hfindings⟩ := h.uncancelled hnever
    obtain ⟨hnever'', hfindings'⟩ := h'.uncancelled hnever'
    exact ⟨hnever'', by rw [hfindings', hfindings, List.flatMap_append, List.append_assoc]⟩

variable (c w units) in
/-- **One family** is looked for or skipped, unless its catalog fails with an error that is not of
the catalog. -/
theorem searchOne_reports (v : Vulnerability) (found : Search)
    (hstore : Store.GivesSame read fs store found.store) :
    (∃ found', searchOne read fs c w units v found = (found', none) ∧
      found.Reports read fs c w units store [v] found') ∨
    ∃ found' e fault, searchOne read fs c w units v found = (found', some fault) ∧
      store.loaded read fs v = .error e ∧ ScanFault.ofCatalogError? e = some fault ∧
      found.Reports read fs c w units store [] found' := by
  obtain ⟨store', hload, hsame⟩ := hstore.exists_load v
  cases hloaded : store.loaded read fs v with
  | ok catalog =>
    rw [hloaded] at hload
    have hcomplaint : complaint? read fs store v = none := by
      rw [complaint?, hloaded]
    refine .inl ⟨_, searchOne_of_ok fs found hload, hsame, ?_, ?_, ?_, fun hnever => ⟨?_, ?_⟩⟩
    · intro w hw e he
      rw [List.mem_singleton.1 hw, hloaded] at he
      cases he
    · simp [Search.add, usable, hcomplaint]
    · simp [Search.add, hcomplaint]
    · rw [hnever]
      exact Verify.cancellation_run_never _ _
    · simp [Search.add, findingsFor, hloaded, hnever]
  | error e =>
    rw [hloaded] at hload
    have hcomplaint : complaint? read fs store v = some (v.displayName ++ ": " ++ e.message) := by
      rw [complaint?, hloaded]
    rw [searchOne_of_error fs found hload]
    unfold Search.reject
    cases he : ScanFault.ofCatalogError? e with
    | none =>
      refine .inl ⟨_, rfl, hsame, ?_, ?_, ?_, fun hnever => ⟨hnever, ?_⟩⟩
      · intro w hw e' he'
        rw [List.mem_singleton.1 hw, hloaded] at he'
        cases he'
        exact ofCatalogError?_eq_none_iff.1 he
      · simp [usable, hcomplaint]
      · simp [hcomplaint]
      · simp [findingsFor, hloaded]
    | some fault =>
      exact .inr ⟨_, e, fault, rfl, rfl, he, hsame, by simp, (List.append_nil _).symm,
        (List.append_nil _).symm, fun hnever => ⟨hnever, (List.append_nil _).symm⟩⟩

variable (c w units) in
/-- **A search** goes through the families in their order, until the token is spent or a catalog
fails with an error that is not of the catalog. -/
theorem search_reports (vs : List Vulnerability) (found : Search)
    (hstore : Store.GivesSame read fs store found.store) :
    ∃ found' fault seen rest, search read fs c w units vs found = (found', fault) ∧
      vs = seen ++ rest ∧ found.Reports read fs c w units store seen found' ∧
      ((fault = none ∧ (rest = [] ∨ found'.cancellation.Spent)) ∨
        ∃ v ∈ rest, ∃ e, store.loaded read fs v = .error e ∧ e.isOfCatalog = false ∧
          fault = ScanFault.ofCatalogError? e) := by
  induction vs generalizing found with
  | nil => exact ⟨found, none, [], [], rfl, rfl, .refl hstore, .inl ⟨rfl, .inl rfl⟩⟩
  | cons v vs ih =>
    by_cases hspent : found.cancellation.Spent
    · exact ⟨found, none, [], v :: vs, search_of_spent read fs c w units hspent _, rfl,
        .refl hstore, .inl ⟨rfl, .inr hspent⟩⟩
    · -- the token has been asked, and nothing else has changed
      have hreports : ∀ {seen next}, Search.Reports read fs c w units store seen
          { found with cancellation := found.cancellation.poll.2 } next →
          found.Reports read fs c w units store seen next := fun h =>
        ⟨h.gives, h.decided, h.checked, h.errors, fun hnever => h.uncancelled (by rw [hnever]; rfl)⟩
      rcases searchOne_reports c w units v
          { found with cancellation := found.cancellation.poll.2 } hstore with
        ⟨next, hone, hnext⟩ | ⟨next, e, fault, hone, hloaded, hfault, hnext⟩
      · obtain ⟨last, fault, seen, rest, hsearch, rfl, hlast, hend⟩ := ih next hnext.gives
        refine ⟨last, fault, v :: seen, rest, ?_, rfl, (hreports hnext).trans hlast, hend⟩
        rw [search_of_not_spent read fs c w units hspent hone]
        exact hsearch
      · have he : e.isOfCatalog = false := by
          rw [← Bool.not_eq_true, ← ofCatalogError?_eq_none_iff, hfault]
          exact Option.some_ne_none fault
        refine ⟨next, some fault, [], v :: vs, ?_, rfl, hreports hnext,
          .inr ⟨v, List.mem_cons_self, e, hloaded, he, hfault.symm⟩⟩
        rw [search_of_not_spent read fs c w units hspent hone]
        rfl

/-- A search that is not cancelled goes through all families. -/
theorem search_never (vs : List Vulnerability) (hvs : ∀ v ∈ vs, Decided read fs store v)
    {found : Search} (hstore : Store.GivesSame read fs store found.store)
    (hnever : found.cancellation = .never) :
    ∃ found', search read fs c w units vs found = (found', none) ∧
      found.Reports read fs c w units store vs found' := by
  obtain ⟨found', fault, seen, rest, hsearch, rfl, hreports, hend⟩ :=
    search_reports c w units vs found hstore
  rcases hend with ⟨rfl, hrest⟩ | ⟨v, hv, e, hloaded, he, -⟩
  · have hnever' := (hreports.uncancelled hnever).1
    obtain rfl := hrest.resolve_right (hnever' ▸ Cancellation.not_spent_never)
    rw [List.append_nil] at hsearch ⊢
    exact ⟨found', hsearch, hreports⟩
  · rw [hvs v (List.mem_append_right seen hv) e hloaded] at he
    cases he

end

/-! ### Results -/

/-- The scanner with other families selected; without any, all are. -/
def selecting (s : Scanner) (vs : List Vulnerability) : Scanner :=
  { s with config := { s.config with vulnerabilities := vs } }

section

variable (s : Scanner) (q : Request) (files : List String)

/-- The request without a token. -/
def Request.uncancelled (q : Request) : Request :=
  { q with cancellation := .never }

/-- What is built for a request from the files that were collected for it. -/
def builtFor : Workspace.Build :=
  s.cleared.built q.files q.target files .never

/-- The messages about files. -/
def fileMessages : List String :=
  (readTexts q.files files).2 ++ (s.builtFor q files).workspace.errors

/-- The findings of a family in what is built for a request. -/
def contribution (v : Vulnerability) : List Finding :=
  findingsFor s.readers.document q.files s.config (s.builtFor q files).workspace
    (s.builtFor q files).updated s.store v

/-- What a result says when some families are selected. -/
structure Says (vs : List Vulnerability) (r : ScanResult) : Prop where
  cancelled : r.cancelled = false
  findings : r.findings = (vs.flatMap (s.contribution q files)).mergeSort ScanResult.precedes
  checked : r.checked = usable s.readers.document q.files s.store vs
  errors : r.errors =
    s.fileMessages q files ++ vs.filterMap (complaint? s.readers.document q.files s.store)

end

section

variable {s : Scanner} {q : Request} {files : List String}

theorem cancellation_builtFor
    (hfiles : Collect.ofRequest s.config q.files q.path q.excludes = .ok files) :
    (s.builtFor q files).cancellation = .never := by
  unfold builtFor
  rw [built_eq s.cleared q.files fun file hfile => Collect.hasEnding_of_mem_ofRequest hfiles hfile]
  rfl

/-- **A scan that is not cancelled** has a result, which adds up what the families contribute. -/
theorem exists_says (hexists : q.files.contains q.target = true)
    (hfiles : Collect.ofRequest s.config q.files q.path q.excludes = .ok files)
    (vs : List Vulnerability)
    (hvs : ∀ v ∈ (s.selecting vs).config.selected, Decided s.readers.document q.files s.store v) :
    ∃ r, (s.selecting vs).answer q.uncancelled = .ok r ∧
      s.Says q files (s.selecting vs).config.selected r := by
  obtain ⟨found, hsearch, hfound⟩ : ∃ found, search s.readers.document q.files
        (s.selecting vs).config (s.builtFor q files).workspace (s.builtFor q files).updated
        (s.selecting vs).config.selected
        ((s.selecting vs).cleared.startSearch (s.builtFor q files)) = (found, none) ∧
      ((s.selecting vs).cleared.startSearch (s.builtFor q files)).Reports
        s.readers.document q.files (s.selecting vs).config (s.builtFor q files).workspace
        (s.builtFor q files).updated s.store (s.selecting vs).config.selected found :=
    search_never _ hvs (.refl s.readers.document q.files s.store) (cancellation_builtFor hfiles)
  obtain ⟨hnever, hfindings⟩ := hfound.uncancelled (cancellation_builtFor hfiles)
  refine ⟨resultOf q.target (readTexts q.files files).2 (s.builtFor q files) found, ?_, ?_⟩
  · have hcollect : Collect.ofRequest (s.selecting vs).config q.files q.path q.excludes =
        .ok files := (Collect.ofRequest_selecting ..).trans hfiles
    -- building looks at the configuration, but not at the families
    have hsearched : (s.selecting vs).cleared.searched q.files
        ((s.selecting vs).cleared.built q.files q.target files .never) = (found, none) := hsearch
    change q.files.contains (q.files.resolve q.path) = true at hexists
    change ((s.selecting vs).scan q.files q.path q.excludes .never).2 = _
    rw [scan_eq, if_pos hexists, hcollect]
    change ((s.selecting vs).cleared.scanFiles q.files q.target files .never).2 = _
    rw [scanFiles_eq, hsearched]
    rfl
  · refine ⟨?_, ?_, ?_, ?_⟩
    · change found.cancellation.poll.1 = false
      rw [hnever]
      rfl
    · change found.findings.mergeSort _ = _
      rw [hfindings]
      rfl
    · exact hfound.checked
    · change _ ++ _ ++ found.errors = _
      rw [hfound.errors]
      rfl

/-- So does the result of any scan that was not cancelled, whatever its token was. -/
theorem says_of_answer (hexists : q.files.contains q.target = true)
    (hfiles : Collect.ofRequest s.config q.files q.path q.excludes = .ok files)
    (vs : List Vulnerability)
    (hvs : ∀ v ∈ (s.selecting vs).config.selected, Decided s.readers.document q.files s.store v)
    (token : Cancellation) {r : ScanResult}
    (hr : (s.selecting vs).answer { q with cancellation := token } = .ok r)
    (hdone : r.cancelled = false) : s.Says q files (s.selecting vs).config.selected r := by
  obtain ⟨r', hr', hsays⟩ := exists_says hexists hfiles vs hvs
  have hnever : (s.selecting vs).answer { q with cancellation := token } =
      (s.selecting vs).answer q.uncancelled := by
    refine congrArg Prod.snd (scan_eq_never (s.selecting vs) q.files fun r'' hr'' => ?_)
    rw [← Except.ok.inj (hr.symm.trans hr'')]
    exact hdone
  rw [hr, hr'] at hnever
  rw [Except.ok.inj hnever]
  exact hsays

/-! ### Results of different selections -/

theorem key_inj {v v' : Vulnerability} (h : v.key = v'.key) : v = v' := by
  revert h
  cases v <;> cases v' <;> decide

/-- The findings of one family among those of several. -/
theorem flatMap_contribution (hfiled : s.store.Filed) {vs : List Vulnerability} (hvs : vs.Nodup)
    {v : Vulnerability} (hv : v ∈ vs) :
    (vs.flatMap (s.contribution q files)).filter (·.vulnerability = v) =
      [v].flatMap (s.contribution q files) := by
  have hone : vs.filter (· = v) = [v] := by
    rw [List.filter_eq, List.count_eq_one_of_mem hvs hv]
    rfl
  rw [← hone]
  refine (flatMap_filter_eq fun w _ f hf => ?_).symm
  rw [vulnerability_of_mem_findingsFor hfiled hf]

/-- **What a scan finds of a family** is what a scan for this family alone finds. -/
theorem Says.ofVulnerability (hfiled : s.store.Filed) {vs : List Vulnerability} (hvs : vs.Nodup)
    {v : Vulnerability} (hv : v ∈ vs) {r r' : ScanResult} (h : s.Says q files vs r)
    (h' : s.Says q files [v] r') : r.ofVulnerability v = r'.findings := by
  rw [ScanResult.ofVulnerability, h.findings, h'.findings,
    filter_mergeSort ScanResult.precedes_trans ScanResult.precedes_total,
    flatMap_contribution hfiled hvs hv]

/-- A family is listed as checked when there is nothing to say about its catalog. -/
theorem Says.mem_checked_iff {vs : List Vulnerability} {r : ScanResult} (h : s.Says q files vs r)
    {v : Vulnerability} (hv : v ∈ vs) :
    v.key ∈ r.checked ↔ complaint? s.readers.document q.files s.store v = none := by
  rw [h.checked, usable, List.mem_map]
  constructor
  · rintro ⟨w, hw, hkey⟩
    rw [← key_inj hkey]
    exact Option.isNone_iff_eq_none.1 (List.mem_filter.1 hw).2
  · intro hnone
    exact ⟨v, List.mem_filter.2 ⟨hv, Option.isNone_iff_eq_none.2 hnone⟩, rfl⟩

/-- **The order of the families** only permutes findings of one rank. -/
theorem Says.of_perm {vs vs' : List Vulnerability} (hperm : vs.Perm vs') {r r' : ScanResult}
    (h : s.Says q files vs r) (h' : s.Says q files vs' r') :
    r.findings.Perm r'.findings ∧
      r.findings.map ScanResult.rank = r'.findings.map ScanResult.rank := by
  have hfound : (vs.flatMap (s.contribution q files)).Perm (vs'.flatMap (s.contribution q files)) :=
    hperm.flatMap_right _
  rw [h.findings, h'.findings]
  exact ⟨(List.mergeSort_perm _ _).trans (hfound.trans (List.mergeSort_perm _ _).symm),
    ScanResult.map_rank_mergeSort hfound⟩

end

/-! ### Histories -/

/-- What loading keeps up of a store, a scan keeps up as well. -/
theorem store_after {P : Store → Prop}
    (hload : ∀ read fs v store, P store → P ((Store.load read fs v).run.run store).2)
    {s : Scanner} (h : P s.store) (q : Request) : P (s.after q).store := by
  unfold after
  rw [scan_eq]
  split
  · cases Collect.ofRequest s.config q.files q.path q.excludes with
    | error f => exact h
    | ok files =>
      simp only
      rw [scanFiles_eq, conclude_fst]
      exact store_search _ _ _ (hload s.readers.document q.files) _ h
  · exact h

theorem store_foldl_after {P : Store → Prop}
    (hload : ∀ read fs v store, P store → P ((Store.load read fs v).run.run store).2)
    (readers : Readers) (config : Config) (hnew : P (new readers config).store)
    (earlier : List Request) : P (earlier.foldl after (new readers config)).store :=
  List.foldlRecOn (motive := fun s : Scanner => P s.store) earlier after hnew
    fun _ h q _ => store_after hload h q

/-- **The catalogs of a scanner** are kept under the families they are for, whatever it scanned. -/
theorem filed_foldl_after (readers : Readers) (config : Config) (earlier : List Request) :
    (earlier.foldl after (new readers config)).store.Filed :=
  store_foldl_after (fun read fs v store h =>
    h.of_givesSame (Store.leaves_load read fs store v).givesSame) readers config
    (by exact nofun) earlier

theorem readers_config_after (s : Scanner) (q : Request) :
    (s.after q).readers = s.readers ∧ (s.after q).config = s.config := by
  unfold after
  rw [scan_eq]
  split
  · cases Collect.ofRequest s.config q.files q.path q.excludes with
    | error f => exact ⟨rfl, rfl⟩
    | ok files =>
      simp only
      rw [scanFiles_eq, conclude_fst]
      exact ⟨rfl, rfl⟩
  · exact ⟨rfl, rfl⟩

/-- A scanner keeps its readers and its configuration. -/
theorem readers_config_foldl_after (readers : Readers) (config : Config)
    (earlier : List Request) :
    (earlier.foldl after (new readers config)).readers = readers ∧
      (earlier.foldl after (new readers config)).config = config :=
  List.foldlRecOn (motive := fun s : Scanner => s.readers = readers ∧ s.config = config) earlier
    after ⟨rfl, rfl⟩ fun s h q _ =>
      (readers_config_after s q).imp (·.trans h.1) (·.trans h.2)

/-- What a result of a scan says of each family does not depend on the others. -/
structure Independent (s : Scanner) (q : Request) (files : List String) (r : ScanResult) :
    Prop where
  /-- A scan for one of the families has a result, and if it is not cancelled it has the findings
  of the family, in their order. -/
  alone : ∀ v ∈ s.config.selected,
    (∃ r', (s.selecting [v]).answer q.uncancelled = .ok r' ∧ r'.cancelled = false) ∧
    ∀ token r', (s.selecting [v]).answer { q with cancellation := token } = .ok r' →
      r'.cancelled = false → r.ofVulnerability v = r'.findings
  /-- The families with a catalog are listed, in their order. -/
  checked : r.checked = usable s.readers.document q.files s.store s.config.selected
  listed : ∀ v ∈ s.config.selected,
    v.key ∈ r.checked ↔ complaint? s.readers.document q.files s.store v = none
  /-- Each of the others has one message, after those about files. -/
  errors : r.errors = s.fileMessages q files ++
    s.config.selected.filterMap (complaint? s.readers.document q.files s.store)
  /-- With the same families in another order, findings of one rank are permuted. -/
  ordered : ∀ vs, vs.Perm s.config.selected →
    (∃ r', (s.selecting vs).answer q.uncancelled = .ok r' ∧ r'.cancelled = false) ∧
    ∀ token r', (s.selecting vs).answer { q with cancellation := token } = .ok r' →
      r'.cancelled = false → r.findings.Perm r'.findings ∧
        r.findings.map ScanResult.rank = r'.findings.map ScanResult.rank

theorem independent_of_says {s : Scanner} {q : Request} {files : List String}
    (hfiled : s.store.Filed) (hdistinct : s.config.selected.Nodup)
    (hexists : q.files.contains q.target = true)
    (hfiles : Collect.ofRequest s.config q.files q.path q.excludes = .ok files)
    (hcatalogs : ∀ v ∈ s.config.selected, Decided s.readers.document q.files s.store v)
    {r : ScanResult} (h : s.Says q files s.config.selected r) : s.Independent q files r := by
  have hone : ∀ v ∈ s.config.selected, ∀ w ∈ (s.selecting [v]).config.selected,
      Decided s.readers.document q.files s.store w := by
    intro v hv w hw
    rw [List.mem_singleton.1 hw]
    exact hcatalogs v hv
  have hall : ∀ vs, vs.Perm s.config.selected → (s.selecting vs).config.selected = vs ∧
      ∀ w ∈ (s.selecting vs).config.selected, Decided s.readers.document q.files s.store w := by
    intro vs hvs
    have hselected : (s.selecting vs).config.selected = vs := by
      cases vs with
      | nil =>
        -- a scanner always selects some family
        have hnil := hvs.symm.eq_nil
        unfold Config.selected at hnil
        split at hnil
        · cases hnil
        · rename_i hne
          rw [hnil] at hne
          exact absurd rfl hne
      | cons v vs => rfl
    refine ⟨hselected, fun w hw => hcatalogs w (hvs.mem_iff.1 ?_)⟩
    rwa [hselected] at hw
  refine ⟨fun v hv => ⟨?_, fun token r' hr' hdone => ?_⟩, h.checked,
    fun v hv => h.mem_checked_iff hv, h.errors,
    fun vs hvs => ⟨?_, fun token r' hr' hdone => ?_⟩⟩
  · obtain ⟨r', hr', hsays⟩ := exists_says hexists hfiles [v] (hone v hv)
    exact ⟨r', hr', hsays.cancelled⟩
  · exact h.ofVulnerability hfiled hdistinct hv
      (says_of_answer hexists hfiles [v] (hone v hv) _ hr' hdone)
  · obtain ⟨r', hr', hsays⟩ := exists_says hexists hfiles vs (hall vs hvs).2
    exact ⟨r', hr', hsays.cancelled⟩
  · have hsays := says_of_answer hexists hfiles vs (hall vs hvs).2 _ hr' hdone
    rw [(hall vs hvs).1] at hsays
    exact h.of_perm hvs.symm hsays

/-- **Families do not influence each other.**  A scanner, after whatever scans, is asked for a
target that exists, and the catalogs of its families are loaded or have an error of their own.
Either the patterns to exclude are bad, and then every selection of families ends in the same fault.
Or there is a result, and what it says of each family does not depend on the others.  The readers of
sources and of documents may be any. -/
theorem families_do_not_interfere (readers : Readers) (config : Config) (earlier : List Request)
    (s : Scanner) (hs : s = earlier.foldl after (new readers config)) (q : Request)
    (hdistinct : config.selected.Nodup) (hexists : q.files.contains q.target = true)
    (hcatalogs : ∀ v ∈ config.selected, Decided readers.document q.files s.store v) :
    (∀ fault, Collect.ofRequest config q.files q.path q.excludes = .error fault →
      ∀ vs, (s.selecting vs).answer q = .error fault) ∧
    ∀ files, Collect.ofRequest config q.files q.path q.excludes = .ok files →
      (∃ r, s.answer q.uncancelled = .ok r ∧ r.cancelled = false) ∧
      ∀ r, s.answer q = .ok r → r.cancelled = false → s.Independent q files r := by
  have hfiled : s.store.Filed := hs ▸ filed_foldl_after readers config earlier
  have hkept : s.readers = readers ∧ s.config = config :=
    hs ▸ readers_config_foldl_after readers config earlier
  clear hs
  obtain ⟨rfl, rfl⟩ := hkept
  refine ⟨fun fault hfault vs => ?_, fun files hfiles => ⟨?_, fun r hr hdone => ?_⟩⟩
  · have hcollect : Collect.ofRequest (s.selecting vs).config q.files q.path q.excludes =
        .error fault := (Collect.ofRequest_selecting ..).trans hfault
    change q.files.contains (q.files.resolve q.path) = true at hexists
    unfold answer
    rw [scan_eq, if_pos hexists, hcollect]
  · obtain ⟨r, hr, hsays⟩ := exists_says hexists hfiles s.config.vulnerabilities hcatalogs
    exact ⟨r, hr, hsays.cancelled⟩
  · have hsays : s.Says q files s.config.selected r :=
      says_of_answer hexists hfiles s.config.vulnerabilities hcatalogs q.cancellation hr hdone
    exact independent_of_says hfiled hdistinct hexists hfiles hcatalogs hsays

/-- A source that hands on what comes in, and catalogs for it: that of one family is missing. -/
def halfCatalog : FileSystem where
  root := .directory [
    ("c", .directory [
      ("entry_point.yaml", .file "entry_points: []".toUTF8),
      ("exit_point", .directory [("command_injection.yaml", .file
        ("exit_points: [\x7bqualifiedName: A, methodName: out, " ++
          "parameters: [\x7btype: T, rules: 1\x7d]\x7d]").toUTF8)])]),
    ("w", .directory [("A.java", .file "class A\x7bvoid f()\x7bout(in());\x7d\x7d".toUTF8)])]

/-- A configuration that looks for both families, first for the one without a catalog. -/
def halfConfig : Config :=
  { sampleConfig with
    vulnerabilities := [.sqlInjection, .commandInjection]
    catalogDir := some "/c" }

theorem decided_halfCatalog (v : Vulnerability) (hv : v ∈ halfConfig.selected) :
    Decided Yaml.value halfCatalog (new .standard halfConfig).store v := by
  have hall : ∀ v ∈ halfConfig.selected,
      (match (new .standard halfConfig).store.loaded Yaml.value halfCatalog v with
      | .ok _ => true
      | .error e => e.isOfCatalog) = true := by
    decide +kernel
  intro e he
  have := hall v hv
  rwa [he] at this

/-- The family without a catalog has its message, and what is found of the other one is what a scan
for it alone finds. -/
theorem families_halfCatalog :
    ∃ r r', (new .standard halfConfig).answer { files := halfCatalog, path := "/w" } = .ok r ∧
      ((new .standard halfConfig).selecting [.commandInjection]).answer
        { files := halfCatalog, path := "/w" } = .ok r' ∧
      r.checked = ["command_injection"] ∧
      r.errors = ["Sql Injection: Catalog file not found: /c/exit_point/sql_injection.yaml"] ∧
      r'.findings.length = 1 ∧ r.ofVulnerability .commandInjection = r'.findings := by
  have hboth : gives (fun r => r.cancelled = false ∧ r.checked = ["command_injection"] ∧ r.errors =
      ["Sql Injection: Catalog file not found: /c/exit_point/sql_injection.yaml"] ∧
      (r.ofVulnerability .commandInjection).length = 1)
      ((new .standard halfConfig).answer { files := halfCatalog, path := "/w" }) = true := by
    decide +kernel
  have hfiles : Collect.ofRequest halfConfig halfCatalog "/w" [] = .ok ["/w/A.java"] := by rfl
  obtain ⟨r, hr, hfound⟩ := exists_of_gives hboth
  obtain ⟨hdone, hchecked, herrors, hlength⟩ := of_decide_eq_true hfound
  obtain ⟨-, hresults⟩ := families_do_not_interfere .standard halfConfig []
    (new .standard halfConfig) rfl { files := halfCatalog, path := "/w" } (by decide)
    (by decide +kernel) decided_halfCatalog
  have hindependent := (hresults ["/w/A.java"] hfiles).2 r hr hdone
  have hv : Vulnerability.commandInjection ∈ (new .standard halfConfig).config.selected := by decide
  obtain ⟨⟨r', hr', hdone'⟩, halone⟩ := hindependent.alone _ hv
  have hsame := halone .never r' hr' hdone'
  exact ⟨r, r', hr, hr', hchecked, herrors, hsame ▸ hlength, hsame⟩

/-- A target that does not exist is all that its scan speaks of: the family is not looked for, and
there is nothing to say about its catalog. -/
theorem missing_target_leaves_families_out :
    ∃ r, (new .standard sampleConfig).answer { files := helped, path := "/nowhere" } = .ok r ∧
      r.cancelled = false ∧ sampleConfig.selected = [.commandInjection] ∧ r.checked = [] ∧
      complaint? Yaml.value helped (new .standard sampleConfig).store .commandInjection = none ∧
      r.errors = ["Target path does not exist: /nowhere"] := by
  refine ⟨{ target := "/nowhere", errors := ["Target path does not exist: /nowhere"] }, ?_, rfl,
    rfl, rfl, ?_, rfl⟩
  · rfl
  · rfl

end Scanner

end TaintFlow
