import TaintFlow.Proofs.Catalog.Loading
import TaintFlow.Statistics
import TaintFlow.Yaml.Value

/-!
# What a store keeps cannot be told from its answers

A store may be asked for a catalog, for parts of one, and to forget what it keeps.  As long as the
catalog files stay as they are, it answers each request as a new store would, whatever came before.

* `yields_perform` : one request.
* `cache_transparent` : any sequence of requests.
-/

namespace TaintFlow.Catalog

open TaintFlow.Files

/-! ### Requests -/

/-- What a store may be asked for. -/
inductive Request where
  | load (v : Vulnerability)
  | entryPoints
  | exitPoints (v : Vulnerability)
  | sanitizers (v : Vulnerability)
  | clear
  deriving DecidableEq, Repr

/-- What a store answers when nothing fails. -/
inductive Answer where
  | catalog (c : Catalog)
  | points (ps : List Pattern)
  | exitPoints (ps : List ExitPoint)
  | cleared

/-- The operation that a request asks for. -/
def Request.perform (read : ValueReader) (fs : FileSystem) : Request → Load Answer
  | load v => do return .catalog (← Store.load read fs v)
  | entryPoints => do return .points (← Store.loadEntryPoints read fs)
  | exitPoints v => do return .exitPoints (← Store.loadExitPoints read fs v)
  | sanitizers v => do return .points (← Store.loadSanitizers read fs v)
  | clear => do
    modify Store.clear
    return .cleared

/-- The answer to a request and the store after it. -/
def Store.answer (read : ValueReader) (fs : FileSystem) (s : Store) (r : Request) :
    Except CatalogError Answer × Store :=
  (r.perform read fs).run.run s

/-- The answers to requests that come one after the other, and the store after them.  Each request
finds the files as they are then. -/
def Store.answers (read : ValueReader) (s : Store) :
    List (FileSystem × Request) → List (Except CatalogError Answer) × Store
  | [] => ([], s)
  | (fs, r) :: rest =>
    let (a, s') := s.answer read fs r
    let (as, s'') := s'.answers read rest
    (a :: as, s'')

/-- The answer without a store. -/
def answerOf (read : ValueReader) (fs : FileSystem) (origin : Origin) :
    Request → Except CatalogError Answer
  | .load v => do return .catalog (← catalogOf read fs origin v)
  | .entryPoints => do return .points (← entryPointsOf read fs origin)
  | .exitPoints v => do return .exitPoints (← exitPointsOf read fs origin v)
  | .sanitizers v => do return .points (← sanitizersOf read fs origin v)
  | .clear => return .cleared

namespace Store

variable {read : ValueReader} {fs : FileSystem} {origin : Origin} {s : Store}

/-- **One request** gives what would be read without a store, and leaves a store that keeps nothing
else. -/
theorem yields_perform (h : Caches read fs origin s) (r : Request) :
    Yields read fs origin s (r.perform read fs) (answerOf read fs origin r) := by
  have hsame := caches_iff_givesSame.1 h
  cases r with
  | load v =>
    have hgiven : s.given read fs v = catalogOf read fs origin v := hsame.catalogs v
    rw [answerOf, ← hgiven]
    exact ((leaves_load read fs s v).map _).yields h
  | entryPoints =>
    have hgiven : s.givenEntryPoints read fs = entryPointsOf read fs origin := hsame.entryPoints
    rw [answerOf, ← hgiven]
    exact ((reads_loadEntryPoints read fs s).leaves.map _).yields h
  | exitPoints v =>
    obtain rfl := h.isFrom
    exact ((reads_loadExitPoints read fs s v).leaves.map _).yields h
  | sanitizers v =>
    have hgiven : s.givenSanitizers read fs v = sanitizersOf read fs origin v := hsame.sanitizers v
    rw [answerOf, ← hgiven]
    exact ((reads_loadSanitizers read fs s v).leaves.map _).yields h
  | clear =>
    refine ⟨rfl, ?_⟩
    have hnew := caches_new read fs origin
    rw [← h.isFrom] at hnew
    rw [← h.isFrom]
    exact hnew

/-! ### Sequences of requests -/

theorem sameIn_symm {fs' : FileSystem} (h : origin.SameIn fs fs') : origin.SameIn fs' fs :=
  fun path hpath => ⟨(h path hpath).1.symm, (h path hpath).2.symm⟩

/-- The answers to requests are those without a store, as long as the files stay as they are. -/
theorem answers_eq {calls : List (FileSystem × Request)} (h : Caches read fs origin s)
    (hsame : ∀ c ∈ calls, origin.SameIn fs c.1) :
    (s.answers read calls).1 = calls.map fun c => answerOf read c.1 origin c.2 := by
  induction calls generalizing s with
  | nil => rfl
  | cons c calls ih =>
    obtain ⟨hc, hcalls⟩ := List.forall_mem_cons.1 hsame
    obtain ⟨hanswer, hkeeps⟩ := yields_perform (h.congr hc) c.2
    rw [List.map_cons, ← hanswer, ← ih (hkeeps.congr (sameIn_symm hc)) hcalls]
    rfl

/-- **What a store keeps cannot be told from its answers.**  While the catalog files stay as they
are, each request in any sequence is answered as by a new store, with a value or with an error.  In
any state, a load that fails leaves what the store reports of the catalogs that it has loaded.  How
documents are read does not matter. -/
theorem cache_transparent (read : ValueReader) (fs : FileSystem) (origin : Origin)
    (calls : List (FileSystem × Request)) (hsame : ∀ c ∈ calls, origin.SameIn fs c.1) :
    (({ origin } : Store).answers read calls).1 =
        calls.map (fun c => (({ origin } : Store).answer read c.1 c.2).1) ∧
      ∀ (s : Store) fs' v e, (s.answer read fs' (.load v)).1 = .error e →
        ∀ bundled, (s.answer read fs' (.load v)).2.statsJson bundled = s.statsJson bundled := by
  constructor
  · rw [answers_eq (caches_new read fs origin) hsame]
    exact List.map_congr_left fun c _ => (yields_perform (caches_new read c.1 origin) c.2).1.symm
  · intro s fs' v e herror bundled
    have hload := (leaves_load read fs' s v).map Answer.catalog
    have hcatalogs : (s.answer read fs' (.load v)).2.catalogs = s.catalogs :=
      hload.catalogs e (hload.result_eq.symm.trans herror)
    have horigin : (s.answer read fs' (.load v)).2.origin = s.origin := hload.givesSame.origin
    rw [statsJson, statsJson, horigin, hcatalogs]

/-- Catalog files of which those of one family are missing. -/
def onlyCommands : FileSystem where
  root := .directory [
    ("entry_point.yaml", .file "entry_points: []".toUTF8),
    ("exit_point", .directory [("command_injection.yaml", .file
      ("exit_points: [\x7bqualifiedName: A, methodName: out, " ++
        "parameters: [\x7btype: T, rules: 1\x7d]\x7d]").toUTF8)])]

/-- Requests that fail and succeed in turn. -/
def mixedRequests : List (FileSystem × Request) :=
  [.load .sqlInjection, .load .commandInjection, .load .commandInjection, .clear, .entryPoints,
    .load .sqlInjection, .sanitizers .commandInjection].map fun r => (onlyCommands, r)

theorem answers_mixedRequests :
    (({ origin := .directory "" } : Store).answers Yaml.value mixedRequests).1.map Except.toBool =
      [false, true, true, true, true, false, true] := by
  have hsame : ∀ c ∈ mixedRequests, (Origin.directory "").SameIn onlyCommands c.1 := by
    intro c hc path _
    obtain ⟨r, -, rfl⟩ := List.mem_map.1 hc
    exact ⟨rfl, rfl⟩
  rw [(cache_transparent Yaml.value onlyCommands (.directory "") mixedRequests hsame).1]
  decide +kernel

end Store

end TaintFlow.Catalog
