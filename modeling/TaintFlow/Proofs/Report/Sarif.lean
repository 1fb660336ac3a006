import Mathlib.Data.List.Nodup
import TaintFlow.Proofs.Flow.Ends
import TaintFlow.Report.Sarif

/-!
# Reading SARIF reports

Who reads a report looks up members of objects by their names.  `SarifLog.read` finds the ids of the
rules that the program lists, and the results, each with the id of its rule, its message, its place
and its code flows.

* `readLocation_sarifLocation`, `readFlow_sarifFlow` and `SarifResult.read_sarifResult` say what is
  read of a place, a path and a finding,
* `firstOfRule_spec` says which findings stand for the rules that are listed,
* `reports_refer_to_their_rules` says that rules and results of every report belong together, and that
  no result, flow or step is lost.
-/

namespace TaintFlow

open TaintFlow.Code TaintFlow.Flow

/-! ### Documents -/

namespace Json

/-- The member of an object with the given name. -/
def member? (name : String) : Json → Option Json
  | object members => members.lookup name
  | _ => none

/-- The items of a list. -/
def items? : Json → Option (List Json)
  | list items => some items
  | _ => none

/-- The text that a document is. -/
def text? : Json → Option String
  | text s => some s
  | _ => none

/-- The natural number that a document is. -/
def nat? : Json → Option Nat
  | int n => n.toNat?
  | _ => none

@[simp] theorem member?_nil (name : String) : (object []).member? name = none :=
  rfl

@[simp] theorem member?_cons (name other : String) (j : Json) (members : List (String × Json)) :
    (object ((other, j) :: members)).member? name =
      if name = other then some j else (object members).member? name := by
  by_cases h : name = other
  · simp [member?, h]
  · have hne : (name == other) = false := beq_eq_false_iff_ne.2 h
    simp [member?, List.lookup_cons, hne, h]

@[simp] theorem nat?_nat (n : Nat) : (nat n).nat? = some n :=
  rfl

theorem mapM_map {α β : Type} {f : α → Json} {read : Json → Option β} {g : α → β}
    (h : ∀ a, read (f a) = some (g a)) (l : List α) : (l.map f).mapM read = some (l.map g) := by
  have hcomp : read ∘ f = fun a => some (g a) := funext h
  rw [List.mapM_map, hcomp]
  exact List.mapM_pure

end Json

/-- A place as reports show it: without a column of zero and without an empty snippet. -/
def Location.shown (l : Location) : Location :=
  { l with column := l.column.filter (0 < ·), snippet := l.snippet.filter (· ≠ "") }

namespace Report

/-! ### Reading reports -/

/-- Reads a place. -/
def readLocation (j : Json) : Option Location := do
  let place ← j.member? "physicalLocation"
  let file ← ((← place.member? "artifactLocation").member? "uri").bind Json.text?
  let region ← place.member? "region"
  let line ← (region.member? "startLine").bind Json.nat?
  let column := (region.member? "startColumn").bind Json.nat?
  let snippet := ((region.member? "snippet").bind (·.member? "text")).bind Json.text?
  return { file, line, column, snippet }

/-- Reads a code flow of one thread: its steps. -/
def readFlow (j : Json) : Option (List Location) := do
  match ← (← j.member? "threadFlows").items? with
  | [thread] => (← (← thread.member? "locations").items?).mapM fun step => do
    readLocation (← step.member? "location")
  | _ => none

/-- A result as it is read. -/
structure SarifResult where
  /-- The id of the rule that is broken. -/
  rule : String
  message : String
  place : Location
  /-- The code flows with their steps. -/
  flows : List (List Location)

/-- Reads a result.  It may have no code flows. -/
def SarifResult.read (j : Json) : Option SarifResult := do
  let rule ← (j.member? "ruleId").bind Json.text?
  let message ← ((← j.member? "message").member? "text").bind Json.text?
  let place ← match ← (← j.member? "locations").items? with
    | [place] => readLocation place
    | _ => none
  let flows ← match j.member? "codeFlows" with
    | none => some []
    | some flows => (← flows.items?).mapM readFlow
  return { rule, message, place, flows }

/-- A report of one run as it is read: the ids of its rules, and its results. -/
structure SarifLog where
  rules : List String
  results : List SarifResult

namespace SarifLog

/-- Reads the document of a report. -/
def read (j : Json) : Option SarifLog := do
  match ← (← j.member? "runs").items? with
  | [run] =>
    let driver ← (← run.member? "tool").member? "driver"
    let rules ← (← (← driver.member? "rules").items?).mapM fun rule =>
      (rule.member? "id").bind Json.text?
    let results ← (← (← run.member? "results").items?).mapM SarifResult.read
    return { rules, results }
  | _ => none

/-- Rules and results belong together. -/
structure Sound (log : SarifLog) : Prop where
  distinct : log.rules.Nodup
  /-- The rule of a result is listed exactly once. -/
  defined : ∀ x ∈ log.results, log.rules.count x.rule = 1
  used : ∀ id ∈ log.rules, ∃ x ∈ log.results, x.rule = id

end SarifLog

/-- What a result says of a finding.  Its code flows are the paths of the finding, in order and each
of them reversed. -/
structure SarifResult.Shows (x : SarifResult) (f : Finding) : Prop where
  rule : x.rule = f.vulnerability.ruleId
  message : x.message = f.description
  place : x.place = f.location.shown
  flows : x.flows = f.paths.map fun path => (path.map Location.shown).reverse

/-- A code flow starts at a call where taint enters, and ends at an argument of a sink. -/
structure RunsInto (E : Engine) (sink : Expr) (place : Nat) (flow : List Location) : Prop where
  source : ∃ source, Source E source ∧ flow.head? = some (Location.ofExpr source).shown
  argument : ∃ argument, sink.arguments[place]? = some argument ∧
    flow.getLast? = some (Location.ofExpr argument).shown

/-! ### What is read of a report -/

theorem readLocation_sarifLocation (l : Location) :
    readLocation (sarifLocation l) = some l.shown := by
  obtain ⟨file, line, column, snippet⟩ := l
  rcases column with _ | _ | n
  all_goals
    rcases snippet with _ | s
    · simp [readLocation, sarifLocation, Location.shown, Json.text?, Option.filter]
    · by_cases hs : s = ""
      all_goals
        simp [readLocation, sarifLocation, Location.shown, textObject, Json.text?, Option.filter, hs]

theorem readFlow_sarifFlow (path : List Location) :
    readFlow (sarifFlow path) = some (path.reverse.map Location.shown) := by
  simp only [readFlow, sarifFlow, Json.member?_cons, Json.items?, if_true, Option.bind_eq_bind,
    Option.bind_some]
  exact Json.mapM_map (by simp [readLocation_sarifLocation]) path.reverse

/-- What is to be read of a finding. -/
def SarifResult.ofFinding (f : Finding) : SarifResult where
  rule := f.vulnerability.ruleId
  message := f.description
  place := f.location.shown
  flows := f.paths.map fun path => path.reverse.map Location.shown

theorem SarifResult.read_sarifResult (f : Finding) :
    read (sarifResult f) = some (ofFinding f) := by
  have hflows : (f.paths.map sarifFlow).mapM readFlow = some (ofFinding f).flows :=
    Json.mapM_map readFlow_sarifFlow f.paths
  by_cases hpaths : f.paths = []
  · simp [read, sarifResult, ofFinding, textObject, Json.text?, Json.items?, hpaths,
      readLocation_sarifLocation]
  · simp [read, sarifResult, textObject, Json.text?, Json.items?, hpaths,
      readLocation_sarifLocation, hflows, -List.mapM_map]
    rfl

theorem SarifResult.shows_ofFinding (f : Finding) : (ofFinding f).Shows f :=
  ⟨rfl, rfl, rfl, by simp [ofFinding]⟩

theorem read_sarifDocument (r : ScanResult) :
    SarifLog.read (sarifDocument r) =
      some ⟨(firstOfRule [] r.findings).map (·.vulnerability.ruleId),
        r.findings.map SarifResult.ofFinding⟩ := by
  have hrules : ((firstOfRule [] r.findings).map sarifRule).mapM
      (fun rule => (rule.member? "id").bind Json.text?) =
        some ((firstOfRule [] r.findings).map (·.vulnerability.ruleId)) :=
    Json.mapM_map (fun f => by simp [sarifRule, Json.text?]) _
  have hresults := Json.mapM_map SarifResult.read_sarifResult r.findings
  simp [SarifLog.read, sarifDocument, Json.items?, hrules, hresults, -List.mapM_map]

/-! ### Rules and results -/

/-- The findings that stand for the rules: no two of them for one, none for a rule that is known
before, and one for every other rule that is broken. -/
theorem firstOfRule_spec (before : List String) (fs : List Finding) :
    let ids := (firstOfRule before fs).map (·.vulnerability.ruleId)
    (ids.Nodup ∧ ∀ id ∈ ids, id ∉ before) ∧ (firstOfRule before fs).Sublist fs ∧
      ∀ f ∈ fs, f.vulnerability.ruleId ∈ before ∨ f.vulnerability.ruleId ∈ ids := by
  induction fs generalizing before with
  | nil => simp [firstOfRule]
  | cons f fs ih =>
    simp only [firstOfRule]
    split
    · next hbefore =>
      obtain ⟨hids, hsublist, hall⟩ := ih before
      refine ⟨hids, hsublist.cons f, List.forall_mem_cons.2 ⟨.inl ?_, hall⟩⟩
      exact List.contains_iff_mem.1 hbefore
    · next hbefore =>
      obtain ⟨⟨hnodup, hnew⟩, hsublist, hall⟩ := ih (f.vulnerability.ruleId :: before)
      simp only [List.mem_cons, not_or] at hnew hall
      simp only [List.map_cons, List.nodup_cons]
      refine ⟨⟨⟨fun hmem => (hnew _ hmem).1 rfl, hnodup⟩, List.forall_mem_cons.2
        ⟨fun hmem => hbefore (List.contains_iff_mem.2 hmem), fun id hid => (hnew id hid).2⟩⟩,
        hsublist.cons_cons f, List.forall_mem_cons.2 ⟨.inr List.mem_cons_self, fun g hg => ?_⟩⟩
      rcases hall g hg with (heq | hmem) | hmem
      · exact .inr (List.mem_cons.2 (.inl heq))
      · exact .inl hmem
      · exact .inr (List.mem_cons_of_mem _ hmem)

theorem sound_sarif (r : ScanResult) :
    SarifLog.Sound ⟨(firstOfRule [] r.findings).map (·.vulnerability.ruleId),
      r.findings.map SarifResult.ofFinding⟩ := by
  obtain ⟨⟨hnodup, -⟩, hsublist, hall⟩ := firstOfRule_spec [] r.findings
  refine ⟨hnodup, List.forall_mem_map.2 fun f hf => ?_, List.forall_mem_map.2 fun f hf => ?_⟩
  · exact List.count_eq_one_of_mem hnodup ((hall f hf).resolve_left List.not_mem_nil)
  · exact ⟨_, List.mem_map_of_mem (hsublist.subset hf), rfl⟩

/-- What is shown of a finding at a sink runs from a source into the sink. -/
theorem SarifResult.Shows.runsInto {x : SarifResult} {f : Finding} (h : x.Shows f) {E : Engine}
    {unit : String} {sink : Expr} (hf : f ∈ Verify.findingsOf E unit sink) :
    ∃ place, f.parameter = some place ∧ ∀ flow ∈ x.flows, RunsInto E sink place flow := by
  obtain ⟨place, hplace, hpaths⟩ := Verify.ends_of_mem_paths hf
  refine ⟨place, hplace, fun flow hflow => ?_⟩
  rw [h.flows] at hflow
  obtain ⟨path, hpath, rfl⟩ := List.mem_map.1 hflow
  obtain ⟨argument, hargument, exprs, rfl, hhead, source, hlast, hsource⟩ := hpaths path hpath
  refine ⟨⟨source, hsource, ?_⟩, argument, hargument, ?_⟩
  · simp [List.head?_reverse, hlast]
  · simp [List.getLast?_reverse, hhead]

/-- **Reports refer to their rules**: the report of every scan is a document that can be read.  Its
rules and results belong together, and there is one result for each finding, in order, with the paths
of the finding as its code flows.  The flows of a finding that was made at a sink run from sources
into the argument of the sink. -/
theorem reports_refer_to_their_rules (r : ScanResult) :
    ∃ log, SarifLog.read (sarifDocument r) = some log ∧ log.Sound ∧
      List.Forall₂ SarifResult.Shows log.results r.findings ∧
      ∀ x ∈ log.results, ∀ f, x.Shows f → ∀ E unit sink, f ∈ Verify.findingsOf E unit sink →
        ∃ place, f.parameter = some place ∧ ∀ flow ∈ x.flows, RunsInto E sink place flow := by
  refine ⟨_, read_sarifDocument r, sound_sarif r, ?_,
    fun x _ f hx E unit sink hf => hx.runsInto hf⟩
  exact List.forall₂_map_left_iff.2 (List.forall₂_same.2 fun f _ => SarifResult.shows_ofFinding f)

end Report

end TaintFlow
