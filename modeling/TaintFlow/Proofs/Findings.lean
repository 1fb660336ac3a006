import TaintFlow.Proofs.CallGraph.Resolution
import TaintFlow.Proofs.Flow.Address
import TaintFlow.Proofs.Flow.Chain
import TaintFlow.Proofs.Verify

/-!
# What a check reports

A check visits the calls of methods and reports findings on the way.  `examined` lists, without
outcomes and counters, what there is to report on: every parameter of concern of every sink, with
the record of its trace.  A sink of which one trace fails is left out as a whole.

* `Reports` : what a finding says of such a parameter, in terms of the records at the addresses of
  its tree.
* `reports_findingsOf` : the findings at a call are those on its vulnerable parameters.
* `run_reports_vulnerable_parameters` : so are the findings of a whole check, one for each, in
  order, and their number is the number of problems that the check counts.
-/

namespace TaintFlow

open TaintFlow.Code TaintFlow.Catalog TaintFlow.Flow

namespace Verify

/-- A parameter of concern of a sink, with the record of its trace. -/
structure Examined where
  /-- The unit whose method contains the sink. -/
  unit : String
  call : Expr
  /-- Place of the parameter. -/
  parameter : ℕ
  record : Record

/-- The rules of the parameters that an exit point is concerned about, with their places. -/
def concerns (exit : ExitPoint) : List (Rule × ℕ) :=
  exit.rules.zipIdx.filter (!·.1.ignore)

section

variable (E : Engine)

/-- The trace of one argument of a sink. -/
def traceParameter (call : Expr) (p : Rule × ℕ) : Except Fault Record :=
  trace E p.1 0 { sink := some call, parameter := some p.2 } call.arguments[p.2]?

/-- The parameters of a call that the first exit point to fit it is concerned about, in order.
There are none if the trace of one of them fails. -/
def examinedAt (unit : String) (call : Expr) : List Examined :=
  match E.catalog.exitPoints.find? (·.pattern.fits call) with
  | none => []
  | some exit =>
    ((concerns exit).mapM fun p =>
      (traceParameter E call p).map (Examined.mk unit call p.2)).toOption.getD []

/-- The parameters of concern of all sinks in the methods of the units. -/
def examined (units : List String) : List Examined :=
  units.flatMap fun unit => (E.graph.methods unit).flatMap fun m =>
    (E.graph.calls unit m.signature).flatMap (examinedAt E unit)

end

/-- What a finding says of a parameter: where the sink stands, which of its parameters is meant, and
all vulnerable records in the tree of the parameter, in depth-first order. -/
structure Reports (E : Engine) (x : Examined) (f : Finding) : Prop where
  vulnerability : f.vulnerability = E.catalog.vulnerability
  severity : f.severity = E.catalog.vulnerability.severity
  confidence : f.confidence = if f.kind = .entryPoint then .high else .medium
  location : f.location = { Location.ofExpr x.call with file := x.unit }
  parameter : f.parameter = some x.parameter
  kind : f.kind = .entryPoint ↔
    ∃ a w, x.record.at? a = some w ∧ w.verdict.kind? = some .entryPoint
  message : ∃ a w, x.record.at? a = some w ∧ w.verdict = .vulnerable f.kind f.message
  paths : ∃ as : List (List ℕ), as.Pairwise Record.Precedes ∧
    (∀ a, a ∈ as ↔ ∃ w, x.record.at? a = some w ∧ w.verdict.isVulnerable = true) ∧
    f.paths.map some = as.map fun a => (x.record.at? a).map fun w => w.path.map Location.ofExpr

/-! ### The finding on a parameter -/

/-- The witness that a finding quotes starts at an entry point if one of the witnesses does. -/
theorem exists_mainWitness {ws : List Record} (h : ws ≠ []) :
    ∃ main ∈ ws, Finding.mainWitness? ws = some main ∧
      (main.verdict.kind? = some .entryPoint ↔
        ∃ w ∈ ws, w.verdict.kind? = some .entryPoint) := by
  unfold Finding.mainWitness?
  cases hfind : ws.find? fun w => w.verdict.kind? = some .entryPoint with
  | some main =>
    have hmem := List.mem_of_find?_eq_some hfind
    have hkind : main.verdict.kind? = some .entryPoint := by simpa using List.find?_some hfind
    exact ⟨main, hmem, rfl, iff_of_true hkind ⟨main, hmem, hkind⟩⟩
  | none =>
    obtain ⟨first, rest, rfl⟩ := List.exists_cons_of_ne_nil h
    have hnone : ∀ w ∈ first :: rest, w.verdict.kind? ≠ some .entryPoint := by
      simpa using hfind
    refine ⟨first, List.mem_cons_self, rfl, iff_of_false (hnone first List.mem_cons_self) ?_⟩
    rintro ⟨w, hw, hkind⟩
    exact hnone w hw hkind

/-- **A vulnerable record becomes a finding**, which reports all its vulnerable paths. -/
theorem exists_reports (E : Engine) {x : Examined} (hsink : x.record.sink = some x.call)
    (hparameter : x.record.parameter = some x.parameter)
    (hvulnerable : x.record.isVulnerable = true) :
    ∃ f, Finding.ofRecord? E.catalog.vulnerability x.unit x.record = some f ∧ Reports E x f := by
  obtain ⟨main, hmain, hquoted, hkind⟩ :=
    exists_mainWitness (Record.isVulnerable_iff_witnesses.1 hvulnerable)
  -- the witness that is quoted stands somewhere in the tree
  obtain ⟨hwalk, hclosed⟩ := List.mem_filter.1 hmain
  obtain ⟨a, ha⟩ := Record.mem_walk_iff_at?.1 hwalk
  refine ⟨_, by rw [Finding.ofRecord?, hsink, hquoted], rfl, rfl, ?_, rfl, hparameter, ?_, ?_, ?_⟩
  · dsimp only
    split <;> rfl
  · have hsome : (∃ w ∈ x.record.witnesses, w.verdict.kind? = some .entryPoint) ↔
        ∃ a w, x.record.at? a = some w ∧ w.verdict.kind? = some .entryPoint := by
      constructor
      · rintro ⟨w, hw, hk⟩
        obtain ⟨b, hb⟩ := Record.mem_walk_iff_at?.1 (List.mem_filter.1 hw).1
        exact ⟨b, w, hb, hk⟩
      · rintro ⟨b, w, hb, hk⟩
        have hv := w.verdict.isSome_kind?.1 (Option.isSome_of_eq_some hk)
        exact ⟨w, List.mem_filter.2 ⟨Record.mem_walk_iff_at?.2 ⟨b, hb⟩, hv⟩, hk⟩
    rw [← hsome, ← hkind]
    split <;> simp_all
  · refine ⟨a, main, ha, ?_⟩
    cases hv : main.verdict with
    | vulnerable kind message => cases kind <;> simp [Verdict.kind?, Verdict.message?]
    | _ => rw [hv] at hclosed; cases hclosed
  · obtain ⟨as, hordered, hmem, hwitnesses⟩ := Record.exists_addresses_witnesses x.record
    refine ⟨as, hordered, hmem, ?_⟩
    have hmap := congrArg (List.map (Option.map fun w : Record => w.path.map Location.ofExpr))
      hwitnesses
    simpa [Function.comp_def] using hmap

/-! ### The findings at a call -/

section

variable {E : Engine} {unit : String} {call : Expr}

/-- Checking a sink is tracing the parameters of concern, one after the other. -/
theorem checkSink_eq_mapM (exit : ExitPoint) :
    checkSink E call exit = (concerns exit).mapM (traceParameter E call) := by
  have harguments : ∀ (rules : List Rule) (index : ℕ), traceArguments E call index rules =
      ((rules.zipIdx index).filter (!·.1.ignore)).mapM (traceParameter E call) := by
    intro rules
    induction rules with
    | nil => intro index; rfl
    | cons rule rules ih =>
      intro index
      rw [traceArguments, List.zipIdx_cons]
      by_cases hignore : rule.ignore = true
      · rw [if_pos hignore, List.filter_cons_of_neg (by simp [hignore]), ih]
      · rw [if_neg hignore, List.filter_cons_of_pos (by simpa using hignore), List.mapM_cons, ih]
        rfl
  exact harguments exit.rules 0

/-- A parameter is examined under the rule that an exit point has for its place. -/
structure Examines (E : Engine) (unit : String) (call : Expr) (p : Rule × ℕ) (x : Examined) :
    Prop where
  unit_eq : x.unit = unit
  call_eq : x.call = call
  parameter_eq : x.parameter = p.2
  traced : traceParameter E call p = .ok x.record

variable (unit) in
/-- **What is examined at a sink**: nothing if its check fails, else every parameter of concern, and
the records are those of the check. -/
theorem examinedAt_cases {exit : ExitPoint} (hexit : E.catalog.exitPoint? call = some exit) :
    (∃ fault, checkSink E call exit = .error fault ∧ examinedAt E unit call = []) ∨
      ∃ records, checkSink E call exit = .ok records ∧
        (examinedAt E unit call).map (·.record) = records ∧
        List.Forall₂ (Examines E unit call) (concerns exit) (examinedAt E unit call) := by
  have hrecords := map_mapM_map (f := traceParameter E call)
    (g := fun p => Examined.mk unit call p.2) (v := Examined.record) (fun _ _ => rfl)
    (concerns exit)
  -- the check and the list of parameters come of one and the same walk over the rules
  change E.catalog.exitPoints.find? (·.pattern.fits call) = some exit at hexit
  rw [checkSink_eq_mapM, ← hrecords, examinedAt, hexit]
  simp only
  cases hmap : (concerns exit).mapM fun p =>
      (traceParameter E call p).map (Examined.mk unit call p.2) with
  | error fault => exact .inl ⟨fault, rfl, rfl⟩
  | ok xs =>
    refine .inr ⟨_, rfl, rfl, (mapM_eq_ok_iff.1 hmap).imp fun p x hx => ?_⟩
    cases htrace : traceParameter E call p with
    | error fault => rw [htrace] at hx; cases hx
    | ok record =>
      rw [htrace] at hx
      cases hx
      exact ⟨rfl, rfl, rfl, htrace⟩

theorem examinedAt_of_none (h : E.catalog.exitPoint? call = none) :
    examinedAt E unit call = [] := by
  change E.catalog.exitPoints.find? (·.pattern.fits call) = none at h
  rw [examinedAt, h]

theorem exists_examines {x : Examined} (h : x ∈ examinedAt E unit call) :
    ∃ p, Examines E unit call p x := by
  cases hexit : E.catalog.exitPoint? call with
  | none => rw [examinedAt_of_none hexit] at h; cases h
  | some exit =>
    rcases examinedAt_cases unit hexit with ⟨-, -, hnil⟩ | ⟨-, -, -, hall⟩
    · rw [hnil] at h; cases h
    · obtain ⟨p, -, hp⟩ := exists_left_of_forall₂ hall h
      exact ⟨p, hp⟩

theorem findingsOf_eq_filterMap :
    findingsOf E unit call =
      (examinedAt E unit call).filterMap
        (findingOf? unit E.catalog.vulnerability ∘ Examined.record) := by
  rw [← List.filterMap_map]
  cases hexit : E.catalog.exitPoint? call with
  | none => simp only [findingsOf, hexit, examinedAt_of_none, List.map_nil, List.filterMap_nil]
  | some exit =>
    rcases examinedAt_cases unit hexit with
      ⟨fault, hcheck, hnil⟩ | ⟨records, hcheck, hrecords, -⟩
    · simp only [findingsOf, hexit, hcheck, hnil, List.map_nil, List.filterMap_nil]
    · simp only [findingsOf, hexit, hcheck, hrecords]

/-- **The findings at a call** are those on its vulnerable parameters, one for each, in order. -/
theorem reports_findingsOf (E : Engine) (unit : String) (call : Expr) :
    List.Forall₂ (Reports E) ((examinedAt E unit call).filter (·.record.isVulnerable))
      (findingsOf E unit call) := by
  rw [findingsOf_eq_filterMap]
  refine forall₂_filter_filterMap (fun x hx hv => ?_) fun x _ hv => ?_
    <;> rw [Function.comp_apply, findingOf?]
  · obtain ⟨p, rfl, rfl, hplace, htrace⟩ := exists_examines hx
    obtain ⟨hsink, hparameter⟩ := sink_of_mem_walk 0 _ _ _ ⟨rfl, rfl⟩ htrace x.record
      (Record.mem_walk.2 (.inl rfl))
    rw [if_pos hv]
    exact exists_reports E hsink (hparameter.trans (congrArg some hplace.symm)) hv
  · rw [if_neg (by simp [hv])]

end

/-! ### The findings of a check -/

section

variable (E : Engine)

theorem poll_never {o : Outcome} (h : o.cancellation = .never) :
    { o with cancellation := o.cancellation.poll.2 } = o := by
  cases o
  cases h
  rfl

theorem checkMethods_never (unit : String) (ms : List Method) {o : Outcome}
    (h : o.cancellation = .never) :
    checkMethods E unit ms o =
      o.add (ms.flatMap fun m => (E.graph.calls unit m.signature).flatMap (sinksOf E))
        (ms.flatMap fun m => (E.graph.calls unit m.signature).flatMap (findingsOf E unit)) := by
  induction ms generalizing o with
  | nil => simp [checkMethods, Outcome.add]
  | cons m ms ih =>
    rw [checkMethods_of_not_spent E unit (h ▸ Cancellation.not_spent_never), poll_never h,
      foldl_checkCall, ih (o := o.add _ _) h]
    simp [Outcome.add, Nat.add_assoc]

/-- A check that is not cancelled adds what each call adds, in order. -/
theorem checkUnits_never (units : List String) {o : Outcome} (h : o.cancellation = .never) :
    checkUnits E units o =
      o.add
        (units.flatMap fun unit => (E.graph.methods unit).flatMap fun m =>
          (E.graph.calls unit m.signature).flatMap (sinksOf E))
        (units.flatMap fun unit => (E.graph.methods unit).flatMap fun m =>
          (E.graph.calls unit m.signature).flatMap (findingsOf E unit)) := by
  induction units generalizing o with
  | nil => simp [checkUnits, Outcome.add]
  | cons unit units ih =>
    rw [checkUnits_of_not_spent E unit (h ▸ Cancellation.not_spent_never), poll_never h,
      checkMethods_never E unit _ h, ih (o := o.add _ _) h]
    simp [Outcome.add, Nat.add_assoc]

/-- **A check reports its vulnerable parameters**, when it is not cancelled.  Its findings are those
on the vulnerable parameters among all that are examined, one for each, in order; they come after
what was found before, and they are counted.  At a call that is no sink, or whose check fails,
nothing is examined; at any other sink, the parameters of concern in their order. -/
theorem run_reports_vulnerable_parameters (E : Engine) (units : List String) :
    List.Forall₂ (Reports E) ((examined E units).filter (·.record.isVulnerable))
      (run E units .never).findings ∧
    (run E units .never).reported = (run E units .never).findings.length ∧
    (∀ before : Outcome, before.cancellation = .never →
      (checkUnits E units before).findings = before.findings ++ (run E units .never).findings ∧
        (checkUnits E units before).reported = before.reported + (run E units .never).reported) ∧
    (∀ unit call, E.catalog.exitPoint? call = none → examinedAt E unit call = []) ∧
    (∀ unit call exit, E.catalog.exitPoint? call = some exit →
      (∃ fault, checkSink E call exit = .error fault ∧ examinedAt E unit call = []) ∨
        ∃ records, checkSink E call exit = .ok records ∧
          (examinedAt E unit call).map (·.record) = records ∧
          List.Forall₂ (Examines E unit call) (concerns exit) (examinedAt E unit call)) ∧
    (∀ r : Record, r.isVulnerable = true ↔
      ∃ a w, r.at? a = some w ∧ w.verdict.isVulnerable = true) ∧
    ∀ changes, E.graph = CallGraph.build changes →
      examined E units = units.flatMap fun unit => (E.graph.units.getD unit {}).values.flatMap
        fun entry => entry.calls.flatMap (examinedAt E unit) := by
  have hrun : (run E units .never).findings = units.flatMap fun unit =>
      (E.graph.methods unit).flatMap fun m =>
        (E.graph.calls unit m.signature).flatMap (findingsOf E unit) := by
    rw [run, checkUnits_never E units rfl]
    exact List.nil_append _
  have hcount : (run E units .never).reported = (run E units .never).findings.length := by
    rw [hrun, run, checkUnits_never E units rfl]
    exact Nat.zero_add _
  refine ⟨?_, hcount, fun before hbefore => ?_, fun _ _ => examinedAt_of_none,
    fun unit _ _ => examinedAt_cases unit, fun _ => Record.isVulnerable_iff_at?,
    fun changes hgraph => ?_⟩
  · -- both sides go through units, methods and calls in the same three loops
    rw [hrun, examined]
    simp only [List.filter_flatMap]
    exact forall₂_flatMap fun unit _ => forall₂_flatMap fun m _ => forall₂_flatMap fun call _ =>
      reports_findingsOf E unit call
  · rw [hcount, hrun, checkUnits_never E units hbefore]
    exact ⟨rfl, rfl⟩
  · rw [examined]
    simp only [hgraph, CallGraph.flatMap_calls (CallGraph.consistent_build changes)
      (CallGraph.keyed_build changes)]

/-- A call of a sink that cannot be checked, for its second argument has no form. -/
def formlessSink : Expr :=
  .call ⟨"run(0, ?)", "A.java", 2, 1⟩ "run" none
    [.literal ⟨"0", "A.java", 2, 5⟩ .numberLiteral, .textOnly ⟨"?", "A.java", 2, 8⟩] none none

/-- A method with two sinks: one that cannot be checked, and one that tainted data reaches. -/
def twoCalls : Engine where
  graph :=
    let caller : Method := ⟨⟨"T", "main", []⟩, ⟨"A.java", 1, 0⟩, [], none, none, false⟩
    (taintedValue.graph.addCall "A.java" caller formlessSink).addCall "A.java" caller taintedSink
  catalog := { taintedValue.catalog with exitPoints := [runPoint] }

/-- The record of the second argument of the other sink. -/
def taintedRecord : Record where
  sink := some taintedSink
  parameter := some 1
  path := [.name (localName "x"), plainCall "read"]
  verdict := .vulnerable .entryPoint "Entry point method: Reader.read"

/-- The sink that cannot be checked hides nothing: the other one is reported, once. -/
theorem run_twoCalls :
    checkSink twoCalls formlessSink runPoint = .error .noRule ∧
      (run twoCalls ["A.java"] .never).reported = 1 ∧
      ∃ f, (run twoCalls ["A.java"] .never).findings = [f] ∧ f.kind = .entryPoint ∧
        f.parameter = some 1 ∧ f.location.line = 3 := by
  obtain ⟨hreports, hcount, -⟩ := run_reports_vulnerable_parameters twoCalls ["A.java"]
  have hexamined : (examined twoCalls ["A.java"]).filter (·.record.isVulnerable) =
      [⟨"A.java", taintedSink, 1, taintedRecord⟩] := rfl
  rw [hexamined] at hreports
  generalize (run twoCalls ["A.java"] .never).findings = fs at hreports hcount
  cases hreports with
  | @cons _ f _ _ hf hnil =>
    cases hnil
    exact ⟨rfl, hcount, f, rfl, hf.kind.2 ⟨[], _, rfl, rfl⟩, hf.parameter,
      congrArg Location.line hf.location⟩

end

end Verify

end TaintFlow
