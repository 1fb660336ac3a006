import TaintFlow.Verify

/-!
# The turns of a check

A check goes through units, methods and calls in three loops that hand on one outcome.  What a call
adds to the outcome depends on the engine alone (`checkCall_eq`), so the calls of a method add what
each of them adds (`foldl_checkCall`).

A token that has said stop once says so for ever: it is *spent*.  Each turn of a loop ends the loop
or is taken, depending on this alone.
-/

namespace TaintFlow

open TaintFlow.Code TaintFlow.Flow

namespace Cancellation

/-- The token says stop, now and from now on. -/
def Spent (c : Cancellation) : Prop :=
  c.poll.1 = true

theorem poll_of_spent {c : Cancellation} (h : c.Spent) : c.poll = (true, c) := by
  rcases c with _ | _ | n
  · cases h
  · rfl
  · cases h

theorem poll_of_not_spent {c : Cancellation} (h : ¬ c.Spent) : c.poll = (false, c.poll.2) :=
  Prod.ext (Bool.eq_false_iff.2 h) rfl

theorem not_spent_never : ¬ never.Spent :=
  Bool.false_ne_true

end Cancellation

namespace Verify

section

variable (E : Engine) (unit : String)

/-- The sink that a call is, if it fits an exit point. -/
def sinksOf (call : Expr) : List Sink :=
  match E.catalog.exitPoint? call with
  | none => []
  | some exit =>
    match checkSink E call exit with
    | .error _ => [⟨call, []⟩]
    | .ok records => [⟨call, records⟩]

/-- The finding for the record of a parameter, if it is vulnerable. -/
def findingOf? (v : Vulnerability) (record : Record) : Option Finding :=
  if record.isVulnerable then Finding.ofRecord? v unit record else none

/-- The findings at a call. -/
def findingsOf (call : Expr) : List Finding :=
  match E.catalog.exitPoint? call with
  | none => []
  | some exit =>
    match checkSink E call exit with
    | .error _ => []
    | .ok records => records.filterMap (findingOf? unit E.catalog.vulnerability)

/-- The outcome with more sinks and findings after those it has, every finding counted. -/
def Outcome.add (o : Outcome) (sinks : List Sink) (findings : List Finding) : Outcome :=
  { o with
    sinks := o.sinks ++ sinks
    findings := o.findings ++ findings
    reported := o.reported + findings.length }

theorem report_eq (v : Vulnerability) (o : Outcome) (record : Record) :
    report v unit o record = o.add [] (findingOf? unit v record).toList := by
  unfold report findingOf? Outcome.add
  split
  · cases Finding.ofRecord? v unit record <;> simp
  · simp

theorem foldl_report (v : Vulnerability) (records : List Record) (o : Outcome) :
    records.foldl (report v unit) o = o.add [] (records.filterMap (findingOf? unit v)) := by
  induction records generalizing o with
  | nil => simp [Outcome.add]
  | cons record records ih =>
    rw [List.foldl_cons, ih, report_eq, List.filterMap_cons]
    cases findingOf? unit v record <;> simp [Outcome.add, Nat.add_assoc, Nat.add_comm]

theorem checkCall_eq (o : Outcome) (call : Expr) :
    checkCall E unit o call = o.add (sinksOf E call) (findingsOf E unit call) := by
  unfold checkCall sinksOf findingsOf
  cases E.catalog.exitPoint? call with
  | none => simp [Outcome.add]
  | some exit =>
    simp only
    cases checkSink E call exit with
    | error fault => simp [Outcome.add]
    | ok records =>
      simp only [foldl_report]
      simp [Outcome.add]

theorem foldl_checkCall (calls : List Expr) (o : Outcome) :
    calls.foldl (checkCall E unit) o =
      o.add (calls.flatMap (sinksOf E)) (calls.flatMap (findingsOf E unit)) := by
  induction calls generalizing o with
  | nil => simp [Outcome.add]
  | cons call calls ih =>
    rw [List.foldl_cons, ih, checkCall_eq]
    simp [Outcome.add, Nat.add_assoc]

/-! ### Turns -/

theorem checkMethods_of_spent {o : Outcome} (h : o.cancellation.Spent) (ms : List Method) :
    checkMethods E unit ms o = o := by
  cases ms with
  | nil => rfl
  | cons m ms =>
    rw [checkMethods, Cancellation.poll_of_spent h]
    rfl

theorem checkMethods_of_not_spent {o : Outcome} (h : ¬ o.cancellation.Spent) (m : Method)
    (ms : List Method) :
    checkMethods E unit (m :: ms) o =
      checkMethods E unit ms ((E.graph.calls unit m.signature).foldl (checkCall E unit)
        { o with cancellation := o.cancellation.poll.2 }) := by
  rw [checkMethods, Cancellation.poll_of_not_spent h]
  rfl

theorem checkUnits_of_spent {o : Outcome} (h : o.cancellation.Spent) (units : List String) :
    checkUnits E units o = o := by
  cases units with
  | nil => rfl
  | cons unit units =>
    rw [checkUnits, Cancellation.poll_of_spent h]
    rfl

theorem checkUnits_of_not_spent {o : Outcome} (h : ¬ o.cancellation.Spent) (units : List String) :
    checkUnits E (unit :: units) o =
      checkUnits E units (checkMethods E unit (E.graph.methods unit)
        { o with cancellation := o.cancellation.poll.2 }) := by
  rw [checkUnits, Cancellation.poll_of_not_spent h]
  rfl

/-! ### Findings only come in addition -/

theorem findings_prefix_checkMethods (ms : List Method) (o : Outcome) :
    o.findings <+: (checkMethods E unit ms o).findings := by
  induction ms generalizing o with
  | nil => exact List.prefix_rfl
  | cons m ms ih =>
    by_cases h : o.cancellation.Spent
    · simp only [checkMethods_of_spent E unit h, List.prefix_rfl]
    · rw [checkMethods_of_not_spent E unit h]
      refine List.IsPrefix.trans ?_ (ih _)
      rw [foldl_checkCall]
      exact List.prefix_append _ _

theorem findings_prefix_checkUnits (units : List String) (o : Outcome) :
    o.findings <+: (checkUnits E units o).findings := by
  induction units generalizing o with
  | nil => exact List.prefix_rfl
  | cons unit units ih =>
    by_cases h : o.cancellation.Spent
    · simp only [checkUnits_of_spent E h, List.prefix_rfl]
    · rw [checkUnits_of_not_spent E unit h]
      refine List.IsPrefix.trans ?_ (ih _)
      exact findings_prefix_checkMethods E unit (E.graph.methods unit)
        { o with cancellation := o.cancellation.poll.2 }

end

end Verify

end TaintFlow
