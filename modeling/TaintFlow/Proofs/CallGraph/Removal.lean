import TaintFlow.Proofs.CallGraph.Invokers
import Mathlib.Data.List.Find
import Mathlib.Data.List.Induction

/-!
# What removing a unit takes away

The methods and calls of a unit are kept with the unit, and its variables in a list beside it.  A
unit becomes known by its methods and calls, but not by its variables, and only a known unit is
removed.  Besides, a variable has one value, whichever unit gave it.  So removing a unit is right
for methods and calls, and for variables with two exceptions: those of a unit that is known by
nothing else stay, and a variable to which two units gave values goes with the first one that goes.

* `apply_bindings`, `apply_unitBindings` : what a change does to variables is to drop a unit, and
  then to record values.
* `mem_unitBindings_build` : the variables listed with a unit are those that it gave values since it
  was last dropped.
* `get?_removeUnit_build` : what a removal does to variables, told from the history.
* `removal_leaves_other_units` : what is left after a unit was removed or started afresh, for every
  history of changes.
* `removal_misses_variables` : the two exceptions.
-/

namespace TaintFlow

open TaintFlow.Code TaintFlow.Types

namespace CallGraph

/-! ### Histories of variables -/

/-- A value that a unit gave to a variable. -/
structure Recording where
  unit : String
  binding : Binding
  value : Expr

/-- The values that a change records, in order. -/
def Change.recordings : Change → List Recording
  | addBinding unit binding value => [⟨unit, binding, value⟩]
  | replaceUnit source _ =>
    source.bindings.entries.map fun entry => ⟨source.path, entry.1, entry.2⟩
  | _ => []

/-- The unit that a change removes or starts afresh, before it records anything. -/
def Change.dropped? : Change → Option String
  | addUnit unit => some unit
  | removeUnit unit => some unit
  | replaceUnit source _ => some source.path
  | _ => none

/-- All values that were ever recorded, in order. -/
def recordings (changes : List Change) : List Recording :=
  changes.flatMap Change.recordings

/-- A graph with the recordings in force, after one more change: those of a known unit that the
change drops are no longer in force. -/
def recordChange (g : CallGraph × List Recording) (c : Change) : CallGraph × List Recording :=
  (c.apply g.1,
    g.2.filter (fun r => ¬(some r.unit = c.dropped? ∧ r.unit ∈ g.1.units.keys)) ++ c.recordings)

/-- The recordings in force: those of units that were not dropped since while they were known. -/
def standing (changes : List Change) : List Recording :=
  (changes.foldl recordChange (empty, [])).2

/-- The last of the recordings of a variable. -/
def latest? (rs : List Recording) (b : Binding) : Option Recording :=
  rs.reverse.find? (·.binding = b)

/-- Only one unit ever gave a value to the variable. -/
def OwnedBy (changes : List Change) (unit : String) (b : Binding) : Prop :=
  ∀ r ∈ recordings changes, r.binding = b → r.unit = unit

/-- The graph without the unit, if one is named. -/
def withoutUnit (g : CallGraph) : Option String → CallGraph
  | none => g
  | some unit => g.removeUnit unit

/-! ### What a change does to variables -/

section

variable (g : CallGraph) (c : Change)

theorem apply_bindings :
    (c.apply g).bindings = c.recordings.foldl (fun t r => t.insert r.binding r.value)
      (g.withoutUnit c.dropped?).bindings := by
  cases c with
  | addCall unit caller call _ => exact addCall_bindings g unit caller call
  | replaceUnit source _ =>
    show (g.replaceUnit source).bindings = _
    rw [replaceUnit_bindings, Change.recordings, List.foldl_map]
    rfl
  | _ => rfl

theorem apply_unitBindings :
    (c.apply g).unitBindings = c.recordings.foldl (fun t r => t.update r.unit [] (addOnce r.binding))
      (g.withoutUnit c.dropped?).unitBindings := by
  cases c with
  | addCall unit caller call _ => exact addCall_unitBindings g unit caller call
  | replaceUnit source _ =>
    show (g.replaceUnit source).unitBindings = _
    rw [replaceUnit_unitBindings, Change.recordings, List.foldl_map]
    rfl
  | _ => rfl

end

theorem mem_foldl_update {unit : String} {b : Binding} (rs : List Recording)
    (t : Table String (List Binding)) :
    b ∈ (rs.foldl (fun t r => t.update r.unit [] (addOnce r.binding)) t).getD unit [] ↔
      b ∈ t.getD unit [] ∨ ∃ r ∈ rs, r.unit = unit ∧ r.binding = b := by
  induction rs generalizing t with
  | nil => simp
  | cons r rs ih =>
    rw [List.foldl_cons, ih, Table.getD_update]
    by_cases hunit : unit = r.unit
    · subst hunit
      simp only [if_true, mem_addOnce, List.mem_cons, exists_eq_or_imp, true_and]
      grind
    · simp [hunit, Ne.symm hunit]

/-- Of the values recorded for a variable the last one stays. -/
theorem get?_foldl_record {b : Binding} (rs : List Recording) (t : Table Binding Expr) :
    (rs.foldl (fun t r => t.insert r.binding r.value) t).get? b =
      ((latest? rs b).map (·.value)).or (t.get? b) := by
  induction rs generalizing t with
  | nil => rfl
  | cons r rs ih =>
    have hlatest : latest? (r :: rs) b = (latest? rs b).or (if r.binding = b then some r else none) := by
      simp [latest?, List.find?_append, List.find?_cons]
      split <;> simp_all
    rw [List.foldl_cons, ih, Table.get?_insert, hlatest]
    cases latest? rs b with
    | some r' => rfl
    | none =>
      by_cases hb : r.binding = b
      · simp [hb]
      · simp [hb, Ne.symm hb]

/-- **Removing a unit** takes away the values of the variables that are listed with it, if it is
known. -/
theorem get?_bindings_removeUnit (g : CallGraph) (unit : String) (b : Binding) :
    (g.removeUnit unit).bindings.get? b =
      if unit ∈ g.units.keys ∧ b ∈ g.unitBindings.getD unit [] then none else g.bindings.get? b := by
  by_cases hunit : unit ∈ g.units.keys
  · rw [removeUnit_of_contains hunit, Table.get?_foldl_erase]
    simp [hunit]
  · rw [removeUnit_of_not_contains hunit]
    simp [hunit]

theorem getD_unitBindings_removeUnit (g : CallGraph) (unit other : String) :
    (g.removeUnit unit).unitBindings.getD other [] =
      if unit ∈ g.units.keys ∧ other = unit then [] else g.unitBindings.getD other [] := by
  by_cases hunit : unit ∈ g.units.keys
  · rw [removeUnit_of_contains hunit, Table.getD_erase]
    simp [hunit]
  · rw [removeUnit_of_not_contains hunit]
    simp [hunit]

/-! ### What is found was recorded -/

theorem build_append (changes : List Change) (c : Change) :
    build (changes ++ [c]) = c.apply (build changes) := by
  simp [build]

theorem recordings_append (changes : List Change) (c : Change) :
    recordings (changes ++ [c]) = recordings changes ++ c.recordings := by
  simp [recordings]

theorem foldl_recordChange_fst (changes : List Change) :
    (changes.foldl recordChange (empty, [])).1 = build changes := by
  induction changes using List.reverseRecOn with
  | nil => rfl
  | append_singleton changes c ih =>
    rw [List.foldl_append, build_append, ← ih]
    rfl

theorem standing_append (changes : List Change) (c : Change) :
    standing (changes ++ [c]) =
      (standing changes).filter
        (fun r => ¬(some r.unit = c.dropped? ∧ r.unit ∈ (build changes).units.keys)) ++
      c.recordings := by
  rw [← foldl_recordChange_fst, standing, List.foldl_append]
  rfl

theorem mem_standing_append {changes : List Change} {c : Change} {r : Recording} :
    r ∈ standing (changes ++ [c]) ↔
      (r ∈ standing changes ∧ ¬(some r.unit = c.dropped? ∧ r.unit ∈ (build changes).units.keys)) ∨
      r ∈ c.recordings := by
  rw [standing_append, List.mem_append, List.mem_filter, decide_eq_true_iff]

theorem mem_recordings_of_mem_standing {changes : List Change} {r : Recording}
    (h : r ∈ standing changes) : r ∈ recordings changes := by
  induction changes using List.reverseRecOn with
  | nil => exact h
  | append_singleton changes c ih =>
    rw [recordings_append]
    rcases mem_standing_append.1 h with ⟨h, -⟩ | h
    · exact List.mem_append_left _ (ih h)
    · exact List.mem_append_right _ h

theorem mem_of_latest? {rs : List Recording} {b : Binding} {r : Recording}
    (h : latest? rs b = some r) : r ∈ rs ∧ r.binding = b := by
  refine ⟨List.mem_reverse.1 (List.mem_of_find?_eq_some h), ?_⟩
  simpa using List.find?_some h

theorem latest?_append (rs rs' : List Recording) (b : Binding) :
    latest? (rs ++ rs') b = (latest? rs' b).or (latest? rs b) := by
  rw [latest?, List.reverse_append, List.find?_append]
  rfl

/-- Recordings of other variables do not count. -/
theorem latest?_filter {rs : List Recording} {b : Binding} {p : Recording → Bool}
    (h : ∀ r ∈ rs, r.binding = b → p r = true) : latest? (rs.filter p) b = latest? rs b := by
  rw [latest?, ← List.filter_reverse, List.find?_filter]
  refine List.find?_congr fun r hr => ?_
  by_cases hb : r.binding = b
  · simp [hb, h r (List.mem_reverse.1 hr) hb]
  · simp [hb]

/-- **The variables listed with a unit** are those that it gave values in force. -/
theorem mem_unitBindings_build (changes : List Change) (unit : String) (b : Binding) :
    b ∈ (build changes).unitBindings.getD unit [] ↔
      ∃ r ∈ standing changes, r.unit = unit ∧ r.binding = b := by
  induction changes using List.reverseRecOn with
  | nil =>
    constructor
    · intro h
      cases h
    · rintro ⟨r, h, -⟩
      cases h
  | append_singleton changes c ih =>
    have hdropped : b ∈ ((build changes).withoutUnit c.dropped?).unitBindings.getD unit [] ↔
        b ∈ (build changes).unitBindings.getD unit [] ∧
          ¬(some unit = c.dropped? ∧ unit ∈ (build changes).units.keys) := by
      cases hc : c.dropped? with
      | none => simp [withoutUnit]
      | some other =>
        rw [withoutUnit, getD_unitBindings_removeUnit]
        by_cases hunit : unit = other
        · subst hunit
          by_cases hknown : unit ∈ (build changes).units.keys <;> simp [hknown]
        · simp [hunit]
    rw [build_append, apply_unitBindings, mem_foldl_update, hdropped, ih]
    simp only [mem_standing_append]
    constructor
    · rintro (⟨⟨r, hr, rfl, rfl⟩, hstays⟩ | ⟨r, hr, rfl, rfl⟩)
      · exact ⟨r, .inl ⟨hr, hstays⟩, rfl, rfl⟩
      · exact ⟨r, .inr hr, rfl, rfl⟩
    · rintro ⟨r, ⟨hr, hstays⟩ | hr, rfl, rfl⟩
      · exact .inl ⟨⟨r, hr, rfl, rfl⟩, hstays⟩
      · exact .inr ⟨r, hr, rfl, rfl⟩

/-- **What a removal does to variables**, told from the history: those are lost to which a known
unit gave values in force, and the others are found as before. -/
theorem get?_removeUnit_build (changes : List Change) (unit : String) (b : Binding) :
    ((build changes).removeUnit unit).bindings.get? b =
      if unit ∈ (build changes).units.keys ∧
          ∃ r ∈ standing changes, r.unit = unit ∧ r.binding = b then none
      else (build changes).bindings.get? b := by
  rw [get?_bindings_removeUnit]
  exact if_congr (and_congr_right' (mem_unitBindings_build changes unit b)) rfl rfl

/-- Any variable with a value was given it by a unit in force. -/
theorem exists_standing_of_get? {changes : List Change} {b : Binding} {v : Expr}
    (h : (build changes).bindings.get? b = some v) : ∃ r ∈ standing changes, r.binding = b := by
  induction changes using List.reverseRecOn generalizing v with
  | nil => cases h
  | append_singleton changes c ih =>
    rw [build_append, apply_bindings, get?_foldl_record] at h
    cases hlatest : latest? c.recordings b with
    | some r =>
      obtain ⟨hr, hb⟩ := mem_of_latest? hlatest
      exact ⟨r, mem_standing_append.2 (.inr hr), hb⟩
    | none =>
      rw [hlatest] at h
      change ((build changes).withoutUnit c.dropped?).bindings.get? b = some v at h
      cases hc : c.dropped? with
      | none =>
        rw [hc] at h
        obtain ⟨r, hr, hb⟩ := ih h
        exact ⟨r, mem_standing_append.2 (.inl ⟨hr, by simp [hc]⟩), hb⟩
      | some unit =>
        rw [hc, withoutUnit, get?_removeUnit_build] at h
        split at h
        · cases h
        · rename_i hstays
          obtain ⟨r, hr, rfl⟩ := ih h
          refine ⟨r, mem_standing_append.2 (.inl ⟨hr, ?_⟩), rfl⟩
          rw [hc]
          rintro ⟨hunit, hknown⟩
          cases hunit
          exact hstays ⟨hknown, r, hr, rfl, rfl⟩

/-- The last value in force is found, if no other unit ever gave the variable one. -/
theorem get?_build_of_owned {changes : List Change} {b : Binding} {r : Recording}
    (hr : latest? (standing changes) b = some r) (howned : OwnedBy changes r.unit b) :
    (build changes).bindings.get? b = some r.value := by
  induction changes using List.reverseRecOn with
  | nil => cases hr
  | append_singleton changes c ih =>
    rw [standing_append, latest?_append] at hr
    rw [build_append, apply_bindings, get?_foldl_record]
    cases hlatest : latest? c.recordings b with
    | some r' =>
      rw [hlatest] at hr
      cases hr
      rfl
    | none =>
      -- the value was in force before, so its unit is not one that the change takes away
      rw [hlatest, Option.none_or] at hr
      have hstays := (List.mem_filter.1 (mem_of_latest? hr).1).2
      rw [decide_eq_true_iff] at hstays
      have hunit : ∀ r' ∈ standing changes, r'.binding = b → r'.unit = r.unit := by
        intro r' hr' hb
        refine howned r' ?_ hb
        rw [recordings_append]
        exact List.mem_append_left _ (mem_recordings_of_mem_standing hr')
      have hsame : latest? (standing changes) b = some r := by
        rw [← hr, latest?_filter]
        intro r' hr' hb
        rw [hunit r' hr' hb]
        exact decide_eq_true hstays
      have hfound := ih hsame fun r' hr' =>
        howned r' (recordings_append changes c ▸ List.mem_append_left _ hr')
      show ((build changes).withoutUnit c.dropped?).bindings.get? b = some r.value
      cases hc : c.dropped? with
      | none => exact hfound
      | some unit =>
        rw [withoutUnit, get?_removeUnit_build, if_neg, hfound]
        rintro ⟨hknown, r', hr', rfl, hb⟩
        rw [hunit r' hr' hb] at hc hknown
        exact hstays ⟨hc.symm, hknown⟩

/-! ### Methods and calls -/

/-- The calls of a method as they stand in the index, with their units and callers. -/
def callsOf (g : CallGraph) (s : Signature) : List IndexedCall :=
  (g.index.getD (s.name, s.arity) []).filter fun c => signatureFits s c.site

/-- A call in the index stands in a known unit. -/
theorem Consistent.mem_keys_of_mem_index {g : CallGraph} (hg : g.Consistent) {k : Key}
    {c : IndexedCall} (hc : c ∈ g.index.getD k []) : c.unit ∈ g.units.keys := by
  have hmem := (hg.agrees k).subset (List.mem_map_of_mem hc)
  obtain ⟨p, hp, ho⟩ := List.mem_flatMap.1 (List.mem_filter.1 hmem).1
  have hunit : c.unit = p.1 := unit_of_mem_occurrencesOf ho
  rw [hunit]
  exact List.mem_map_of_mem hp

theorem Consistent.callsOf_removeUnit {g : CallGraph} (hg : g.Consistent) (unit : String)
    (s : Signature) : (g.removeUnit unit).callsOf s = (g.callsOf s).filter (·.unit ≠ unit) := by
  by_cases hunit : unit ∈ g.units.keys
  · rw [callsOf, getD_removeUnit_index hg.tidy.listed hunit, List.filter_comm]
    rfl
  · rw [removeUnit_of_not_contains hunit]
    refine (List.filter_eq_self.2 fun c hc => decide_eq_true ?_).symm
    rintro rfl
    exact hunit (hg.mem_keys_of_mem_index (List.mem_filter.1 hc).1)

/-- The methods of a unit of the graph, with their calls. -/
def entriesOf (g : CallGraph) (unit : String) : Table Signature Entry :=
  g.units.getD unit {}

theorem entriesOf_removeUnit (g : CallGraph) (unit other : String) :
    (g.removeUnit unit).entriesOf other = if other = unit then {} else g.entriesOf other := by
  rw [entriesOf, removeUnit_units, Table.getD_erase]
  rfl

theorem entriesOf_addUnit (g : CallGraph) (unit other : String) :
    (g.addUnit unit).entriesOf other = if other = unit then {} else g.entriesOf other := by
  have h : (g.addUnit unit).entriesOf other =
      ((g.removeUnit unit).units.insert unit {}).getD other {} := rfl
  rw [h, Table.getD_insert]
  by_cases hother : other = unit
  · rw [if_pos hother, if_pos hother]
  · rw [if_neg hother]
    exact entriesOf_removeUnit g unit other

/-! ### What is left -/

/-- The variable that an expression names, directly or as the last part of a qualified name. -/
def named? : Expr → Option Binding
  | .name n => n.binding
  | .qualified _ _ (some n) => n.binding
  | _ => none

theorem valueOfExpr_eq (g : CallGraph) (e : Expr) :
    g.valueOfExpr e = (named? e).bind g.bindings.get? := by
  cases e with
  | qualified o q m => cases m <;> rfl
  | _ => rfl

/-- What a graph is like after the changes and after a unit was removed from it. -/
structure Leaves (changes : List Change) (unit : String) (g : CallGraph) : Prop where
  /-- No value is found of a variable that only the unit gave values, if the unit was known. -/
  own : (build changes).contains unit = true → ∀ e b, named? e = some b →
    OwnedBy changes unit b → g.valueOfExpr e = none
  /-- The last value in force that another unit gave to a variable is found, if no other unit ever
  gave it one. -/
  others : ∀ e b r, named? e = some b → latest? (standing changes) b = some r →
    r.unit ≠ unit → OwnedBy changes r.unit b → g.valueOfExpr e = some r.value
  /-- A variable to which the unit gave a value in force is lost, if the unit was known, whichever
  unit gave it a value last. -/
  shared : (build changes).contains unit = true → ∀ e r, named? e = some r.binding →
    r ∈ standing changes → r.unit = unit → g.valueOfExpr e = none
  /-- All other variables are found as before. -/
  rest : ∀ e, ((build changes).contains unit = true → ∀ r ∈ standing changes,
    r.unit = unit → named? e ≠ some r.binding) → g.valueOfExpr e = (build changes).valueOfExpr e
  /-- The methods of other units are as before, and so are their calls. -/
  methods : ∀ other ≠ unit, g.methods other = (build changes).methods other ∧
    ∀ s, g.calls other s = (build changes).calls other s
  /-- Nothing is left of the methods of the unit and of their calls. -/
  ownMethods : g.methods unit = [] ∧ ∀ s, g.calls unit s = []
  /-- The calls of a method that stand in other units are found as before, and no others. -/
  callers : ∀ s, g.callsOf s = ((build changes).callsOf s).filter (·.unit ≠ unit) ∧
    g.invokers s = (g.callsOf s).map fun c => (c.caller, c.call)

/-- The methods of a unit and their calls are read off its entries. -/
theorem methods_calls_congr {g g' : CallGraph} {unit unit' : String}
    (h : g.entriesOf unit = g'.entriesOf unit') :
    g.methods unit = g'.methods unit' ∧ ∀ s, g.calls unit s = g'.calls unit' s := by
  unfold entriesOf at h
  constructor
  · rw [methods, methods, h]
  · intro s
    rw [calls, calls, h]

/-- What a removal leaves, told from the variables, the methods and the index of a graph. -/
theorem leaves_of_tables {changes : List Change} {unit : String} {g : CallGraph}
    (hbindings : g.bindings = ((build changes).removeUnit unit).bindings)
    (hentries : ∀ other, g.entriesOf other =
      if other = unit then {} else (build changes).entriesOf other)
    (hindex : g.index = ((build changes).removeUnit unit).index) : Leaves changes unit g := by
  have hvalue : ∀ e b, named? e = some b → g.valueOfExpr e =
      if unit ∈ (build changes).units.keys ∧
          ∃ r ∈ standing changes, r.unit = unit ∧ r.binding = b then none
      else (build changes).bindings.get? b := by
    intro e b he
    rw [valueOfExpr_eq, he, Option.bind_some, hbindings, get?_removeUnit_build]
  constructor
  case own =>
    intro hknown e b he hown
    rw [hvalue e b he]
    split
    · rfl
    · rename_i hstays
      -- a value that is found was given by a unit in force, and there is only this one
      cases hfound : (build changes).bindings.get? b with
      | none => rfl
      | some v =>
        obtain ⟨r, hr, hb⟩ := exists_standing_of_get? hfound
        have hunit := hown r (mem_recordings_of_mem_standing hr) hb
        exact absurd ⟨Table.contains_iff.1 hknown, r, hr, hunit, hb⟩ hstays
  case others =>
    intro e b r he hr hunit hown
    rw [hvalue e b he, if_neg, get?_build_of_owned hr hown]
    rintro ⟨-, r', hr', rfl, hb⟩
    exact hunit (hown r' (mem_recordings_of_mem_standing hr') hb).symm
  case shared =>
    intro hknown e r he hr hunit
    rw [hvalue e r.binding he, if_pos ⟨Table.contains_iff.1 hknown, r, hr, hunit, rfl⟩]
  case rest =>
    intro e hnone
    cases he : named? e with
    | none => rw [valueOfExpr_eq, valueOfExpr_eq, he, Option.bind_none, Option.bind_none]
    | some b =>
      rw [hvalue e b he, if_neg, valueOfExpr_eq, he, Option.bind_some]
      rintro ⟨hknown, r, hr, hunit, rfl⟩
      exact hnone (Table.contains_iff.2 hknown) r hr hunit he
  case methods =>
    intro other hother
    exact methods_calls_congr ((hentries other).trans (if_neg hother))
  case ownMethods =>
    have h : g.entriesOf unit = empty.entriesOf unit := (hentries unit).trans (if_pos rfl)
    exact methods_calls_congr h
  case callers =>
    intro s
    have hcalls : g.callsOf s = ((build changes).removeUnit unit).callsOf s := by
      rw [callsOf, callsOf, hindex]
    exact ⟨by rw [hcalls, (consistent_build changes).callsOf_removeUnit], rfl⟩

/-- **Removing a unit, or starting it afresh, leaves the other units as they are**, after any
changes.  Of the unit itself nothing is left, except that the values of its variables stay if the
unit was not known; and the values that other units gave are still found, except those of variables
that the unit gave values as well. -/
theorem removal_leaves_other_units (changes : List Change) (unit : String) :
    Leaves changes unit ((build changes).removeUnit unit) ∧
      Leaves changes unit ((build changes).addUnit unit) :=
  ⟨leaves_of_tables rfl (entriesOf_removeUnit _ unit) rfl,
    leaves_of_tables rfl (entriesOf_addUnit _ unit) rfl⟩

/-- A local variable. -/
def variableNamed (name : String) : Binding where
  unit := "A.java"
  name := name
  kind := .localVar

/-- The name of the variable. -/
def nameOf (name : String) : Expr :=
  .name ⟨⟨name, "A.java", 2, 0⟩, name, some (variableNamed name)⟩

/-- A value of a variable. -/
def textValue (value : String) : Expr :=
  .literal ⟨value, "A.java", 1, 0⟩ .stringLiteral

/-- A unit with a variable, beside another one. -/
def twoVariables : List Change :=
  [.addUnit "A.java", .addBinding "A.java" (variableNamed "path") (textValue "/tmp"),
    .addBinding "B.java" (variableNamed "mode") (textValue "r")]

theorem removal_leaves_other_variable :
    ((build twoVariables).removeUnit "A.java").valueOfExpr (nameOf "path") = none ∧
      ((build twoVariables).removeUnit "A.java").valueOfExpr (nameOf "mode") = some (textValue "r") := by
  have h := (removal_leaves_other_units twoVariables "A.java").1
  constructor
  · refine h.own rfl (nameOf "path") (variableNamed "path") rfl ?_
    simp [OwnedBy, recordings, twoVariables, Change.recordings, variableNamed]
  · refine h.others (nameOf "mode") (variableNamed "mode")
      ⟨"B.java", variableNamed "mode", textValue "r"⟩ rfl rfl (by decide) ?_
    simp [OwnedBy, recordings, twoVariables, Change.recordings, variableNamed]

/-- **Removal misses variables.**  A unit that only gave a value to a variable is not known, so the
value stays when the unit is removed or started afresh.  And the value that the second of two units
gave goes with the first one. -/
theorem removal_misses_variables :
    let path := variableNamed "path"
    let one := build [.addBinding "A.java" path (textValue "/tmp")]
    let two := build [.addUnit "A.java", .addBinding "A.java" path (textValue "/tmp"),
      .addBinding "B.java" path (textValue "/var")]
    (one.removeUnit "A.java").valueOfExpr (nameOf "path") = some (textValue "/tmp") ∧
      (one.addUnit "A.java").valueOfExpr (nameOf "path") = some (textValue "/tmp") ∧
      (two.removeUnit "A.java").valueOfExpr (nameOf "path") = none :=
  ⟨rfl, rfl, rfl⟩

end CallGraph

end TaintFlow
