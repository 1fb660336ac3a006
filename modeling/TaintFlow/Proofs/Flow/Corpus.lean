import TaintFlow.Proofs.CallGraph.Invokers
import TaintFlow.Proofs.Flow.Chain
import TaintFlow.Proofs.Java.Unit

/-!
# Traces over units that were read

Call graphs of units that were read from parse trees are grounded: whatever a trace can come to in
them is grounded in some unit.  So a trace never comes to an expression without a rule, and at a
parameter it finds an argument in every call of the method.

* `Grounded.replaceUnit` : replacing a unit by a grounded one keeps a graph grounded.
* `exists_argument` : a call of a method has an argument at every place of its list.
* `checkSink_sources_succeeds` : checking a sink among such units always gives records.
-/

namespace TaintFlow

open TaintFlow.Code TaintFlow.Types TaintFlow.Catalog TaintFlow.Flow

namespace CallGraph

/-! ### Grounded graphs -/

/-- What a method returns and what it calls with is grounded in a unit. -/
structure Entry.Grounded (path : String) (entry : Entry) : Prop where
  returns : ∀ e ∈ entry.method.returns, e.Grounded path
  calls : ∀ e ∈ entry.calls, e.GroundedCall path

/-- All that a trace can come to in the graph is grounded. -/
structure Grounded (g : CallGraph) : Prop where
  consistent : g.Consistent
  entries : ∀ methods ∈ g.units.values, ∀ entry ∈ methods.values, ∃ path, entry.Grounded path
  values : ∀ v ∈ g.bindings.values, ∃ path, v.Grounded path

theorem grounded_empty : empty.Grounded :=
  ⟨consistent_empty, nofun, nofun⟩

theorem grounded_declare {path : String} {methods : Table Signature Entry}
    (h : ∀ entry ∈ methods.values, entry.Grounded path) {m : Method}
    (hm : Entry.Grounded path ⟨m, []⟩) : ∀ entry ∈ (declare m methods).values, entry.Grounded path := by
  unfold declare
  split
  · exact h
  · exact Table.forall_values_insert h _ hm

theorem grounded_record {path : String} {methods : Table Signature Entry}
    (h : ∀ entry ∈ methods.values, entry.Grounded path) {m : Method}
    (hm : Entry.Grounded path ⟨m, []⟩) {call : Expr} (hcall : call.GroundedCall path) :
    ∀ entry ∈ (record m call methods).values, entry.Grounded path := by
  refine Table.forall_values_update (grounded_declare h hm) _ hm fun entry hentry => ?_
  refine ⟨hentry.returns, fun e he => ?_⟩
  rcases List.mem_append.1 he with he | he
  · exact hentry.calls e he
  · rwa [List.mem_singleton.1 he]

theorem grounded_methodTable {u : SourceUnit} (hu : u.Grounded) :
    ∀ entry ∈ (methodTable u).values, entry.Grounded u.path := by
  unfold methodTable
  refine List.foldlRecOn (motive := fun t : Table Signature Entry =>
    ∀ entry ∈ t.values, entry.Grounded u.path) _ _ nofun fun methods hmethods m hm => ?_
  have hnew : Entry.Grounded u.path ⟨m, []⟩ := ⟨hu.returns m hm, nofun⟩
  refine List.foldlRecOn (motive := fun t : Table Signature Entry =>
    ∀ entry ∈ t.values, entry.Grounded u.path) _ _ (grounded_declare hmethods hnew)
    fun methods hmethods call hcall => ?_
  obtain ⟨es, hes, hcall⟩ := Table.exists_mem_values_of_mem_getD hcall
  exact grounded_record hmethods hnew (hu.calls es hes call hcall)

theorem callsOnly_of_grounded {u : SourceUnit} (hu : u.Grounded) : CallsOnly u :=
  fun es hes e he => (hu.calls es hes e he).isCall

/-- **Replacing a unit by a grounded one** keeps the graph grounded. -/
theorem Grounded.replaceUnit {g : CallGraph} (hg : g.Grounded) {u : SourceUnit}
    (hu : u.Grounded) : (g.replaceUnit u).Grounded where
  consistent := hg.consistent.replaceUnit (callsOnly_of_grounded hu)
  entries := by
    rw [replaceUnit_units, removeUnit_units]
    refine Table.forall_values_insert (fun methods hmethods => hg.entries methods ?_) _
      fun entry hentry => ⟨u.path, grounded_methodTable hu entry hentry⟩
    exact (List.filter_sublist.map Prod.snd).subset hmethods
  values := by
    -- the values of the unit come to what removing it leaves of the others
    rw [replaceUnit_bindings]
    refine List.foldlRecOn (motive := fun t : Table Binding Expr =>
      ∀ v ∈ t.values, ∃ path, v.Grounded path) _ _ ?_ fun t ht entry hentry => ?_
    · intro v hv
      by_cases hunit : u.path ∈ g.units.keys
      · rw [removeUnit_of_contains hunit] at hv
        obtain ⟨x, hx, rfl⟩ := List.mem_map.1 hv
        rw [Table.foldl_erase] at hx
        exact hg.values x.2 (List.mem_map.2 ⟨x, (List.mem_filter.1 hx).1, rfl⟩)
      · rw [removeUnit_of_not_contains hunit] at hv
        exact hg.values v hv
    · exact Table.forall_values_insert ht _ ⟨u.path, (hu.bindings entry hentry).2⟩

theorem grounded_foldl_replaceUnit {us : List SourceUnit} (hus : ∀ u ∈ us, u.Grounded) :
    (us.foldl CallGraph.replaceUnit empty).Grounded :=
  List.foldlRecOn us CallGraph.replaceUnit grounded_empty fun _ hg u hu => hg.replaceUnit (hus u hu)

/-! ### What is found in a grounded graph -/

section

variable {g : CallGraph} (hg : g.Grounded)

include hg

theorem Grounded.recordedCall {call : Expr} (h : call ∈ g.recordedCalls) :
    ∃ path, call.GroundedCall path := by
  obtain ⟨methods, hmethods, h⟩ := List.mem_flatMap.1 h
  obtain ⟨entry, hentry, h⟩ := List.mem_flatMap.1 h
  obtain ⟨path, hgrounded⟩ := hg.entries methods hmethods entry hentry
  exact ⟨path, hgrounded.calls call h⟩

/-- The calls in the index are the calls of methods. -/
theorem Grounded.mem_recordedCalls {c : IndexedCall} (h : c ∈ g.index.values.flatten) :
    c.call ∈ g.recordedCalls := by
  have hperm := Table.flatten_values_perm hg.consistent.tidy.nodup hg.consistent.agrees
  rw [← map_call_occurrences hg.consistent]
  exact List.mem_map.2 ⟨c.occurrence, hperm.subset (List.mem_map_of_mem h), rfl⟩

/-- Wherever a hop arrives, it arrives at a grounded expression. -/
theorem Grounded.landing {e : Expr} (h : e ∈ g.landings) : ∃ path, e.Grounded path := by
  rcases List.mem_append.1 h with h | h
  · exact hg.values e h
  · rcases List.mem_append.1 h with h | h
    · obtain ⟨c, hc, he⟩ := List.mem_flatMap.1 h
      obtain ⟨path, hcall⟩ := hg.recordedCall (hg.mem_recordedCalls hc)
      exact ⟨path, hcall.arguments e he⟩
    · obtain ⟨methods, hmethods, h⟩ := List.mem_flatMap.1 h
      obtain ⟨entry, hentry, he⟩ := List.mem_flatMap.1 h
      obtain ⟨path, hgrounded⟩ := hg.entries methods hmethods entry hentry
      exact ⟨path, hgrounded.returns e he⟩

end

theorem arity_of_ofExpr? {e : Expr} {site : Site} (h : Site.ofExpr? e = some site) :
    site.arity = e.arguments.length := by
  cases e with
  | creation o type args =>
    cases h
    exact List.length_map _
  | call o method receiver args rt type =>
    cases h
    exact List.length_map _
  | _ => cases h

/-- **Every call of a method** has an argument at every place in the list of the method. -/
theorem exists_argument {g : CallGraph} (hg : g.Consistent) {owner : Signature}
    {invoker : Method × Expr} (h : invoker ∈ g.invokers owner) {index : ℤ} (hindex : 0 ≤ index)
    (hlt : index < owner.arity) : ∃ a, argumentAt invoker.2.arguments index = .ok (some a) := by
  -- the call fits the signature, so it has as many arguments as the method has parameters
  obtain ⟨site, hsite, hfits⟩ := (Option.any_eq_true _ _).1 (calls?_of_mem_invokers hg h)
  have harity := (Prod.mk.inj (key_of_signatureFits hfits)).2
  rw [arity_of_ofExpr? hsite] at harity
  rw [argumentAt_of_nonneg hindex, List.getElem?_eq_getElem (by omega)]
  exact ⟨_, rfl⟩

end CallGraph

namespace Flow

variable {E : Engine} {rule : Rule}

/-- What a trace comes to in a grounded graph is grounded. -/
theorem grounded_of_calls (hE : E.graph.Grounded) {a b : ℤ × Option Expr}
    (ha : ∀ x ∈ a.2, ∃ path, x.Grounded path) (h : Relation.ReflTransGen (Calls E rule) a b) :
    ∀ x ∈ b.2, ∃ path, x.Grounded path := by
  induction h with
  | refl => exact ha
  | tail _ hcall ih =>
    cases hcall with
    | intro h =>
      rw [(turn_eq_move h).2.2.2] at h
      intro x hx
      rcases targets_move h with ⟨-, hp⟩ | ⟨-, hl⟩
      · obtain ⟨path, he⟩ := ih _ rfl
        exact ⟨path, he.of_mem_parts (hp x hx)⟩
      · exact hE.landing (hl x hx)

/-- At a grounded parameter, every call of its method has an argument. -/
theorem exists_argument_of_grounded (hE : E.graph.Consistent) {n : Name} {path : String}
    (hn : n.Grounded path) {owner : Signature} {index : ℤ}
    (hparameter : n.parameter? = some (owner, index)) {invoker : Method × Expr}
    (hinvoker : invoker ∈ E.graph.invokers owner) :
    ∃ a, argumentAt invoker.2.arguments index = .ok (some a) := by
  obtain ⟨b, hb, hkind, howner, rfl⟩ := Name.parameter?_eq_some_iff.1 hparameter
  obtain ⟨m, hm, hindex, hlt⟩ := (hn b hb).place hkind
  obtain rfl : m = owner := Option.some.inj (hm.symm.trans howner)
  exact CallGraph.exists_argument hE hinvoker hindex hlt

/-- **Checking a sink among units that were read never fails.**  It gives records, and wherever one
of its traces comes to a parameter, each call of the method has an argument at the parameter's
place. -/
theorem checkSink_sources_succeeds (E : Engine) (us : List SourceUnit)
    (hus : ∀ u ∈ us, ∃ directive path text tree hasErrors,
      Java.unitOf directive path text tree hasErrors = .ok u)
    (hgraph : E.graph = us.foldl CallGraph.replaceUnit .empty) (call : Expr)
    (hcall : call ∈ E.graph.recordedCalls) (exit : ExitPoint) :
    (∃ records, checkSink E call exit = .ok records) ∧
      ∀ rule (place : ℕ) depth n, Relation.ReflTransGen (Calls E rule)
          (0, call.arguments[place]?) (depth, some (.name n)) →
        ∀ owner index, n.parameter? = some (owner, index) →
          ∀ invoker ∈ E.graph.invokers owner,
            ∃ a, argumentAt invoker.2.arguments index = .ok (some a) := by
  have hgrounded : E.graph.Grounded := by
    rw [hgraph]
    refine CallGraph.grounded_foldl_replaceUnit fun u hu => ?_
    obtain ⟨directive, path, text, tree, hasErrors, hread⟩ := hus u hu
    exact (Java.grounded_unitOf hread).2
  obtain ⟨path, harguments⟩ := hgrounded.recordedCall hcall
  constructor
  · have hlandings : ∀ x ∈ E.graph.landings, x.Regular := fun x hx =>
      (hgrounded.landing hx).elim fun _ h => h.regular
    obtain ⟨records, hrecords, -⟩ := traceArguments_judges hlandings
      (fun x hx => (harguments.arguments x hx).regular) exit.rules 0
    exact ⟨records, hrecords⟩
  · intro rule place depth n hreach owner index hparameter invoker hinvoker
    have hstart : ∀ x ∈ call.arguments[place]?, ∃ path, x.Grounded path := fun x hx =>
      ⟨path, harguments.arguments x (List.mem_of_getElem? hx)⟩
    obtain ⟨path, hn⟩ := grounded_of_calls hgrounded hstart hreach _ rfl
    exact exists_argument_of_grounded hgrounded.consistent hn.name hparameter hinvoker

/-- A unit in which the argument of one call is a parameter of the method around it, and another
method calls that one. -/
def passedOn : Except Java.Fault SourceUnit :=
  Java.unitOfText "trusted" "A.java"
    "class A\x7bvoid f(T x)\x7bout(x);\x7dvoid g()\x7bf(in());\x7d\x7d"

/-- The engine on that unit. -/
def passedOnEngine : Engine where
  graph := passedOn.toOption.toList.foldl CallGraph.replaceUnit .empty
  catalog := { vulnerability := .commandInjection, entryPoints := [⟨"A", "in", []⟩] }

/-- The signature of the method with the parameter. -/
def passedOnOwner : Signature := ⟨"A", "f", ["T"]⟩

/-- Whether the only argument of a call is the parameter. -/
def passesOn (call : Expr) : Bool :=
  match call.arguments with
  | [.name n] => n.parameter? = some (passedOnOwner, 0)
  | _ => false

/-- From the sink the trace comes to the parameter, and the call of its method has an argument. -/
theorem checkSink_passedOn :
    ∃ call ∈ passedOnEngine.graph.recordedCalls,
      (∃ records, checkSink passedOnEngine call ⟨⟨"A", "out", ["T"]⟩, [{}]⟩ = .ok records) ∧
      ∃ n invoker a, call.arguments = [.name n] ∧ n.parameter? = some (passedOnOwner, 0) ∧
        invoker ∈ passedOnEngine.graph.invokers passedOnOwner ∧
        argumentAt invoker.2.arguments 0 = .ok (some a) := by
  have hsink : passedOnEngine.graph.recordedCalls.any passesOn = true := by decide +kernel
  have hinvokers : (passedOnEngine.graph.invokers passedOnOwner).length = 1 := by decide +kernel
  have hread : ∀ u ∈ passedOn.toOption.toList, ∃ directive path text tree hasErrors,
      Java.unitOf directive path text tree hasErrors = .ok u := by
    intro u hu
    cases hok : passedOn with
    | error f =>
      rw [hok] at hu
      cases hu
    | ok v =>
      rw [hok] at hu
      exact ⟨_, _, _, _, _, List.mem_singleton.1 hu ▸ hok⟩
  obtain ⟨call, hcall, hpasses⟩ := List.any_eq_true.1 hsink
  obtain ⟨invoker, hinvoker⟩ := List.exists_mem_of_length_pos (hinvokers ▸ Nat.one_pos)
  obtain ⟨hrecords, hargument⟩ := checkSink_sources_succeeds passedOnEngine _ hread rfl call hcall
    ⟨⟨"A", "out", ["T"]⟩, [{}]⟩
  unfold passesOn at hpasses
  split at hpasses
  next n harguments =>
    have hparameter := of_decide_eq_true hpasses
    have hstart : Relation.ReflTransGen (Calls passedOnEngine {}) (0, call.arguments[0]?)
        (0, some (.name n)) := by
      rw [harguments]
      exact .refl
    obtain ⟨a, ha⟩ := hargument {} 0 0 n hstart _ _ hparameter invoker hinvoker
    exact ⟨call, hcall, hrecords, n, invoker, a, harguments, hparameter, hinvoker, ha⟩
  next => cases hpasses

end Flow

end TaintFlow
