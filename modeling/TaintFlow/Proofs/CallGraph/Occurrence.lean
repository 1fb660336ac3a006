import TaintFlow.Proofs.CallGraph.Resolution
import TaintFlow.Proofs.Code.Contents
import TaintFlow.Proofs.Code.Height
import TaintFlow.Proofs.Flow.Move

/-!
# What occurs in a call graph, and units that do not concern it

The expressions of a graph are the calls of its methods, the values of its variables and what its
methods return.  An expression *occurs* in the graph when it stands somewhere inside one of them.
A source is *unrelated* to the graph when nothing that occurs there can be looked up in it: no
call calls a method of the source, no parameter belongs to a method that the source calls, and no
name refers to a variable to which the source gives a value.

* `Occurs.of_mem_parts`, `occurs_of_mem_landings` : a trace never leaves what occurs in its graph.
* `Unrelated.valueOf_replaceUnit`, `Unrelated.invokers_replaceUnit`,
  `Unrelated.resolve_replaceUnit` : with an unrelated source in the graph, lookups find what they
  found before.
-/

namespace TaintFlow

open TaintFlow.Code TaintFlow.Types

namespace Code.Expr

theorem mem_components_of_mem_parts {p e : Expr} (h : p ∈ e.parts) : p ∈ e.components := by
  cases e with
  | conditional o c a b => exact List.mem_append_right _ h
  | qualified o q m => exact List.mem_append_right _ h
  | call o method receiver args rt type => cases h
  | _ => exact h

theorem mem_components_of_mem_arguments {a e : Expr} (h : a ∈ e.arguments) : a ∈ e.components := by
  cases e with
  | creation o type args => exact h
  | call o method receiver args rt type => exact List.mem_append_right _ h
  | _ => cases h

end Code.Expr

namespace CallGraph

/-- The expressions that a graph keeps: the calls of methods, those in the index, the values of
variables, and what methods return. -/
def expressions (g : CallGraph) : List Expr :=
  g.recordedCalls ++ (g.index.values.flatten.map (·.call) ++ (g.bindings.values ++
    g.units.values.flatMap fun methods => methods.values.flatMap (·.method.returns)))

/-- The expression stands somewhere in an expression of the graph. -/
def Occurs (g : CallGraph) (e : Expr) : Prop :=
  ∃ x ∈ g.expressions, e.Within x

variable {g : CallGraph}

theorem occurs_of_mem {e : Expr} (h : e ∈ g.expressions) : g.Occurs e :=
  ⟨e, h, .refl⟩

theorem Occurs.of_within {e x : Expr} (h : g.Occurs x) (he : e.Within x) : g.Occurs e := by
  obtain ⟨y, hy, hx⟩ := h
  exact ⟨y, hy, he.trans hx⟩

theorem Occurs.of_mem_parts {e p : Expr} (h : g.Occurs e) (hp : p ∈ e.parts) : g.Occurs p :=
  h.of_within (Expr.within_of_mem_components (Expr.mem_components_of_mem_parts hp))

theorem Occurs.of_mem_arguments {e a : Expr} (h : g.Occurs e) (ha : a ∈ e.arguments) :
    g.Occurs a :=
  h.of_within (Expr.within_of_mem_components (Expr.mem_components_of_mem_arguments ha))

theorem occurs_of_mem_recordedCalls {call : Expr} (h : call ∈ g.recordedCalls) : g.Occurs call :=
  occurs_of_mem (List.mem_append_left _ h)

/-- Wherever a hop arrives, it arrives at an expression that occurs in the graph. -/
theorem occurs_of_mem_landings {e : Expr} (h : e ∈ g.landings) : g.Occurs e := by
  rcases List.mem_append.1 h with hvalue | h
  · exact occurs_of_mem (List.mem_append_right _
      (List.mem_append_right _ (List.mem_append_left _ hvalue)))
  · rcases List.mem_append.1 h with hargument | hreturn
    · obtain ⟨c, hc, he⟩ := List.mem_flatMap.1 hargument
      have hcall : g.Occurs c.call := occurs_of_mem (List.mem_append_right _
        (List.mem_append_left _ (List.mem_map_of_mem hc)))
      exact hcall.of_mem_arguments he
    · exact occurs_of_mem (List.mem_append_right _
        (List.mem_append_right _ (List.mem_append_right _ hreturn)))

/-- A set of expressions that holds those of the graph, and with each what stands directly in it,
holds all that occurs. -/
theorem Occurs.closed {P : Expr → Prop} (hbase : ∀ x ∈ g.expressions, P x)
    (hclosed : ∀ x, P x → ∀ a ∈ x.components, P a) {e : Expr} (h : g.Occurs e) : P e := by
  obtain ⟨x, hx, hwithin⟩ := h
  have hdown : P x → P e := by
    clear hx
    induction hwithin with
    | refl => exact id
    | tail _ ha ih => exact fun hx => ih (hclosed _ hx _ ha)
  exact hdown (hbase x hx)

/-! ### Units that do not concern a graph -/

/-- Nothing that occurs in the graph can be looked up in the source. -/
structure Unrelated (g : CallGraph) (s : SourceUnit) : Prop where
  path : s.path ∉ g.unitPaths
  /-- No call in the graph calls a method of the source. -/
  methods : ∀ e, g.Occurs e → ∀ m ∈ s.methods, calls? m.signature e = false
  /-- The source does not call the owner of a parameter that occurs in the graph. -/
  calls : ∀ n owner index, g.Occurs (.name n) → n.parameter? = some (owner, index) →
    ∀ es ∈ s.calls.values, ∀ call ∈ es, calls? owner call = false
  /-- No name in the graph refers to a variable to which the source gives a value. -/
  bindings : ∀ n b, g.Occurs (.name n) → n.binding = some b → b ∉ s.bindings.keys

/-- Every signature of the table is declared in the source. -/
def DeclaredIn (s : SourceUnit) (t : Table Signature Entry) : Prop :=
  ∀ q ∈ t.entries, ∃ m ∈ s.methods, m.signature = q.1

theorem DeclaredIn.insert {s : SourceUnit} {t : Table Signature Entry} (h : DeclaredIn s t)
    {m : Method} (hm : m ∈ s.methods) (entry : Entry) :
    DeclaredIn s (t.insert m.signature entry) :=
  Table.forall_entries_insert (P := fun k _ => ∃ m ∈ s.methods, m.signature = k) h ⟨m, hm, rfl⟩

theorem DeclaredIn.declare {s : SourceUnit} {t : Table Signature Entry} (h : DeclaredIn s t)
    {m : Method} (hm : m ∈ s.methods) : DeclaredIn s (declare m t) := by
  unfold CallGraph.declare
  split
  · exact h
  · exact h.insert hm _

/-- The methods of a source are kept under the signatures that it declares. -/
theorem declaredIn_methodTable (s : SourceUnit) : DeclaredIn s (methodTable s) := by
  refine List.foldlRecOn (motive := DeclaredIn s) _ _ ?_ fun t ht m hm => ?_
  · intro q hq
    exact absurd hq List.not_mem_nil
  · refine List.foldlRecOn (motive := DeclaredIn s) _ _ (ht.declare hm) fun t ht call _ => ?_
    exact (ht.declare hm).insert hm _

theorem mem_calls_of_mem_indexedCalls {s : SourceUnit} {c : IndexedCall}
    (h : c ∈ indexedCalls s) :
    Site.ofExpr? c.call = some c.site ∧ ∃ es ∈ s.calls.values, c.call ∈ es := by
  obtain ⟨m, -, h⟩ := List.mem_flatMap.1 h
  obtain ⟨call, hcall, h⟩ := List.mem_filterMap.1 h
  obtain ⟨site, hsite, rfl⟩ := Option.map_eq_some_iff.1 h
  exact ⟨hsite, Table.exists_mem_values_of_mem_getD hcall⟩

namespace Unrelated

variable {s : SourceUnit} (h : g.Unrelated s)

include h

theorem removeUnit_eq : g.removeUnit s.path = g :=
  removeUnit_of_not_contains h.path

/-- The methods of the source come after all others. -/
theorem units_replaceUnit :
    (g.replaceUnit s).units.entries = g.units.entries ++ [(s.path, methodTable s)] := by
  rw [replaceUnit_units, h.removeUnit_eq, Table.insert_of_not_mem h.path]

theorem valueOf_replaceUnit {n : Name} (hn : g.Occurs (.name n)) :
    (g.replaceUnit s).valueOf n = g.valueOf n := by
  unfold valueOf
  cases hb : n.binding with
  | none => rfl
  | some b =>
    rw [Option.bind_some, Option.bind_some, replaceUnit_bindings, h.removeUnit_eq]
    exact Table.get?_foldl_insert_of_not_mem (h.bindings n b hn hb) g.bindings

theorem invokers_replaceUnit {n : Name} {owner : Signature} {index : ℤ}
    (hn : g.Occurs (.name n)) (howner : n.parameter? = some (owner, index)) :
    (g.replaceUnit s).invokers owner = g.invokers owner := by
  have hnone : ((indexedCalls s).filter (·.key = (owner.name, owner.arity))).filter
      (fun c => signatureFits owner c.site) = [] := by
    refine List.filter_eq_nil_iff.2 fun c hc hfits => ?_
    obtain ⟨hsite, es, hes, hcall⟩ := mem_calls_of_mem_indexedCalls (List.mem_filter.1 hc).1
    have hcalls := calls?_iff.2 ⟨c.site, hsite, hfits⟩
    rw [h.calls n owner index hn howner es hes c.call hcall] at hcalls
    cases hcalls
  rw [invokers, replaceUnit_index, h.removeUnit_eq, getD_foldl_enterIndex, List.filter_append,
    hnone, List.append_nil]
  rfl

theorem findMethod_eq_none {call : Expr} (hcall : g.Occurs call) {site : Site}
    (hsite : Site.ofExpr? call = some site) : findMethod site (methodTable s) = none := by
  refine Option.eq_none_iff_forall_ne_some.2 fun m hm => ?_
  obtain ⟨q, hq, hfits, -⟩ := exists_of_findMethod hm
  obtain ⟨m', hm', hsignature⟩ := declaredIn_methodTable s q hq
  have hcalls := calls?_iff.2 ⟨site, hsite, hsignature ▸ hfits⟩
  rw [h.methods call hcall m' hm'] at hcalls
  cases hcalls

/-- **A call finds the method it found**: the source, which is searched last or as the unit of the
call, has none that fits. -/
theorem resolve_replaceUnit {call : Expr} (hcall : g.Occurs call) (unit : Option String) :
    (g.replaceUnit s).resolve unit call = g.resolve unit call := by
  unfold resolve
  cases hsite : Site.ofExpr? call with
  | none => rfl
  | some site =>
    have hnone := h.findMethod_eq_none hcall hsite
    have hown : (unit.bind (g.replaceUnit s).units.get?).bind (findMethod site) =
        (unit.bind g.units.get?).bind (findMethod site) := by
      cases unit with
      | none => rfl
      | some path =>
        rw [Option.bind_some, Option.bind_some, replaceUnit_units, h.removeUnit_eq,
          Table.get?_insert]
        by_cases hpath : path = s.path
        · have hget : g.units.get? path = none := Table.get?_eq_none_iff.2 (hpath ▸ h.path)
          rw [if_pos hpath, hget, Option.bind_some, hnone]
          rfl
        · rw [if_neg hpath]
    have hlast : (([(s.path, methodTable s)].filter fun entry => some entry.1 ≠ unit).findSome?
        fun entry => findMethod site entry.2) = none := by
      refine List.findSome?_eq_none_iff.2 fun entry hentry => ?_
      rw [List.mem_singleton.1 (List.mem_filter.1 hentry).1]
      exact hnone
    simp only [Option.bind_some, hown, h.units_replaceUnit, List.filter_append,
      List.findSome?_append, hlast, Option.or_none]

end Unrelated

end CallGraph

end TaintFlow
