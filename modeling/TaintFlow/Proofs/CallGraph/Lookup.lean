import TaintFlow.CallGraph
import TaintFlow.Proofs.Table

/-!
# What lookups in a call graph find

Values of variables, call sites of methods and declarations of called methods are found in the
tables of the graph.  `CallGraph.landings` lists the expressions to which such a lookup can lead.
-/

namespace TaintFlow

open TaintFlow.Code TaintFlow.Types

namespace CallGraph

/-- The expressions at which a hop can arrive: the values of variables, the arguments of calls and
the expressions that methods return. -/
def landings (g : CallGraph) : List Expr :=
  g.bindings.values ++ (g.index.values.flatten.flatMap (·.call.arguments) ++
    g.units.values.flatMap fun methods => methods.values.flatMap (·.method.returns))

theorem mem_landings_of_valueOf {g : CallGraph} {n : Name} {v : Expr}
    (h : g.valueOf n = some v) : v ∈ g.landings := by
  obtain ⟨b, -, hb⟩ := Option.bind_eq_some_iff.1 h
  exact List.mem_append_left _ (Table.mem_values_of_get? hb)

theorem mem_landings_of_mem_invokers {g : CallGraph} {s : Signature}
    {invoker : Method × Expr} {a : Expr} (h : invoker ∈ g.invokers s)
    (ha : a ∈ invoker.2.arguments) : a ∈ g.landings := by
  obtain ⟨c, hc, rfl⟩ := List.mem_map.1 h
  obtain ⟨bucket, hb, hc⟩ := Table.exists_mem_values_of_mem_getD (List.mem_filter.1 hc).1
  exact List.mem_append_right _ (List.mem_append_left _
    (List.mem_flatMap.2 ⟨c, List.mem_flatten.2 ⟨bucket, hb, hc⟩, ha⟩))

theorem exists_of_findMethod {site : Site} {methods : Table Signature Entry} {m : Method}
    (h : findMethod site methods = some m) :
    ∃ q ∈ methods.entries, signatureFits q.1 site = true ∧ q.2.method = m := by
  obtain ⟨q, hq, rfl⟩ := Option.map_eq_some_iff.1 h
  have hfits := List.find?_some hq
  exact ⟨q, List.mem_of_find?_eq_some hq, hfits, rfl⟩

/-- A method to which a call is resolved is kept with some unit, under a signature that fits the
call. -/
theorem exists_of_resolve {g : CallGraph} {unit : Option String} {call : Expr} {m : Method}
    (h : g.resolve unit call = some m) :
    ∃ site, Site.ofExpr? call = some site ∧
      ∃ p ∈ g.units.entries, ∃ q ∈ p.2.entries, signatureFits q.1 site = true ∧ q.2.method = m := by
  obtain ⟨site, hsite, h⟩ := Option.bind_eq_some_iff.1 h
  refine ⟨site, hsite, ?_⟩
  split at h
  · cases h
  · rw [Option.orElse_eq_orElse, Option.orElse_eq_or] at h
    rcases Option.or_eq_some_iff.1 h with h | ⟨-, h⟩
    · obtain ⟨methods, hmethods, hfind⟩ := Option.bind_eq_some_iff.1 h
      obtain ⟨path, -, hpath⟩ := Option.bind_eq_some_iff.1 hmethods
      exact ⟨(path, methods), Table.mem_entries_of_get? hpath, exists_of_findMethod hfind⟩
    · obtain ⟨p, hp, hfind⟩ := List.exists_of_findSome?_eq_some h
      exact ⟨p, (List.mem_filter.1 hp).1, exists_of_findMethod hfind⟩

theorem mem_landings_of_resolve {g : CallGraph} {unit : Option String} {call : Expr}
    {m : Method} {e : Expr} (h : g.resolve unit call = some m) (he : e ∈ m.returns) :
    e ∈ g.landings := by
  obtain ⟨-, -, p, hp, q, hq, -, rfl⟩ := exists_of_resolve h
  exact List.mem_append_right _ (List.mem_append_right _
    (List.mem_flatMap.2 ⟨p.2, List.mem_map.2 ⟨p, hp, rfl⟩,
      List.mem_flatMap.2 ⟨q.2, List.mem_map.2 ⟨q, hq, rfl⟩, he⟩⟩))

end CallGraph

end TaintFlow
