import TaintFlow.Proofs.Findings

/-!
# The ends of vulnerable paths

A vulnerable path leads from the traced expression to a call where taint enters.

* `ends_of_mem_walk` : where the paths of vulnerable records begin and end.
* `Verify.ends_of_mem_paths` : where the paths of a finding do.
-/

namespace TaintFlow

open TaintFlow.Code TaintFlow.Catalog TaintFlow.Flow

namespace Flow

/-- A path from an expression backwards to a call where taint enters. -/
structure LeadsToSource (E : Engine) (e : Expr) (path : List Expr) : Prop where
  head : path.head? = some e
  last : ∃ source, path.getLast? = some source ∧ Source E source

theorem LeadsToSource.cons {E : Engine} {e e' : Expr} {path : List Expr}
    (h : LeadsToSource E e' path) : LeadsToSource E e (e :: path) := by
  obtain ⟨source, hlast, hsource⟩ := h.last
  exact ⟨rfl, source, by rw [List.getLast?_cons, hlast]; rfl, hsource⟩

variable {E : Engine} {rule : Rule}

/-- **The ends of vulnerable paths**: what a trace adds to the path of a vulnerable record begins with
the traced expression and ends where taint enters. -/
theorem ends_of_mem_walk :
    ∀ (depth : ℤ) (e : Option Expr) (r r' : Record), r.Fresh → trace E rule depth r e = .ok r' →
      ∀ x ∈ r'.walk, x.verdict.isVulnerable = true → ∃ first ∈ e, ∃ added,
        x.path = r.path ++ added ∧ LeadsToSource E first added := by
  have hjoined : ∀ {e r}, rule.accepts e = false → (joined rule e r).path = r.path ++ [e] := by
    intro e r haccepts
    simp [joined, haccepts]
  refine walk_induction ?_ ?_ ?_
  · intro depth r x _ hsafe hv
    cases hsafe.symm.trans hv
  · -- the trace ends here, at a call where taint enters
    intro depth e r x hx hstop hv
    rcases turn_cases E rule depth e with ⟨v, hsafe, hturn⟩ | ⟨haccepts, -, -, hturn⟩
    · cases (hstop hv).symm.trans hturn
      cases hsafe.symm.trans hv
    · have hsource : Source E e := by
        obtain ⟨kind, message, hverdict⟩ := Verdict.isVulnerable_iff.1 hv
        exact source_iff_move.2 ⟨kind, message, by rw [← hturn, hstop hv, hverdict]⟩
      have hpath : x.path = (joined rule e r).path := (congrArg Record.path hx :)
      exact ⟨e, rfl, [e], hpath.trans (hjoined haccepts), rfl, e, rfl, hsource⟩
  · -- the trace goes on behind the expression
    rintro depth e r _ _ x ⟨ht⟩ hx hv
    obtain ⟨first, -, added, hadded, hleads⟩ := hx hv
    refine ⟨e, rfl, e :: added, ?_, hleads.cons⟩
    rw [hadded, hjoined (turn_eq_move ht).1, List.append_assoc, List.singleton_append]

end Flow

namespace Verify

variable {E : Engine} {unit : String} {call : Expr}

/-- **The ends of reported paths**: every path of a finding begins with the argument in the place that
the finding names, and ends where taint enters. -/
theorem ends_of_mem_paths {f : Finding} (hf : f ∈ findingsOf E unit call) :
    ∃ i, f.parameter = some i ∧ ∀ path ∈ f.paths, ∃ argument ∈ call.arguments[i]?, ∃ exprs,
      path = exprs.map Location.ofExpr ∧ LeadsToSource E argument exprs := by
  obtain ⟨x, hx, hreports⟩ := exists_left_of_forall₂ (reports_findingsOf E unit call) hf
  obtain ⟨p, -, -, hplace, htrace⟩ := exists_examines (List.mem_filter.1 hx).1
  refine ⟨x.parameter, hreports.parameter, fun path hpath => ?_⟩
  obtain ⟨as, -, hvulnerable, hpaths⟩ := hreports.paths
  have hmem := List.mem_map_of_mem (f := some) hpath
  rw [hpaths] at hmem
  obtain ⟨a, ha, hwitness⟩ := List.mem_map.1 hmem
  obtain ⟨w, hw, hv⟩ := (hvulnerable a).1 ha
  rw [hw] at hwitness
  obtain ⟨argument, hargument, added, hadded, hleads⟩ :=
    ends_of_mem_walk 0 _ _ _ ⟨rfl, rfl⟩ htrace w (Record.mem_walk_iff_at?.2 ⟨a, hw⟩) hv
  have hadded : w.path = added := hadded
  rw [hplace]
  refine ⟨argument, hargument, added, ?_, hleads⟩
  rw [← hadded]
  exact (Option.some.inj hwitness).symm

end Verify

end TaintFlow
