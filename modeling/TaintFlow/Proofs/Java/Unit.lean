import TaintFlow.Java.Unit
import TaintFlow.Proofs.Code.Grounded
import TaintFlow.Proofs.Java.Accounting
import TaintFlow.Proofs.Workspace.Rebuild

/-!
# Units that are read are grounded

All that is kept of a unit refers to variables that are accounted for, so parameters have places in
the lists of their methods, and expressions are grounded.

* `grounded_unitOf` : the unit of any parse tree that can be read is grounded.
* `faithful_unitWith` : reading a text gives a unit with the path of the file and its own variables.
-/

namespace TaintFlow.Java

open TaintFlow.Code Read

section

variable {S : Source} {ds : List (String × Tree)} {methods : List Signature}

theorem Accounted.grounded {b : Binding} (h : Accounted S ds methods b) : b.Grounded S.path := by
  refine ⟨h.unit, fun hkind => ?_⟩
  obtain ⟨m, -, hplace⟩ := h.parameter hkind
  exact ⟨m, hplace⟩

/-- An expression is grounded if all that stands in it refers to variables that are accounted for. -/
theorem grounded_of_refers {e : Expr}
    (h : ∀ x : Expr, x.Within e → Refers (Accounted S ds methods) x) : e.Grounded S.path :=
  Expr.grounded_of_within fun x hx =>
    ⟨(h x hx).form, fun n hn b hb => ((h x hx).target n b hn hb).grounded⟩

/-- The arguments of a call stand in it. -/
theorem groundedCall_of_refers {e : Expr} (hcall : e.isCall = true)
    (h : ∀ x : Expr, x.Within e → Refers (Accounted S ds methods) x) : e.GroundedCall S.path := by
  refine ⟨hcall, fun a ha => grounded_of_refers fun x hx => h x ?_⟩
  exact hx.trans (Expr.within_of_mem_components (Expr.arguments_subset_components e ha))

/-- **The unit of a parse tree** is grounded, whatever the tree. -/
theorem grounded_unitOfTree {root : Tree} {u : SourceUnit} (h : unitOfTree S root = .ok u) :
    u.path = S.path ∧ u.Grounded := by
  obtain ⟨s, hrun, rfl⟩ := exists_state_of_unitOfTree h
  have htraced := accounted_readUnit hrun
  refine ⟨rfl, ⟨fun es hes e he => ?_, fun m hm e he => ?_, fun x hx => ⟨?_, ?_⟩⟩⟩
  · obtain ⟨hcall, hwithin⟩ := htraced.holds.methodCalls es hes e he
    exact groundedCall_of_refers hcall hwithin
  · exact grounded_of_refers (htraced.holds.bodies m hm e (Stmt.returnsOpt_subset_exprsOpt _ he))
  · exact (htraced.knows.bindings x.1 (List.mem_map_of_mem hx)).1.unit
  · exact grounded_of_refers (htraced.holds.bindings x.2 (List.mem_map_of_mem hx))

end

theorem grounded_unitOf {directive path text : String} {tree : Tree} {hasErrors : Bool}
    {u : SourceUnit} (h : unitOf directive path text tree hasErrors = .ok u) :
    u.path = path ∧ u.Grounded := by
  unfold unitOf at h
  split at h
  · cases h
  · rename_i u' hu
    obtain ⟨hpath, hgrounded⟩ := grounded_unitOfTree hu
    cases h
    exact ⟨hpath, { hgrounded with }⟩

/-- **Texts are read faithfully**, whatever parser takes them apart. -/
theorem faithful_unitWith (parse : TreeReader) (directive : Directive) :
    UnitReader.Faithful (unitWith parse directive) := by
  intro path text u h
  cases directive with
  | binary bytes => cases h
  | text s =>
    obtain ⟨rfl, hu⟩ := grounded_unitOf h
    refine ⟨rfl, fun b hb => ?_⟩
    obtain ⟨x, hx, rfl⟩ := List.mem_map.1 hb
    exact (hu.bindings x hx).1

end TaintFlow.Java
