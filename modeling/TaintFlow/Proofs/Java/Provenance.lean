import TaintFlow.Proofs.CallGraph.Intake
import TaintFlow.Proofs.Java.Accounting

/-!
# Units and the variables they declare

Whatever the parse tree, if it can be read, all variables of the unit are accounted for
(`variables_trace_to_declarations`): a name refers to a variable that a declaration of the unit made,
and declarations at different places make different variables.
-/

namespace TaintFlow.Java

open TaintFlow.Code Read

/-- The variables of a unit come from its declarations, and its calls from its methods. -/
structure Accounts (S : Source) (root : Tree) (u : SourceUnit) : Prop where
  /-- Every variable that a name refers to is accounted for. -/
  names : ∀ n b, u.Holds (.name n) → n.binding = some b →
    Accounted S (readDeclarations S root) (u.methods.map (·.signature)) b
  /-- So is every variable with a value, and none is a parameter. -/
  bindings : ∀ b ∈ u.bindings.keys,
    Accounted S (readDeclarations S root) (u.methods.map (·.signature)) b ∧ b.kind ≠ .parameter
  /-- Calls are listed for the methods and for nothing else. -/
  calls : ∀ m, m ∈ u.calls.keys ↔ m ∈ u.methods.map (·.signature)
  /-- Declarations whose names start at different bytes of the text share no variable. -/
  distinct : ∀ {node node' : Tree} {b b' : Binding}, DeclaredAt S node b → DeclaredAt S node' b' →
    node.start ≤ S.bytes.size → node'.start ≤ S.bytes.size → node.start ≠ node'.start → b ≠ b'

/-- **The variables of a unit trace to its declarations**, whatever the parse tree, if it can be
read. -/
theorem variables_trace_to_declarations {directive path text : String} {tree : Tree}
    {hasErrors : Bool} {u : SourceUnit} (h : unitOf directive path text tree hasErrors = .ok u) :
    Accounts (.ofText path text) tree u := by
  have hcalls := (CallGraph.listsMethods_unitOf h).keys
  unfold unitOf at h
  split at h
  · cases h
  · rename_i u' hu
    obtain ⟨s, hrun, rfl⟩ := exists_state_of_unitOfTree hu
    cases h
    have htraced := accounted_readUnit hrun
    constructor
    case names => exact fun n b hn hb => (htraced.holds.of_holds rfl rfl rfl hn).target n b rfl hb
    case bindings => exact htraced.knows.bindings
    case calls => exact hcalls
    case distinct =>
      rintro node node' b _ hb hb' hnode hnode' hne rfl
      exact hne (hb.start_eq hb' hnode hnode')

/-- A type with a field and a type inside it, whose method has a parameter of the name of the
field. -/
def shadowedField : String :=
  "class A \x7b int k = 1; class B \x7b int f(int k) \x7b int i = k; return f(i); \x7d \x7d \x7d"

theorem variables_of_shadowedField :
    ∃ u, unitOf "" "A.java" shadowedField (treeOf shadowedField) false = .ok u ∧
      u.bindings.keys.map (fun b => (b.name, b.declaringType, b.owner)) =
        [("k", some "A", none), ("i", some "A.B", some ⟨"A.B", "f", ["int"]⟩)] ∧
      Accounts (.ofText "A.java" shadowedField) (treeOf shadowedField) u := by
  have hok : (unitOf "" "A.java" shadowedField (treeOf shadowedField) false).toOption.map
      (fun u => u.bindings.keys.map fun b => (b.name, b.declaringType, b.owner)) =
        some [("k", some "A", none), ("i", some "A.B", some ⟨"A.B", "f", ["int"]⟩)] := by
    decide +kernel
  cases h : unitOf "" "A.java" shadowedField (treeOf shadowedField) false with
  | error f =>
    rw [h] at hok
    cases hok
  | ok u =>
    rw [h] at hok
    exact ⟨u, rfl, Option.some.inj hok, variables_trace_to_declarations h⟩

end TaintFlow.Java
