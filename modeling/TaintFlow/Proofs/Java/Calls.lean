import TaintFlow.Proofs.Java.Declarations
import TaintFlow.Proofs.Java.Registration

/-!
# Calls of a method

Reading a method whose tree conforms to the grammar succeeds and keeps the calls in its body
(`calls_registered_once`).  Each call that is written in the body is kept once, with its words and
its place.  Nothing else is kept, as long as annotations, local types and labels hold no calls.

Calls in these are not the method's own.  They are nevertheless kept if they stand inside a switch
that is an expression, which is swept without regard to statements
(`local_enum_in_switch_registered`).
-/

namespace TaintFlow.Java

open TaintFlow.Code TaintFlow.Java.Read TaintFlow.Java.Tree

/-! ### Methods -/

namespace Tree

/-- The calls that are written in the body of a method. -/
def callsWritten (m : Tree) : List Tree :=
  ((m.child? "body").map fun b => b.1.writtenCalls true).getD []

/-- The calls that are met when the body of a method is read. -/
def callsRead (m : Tree) : List Tree :=
  ((m.child? "body").map fun b => b.1.readCalls true).getD []

/-- Whether annotations, local types and labels in the body of a method hold no calls. -/
def asidesSilent (m : Tree) : Bool :=
  ((m.child? "body").map fun b => b.1.all isSilentAside).getD true

/-- The body of a method is a block that conforms to the grammar. -/
theorem body_of_isMethod {m : Tree} (hmethod : m.isMethod = true) (hconf : m.conforms = true)
    {b : Subtree m} (hb : m.child? "body" = some b) :
    b.1.conforms = true ∧ b.1.type ∈ ["block", "constructor_body"] := by
  rw [child?_eq_find_pieces] at hb
  have hmem := List.mem_of_find?_eq_some hb
  have hrole := List.find?_some hb
  refine ⟨conforms_of_mem_pieces hconf hmem, ?_⟩
  simp only [isMethod, constructorTypes, Bool.or_eq_true, beq_iff_eq, List.contains_iff_mem,
    List.mem_cons, List.not_mem_nil, or_false] at hmethod
  rcases hmethod with htype | htype | htype
  · exact type_mem_of_role hconf hmem htype (· == some "body") hrole _ rfl rfl
  · exact type_mem_of_role hconf hmem htype (· == some "body") hrole _ rfl rfl
  · exact type_mem_of_role hconf hmem htype (· == some "body") hrole _ rfl rfl

end Tree

/-- A body that conforms to the grammar has the children that can not be done without. -/
theorem sound_of_conforms {t : Tree} (hconf : t.conforms = true) : t.Sound := by
  intro n hn
  have hnconf := hn.conforms hconf
  refine ⟨fun htype d hd => ?_, fun htype => ?_⟩
  · obtain ⟨hd, hrole⟩ := mem_pieces_of_mem_childrenIn hd
    have hdtype := type_mem_of_role hnconf hd htype (· == some "declarator") (beq_iff_eq.2 hrole)
      ["variable_declarator"] rfl rfl
    have haccepts := accepts_of_type (conforms_of_mem_pieces hnconf hd) (List.mem_singleton.1 hdtype) rfl
    obtain ⟨name, rest, hpieces, ⟨hname, -⟩, -⟩ := accepts_one.1 haccepts
    simp [child?_eq_find_pieces, hpieces, hname]
  · obtain ⟨name, rest, hpieces, ⟨-, hname⟩, -⟩ := accepts_one.1 (accepts_of_type hnconf htype rfl)
    simp [content_eq_filter_pieces, hpieces, (Shape.admits_of.1 hname).1]

/-- Reading parameters and body of a method succeeds, and keeps the calls that are met in the body. -/
theorem registers_methodBody (S : Source) (ps : List Parameter) {m : Tree}
    (hmethod : m.isMethod = true) (hconf : m.conforms = true) (s : State) (calls : List Expr)
    (hcalls : s.calls = some calls) :
    ∃ body s' new order, (methodBody S ps m).run s = .ok (body, s') ∧
      s'.calls = some (calls ++ new) ∧ order.Perm m.callsRead ∧
      List.Forall₂ (ReadAs S) order new := by
  obtain ⟨body, s', hrun⟩ :=
    (tame_methodBody S ps (.inr (sound_of_conforms hconf))).exists_run s
  have hfollows := Chronicle.follows_methodBody (tells_registrations S) ps m
  obtain ⟨new, hnew, hread⟩ := (hfollows s body s' hrun).2 calls hcalls
  refine ⟨body, s', new, _, hrun, hnew, ?_, hread⟩
  have hnames : (ps.filterMap (·.name)).flatMap (fun n =>
      (registrations S).event (.declaration .parameter n none)) = [] :=
    List.flatMap_eq_nil_iff.2 fun _ _ => rfl
  rw [hnames, callsRead]
  cases hb : m.child? "body" with
  | none => exact .nil
  | some b =>
    obtain ⟨hbconf, htype⟩ := body_of_isMethod hmethod hconf hb
    have hsuits : Mode.block.Suits b.1 := htype
    have hperm := perm_readCalls S hbconf hsuits
    rw [Option.toList_some, List.flatMap_singleton]
    exact (List.Perm.of_eq (List.append_nil _)).trans hperm

/-- The calls that are kept of a method. -/
structure KeepsCalls (S : Source) (m : Tree) (calls : List Expr) : Prop where
  /-- There is one for each call that is met in the body. -/
  met : ∃ order, order.Perm m.callsRead ∧ List.Forall₂ (ReadAs S) order calls
  /-- No call that is written in the body is missed. -/
  complete : List.Sublist m.callsWritten m.callsRead
  /-- Without calls in annotations, local types and labels nothing else is met. -/
  nothingElse : m.asidesSilent = true → m.callsWritten = m.callsRead

theorem texts_of_readAs {S : Source} {nodes : List Tree} {calls : List Expr}
    (h : List.Forall₂ (ReadAs S) nodes calls) : calls.map Expr.text = nodes.map S.text := by
  induction h with
  | nil => rfl
  | cons hnode _ ih =>
    rw [List.map_cons, List.map_cons, ih, Expr.text, hnode.origin]
    rfl

/-- The words of the kept calls are those of the calls that are met. -/
theorem KeepsCalls.texts {S : Source} {m : Tree} {calls : List Expr} (h : KeepsCalls S m calls) :
    (calls.map Expr.text).Perm (m.callsRead.map S.text) := by
  obtain ⟨order, hperm, hread⟩ := h.met
  rw [texts_of_readAs hread]
  exact hperm.map S.text

theorem callsWritten_sublist {m : Tree} (hmethod : m.isMethod = true) (hconf : m.conforms = true) :
    List.Sublist m.callsWritten m.callsRead := by
  unfold callsWritten callsRead
  cases hb : m.child? "body" with
  | none => exact .refl _
  | some b =>
    obtain ⟨hconf', htype⟩ := body_of_isMethod hmethod hconf hb
    have hplaced := (by decide : ∀ type ∈ ["block", "constructor_body"],
      placedTypes.contains type = true) _ htype
    exact writtenCalls_sublist hconf' hplaced

theorem callsWritten_eq {m : Tree} (hmethod : m.isMethod = true) (hconf : m.conforms = true)
    (hsilent : m.asidesSilent = true) : m.callsWritten = m.callsRead := by
  unfold asidesSilent at hsilent
  unfold callsWritten callsRead
  cases hb : m.child? "body" with
  | none => rfl
  | some b =>
    obtain ⟨hconf', htype⟩ := body_of_isMethod hmethod hconf hb
    have hplaced := (by decide : ∀ type ∈ ["block", "constructor_body"],
      placedTypes.contains type = true) _ htype
    rw [hb] at hsilent
    exact writtenCalls_eq hconf' hplaced hsilent

/-- **Reading a method** from any state succeeds, and keeps one call for each call that is met in
its body.  All calls that are written in the body are among them, and no others if annotations,
local types and labels hold none. -/
theorem calls_registered_once (S : Source) (type : String) (isConstructor : Bool) {m : Tree}
    (hmethod : m.isMethod = true) (hconf : m.conforms = true) (s : State) :
    ∃ s' method calls, (readMethod S type isConstructor m).run s = .ok ((), s') ∧
      ReadFrom S (type, m) method ∧ s'.methods = s.methods ++ [method] ∧
      s'.methodCalls = s.methodCalls.update method.signature [] (· ++ calls) ∧
      KeepsCalls S m calls := by
  let parameters := readParameters S s m
  let signature : Signature := ⟨type, S.nameOf m, parameters.map (·.type.getD "")⟩
  let start : State := { s with method := some signature, calls := some [] }
  obtain ⟨body, s₁, calls, order, hrun, hcalls, horder, hnew⟩ :=
    registers_methodBody S parameters hmethod hconf start [] rfl
  have houtline : s₁.outline = start.outline :=
    leads_methodBody allows_outline S parameters m start body s₁ hrun
  have hmethods : s₁.outline.methods = start.outline.methods := by rw [houtline]
  have hmethodCalls : s₁.outline.methodCalls = start.outline.methodCalls := by rw [houtline]
  let method : Method :=
    { signature
      position := S.position (((m.child? "name").map (·.1)).getD m)
      parameterNames := parameters.filterMap fun p => p.name.map S.text
      returnType := if isConstructor then none else s₁.resolveType (S.textOf (m.child? "type"))
      body
      isConstructor }
  let s' : State :=
    { s₁ with
      methods := s₁.methods ++ [method]
      methodCalls := s₁.methodCalls.update signature [] (· ++ s₁.calls.getD [])
      method := s.method
      calls := s.calls }
  refine ⟨s', method, calls, ?_, ⟨rfl, rfl, rfl⟩, ?_, ?_, ?_⟩
  · unfold readMethod
    refine run_bind_eq_ok.2 ⟨s, s, rfl, run_bind_eq_ok.2 ⟨(), start, rfl, ?_⟩⟩
    exact run_bind_eq_ok.2 ⟨body, s₁, hrun, rfl⟩
  · exact congrArg (· ++ [method]) hmethods
  · have hkept : s₁.calls.getD [] = calls := by
      rw [hcalls]
      rfl
    change s₁.methodCalls = s.methodCalls at hmethodCalls
    change s₁.methodCalls.update signature [] (· ++ s₁.calls.getD []) = _
    rw [hkept, hmethodCalls]
  · exact ⟨⟨order, horder, hnew⟩, callsWritten_sublist hmethod hconf,
      callsWritten_eq hmethod hconf⟩

/-- The first method that a text declares. -/
def firstMethod (text : String) : Tree :=
  (((javaDeclarations (.ofText "A.java" text) (treeOf text)).filter (·.2.isMethod)).head?.map
    (·.2)).getD default

/-- A method with calls in arguments, in a lambda and in a local class. -/
def callsEverywhere : String :=
  "class A \x7b void m() \x7b f(g(), () -> h()); " ++
    "class L \x7b void n() \x7b k(); \x7d \x7d \x7d \x7d"

/-- The source of that method. -/
def everywhereSource : Source :=
  .ofText "A.java" callsEverywhere

theorem calls_everywhere_registered_once :
    ∃ (s' : State) (method : Method) (calls : List Expr),
      (readMethod everywhereSource "A" false (firstMethod callsEverywhere)).run {} = .ok ((), s') ∧
      s'.methodCalls = Table.update {} method.signature [] (· ++ calls) ∧
      (calls.map Expr.text).Perm ["f(g(), () -> h())", "g()", "h()"] := by
  obtain ⟨hmethod, hconf, htexts⟩ : (firstMethod callsEverywhere).isMethod = true ∧
      (firstMethod callsEverywhere).conforms = true ∧
      (firstMethod callsEverywhere).callsRead.map everywhereSource.text =
        ["f(g(), () -> h())", "g()", "h()"] := by
    decide +kernel
  obtain ⟨s', method, calls, hrun, -, -, hcalls, hkeeps⟩ :=
    calls_registered_once everywhereSource "A" false hmethod hconf {}
  exact ⟨s', method, calls, hrun, hcalls, htexts ▸ hkeeps.texts⟩

/-- A method with a local enumeration inside a switch that is an expression. -/
def enumInSwitch : String :=
  "class A \x7b int m(int x) \x7b return switch (x) \x7b " ++
    "default -> \x7b enum E \x7b P(f()) \x7d yield 1; \x7d \x7d; \x7d \x7d"

/-- **A call of a local enumeration is registered** for the method around it, if the enumeration
stands inside a switch that is an expression. -/
theorem local_enum_in_switch_registered :
    (firstMethod enumInSwitch).conforms = true ∧
      (firstMethod enumInSwitch).callsWritten.isEmpty = true ∧
      (unitOfTree (.ofText "A.java" enumInSwitch) (treeOf enumInSwitch)).toOption.map
        (fun u => u.calls.values.map fun calls => calls.map Expr.text) = some [["f()"]] := by
  decide +kernel

end TaintFlow.Java
