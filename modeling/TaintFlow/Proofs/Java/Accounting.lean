import TaintFlow.Proofs.Java.CallTyping
import TaintFlow.Proofs.Java.Source

/-!
# Where variables come from

A name in a unit refers to a variable that a declaration of the unit made.  Whatever the parse tree,
a parameter has a place in the list of a method that the unit lists, and a field belongs to the type
with the member that declares it (`Accounted`).  This is an invariant of reading, so it is stated as a
coupling of a run with itself (`accounting`).

* `DeclaredAt.start_eq` : declarations at different bytes of the text make different variables.
* `accounted_readUnit` : all that is kept of a unit refers to variables that are accounted for.
-/

namespace TaintFlow.Java

open TaintFlow.Code TaintFlow.Types Read

/-! ### Declarations of variables -/

/-- A declaration with its name at the node makes the variable. -/
def DeclaredAt (S : Source) (node : Tree) (b : Binding) : Prop :=
  ∃ name kind type index s s', (declare S name kind type node index).run s = .ok (b, s')

namespace DeclaredAt

variable {S : Source} {node node' : Tree} {b : Binding}

theorem position (h : DeclaredAt S node b) :
    b.line = (S.position node).line ∧ b.column = (S.position node).column := by
  obtain ⟨name, kind, type, index, s, s', hrun⟩ := h
  rw [run_declare] at hrun
  cases hrun
  exact ⟨rfl, rfl⟩

/-- **Declarations share a variable** only if their names start at the same byte. -/
theorem start_eq (h : DeclaredAt S node b) (h' : DeclaredAt S node' b)
    (hnode : node.start ≤ S.bytes.size) (hnode' : node'.start ≤ S.bytes.size) :
    node.start = node'.start := by
  obtain ⟨hline, hcolumn⟩ := h.position
  obtain ⟨hline', hcolumn'⟩ := h'.position
  exact S.start_eq_of_position_eq hnode hnode' (hline.symm.trans hline')
    (hcolumn.symm.trans hcolumn')

end DeclaredAt

/-- The node names a field that a member of the type declares. -/
def NamesField (ds : List (String × Tree)) (type : String) (node : Tree) : Prop :=
  ∃ d ∈ ds, d.2.isTypeDeclaration = true ∧ d.1 = type ∧ ∃ m ∈ d.2.members, node ∈ m.1.fieldNodes

/-- The variable is made by a declaration of the unit.  A parameter has a place in the list of one of
the methods.  A field stands outside of methods, in the type with the member that declares it. -/
structure Accounted (S : Source) (ds : List (String × Tree)) (methods : List Signature)
    (b : Binding) : Prop where
  unit : b.unit = S.path
  declared : ∃ node, DeclaredAt S node b
  parameter : b.kind = .parameter →
    ∃ m ∈ methods, b.owner = some m ∧ 0 ≤ b.index ∧ b.index < m.arity
  field : b.kind = .field → b.owner = none ∧
    ∃ type node, b.declaringType = some type ∧ NamesField ds type node ∧ DeclaredAt S node b

/-- A declaration that may stand where it is read makes a variable that is accounted for. -/
theorem accounted_newVariable {S : Source} {ds : List (String × Tree)} {methods : List Signature}
    {s : State} {node : Tree} {kind : VariableKind} {index : Int}
    (hmethod : ∀ m, s.method = some m → m ∈ methods)
    (h : MayDeclare (NamesField ds) s node kind index) (type : Option String) :
    Accounted S ds methods (newVariable S s (S.text node) kind type node index) := by
  have hdeclared : DeclaredAt S node (newVariable S s (S.text node) kind type node index) :=
    ⟨_, _, _, _, _, _, run_declare S (S.text node) kind type node index s⟩
  refine ⟨rfl, ⟨node, hdeclared⟩, fun hkind => ?_, fun hkind => ?_⟩
  · cases h with
    | parameter hm hplace =>
      exact ⟨_, hmethod _ hm, hm, Int.natCast_nonneg _, Int.ofNat_lt.2 hplace⟩
    | _ => cases hkind
  · cases h with
    | field hnone hclass hfield => exact ⟨hnone, _, node, hclass, hfield, hdeclared⟩
    | _ => cases hkind

/-! ### Variables of a state -/

/-- The expression belongs to the closed set of forms, and if it is a name, it refers to a variable
with the property or to nothing that is known. -/
structure Refers (P : Binding → Prop) (e : Expr) : Prop where
  form : ∀ o, e ≠ .textOnly o
  target : ∀ n b, e = .name n → n.binding = some b → P b

theorem Refers.of_target? {P : Binding → Prop} {e : Expr} (h : ∀ x : Expr, x.Within e → Refers P x)
    {b : Binding} (hb : State.target? (some e) = some b) : P b := by
  unfold State.target? at hb
  split at hb
  · rename_i n heq
    exact (h _ .refl).target n b (Option.some.inj heq) hb
  · rename_i o q n heq
    have hwithin : Expr.Within (.name n) e := by
      rw [Option.some.inj heq]
      exact Expr.within_of_mem_components (List.mem_append_right _ List.mem_cons_self)
    exact (h _ hwithin).target n b rfl hb
  · cases hb

namespace State

theorem method_addVariable (s : State) (b : Binding) : (s.addVariable b).method = s.method :=
  (congrArg State.method (s.addVariable_eq b) :)

/-- The variables in scope and the fields have a property, and so have those with a value, none of
which is a parameter. -/
structure KnowsOnly (P : Binding → Prop) (s : State) : Prop where
  scopes : ∀ scope ∈ s.scopes, ∀ b ∈ scope.values, P b
  fields : ∀ scope ∈ s.fields.values, ∀ b ∈ scope.values, P b
  bindings : ∀ b ∈ s.bindings.keys, P b ∧ b.kind ≠ .parameter

theorem Fresh.knowsOnly {s : State} (h : s.Fresh) (P : Binding → Prop) : s.KnowsOnly P := by
  constructor
  case scopes => simp [h.scopes]
  case fields => simp [h.fields, Table.values]
  case bindings => simp [h.bindings, Table.keys]

namespace KnowsOnly

variable {P : Binding → Prop} {s : State} (h : s.KnowsOnly P)

include h

theorem lookup {name : String} {b : Binding} (hb : s.lookup name = some b) : P b := by
  obtain ⟨scope, hscope, hget⟩ := List.exists_of_findSome?_eq_some hb
  exact h.scopes scope hscope b (Table.mem_values_of_get? hget)

theorem member {owner : Option String} {name : String} {b : Binding}
    (hb : s.member? owner name = some b) : P b := by
  obtain ⟨type, scope, hscope, hget⟩ := exists_scope_of_member? hb
  exact h.fields scope (Table.mem_values_of_get? hscope) b (Table.mem_values_of_get? hget)

theorem pushScope : s.pushScope.KnowsOnly P :=
  { h with scopes := List.forall_mem_cons.2 ⟨List.forall_mem_nil _, h.scopes⟩ }

theorem popScope : s.popScope.KnowsOnly P :=
  { h with scopes := fun scope hscope => h.scopes scope (List.mem_of_mem_tail hscope) }

theorem addVariable {b : Binding} (hb : P b) : (s.addVariable b).KnowsOnly P := by
  unfold State.addVariable
  split
  · exact h
  · rename_i scope rest hscopes
    obtain ⟨hscope, hrest⟩ := List.forall_mem_cons.1 (hscopes ▸ h.scopes)
    refine { h with scopes := List.forall_mem_cons.2 ⟨?_, hrest⟩ }
    exact Table.forall_values_insert hscope _ hb

theorem insert_bindings {b : Binding} (hb : P b) (hkind : b.kind ≠ .parameter) (e : Expr) :
    ∀ b' ∈ (s.bindings.insert b e).keys, P b' ∧ b'.kind ≠ .parameter := by
  intro b' hb'
  rcases Table.mem_keys_insert.1 hb' with hb' | rfl
  · exact h.bindings b' hb'
  · exact ⟨hb, hkind⟩

theorem bind {b : Binding} (hb : P b) (hkind : b.kind ≠ .parameter) (e : Expr) :
    (s.bind b (some e)).KnowsOnly P :=
  { h with bindings := h.insert_bindings hb hkind e }

/-- An assignment to a parameter is not noted. -/
theorem assign (operator : String) {left : Option Expr}
    (hleft : ∀ e ∈ left, ∀ b, target? (some e) = some b → P b) (right : Option Expr) :
    (s.assign operator left right).KnowsOnly P := by
  rcases s.assign_cases operator left right with heq | ⟨b, value, htarget, -, ⟨-, hkind, -⟩, heq⟩
  · rwa [heq]
  · rw [heq]
    cases left with
    | none => cases htarget
    | some e => exact { h with bindings := h.insert_bindings (hleft e rfl b htarget) hkind value }

theorem addFields {type : String} (hfields : ∀ b ∈ s.innermost.values, P b) :
    (s.addFields type).KnowsOnly P :=
  { h with fields := Table.forall_values_insert h.fields type hfields }

end KnowsOnly

/-- All that was read refers to variables that are accounted for, under the names that the unit
knows. -/
structure Traced (S : Source) (E : State) (ds : List (String × Tree)) (methods : List Signature)
    (s : State) : Prop where
  names : s.names = E.names
  method : ∀ m, s.method = some m → m ∈ methods
  knows : s.KnowsOnly (Accounted S ds methods)
  holds : s.HoldsOnly (Refers (Accounted S ds methods))

end State

/-! ### Reading -/

/-- A run goes along with itself, and accounts for all variables by declarations of the unit. -/
def accounting (S : Source) (E : State) (ds : List (String × Tree)) (methods : List Signature)
    (hmethods : ∀ d ∈ ds, d.2.isMethod = true →
      signatureOf S d.1 d.2 (readParameters S E d.2) ∈ methods) : Coupling S where
  alike s t := t = s ∧ State.Traced S E ds methods s
  sound := Refers (Accounted S ds methods)
  known := Accounted S ds methods
  reaches _ := true
  declares := NamesField ds
  reads type m := (type, m) ∈ ds ∧ m.isMethod = true
  owns _ := True
  method := fun ⟨h, _⟩ => by rw [h]
  currentClass := fun ⟨h, _⟩ => by rw [h]
  resolveType := fun ⟨h, _⟩ => by rw [h]
  superclass := fun ⟨h, _⟩ _ => by rw [h]
  typeName := fun ⟨h, _⟩ _ => by rw [h]
  lookup := fun ⟨h, _⟩ _ => by rw [h]
  member := fun ⟨h, _⟩ _ _ _ => by rw [h]
  header := fun ⟨h, _⟩ _ => by rw [h]
  plain e he := by
    refine ⟨fun o ho => ?_, fun n b hn _ => ?_⟩
    · rw [ho] at he
      cases he
    · rw [hn] at he
      cases he
  variableName hb _ _ := ⟨nofun, fun n b' hn hb' => by
    cases hn
    exact Option.some.inj hb' ▸ hb⟩
  name h _ _ := ⟨nofun, fun n b hn hb => by
    cases hn
    exact h.2.knows.lookup hb⟩
  access h _ _ _ _ _ _ := by
    refine ⟨⟨nofun, fun n b hn hb => ?_⟩, nofun, fun n b hn => nomatch hn⟩
    cases hn
    exact h.2.knows.member hb
  call _ _ _ _ _ _ _ := ⟨nofun, fun n b hn => nomatch hn⟩
  pushScope := fun ⟨h, hs⟩ => ⟨by rw [h], hs.names, hs.method, hs.knows.pushScope,
    { hs.holds with }⟩
  popScope := fun ⟨h, hs⟩ => ⟨by rw [h], hs.names, hs.method, hs.knows.popScope,
    { hs.holds with }⟩
  knows h _ _ _ hdeclare type := accounted_newVariable h.2.method hdeclare type
  addVariable := fun {s _} ⟨h, hs⟩ b hb => by
    refine ⟨by rw [h], (s.names_addVariable b).trans hs.names, ?_, hs.knows.addVariable hb,
      hs.holds.addVariable b⟩
    rw [State.method_addVariable]
    exact hs.method
  bind := fun ⟨h, hs⟩ _ _ hb hkind he => ⟨by rw [h], hs.names, hs.method,
    hs.knows.bind hb hkind _, hs.holds.bind _ he⟩
  addCall := fun ⟨h, hs⟩ _ hcall he => ⟨by rw [h], hs.names, hs.method, { hs.knows with },
    hs.holds.addCall ⟨hcall, he⟩⟩
  assign := fun {s _} ⟨h, hs⟩ left right hleft hright operator => by
    have hmethod := congrArg State.method (s.outline_assign operator left right)
    exact ⟨by rw [h], (s.names_assign operator left right).trans hs.names,
      fun m hm => hs.method m (hmethod.symm.trans hm),
      hs.knows.assign operator (fun e he b hb => Refers.of_target? (hleft e he) hb) right,
      hs.holds.assign operator left hright⟩
  enterType := fun ⟨h, hs⟩ _ _ => ⟨by rw [h], hs.names, nofun, { hs.knows.pushScope with },
    { hs.holds with calls := nofun }⟩
  leaveType := fun ⟨h, hs⟩ _ _ ⟨h', hs'⟩ => ⟨by rw [h, h'], hs'.names, hs.method,
    { hs'.knows.popScope with }, { hs'.holds with calls := hs.holds.calls }⟩
  addFields := fun ⟨h, hs⟩ _ _ hfields => ⟨by rw [h], hs.names, hs.method,
    hs.knows.addFields fun b hb => (hfields b hb).1, { hs.holds with }⟩
  enterMethod := fun {s _} ⟨h, hs⟩ type m hm => by
    refine ⟨by rw [h], hs.names, fun m' hm' => ?_, { hs.knows with },
      { hs.holds with calls := fun es hes => Option.some.inj hes ▸ List.forall_mem_nil _ }⟩
    have hnames := hs.names
    simp only [State.names, Prod.mk.injEq] at hnames
    have hparameters : readParameters S s m = readParameters S E m :=
      readParameters_congr S (State.resolveType_congr hnames.1 hnames.2.1) m
    rw [← Option.some.inj hm', hparameters]
    exact hmethods _ hm.1 hm.2
  leaveMethod := fun ⟨h, hs⟩ _ _ ⟨h', hs'⟩ _ _ hbody => ⟨by rw [h, h'], hs'.names, hs.method,
    { hs'.knows with }, hs'.holds.leaveMethod hs.holds hbody⟩

/-- The methods of a declared type are declared with it. -/
theorem mem_declared_of_isMethod {S : Source} {naming : Naming} {around : Option String} {t : Tree}
    {d : String × Tree} (hd : d ∈ declared S naming around t) (htype : d.2.isTypeDeclaration = true)
    {m : { c : Tree // c.size < d.2.size }} (hm : m ∈ d.2.members) (hmethod : m.1.isMethod = true) :
    (d.1, m.1) ∈ declared S naming around t := by
  induction hsize : t.size using Nat.strongRecOn generalizing t around with
  | ind n ih =>
    rw [declared_eq] at hd ⊢
    refine List.mem_cons_of_mem _ ?_
    rcases List.mem_cons.1 hd with rfl | hd
    · refine List.mem_flatMap.2 ⟨m, hm, ?_⟩
      rw [declaredIn_of_isMethod hmethod]
      exact List.mem_singleton_self _
    · obtain ⟨c, hc, hd⟩ := List.mem_flatMap.1 hd
      refine List.mem_flatMap.2 ⟨c, hc, ?_⟩
      unfold declaredIn at hd ⊢
      split at hd
      · rename_i hnested
        rw [if_pos hnested]
        exact ih c.1.size (hsize ▸ c.2) hd rfl
      · split at hd
        · rename_i hctype hcmethod
          rw [List.mem_singleton.1 hd] at htype
          exact absurd htype hctype
        · cases hd

theorem mem_readDeclarations_of_isMethod {S : Source} {root : Tree} {d : String × Tree}
    (hd : d ∈ readDeclarations S root) (htype : d.2.isTypeDeclaration = true)
    {m : { c : Tree // c.size < d.2.size }} (hm : m ∈ d.2.members) (hmethod : m.1.isMethod = true) :
    (d.1, m.1) ∈ readDeclarations S root := by
  obtain ⟨t, ht, hd⟩ := List.mem_flatMap.1 hd
  exact List.mem_flatMap.2 ⟨t, ht, mem_declared_of_isMethod hd htype hm hmethod⟩

/-- The signatures of a unit, declaration by declaration. -/
theorem signatures_readUnit {S : Source} {root : Tree} {s : State}
    (hrun : (readUnit S root).run {} = .ok ((), s)) :
    s.methods.map (·.signature) = ((readDeclarations S root).filter (·.2.isMethod)).map fun d =>
      signatureOf S d.1 d.2 (readParameters S (collected S root) d.2) := by
  have hheadings := congrArg (List.map Method.signature) (headings_readUnit hrun)
  rw [List.map_map, List.map_map] at hheadings
  exact hheadings

/-- **All that is kept of a unit** refers to variables that are accounted for by its declarations and
its methods. -/
theorem accounted_readUnit {S : Source} {root : Tree} {s : State}
    (hrun : (readUnit S root).run {} = .ok ((), s)) :
    State.Traced S (collected S root) (readDeclarations S root) (s.methods.map (·.signature)) s := by
  have hmethods : ∀ d ∈ readDeclarations S root, d.2.isMethod = true →
      signatureOf S d.1 d.2 (readParameters S (collected S root) d.2) ∈
        s.methods.map (·.signature) := by
    intro d hd hmethod
    rw [signatures_readUnit hrun]
    exact List.mem_map_of_mem (List.mem_filter.2 ⟨hd, hmethod⟩)
  have hfresh := fresh_collected S root
  have hstart : State.Traced S (collected S root) (readDeclarations S root)
      (s.methods.map (·.signature)) (collected S root) := by
    refine ⟨rfl, ?_, hfresh.knowsOnly _, hfresh.holdsOnly _⟩
    rw [hfresh.method]
    exact nofun
  have halike := alike_readUnit (accounting S _ _ _ hmethods) (fun _ => rfl)
    (fun d hd htype => ⟨trivial, fun m hm n hn => ⟨d, hd, htype, rfl, m, hm, hn⟩,
      fun m hm hmethod => ⟨mem_readDeclarations_of_isMethod hd htype hm hmethod, hmethod⟩⟩)
    ⟨rfl, hstart⟩ hrun
  exact halike.2

end TaintFlow.Java
