import TaintFlow.Proofs.Java.LockstepTypes
import TaintFlow.Proofs.Java.TypeNames

/-!
# How calls are typed

The first pass notes the return type of each method under its type, its name and its number of
parameters, so of several methods that agree in these the last one stays.  From this table every
call of the unit gets its type, wherever in the unit it stands (`typed_of_holds`).

* `returnType?_collected` : what the table says, told from the declarations.
* `returnTypes_eq` : the same, told from the methods of the unit, if the two passes name the types
  alike.
* `headings_readUnit` : the methods of a unit but for their bodies, told from the declarations.
-/

namespace TaintFlow.Java

open TaintFlow.Code TaintFlow.Types Read

/-! ### Expressions of a unit -/

/-- The names that a unit knows. -/
def State.names (s : State) :
    Table String String × Table String String × Table HeaderKey String :=
  (s.imports, s.localTypes, s.headers)

theorem State.resolveType_congr {s t : State} (himports : t.imports = s.imports)
    (htypes : t.localTypes = s.localTypes) : t.resolveType = s.resolveType := by
  funext text
  simp only [resolveType, qualifiedHead?, himports, htypes]

theorem State.returnType?_congr {s t : State} (h : t.names = s.names) :
    t.returnType? = s.returnType? := by
  simp only [names, Prod.mk.injEq] at h
  funext type name arity
  simp only [returnType?, h.2.2, resolveType_congr h.1 h.2.1]

theorem State.names_addVariable (s : State) (b : Binding) :
    (s.addVariable b).names = s.names :=
  (congrArg State.names (s.addVariable_eq b) :)

theorem State.names_assign (s : State) (operator : String) (left right : Option Expr) :
    (s.assign operator left right).names = s.names :=
  (congrArg State.names (s.assign_eq operator left right) :)

/-- A call has the type that the headers of the unit give it.  If its receiver is a variable, it is
made on the declared type of the variable. -/
def Typed (E : State) : Expr → Prop
  | .call _ name receiver args type result =>
    result = E.returnType? type name args.length ∧
      ∀ n b, receiver = some (.name n) → n.binding = some b → type = b.declaredType
  | _ => True

/-- The expressions that a state keeps have a property, and so have all that stand in them.  Nothing
but calls is listed as a call. -/
structure State.HoldsOnly (P : Expr → Prop) (s : State) : Prop where
  bodies : ∀ m ∈ s.methods, ∀ e ∈ Stmt.exprsOpt m.body, ∀ x : Expr, x.Within e → P x
  calls : ∀ es ∈ s.calls, ∀ e ∈ es, e.isCall = true ∧ ∀ x : Expr, x.Within e → P x
  methodCalls : ∀ es ∈ s.methodCalls.values, ∀ e ∈ es,
    e.isCall = true ∧ ∀ x : Expr, x.Within e → P x
  bindings : ∀ e ∈ s.bindings.values, ∀ x : Expr, x.Within e → P x

namespace State.HoldsOnly

variable {P : Expr → Prop} {s outer : State} (h : HoldsOnly P s)

include h

theorem addVariable (b : Binding) : HoldsOnly P (s.addVariable b) := by
  rw [s.addVariable_eq]
  exact { h with }

theorem bind (b : Binding) {e : Expr} (he : ∀ x : Expr, x.Within e → P x) :
    HoldsOnly P (s.bind b (some e)) :=
  { h with bindings := Table.forall_values_insert h.bindings b he }

theorem addCall {call : Expr} (hcall : call.isCall = true ∧ ∀ x : Expr, x.Within call → P x) :
    HoldsOnly P (s.addCall call) := by
  refine { h with calls := fun es hes e he => ?_ }
  obtain ⟨es', hes', rfl⟩ := Option.map_eq_some_iff.1 hes
  rcases List.mem_append.1 he with he | he
  · exact h.calls es' hes' e he
  · rw [List.mem_singleton.1 he]
    exact hcall

theorem assign (operator : String) (left : Option Expr) {right : Option Expr}
    (hright : ∀ e ∈ right, ∀ x : Expr, x.Within e → P x) :
    HoldsOnly P (s.assign operator left right) := by
  rcases s.assign_cases operator left right with heq | ⟨b, value, -, hvalue, -, heq⟩
  · rwa [heq]
  · rw [heq]
    exact { h with bindings := Table.forall_values_insert h.bindings b (hright value hvalue) }

theorem leaveMethod (houter : HoldsOnly P outer) {m : Method}
    (hbody : ∀ e ∈ Stmt.exprsOpt m.body, ∀ x : Expr, x.Within e → P x) :
    HoldsOnly P (s.leaveMethod outer m) := by
  refine { h with calls := houter.calls, methodCalls := ?methodCalls, bodies := ?bodies }
  case methodCalls =>
    refine Table.forall_values_update h.methodCalls _ (List.forall_mem_nil _) fun es hes e he => ?_
    rcases List.mem_append.1 he with he | he
    · exact hes e he
    · cases hcalls : s.calls with
      | none => simp [hcalls] at he
      | some calls =>
        rw [hcalls] at he
        exact h.calls calls hcalls e he
  case bodies =>
    intro m' hm'
    rcases List.mem_append.1 hm' with hm' | hm'
    · exact h.bodies m' hm'
    · rw [List.mem_singleton.1 hm']
      exact hbody

end State.HoldsOnly

theorem State.Fresh.holdsOnly {s : State} (h : s.Fresh) (P : Expr → Prop) : s.HoldsOnly P := by
  constructor
  case bodies => simp [h.methods]
  case calls => simp [h.calls]
  case methodCalls => simp [h.methodCalls, Table.values]
  case bindings => simp [h.bindings, Table.values]

/-- All calls are typed so, wherever an expression is kept. -/
structure State.TypedBy (E s : State) : Prop where
  names : s.names = E.names
  holds : s.HoldsOnly (Typed E)

/-- A run goes along with itself, and types all calls by the names of the unit. -/
def typing (S : Source) (E : State) : Coupling S where
  alike s t := t = s ∧ State.TypedBy E s
  sound := Typed E
  known _ := True
  reaches _ := true
  declares _ _ := True
  reads _ _ := True
  owns _ := True
  method := fun ⟨h, _⟩ => by rw [h]
  currentClass := fun ⟨h, _⟩ => by rw [h]
  resolveType := fun ⟨h, _⟩ => by rw [h]
  superclass := fun ⟨h, _⟩ _ => by rw [h]
  typeName := fun ⟨h, _⟩ _ => by rw [h]
  lookup := fun ⟨h, _⟩ _ => by rw [h]
  member := fun ⟨h, _⟩ _ _ _ => by rw [h]
  header := fun ⟨h, _⟩ _ => by rw [h]
  plain e he := by
    cases e with
    | call => cases he
    | _ => trivial
  variableName _ _ _ := trivial
  name _ _ _ := trivial
  access _ _ _ _ _ _ _ := ⟨trivial, trivial⟩
  call := by
    rintro s _ ⟨rfl, hs⟩ receiver type hreceives o name args
    refine ⟨by rw [State.returnType?_congr hs.names], ?_⟩
    rintro n b rfl hb
    obtain ⟨s', node, rfl⟩ := hreceives _ rfl
    simp [receiverType, hb]
  pushScope := fun ⟨h, hs⟩ => ⟨by rw [h], hs.names, { hs.holds with }⟩
  popScope := fun ⟨h, hs⟩ => ⟨by rw [h], hs.names, { hs.holds with }⟩
  knows _ _ _ _ _ _ := trivial
  addVariable := fun {s _} ⟨h, hs⟩ b _ => ⟨by rw [h],
    (s.names_addVariable b).trans hs.names, hs.holds.addVariable _⟩
  bind := fun ⟨h, hs⟩ _ _ _ _ he => ⟨by rw [h], hs.names, hs.holds.bind _ he⟩
  addCall := fun ⟨h, hs⟩ _ hcall he => ⟨by rw [h], hs.names, hs.holds.addCall ⟨hcall, he⟩⟩
  assign := fun {s _} ⟨h, hs⟩ _ _ _ hright operator => ⟨by rw [h],
    (s.names_assign operator _ _).trans hs.names, hs.holds.assign _ _ hright⟩
  enterType := fun ⟨h, hs⟩ _ _ => ⟨by rw [h], hs.names, { hs.holds with calls := nofun }⟩
  leaveType := fun ⟨h, hs⟩ _ _ ⟨h', hs'⟩ => ⟨by rw [h, h'], hs'.names,
    { hs'.holds with calls := hs.holds.calls }⟩
  addFields := fun ⟨h, hs⟩ _ _ _ => ⟨by rw [h], hs.names, { hs.holds with }⟩
  enterMethod := fun ⟨h, hs⟩ _ _ _ => ⟨by rw [h], hs.names,
    { hs.holds with calls := fun es hes => Option.some.inj hes ▸ List.forall_mem_nil _ }⟩
  leaveMethod := fun ⟨h, hs⟩ _ _ ⟨h', hs'⟩ _ _ hbody => ⟨by rw [h, h'], hs'.names,
    hs'.holds.leaveMethod hs.holds hbody⟩

/-- **A run that goes along with itself** keeps up what the coupling says, through a whole unit. -/
theorem alike_readUnit {S : Source} {root : Tree} {s : State} (C : Coupling S)
    (hreaches : ∀ name, C.reaches name = true)
    (hhosts : ∀ d ∈ readDeclarations S root, d.2.isTypeDeclaration = true → C.Hosts d)
    (hstart : C.alike (collected S root) (collected S root))
    (hrun : (readUnit S root).run {} = .ok ((), s)) : C.alike s s := by
  have hlockstep : Lockstep (RelatedAt C.alike (none, (collected S root).localTypes, 0))
      (root.types.forM (readType S)) fun _ => True := by
    refine .forM fun t ht => lockstep_readType C.surrounds_alike (List.mem_filter.1 ht).2 ?_
      fun d hd => hhosts d (List.mem_flatMap.2 ⟨t, ht, hd⟩)
    refine Tree.all_of_forall (fun n => ?_) t
    cases hfield : S.reachedField? n <;> simp [Coupling.admits, hfield, hreaches]
  rcases hlockstep _ _ ⟨hstart, (fresh_collected S root).place⟩ with
    ⟨_, s', t', hs, ht, ⟨halike, -⟩, -⟩ | ⟨f, hs, -⟩
  · obtain ⟨-, rfl⟩ := Prod.mk.inj (Except.ok.inj (hs.symm.trans (run_readUnit hrun)))
    obtain ⟨-, rfl⟩ := Prod.mk.inj (Except.ok.inj (ht.symm.trans (run_readUnit hrun)))
    exact halike
  · cases hs.symm.trans (run_readUnit hrun)

theorem typedBy_readUnit {S : Source} {root : Tree} {s : State}
    (hrun : (readUnit S root).run {} = .ok ((), s)) : State.TypedBy (collected S root) s := by
  have halike := alike_readUnit (typing S (collected S root)) (fun _ => rfl)
    (fun d _ _ => ⟨trivial, fun _ _ _ _ => trivial, fun _ _ _ => trivial⟩)
    ⟨rfl, rfl, (fresh_collected S root).holdsOnly _⟩ hrun
  exact halike.2

theorem exists_state_of_unitOfTree {S : Source} {root : Tree} {u : SourceUnit}
    (h : unitOfTree S root = .ok u) :
    ∃ s, (readUnit S root).run {} = .ok ((), s) ∧
      u = { path := S.path, package := s.package, imports := s.imports, methods := s.methods,
            calls := s.methodCalls, bindings := s.bindings } := by
  unfold unitOfTree at h
  split at h
  · cases h
  · rename_i s hrun
    exact ⟨s, hrun, (Except.ok.inj h).symm⟩

/-- What stands somewhere in a unit stands in what its state keeps. -/
theorem State.HoldsOnly.of_holds {P : Expr → Prop} {s : State} (h : s.HoldsOnly P)
    {u : SourceUnit} (hmethods : u.methods = s.methods) (hcalls : u.calls = s.methodCalls)
    (hbindings : u.bindings = s.bindings) {e : Expr} (he : u.Holds e) : P e := by
  obtain ⟨x, hx, hwithin⟩ := he
  rw [SourceUnit.expressions, hmethods, hcalls, hbindings] at hx
  rcases List.mem_append.1 hx with hx | hx
  · obtain ⟨m, hm, hx⟩ := List.mem_flatMap.1 hx
    exact h.bodies m hm x hx e hwithin
  · rcases List.mem_append.1 hx with hx | hx
    · obtain ⟨es, hes, hx⟩ := List.mem_flatten.1 hx
      exact (h.methodCalls es hes x hx).2 e hwithin
    · exact h.bindings x hx e hwithin

/-- **Every call that stands in a unit** is typed by what the first pass noted. -/
theorem typed_of_holds {S : Source} {root : Tree} {u : SourceUnit}
    (h : unitOfTree S root = .ok u) {e : Expr} (he : u.Holds e) : Typed (collected S root) e := by
  obtain ⟨s, hrun, rfl⟩ := exists_state_of_unitOfTree h
  exact (typedBy_readUnit hrun).holds.of_holds rfl rfl rfl he

/-! ### Headers -/

/-- Whether a declaration is that of a method whose header is noted under the key. -/
def isHeader (S : Source) (key : HeaderKey) (d : String × Tree) : Bool :=
  d.2.type == "method_declaration" && headerKey S d == key

theorem get?_headers_noted (S : Source) (s : State) (d : String × Tree) (key : HeaderKey) :
    (noted S s d).headers.get? key =
      if isHeader S key d then some (S.textOf (d.2.child? "type")) else s.headers.get? key := by
  unfold noted isHeader
  by_cases hmethod : d.2.type = "method_declaration"
  · have htype : d.2.isTypeDeclaration = false := by
      rw [Tree.isTypeDeclaration, hmethod]
      decide
    simp only [htype, hmethod, beq_self_eq_true, Bool.true_and, if_true, Bool.false_eq_true, if_false,
      Table.get?_insert, beq_iff_eq]
    simp only [eq_comm]
  · have hne : (d.2.type == "method_declaration") = false := beq_false_of_ne hmethod
    simp only [hne, Bool.false_and, Bool.false_eq_true, if_false]
    split <;> rfl

/-- Of the headers with a key the last one stays. -/
theorem get?_headers_foldl_noted (S : Source) (ds : List (String × Tree)) (s : State)
    (key : HeaderKey) :
    (ds.foldl (noted S) s).headers.get? key =
      ((ds.filter (isHeader S key)).getLast?.map fun d => S.textOf (d.2.child? "type")).or
        (s.headers.get? key) := by
  induction ds generalizing s with
  | nil => rfl
  | cons d ds ih =>
    rw [List.foldl_cons, ih, get?_headers_noted, List.filter_cons]
    cases isHeader S key d with
    | false => rfl
    | true =>
      simp only [if_true, List.getLast?_cons]
      cases (ds.filter (isHeader S key)).getLast? <;> rfl

theorem get?_headers_collected (S : Source) (root : Tree) (key : HeaderKey) :
    (collected S root).headers.get? key =
      ((javaDeclarations S root).filter (isHeader S key)).getLast?.map
        fun d => S.textOf (d.2.child? "type") := by
  rw [collected, get?_headers_foldl_noted, (headed_tables S root).2]
  exact Option.or_none

/-- The return types of the methods that are declared with a type, a name and a number of
parameters, in the order of the source. -/
def returnTypes (S : Source) (root : Tree) (key : HeaderKey) : List (Option String) :=
  ((javaDeclarations S root).filter (isHeader S key)).map fun d =>
    (collected S root).resolveType (S.textOf (d.2.child? "type"))

/-- **The type of a call** is the last of these. -/
theorem returnType?_collected (S : Source) (root : Tree) (type : Option String) (name : String)
    (arity : Nat) :
    (collected S root).returnType? type name arity =
      type.bind fun q => (returnTypes S root (q, name, arity)).getLast?.join := by
  cases type with
  | none => rfl
  | some q =>
    have hget := get?_headers_collected S root (q, name, arity)
    rw [Option.bind_some, returnTypes, List.getLast?_map]
    cases hlast : ((javaDeclarations S root).filter (isHeader S (q, name, arity))).getLast? with
    | none =>
      rw [hlast] at hget
      simp [State.returnType?, hget]
    | some d =>
      rw [hlast] at hget
      simp [State.returnType?, hget]

/-! ### Methods -/

/-- All of a method but its body. -/
def methodHeading (m : Method) : Method :=
  { m with body := none }

/-- What a declaration says of a method, given the names that the unit knows. -/
def headingOf (S : Source) (s : State) (d : String × Tree) : Method :=
  methodOf S d.1 (d.2.type != "method_declaration") d.2 (readParameters S s d.2) s none

theorem headingOf_congr (S : Source) {s s' : State} (h : s'.resolveType = s.resolveType) :
    headingOf S s' = headingOf S s := by
  funext d
  rw [headingOf, headingOf, readParameters_congr S h, methodOf, methodOf, h]

theorem heading_readMethod {S : Source} {type : String} {m : Tree} {s s' : State}
    (hrun : (readMethod S type (m.type != "method_declaration") m).run s = .ok ((), s')) :
    s'.resolveType = s.resolveType ∧
      s'.methods.map methodHeading = s.methods.map methodHeading ++ [headingOf S s (type, m)] := by
  rw [run_readMethod] at hrun
  obtain ⟨p, hbody, hleave⟩ := bind_eq_ok_iff.1 hrun
  cases hleave
  have houtline := leads_methodBody allows_outline S _ m _ _ _ hbody
  have hresolve : p.2.resolveType = s.resolveType := (congrArg State.resolveType houtline :)
  have hmethods : p.2.methods = s.methods := (congrArg State.methods houtline :)
  refine ⟨hresolve, ?_⟩
  simp only [State.leaveMethod, hmethods, List.map_append, List.map_cons, List.map_nil, methodHeading,
    methodOf, headingOf, hresolve]

/-- Methods are read with what their declarations say of them. -/
theorem describes_headings (S : Source) : Describes S fun ds s s' =>
    s'.resolveType = s.resolveType ∧
      s'.methods.map methodHeading =
        s.methods.map methodHeading ++ (ds.filter (·.2.isMethod)).map (headingOf S s) where
  nil s := ⟨rfl, by simp⟩
  append := by
    rintro ds ds' s s' s'' ⟨hs, hmethods⟩ ⟨hs', hmethods'⟩
    refine ⟨hs'.trans hs, ?_⟩
    rw [hmethods', hmethods, headingOf_congr S hs, List.filter_append, List.map_append,
      List.append_assoc]
  fields := by
    intro type t members s s' ht hrun
    obtain ⟨scope, houtline⟩ := outline_readFields hrun
    have hmethods : s'.methods = s.methods := (congrArg State.methods houtline :)
    refine ⟨(congrArg State.resolveType houtline :), ?_⟩
    simp [hmethods, Tree.not_isMethod_of_isTypeDeclaration ht]
  method := by
    intro type m s s' hm hrun
    obtain ⟨hs, hmethods⟩ := heading_readMethod hrun
    exact ⟨hs, by simpa [hm] using hmethods⟩
  inside h := h

/-- **The methods of a unit**, declaration by declaration. -/
theorem headings_readUnit {S : Source} {root : Tree} {s : State}
    (hrun : (readUnit S root).run {} = .ok ((), s)) :
    s.methods.map methodHeading =
      ((readDeclarations S root).filter (·.2.isMethod)).map (headingOf S (collected S root)) := by
  obtain ⟨-, hmethods⟩ := (describes_headings S).readUnit hrun
  rw [hmethods, (fresh_collected S root).methods, List.map_nil, List.nil_append]

theorem length_readParameters (S : Source) (s : State) (d : String × Tree) :
    (readParameters S s d.2).length = (headerKey S d).2.2 := by
  unfold readParameters headerKey
  cases d.2.child? "parameters" with
  | none => rfl
  | some ps =>
    simp only [List.length_filterMap_eq_countP, List.countP_eq_length_filter]
    congr 2
    funext p
    unfold readParameter
    cases hformal : p.1.type == "formal_parameter" with
    | true => simp
    | false => cases hspread : p.1.type == "spread_parameter" <;> simp

/-- The methods with a declaring type, a name and a number of parameters.  Constructors do not
count. -/
def overloads (methods : List Method) (key : HeaderKey) : List Method :=
  methods.filter fun m => !m.isConstructor &&
    (m.signature.declaringType, m.signature.name, m.signature.arity) == key

theorem isHeader_of_heading {S : Source} {s : State} {d : String × Tree} {m : Method}
    (h : methodHeading m = headingOf S s d) (key : HeaderKey) :
    isHeader S key d = (!m.isConstructor &&
      (m.signature.declaringType, m.signature.name, m.signature.arity) == key) := by
  have hconstructor : m.isConstructor = (d.2.type != "method_declaration") :=
    congrArg Method.isConstructor h
  have hsignature : m.signature = signatureOf S d.1 d.2 (readParameters S s d.2) :=
    congrArg Method.signature h
  have harity : m.signature.arity = (headerKey S d).2.2 := by
    rw [hsignature, ← length_readParameters S s d]
    exact List.length_map _
  rw [isHeader, hconstructor, harity, hsignature, bne, Bool.not_not]
  rfl

/-- If the passes name the types alike, the methods of a unit have the return types that their headers
tell. -/
theorem returnTypes_eq {S : Source} {root : Tree} {s : State}
    (hrun : (readUnit S root).run {} = .ok ((), s))
    (hnames : readDeclarations S root = javaDeclarations S root) (key : HeaderKey) :
    returnTypes S root key = (overloads s.methods key).map (·.returnType) := by
  have hheadings := headings_readUnit hrun
  rw [hnames, ← List.forall₂_eq_eq_eq, List.forall₂_map_left_iff, List.forall₂_map_right_iff] at hheadings
  have hfilter : ((javaDeclarations S root).filter (·.2.isMethod)).filter (isHeader S key) =
      (javaDeclarations S root).filter (isHeader S key) := by
    rw [List.filter_filter]
    refine List.filter_congr fun d _ => ?_
    cases hmethod : d.2.type == "method_declaration" <;> simp [isHeader, Tree.isMethod, hmethod]
  have hrelated : List.Forall₂ (fun m d => methodHeading m = headingOf S (collected S root) d)
      (overloads s.methods key) ((javaDeclarations S root).filter (isHeader S key)) := by
    rw [← hfilter]
    refine List.rel_filter (fun m d h => ?_) hheadings
    simp only [isHeader_of_heading h]
  have hheader : ∀ d ∈ (javaDeclarations S root).filter (isHeader S key),
      (d.2.type == "method_declaration") = true :=
    fun d hd => (Bool.and_eq_true_iff.1 (List.mem_filter.1 hd).2).1
  rw [returnTypes, ← List.forall₂_eq_eq_eq, List.forall₂_map_left_iff, List.forall₂_map_right_iff]
  refine ((List.forall₂_and_left _ _).2 ⟨hheader, hrelated.flip⟩).imp fun d m hdm => ?_
  obtain ⟨hd, h⟩ := hdm
  have hreturn : (methodHeading m).returnType = _ := congrArg Method.returnType h
  rw [methodHeading] at hreturn
  rw [hreturn]
  simp [headingOf, methodOf, bne, hd]

end TaintFlow.Java
