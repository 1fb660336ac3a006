import TaintFlow.Proofs.Code.Contents
import TaintFlow.Proofs.Java.Declarations
import TaintFlow.Proofs.Java.Production

/-!
# Runs of reading in lockstep

Two runs of a step of reading, from states that are alike in all that the step looks at, end with
one answer in states that are alike again, or fail alike (`Read.Lockstep`).

What states must have in common is not the same for every purpose.  A `Coupling` says when states
are alike, and what holds of the expressions and variables that are met on the way; its laws say
that reading looks at nothing else, and that the few changes it makes keep states alike.  Two
orders of the types of a unit are compared with one coupling, and a coupling of a run with itself
gives an invariant of reading.

Fields are looked for in the type of whatever object stands before a dot, so a coupling limits the
names with which that may happen (`Coupling.reaches`).
-/

namespace TaintFlow.Java

open TaintFlow.Code TaintFlow.Types

/-! ### What reading looks at -/

namespace State

/-- The field of a type, as far as fields are known. -/
def member? (s : State) (owner : Option String) (name : String) : Option Binding := do
  let type ← owner
  if type == "" then none
  let scope ← s.fields.get? type
  scope.get? name

/-- A variable that is found as a member is a field of some type. -/
theorem exists_scope_of_member? {s : State} {owner : Option String} {name : String}
    {b : Binding} (hb : s.member? owner name = some b) :
    ∃ type scope, s.fields.get? type = some scope ∧ scope.get? name = some b := by
  cases owner with
  | none => cases hb
  | some type =>
    simp only [member?, Option.bind_eq_bind, Option.bind_some] at hb
    split at hb
    · cases hb
    · obtain ⟨scope, hscope, hget⟩ := Option.bind_eq_some_iff.1 hb
      exact ⟨type, scope, hscope, hget⟩

/-- The return type that the headers give to a call on a type. -/
def returnType? (s : State) (type : Option String) (name : String) (arity : Nat) :
    Option String := do
  let type ← type
  let header ← s.headers.get? (type, name, arity)
  s.resolveType header

/-- The state inside a type. -/
def enterType (s : State) (type : String) : State :=
  { s.pushScope with classes := type :: s.classes, method := none, calls := none }

/-- The state after a type that was entered from `outer`. -/
def leaveType (s outer : State) : State :=
  { s.popScope with classes := outer.classes, method := outer.method, calls := outer.calls }

/-- The state inside a method. -/
def enterMethod (s : State) (signature : Signature) : State :=
  { s with method := some signature, calls := some [] }

/-- The state after a method that was entered from `outer`. -/
def leaveMethod (s outer : State) (m : Method) : State :=
  { s with
    methods := s.methods ++ [m]
    methodCalls := s.methodCalls.update m.signature [] (· ++ s.calls.getD [])
    method := outer.method
    calls := outer.calls }

/-- The variables of the innermost scope. -/
def innermost (s : State) : Scope :=
  s.scopes.head?.getD {}

/-- The state in which the variables of the innermost scope are the fields of a type. -/
def addFields (s : State) (type : String) : State :=
  { s with fields := s.fields.insert type s.innermost }

end State

/-- The variable that a declaration makes. -/
def newVariable (S : Source) (s : State) (name : String) (kind : VariableKind)
    (type : Option String) (node : Tree) (index : Int) : Binding where
  unit := S.path
  name := name
  kind := kind
  declaredType := type
  owner := s.method
  declaringType := s.currentClass
  index := index
  line := (S.position node).line
  column := (S.position node).column

/-- The signature of a method with these parameters. -/
def signatureOf (S : Source) (type : String) (m : Tree) (ps : List Parameter) : Signature :=
  ⟨type, S.nameOf m, ps.map (·.type.getD "")⟩

/-- The ways in which a variable is declared: a local variable anywhere, a parameter at its place in
the method being read, and a field outside of methods, if it may be declared in the type around. -/
inductive MayDeclare (fields : String → Tree → Prop) (s : State) (node : Tree) :
    VariableKind → Int → Prop
  | localVar : MayDeclare fields s node .localVar (-1)
  | parameter {m : Signature} {place : Nat} (hmethod : s.method = some m)
      (hplace : place < m.arity) : MayDeclare fields s node .parameter place
  | field {type : String} (hmethod : s.method = none) (hclass : s.currentClass = some type)
      (hfield : fields type node) : MayDeclare fields s node .field (-1)

/-- The name of the field that a node looks for in the type of an object. -/
def Source.reachedField? (S : Source) (t : Tree) : Option String :=
  match ExprForm.ofType t.type, t.child? "object" with
  | .fieldAccess, some o =>
    if o.1.type == "this" || o.1.type == "super" then none else some (S.textOf (t.child? "field"))
  | _, _ => none

/-- The type of a call follows from what its receiver was read as. -/
def Receives (S : Source) (receiver : Option Expr) (type : Option String) : Prop :=
  ∀ e ∈ receiver, ∃ s node, type = receiverType S s node e

/-! ### Steps in lockstep -/

namespace Read

/-- The runs of a step from two states end with one answer, which has a property, in related
states, or fail alike. -/
def EndAlike {α : Type} (R : State → State → Prop) (s t : State) (step : Read α) (Q : α → Prop) :
    Prop :=
  (∃ a s' t', step.run s = .ok (a, s') ∧ step.run t = .ok (a, t') ∧ R s' t' ∧ Q a) ∨
    ∃ f, step.run s = .error f ∧ step.run t = .error f

/-- The runs of a step from related states end alike. -/
def Lockstep {α : Type} (R : State → State → Prop) (step : Read α) (Q : α → Prop) : Prop :=
  ∀ s t, R s t → EndAlike R s t step Q

/-- A step after another starts from where that one ends. -/
theorem EndAlike.bind {α β : Type} {R R' : State → State → Prop} {s t : State} {step : Read α}
    {next : α → Read β} {Q : α → Prop} {P : β → Prop} (h : EndAlike R s t step Q)
    (hnext : ∀ a s' t', R s' t' → Q a → EndAlike R' s' t' (next a) P) :
    EndAlike R' s t (step >>= next) P := by
  unfold EndAlike
  rw [StateT.run_bind, StateT.run_bind]
  rcases h with ⟨a, s', t', hs, ht, hst, ha⟩ | ⟨f, hs, ht⟩
  · rw [hs, ht]
    exact hnext a s' t' hst ha
  · rw [hs, ht]
    exact .inr ⟨f, rfl, rfl⟩

namespace Lockstep

variable {α β : Type} {R : State → State → Prop} {Q : α → Prop} {P : β → Prop}

theorem pure {a : α} (h : Q a) : Lockstep R (Pure.pure a : Read α) Q := by
  intro s t hst
  exact .inl ⟨a, s, t, rfl, rfl, hst, h⟩

theorem bind {step : Read α} {next : α → Read β} (h : Lockstep R step Q)
    (hnext : ∀ a, Q a → Lockstep R (next a) P) : Lockstep R (step >>= next) P :=
  fun s t hst => (h s t hst).bind fun a s' t' hst' ha => hnext a ha s' t' hst'

/-- What follows a look at the state is the same step in both runs. -/
theorem get {next : State → Read α}
    (h : ∀ s t, R s t → next t = next s ∧ Lockstep R (next s) Q) :
    Lockstep R (MonadState.get >>= next) Q := by
  intro s t hst
  obtain ⟨heq, hnext⟩ := h s t hst
  have hrun : (MonadState.get >>= next : Read α).run t = (next t).run t := rfl
  rw [heq] at hrun
  rcases hnext s t hst with ⟨a, s', t', hs, ht, hst'⟩ | ⟨f, hs, ht⟩
  · exact .inl ⟨a, s', t', hs, hrun.trans ht, hst'⟩
  · exact .inr ⟨f, hs, hrun.trans ht⟩

theorem modify {f : State → State} (h : ∀ s t, R s t → R (f s) (f t)) :
    Lockstep R (modifyThe State f : Read PUnit) fun _ => True := by
  intro s t hst
  exact .inl ⟨(), f s, f t, rfl, rfl, h s t hst, trivial⟩

theorem fault (f : Fault) : Lockstep R (Read.fault f : Read α) Q := by
  intro s t _
  exact .inr ⟨f, rfl, rfl⟩

theorem require {a : Option α} (h : ∀ x ∈ a, Q x) : Lockstep R (Read.require a) Q := by
  cases a with
  | none => exact fault _
  | some x => exact pure (h x rfl)

theorem mapM {l : List β} {f : β → Read α} (h : ∀ x ∈ l, Lockstep R (f x) Q) :
    Lockstep R (l.mapM f) fun ys => ∀ y ∈ ys, Q y := by
  induction l with
  | nil => exact pure (List.forall_mem_nil _)
  | cons x l ih =>
    obtain ⟨hx, hl⟩ := List.forall_mem_cons.1 h
    rw [List.mapM_cons]
    refine bind hx fun y hy => ?_
    refine bind (ih hl) fun ys hys => ?_
    exact pure (List.forall_mem_cons.2 ⟨hy, hys⟩)

theorem forM {l : List β} {f : β → Read PUnit} (h : ∀ x ∈ l, Lockstep R (f x) fun _ => True) :
    Lockstep R (l.forM f) fun _ => True := by
  induction l with
  | nil => exact pure trivial
  | cons x l ih =>
    obtain ⟨hx, hl⟩ := List.forall_mem_cons.1 h
    exact bind hx fun _ _ => ih hl

/-- What the first run keeps may be assumed of its states. -/
theorem keeping {step : Read α} {J : State → Prop} (h : Lockstep R step Q)
    (hJ : ∀ s a s', J s → step.run s = .ok (a, s') → J s') :
    Lockstep (fun s t => R s t ∧ J s) step Q := by
  intro s t hst
  rcases h s t hst.1 with ⟨a, s', t', hs, ht, hst', ha⟩ | hfail
  · exact .inl ⟨a, s', t', hs, ht, ⟨hst', hJ s a s' hst.2 hs⟩, ha⟩
  · exact .inr hfail

end Lockstep

end Read

/-! ### Couplings -/

/-- When the states of two runs are alike, and what holds of all that is met on the way. -/
structure Coupling (S : Source) where
  alike : State → State → Prop
  /-- What holds of every expression, of those inside others too. -/
  sound : Expr → Prop
  /-- What holds of every variable. -/
  known : Binding → Prop
  /-- Whether a field of this name may be looked for in the type of any object. -/
  reaches : String → Bool
  /-- A field may be declared in the type, by the node with its name. -/
  declares : String → Tree → Prop
  /-- The method of the type may be read. -/
  reads : String → Tree → Prop
  /-- The type may be read. -/
  owns : String → Prop
  method : ∀ {s t}, alike s t → t.method = s.method
  currentClass : ∀ {s t}, alike s t → t.currentClass = s.currentClass
  resolveType : ∀ {s t}, alike s t → t.resolveType = s.resolveType
  superclass : ∀ {s t}, alike s t → ∀ type,
    t.superclasses.getD type "" = s.superclasses.getD type ""
  typeName : ∀ {s t}, alike s t → ∀ name,
    t.localTypes.getD name name = s.localTypes.getD name name
  lookup : ∀ {s t}, alike s t → ∀ name, t.lookup name = s.lookup name
  member : ∀ {s t}, alike s t → ∀ {owner name}, reaches name = true ∨ owner = s.currentClass →
    t.member? owner name = s.member? owner name
  header : ∀ {s t}, alike s t → ∀ key, t.headers.get? key = s.headers.get? key
  plain : ∀ e : Expr, e.isPlain = true → sound e
  variableName : ∀ {b}, known b → ∀ o name, sound (.name ⟨o, name, some b⟩)
  name : ∀ {s t}, alike s t → ∀ o name, sound (.name ⟨o, name, s.lookup name⟩)
  access : ∀ {s t}, alike s t → ∀ {owner name}, reaches name = true ∨ owner = s.currentClass →
    ∀ place o q, sound (.name ⟨place, name, s.member? owner name⟩) ∧
      sound (.qualified o q (some ⟨place, name, s.member? owner name⟩))
  call : ∀ {s t}, alike s t → ∀ {receiver type}, Receives S receiver type → ∀ o name args,
    sound (.call o name receiver args type (s.returnType? type name args.length))
  pushScope : ∀ {s t}, alike s t → alike s.pushScope t.pushScope
  popScope : ∀ {s t}, alike s t → alike s.popScope t.popScope
  /-- A variable that is declared is known. -/
  knows : ∀ {s t}, alike s t → ∀ {node kind index}, MayDeclare declares s node kind index →
    ∀ type, known (newVariable S s (S.text node) kind type node index)
  addVariable : ∀ {s t}, alike s t → ∀ {b}, known b → alike (s.addVariable b) (t.addVariable b)
  bind : ∀ {s t}, alike s t → ∀ {b e}, known b → b.kind ≠ .parameter →
    (∀ x, x.Within e → sound x) → alike (s.bind b (some e)) (t.bind b (some e))
  addCall : ∀ {s t}, alike s t → ∀ {e}, e.isCall = true → (∀ x, x.Within e → sound x) →
    alike (s.addCall e) (t.addCall e)
  assign : ∀ {s t}, alike s t → ∀ {left right : Option Expr},
    (∀ e ∈ left, ∀ x, x.Within e → sound x) → (∀ e ∈ right, ∀ x, x.Within e → sound x) →
    ∀ operator, alike (s.assign operator left right) (t.assign operator left right)
  enterType : ∀ {s t}, alike s t → ∀ {type}, owns type →
    alike (s.enterType type) (t.enterType type)
  leaveType : ∀ {s t}, alike s t → ∀ {s' t'}, alike s' t' → alike (s'.leaveType s) (t'.leaveType t)
  /-- The fields of a type are those that its members declare. -/
  addFields : ∀ {s t}, alike s t → ∀ {type}, owns type →
    (∀ b ∈ s.innermost.values, known b ∧ b.kind = .field) →
    alike (s.addFields type) (t.addFields type)
  enterMethod : ∀ {s t}, alike s t → ∀ {type m}, reads type m →
    alike (s.enterMethod (signatureOf S type m (readParameters S s m)))
      (t.enterMethod (signatureOf S type m (readParameters S s m)))
  leaveMethod : ∀ {s t}, alike s t → ∀ {s' t'}, alike s' t' → ∀ {m : Method},
    owns m.signature.declaringType →
    (∀ e ∈ Stmt.exprsOpt m.body, ∀ x, x.Within e → sound x) →
    alike (s'.leaveMethod s m) (t'.leaveMethod t m)

namespace Coupling

variable {S : Source} (C : Coupling S)

/-- The expression is sound, with all that stands in it. -/
def Sound (e : Expr) : Prop :=
  ∀ x, x.Within e → C.sound x

/-- Whether a node looks only for fields that may be looked for. -/
def admits (t : Tree) : Bool :=
  (S.reachedField? t).all C.reaches

variable {C}

theorem sound_of_components {e : Expr} (h : C.sound e) (hparts : ∀ a ∈ e.components, C.Sound a) :
    C.Sound e := by
  intro x hx
  cases hx with
  | refl => exact h
  | tail hxa ha => exact hparts _ ha x hxa

/-- A plain expression is sound if the expressions in it are. -/
theorem sound_of_isPlain {e : Expr} (h : e.isPlain = true)
    (hparts : ∀ a ∈ e.components, C.Sound a) : C.Sound e :=
  sound_of_components (C.plain e h) hparts

theorem sound_toList {e : Option Expr} (h : ∀ x ∈ e, C.Sound x) : ∀ x ∈ e.toList, C.Sound x :=
  fun x hx => h x (Option.mem_toList.1 hx)

theorem sound_append {as bs : List Expr} (ha : ∀ x ∈ as, C.Sound x) (hb : ∀ x ∈ bs, C.Sound x) :
    ∀ x ∈ as ++ bs, C.Sound x := by
  intro x hx
  rcases List.mem_append.1 hx with hx | hx
  · exact ha x hx
  · exact hb x hx

end Coupling

/-! ### Children of a node -/

namespace Tree

variable {p : Tree → Bool} {t : Tree} (h : t.all p = true)

include h

theorem all_child? {field : String} : ∀ c ∈ t.child? field, c.1.all p = true :=
  fun _ hc => all_of_mem h (List.mem_of_find?_eq_some hc)

theorem all_firstContent? : ∀ c ∈ t.firstContent?, c.1.all p = true :=
  fun _ hc => all_of_mem h (List.mem_of_find?_eq_some hc)

theorem all_content : ∀ c ∈ t.content, c.1.all p = true :=
  fun _ hc => all_of_mem h (List.mem_filter.1 hc).1

theorem all_childrenIn {field : String} : ∀ c ∈ t.childrenIn field, c.1.all p = true :=
  fun _ hc => all_of_mem h (List.mem_filter.1 hc).1

theorem all_contentOf? {types : List String} : ∀ c ∈ t.contentOf? types, c.1.all p = true :=
  fun c hc => all_content h c (List.mem_of_find?_eq_some hc)

omit h in
/-- What stands below a child has the property too. -/
theorem all_content_map {c : Subtree t} (hc : c.1.all p = true) :
    ∀ d ∈ c.1.content.map c.trans, d.1.all p = true := by
  intro d hd
  obtain ⟨e, he, rfl⟩ := List.mem_map.1 hd
  exact all_content hc e he

end Tree

end TaintFlow.Java
