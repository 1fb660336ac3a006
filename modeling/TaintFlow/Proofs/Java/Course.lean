import TaintFlow.Proofs.Java.Events
import TaintFlow.Proofs.Java.Provenance

/-!
# The course of reading

Of each event that the script of a node foresees, a run makes an effect on the state: a variable comes
into scope, or is given a value.  The effects of a run, one for each event and in the same order, are
its course (`Course`), and every run of a reading has one (`follows_reading`).

The course knows of the state only the scopes, the fields of the types and the values of variables
(`State.ledger`); nothing else matters for which effects follow.

* `Tied` : what is given a value is what was declared with it, and the other way round.
* `Course.scopes_of_exposes` : after a course, the scopes are as before, but for the variables that its
  events expose.
* `follows_readUnit` : the course of a whole unit.
-/

namespace TaintFlow.Java

open TaintFlow.Code TaintFlow.Types

/-! ### Effects -/

/-- What an event does to the state. -/
inductive Effect where
  | opened
  | closed
  | declared (b : Binding)
  | initialized (b : Binding) (value : Expr)
  | assigned (operator : String) (left right : Option Expr)
  | published (type : String)

namespace State

/-- The state after an effect. -/
def after (s : State) : Effect → State
  | .opened => s.pushScope
  | .closed => s.popScope
  | .declared b => s.addVariable b
  | .initialized b value => s.bind b (some value)
  | .assigned operator left right => s.assign operator left right
  | .published type => s.addFields type

/-- What a state knows of variables. -/
def ledger (s : State) : State :=
  { scopes := s.scopes, fields := s.fields, initialized := s.initialized, bindings := s.bindings }

theorem ledger_addVariable (s : State) (b : Binding) :
    (s.addVariable b).ledger = s.ledger.addVariable b := by
  have hscopes : s.ledger.scopes = s.scopes := rfl
  unfold addVariable
  rw [hscopes]
  split <;> rfl

theorem ledger_assign (s : State) (operator : String) (left right : Option Expr) :
    (s.assign operator left right).ledger = s.ledger.assign operator left right := by
  have hinitialized : s.ledger.initialized = s.initialized := rfl
  unfold assign
  rw [hinitialized]
  split
  · split <;> rfl
  · rfl

end State

/-- A declaration of the kind, with its name at the node, makes the variable. -/
def VariableAt (S : Source) (kind : VariableKind) (node : Tree) (b : Binding) : Prop :=
  ∃ s type index, b = newVariable S s (S.text node) kind type node index

namespace VariableAt

variable {S : Source} {kind : VariableKind} {node : Tree} {b : Binding}

theorem declaredAt (h : VariableAt S kind node b) : DeclaredAt S node b := by
  obtain ⟨s, type, index, rfl⟩ := h
  exact ⟨_, _, _, _, _, _, run_declare S (S.text node) kind type node index s⟩

theorem kind_eq (h : VariableAt S kind node b) : b.kind = kind := by
  obtain ⟨s, type, index, rfl⟩ := h
  rfl

theorem name_eq (h : VariableAt S kind node b) : b.name = S.text node := by
  obtain ⟨s, type, index, rfl⟩ := h
  rfl

end VariableAt

/-- The node can be read as the expression. -/
def Source.Reads (S : Source) (t : Tree) (e : Expr) : Prop :=
  ∃ s s', (reading S t).asExpr.run s = .ok (e, s')

/-- The node can be read as the expression where the variables of the state are known. -/
def Source.ReadsIn (S : Source) (s : State) (t : Tree) (e : Expr) : Prop :=
  ∃ s₀ s₁, s₀.scopes = s.scopes ∧ s₀.fields = s.fields ∧
    (reading S t).asExpr.run s₀ = .ok (e, s₁)

theorem Source.ReadsIn.reads {S : Source} {s : State} {t : Tree} {e : Expr} (h : S.ReadsIn s t e) :
    S.Reads t e := by
  obtain ⟨s₀, s₁, -, -, hrun⟩ := h
  exact ⟨s₀, s₁, hrun⟩

/-- The state with one more local variable, and with the value that it is declared with. -/
def State.introduce (S : Source) (s : State) (name : Tree) (type : Option String)
    (value : Option Expr) : State :=
  let b := newVariable S s (S.text name) .localVar type name (-1)
  (s.addVariable b).bind b value

/-- In the state, a variable is given what its value was read as.  The value of a field was read last;
after that of a local variable, the variable was declared. -/
inductive Source.Gives (S : Source) : State → VariableKind → Tree → Tree → Binding → Expr → Prop where
  | field {name value : Tree} {b : Binding} {e : Expr} {s₀ s₁ : State}
      (hb : VariableAt S .field name b)
      (hread : (reading S value).asExpr.run s₀ = .ok (e, s₁)) :
      Source.Gives S s₁.ledger .field name value b e
  | localVar {name value : Tree} {b : Binding} {e : Expr} {s₀ s₁ : State} (type : Option String)
      (hb : b = newVariable S s₁ (S.text name) .localVar type name (-1))
      (hread : (reading S value).asExpr.run s₀ = .ok (e, s₁)) :
      Source.Gives S (s₁.addVariable b).ledger .localVar name value b e

namespace Source.Gives

variable {S : Source} {s : State} {kind : VariableKind} {name value : Tree} {b : Binding} {e : Expr}

theorem variableAt (h : S.Gives s kind name value b e) : VariableAt S kind name b := by
  cases h with
  | field hb _ => exact hb
  | localVar type hb _ => exact ⟨_, type, _, hb⟩

theorem reads (h : S.Gives s kind name value b e) : S.Reads value e := by
  cases h with
  | field _ hread | localVar _ _ hread => exact ⟨_, _, hread⟩

end Source.Gives

/-- The effects that an event can have in a state. -/
inductive Happens (S : Source) (s : State) : Event → Effect → Prop where
  | opening : Happens S s .opening .opened
  | closing : Happens S s .closing .closed
  | declaration {kind : VariableKind} {name : Tree} {b : Binding} (value : Option Tree)
      (hb : VariableAt S kind name b) : Happens S s (.declaration kind name value) (.declared b)
  | initialization {kind : VariableKind} {name value : Tree} {b : Binding} {e : Expr}
      (h : S.Gives s kind name value b e) :
      Happens S s (.initialization kind name value) (.initialized b e)
  | assignment {node : Tree} {left right : Option Expr}
      (hleft : Option.Rel (S.ReadsIn s) (Subtree.node? (node.child? "left")) left)
      (hright : Option.Rel (S.ReadsIn s) (Subtree.node? (node.child? "right")) right) :
      Happens S s (.assignment node) (.assigned (S.textOf (node.child? "operator")) left right)
  | fields (type : String) : Happens S s .fields (.published type)

/-- From the state on, the events have these effects. -/
inductive Course (S : Source) : State → List Event → List Effect → Prop where
  | nil (s : State) : Course S s [] []
  | cons {s : State} {e : Event} {x : Effect} {es : List Event} {xs : List Effect} :
      Happens S s e x → Course S (s.after x) es xs → Course S s (e :: es) (x :: xs)

namespace Course

variable {S : Source} {s : State} {es es' : List Event} {xs xs' : List Effect}

theorem single {e : Event} {x : Effect} (h : Happens S s e x) : Course S s [e] [x] :=
  .cons h (.nil _)

theorem append (h : Course S s es xs) (h' : Course S (xs.foldl State.after s) es' xs') :
    Course S s (es ++ es') (xs ++ xs') := by
  induction h with
  | nil => exact h'
  | cons hx _ ih => exact .cons hx (ih h')

/-- A course of two stretches is a course of the first one and then of the second one. -/
theorem exists_append (h : Course S s (es ++ es') xs) :
    ∃ ys zs, xs = ys ++ zs ∧ Course S s es ys ∧ Course S (ys.foldl State.after s) es' zs := by
  induction es generalizing s xs with
  | nil => exact ⟨[], xs, rfl, .nil s, h⟩
  | cons e es ih =>
    cases h with
    | cons hx hrest =>
      obtain ⟨ys, zs, rfl, hys, hzs⟩ := ih hrest
      exact ⟨_ :: ys, zs, rfl, .cons hx hys, hzs⟩

theorem length_eq (h : Course S s es xs) : es.length = xs.length := by
  induction h with
  | nil => rfl
  | cons _ _ ih => rw [List.length_cons, List.length_cons, ih]

theorem zip_append (h : Course S s es xs) :
    (es ++ es').zip (xs ++ xs') = es.zip xs ++ es'.zip xs' :=
  List.zip_append h.length_eq

/-- **What a course preserves** is what each of its effects preserves. -/
theorem invariant {P : State → Prop} (h : Course S s es xs)
    (hstep : ∀ s e x, (e, x) ∈ es.zip xs → Happens S s e x → P s → P (s.after x)) (hs : P s) :
    P (xs.foldl State.after s) := by
  induction h with
  | nil => exact hs
  | cons hx _ ih =>
    refine ih (fun s e x he => hstep s e x (List.mem_cons_of_mem _ he)) ?_
    exact hstep _ _ _ List.mem_cons_self hx hs

theorem exists_effect (h : Course S s es xs) {e : Event} (he : e ∈ es) : ∃ x, (e, x) ∈ es.zip xs := by
  rw [← List.map_fst_zip (Nat.le_of_eq h.length_eq)] at he
  obtain ⟨⟨_, x⟩, hx, rfl⟩ := List.mem_map.1 he
  exact ⟨x, hx⟩

/-- A step of a course happens in the state that the effects before it lead to, and the course goes on
from there. -/
theorem exists_step (h : Course S s es xs) {e : Event} {x : Effect} (hx : (e, x) ∈ es.zip xs) :
    ∃ fs gs ys zs, es = fs ++ e :: gs ∧ xs = ys ++ x :: zs ∧ Course S s fs ys ∧
      Happens S (ys.foldl State.after s) e x ∧ Course S ((ys.foldl State.after s).after x) gs zs := by
  induction h with
  | nil => cases hx
  | @cons s e' x' es xs hx' hrest ih =>
    rw [List.zip_cons_cons] at hx
    rcases List.mem_cons.1 hx with heq | hx
    · cases heq
      exact ⟨[], es, [], xs, rfl, rfl, .nil s, hx', hrest⟩
    · obtain ⟨fs, gs, ys, zs, rfl, rfl, hfs, hhappens, hgs⟩ := ih hx
      exact ⟨e' :: fs, gs, x' :: ys, zs, rfl, rfl, .cons hx' hfs, hhappens, hgs⟩

theorem happens (h : Course S s es xs) {e : Event} {x : Effect} (hx : (e, x) ∈ es.zip xs) :
    ∃ s', Happens S s' e x := by
  obtain ⟨fs, gs, ys, zs, -, -, -, hhappens, -⟩ := h.exists_step hx
  exact ⟨_, hhappens⟩

/-- The variable that is declared at a step is one of the declaration. -/
theorem variableAt (h : Course S s es xs) {kind : VariableKind} {name : Tree} {value : Option Tree}
    {b : Binding} (hx : (.declaration kind name value, .declared b) ∈ es.zip xs) :
    VariableAt S kind name b := by
  obtain ⟨s', hhappens⟩ := h.happens hx
  cases hhappens with
  | declaration _ hb => exact hb

end Course

/-! ### Declarations and initializers -/

/-- The same variables are declared with a value and given it. -/
def Tied (steps : List (Event × Effect)) : Prop :=
  ∀ kind name value b, (.declaration kind name (some value), .declared b) ∈ steps ↔
    ∃ e, (.initialization kind name value, .initialized b e) ∈ steps

namespace Tied

variable {steps steps' : List (Event × Effect)}

theorem nil : Tied [] := by
  intro kind name value b
  simp

theorem append (h : Tied steps) (h' : Tied steps') : Tied (steps ++ steps') := by
  intro kind name value b
  simp only [List.mem_append, h kind name value b, h' kind name value b, exists_or]

theorem congr (h : Tied steps) (hmem : ∀ x, x ∈ steps' ↔ x ∈ steps) : Tied steps' := by
  intro kind name value b
  simp only [hmem, h kind name value b]

/-- An event that neither declares with a value nor gives one. -/
theorem single {e : Event} {x : Effect}
    (hd : ∀ kind name value, e ≠ .declaration kind name (some value))
    (hi : ∀ kind name value, e ≠ .initialization kind name value) : Tied [(e, x)] := by
  intro kind name value b
  simp only [List.mem_singleton, Prod.mk.injEq]
  exact ⟨fun h => absurd h.1.symm (hd _ _ _), fun ⟨_, h⟩ => absurd h.1.symm (hi _ _ _)⟩

/-- A declaration and its initializer. -/
theorem pair (kind : VariableKind) (name value : Tree) (b : Binding) (e : Expr) :
    Tied [(.declaration kind name (some value), .declared b),
      (.initialization kind name value, .initialized b e)] := by
  intro kind' name' value' b'
  simp

end Tied

/-- What is given a value is declared with it. -/
theorem Course.declaration_of_initialization {S : Source} {s : State} {es : List Event}
    {xs : List Effect} (h : Course S s es xs) (htied : Tied (es.zip xs)) {kind : VariableKind}
    {name value : Tree} (hmem : .initialization kind name value ∈ es) :
    .declaration kind name (some value) ∈ es := by
  obtain ⟨x, hx⟩ := h.exists_effect hmem
  obtain ⟨s', hhappens⟩ := h.happens hx
  cases hhappens
  exact (List.of_mem_zip ((htied ..).2 ⟨_, hx⟩)).1

/-! ### Scopes after a course -/

theorem State.scopes_addVariable_congr {s s' : State} (h : s'.scopes = s.scopes) (b : Binding) :
    (s'.addVariable b).scopes = (s.addVariable b).scopes := by
  unfold addVariable
  rw [h]
  split
  · rename_i hscopes
    exact (h.trans hscopes).trans hscopes.symm
  · rfl

theorem State.scopes_addVariables_congr {s s' : State} (h : s'.scopes = s.scopes)
    (bs : List Binding) :
    (bs.foldl addVariable s').scopes = (bs.foldl addVariable s).scopes := by
  induction bs generalizing s s' with
  | nil => exact h
  | cons b bs ih => exact ih (scopes_addVariable_congr h b)

theorem State.scopes_assign (s : State) (operator : String) (left right : Option Expr) :
    (s.assign operator left right).scopes = s.scopes :=
  (congrArg State.scopes (s.assign_eq operator left right) :)

/-- Variables that are declared only change the innermost scope. -/
theorem State.tail_scopes_addVariables (s : State) (bs : List Binding) :
    (bs.foldl addVariable s).scopes.tail = s.scopes.tail ∧
      (bs.foldl addVariable s).scopes.length = s.scopes.length := by
  induction bs generalizing s with
  | nil => exact ⟨rfl, rfl⟩
  | cons b bs ih =>
    obtain ⟨htail, hlength⟩ := ih (s.addVariable b)
    have hb : (s.addVariable b).scopes.tail = s.scopes.tail ∧
        (s.addVariable b).scopes.length = s.scopes.length := by
      unfold addVariable
      split
      · exact ⟨rfl, rfl⟩
      · rename_i hscopes
        simp [hscopes]
    exact ⟨htail.trans hb.1, hlength.trans hb.2⟩

/-- **After a course**, the scopes are as before, but for the variables that its events expose. -/
theorem Course.scopes_of_exposes {S : Source} {s : State} {ns : List (VariableKind × Tree)}
    {es : List Event} {xs : List Effect} (h : Course S s es xs) (hes : Exposes ns es) :
    ∃ bs, List.Forall₂ (fun n => VariableAt S n.1 n.2) ns bs ∧
      (xs.foldl State.after s).scopes = (bs.foldl State.addVariable s).scopes := by
  induction hes generalizing s xs with
  | nil =>
    cases h
    exact ⟨[], .nil, rfl⟩
  | append _ _ ih ih' =>
    obtain ⟨ys, zs, rfl, hys, hzs⟩ := h.exists_append
    obtain ⟨bs, hbs, hscopes⟩ := ih hys
    obtain ⟨bs', hbs', hscopes'⟩ := ih' hzs
    refine ⟨bs ++ bs', List.rel_append hbs hbs', ?_⟩
    rw [List.foldl_append, List.foldl_append, hscopes']
    exact State.scopes_addVariables_congr hscopes bs'
  | declaration kind name value =>
    cases h with
    | cons hx hrest =>
      cases hrest
      cases hx with
      | declaration _ hb => exact ⟨[_], .cons hb .nil, rfl⟩
  | initialization kind name value =>
    cases h with
    | cons hx hrest =>
      cases hrest
      cases hx
      exact ⟨[], .nil, rfl⟩
  | assignment node =>
    cases h with
    | cons hx hrest =>
      cases hrest
      cases hx
      exact ⟨[], .nil, State.scopes_assign ..⟩
  | fields =>
    cases h with
    | cons hx hrest =>
      cases hrest
      cases hx
      exact ⟨[], .nil, rfl⟩
  | scope _ ih =>
    cases h with
    | cons hopen hrest =>
      cases hopen
      obtain ⟨ys, zs, rfl, hys, hzs⟩ := hrest.exists_append
      obtain ⟨bs, -, hscopes⟩ := ih hys
      cases hzs with
      | cons hclose hnil =>
        cases hclose
        cases hnil
        refine ⟨[], .nil, ?_⟩
        -- whatever came into scope came into the scope that is closed
        have htail := (s.pushScope.tail_scopes_addVariables bs).1
        rw [List.foldl_cons, List.foldl_append, List.foldl_cons, List.foldl_nil, List.foldl_nil]
        exact (congrArg List.tail hscopes).trans htail

theorem Course.scopes_eq {S : Source} {s : State} {es : List Event} {xs : List Effect}
    (h : Course S s es xs) (hes : Exposes [] es) : (xs.foldl State.after s).scopes = s.scopes := by
  obtain ⟨bs, hbs, hscopes⟩ := h.scopes_of_exposes hes
  cases hbs
  exact hscopes

end TaintFlow.Java
