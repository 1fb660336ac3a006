import TaintFlow.Proofs.Java.Recovery
import TaintFlow.Proofs.Java.Targets

/-!
# Initializers are final

A variable that is given a value where it is declared keeps this value, whatever is assigned to it
before or after, anywhere in the unit.  What is initialized is marked as such, an assignment leaves it
alone, and another declaration stands at another place of the text.

* `State.Settled` : a variable has a value that it was given where it is declared, for good.
* `Settled.after` : no effect changes this.
* `initializers_are_final` : what this says of every unit that can be read.
-/

namespace TaintFlow.Java

open TaintFlow.Code

/-- The variables that are declared while a unit is read: their kinds, their names and their values. -/
def Tree.declared (root : Tree) : List (VariableKind × Tree × Option Tree) :=
  root.unitEvents.filterMap Event.declared?

theorem Tree.mem_declared {root : Tree} {kind : VariableKind} {name : Tree} {value : Option Tree} :
    (kind, name, value) ∈ root.declared ↔ .declaration kind name value ∈ root.unitEvents := by
  simp [declared, Event.declared?_eq_some]

/-- A variable that is declared with a value. -/
structure Initializer where
  kind : VariableKind
  name : Tree
  value : Tree

/-- The initializers of a unit: those of fields and local variables, of the variables of enhanced for
statements and of the resources of try statements, in the order of their declarations. -/
def Tree.initializers (root : Tree) : List Initializer :=
  root.declared.filterMap fun x => x.2.2.map (⟨x.1, x.2.1, ·⟩)

theorem Tree.mem_initializers {root : Tree} {x : Initializer} :
    x ∈ root.initializers ↔ (x.kind, x.name, some x.value) ∈ root.declared := by
  unfold initializers
  rw [List.mem_filterMap]
  constructor
  · rintro ⟨⟨kind, name, value⟩, hmem, hx⟩
    obtain ⟨v, rfl, rfl⟩ := Option.map_eq_some_iff.1 hx
    exact hmem
  · intro hx
    exact ⟨_, hx, rfl⟩

/-! ### Settled variables -/

/-- The variable has a value with the property, which it was given where it is declared. -/
structure State.Settled (P : Expr → Prop) (b : Binding) (s : State) : Prop where
  initialized : b ∈ s.initialized
  bound : ∃ e, s.bindings.get? b = some e ∧ P e

namespace State.Settled

variable {P : Expr → Prop} {b : Binding} {s : State}

theorem bind_self {e : Expr} (he : P e) (s : State) : (s.bind b (some e)).Settled P b := by
  refine ⟨?_, e, ?_, he⟩
  · dsimp only [State.bind]
    split <;> simp_all
  · simp [State.bind, Table.get?_insert]

theorem bind_of_ne {b' : Binding} (h : s.Settled P b) (hne : b ≠ b') (e : Expr) :
    (s.bind b' (some e)).Settled P b := by
  obtain ⟨hinitialized, e', hbound, he'⟩ := h
  refine ⟨?_, e', ?_, he'⟩
  · dsimp only [State.bind]
    split <;> simp [hinitialized]
  · rw [State.bind, Table.get?_insert, if_neg hne, hbound]

theorem addVariable (h : s.Settled P b) (b' : Binding) : (s.addVariable b').Settled P b := by
  rw [s.addVariable_eq]
  exact ⟨h.initialized, h.bound⟩

/-- An assignment leaves alone what is initialized. -/
theorem assign (h : s.Settled P b) (operator : String) (left right : Option Expr) :
    (s.assign operator left right).Settled P b := by
  rcases s.assign_cases operator left right with heq | ⟨b', e, -, -, ⟨-, -, hnot⟩, heq⟩
  · rwa [heq]
  · have hne : b ≠ b' := by
      rintro rfl
      exact hnot h.initialized
    obtain ⟨e', hbound, he'⟩ := h.bound
    rw [heq]
    exact ⟨h.initialized, e', by rw [Table.get?_insert, if_neg hne, hbound], he'⟩

/-- **An effect** leaves a settled variable alone, if a value that it gives to it where it is declared
has the property too. -/
theorem after (h : s.Settled P b) {x : Effect} (hx : ∀ e, x = .initialized b e → P e) :
    (s.after x).Settled P b := by
  cases x with
  | opened | closed | published => exact ⟨h.initialized, h.bound⟩
  | declared b' => exact h.addVariable b'
  | initialized b' e =>
    by_cases hb : b = b'
    · subst hb
      exact bind_self (hx e rfl) s
    · exact h.bind_of_ne hb e
  | assigned operator left right => exact h.assign operator left right

end State.Settled

/-- **After a course**, a variable that was given a value where it is declared is settled. -/
theorem Course.settled {S : Source} {s : State} {es : List Event} {xs : List Effect}
    (h : Course S s es xs) {P : Expr → Prop} {b : Binding} {e : Expr} {event : Event}
    (hmem : (event, .initialized b e) ∈ es.zip xs)
    (hP : ∀ event e, (event, .initialized b e) ∈ es.zip xs → P e) :
    (xs.foldl State.after s).Settled P b := by
  obtain ⟨fs, gs, ys, zs, rfl, rfl, hfs, -, hgs⟩ := h.exists_step hmem
  rw [List.foldl_append]
  refine hgs.invariant (fun s event x hx _ hs => hs.after ?_) (.bind_self (hP event e hmem) _)
  rintro e' rfl
  refine hP event e' ?_
  rw [hfs.zip_append]
  exact List.mem_append_right _ (List.mem_cons_of_mem _ hx)

/-! ### The initializers of a unit -/

/-- In the course of a unit, the event has the effect in the state. -/
def Meets (events : List Event) (effects : List Effect) (s : State) (e : Event) (x : Effect) : Prop :=
  ∃ fs gs ys zs, events = fs ++ e :: gs ∧ effects = ys ++ x :: zs ∧ fs.length = ys.length ∧
    s = ys.foldl State.after {}

section

variable {events : List Event} {effects : List Effect} {e : Event} {x : Effect}

theorem Meets.mem_zip {s : State} (h : Meets events effects s e x) : (e, x) ∈ events.zip effects := by
  obtain ⟨fs, gs, ys, zs, rfl, rfl, hlength, -⟩ := h
  rw [List.zip_append hlength]
  exact List.mem_append_right _ List.mem_cons_self

theorem Course.exists_meets {S : Source} (h : Course S {} events effects)
    (hx : (e, x) ∈ events.zip effects) : ∃ s, Meets events effects s e x ∧ Happens S s e x := by
  obtain ⟨fs, gs, ys, zs, hevents, heffects, hfs, hhappens, -⟩ := h.exists_step hx
  exact ⟨_, ⟨fs, gs, ys, zs, hevents, heffects, hfs.length_eq, rfl⟩, hhappens⟩

end

/-- What becomes of a variable that is declared with a value. -/
structure Initializer.IsFinal (S : Source) (events : List Event) (effects : List Effect)
    (bindings : Table Binding Expr) (x : Initializer) : Prop where
  /-- The declaration makes a variable. -/
  entered : ∃ s b, Meets events effects s (.declaration x.kind x.name (some x.value)) (.declared b)
  /-- It is the one in scope under its name from there on, and has a value. -/
  bound : ∀ s b, Meets events effects s (.declaration x.kind x.name (some x.value)) (.declared b) →
    (s.addVariable b).lookup (S.text x.name) = some b ∧ ∃ e, bindings.get? b = some e
  /-- The value of any variable of the declaration is what the initializer was read as when the variable
  was given it. -/
  final : ∀ b e, VariableAt S x.kind x.name b → bindings.get? b = some e →
    e.origin = S.origin x.value ∧
      ∃ s, Meets events effects s (.initialization x.kind x.name x.value) (.initialized b e) ∧
        S.Gives s x.kind x.name x.value b e

section

variable {S : Source} {root : Tree} {effects : List Effect} {x : Initializer} {b : Binding}
  (hcourse : Course S {} root.unitEvents effects) (hx : x ∈ root.initializers)
  (hinside : ∀ d ∈ root.declared, d.2.1.start ≤ S.bytes.size)
  (hdistinct : ∀ d ∈ root.declared, ∀ d' ∈ root.declared, d.2.1.start = d'.2.1.start → d = d')
include hcourse hx hinside hdistinct

/-- Another declaration stands at another place, so it makes other variables. -/
theorem Initializer.eq_of_variableAt {kind : VariableKind} {name : Tree} {v : Option Tree}
    (hmem : (.declaration kind name v, .declared b) ∈ root.unitEvents.zip effects)
    (hb : VariableAt S x.kind x.name b) : (kind, name, v) = (x.kind, x.name, some x.value) := by
  have hdeclared := Tree.mem_initializers.1 hx
  have hother := Tree.mem_declared.2 (List.of_mem_zip hmem).1
  exact hdistinct _ hother _ hdeclared ((hcourse.variableAt hmem).declaredAt.start_eq hb.declaredAt
    (hinside _ hother) (hinside _ hdeclared))

theorem Initializer.settled (htied : Tied (root.unitEvents.zip effects))
    (hmem : (.declaration x.kind x.name (some x.value), .declared b) ∈ root.unitEvents.zip effects) :
    (effects.foldl State.after {}).Settled (fun e => (.initialization x.kind x.name x.value,
      .initialized b e) ∈ root.unitEvents.zip effects) b := by
  obtain ⟨e, he⟩ := (htied ..).1 hmem
  refine hcourse.settled he fun event e' he' => ?_
  obtain ⟨s, hhappens⟩ := hcourse.happens he'
  cases hhappens with
  | initialization =>
    cases eq_of_variableAt hcourse hx hinside hdistinct ((htied ..).2 ⟨e', he'⟩)
      (hcourse.variableAt hmem)
    exact he'

end

/-- **Initializers are final**: if the names of the declared variables start at different bytes of the
text, each variable with an initializer has the value of this initializer in the end, whatever is
assigned to it before or after. -/
theorem initializers_are_final {S : Source} {root : Tree} {u : SourceUnit}
    (h : unitOfTree S root = .ok u) (hinside : ∀ d ∈ root.declared, d.2.1.start ≤ S.bytes.size)
    (hdistinct : ∀ d ∈ root.declared, ∀ d' ∈ root.declared, d.2.1.start = d'.2.1.start → d = d') :
    ∃ s effects, (readUnit S root).run {} = .ok ((), s) ∧ u.bindings = s.bindings ∧
      Course S {} root.unitEvents effects ∧ s.ledger = effects.foldl State.after {} ∧
      ∀ x ∈ root.initializers, x.IsFinal S root.unitEvents effects u.bindings := by
  obtain ⟨s, hrun, rfl⟩ := exists_state_of_unitOfTree h
  obtain ⟨effects, hcourse, htied, hs⟩ := follows_readUnit hrun
  have hbindings : s.bindings = (effects.foldl State.after {}).bindings :=
    (congrArg State.bindings hs :)
  refine ⟨s, effects, hrun, rfl, hcourse, hs, fun x hx => ?_⟩
  have hsettled {b : Binding} := Initializer.settled (b := b) hcourse hx hinside hdistinct htied
  constructor
  case entered =>
    obtain ⟨y, hy⟩ := hcourse.exists_effect (Tree.mem_declared.1 (Tree.mem_initializers.1 hx))
    obtain ⟨s', hmeets, hhappens⟩ := hcourse.exists_meets hy
    cases hhappens
    exact ⟨s', _, hmeets⟩
  case bound =>
    intro s' b hmeets
    obtain ⟨e, he, -⟩ := (hsettled hmeets.mem_zip).bound
    refine ⟨?_, e, (congrArg (Table.get? · b) hbindings).trans he⟩
    have hname := (hcourse.variableAt hmeets.mem_zip).name_eq
    obtain ⟨fs, gs, ys, zs, -, rfl, -, rfl⟩ := hmeets
    have hafford := hcourse.finds_scopes (exposes_unitEvents root) (.inl rfl)
    rw [State.lookup_addVariable ((State.affords_append.1 hafford).2.1 rfl), if_pos hname]
  case final =>
    intro b e hb he
    rw [show s.bindings.get? b = _ from congrArg (Table.get? · b) hbindings] at he
    obtain ⟨kind, name, v, hmem⟩ := hcourse.declared_of_get? htied he
    cases Initializer.eq_of_variableAt hcourse hx hinside hdistinct hmem hb
    obtain ⟨e', he', hmem'⟩ := (hsettled hmem).bound
    cases he.symm.trans he'
    obtain ⟨s', hmeets, hhappens⟩ := hcourse.exists_meets hmem'
    cases hhappens with
    | initialization hgives => exact ⟨hgives.reads.origin, s', hmeets, hgives⟩

/-- Every kind of variable with an initializer, and assignments to each. -/
def assignedAgain : String :=
  "class A \x7b String f = g(); void m() \x7b f = \"a\"; String x = f; x = \"b\"; " ++
    "for (String y : x) y = \"c\"; try (R r = h()) \x7b r = null; \x7d \x7d \x7d"

/-- The source of that text. -/
def againSource : Source :=
  .ofText "A.java" assignedAgain

theorem initializers_assigned_again_are_final :
    ((treeOf assignedAgain).unitEvents.filterMap Event.assignment?).map againSource.text =
        ["f = \"a\"", "x = \"b\"", "y = \"c\"", "r = null"] ∧
      (treeOf assignedAgain).initializers.map
          (fun x => (againSource.text x.name, againSource.text x.value)) =
        [("f", "g()"), ("x", "f"), ("y", "x"), ("r", "h()")] ∧
      ∃ u s effects, unitOfTree againSource (treeOf assignedAgain) = .ok u ∧
        u.bindings.entries.map (fun x => (x.1.name, x.2.text)) =
          [("f", "g()"), ("x", "f"), ("y", "x"), ("r", "h()")] ∧
        (readUnit againSource (treeOf assignedAgain)).run {} = .ok ((), s) ∧
        Course againSource {} (treeOf assignedAgain).unitEvents effects ∧
        s.ledger = effects.foldl State.after {} ∧
        ∀ x ∈ (treeOf assignedAgain).initializers,
          x.IsFinal againSource (treeOf assignedAgain).unitEvents effects u.bindings := by
  obtain ⟨hassigned, hinitializers, hinside, hnodup, hvalues⟩ :
      ((treeOf assignedAgain).unitEvents.filterMap Event.assignment?).map againSource.text =
        ["f = \"a\"", "x = \"b\"", "y = \"c\"", "r = null"] ∧
      (treeOf assignedAgain).initializers.map
          (fun x => (againSource.text x.name, againSource.text x.value)) =
        [("f", "g()"), ("x", "f"), ("y", "x"), ("r", "h()")] ∧
      (∀ d ∈ (treeOf assignedAgain).declared, d.2.1.start ≤ againSource.bytes.size) ∧
      ((treeOf assignedAgain).declared.map (·.2.1.start)).Nodup ∧
      (unitOfTree againSource (treeOf assignedAgain)).toOption.map
          (fun u => u.bindings.entries.map fun x => (x.1.name, x.2.text)) =
        some [("f", "g()"), ("x", "f"), ("y", "x"), ("r", "h()")] := by
    decide +kernel
  cases h : unitOfTree againSource (treeOf assignedAgain) with
  | error f =>
    rw [h] at hvalues
    cases hvalues
  | ok u =>
    rw [h] at hvalues
    obtain ⟨s, effects, hrun, -, hcourse, hs, hfinal⟩ := initializers_are_final h hinside
      fun d hd d' hd' hstart => List.inj_on_of_nodup_map hnodup hd hd' hstart
    exact ⟨hassigned, hinitializers, u, s, effects, rfl, Option.some.inj hvalues, hrun, hcourse, hs,
      hfinal⟩

end TaintFlow.Java
