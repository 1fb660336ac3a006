import TaintFlow.Proofs.Java.Origins
import TaintFlow.Proofs.Java.Scoping
import TaintFlow.Proofs.Java.SourceOrder

/-!
# What assignments are made to

Which names are in scope at an event can be told from the events before it (`Names.after`), and so can
the variable that a name refers to there: the latest one of this name in the innermost scope that has
one (`Names.resolve`).  With this, `Tree.assignments` lists the assignments of a unit with the variables
that they are made to.

* `Names.Tracks` : the names are those of the variables in the scopes of a state; a course keeps this.
* `target_of_readsIn` : what an assignment is made to in a state is a variable in scope, if a name stands
  on its left side, and else a field.
-/

namespace TaintFlow.Java

open TaintFlow.Code Read

/-- The names of the variables in scope, with their kinds: the innermost scope first, and in each scope
the latest name first. -/
abbrev Names := List (List (VariableKind × Tree))

namespace Names

/-- The names after an event. -/
def after (names : Names) : Event → Names
  | .opening => [] :: names
  | .closing => names.tail
  | .declaration kind name _ => names.modifyHead ((kind, name) :: ·)
  | _ => names

/-- The variable that a name refers to. -/
def resolve (S : Source) (names : Names) (text : String) : Option (VariableKind × Tree) :=
  names.findSome? (·.find? fun n => S.text n.2 == text)

/-- The variable that the assignment at a node is made to, if a name stands on its left side. -/
def target? (S : Source) (names : Names) (a : Tree) : Option (VariableKind × Tree) :=
  ((a.child? "left").filter (·.1.type == "identifier")).bind fun l => names.resolve S (S.text l.1)

end Names

/-- The assignments among events, with the variables that they are made to. -/
def targets (S : Source) : Names → List Event → List (Tree × Option (VariableKind × Tree))
  | _, [] => []
  | names, e :: es =>
    e.assignment?.toList.map (fun a => (a, names.target? S a)) ++ targets S (names.after e) es

/-- The assignments of a unit, in the order in which they are read, with the variables that they are
made to. -/
def Tree.assignments (S : Source) (root : Tree) : List (Tree × Option (VariableKind × Tree)) :=
  targets S [] root.unitEvents

/-! ### Names along events -/

theorem targets_cons_assignment (S : Source) (names : Names) (a : Tree) (es : List Event) :
    targets S names (.assignment a :: es) = (a, names.target? S a) :: targets S names es :=
  rfl

theorem targets_append (S : Source) (names : Names) (es es' : List Event) :
    targets S names (es ++ es') = targets S names es ++ targets S (es.foldl Names.after names) es' := by
  induction es generalizing names with
  | nil => rfl
  | cons e es ih => rw [List.cons_append, targets, ih, ← List.append_assoc, ← targets, List.foldl_cons]

theorem map_fst_targets (S : Source) (names : Names) (es : List Event) :
    (targets S names es).map Prod.fst = es.filterMap Event.assignment? := by
  induction es generalizing names with
  | nil => rfl
  | cons e es ih =>
    rw [targets, List.map_append, ih, List.filterMap_cons]
    cases e.assignment? <;> rfl

namespace Names

variable {S : Source} {names : Names}

/-- What is in scope was in scope before or is declared by the event. -/
theorem mem_after {e : Event} {n : VariableKind × Tree} (hn : n ∈ (names.after e).flatten) :
    n ∈ names.flatten ∨ ∃ v, e = .declaration n.1 n.2 v := by
  cases e with
  | opening => exact .inl hn
  | closing =>
    obtain ⟨scope, hscope, hn⟩ := List.mem_flatten.1 hn
    exact .inl (List.mem_flatten.2 ⟨scope, List.mem_of_mem_tail hscope, hn⟩)
  | declaration kind name value =>
    cases names with
    | nil => exact .inl hn
    | cons scope rest =>
      rcases List.mem_cons.1 hn with rfl | hn
      · exact .inr ⟨value, rfl⟩
      · exact .inl hn
  | initialization | assignment | fields => exact .inl hn

theorem mem_foldl_after {es : List Event} {n : VariableKind × Tree}
    (hn : n ∈ (es.foldl after names).flatten) :
    n ∈ names.flatten ∨ ∃ v, .declaration n.1 n.2 v ∈ es := by
  induction es generalizing names with
  | nil => exact .inl hn
  | cons e es ih =>
    rcases ih hn with hn | ⟨v, hv⟩
    · rcases mem_after hn with hn | ⟨v, rfl⟩
      · exact .inl hn
      · exact .inr ⟨v, List.mem_cons_self⟩
    · exact .inr ⟨v, List.mem_cons_of_mem _ hv⟩

theorem mem_of_resolve {text : String} {n : VariableKind × Tree}
    (hn : names.resolve S text = some n) : n ∈ names.flatten := by
  obtain ⟨scope, hscope, hfind⟩ := List.exists_of_findSome?_eq_some hn
  exact List.mem_flatten.2 ⟨scope, hscope, List.mem_of_find?_eq_some hfind⟩

theorem target?_eq_some {a : Tree} {n : VariableKind × Tree} :
    names.target? S a = some n ↔ ∃ l, a.child? "left" = some l ∧ l.1.type = "identifier" ∧
      names.resolve S (S.text l.1) = some n := by
  rw [target?, Option.bind_eq_some_iff]
  simp only [Option.filter_eq_some_iff, beq_iff_eq, and_assoc]

end Names

/-- What an assignment is made to was in scope before or is declared among the events. -/
theorem mem_of_mem_targets {S : Source} {names : Names} {es : List Event} {a : Tree}
    {n : VariableKind × Tree} (h : (a, some n) ∈ targets S names es) :
    n ∈ names.flatten ∨ ∃ v, .declaration n.1 n.2 v ∈ es := by
  induction es generalizing names with
  | nil => cases h
  | cons e es ih =>
    rw [targets] at h
    rcases List.mem_append.1 h with h | h
    · obtain ⟨a', -, heq⟩ := List.mem_map.1 h
      obtain ⟨-, hn⟩ := Prod.mk.inj heq
      obtain ⟨l, -, -, hn⟩ := Names.target?_eq_some.1 hn
      exact .inl (Names.mem_of_resolve hn)
    · rcases ih h with hn | ⟨v, hv⟩
      · rcases Names.mem_after hn with hn | ⟨v, rfl⟩
        · exact .inl hn
        · exact .inr ⟨v, List.mem_cons_self⟩
      · exact .inr ⟨v, List.mem_cons_of_mem _ hv⟩

/-- **After events** the names are as before, but for those that the events expose. -/
theorem Exposes.foldl_after {ns : List (VariableKind × Tree)} {es : List Event} (h : Exposes ns es)
    (names : Names) : es.foldl Names.after names = names.modifyHead (ns.reverse ++ ·) := by
  induction h generalizing names with
  | nil => cases names <;> rfl
  | append _ _ ih ih' =>
    rw [List.foldl_append, ih, ih']
    cases names with
    | nil => rfl
    | cons scope rest => simp
  | declaration => rfl
  | initialization | assignment | fields => cases names <;> rfl
  | scope _ ih =>
    rw [List.foldl_cons, List.foldl_append, ih]
    cases names <;> rfl

theorem Exposes.foldl_after_nil {es : List Event} (h : Exposes [] es) (names : Names) :
    es.foldl Names.after names = names := by
  rw [h.foldl_after]
  cases names <;> rfl

/-! ### Names and variables -/

/-- The names are those of the variables of a scope. -/
def Represents (S : Source) (names : List (VariableKind × Tree)) (scope : Scope) : Prop :=
  ∀ text, Option.Rel (fun n b => VariableAt S n.1 n.2 b) (names.find? fun n => S.text n.2 == text)
    (scope.get? text)

theorem Represents.insert {S : Source} {names : List (VariableKind × Tree)} {scope : Scope}
    (h : Represents S names scope) {kind : VariableKind} {name : Tree} {b : Binding}
    (hb : VariableAt S kind name b) : Represents S ((kind, name) :: names) (scope.insert b.name b) := by
  intro text
  rw [List.find?_cons, Table.get?_insert, hb.name_eq]
  by_cases hname : S.text name = text
  · rw [if_pos hname.symm, beq_iff_eq.2 hname]
    exact .some hb
  · rw [if_neg (Ne.symm hname), beq_eq_false_iff_ne.2 hname]
    exact h text

/-- The names are those of the variables in the scopes. -/
def Names.Tracks (S : Source) (names : Names) (scopes : List Scope) : Prop :=
  List.Forall₂ (Represents S) names scopes

namespace Names.Tracks

variable {S : Source} {names : Names} {s : State}

/-- A name refers to a variable of its own kind and place. -/
theorem lookup (h : names.Tracks S s.scopes) (text : String) :
    Option.Rel (fun n b => VariableAt S n.1 n.2 b) (names.resolve S text) (s.lookup text) := by
  unfold resolve State.lookup
  unfold Tracks at h
  generalize s.scopes = scopes at h ⊢
  induction h with
  | nil => exact .none
  | @cons ns scope names scopes hscope _ ih =>
    rw [List.findSome?_cons, List.findSome?_cons]
    have hrel := hscope text
    generalize (ns.find? fun n => S.text n.2 == text) = found at hrel ⊢
    generalize scope.get? text = b at hrel ⊢
    cases hrel with
    | none => exact ih
    | some hb => exact .some hb

/-- **An event** changes the names as its effect changes the scopes. -/
theorem after (h : names.Tracks S s.scopes) {e : Event} {x : Effect} (hx : Happens S s e x) :
    (names.after e).Tracks S (s.after x).scopes := by
  cases hx with
  | opening =>
    refine .cons (fun text => ?_) h
    exact .none
  | closing =>
    unfold Tracks at h
    change List.Forall₂ (Represents S) names.tail s.scopes.tail
    generalize s.scopes = scopes at h ⊢
    cases h with
    | nil => exact .nil
    | cons _ hrest => exact hrest
  | @declaration kind name b value hb =>
    unfold Tracks at h
    change Tracks S (names.modifyHead ((kind, name) :: ·)) (s.addVariable b).scopes
    unfold State.addVariable
    split
    · rename_i hscopes
      rw [hscopes] at h ⊢
      cases h
      exact .nil
    · rename_i scope rest hscopes
      rw [hscopes] at h
      cases h with
      | cons hscope hrest => exact .cons (hscope.insert hb) hrest
  | initialization | fields => exact h
  | assignment =>
    unfold State.after
    rw [State.scopes_assign]
    exact h

end Names.Tracks

/-! ### Targets of assignments -/

/-- The variable is a field of a type. -/
def State.HasField (s : State) (b : Binding) : Prop :=
  ∃ scope ∈ s.fields.values, b ∈ scope.values

theorem State.hasField_of_member? {s : State} {owner : Option String} {name : String} {b : Binding}
    (hb : s.member? owner name = some b) : s.HasField b := by
  obtain ⟨type, scope, hscope, hget⟩ := exists_scope_of_member? hb
  exact ⟨scope, Table.mem_values_of_get? hscope, Table.mem_values_of_get? hget⟩

/-- A field access refers to a field of a type. -/
theorem hasField_of_readFieldAccess {S : Source} {t : Tree} {s s' : State} {e : Expr}
    (hrun : (readFieldAccess S t (readings S t)).run s = .ok (e, s')) {b : Binding}
    (hb : State.target? (some e) = some b) : s.HasField b := by
  have houtline := (tame_readFieldAccess (tame_readings S t) (.inl trivial)).leads allows_outline
    s e s' hrun
  have hfields : s'.fields = s.fields := (congrArg State.fields houtline :)
  rw [readFieldAccess_eq] at hrun
  obtain ⟨⟨qualifier, owner⟩, s₁, -, hrest⟩ := run_bind_eq_ok.1 hrun
  cases hrest
  have hfield := State.hasField_of_member? hb
  unfold State.HasField at hfield ⊢
  rwa [hfields] at hfield

/-- **What an assignment is made to** is a variable in scope, if its left side is a name, and a field if
it is not. -/
theorem target_of_readsIn {S : Source} {s : State} {t : Tree} {e : Expr} (he : S.ReadsIn s t e)
    {b : Binding} (hb : State.target? (some e) = some b) :
    t.type = "identifier" ∧ s.lookup (S.text t) = some b ∨ s.HasField b := by
  obtain ⟨s₀, s₁, hscopes, hfields, hrun⟩ := he
  by_cases hname : t.type = "identifier"
  · rw [run_identifier S hname] at hrun
    cases hrun
    rw [← State.lookup_congr hscopes]
    exact .inl ⟨hname, hb⟩
  · refine .inr ?_
    rw [reading_asExpr] at hrun
    by_cases haccess : ExprForm.ofType t.type = .fieldAccess
    · unfold readExpr at hrun
      rw [haccess] at hrun
      have hfield := hasField_of_readFieldAccess hrun hb
      unfold State.HasField at hfield ⊢
      rwa [hfields] at hfield
    · have hform : ExprForm.ofType t.type ≠ .identifier := by
        intro hform
        have htype := ExprForm.hasType_ofType t.type
        rw [hform] at htype
        exact hname htype
      have hnone := (yields_readExpr _ s₀ e s₁ hrun).2 hform haccess
      rw [hnone] at hb
      cases hb

theorem left_or_field_of_target {S : Source} {s : State} {a : Tree} {left : Option Expr}
    (hleft : Option.Rel (S.ReadsIn s) (Subtree.node? (a.child? "left")) left) {b : Binding}
    (hb : State.target? left = some b) :
    (∃ l, a.child? "left" = some l ∧ l.1.type = "identifier" ∧ s.lookup (S.text l.1) = some b) ∨
      s.HasField b := by
  cases hchild : a.child? "left" with
  | none =>
    rw [hchild] at hleft
    cases hleft
    cases hb
  | some l =>
    rw [hchild] at hleft
    cases hleft with
    | some he => exact (target_of_readsIn he hb).imp_left fun h => ⟨l, rfl, h⟩

/-! ### Where variables are met -/

/-- The variables in scope, the fields, the variables with an initializer and those with a value have
each a property. -/
structure State.Confines (visible field initialized bound : Binding → Prop) (s : State) : Prop where
  scopes : ∀ scope ∈ s.scopes, ∀ b ∈ scope.values, visible b
  fields : ∀ scope ∈ s.fields.values, ∀ b ∈ scope.values, field b
  initialized : ∀ b ∈ s.initialized, initialized b
  bindings : ∀ b ∈ s.bindings.keys, bound b

namespace State.Confines

variable {visible field initialized bound : Binding → Prop} {s : State}

theorem empty (visible field initialized bound : Binding → Prop) :
    ({} : State).Confines visible field initialized bound where
  scopes := List.forall_mem_nil _
  fields := List.forall_mem_nil _
  initialized := List.forall_mem_nil _
  bindings := List.forall_mem_nil _

variable (h : s.Confines visible field initialized bound)

include h

theorem lookup {name : String} {b : Binding} (hb : s.lookup name = some b) : visible b := by
  obtain ⟨scope, hscope, hget⟩ := List.exists_of_findSome?_eq_some hb
  exact h.scopes scope hscope b (Table.mem_values_of_get? hget)

theorem hasField {b : Binding} (hb : s.HasField b) : field b := by
  obtain ⟨scope, hscope, hmem⟩ := hb
  exact h.fields scope hscope b hmem

theorem get? {b : Binding} {e : Expr} (hb : s.bindings.get? b = some e) : bound b := by
  by_contra hnot
  rw [Table.get?_eq_none_iff.2 fun hmem => hnot (h.bindings b hmem)] at hb
  cases hb

theorem addVariable {b : Binding} (hb : visible b) :
    (s.addVariable b).Confines visible field initialized bound := by
  unfold State.addVariable
  split
  · exact h
  · rename_i scope rest hscopes
    obtain ⟨hscope, hrest⟩ := List.forall_mem_cons.1 (hscopes ▸ h.scopes)
    exact { h with scopes := List.forall_mem_cons.2 ⟨Table.forall_values_insert hscope _ hb, hrest⟩ }

theorem insert_bindings {b : Binding} (hb : bound b) (e : Expr) :
    ∀ b' ∈ (s.bindings.insert b e).keys, bound b' := by
  intro b' hb'
  rcases Table.mem_keys_insert.1 hb' with hb' | rfl
  · exact h.bindings b' hb'
  · exact hb

theorem bind {b : Binding} (hinitialized : initialized b) (hbound : bound b) (e : Expr) :
    (s.bind b (some e)).Confines visible field initialized bound := by
  refine { h with initialized := fun b' hb' => ?_, bindings := h.insert_bindings hbound e }
  dsimp only [State.bind] at hb'
  split at hb'
  · exact h.initialized b' hb'
  · rcases List.mem_cons.1 hb' with rfl | hb'
    · exact hinitialized
    · exact h.initialized b' hb'

theorem assign (operator : String) {left : Option Expr}
    (hleft : ∀ b, State.target? left = some b → bound b) (right : Option Expr) :
    (s.assign operator left right).Confines visible field initialized bound := by
  rcases s.assign_cases operator left right with heq | ⟨b, value, hb, -, -, heq⟩
  · rw [heq]
    exact h
  · rw [heq]
    exact { h with bindings := h.insert_bindings (hleft b hb) value }

theorem addFields (hvisible : ∀ b, visible b → field b) (type : String) :
    (s.addFields type).Confines visible field initialized bound := by
  refine { h with fields := Table.forall_values_insert h.fields type fun b hb => hvisible b ?_ }
  unfold State.innermost at hb
  cases hscopes : s.scopes with
  | nil =>
    rw [hscopes] at hb
    cases hb
  | cons scope rest =>
    rw [hscopes] at hb
    have hscope : scope ∈ s.scopes := hscopes ▸ List.mem_cons_self
    exact h.scopes scope hscope b hb

/-- **An effect** keeps the properties, if its variable has them and variables that an assignment can
reach may have a value. -/
theorem after {S : Source} {e : Event} {x : Effect} (hx : Happens S s e x)
    (hdeclares : ∀ b, x = .declared b → visible b)
    (hinitializes : ∀ b v, x = .initialized b v → initialized b ∧ bound b)
    (hvisible : ∀ b, visible b → bound b) (hfield : ∀ b, field b → bound b)
    (hpublishes : e = .fields → ∀ b, visible b → field b) :
    (s.after x).Confines visible field initialized bound := by
  cases hx with
  | opening =>
    exact { h with scopes := List.forall_mem_cons.2 ⟨List.forall_mem_nil _, h.scopes⟩ }
  | closing =>
    exact { h with scopes := fun scope hscope => h.scopes scope (List.mem_of_mem_tail hscope) }
  | declaration => exact h.addVariable (hdeclares _ rfl)
  | initialization =>
    obtain ⟨hinitialized, hbound⟩ := hinitializes _ _ rfl
    exact h.bind hinitialized hbound _
  | assignment hleft _ =>
    refine h.assign _ (fun b hb => ?_) _
    rcases left_or_field_of_target hleft hb with ⟨l, -, -, hlookup⟩ | hmember
    · exact hvisible b (h.lookup hlookup)
    · exact hfield b (h.hasField hmember)
  | fields type => exact h.addFields (hpublishes rfl) type

end State.Confines

/-- **A variable has a value** only if it is declared. -/
theorem Course.declared_of_get? {S : Source} {es : List Event} {xs : List Effect}
    (h : Course S {} es xs) (htied : Tied (es.zip xs)) {b : Binding} {e : Expr}
    (hb : (xs.foldl State.after {}).bindings.get? b = some e) :
    ∃ kind name v, (.declaration kind name v, .declared b) ∈ es.zip xs := by
  let P (b : Binding) : Prop := ∃ kind name v, (.declaration kind name v, .declared b) ∈ es.zip xs
  have hconfines : (xs.foldl State.after {}).Confines P P (fun _ => True) P := by
    refine h.invariant (fun s e x hmem hx hs => hs.after hx ?_ ?_ (fun _ => id) (fun _ => id)
      fun _ _ => id) (.empty ..)
    · rintro b rfl
      cases hx with
      | declaration => exact ⟨_, _, _, hmem⟩
    · rintro b v rfl
      cases hx with
      | initialization => exact ⟨trivial, _, _, _, (htied ..).2 ⟨v, hmem⟩⟩
  exact hconfines.get? hb

end TaintFlow.Java
