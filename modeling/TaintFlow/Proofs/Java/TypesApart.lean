import TaintFlow.Proofs.Java.LockstepTypes
import TaintFlow.Proofs.Java.TypeNames

/-!
# Types that are read apart

What is read of an outermost type goes under the names of the types that it declares.  So long as no
field is looked for in the types that were read before it, those make no difference: the type is read
as if it were the first, and what it adds stands behind what is there (`lockstep_apart`).  A unit of
such types is what its types give one by one, put together (`run_types`).

* `State.Within` : all that was read comes from certain types.
* `State.Beside` : a state that has, besides all that is in another one, what was read before.
* `State.Joins` : a state that is put together from what types give one by one.
-/

namespace TaintFlow

/-! ### Tables put together -/

namespace Table

variable {κ α : Type} [DecidableEq κ] {s t before : Table κ α}

theorem get?_append (h : t.entries = before.entries ++ s.entries) (k : κ) :
    t.get? k = (before.get? k).or (s.get? k) := by
  rw [get?, h, List.lookup_append]
  rfl

theorem get?_append_of_not_mem (h : t.entries = before.entries ++ s.entries) {k : κ}
    (hk : k ∉ before.keys) : t.get? k = s.get? k := by
  rw [get?_append h, get?_eq_none_iff.2 hk, Option.none_or]

theorem insert_append (h : t.entries = before.entries ++ s.entries) {k : κ}
    (hk : k ∉ before.keys) (v : α) :
    (t.insert k v).entries = before.entries ++ (s.insert k v).entries := by
  rw [insert, h]
  exact insertInto_append_of_not_mem hk v s.entries

theorem update_append (h : t.entries = before.entries ++ s.entries) {k : κ}
    (hk : k ∉ before.keys) (d : α) (f : α → α) :
    (t.update k d f).entries = before.entries ++ (s.update k d f).entries := by
  have hgetD : t.getD k d = s.getD k d := by rw [getD, getD, get?_append_of_not_mem h hk]
  rw [update, update, hgetD]
  exact insert_append h hk _

end Table

namespace Java

open TaintFlow.Code Read

/-! ### Where things come from -/

/-- The names of some types, and those of their fields. -/
structure DeclaredNames where
  types : List String
  fields : List String

/-- The variable is declared in one of the types, with one of the names if it is a field. -/
def DeclaredIn (N : DeclaredNames) (b : Binding) : Prop :=
  (∃ type ∈ N.types, b.declaringType = some type) ∧ (b.kind = .field → b.name ∈ N.fields)

/-- The variable that an expression names, if it is the target of an assignment, is declared there. -/
def TargetIn (N : DeclaredNames) (e : Expr) : Prop :=
  ∀ b, State.target? (some e) = some b → DeclaredIn N b

namespace State

/-- All that was read comes from the types. -/
structure Within (N : DeclaredNames) (s : State) : Prop where
  classes : ∀ type ∈ s.classes, type ∈ N.types
  scopes : ∀ scope ∈ s.scopes, ∀ p ∈ scope.entries, p.1 = p.2.name ∧ DeclaredIn N p.2
  fields : ∀ p ∈ s.fields.entries, p.1 ∈ N.types ∧
    ∀ q ∈ p.2.entries, q.1 ∈ N.fields ∧ DeclaredIn N q.2
  initialized : ∀ b ∈ s.initialized, DeclaredIn N b
  methodCalls : ∀ p ∈ s.methodCalls.entries, p.1.declaringType ∈ N.types
  bindings : ∀ p ∈ s.bindings.entries, DeclaredIn N p.1

/-- Nothing that was read comes from the types. -/
structure Without (N : DeclaredNames) (s : State) : Prop where
  fields : ∀ type ∈ s.fields.keys, type ∉ N.types
  initialized : ∀ b ∈ s.initialized, ∀ type ∈ N.types, b.declaringType ≠ some type
  methodCalls : ∀ signature ∈ s.methodCalls.keys, signature.declaringType ∉ N.types
  bindings : ∀ b ∈ s.bindings.keys, ∀ type ∈ N.types, b.declaringType ≠ some type

variable {N : DeclaredNames} {s outer : State}

theorem Without.not_mem_bindings (h : s.Without N) {b : Binding}
    (hb : DeclaredIn N b) : b ∉ s.bindings.keys := by
  obtain ⟨⟨type, htype, hdeclaring⟩, -⟩ := hb
  exact fun hmem => h.bindings b hmem type htype hdeclaring

theorem Without.not_mem_initialized (h : s.Without N) {b : Binding}
    (hb : DeclaredIn N b) : b ∉ s.initialized := by
  obtain ⟨⟨type, htype, hdeclaring⟩, -⟩ := hb
  exact fun hmem => h.initialized b hmem type htype hdeclaring

namespace Within

variable (h : s.Within N)

include h

theorem lookup {name : String} {b : Binding} (hb : s.lookup name = some b) :
    DeclaredIn N b := by
  obtain ⟨scope, hscope, hget⟩ := List.exists_of_findSome?_eq_some hb
  exact (h.scopes scope hscope _ (Table.mem_entries_of_get? hget)).2

theorem member {owner : Option String} {name : String} {b : Binding}
    (hb : s.member? owner name = some b) : DeclaredIn N b := by
  obtain ⟨type, scope, hscope, hget⟩ := exists_scope_of_member? hb
  have hfield := h.fields _ (Table.mem_entries_of_get? hscope)
  exact (hfield.2 _ (Table.mem_entries_of_get? hget)).2

theorem pushScope : s.pushScope.Within N := by
  refine { h with scopes := fun scope hscope => ?_ }
  rcases List.mem_cons.1 hscope with rfl | hscope
  · exact List.forall_mem_nil _
  · exact h.scopes scope hscope

theorem popScope : s.popScope.Within N :=
  { h with scopes := fun scope hscope => h.scopes scope (List.mem_of_mem_tail hscope) }

theorem addVariable {b : Binding} (hb : DeclaredIn N b) :
    (s.addVariable b).Within N := by
  unfold State.addVariable
  split
  · exact h
  · rename_i scope rest hscopes
    obtain ⟨hscope, hrest⟩ := List.forall_mem_cons.1 (hscopes ▸ h.scopes)
    refine { h with scopes := List.forall_mem_cons.2 ⟨?_, hrest⟩ }
    exact Table.forall_entries_insert (P := fun k b => k = b.name ∧ DeclaredIn N b) hscope
      ⟨rfl, hb⟩

theorem insert_bindings {b : Binding} (hb : DeclaredIn N b) (e : Expr) :
    ∀ p ∈ (s.bindings.insert b e).entries, DeclaredIn N p.1 :=
  Table.forall_entries_insert (P := fun b _ => DeclaredIn N b) h.bindings hb

theorem bind {b : Binding} (hb : DeclaredIn N b) (e : Expr) :
    (s.bind b (some e)).Within N := by
  refine { h with bindings := h.insert_bindings hb e, initialized := ?_ }
  dsimp only [State.bind]
  split
  · exact h.initialized
  · exact List.forall_mem_cons.2 ⟨hb, h.initialized⟩

theorem assign (operator : String) {left : Option Expr}
    (hleft : ∀ e ∈ left, TargetIn N e) (right : Option Expr) :
    (s.assign operator left right).Within N := by
  rcases s.assign_cases operator left right with heq | ⟨b, value, htarget, -, -, heq⟩
  · rwa [heq]
  · rw [heq]
    cases left with
    | none => cases htarget
    | some e => exact { h with bindings := h.insert_bindings (hleft e rfl b htarget) value }

theorem enterType {type : String} (htype : type ∈ N.types) :
    (s.enterType type).Within N :=
  { h.pushScope with classes := List.forall_mem_cons.2 ⟨htype, h.classes⟩ }

theorem leaveType (houter : outer.Within N) :
    (s.leaveType outer).Within N :=
  { h.popScope with classes := houter.classes }

theorem addFields {type : String} (htype : type ∈ N.types)
    (hfields : ∀ b ∈ s.innermost.values, DeclaredIn N b ∧ b.kind = .field) :
    (s.addFields type).Within N := by
  refine { h with fields := Table.forall_entries_insert (P := fun type (scope : Scope) =>
    type ∈ N.types ∧ ∀ q ∈ scope.entries, q.1 ∈ N.fields ∧ DeclaredIn N q.2) h.fields ⟨htype, ?_⟩ }
  intro q hq
  obtain ⟨hdeclared, hkind⟩ := hfields q.2 (List.mem_map_of_mem hq)
  -- variables stand in their scope under their names
  have hname : q.1 = q.2.name := by
    unfold innermost at hq
    cases hscopes : s.scopes with
    | nil =>
      rw [hscopes] at hq
      exact absurd hq List.not_mem_nil
    | cons scope rest =>
      rw [hscopes] at hq
      exact (h.scopes scope (hscopes ▸ List.mem_cons_self) q hq).1
  exact ⟨hname ▸ hdeclared.2 hkind, hdeclared⟩

theorem leaveMethod {m : Method} (hm : m.signature.declaringType ∈ N.types) :
    (s.leaveMethod outer m).Within N := by
  have hcalls : ∀ p ∈ (s.leaveMethod outer m).methodCalls.entries, p.1.declaringType ∈ N.types :=
    Table.forall_entries_update (P := fun (k : Signature) _ => k.declaringType ∈ N.types)
      h.methodCalls hm fun _ _ => hm
  exact { h with methodCalls := hcalls }

end Within

/-! ### States with what was read before -/

/-- What the first pass notes. -/
structure NotedNames where
  package : String
  imports : Table String String
  localTypes : Table String String
  superclasses : Table String String
  headers : Table HeaderKey String

/-- What the first pass noted. -/
def notedNames (s : State) : NotedNames :=
  ⟨s.package, s.imports, s.localTypes, s.superclasses, s.headers⟩

/-- The same was noted, so far as the second pass looks at it. -/
structure SameNames (a b : NotedNames) : Prop where
  package : b.package = a.package
  imports : b.imports = a.imports
  localTypes : ∀ name, b.localTypes.get? name = a.localTypes.get? name
  superclasses : ∀ type, b.superclasses.get? type = a.superclasses.get? type
  headers : ∀ key, b.headers.get? key = a.headers.get? key

theorem notedNames_heading (s : State) : s.heading.notedNames = s.notedNames := rfl

namespace SameNames

theorem refl (a : NotedNames) : SameNames a a :=
  ⟨rfl, rfl, fun _ => rfl, fun _ => rfl, fun _ => rfl⟩

theorem symm {a b : NotedNames} (h : SameNames a b) : SameNames b a :=
  ⟨h.package.symm, h.imports.symm, fun name => (h.localTypes name).symm,
    fun type => (h.superclasses type).symm, fun key => (h.headers key).symm⟩

theorem trans {a b c : NotedNames} (h : SameNames a b) (h' : SameNames b c) : SameNames a c :=
  ⟨h'.package.trans h.package, h'.imports.trans h.imports,
    fun name => (h'.localTypes name).trans (h.localTypes name),
    fun type => (h'.superclasses type).trans (h.superclasses type),
    fun key => (h'.headers key).trans (h.headers key)⟩

variable {t : State} (h : SameNames s.notedNames t.notedNames)

include h

theorem resolveType_eq : t.resolveType = s.resolveType := by
  have himports : t.imports = s.imports := h.imports
  have hlocal : ∀ name, t.localTypes.get? name = s.localTypes.get? name := h.localTypes
  funext text
  simp only [State.resolveType, qualifiedHead?, himports, hlocal]

theorem returnType?_eq : t.returnType? = s.returnType? := by
  have hheaders : ∀ key, t.headers.get? key = s.headers.get? key := h.headers
  funext type name arity
  simp only [State.returnType?, hheaders, h.resolveType_eq]

theorem typeName_eq (name : String) :
    t.localTypes.getD name name = s.localTypes.getD name name :=
  congrArg (·.getD name) (h.localTypes name)

end SameNames

/-- The second state is the first one, in which all comes from the types, with what was read
before. -/
structure Beside (N : DeclaredNames) (before s t : State) : Prop where
  names : SameNames s.notedNames t.notedNames
  classes : t.classes = s.classes
  scopes : t.scopes = s.scopes
  method : t.method = s.method
  calls : t.calls = s.calls
  fields : t.fields.entries = before.fields.entries ++ s.fields.entries
  initialized : ∀ b, b ∈ t.initialized ↔ b ∈ before.initialized ∨ b ∈ s.initialized
  methods : t.methods = before.methods ++ s.methods
  methodCalls : t.methodCalls.entries = before.methodCalls.entries ++ s.methodCalls.entries
  bindings : t.bindings.entries = before.bindings.entries ++ s.bindings.entries
  within : s.Within N

namespace Beside

variable {before t outer' : State} (h : Beside N before s t)

include h

theorem currentClass : t.currentClass = s.currentClass := by
  rw [State.currentClass, State.currentClass, h.classes]

/-- A field that no type read before has is looked up alike; so is one of the type being read. -/
theorem member (hbefore : before.Without N) {owner : Option String} {name : String}
    (hname : (∀ scope ∈ before.fields.values, scope.get? name = none) ∨ owner = s.currentClass) :
    t.member? owner name = s.member? owner name := by
  cases owner with
  | none => rfl
  | some type =>
    simp only [member?, Option.bind_eq_bind, Option.bind_some]
    split
    · rfl
    · by_cases htype : type ∈ before.fields.keys
      · -- the type was read before, so the name is none of its fields
        have hnot : type ∉ N.types := hbefore.fields type htype
        have hnone : s.fields.get? type = none := by
          refine Table.get?_eq_none_iff.2 fun hmem => hnot ?_
          obtain ⟨p, hp, rfl⟩ := List.mem_map.1 hmem
          exact (h.within.fields p hp).1
        rcases hname with hname | hclass
        · obtain ⟨scope, hscope⟩ := Option.isSome_iff_exists.1 (Table.contains_iff.2 htype)
          rw [Table.get?_append h.fields, hscope, hnone, Option.some_or, Option.bind_some,
            Option.bind_none]
          exact hname scope (Table.mem_values_of_get? hscope)
        · exact absurd (h.within.classes type (List.mem_of_head? hclass.symm)) hnot
      · rw [Table.get?_append_of_not_mem h.fields htype]

theorem addVariable {b : Binding} (hb : DeclaredIn N b) :
    Beside N before (s.addVariable b) (t.addVariable b) := by
  have hwithin := h.within.addVariable hb
  unfold State.addVariable at hwithin ⊢
  rw [h.scopes]
  split at hwithin
  · exact h
  · exact { h with scopes := rfl, within := hwithin }

theorem bind (hbefore : before.Without N) {b : Binding} (hb : DeclaredIn N b)
    (e : Expr) : Beside N before (s.bind b (some e)) (t.bind b (some e)) := by
  refine { h with
    bindings := Table.insert_append h.bindings (hbefore.not_mem_bindings hb) e
    initialized := fun x => ?_
    within := h.within.bind hb e }
  have hiff : b ∈ t.initialized ↔ b ∈ s.initialized := by
    rw [h.initialized]
    exact or_iff_right (hbefore.not_mem_initialized hb)
  simp only [State.bind, hiff]
  split
  · exact h.initialized x
  · rw [List.mem_cons, List.mem_cons, h.initialized]
    exact or_left_comm

theorem assign (hbefore : before.Without N) (operator : String) {left : Option Expr}
    (hleft : ∀ e ∈ left, TargetIn N e) (right : Option Expr) :
    Beside N before (s.assign operator left right)
      (t.assign operator left right) := by
  have hwithin := h.within.assign operator hleft right
  unfold State.assign at hwithin ⊢
  cases htarget : target? left with
  | none => exact h
  | some b =>
    cases right with
    | none => exact h
    | some value =>
      have hb : DeclaredIn N b := by
        cases left with
        | none => cases htarget
        | some e => exact hleft e rfl b htarget
      -- a variable of these types was given no value before they were read
      have hiff : b ∈ t.initialized ↔ b ∈ s.initialized := by
        rw [h.initialized]
        exact or_iff_right (hbefore.not_mem_initialized hb)
      simp only [htarget, hiff] at hwithin ⊢
      split
      · rename_i hgiven
        rw [if_pos hgiven] at hwithin
        exact { h with
          bindings := Table.insert_append h.bindings (hbefore.not_mem_bindings hb) value
          within := hwithin }
      · exact h

theorem enterType {type : String} (htype : type ∈ N.types) :
    Beside N before (s.enterType type) (t.enterType type) :=
  { h with
    classes := congrArg (type :: ·) h.classes
    scopes := congrArg (({} : Scope) :: ·) h.scopes
    method := rfl
    calls := rfl
    within := h.within.enterType htype }

theorem leaveType (houter : Beside N before outer outer') :
    Beside N before (s.leaveType outer) (t.leaveType outer') :=
  { h with
    classes := houter.classes
    scopes := congrArg List.tail h.scopes
    method := houter.method
    calls := houter.calls
    within := h.within.leaveType houter.within }

theorem addFields (hbefore : before.Without N) {type : String} (htype : type ∈ N.types)
    (hfields : ∀ b ∈ s.innermost.values, DeclaredIn N b ∧ b.kind = .field) :
    Beside N before (s.addFields type) (t.addFields type) := by
  have hinnermost : t.innermost = s.innermost := by rw [innermost, innermost, h.scopes]
  refine { h with fields := ?_, within := h.within.addFields htype hfields }
  rw [State.addFields, State.addFields, hinnermost]
  exact Table.insert_append h.fields (fun hmem => hbefore.fields type hmem htype) _

theorem leaveMethod (hbefore : before.Without N)
    (houter : Beside N before outer outer') {m : Method}
    (hm : m.signature.declaringType ∈ N.types) :
    Beside N before (s.leaveMethod outer m) (t.leaveMethod outer' m) := by
  refine { h with
    method := houter.method
    calls := houter.calls
    methods := ?_
    methodCalls := ?_
    within := h.within.leaveMethod hm }
  · rw [State.leaveMethod, State.leaveMethod, h.methods, List.append_assoc]
  · rw [State.leaveMethod, State.leaveMethod, h.calls]
    exact Table.update_append h.methodCalls (fun hmem => hbefore.methodCalls _ hmem hm) _ _

end Beside

end State

/-! ### A type after others -/

theorem State.classes_addVariable (s : State) (b : Binding) :
    (s.addVariable b).classes = s.classes :=
  (congrArg State.classes (s.addVariable_eq b) :)

theorem State.classes_assign (s : State) (operator : String) (left right : Option Expr) :
    (s.assign operator left right).classes = s.classes :=
  (congrArg State.classes (s.assign_eq operator left right) :)

section

variable {S : Source} {N : DeclaredNames} {before : State}

open State

/-- A type with these names, read first of all, and read after others. -/
def apart (S : Source) (N : DeclaredNames) {before : State}
    (hbefore : before.Without N) : Coupling S where
  -- inside a type, so that a variable is declared in one
  alike s t := Beside N before s t ∧ s.classes ≠ []
  sound := TargetIn N
  known := DeclaredIn N
  reaches name := before.fields.values.all fun scope => (scope.get? name).isNone
  declares _ node := S.text node ∈ N.fields
  reads _ _ := True
  owns type := type ∈ N.types
  method h := h.1.method
  currentClass h := h.1.currentClass
  resolveType h := h.1.names.resolveType_eq
  superclass h type := congrArg (·.getD "") (h.1.names.superclasses type)
  typeName h := h.1.names.typeName_eq
  lookup h name := by rw [lookup, lookup, h.1.scopes]
  member h _ _ hname := by
    refine h.1.member hbefore (hname.imp_left fun hname scope hscope => ?_)
    exact Option.isNone_iff_eq_none.1 (List.all_eq_true.1 hname scope hscope)
  header h := h.1.names.headers
  plain e he b hb := by
    cases e with
    | name | qualified => cases he
    | _ => cases hb
  variableName hb _ _ b' hb' := Option.some.inj hb' ▸ hb
  name h _ _ b hb := h.1.within.lookup hb
  access h _ _ _ _ _ _ := ⟨fun b hb => h.1.within.member hb, fun b hb => h.1.within.member hb⟩
  call _ _ _ _ _ _ _ b hb := by cases hb
  pushScope h := by
    refine ⟨{ h.1 with scopes := ?_, within := h.1.within.pushScope }, h.2⟩
    exact congrArg (({} : Scope) :: ·) h.1.scopes
  popScope h := by
    refine ⟨{ h.1 with scopes := ?_, within := h.1.within.popScope }, h.2⟩
    exact congrArg List.tail h.1.scopes
  knows {s _} h _ _ _ hdeclare type := by
    obtain ⟨c, rest, hclasses⟩ := List.exists_cons_of_ne_nil h.2
    have hc : c ∈ N.types := h.1.within.classes c (hclasses ▸ List.mem_cons_self)
    refine ⟨⟨c, hc, ?_⟩, fun hkind => ?_⟩
    · simp [newVariable, State.currentClass, hclasses]
    · cases hdeclare with
      | field _ _ hfield => exact hfield
      | _ => cases hkind
  addVariable {s _} h b hb := ⟨h.1.addVariable hb, s.classes_addVariable b ▸ h.2⟩
  bind h _ _ hb _ _ := ⟨h.1.bind hbefore hb _, h.2⟩
  addCall h _ _ _ := by
    refine ⟨{ h.1 with calls := ?_, within := { h.1.within with } }, h.2⟩
    rw [addCall, addCall, h.1.calls]
  assign {s _} h left right hleft _ operator :=
    ⟨h.1.assign hbefore operator (fun e he => hleft e he e .refl) right,
      s.classes_assign operator left right ▸ h.2⟩
  enterType h _ htype := ⟨h.1.enterType htype, List.cons_ne_nil _ _⟩
  leaveType h _ _ h' := ⟨h'.1.leaveType h.1, h.2⟩
  addFields h _ htype hfields := ⟨h.1.addFields hbefore htype hfields, h.2⟩
  enterMethod h _ _ _ := ⟨{ h.1 with method := rfl, calls := rfl, within := { h.1.within with } }, h.2⟩
  leaveMethod h _ _ h' _ hm _ := ⟨h'.1.leaveMethod hbefore h.1 hm, h'.2⟩

/-- The states around an outermost type. -/
def Around (N : DeclaredNames) (before s t : State) : Prop :=
  Beside N before s t ∧ t.classes = [] ∧ t.method = none ∧ t.calls = none

theorem surrounds_around (hbefore : before.Without N) :
    (apart S N hbefore).Surrounds (Around N before) where
  currentClass h := h.1.currentClass
  typeName h := h.1.names.typeName_eq
  enterType h _ htype := ⟨h.1.enterType htype, List.cons_ne_nil _ _⟩
  leaveType h _ _ h' := ⟨h'.1.leaveType h.1, h.2⟩

end

/-! ### Types one by one -/

/-- The fields that are looked for in a tree in the type of an object, by name. -/
def Source.reachedFields (S : Source) (t : Tree) : List String :=
  (S.reachedField? t).toList ++ t.parts.flatMap fun c => reachedFields S c.1
termination_by t.size
decreasing_by exact c.2

theorem all_admits {S : Source} {C : Coupling S} {t : Tree}
    (h : ∀ name ∈ S.reachedFields t, C.reaches name = true) : t.all C.admits = true := by
  induction hsize : t.size using Nat.strongRecOn generalizing t with
  | ind n ih =>
    rw [Source.reachedFields] at h
    rw [Tree.all_eq_true]
    constructor
    · cases hfield : S.reachedField? t with
      | none => simp [Coupling.admits, hfield]
      | some name =>
        have hname := h name (List.mem_append_left _ (by simp [hfield]))
        simpa [Coupling.admits, hfield] using hname
    · intro c hc
      refine ih c.1.size (hsize ▸ c.2) (fun name hname => h name ?_) rfl
      exact List.mem_append_right _ (List.mem_flatMap.2 ⟨c, hc, hname⟩)

theorem map_snd_declared (S : Source) (naming naming' : Naming) (around around' : Option String)
    (t : Tree) : (declared S naming around t).map (·.2) = (declared S naming' around' t).map (·.2) := by
  rw [declared_eq, declared_eq, List.map_cons, List.map_cons, List.map_flatMap, List.map_flatMap]
  exact congrArg _ (List.flatMap_congr fun m _ => map_snd_declaredIn S naming naming' _ _ m.1)

/-- The types that a type declares, itself first. -/
def Source.declaredTypes (S : Source) (t : Tree) : List Tree :=
  ((declared S (javaName "") none t).map (·.2)).filter Tree.isTypeDeclaration

theorem declaredTypes_eq (S : Source) (naming : Naming) (around : Option String) (t : Tree) :
    S.declaredTypes t = ((declared S naming around t).filter (·.2.isTypeDeclaration)).map (·.2) := by
  rw [Source.declaredTypes, map_snd_declared S (javaName "") naming none around, List.filter_map]
  rfl

/-- The fields that a type declares, and those that the types inside it do, by name. -/
def Source.declaredFields (S : Source) (t : Tree) : List String :=
  (S.declaredTypes t).flatMap fun d => d.members.flatMap fun m => S.fieldNames m.1

/-- What a type declares, under the names that the second pass finds for the types. -/
def declaredNames (S : Source) (localTypes : Table String String) (t : Tree) : DeclaredNames where
  types := ((declared S (readName localTypes) none t).filter (·.2.isTypeDeclaration)).map (·.1)
  fields := S.declaredFields t

theorem hosts_declaredNames {S : Source} {localTypes : Table String String} {t : Tree}
    {before : State} (hbefore : before.Without (declaredNames S localTypes t))
    {d : String × Tree} (hd : d ∈ declared S (readName localTypes) none t)
    (htype : d.2.isTypeDeclaration = true) : (apart S _ hbefore).Hosts d where
  owns := List.mem_map_of_mem (List.mem_filter.2 ⟨hd, htype⟩)
  declares m hm n hn := by
    have hname : S.text n ∈ S.fieldNames m.1 := by
      rw [S.fieldNames_eq]
      exact List.mem_map_of_mem hn
    refine List.mem_flatMap.2 ⟨d.2, ?_, List.mem_flatMap.2 ⟨m, hm, hname⟩⟩
    rw [declaredTypes_eq S (readName localTypes) none]
    exact List.mem_map_of_mem (List.mem_filter.2 ⟨hd, htype⟩)
  reads _ _ _ := trivial

/-- What is known after a type alone was read, if it can be read. -/
def alone? (S : Source) (s : State) (t : Tree) : Option State :=
  ((readType S t).run s).toOption.map (·.2)

/-- The state outside of all types, with what the types gave one by one. -/
structure State.Joins (start : State) (ss : List State) (t : State) : Prop where
  names : SameNames start.notedNames t.notedNames
  classes : t.classes = []
  scopes : t.scopes = []
  method : t.method = none
  calls : t.calls = none
  fields : t.fields.entries = ss.flatMap (·.fields.entries)
  initialized : ∀ b ∈ t.initialized, ∃ s ∈ ss, b ∈ s.initialized
  methods : t.methods = ss.flatMap (·.methods)
  methodCalls : t.methodCalls.entries = ss.flatMap (·.methodCalls.entries)
  bindings : t.bindings.entries = ss.flatMap (·.bindings.entries)

theorem State.joins_nil {start t : State} (h : SameNames start.notedNames t.notedNames)
    (ht : t.Fresh) : Joins start [] t where
  names := h
  classes := ht.classes
  scopes := ht.scopes
  method := ht.method
  calls := ht.calls
  fields := congrArg Table.entries ht.fields
  initialized := by simp [ht.initialized]
  methods := ht.methods
  methodCalls := congrArg Table.entries ht.methodCalls
  bindings := congrArg Table.entries ht.bindings

/-- Nothing comes from types that none of the parts comes from. -/
theorem State.Joins.without {start t : State} {ss : List State} {N : DeclaredNames}
    (h : Joins start ss t)
    (hss : ∀ s ∈ ss, ∃ N', s.Within N' ∧ ∀ type ∈ N.types, type ∉ N'.types) : t.Without N where
  fields type hmem htype := by
    obtain ⟨p, hp, rfl⟩ := List.mem_map.1 hmem
    rw [h.fields] at hp
    obtain ⟨s, hs, hp⟩ := List.mem_flatMap.1 hp
    obtain ⟨N', hwithin, hapart⟩ := hss s hs
    exact hapart _ htype (hwithin.fields p hp).1
  initialized b hb type htype hdeclaring := by
    obtain ⟨s, hs, hb⟩ := h.initialized b hb
    obtain ⟨N', hwithin, hapart⟩ := hss s hs
    obtain ⟨⟨type', htype', heq⟩, -⟩ := hwithin.initialized b hb
    rw [hdeclaring] at heq
    exact hapart type htype (Option.some.inj heq ▸ htype')
  methodCalls signature hmem htype := by
    obtain ⟨p, hp, rfl⟩ := List.mem_map.1 hmem
    rw [h.methodCalls] at hp
    obtain ⟨s, hs, hp⟩ := List.mem_flatMap.1 hp
    obtain ⟨N', hwithin, hapart⟩ := hss s hs
    exact hapart _ htype (hwithin.methodCalls p hp)
  bindings b hmem type htype hdeclaring := by
    obtain ⟨p, hp, rfl⟩ := List.mem_map.1 hmem
    rw [h.bindings] at hp
    obtain ⟨s, hs, hp⟩ := List.mem_flatMap.1 hp
    obtain ⟨N', hwithin, hapart⟩ := hss s hs
    obtain ⟨⟨type', htype', heq⟩, -⟩ := hwithin.bindings p hp
    rw [hdeclaring] at heq
    exact hapart type htype (Option.some.inj heq ▸ htype')

theorem State.Fresh.within {s : State} (h : s.Fresh) (N : DeclaredNames) : s.Within N where
  classes := by simp [h.classes]
  scopes := by simp [h.scopes]
  fields := by simp [h.fields]
  initialized := by simp [h.initialized]
  methodCalls := by simp [h.methodCalls]
  bindings := by simp [h.bindings]

/-- Before a type is read, nothing was read of it. -/
theorem State.Joins.around {start t : State} {ss : List State} (hstart : start.Fresh)
    (h : Joins start ss t) (N : DeclaredNames) : Around N t start t := by
  refine ⟨?_, h.classes, h.method, h.calls⟩
  constructor
  case names => exact h.names
  case classes => rw [h.classes, hstart.classes]
  case scopes => rw [h.scopes, hstart.scopes]
  case method => rw [h.method, hstart.method]
  case calls => rw [h.calls, hstart.calls]
  case fields => simp [hstart.fields]
  case initialized => simp [hstart.initialized]
  case methods => simp [hstart.methods]
  case methodCalls => simp [hstart.methodCalls]
  case bindings => simp [hstart.bindings]
  case within => exact hstart.within N

section

variable {S : Source} {start t : State}

open State

/-- The one type makes no difference for the other: they have no names of types in common, and the
other looks in no object for a field that the one declares. -/
structure Apart (S : Source) (start : State) (earlier later : Tree) : Prop where
  types : ∀ type ∈ (declaredNames S start.localTypes later).types,
    type ∉ (declaredNames S start.localTypes earlier).types
  fields : ∀ name ∈ S.reachedFields later, name ∉ S.declaredFields earlier

/-- **A type after others** that make no difference for it is read as if it were the first, and what
it gives stands behind what they gave. -/
theorem lockstep_apart (hstart : start.Fresh) {earlier : List Tree} {ss : List State}
    (hss : ∀ s ∈ ss, ∃ d ∈ earlier, s.Within (declaredNames S start.localTypes d))
    (h : start.Joins ss t) {d : Tree} (htype : d.isTypeDeclaration = true)
    (hapart : ∀ d' ∈ earlier, Apart S start d' d) :
    (∃ s' t', alone? S start d = some s' ∧ (readType S d).run t = .ok ((), t') ∧
        s'.Within (declaredNames S start.localTypes d) ∧ start.Joins (ss ++ [s']) t') ∨
      alone? S start d = none ∧ ∃ f, (readType S d).run t = .error f := by
  have hbefore : t.Without (declaredNames S start.localTypes d) := by
    refine h.without fun s hs => ?_
    obtain ⟨d', hd', hwithin⟩ := hss s hs
    exact ⟨_, hwithin, (hapart d' hd').types⟩
  have hadmits : d.all (apart S _ hbefore).admits = true := by
    refine all_admits fun name hname => List.all_eq_true.2 fun scope hscope => ?_
    -- a field of a type that was read before has another name
    obtain ⟨p, hp, rfl⟩ := List.mem_map.1 hscope
    rw [h.fields] at hp
    obtain ⟨s, hs, hp⟩ := List.mem_flatMap.1 hp
    obtain ⟨d', hd', hwithin⟩ := hss s hs
    refine Option.isNone_iff_eq_none.2 (Table.get?_eq_none_iff.2 fun hmem => ?_)
    obtain ⟨q, hq, rfl⟩ := List.mem_map.1 hmem
    exact (hapart d' hd').fields _ hname ((hwithin.fields p hp).2 q hq).1
  have hread := lockstep_readType (surrounds_around hbefore) htype hadmits
    (fun d' hd' hdeclared => hosts_declaredNames hbefore hd' hdeclared) start t
    ⟨h.around hstart _, hstart.place⟩
  rcases hread with ⟨_, s', t', hs', ht', ⟨⟨hbeside, hclasses, hmethod, hcalls⟩, hplace⟩, -⟩ |
    ⟨f, hs', ht'⟩
  · refine .inl ⟨s', t', by rw [alone?, hs']; rfl, ht', hbeside.within, ?_⟩
    have hscopes : s'.scopes.length = 0 := congrArg (·.2.2) hplace
    constructor
    case names =>
      have hheading := ((describes_adds S).readType htype hs').2
      have hnoted : s'.notedNames = start.notedNames := by
        rw [← State.notedNames_heading, hheading, State.notedNames_heading]
      exact hnoted ▸ hbeside.names
    case classes => exact hclasses
    case scopes => rw [hbeside.scopes, List.length_eq_zero_iff.1 hscopes]
    case method => exact hmethod
    case calls => exact hcalls
    case fields => simp [hbeside.fields, h.fields]
    case initialized =>
      intro b hb
      rcases (hbeside.initialized b).1 hb with hb | hb
      · obtain ⟨s, hs, hb⟩ := h.initialized b hb
        exact ⟨s, List.mem_append_left _ hs, hb⟩
      · exact ⟨s', List.mem_append_right _ (List.mem_singleton_self _), hb⟩
    case methods => simp [hbeside.methods, h.methods]
    case methodCalls => simp [hbeside.methodCalls, h.methodCalls]
    case bindings => simp [hbeside.bindings, h.bindings]
  · exact .inr ⟨by rw [alone?, hs']; rfl, f, ht'⟩

theorem run_types_after (hstart : start.Fresh) (earlier : List Tree) {ds : List Tree}
    (htypes : ∀ d ∈ ds, d.isTypeDeclaration = true)
    (hapart : (earlier ++ ds).Pairwise (Apart S start))
    (hearlier : ∀ s ∈ earlier.filterMap (alone? S start),
      ∃ d ∈ earlier, s.Within (declaredNames S start.localTypes d))
    (h : start.Joins (earlier.filterMap (alone? S start)) t) :
    (∃ t', (ds.forM (readType S)).run t = .ok ((), t') ∧ (∀ d ∈ ds, (alone? S start d).isSome) ∧
        start.Joins ((earlier ++ ds).filterMap (alone? S start)) t') ∨
      (∃ f, (ds.forM (readType S)).run t = .error f) ∧ ∃ d ∈ ds, alone? S start d = none := by
  induction ds generalizing earlier t with
  | nil =>
    refine .inl ⟨t, rfl, List.forall_mem_nil _, ?_⟩
    rwa [List.append_nil]
  | cons d ds ih =>
    obtain ⟨htype, htypes⟩ := List.forall_mem_cons.1 htypes
    have hd : ∀ d' ∈ earlier, Apart S start d' d :=
      fun d' hd' => (List.pairwise_append.1 hapart).2.2 d' hd' d List.mem_cons_self
    -- the type goes from those that come to those that were read
    have hforM : ((d :: ds).forM (readType S)).run t =
        (readType S d).run t >>= fun p => (ds.forM (readType S)).run p.2 := rfl
    rw [hforM]
    rcases lockstep_apart hstart hearlier h htype hd with
      ⟨s', t', halone, hrun, hwithin, hjoins⟩ | ⟨halone, f, hrun⟩
    · have hfirst : (earlier ++ [d]).filterMap (alone? S start) =
          earlier.filterMap (alone? S start) ++ [s'] := by
        rw [List.filterMap_append, List.filterMap_cons_some halone, List.filterMap_nil]
      have hnext : ∀ s ∈ (earlier ++ [d]).filterMap (alone? S start),
          ∃ d' ∈ earlier ++ [d], s.Within (declaredNames S start.localTypes d') := by
        rw [hfirst]
        intro s hs
        rcases List.mem_append.1 hs with hs | hs
        · obtain ⟨d', hd', hwithin'⟩ := hearlier s hs
          exact ⟨d', List.mem_append_left _ hd', hwithin'⟩
        · rw [List.mem_singleton.1 hs]
          exact ⟨d, List.mem_append_right _ (List.mem_singleton_self _), hwithin⟩
      have happend : earlier ++ d :: ds = earlier ++ [d] ++ ds := by simp
      rw [happend] at hapart ⊢
      rw [hrun]
      rcases ih (earlier ++ [d]) htypes hapart hnext (hfirst ▸ hjoins) with
        ⟨t'', hrest, hall, hjoins'⟩ | ⟨hfail, d', hd', hnone⟩
      · refine .inl ⟨t'', hrest, List.forall_mem_cons.2 ⟨?_, hall⟩, hjoins'⟩
        rw [halone]
        rfl
      · exact .inr ⟨hfail, d', List.mem_cons_of_mem _ hd', hnone⟩
    · rw [hrun]
      exact .inr ⟨⟨f, rfl⟩, d, List.mem_cons_self, halone⟩

/-- **Types one after the other** give what they give one by one, if none of them makes a difference
for a later one; and they can be read exactly if each of them can. -/
theorem run_types (hstart : start.Fresh) {ds : List Tree}
    (htypes : ∀ d ∈ ds, d.isTypeDeclaration = true) (hapart : ds.Pairwise (Apart S start))
    (h : start.Joins [] t) :
    (∃ t', (ds.forM (readType S)).run t = .ok ((), t') ∧ (∀ d ∈ ds, (alone? S start d).isSome) ∧
        start.Joins (ds.filterMap (alone? S start)) t') ∨
      (∃ f, (ds.forM (readType S)).run t = .error f) ∧ ∃ d ∈ ds, alone? S start d = none :=
  run_types_after hstart [] htypes hapart (List.forall_mem_nil _) h

/-- The states have the same noted and read, in whatever order. -/
structure State.SameRead (s t : State) : Prop where
  names : SameNames s.notedNames t.notedNames
  methods : t.methods.Perm s.methods
  methodCalls : t.methodCalls.entries.Perm s.methodCalls.entries
  bindings : t.bindings.entries.Perm s.bindings.entries

theorem State.Joins.sameRead {ss ss' : List State} {t' : State} (h : start.Joins ss t)
    (h' : start.Joins ss' t') (hperm : ss'.Perm ss) : t.SameRead t' where
  names := h.names.symm.trans h'.names
  methods := by
    rw [h.methods, h'.methods]
    exact hperm.flatMap_right _
  methodCalls := by
    rw [h.methodCalls, h'.methodCalls]
    exact hperm.flatMap_right _
  bindings := by
    rw [h.bindings, h'.bindings]
    exact hperm.flatMap_right _

/-- **Types in another order** can be read if they can be read in one, and give the same. -/
theorem run_types_of_perm (hstart : start.Fresh) {ds ds' : List Tree} (hperm : ds'.Perm ds)
    (htypes : ∀ d ∈ ds, d.isTypeDeclaration = true) (hapart : ds.Pairwise (Apart S start))
    (hapart' : ds'.Pairwise (Apart S start)) {start' : State} (hstart' : start'.Fresh)
    (hnames : SameNames start.notedNames start'.notedNames)
    (hrun : (ds.forM (readType S)).run start = .ok ((), t)) :
    ∃ t', (ds'.forM (readType S)).run start' = .ok ((), t') ∧ t.SameRead t' := by
  have htypes' : ∀ d ∈ ds', d.isTypeDeclaration = true := fun d hd => htypes d (hperm.mem_iff.1 hd)
  rcases run_types hstart htypes hapart (joins_nil (.refl _) hstart) with
    ⟨t₁, hrun₁, hall, hjoins⟩ | ⟨⟨f, hfail⟩, -⟩
  · obtain rfl : t₁ = t := congrArg Prod.snd (Except.ok.inj (hrun₁.symm.trans hrun))
    rcases run_types hstart htypes' hapart' (joins_nil hnames hstart') with
      ⟨t', hrun', -, hjoins'⟩ | ⟨-, d, hd, hnone⟩
    · exact ⟨t', hrun', hjoins.sameRead hjoins' (hperm.filterMap _)⟩
    · -- each type can be read, as the one order shows
      have hsome := hall d (hperm.mem_iff.1 hd)
      rw [hnone] at hsome
      cases hsome
  · cases hfail.symm.trans hrun

end

end Java

end TaintFlow
