import TaintFlow.Proofs.Java.LockstepBodies
import TaintFlow.Proofs.Pointwise

/-!
# Types in lockstep

Methods, fields and types are read in lockstep (`lockstep_readType`), if the coupling allows for the
fields and the types that are declared there.  Which name a type is read under depends on the place
where it stands, so the place is followed through the run (`State.place`).
-/

namespace TaintFlow.Java

open TaintFlow.Code Read

variable {S : Source} {C : Coupling S}

/-! ### The place being read -/

/-- The innermost type around the place being read, the names of the types of the unit, and the
number of scopes. -/
def State.place (s : State) : Option String × Table String String × Nat :=
  (s.currentClass, s.localTypes, s.scopes.length)

theorem State.place_addVariable (s : State) (b : Binding) : (s.addVariable b).place = s.place := by
  unfold addVariable
  split
  · rfl
  · rename_i hscopes
    simp [place, currentClass, hscopes]

theorem State.place_assign (s : State) (operator : String) (left right : Option Expr) :
    (s.assign operator left right).place = s.place :=
  (congrArg State.place (s.assign_eq operator left right) :)

theorem State.place_popScope {s s' : State} (h : s'.place = s.pushScope.place) :
    s'.popScope.place = s.place := by
  simp only [place, pushScope, popScope, currentClass, Prod.mk.injEq, List.length_cons,
    List.length_tail] at h ⊢
  exact ⟨h.1, h.2.1, by omega⟩

theorem allows_place : State.Allows fun s s' => s'.place = s.place where
  refl _ := rfl
  trans h h' := h'.trans h
  inScope h := State.place_popScope h
  addVariable s b := s.place_addVariable b
  bind s b value := by cases value <;> rfl
  addCall _ _ := rfl
  assign s operator left right := s.place_assign operator left right

theorem State.Fresh.place {s : State} (h : s.Fresh) : s.place = (none, s.localTypes, 0) := by
  simp [State.place, currentClass, h.classes, h.scopes]

/-! ### Methods -/

/-- Declares the parameters of a method and reads its body. -/
def methodBody (S : Source) (ps : List Parameter) (m : Tree) : Read (Option Stmt) :=
  Read.inScope do
    declareParameters S 0 ps
    match m.child? "body" with
    | none => return none
    | some b => return some (← (reading S b.1).asBlock)

/-- What a declaration of a method is read as, given its body. -/
def methodOf (S : Source) (type : String) (isConstructor : Bool) (m : Tree) (ps : List Parameter)
    (s : State) (body : Option Stmt) : Method where
  signature := signatureOf S type m ps
  position := S.position (((m.child? "name").map (·.1)).getD m)
  parameterNames := ps.filterMap fun p => p.name.map S.text
  returnType := if isConstructor then none else s.resolveType (S.textOf (m.child? "type"))
  body := body
  isConstructor := isConstructor

theorem run_readMethod (S : Source) (type : String) (isConstructor : Bool) (m : Tree) (s : State) :
    (readMethod S type isConstructor m).run s =
      (methodBody S (readParameters S s m) m).run
          (s.enterMethod (signatureOf S type m (readParameters S s m))) >>= fun p =>
        .ok ((), p.2.leaveMethod s
          (methodOf S type isConstructor m (readParameters S s m) p.2 p.1)) :=
  rfl

/-- Parameters are declared at places that the method being read has. -/
theorem endAlike_declareParameters {sig : Signature} {index : Nat} {ps : List Parameter}
    (hlength : index + ps.length ≤ sig.arity) {s t : State} (hst : C.alike s t)
    (hmethod : s.method = some sig) :
    EndAlike C.alike s t (declareParameters S index ps) fun _ => True := by
  induction ps generalizing index s t with
  | nil => exact .inl ⟨(), s, t, rfl, rfl, hst, trivial⟩
  | cons p ps ih =>
    rw [List.length_cons] at hlength
    unfold declareParameters
    split
    · exact ih (by omega) hst hmethod
    · rename_i n _
      refine EndAlike.bind (endAlike_declare hst (.parameter hmethod (by omega)) p.type)
        fun _ s' t' hst' _ => ?_
      obtain ⟨hst', rfl⟩ := hst'
      refine ih (by omega) hst' ?_
      exact (congrArg State.method (s.outline_addVariable _)).trans hmethod

theorem endAlike_methodBody {sig : Signature} {ps : List Parameter} (hlength : ps.length ≤ sig.arity)
    {m : Tree} (hm : m.all C.admits = true) {s t : State} (hst : C.alike s t)
    (hmethod : s.method = some sig) :
    EndAlike C.alike s t (methodBody S ps m) fun s => ∀ e ∈ Stmt.exprsOpt s, C.Sound e := by
  unfold methodBody Read.inScope
  have hpush : EndAlike (fun s t => C.alike s t ∧ s.method = some sig) s t
      (modifyThe State (·.pushScope) : Read PUnit) fun _ => True :=
    .inl ⟨(), _, _, rfl, rfl, ⟨C.pushScope hst, hmethod⟩, trivial⟩
  refine hpush.bind fun _ s₁ t₁ hst₁ _ => ?_
  refine EndAlike.bind (R := C.alike) (Q := fun s => ∀ e ∈ Stmt.exprsOpt s, C.Sound e)
    (EndAlike.bind (endAlike_declareParameters (by omega) hst₁.1 hst₁.2) fun _ s₂ t₂ hst₂ _ => ?_)
    fun body s₃ t₃ hst₃ hbody => ?_
  · split
    · exact Lockstep.pure (by simp [Stmt.exprsOpt]) s₂ t₂ hst₂
    · rename_i b hb
      exact Lockstep.bind (lockstep_reading (Tree.all_child? hm b hb)).block
        (fun s hs => .pure hs) s₂ t₂ hst₂
  · exact Lockstep.bind (.modify fun s t hst => C.popScope hst) (fun _ _ => .pure hbody) s₃ t₃ hst₃

theorem readParameters_congr (S : Source) {s t : State} (h : t.resolveType = s.resolveType)
    (m : Tree) : readParameters S t m = readParameters S s m := by
  have hread : readParameter S t = readParameter S s := by
    funext p
    rw [readParameter, readParameter, h]
  rw [readParameters, readParameters, hread]

/-- **A method** is read in lockstep. -/
theorem lockstep_readMethod {type : String} (htype : C.owns type) (isConstructor : Bool) {m : Tree}
    (hm : m.all C.admits = true) (hreads : C.reads type m) :
    Lockstep C.alike (readMethod S type isConstructor m) fun _ => True := by
  intro s t hst
  have hparameters := readParameters_congr S (C.resolveType hst) m
  unfold EndAlike
  rw [run_readMethod, run_readMethod, hparameters]
  have henter := C.enterMethod hst hreads
  generalize readParameters S s m = ps at *
  have hlength : ps.length ≤ (signatureOf S type m ps).arity :=
    Nat.le_of_eq (List.length_map _).symm
  rcases endAlike_methodBody hlength hm henter rfl with
    ⟨body, s', t', hs, ht, hst', hbody⟩ | ⟨f, hs, ht⟩
  · have hmethod : methodOf S type isConstructor m ps t' body =
        methodOf S type isConstructor m ps s' body := by
      rw [methodOf, methodOf, C.resolveType hst']
    rw [hs, ht]
    refine .inl ⟨(), _, _, rfl, rfl, ?_, trivial⟩
    rw [hmethod]
    exact C.leaveMethod hst hst' htype hbody
  · rw [hs, ht]
    exact .inr ⟨f, rfl, rfl⟩

theorem place_readMethod {type : String} {isConstructor : Bool} {m : Tree} {s s' : State}
    (hrun : (readMethod S type isConstructor m).run s = .ok ((), s')) : s'.place = s.place := by
  rw [run_readMethod] at hrun
  obtain ⟨p, hbody, hleave⟩ := bind_eq_ok_iff.1 hrun
  cases hleave
  have hplace := leads_methodBody allows_place S _ m _ _ _ hbody
  exact hplace

/-! ### Fields -/

/-- The names of the fields that a member of a type declares. -/
def Source.fieldNames (S : Source) (m : Tree) : List String :=
  if m.type == "field_declaration" || m.type == "constant_declaration" then
    (m.childrenIn "declarator").filterMap fun d => (d.1.child? "name").map (S.text ·.1)
  else if m.type == "enum_constant" then ((m.child? "name").map (S.text ·.1)).toList
  else []

/-- The nodes with these names. -/
def Tree.fieldNodes (m : Tree) : List Tree :=
  if m.type == "field_declaration" || m.type == "constant_declaration" then
    (m.childrenIn "declarator").filterMap fun d => (d.1.child? "name").map (·.1)
  else if m.type == "enum_constant" then ((m.child? "name").map (·.1)).toList
  else []

theorem Source.fieldNames_eq (S : Source) (m : Tree) :
    S.fieldNames m = m.fieldNodes.map S.text := by
  unfold Source.fieldNames Tree.fieldNodes
  split
  · rw [List.map_filterMap]
    simp only [Option.map_map, Function.comp_def]
  · split
    · cases m.child? "name" <;> rfl
    · rfl

/-- States that are alike where the fields of a type are declared, and fields alone in the innermost
scope. -/
structure Coupling.OnlyFields (C : Coupling S) (type : String) (s t : State) : Prop where
  alike : C.alike s t
  method : s.method = none
  currentClass : s.currentClass = some type
  fields : ∀ b ∈ s.innermost.values, C.known b ∧ b.kind = .field

theorem State.innermost_addVariable (s : State) (b : Binding) :
    ∀ x ∈ (s.addVariable b).innermost.values, x = b ∨ x ∈ s.innermost.values := by
  unfold innermost addVariable
  split
  · rename_i hscopes
    intro x hx
    exact .inr hx
  · rename_i scope rest hscopes
    rw [hscopes]
    exact Table.forall_values_insert (fun x hx => .inr hx) _ (.inl rfl)

theorem lockstep_declareField {around : String} {node : Tree} (hnode : C.declares around node)
    (type : Option String) :
    Lockstep (C.OnlyFields around) (declare S (S.text node) .field type node (-1))
      fun b => C.known b ∧ b.kind = .field := by
  intro s t hst
  rcases endAlike_declare hst.alike (.field hst.method hst.currentClass hnode) type with
    ⟨b, s', t', hs, ht, ⟨hst', rfl⟩, hb⟩ | hfail
  · have houtline := s.outline_addVariable (newVariable S s (S.text node) .field type node (-1))
    refine .inl ⟨b, _, t', hs, ht, ⟨hst', ?_, ?_, fun x hx => ?_⟩, hb⟩
    · exact (congrArg State.method houtline).trans hst.method
    · exact (congrArg State.currentClass houtline).trans hst.currentClass
    · rcases s.innermost_addVariable _ x hx with rfl | hx
      · rw [run_declare] at hs
        cases hs
        exact hb
      · exact hst.fields x hx
  · exact .inr hfail

theorem lockstep_declareFields {around : String} {m : Tree} (hm : m.all C.admits = true)
    (hnodes : ∀ d ∈ m.childrenIn "declarator", ∀ n ∈ d.1.child? "name", C.declares around n.1) :
    Lockstep (C.OnlyFields around) (declareFields S m)
      fun fs => ∀ f ∈ fs, (C.known f.1 ∧ f.1.kind = .field) ∧ f.2.all C.admits = true := by
  unfold declareFields
  refine .get fun s t hst => ⟨by rw [C.resolveType hst.alike], ?_⟩
  refine .bind (Q := fun fs => ∀ f ∈ fs, ∀ x ∈ f, (C.known x.1 ∧ x.1.kind = .field) ∧
    x.2.all C.admits = true) (.mapM fun d hd => ?_) fun fs hfs => .pure fun f hf => ?_
  · refine .bind (.require (Q := fun n => n ∈ d.1.child? "name") fun n hn => hn) fun n hn => ?_
    refine .bind (lockstep_declareField (hnodes d hd n hn) _) fun b hb => .pure fun x hx => ?_
    obtain ⟨v, hv, rfl⟩ := Option.map_eq_some_iff.1 hx
    exact ⟨hb, Tree.all_child? (Tree.all_childrenIn hm d hd) v hv⟩
  · obtain ⟨x, hx, heq⟩ := List.mem_filterMap.1 hf
    exact hfs x hx f heq

theorem lockstep_declareMember {type : String} {m : Tree} (hm : m.all C.admits = true)
    (hnodes : ∀ n ∈ m.fieldNodes, C.declares type n) :
    Lockstep (C.OnlyFields type) (declareMember S type m)
      fun fs => ∀ f ∈ fs, (C.known f.1 ∧ f.1.kind = .field) ∧ f.2.all C.admits = true := by
  unfold declareMember
  unfold Tree.fieldNodes at hnodes
  split
  · rename_i hfield
    rw [if_pos hfield] at hnodes
    refine lockstep_declareFields hm fun d hd n hn => hnodes _ (List.mem_filterMap.2 ⟨d, hd, ?_⟩)
    exact Option.map_eq_some_iff.2 ⟨n, hn, rfl⟩
  · rename_i hfield
    rw [if_neg hfield] at hnodes
    split
    · rename_i hconstant
      rw [if_pos hconstant] at hnodes
      refine .bind (.require (Q := fun n => n ∈ m.child? "name") fun n hn => hn) fun n hn => ?_
      have hnode : C.declares type n.1 := by
        refine hnodes _ (Option.mem_toList.2 ?_)
        exact Option.map_eq_some_iff.2 ⟨n, hn, rfl⟩
      exact .bind (lockstep_declareField hnode _) fun _ _ => .pure nofun
    · exact .pure nofun

/-- **The fields of a type** are read in lockstep, if the innermost scope is still empty. -/
theorem endAlike_readFields {type : String} (htype : C.owns type) {members : List Tree}
    (hmembers : ∀ m ∈ members, m.all C.admits = true)
    (hnodes : ∀ m ∈ members, ∀ n ∈ m.fieldNodes, C.declares type n) {s t : State}
    (hst : C.alike s t) (hmethod : s.method = none) (hclass : s.currentClass = some type)
    (hempty : s.innermost.values = []) :
    EndAlike C.alike s t (readFields S type members) fun _ => True := by
  have hdeclare : Lockstep (C.OnlyFields type) (members.mapM (declareMember S type)) fun values =>
      ∀ fs ∈ values, ∀ f ∈ fs, (C.known f.1 ∧ f.1.kind = .field) ∧ f.2.all C.admits = true :=
    .mapM fun m hm => lockstep_declareMember (hmembers m hm) (hnodes m hm)
  have hstart : C.OnlyFields type s t :=
    ⟨hst, hmethod, hclass, by rw [hempty]; exact List.forall_mem_nil _⟩
  unfold readFields
  refine (hdeclare s t hstart).bind fun values s₁ t₁ hst₁ hvalues => ?_
  -- the initializers are read with all fields known
  have hadd : C.alike (s₁.addFields type) (t₁.addFields type) :=
    C.addFields hst₁.alike htype hst₁.fields
  refine EndAlike.bind (Q := fun _ => True) (.inl ⟨(), _, _, rfl, rfl, hadd, trivial⟩)
    fun _ s₂ t₂ hst₂ _ => ?_
  refine Lockstep.forM (fun x hx => ?_) s₂ t₂ hst₂
  obtain ⟨fs, hfs, hx⟩ := List.mem_flatten.1 hx
  obtain ⟨⟨hknown, hkind⟩, hall⟩ := hvalues fs hfs x hx
  refine .bind (lockstep_reading hall).expr fun e he => ?_
  exact .modify fun s t hst => C.bind hst hknown (by simp [hkind]) he

theorem place_readFields {type : String} {members : List Tree} {s s' : State}
    (hrun : (readFields S type members).run s = .ok ((), s')) : s'.place = s.place := by
  have hleads : Leads (fun s s' => State.place s' = s.place) (readFields S type members) := by
    unfold readFields
    refine .bind allows_place (leads_declareMembers allows_place S type members) fun values => ?_
    refine .bind allows_place (.modify fun s => rfl) fun _ => .forM allows_place fun x _ => ?_
    exact .bind allows_place (leads_reading allows_place S x.2).expr fun e => .modify fun s => rfl
  exact hleads s () s' hrun

/-! ### Types -/

/-- Reads a member of a type, other than its fields. -/
def readMember (S : Source) (type : String) (m : Tree) : Read Unit :=
  if m.type == "method_declaration" then readMethod S type false m
  else if constructorTypes.contains m.type then readMethod S type true m
  else if m.isTypeDeclaration then readType S m
  else pure ()

/-- Reads what stands in a type. -/
def readMembers (S : Source) (type : String) (t : Tree) : Read Unit := do
  readFields S type (t.members.map (·.1))
  t.members.forM fun m => readMember S type m.1

theorem run_readType (S : Source) (t : Tree) (s : State) {type : String}
    (htype : readName s.localTypes s.currentClass (S.nameOf t) = type) :
    (readType S t).run s =
      (readMembers S type t).run (s.enterType type) >>= fun p => .ok ((), p.2.leaveType s) := by
  subst htype
  have hrun : (readType S t).run s =
      (readMembers S (readName s.localTypes s.currentClass (S.nameOf t)) t >>= fun _ =>
        modify fun s' => s'.leaveType s : Read PUnit).run
          (s.enterType (readName s.localTypes s.currentClass (S.nameOf t))) := by
    rw [readType_eq, readMembers, bind_assoc]
    rfl
  rw [hrun, StateT.run_bind]
  rfl

theorem Tree.all_members {p : Tree → Bool} {t : Tree} (h : t.all p = true) :
    ∀ m ∈ t.members, m.1.all p = true := by
  intro m hm
  unfold members at hm
  split at hm
  · cases hm
  · rename_i body hbody
    obtain ⟨c, hc, hm⟩ := List.mem_flatMap.1 hm
    have hcontent := all_content (all_child? h body hbody) c hc
    split at hm
    · obtain ⟨d, hd, rfl⟩ := List.mem_map.1 hm
      exact all_content hcontent d hd
    · rw [List.mem_singleton.1 hm]
      exact hcontent

/-- The coupling allows for a type, and for the fields and methods that it declares. -/
structure Coupling.Hosts (C : Coupling S) (d : String × Tree) : Prop where
  owns : C.owns d.1
  declares : ∀ m ∈ d.2.members, ∀ n ∈ m.1.fieldNodes, C.declares d.1 n
  reads : ∀ m ∈ d.2.members, m.1.isMethod = true → C.reads d.1 m.1

/-- States around types that are so related that a type is entered and left alike. -/
structure Coupling.Surrounds (C : Coupling S) (R : State → State → Prop) : Prop where
  currentClass : ∀ {s t}, R s t → t.currentClass = s.currentClass
  typeName : ∀ {s t}, R s t → ∀ name,
    t.localTypes.getD name name = s.localTypes.getD name name
  enterType : ∀ {s t}, R s t → ∀ {type}, C.owns type →
    C.alike (s.enterType type) (t.enterType type)
  leaveType : ∀ {s t}, R s t → ∀ {s' t'}, C.alike s' t' → R (s'.leaveType s) (t'.leaveType t)

theorem Coupling.surrounds_alike (C : Coupling S) : C.Surrounds C.alike where
  currentClass := C.currentClass
  typeName := C.typeName
  enterType := C.enterType
  leaveType := C.leaveType

/-- Related states, at a place. -/
def RelatedAt (R : State → State → Prop) (place : Option String × Table String String × Nat)
    (s t : State) : Prop :=
  R s t ∧ s.place = place

theorem Coupling.Surrounds.readName_eq {R : State → State → Prop} (hR : C.Surrounds R) {s t : State}
    (hst : R s t) (name : String) :
    readName t.localTypes t.currentClass name = readName s.localTypes s.currentClass name := by
  rw [hR.currentClass hst]
  cases s.currentClass with
  | none => exact hR.typeName hst name
  | some c => simp only [readName, hR.typeName hst]

section

variable {localTypes : Table String String} {depth : Nat}

theorem lockstep_readMember {type : String} (htype : C.owns type) {m : Tree}
    (hm : m.all C.admits = true) (hreads : m.isMethod = true → C.reads type m)
    (hread : m.isTypeDeclaration = true →
      Lockstep (RelatedAt C.alike (some type, localTypes, depth)) (readType S m) fun _ => True) :
    Lockstep (RelatedAt C.alike (some type, localTypes, depth)) (readMember S type m)
      fun _ => True := by
  have hmethod (isConstructor : Bool) (hisMethod : m.isMethod = true) :
      Lockstep (RelatedAt C.alike (some type, localTypes, depth)) (readMethod S type isConstructor m)
        fun _ => True :=
    .keeping (lockstep_readMethod htype isConstructor hm (hreads hisMethod))
      fun s _ s' hs hrun => (place_readMethod hrun).trans hs
  unfold readMember
  split
  · rename_i hdeclared
    exact hmethod false (by rw [Tree.isMethod, hdeclared]; rfl)
  · split
    · rename_i hconstructor
      exact hmethod true (by rw [Tree.isMethod, hconstructor, Bool.or_true])
    · split
      · rename_i hdeclared
        exact hread hdeclared
      · exact .pure trivial

/-- **A type** is read in lockstep, with all types inside it. -/
theorem lockstep_readType {R : State → State → Prop} (hR : C.Surrounds R) {t : Tree}
    (htype : t.isTypeDeclaration = true) (ht : t.all C.admits = true) {around : Option String}
    (hhosts : ∀ d ∈ declared S (readName localTypes) around t,
      d.2.isTypeDeclaration = true → C.Hosts d) :
    Lockstep (RelatedAt R (around, localTypes, depth)) (readType S t) fun _ => True := by
  induction hsize : t.size using Nat.strongRecOn generalizing R t around depth with
  | ind n ih =>
    rintro s s' ⟨hst, hplace⟩
    simp only [State.place, Prod.mk.injEq] at hplace
    obtain ⟨hclass, hlocal, hdepth⟩ := hplace
    -- both runs find one name for the type
    obtain ⟨type, hname⟩ : ∃ type, readName localTypes around (S.nameOf t) = type := ⟨_, rfl⟩
    have hs : readName s.localTypes s.currentClass (S.nameOf t) = type := by rw [hlocal, hclass, hname]
    have hs' := (hR.readName_eq hst (S.nameOf t)).trans hs
    rw [declared_eq, hname] at hhosts
    have hown : C.Hosts (type, t) := hhosts _ List.mem_cons_self htype
    have hmembers := Tree.all_members ht
    have hfields : EndAlike (RelatedAt C.alike (some type, localTypes, depth + 1)) (s.enterType type)
        (s'.enterType type) (readFields S type (t.members.map (·.1))) fun _ => True := by
      have hread : EndAlike C.alike (s.enterType type) (s'.enterType type)
          (readFields S type (t.members.map (·.1))) fun _ => True :=
        endAlike_readFields hown.owns (List.forall_mem_map.2 hmembers)
          (List.forall_mem_map.2 hown.declares) (hR.enterType hst hown.owns) rfl rfl rfl
      rcases hread with ⟨a, s₁, t₁, hs₁, ht₁, hst₁, -⟩ | hfail
      · refine .inl ⟨a, s₁, t₁, hs₁, ht₁, ⟨hst₁, (place_readFields hs₁).trans ?_⟩, trivial⟩
        simp [State.place, State.enterType, State.pushScope, State.currentClass, hlocal, hdepth]
      · exact .inr hfail
    -- the types inside are read from states that are alike
    have hinner : EndAlike (RelatedAt C.alike (some type, localTypes, depth + 1)) (s.enterType type)
        (s'.enterType type) (readMembers S type t) fun _ => True := by
      refine hfields.bind fun _ s₁ t₁ hst₁ _ => Lockstep.forM (fun m hm => ?_) s₁ t₁ hst₁
      refine lockstep_readMember hown.owns (hmembers m hm) (hown.reads m hm) fun hdeclared => ?_
      refine ih m.1.size (hsize ▸ m.2) C.surrounds_alike hdeclared (hmembers m hm) (fun d hd => ?_) rfl
      refine hhosts d (List.mem_cons_of_mem _ (List.mem_flatMap.2 ⟨m, hm, ?_⟩))
      rwa [declaredIn, if_pos hdeclared]
    unfold EndAlike
    rw [run_readType S t s hs, run_readType S t s' hs']
    rcases hinner with ⟨_, s₁, t₁, hs₁, ht₁, ⟨hst₁, hplace⟩, -⟩ | ⟨f, hs₁, ht₁⟩
    · rw [hs₁, ht₁]
      refine .inl ⟨(), _, _, rfl, rfl, ⟨hR.leaveType hst hst₁, ?_⟩, trivial⟩
      simp only [State.place, Prod.mk.injEq] at hplace
      simp only [State.place, State.leaveType, State.popScope, State.currentClass, Prod.mk.injEq,
        List.length_tail]
      exact ⟨hclass, hplace.2.1, by omega⟩
    · rw [hs₁, ht₁]
      exact .inr ⟨f, rfl, rfl⟩

end

end TaintFlow.Java
