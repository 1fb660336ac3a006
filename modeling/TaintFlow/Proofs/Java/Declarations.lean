import TaintFlow.Java.Unit
import TaintFlow.Proofs.Java.Frame
import TaintFlow.Proofs.Table

/-!
# What reading declarations adds

Both passes over a unit walk through the same declarations in the same order (`declared`) and differ
in how they name the types.  The first pass is a fold over the declarations under the names of the
language (`run_collect`).  What the second one does with each declaration, it does with all of them,
under the names that it finds for them (`Describes.readType`).  In particular it adds a method for
each declaration of a method, and an entry of fields for each type (`Adds`).
-/

namespace TaintFlow.Java

open TaintFlow.Code Read

/-! ### Declarations -/

/-- Whether a node declares a method or a constructor. -/
def Tree.isMethod (t : Tree) : Bool :=
  t.type == "method_declaration" || constructorTypes.contains t.type

theorem Tree.not_isMethod_of_isTypeDeclaration {t : Tree} (h : t.isTypeDeclaration = true) :
    t.isMethod = false := by
  have hall : ∀ type ∈ typeDeclarations,
      (type == "method_declaration" || constructorTypes.contains type) = false := by decide
  exact hall t.type (List.contains_iff_mem.1 h)

/-- The simple name of a type or method. -/
def Source.nameOf (S : Source) (t : Tree) : String :=
  S.textOf (t.child? "name")

/-- A way to name a type, given the name of the type around it. -/
abbrev Naming := Option String → String → String

/-- The declarations of types and methods in a type, the type itself first, in the order of the
source.  A type comes with its name, and a method with the name of its type. -/
def declared (S : Source) (naming : Naming) (around : Option String) (t : Tree) :
    List (String × Tree) :=
  let type := naming around (S.nameOf t)
  (type, t) :: t.members.flatMap fun m =>
    if m.1.isTypeDeclaration then declared S naming (some type) m.1
    else if m.1.isMethod then [(type, m.1)]
    else []
termination_by t.size
decreasing_by exact m.2

/-- The declarations that a member of a type brings. -/
def declaredIn (S : Source) (naming : Naming) (type : String) (m : Tree) : List (String × Tree) :=
  if m.isTypeDeclaration then declared S naming (some type) m
  else if m.isMethod then [(type, m)]
  else []

theorem declared_eq (S : Source) (naming : Naming) (around : Option String) (t : Tree) :
    declared S naming around t = (naming around (S.nameOf t), t) ::
      t.members.flatMap fun m => declaredIn S naming (naming around (S.nameOf t)) m.1 := by
  rw [declared]
  rfl

theorem declaredIn_of_isMethod {S : Source} {naming : Naming} {type : String} {m : Tree}
    (hm : m.isMethod = true) : declaredIn S naming type m = [(type, m)] := by
  have htype : ¬m.isTypeDeclaration = true := by
    intro htype
    rw [Tree.not_isMethod_of_isTypeDeclaration htype] at hm
    cases hm
  rw [declaredIn, if_neg htype, if_pos hm]

/-- The types that a unit declares outside of others. -/
def Tree.types (root : Tree) : List Tree :=
  (root.content.map (·.1)).filter Tree.isTypeDeclaration

/-- The declarations of a unit. -/
def declarations (S : Source) (naming : Naming) (root : Tree) : List (String × Tree) :=
  root.types.flatMap (declared S naming none)

/-- The names of the language: the package and the types around a type stand before its name. -/
def javaName (package : String) : Naming
  | none, name => qualify package name
  | some around, name => qualify around name

/-- The names under which types are read: outside of others, what the table of the unit says. -/
def readName (localTypes : Table String String) : Naming
  | none, name => localTypes.getD name name
  | some around, name => if around == "" then localTypes.getD name name else around ++ "." ++ name

/-! ### First pass -/

/-- The key under which the header of a method is noted. -/
def headerKey (S : Source) (d : String × Tree) : HeaderKey :=
  (d.1, S.nameOf d.2,
    match d.2.child? "parameters" with
    | none => 0
    | some ps => (ps.1.content.filter fun p =>
        p.1.type == "formal_parameter" || p.1.type == "spread_parameter").length)

/-- The state after the first pass came by a declaration. -/
def noted (S : Source) (s : State) (d : String × Tree) : State :=
  if d.2.isTypeDeclaration then
    { s with
      superclasses :=
        match d.2.child? "superclass" with
        | none => s.superclasses
        | some c => s.superclasses.insert d.1 (S.textOf c.1.firstContent?)
      localTypes :=
        if s.localTypes.contains (S.nameOf d.2) then s.localTypes
        else s.localTypes.insert (S.nameOf d.2) d.1 }
  else if d.2.type == "method_declaration" then
    { s with headers := s.headers.insert (headerKey S d) (S.textOf (d.2.child? "type")) }
  else s

theorem noted_package (S : Source) (s : State) (d : String × Tree) :
    (noted S s d).package = s.package := by
  unfold noted
  split
  · rfl
  · split <;> rfl

theorem foldl_noted_package (S : Source) (ds : List (String × Tree)) (s : State) :
    (ds.foldl (noted S) s).package = s.package := by
  induction ds generalizing s with
  | nil => rfl
  | cons d ds ih => rw [List.foldl_cons, ih, noted_package]

theorem run_collectMethod {S : Source} {type : String} {m : Tree} {s s' : State}
    (hm : m.type = "method_declaration")
    (hrun : (collectMethod S type m).run s = .ok ((), s')) : s' = noted S s (type, m) := by
  obtain ⟨ps, s₁, hps, hrun⟩ := run_bind_eq_ok.1 hrun
  cases hchild : m.child? "parameters" with
  | none =>
    rw [hchild] at hps
    cases hps
  | some c =>
    rw [hchild] at hps
    cases hps
    cases hrun
    have htype : m.isTypeDeclaration = false := by
      rw [Tree.isTypeDeclaration, hm]
      decide
    simp only [noted, htype, hm, headerKey, hchild]
    rfl

/-- A package without a name is the only reason for a type to have no name. -/
theorem package_eq_empty {package : String} {around : Option String} {name : String}
    (haround : around = some "" → package = "") (h : javaName package around name = "") :
    package = "" := by
  have hqualify : ∀ {a : String}, qualify a name = "" → a = "" := by
    intro a ha
    unfold qualify at ha
    split at ha
    · rename_i hempty
      exact eq_of_beq hempty
    · have hlength := congrArg String.length ha
      simp at hlength
  cases around with
  | none => exact hqualify h
  | some a =>
    have ha : a = "" := hqualify h
    exact haround (congrArg some ha)

theorem run_collectType {S : Source} {around : Option String} {t : Tree} {s s' : State}
    {qualified : String} (ht : t.isTypeDeclaration = true)
    (haround : around = some "" → s.package = "")
    (hrun : (collectType S (around.getD "") t).run s = .ok (qualified, s')) :
    qualified = javaName s.package around (S.nameOf t) ∧ s' = noted S s (qualified, t) := by
  cases hrun
  constructor
  · cases around with
    | none => rfl
    | some a =>
      by_cases ha : a = ""
      · subst ha
        rw [haround rfl]
        rfl
      · simp only [Option.getD_some, beq_iff_eq, ha, if_false]
        rfl
  · simp only [noted, ht, if_true, Source.nameOf]
    cases t.child? "superclass" <;> rfl

/-- Steps that are folds, one after the other, are a fold. -/
theorem run_forM_foldl {β δ : Type} {f : β → Read PUnit} {g : β → List δ}
    {step : State → δ → State} {P : State → Prop} (hP : ∀ s d, P s → P (step s d)) {l : List β}
    (h : ∀ x ∈ l, ∀ s s', P s → (f x).run s = .ok ((), s') → s' = (g x).foldl step s)
    {s s' : State} (hs : P s) (hrun : (l.forM f).run s = .ok ((), s')) :
    s' = (l.flatMap g).foldl step s := by
  induction l generalizing s with
  | nil =>
    cases hrun
    rfl
  | cons x l ih =>
    obtain ⟨hx, hl⟩ := List.forall_mem_cons.1 h
    obtain ⟨_, s₁, hfirst, hrest⟩ := run_bind_eq_ok.1 hrun
    have hfold := hx s s₁ hs hfirst
    have hs₁ : P s₁ := by
      rw [hfold]
      exact List.foldlRecOn (g x) step hs fun s hs d _ => hP s d hs
    rw [List.flatMap_cons, List.foldl_append, ← hfold]
    exact ih hl hs₁ hrest

/-- **The first pass** is a fold over the declarations, under the names of the language. -/
theorem run_collect {S : Source} {around : Option String} {t : Tree} {s s' : State}
    (ht : t.isTypeDeclaration = true) (haround : around = some "" → s.package = "")
    (hrun : (collect S (around.getD "") t).run s = .ok ((), s')) :
    s' = (declared S (javaName s.package) around t).foldl (noted S) s := by
  induction hsize : t.size using Nat.strongRecOn generalizing around t s s' with
  | ind n ih =>
    rw [collect] at hrun
    obtain ⟨qualified, s₁, htype, hmembers⟩ := run_bind_eq_ok.1 hrun
    obtain ⟨rfl, rfl⟩ := run_collectType ht haround htype
    have hpackage : ∀ s' d, s'.package = s.package → (noted S s' d).package = s.package :=
      fun s' d hs' => (noted_package S s' d).trans hs'
    rw [declared_eq, List.foldl_cons]
    refine run_forM_foldl hpackage (fun m _ s₂ s₃ hs₂ hrun => ?_) (noted_package S s _) hmembers
    -- a member is a type, a method, or nothing that the first pass looks at
    by_cases hm : m.1.isTypeDeclaration = true
    · rw [if_pos hm] at hrun
      rw [declaredIn, if_pos hm]
      have hempty : some (javaName s.package around (S.nameOf t)) = some "" → s₂.package = "" :=
        fun hempty => hs₂.trans (package_eq_empty haround (Option.some.inj hempty))
      have hfold := ih m.1.size (hsize ▸ m.2) hm hempty hrun rfl
      rwa [hs₂] at hfold
    · rw [if_neg hm] at hrun
      by_cases hmethod : m.1.type = "method_declaration"
      · rw [if_pos (beq_iff_eq.2 hmethod)] at hrun
        rw [declaredIn_of_isMethod (by simp [Tree.isMethod, hmethod])]
        exact run_collectMethod hmethod hrun
      · rw [if_neg (by simpa using hmethod)] at hrun
        cases hrun
        rw [declaredIn, if_neg hm]
        split
        · simp [noted, hm, hmethod]
        · rfl

/-! ### Second pass -/

theorem tame_declareParameters {fails : Prop} (S : Source) (index : Nat) (ps : List Parameter) :
    Tame fails (declareParameters S index ps) := by
  induction ps generalizing index with
  | nil => exact .pure _
  | cons p ps ih =>
    unfold declareParameters
    split
    · exact ih _
    · exact .bind (.declare S _ _ _ _ _) fun _ => ih _

theorem tame_methodBody {fails : Prop} (S : Source) (ps : List Parameter) {m : Tree}
    (h : m.Safe fails) :
    Tame fails (Read.inScope do
      declareParameters S 0 ps
      match m.child? "body" with
      | none => return none
      | some b => return some (← (reading S b.1).asBlock)) := by
  refine .inScope (.bind (tame_declareParameters S 0 ps) fun _ => ?_)
  split
  · exact .pure _
  · rename_i b hb
    exact .bind (tame_reading S (h.child? hb)).block fun _ => .pure _

theorem leads_methodBody {R : State → State → Prop} (hR : State.Allows R) (S : Source)
    (ps : List Parameter) (m : Tree) :
    Leads R (Read.inScope do
      declareParameters S 0 ps
      match m.child? "body" with
      | none => return none
      | some b => return some (← (reading S b.1).asBlock)) :=
  have hsafe : m.Safe True := .inl trivial
  (tame_methodBody S ps hsafe).leads hR

/-- A method that was read from a declaration. -/
structure ReadFrom (S : Source) (d : String × Tree) (m : Method) : Prop where
  declaringType : m.signature.declaringType = d.1
  name : m.signature.name = S.nameOf d.2
  position : m.position = S.position (((d.2.child? "name").map (·.1)).getD d.2)

/-- **Reading a method** adds it to the methods, and its calls to those of its signature. -/
theorem outline_readMethod {S : Source} {type : String} {isConstructor : Bool} {m : Tree}
    {s s' : State} (hrun : (readMethod S type isConstructor m).run s = .ok ((), s')) :
    ∃ method calls, ReadFrom S (type, m) method ∧
      s'.outline = { s.outline with
        methods := s.methods ++ [method]
        methodCalls := s.methodCalls.update method.signature [] (· ++ calls) } := by
  unfold readMethod at hrun
  obtain ⟨outer, s₁, hget, hrun⟩ := run_bind_eq_ok.1 hrun
  cases hget
  obtain ⟨_, s₁, hset, hrun⟩ := run_bind_eq_ok.1 hrun
  cases hset
  obtain ⟨body, s₂, hbody, hrun⟩ := run_bind_eq_ok.1 hrun
  cases hrun
  -- the parameters and the body change nothing that is looked at here
  have houtline := leads_methodBody allows_outline S _ m _ _ _ hbody
  let method : Method :=
    { signature := ⟨type, S.nameOf m, (readParameters S s m).map (·.type.getD "")⟩
      position := S.position (((m.child? "name").map (·.1)).getD m)
      parameterNames := (readParameters S s m).filterMap fun p => p.name.map S.text
      returnType := if isConstructor then none else s₂.resolveType (S.textOf (m.child? "type"))
      body
      isConstructor }
  refine ⟨method, s₂.calls.getD [], ⟨rfl, rfl, rfl⟩, ?_⟩
  exact congrArg (fun o : State => { o with
    method := s.method
    methods := o.methods ++ [method]
    methodCalls := o.methodCalls.update method.signature [] (· ++ s₂.calls.getD []) }) houtline

/-- The fields of a member are declared, if declarators and constants have names. -/
theorem tame_declareMember {fails : Prop} (S : Source) (type : String) {m : Tree}
    (hdeclarators : fails ∨ m.HasParts)
    (hconstant : m.type = "enum_constant" → fails ∨ (m.child? "name").isSome = true) :
    Tame fails (declareMember S type m) := by
  unfold declareMember declareFields
  split
  · rename_i hfield
    have htype : m.type ∈ declaratorTypes := by
      rcases Bool.or_eq_true_iff.1 hfield with hfield | hfield
      · rw [beq_iff_eq.1 hfield]; decide
      · rw [beq_iff_eq.1 hfield]; decide
    refine .bind .get fun _ => .bind (.mapM fun d hd => ?_) fun _ => .pure _
    refine .bind (.require (hdeclarators.imp_right (·.declarators htype d hd))) fun _ => ?_
    exact .bind (.declare S _ _ _ _ _) fun _ => .pure _
  · split
    · rename_i htype
      refine .bind (.require (hconstant (beq_iff_eq.1 htype))) fun _ => ?_
      exact .bind (.declare S _ _ _ _ _) fun _ => .pure _
    · exact .pure _

theorem leads_declareMembers {R : State → State → Prop} (hR : State.Allows R) (S : Source)
    (type : String) (members : List Tree) : Leads R (members.mapM (declareMember S type)) :=
  have htame : Tame True (members.mapM (declareMember S type)) :=
    .mapM fun _ _ => tame_declareMember S type (.inl trivial) fun _ => .inl trivial
  htame.leads hR

/-- **Reading the fields of a type** adds an entry for it. -/
theorem outline_readFields {S : Source} {type : String} {members : List Tree} {s s' : State}
    (hrun : (readFields S type members).run s = .ok ((), s')) :
    ∃ scope, s'.outline = { s.outline with fields := s.fields.insert type scope } := by
  unfold readFields at hrun
  obtain ⟨values, s₁, hdeclare, hrun⟩ := run_bind_eq_ok.1 hrun
  obtain ⟨_, s₂, hmodify, hvalues⟩ := run_bind_eq_ok.1 hrun
  cases hmodify
  have hdeclared : s₁.outline = s.outline :=
    leads_declareMembers allows_outline S type members _ _ _ hdeclare
  have hread := Leads.forM allows_outline (fun x _ => .bind allows_outline
    (outline_reading S x.2).expr fun _ => .modify fun s => State.outline_bind s _ _) _ _ _ hvalues
  refine ⟨s₁.scopes.head?.getD {}, hread.trans ?_⟩
  exact congrArg (fun o : State => { o with
    fields := o.fields.insert type (s₁.scopes.head?.getD {}) }) hdeclared

/-- The names that a unit knows, and the place being read. -/
def State.heading (s : State) : State :=
  { s.outline with fields := {}, methods := [], methodCalls := {} }

theorem State.localTypes_heading (s : State) : s.heading.localTypes = s.localTypes := rfl

theorem State.currentClass_heading (s : State) : s.heading.currentClass = s.currentClass := rfl

/-- Between two states the declarations were read. -/
structure Adds (S : Source) (ds : List (String × Tree)) (s s' : State) : Prop where
  heading : s'.heading = s.heading
  /-- Each type has an entry of fields. -/
  fields : ∀ type, type ∈ s'.fields.keys ↔
    type ∈ s.fields.keys ∨ ∃ d ∈ ds, d.2.isTypeDeclaration = true ∧ d.1 = type
  /-- Each method was added, with its calls. -/
  methods : ∃ new : List (Method × List Expr),
    List.Forall₂ (fun d m => ReadFrom S d m.1) (ds.filter (·.2.isMethod)) new ∧
    s'.methods = s.methods ++ new.map (·.1) ∧
    s'.methodCalls = new.foldl (fun t m => t.update m.1.signature [] (· ++ m.2)) s.methodCalls

namespace Adds

variable {S : Source} {ds ds' : List (String × Tree)} {s s' s'' : State}

theorem nil (s : State) : Adds S [] s s where
  heading := rfl
  fields type := by simp
  methods := ⟨[], .nil, by simp, rfl⟩

theorem append (h : Adds S ds s s') (h' : Adds S ds' s' s'') : Adds S (ds ++ ds') s s'' where
  heading := h'.heading.trans h.heading
  fields type := by
    rw [h'.fields, h.fields]
    simp only [List.mem_append, or_and_right, exists_or, or_assoc]
  methods := by
    obtain ⟨new, hnew, hmethods, hcalls⟩ := h.methods
    obtain ⟨new', hnew', hmethods', hcalls'⟩ := h'.methods
    refine ⟨new ++ new', ?_, ?_, ?_⟩
    · rw [List.filter_append]
      exact List.rel_append hnew hnew'
    · rw [hmethods', hmethods, List.map_append, List.append_assoc]
    · rw [hcalls', hcalls, List.foldl_append]

end Adds

theorem adds_readMethod {S : Source} {type : String} {isConstructor : Bool} {m : Tree}
    (hm : m.isMethod = true) {s s' : State}
    (hrun : (readMethod S type isConstructor m).run s = .ok ((), s')) :
    Adds S [(type, m)] s s' := by
  obtain ⟨method, calls, hread, houtline⟩ := outline_readMethod hrun
  have htype : m.isTypeDeclaration = false := by
    by_contra h
    rw [Tree.not_isMethod_of_isTypeDeclaration (by simpa using h)] at hm
    cases hm
  constructor
  case heading =>
    exact congrArg (fun o : State => { o with fields := {}, methods := [], methodCalls := {} })
      houtline
  case fields =>
    intro type'
    have hfields : s'.outline.fields = s.outline.fields := by rw [houtline]
    change s'.fields = s.fields at hfields
    simp [hfields, htype]
  case methods =>
    have hmethods : s'.outline.methods = s.methods ++ [method] := by rw [houtline]
    have hcalls : s'.outline.methodCalls =
        s.methodCalls.update method.signature [] (· ++ calls) := by rw [houtline]
    refine ⟨[(method, calls)], ?_, hmethods, hcalls⟩
    simpa [hm] using hread

/-- Reading a type, with the name that the second pass gives it. -/
theorem readType_eq (S : Source) (t : Tree) : readType S t = (do
    let outer ← get
    let type := readName outer.localTypes outer.currentClass (S.nameOf t)
    set { outer.pushScope with classes := type :: outer.classes, method := none, calls := none }
    readFields S type (t.members.map (·.1))
    t.members.forM fun m =>
      if m.1.type == "method_declaration" then readMethod S type false m.1
      else if constructorTypes.contains m.1.type then readMethod S type true m.1
      else if m.1.isTypeDeclaration then readType S m.1
      else pure ()
    modify fun s =>
      { s.popScope with classes := outer.classes, method := outer.method, calls := outer.calls }) := by
  rw [readType]
  congr 1
  funext outer
  cases outer.currentClass <;> rfl

theorem adds_readFields {S : Source} {type : String} {t : Tree} (ht : t.isTypeDeclaration = true)
    {members : List Tree} {s s' : State}
    (hrun : (readFields S type members).run s = .ok ((), s')) : Adds S [(type, t)] s s' := by
  obtain ⟨scope, houtline⟩ := outline_readFields hrun
  constructor
  case heading =>
    exact congrArg (fun o : State => { o with fields := {}, methods := [], methodCalls := {} })
      houtline
  case fields =>
    intro type'
    have hfields : s'.outline.fields = s.fields.insert type scope := by rw [houtline]
    change s'.fields = _ at hfields
    rw [hfields, Table.mem_keys_insert]
    constructor
    · rintro (h | rfl)
      · exact .inl h
      · exact .inr ⟨_, List.mem_singleton_self _, ht, rfl⟩
    · rintro (h | ⟨d, hd, -, rfl⟩)
      · exact .inl h
      · exact .inr (congrArg Prod.fst (List.mem_singleton.1 hd))
  case methods =>
    have hmethods : s'.outline.methods = s.methods := by rw [houtline]; rfl
    have hcalls : s'.outline.methodCalls = s.methodCalls := by rw [houtline]; rfl
    refine ⟨[], ?_, hmethods.trans (by simp), hcalls⟩
    simp [Tree.not_isMethod_of_isTypeDeclaration ht]

/-- A relation between declarations and the states before and after they are read.  It holds of each
part of a type, and of parts that are read one after the other. -/
structure Describes (S : Source) (P : List (String × Tree) → State → State → Prop) : Prop where
  nil : ∀ s, P [] s s
  append : ∀ {ds ds' s s' s''}, P ds s s' → P ds' s' s'' → P (ds ++ ds') s s''
  fields : ∀ {type t members s s'}, t.isTypeDeclaration = true →
    (readFields S type members).run s = .ok ((), s') → P [(type, t)] s s'
  method : ∀ {type m s s'}, m.isMethod = true →
    (readMethod S type (m.type != "method_declaration") m).run s = .ok ((), s') →
    P [(type, m)] s s'
  inside : ∀ {ds type s s'},
    P ds { s.pushScope with classes := type :: s.classes, method := none, calls := none } s' →
    P ds s { s'.popScope with classes := s.classes, method := s.method, calls := s.calls }

namespace Describes

variable {S : Source} {P : List (String × Tree) → State → State → Prop} (hP : Describes S P)

include hP

/-- The parts are read one after the other, in states with one heading. -/
theorem forM {β : Type} {f : β → Read PUnit} {g : β → List (String × Tree)} {l : List β}
    {heading : State}
    (h : ∀ x ∈ l, ∀ s s', s.heading = heading → (f x).run s = .ok ((), s') →
      P (g x) s s' ∧ s'.heading = heading)
    {s s' : State} (hs : s.heading = heading) (hrun : (l.forM f).run s = .ok ((), s')) :
    P (l.flatMap g) s s' ∧ s'.heading = heading := by
  induction l generalizing s with
  | nil =>
    cases hrun
    exact ⟨hP.nil _, hs⟩
  | cons x l ih =>
    obtain ⟨hx, hl⟩ := List.forall_mem_cons.1 h
    obtain ⟨_, s₁, hfirst, hrest⟩ := run_bind_eq_ok.1 hrun
    obtain ⟨hpart, hs₁⟩ := hx s s₁ hs hfirst
    obtain ⟨hparts, hs'⟩ := ih hl hs₁ hrest
    exact ⟨hP.append hpart hparts, hs'⟩

theorem readMethod {naming : Naming} {type : String} {m : Tree} (hm : m.isMethod = true)
    {s s' : State}
    (hrun : (readMethod S type (m.type != "method_declaration") m).run s = .ok ((), s')) :
    P (declaredIn S naming type m) s s' ∧ s'.heading = s.heading := by
  obtain ⟨_, _, -, houtline⟩ := outline_readMethod hrun
  rw [declaredIn_of_isMethod hm]
  exact ⟨hP.method hm hrun, congrArg (fun o : State =>
    { o with fields := {}, methods := [], methodCalls := {} }) houtline⟩

/-- **Reading a type** reads what it declares, under the names that the table of the unit gives. -/
theorem readType {t : Tree} (ht : t.isTypeDeclaration = true) {s s' : State}
    (hrun : (readType S t).run s = .ok ((), s')) :
    P (declared S (readName s.localTypes) s.currentClass t) s s' ∧ s'.heading = s.heading := by
  induction hsize : t.size using Nat.strongRecOn generalizing t s s' with
  | ind n ih =>
    rw [readType_eq] at hrun
    obtain ⟨outer, s₁, hget, hrun⟩ := run_bind_eq_ok.1 hrun
    cases hget
    obtain ⟨_, s₁, hset, hrun⟩ := run_bind_eq_ok.1 hrun
    cases hset
    obtain ⟨_, s₂, hfields, hrun⟩ := run_bind_eq_ok.1 hrun
    obtain ⟨_, s₃, hmembers, hmodify⟩ := run_bind_eq_ok.1 hrun
    cases hmodify
    rw [declared_eq]
    generalize readName s.localTypes s.currentClass (S.nameOf t) = type at *
    obtain ⟨scope, houtline⟩ := outline_readFields hfields
    have hheading : s₂.heading = { s.heading with classes := type :: s.classes, method := none } :=
      congrArg (fun o : State => { o with fields := {}, methods := [], methodCalls := {} }) houtline
    obtain ⟨hrest, hheading'⟩ : P (t.members.flatMap fun m =>
        declaredIn S (readName s.localTypes) type m.1) s₂ s₃ ∧ s₃.heading = s₂.heading := by
      refine hP.forM (fun m _ s₄ s₅ hs₄ hm => ?_) rfl hmembers
      have hs₄' := hs₄.trans hheading
      have hlocal : s₄.localTypes = s.localTypes := by
        rw [← State.localTypes_heading, hs₄']
        rfl
      have hclass : s₄.currentClass = some type := by
        rw [← State.currentClass_heading, hs₄']
        rfl
      rw [← hs₄]
      -- a member is a method, a type, or nothing that the second pass looks at any more
      split at hm
      · rename_i hmethod
        refine hP.readMethod (by rw [Tree.isMethod, hmethod, Bool.true_or]) ?_
        rwa [bne, hmethod]
      · rename_i hmethod
        have hmethod' := Bool.eq_false_iff.2 hmethod
        split at hm
        · rename_i hconstructor
          refine hP.readMethod (by rw [Tree.isMethod, hconstructor, Bool.or_true]) ?_
          rwa [bne, hmethod']
        · split at hm
          · rename_i htype
            have hinner := ih m.1.size (hsize ▸ m.2) htype hm rfl
            rw [declaredIn, if_pos htype]
            rwa [hlocal, hclass] at hinner
          · rename_i hconstructor htype
            cases hm
            rw [declaredIn, if_neg htype, if_neg]
            · exact ⟨hP.nil _, rfl⟩
            · simp only [Tree.isMethod, Bool.or_eq_true, not_or]
              exact ⟨hmethod, hconstructor⟩
    refine ⟨hP.inside (hP.append (hP.fields ht hfields) hrest), ?_⟩
    exact congrArg (fun o : State => { o with classes := s.classes, method := s.method })
      (hheading'.trans hheading)

end Describes

theorem describes_adds (S : Source) : Describes S (Adds S) where
  nil := .nil
  append := .append
  fields ht hrun := adds_readFields ht hrun
  method hm hrun := adds_readMethod hm hrun
  inside {_ _ s _} h := by
    refine ⟨?_, h.fields, h.methods⟩
    exact congrArg (fun o : State => { o with classes := s.classes, method := s.method }) h.heading

/-! ### Units -/

/-- What is known of a unit after its package and imports. -/
def headed (S : Source) (root : Tree) : State :=
  (root.content.map (·.1)).foldl (readHeader S) {}

/-- The declarations of a unit under the names of the language. -/
def javaDeclarations (S : Source) (root : Tree) : List (String × Tree) :=
  declarations S (javaName (headed S root).package) root

/-- What is known of a unit after the first pass. -/
def collected (S : Source) (root : Tree) : State :=
  (javaDeclarations S root).foldl (noted S) (headed S root)

/-- The declarations of a unit under the names that the second pass finds for them. -/
def readDeclarations (S : Source) (root : Tree) : List (String × Tree) :=
  declarations S (readName (collected S root).localTypes) root

/-- What the second pass adds to, and the place being read. -/
def State.body (s : State) : State :=
  { s with package := "", imports := {}, localTypes := {}, superclasses := {}, headers := {} }

theorem body_noted (S : Source) (s : State) (d : String × Tree) : (noted S s d).body = s.body := by
  unfold noted
  split
  · rfl
  · split <;> rfl

theorem body_readHeader (S : Source) (s : State) (t : Tree) :
    (readHeader S s t).body = s.body := by
  unfold readHeader readImport
  split
  · rfl
  · split
    · split
      · rfl
      · split <;> rfl
    · rfl

/-- Nothing was read before the second pass. -/
theorem body_collected (S : Source) (root : Tree) : (collected S root).body = {} := by
  have hheaded : (headed S root).body = {} :=
    List.foldlRecOn (motive := fun s => s.body = {}) _ _ rfl
      fun s hs t _ => (body_readHeader S s t).trans hs
  exact List.foldlRecOn (motive := fun s => s.body = {}) _ _ hheaded
    fun s hs d _ => (body_noted S s d).trans hs

/-- Nothing was read yet. -/
structure State.Fresh (s : State) : Prop where
  classes : s.classes = []
  scopes : s.scopes = []
  method : s.method = none
  calls : s.calls = none
  fields : s.fields = {}
  initialized : s.initialized = []
  methods : s.methods = []
  methodCalls : s.methodCalls = {}
  bindings : s.bindings = {}

theorem fresh_collected (S : Source) (root : Tree) : (collected S root).Fresh := by
  have hbody := body_collected S root
  exact ⟨congrArg State.classes hbody, congrArg State.scopes hbody, congrArg State.method hbody,
    congrArg State.calls hbody, congrArg State.fields hbody, congrArg State.initialized hbody,
    congrArg State.methods hbody, congrArg State.methodCalls hbody, congrArg State.bindings hbody⟩

/-- The types around the place being read, and the fields, methods and calls that were read. -/
def State.contents (s : State) :
    List String × Table String Scope × List Method × Table Signature (List Expr) :=
  (s.classes, s.fields, s.methods, s.methodCalls)

theorem contents_collected (S : Source) (root : Tree) :
    (collected S root).contents = ([], {}, [], {}) :=
  congrArg State.contents (body_collected S root)

theorem run_collects {S : Source} {root : Tree} {s : State}
    (hrun : (root.types.forM (collect S "")).run (headed S root) = .ok ((), s)) :
    s = collected S root := by
  refine run_forM_foldl (P := fun s => s.package = (headed S root).package)
    (fun s d hs => (noted_package S s d).trans hs) (fun t ht s s' hs hrun => ?_) rfl hrun
  rw [← hs]
  have hnone : (none : Option String) = some "" → s.package = "" := nofun
  exact run_collect (List.mem_filter.1 ht).2 hnone hrun

/-- **Reading a unit** collects its declarations under the names of the language, and then reads its
types. -/
theorem run_readUnit_iff {S : Source} {root : Tree} {s' : State} :
    (readUnit S root).run {} = .ok ((), s') ↔
      (∃ s, (root.types.forM (collect S "")).run (headed S root) = .ok ((), s)) ∧
        (root.types.forM (readType S)).run (collected S root) = .ok ((), s') := by
  have hunit : (readUnit S root).run {} =
      (root.types.forM (collect S "")).run (headed S root) >>= fun p =>
        (root.types.forM (readType S)).run p.2 := rfl
  rw [hunit]
  cases hfirst : (root.types.forM (collect S "")).run (headed S root) with
  | error f =>
    constructor
    · intro h
      cases h
    · rintro ⟨⟨s, h⟩, -⟩
      cases h
  | ok p =>
    have hcollected : p.2 = collected S root := run_collects hfirst
    constructor
    · intro h
      exact ⟨⟨p.2, rfl⟩, hcollected ▸ h⟩
    · rintro ⟨-, h⟩
      rw [← hcollected] at h
      exact h

theorem run_readUnit {S : Source} {root : Tree} {s' : State}
    (hrun : (readUnit S root).run {} = .ok ((), s')) :
    (root.types.forM (readType S)).run (collected S root) = .ok ((), s') :=
  (run_readUnit_iff.1 hrun).2

/-- Types outside of others are read one after the other, each under the name that the table gives. -/
theorem describes_types {S : Source} {P : List (String × Tree) → State → State → Prop}
    (hP : Describes S P) {root : Tree} {ts : List Tree} (hts : ∀ t ∈ ts, t.isTypeDeclaration = true)
    {s' : State} (hrun : (ts.forM (readType S)).run (collected S root) = .ok ((), s')) :
    P (ts.flatMap (declared S (readName (collected S root).localTypes) none)) (collected S root) s' := by
  refine (hP.forM (fun t ht s s' hs hrun => ?_) rfl hrun).1
  have hread := hP.readType (hts t ht) hrun
  have hlocal : s.localTypes = (collected S root).localTypes := by
    rw [← State.localTypes_heading, hs, State.localTypes_heading]
  have hclass : s.currentClass = none := by
    rw [← State.currentClass_heading, hs, State.currentClass_heading, State.currentClass,
      (fresh_collected S root).classes]
    rfl
  rwa [hlocal, hclass, hs] at hread

theorem Describes.readUnit {S : Source} {P : List (String × Tree) → State → State → Prop}
    (hP : Describes S P) {root : Tree} {s' : State}
    (hrun : (readUnit S root).run {} = .ok ((), s')) :
    P (readDeclarations S root) (collected S root) s' :=
  describes_types hP (fun _ ht => (List.mem_filter.1 ht).2) (run_readUnit hrun)

/-- The second pass reads the declarations under the names that it finds for them. -/
theorem adds_readUnit {S : Source} {root : Tree} {s' : State}
    (hrun : (readUnit S root).run {} = .ok ((), s')) :
    Adds S (readDeclarations S root) (collected S root) s' :=
  (describes_adds S).readUnit hrun

/-- The parse tree of a text. -/
def treeOf (text : String) : Tree :=
  (treeOfText? text).getD default

end TaintFlow.Java
