import TaintFlow.Proofs.Java.Lockstep

/-!
# Bodies in lockstep

Expressions and statements are read in lockstep, whatever the coupling, and what they are read as is
sound (`lockstep_reading`).  There is one lemma for each form of node, and an induction on the size
of the tree.
-/

namespace TaintFlow.Java

open TaintFlow.Code TaintFlow.Types Read

variable {S : Source} {C : Coupling S}

/-- All readings of a node run in lockstep and give what is sound. -/
structure Reading.Coupled (C : Coupling S) (r : Reading) : Prop where
  expr : Lockstep C.alike r.asExpr C.Sound
  stmt : Lockstep C.alike r.asStmt fun s => ∀ e ∈ Stmt.exprsOpt s, C.Sound e
  block : Lockstep C.alike r.asBlock fun s => ∀ e ∈ s.exprs, C.Sound e

/-- So do the readings of all smaller nodes that look for no other fields than they may. -/
def Readings.Coupled (C : Coupling S) {t : Tree} (read : Readings t) : Prop :=
  ∀ c : Subtree t, c.1.all C.admits = true → (read c).Coupled C

/-! ### Common steps -/

theorem lockstep_inScope {α : Type} {step : Read α} {Q : α → Prop} (h : Lockstep C.alike step Q) :
    Lockstep C.alike (Read.inScope step) Q := by
  unfold Read.inScope
  refine .bind (.modify fun s t hst => C.pushScope hst) fun _ _ => ?_
  refine .bind h fun a ha => ?_
  exact .bind (.modify fun s t hst => C.popScope hst) fun _ _ => .pure ha

theorem run_declare (S : Source) (name : String) (kind : VariableKind) (type : Option String)
    (node : Tree) (index : Int) (s : State) :
    (declare S name kind type node index).run s =
      .ok (newVariable S s name kind type node index,
        s.addVariable (newVariable S s name kind type node index)) :=
  rfl

theorem newVariable_eq {s t : State} (hst : C.alike s t) (name : String) (kind : VariableKind)
    (type : Option String) (node : Tree) (index : Int) :
    newVariable S t name kind type node index = newVariable S s name kind type node index := by
  rw [newVariable, newVariable, C.method hst, C.currentClass hst]

/-- A variable that may be declared is declared alike. -/
theorem endAlike_declare {s t : State} (hst : C.alike s t) {node : Tree} {kind : VariableKind}
    {index : Int} (h : MayDeclare C.declares s node kind index) (type : Option String) :
    EndAlike (fun s' t' => C.alike s' t' ∧
        s' = s.addVariable (newVariable S s (S.text node) kind type node index))
      s t (declare S (S.text node) kind type node index) fun b => C.known b ∧ b.kind = kind := by
  have hb : C.known (newVariable S s (S.text node) kind type node index) := C.knows hst h type
  refine .inl ⟨_, _, _, run_declare S _ kind type node index s, ?_, ⟨C.addVariable hst hb, rfl⟩, hb,
    rfl⟩
  rw [run_declare, newVariable_eq hst]

theorem lockstep_declare (type : Option String) (node : Tree) :
    Lockstep C.alike (declare S (S.text node) .localVar type node (-1))
      fun b => C.known b ∧ b.kind = .localVar := by
  intro s t hst
  rcases endAlike_declare hst .localVar type with ⟨b, s', t', hs, ht, hst', hb⟩ | hfail
  · exact .inl ⟨b, s', t', hs, ht, hst'.1, hb⟩
  · exact .inr hfail

theorem lockstep_bind {b : Binding} (hb : C.known b) (hkind : b.kind ≠ .parameter)
    {value : Option Expr} (hvalue : ∀ e ∈ value, C.Sound e) :
    Lockstep C.alike (modifyThe State (·.bind b value) : Read PUnit) fun _ => True := by
  refine .modify fun s t hst => ?_
  cases value with
  | none => exact hst
  | some e => exact C.bind hst hb hkind (hvalue e rfl)

namespace Readings

variable {t : Tree} {read : Readings t} (h : read.Coupled C)

include h

theorem lockstep_expr? {c : Option (Subtree t)} (hc : ∀ x ∈ c, x.1.all C.admits = true) :
    Lockstep C.alike (read.expr? c) fun e => ∀ x ∈ e, C.Sound x := by
  cases c with
  | none => exact .pure nofun
  | some c =>
    refine .bind (h c (hc c rfl)).expr fun e he => ?_
    exact .pure fun x hx => Option.mem_some.1 hx ▸ he

theorem lockstep_stmt? {c : Option (Subtree t)} (hc : ∀ x ∈ c, x.1.all C.admits = true) :
    Lockstep C.alike (read.stmt? c) fun s => ∀ e ∈ Stmt.exprsOpt s, C.Sound e := by
  cases c with
  | none => exact .pure nofun
  | some c => exact (h c (hc c rfl)).stmt

theorem lockstep_block? {c : Option (Subtree t)} (hc : ∀ x ∈ c, x.1.all C.admits = true) :
    Lockstep C.alike (read.block? c) fun s => ∀ e ∈ Stmt.exprsOpt s, C.Sound e := by
  cases c with
  | none => exact .pure nofun
  | some c => exact .bind (h c (hc c rfl)).block fun s hs => .pure hs

theorem lockstep_exprs {cs : List (Subtree t)} (hcs : ∀ c ∈ cs, c.1.all C.admits = true) :
    Lockstep C.alike (read.exprs cs) fun es => ∀ e ∈ es, C.Sound e :=
  .mapM fun c hc => (h c (hcs c hc)).expr

theorem lockstep_contentOf {c : Option (Subtree t)} (hc : ∀ x ∈ c, x.1.all C.admits = true) :
    Lockstep C.alike (read.contentOf c) fun es => ∀ e ∈ es, C.Sound e := by
  cases c with
  | none => exact .pure nofun
  | some c => exact lockstep_exprs h (Tree.all_content_map (hc c rfl))

theorem coupled_under (c : Subtree t) : (read.under c).Coupled C :=
  fun d hd => h (c.trans d) hd

end Readings

/-! ### Expressions -/

section

variable {t : Tree} {read : Readings t} (h : read.Coupled C) (ht : t.all C.admits = true)

/-- What a field access is read as, given the object and its type. -/
def accessTo (S : Source) (t : Tree) (s : State) (qualifier : Option Expr)
    (owner : Option String) : Expr :=
  let name := S.textOf (t.child? "field")
  let place :=
    match t.child? "field" with
    | some m => S.position m.1
    | none => S.position t
  .qualified (S.origin t) qualifier (some ⟨⟨name, place⟩, name, s.member? owner name⟩)

theorem readFieldAccess_eq (S : Source) (t : Tree) (read : Readings t) :
    readFieldAccess S t read = (do
      let (qualifier, owner) ← readFieldAccess.ownerOf S t read (t.child? "object")
      let s ← get
      return accessTo S t s qualifier owner) :=
  rfl

/-- A field that may be looked for is found by both runs or by none. -/
theorem accessTo_eq {s s' : State} (hst : C.alike s s') {owner : Option String}
    (howner : C.reaches (S.textOf (t.child? "field")) = true ∨ owner = s.currentClass)
    {qualifier : Option Expr} (hqualifier : ∀ e ∈ qualifier, C.Sound e) :
    accessTo S t s' qualifier owner = accessTo S t s qualifier owner ∧
      C.Sound (accessTo S t s qualifier owner) := by
  constructor
  · simp only [accessTo, C.member hst howner]
  · obtain ⟨hname, haccess⟩ := C.access hst howner _ (S.origin t) qualifier
    refine Coupling.sound_of_components haccess (Coupling.sound_append ?_ ?_)
    · exact Coupling.sound_toList hqualifier
    · intro x hx
      rw [List.mem_singleton.1 hx]
      exact Coupling.sound_of_components hname nofun

include h ht

theorem lockstep_readFieldAccess (hform : ExprForm.ofType t.type = .fieldAccess) :
    Lockstep C.alike (readFieldAccess S t read) C.Sound := by
  rw [readFieldAccess_eq]
  -- without an object, and on the object itself, the field is looked for in the type being read
  have hown : ∀ (q : Option Expr), (∀ e ∈ q, C.Sound e) →
      Lockstep C.alike (do
        let (qualifier, owner) ← (do return (q, (← get).currentClass) : Read _)
        let s ← get
        return accessTo S t s qualifier owner) C.Sound := by
    intro q hq s s' hst
    obtain ⟨heq, hsound⟩ := accessTo_eq (t := t) hst (.inr rfl) hq
    refine .inl ⟨accessTo S t s q s.currentClass, s, s', rfl, ?_, hst, hsound⟩
    rw [← heq, ← C.currentClass hst]
    rfl
  have hadmits := (Tree.all_eq_true.1 ht).1
  rw [Coupling.admits, Source.reachedField?, hform] at hadmits
  cases hobject : t.child? "object" with
  | none => exact hown none nofun
  | some o =>
    by_cases hself : (o.1.type == "this" || o.1.type == "super") = true
    · simp only [readFieldAccess.ownerOf, if_pos hself]
      refine hown _ fun e he => ?_
      rw [← Option.mem_some.1 he]
      exact Coupling.sound_of_isPlain rfl nofun
    · simp only [readFieldAccess.ownerOf, if_neg hself]
      simp only [hobject, if_neg hself, Option.all_some] at hadmits
      refine .bind (Q := fun p => ∀ e ∈ p.1, C.Sound e) ?_ fun p hp => ?_
      · refine .bind (h o (Tree.all_child? ht o hobject)).expr fun e he => ?_
        refine .get fun s s' hst => ⟨?_, .pure fun x hx => Option.mem_some.1 hx ▸ he⟩
        unfold receiverType
        rw [C.resolveType hst]
      · refine .get fun s s' hst => ?_
        obtain ⟨heq, hsound⟩ := accessTo_eq (t := t) hst (.inl hadmits) hp
        exact ⟨congrArg Pure.pure heq, .pure hsound⟩

theorem lockstep_receiverOf :
    Lockstep C.alike (readInvocation.receiverOf S t read (t.child? "object"))
      fun p => (∀ e ∈ p.1, C.Sound e) ∧ Receives S p.1 p.2 := by
  unfold readInvocation.receiverOf
  refine .get fun s s' hst => ⟨?_, ?_⟩
  · simp only [C.currentClass hst, C.resolveType hst, C.superclass hst]
  · split
    · exact .pure ⟨nofun, nofun⟩
    · rename_i o hobject
      split
      · exact .pure ⟨nofun, nofun⟩
      · split
        · exact .pure ⟨nofun, nofun⟩
        · refine .bind (h o (Tree.all_child? ht o hobject)).expr fun e he => ?_
          refine .get fun s s' hst => ⟨?_, .pure ⟨fun x hx => Option.mem_some.1 hx ▸ he, ?_⟩⟩
          · unfold receiverType
            rw [C.resolveType hst]
          · intro x hx
            exact ⟨s, o.1, Option.mem_some.1 hx ▸ rfl⟩

theorem lockstep_readInvocation : Lockstep C.alike (readInvocation S t read) C.Sound := by
  unfold readInvocation
  refine .bind (lockstep_receiverOf h ht) fun ⟨receiver, type⟩ ⟨hreceiver, htype⟩ => ?_
  refine .bind (Readings.lockstep_contentOf h (Tree.all_child? ht)) fun args hargs => ?_
  refine .get fun s s' hst => ⟨?_, ?_⟩
  · simp only [C.header hst, C.resolveType hst]
  · have hcall : C.Sound (.call (S.origin t) (S.textOf (t.child? "name")) receiver args type
        (s.returnType? type (S.textOf (t.child? "name")) args.length)) := by
      refine Coupling.sound_of_components (C.call hst htype _ _ _) ?_
      exact Coupling.sound_append (Coupling.sound_toList hreceiver) hargs
    exact .bind (.modify fun s s' hst => C.addCall hst rfl hcall) fun _ _ => .pure hcall

theorem lockstep_readCreation : Lockstep C.alike (readCreation S t read) C.Sound := by
  have hrest : Lockstep C.alike (do
      let s ← get
      let type := (s.resolveType (S.textOf (t.child? "type"))).getD ""
      let arguments ← read.contentOf (t.child? "arguments")
      let call := Expr.creation (S.origin t) type arguments
      modify (·.addCall call)
      return call) C.Sound := by
    refine .get fun s s' hst => ⟨by rw [C.resolveType hst], ?_⟩
    refine .bind (Readings.lockstep_contentOf h (Tree.all_child? ht)) fun args hargs => ?_
    have hcall : C.Sound (.creation (S.origin t)
        ((s.resolveType (S.textOf (t.child? "type"))).getD "") args) :=
      Coupling.sound_of_isPlain rfl hargs
    exact .bind (.modify fun s s' hst => C.addCall hst rfl hcall) fun _ _ => .pure hcall
  unfold readCreation
  split
  · rename_i outer houter
    split
    · exact .bind (h outer (Tree.all_firstContent? ht outer houter)).expr fun _ _ => hrest
    · exact hrest
  · exact hrest

theorem lockstep_readArrayCreation : Lockstep C.alike (readArrayCreation S t read) C.Sound := by
  unfold readArrayCreation
  refine .get fun s s' hst => ⟨by rw [C.resolveType hst], ?_⟩
  simp only
  split
  · rename_i v hv
    refine .bind (Readings.lockstep_contentOf h fun x hx => ?_) fun es hes => .pure ?_
    · exact Tree.all_child? ht x (hv.trans hx)
    · exact Coupling.sound_of_isPlain rfl hes
  · refine .bind (Readings.lockstep_exprs h (Tree.all_childrenIn ht)) fun _ _ => .pure ?_
    exact Coupling.sound_of_isPlain rfl nofun

theorem lockstep_readLambda : Lockstep C.alike (readLambda S t read) C.Sound := by
  unfold readLambda
  refine .bind (Q := fun _ => True) (lockstep_inScope ?_) fun _ _ => ?_
  · refine .bind (Q := fun _ => True) (.forM fun n _ => ?_) fun _ _ => ?_
    · exact .bind (lockstep_declare _ _) fun _ _ => .pure trivial
    · split
      · exact .pure trivial
      · rename_i body hbody
        have hread := h body (Tree.all_child? ht body hbody)
        split
        · exact .bind hread.block fun _ _ => .pure trivial
        · exact .bind hread.expr fun _ _ => .pure trivial
  · exact .pure (Coupling.sound_of_isPlain rfl nofun)

/-- **An expression** is read in lockstep. -/
theorem lockstep_readExpr : Lockstep C.alike (readExpr S t read) C.Sound := by
  have hchild {field : String} :=
    Readings.lockstep_expr? h (c := t.child? field) (Tree.all_child? ht)
  have hfirst := Readings.lockstep_expr? h (Tree.all_firstContent? ht)
  unfold readExpr
  simp only
  -- the forms in their order; only names, accesses and calls depend on what is known
  split
  · exact .pure (Coupling.sound_of_isPlain rfl nofun)
  · refine .get fun s s' hst => ⟨by rw [C.lookup hst], .pure ?_⟩
    exact Coupling.sound_of_components (C.name hst _ _) nofun
  · refine .bind hfirst fun e he => .pure ?_
    exact Coupling.sound_of_isPlain rfl (Coupling.sound_toList he)
  · refine .bind hchild fun left hleft => .bind hchild fun right hright => .pure ?_
    exact Coupling.sound_of_isPlain rfl
      (Coupling.sound_append (Coupling.sound_toList hleft) (Coupling.sound_toList hright))
  · refine .bind hchild fun e he => .pure ?_
    exact Coupling.sound_of_isPlain rfl (Coupling.sound_toList he)
  · refine .bind hfirst fun e he => .pure ?_
    exact Coupling.sound_of_isPlain rfl (Coupling.sound_toList he)
  · refine .bind hchild fun condition hcondition => ?_
    refine .bind hchild fun first hfirst => .bind hchild fun second hsecond => .pure ?_
    exact Coupling.sound_of_isPlain rfl (Coupling.sound_append (Coupling.sound_toList hcondition)
      (Coupling.sound_append (Coupling.sound_toList hfirst) (Coupling.sound_toList hsecond)))
  · refine .bind hchild fun left hleft => .bind hchild fun right hright => ?_
    refine .bind (.modify fun s s' hst => C.assign hst hleft hright _) fun _ _ => .pure ?_
    exact Coupling.sound_of_isPlain rfl
      (Coupling.sound_append (Coupling.sound_toList hleft) (Coupling.sound_toList hright))
  · refine .get fun s s' hst => ⟨by rw [C.resolveType hst], ?_⟩
    refine .bind hchild fun e he => .pure ?_
    exact Coupling.sound_of_isPlain rfl (Coupling.sound_toList he)
  · exact lockstep_readCreation h ht
  · exact lockstep_readArrayCreation h ht
  · refine .bind (Readings.lockstep_exprs h (Tree.all_content ht)) fun es hes => .pure ?_
    exact Coupling.sound_of_isPlain rfl hes
  · rename_i hform
    exact lockstep_readFieldAccess h ht hform
  · exact lockstep_readInvocation h ht
  · exact lockstep_readLambda h ht
  · split
    · refine .bind (Readings.lockstep_exprs h (Tree.all_content ht)) fun _ _ => .pure ?_
      exact Coupling.sound_of_isPlain rfl nofun
    · exact .pure (Coupling.sound_of_isPlain rfl nofun)

end

/-! ### Statements -/

section

variable {t : Tree} {read : Readings t} (h : read.Coupled C) (ht : t.all C.admits = true)

include h ht

theorem lockstep_readBlock :
    Lockstep C.alike (readBlock S t read) fun s => ∀ e ∈ s.exprs, C.Sound e := by
  unfold readBlock
  refine .bind (lockstep_inScope (.mapM fun c hc => (h c (Tree.all_content ht c hc)).stmt))
    fun ss hss => .pure fun e he => ?_
  obtain ⟨s, hs, he⟩ := Stmt.mem_exprsAll_filterMap.1 he
  exact hss s hs e he

omit ht in
theorem lockstep_readDeclarator (type : Option String) {d : Subtree t}
    (hd : d.1.all C.admits = true) :
    Lockstep C.alike (readDeclarator S t read type d)
      fun f => ∀ e ∈ Expr.name f.1 :: f.2.toList, C.Sound e := by
  unfold readDeclarator
  refine .bind (Readings.lockstep_expr? (Readings.coupled_under h d) (Tree.all_child? hd))
    fun value hvalue => ?_
  refine .bind (.require fun _ _ => trivial) fun name _ => ?_
  refine .bind (lockstep_declare _ _) fun b hb => ?_
  refine .bind (lockstep_bind hb.1 (by simp [hb.2]) hvalue) fun _ _ => .pure ?_
  refine List.forall_mem_cons.2 ⟨?_, Coupling.sound_toList hvalue⟩
  exact Coupling.sound_of_components (C.variableName hb.1 _ _) nofun

theorem lockstep_readDeclaration :
    Lockstep C.alike (readDeclaration S t read) fun s => ∀ e ∈ s.exprs, C.Sound e := by
  unfold readDeclaration
  refine .get fun s s' hst => ⟨by rw [C.resolveType hst], ?_⟩
  refine .bind (.mapM fun d hd => lockstep_readDeclarator h _ (Tree.all_childrenIn ht d hd))
    fun fragments hfragments => .pure fun e he => ?_
  obtain ⟨f, hf, he⟩ := List.mem_flatMap.1 he
  exact hfragments f hf e he

omit h ht in
theorem lockstep_bindVariable (type : Option String) (name : Tree) {value : Option Expr}
    (hvalue : ∀ e ∈ value, C.Sound e) :
    Lockstep C.alike (bindVariable S type name value) fun _ => True :=
  .bind (lockstep_declare _ _) fun _ hb => lockstep_bind hb.1 (by simp [hb.2]) hvalue

theorem lockstep_readLoopHead (kind : Kind) :
    Lockstep C.alike (readLoopHead S t read kind) fun _ => True := by
  unfold readLoopHead
  split
  · refine .bind (Readings.lockstep_expr? h (Tree.all_child? ht)) fun value hvalue => ?_
    split
    · exact .pure trivial
    · refine .get fun s s' hst => ⟨by rw [C.resolveType hst], ?_⟩
      exact lockstep_bindVariable _ _ hvalue
  · refine .bind (Q := fun _ => True) (.forM fun c hc => ?_) fun _ _ => ?_
    · have hinit := Tree.all_childrenIn ht c hc
      split
      · exact .bind (lockstep_readDeclaration (Readings.coupled_under h c) hinit)
          fun _ _ => .pure trivial
      · exact .bind (h c hinit).expr fun _ _ => .pure trivial
    · refine .bind (Readings.lockstep_expr? h (Tree.all_child? ht)) fun _ _ => ?_
      exact .bind (Readings.lockstep_exprs h (Tree.all_childrenIn ht)) fun _ _ => .pure trivial
  · exact .bind (Readings.lockstep_expr? h (Tree.all_child? ht)) fun _ _ => .pure trivial

theorem lockstep_readLoop (kind : Kind) :
    Lockstep C.alike (readLoop S t read kind) fun s => ∀ e ∈ s.exprs, C.Sound e := by
  unfold readLoop
  refine .bind (lockstep_inScope (.bind (lockstep_readLoopHead h ht kind) fun _ _ =>
    Readings.lockstep_stmt? h (Tree.all_child? ht))) fun body hbody => ?_
  exact .pure hbody

omit ht in
theorem lockstep_readResource {c : Subtree t} (hc : c.1.all C.admits = true) :
    Lockstep C.alike (readResource S t read c) fun _ => True := by
  unfold readResource
  split
  · exact .bind (h c hc).expr fun _ _ => .pure trivial
  · refine .bind (Readings.lockstep_expr? (Readings.coupled_under h c) (Tree.all_child? hc))
      fun value hvalue => ?_
    refine .get fun s s' hst => ⟨by rw [C.resolveType hst], ?_⟩
    exact lockstep_bindVariable _ _ hvalue

omit ht in
theorem lockstep_readCatch {c : Subtree t} (hc : c.1.all C.admits = true) :
    Lockstep C.alike (readCatch S t read c) fun s => ∀ e ∈ Stmt.exprsOpt s, C.Sound e := by
  have hbody := Readings.lockstep_block? (Readings.coupled_under h c) (c := c.1.child? "body")
    (Tree.all_child? hc)
  unfold readCatch
  refine lockstep_inScope ?_
  split
  · exact hbody
  · split
    · exact hbody
    · refine .get fun s s' hst => ⟨by rw [C.resolveType hst], ?_⟩
      exact .bind (lockstep_declare _ _) fun _ _ => hbody

omit ht in
theorem lockstep_readClauses {cs : List (Subtree t)} (hcs : ∀ c ∈ cs, c.1.all C.admits = true)
    {handlers : List Stmt} {finalizer : Option Stmt}
    (hhandlers : ∀ e ∈ Stmt.exprsAll handlers, C.Sound e)
    (hfinalizer : ∀ e ∈ Stmt.exprsOpt finalizer, C.Sound e) :
    Lockstep C.alike (readClauses S t read cs handlers finalizer) fun p =>
      (∀ e ∈ Stmt.exprsAll p.1, C.Sound e) ∧ ∀ e ∈ Stmt.exprsOpt p.2, C.Sound e := by
  induction cs generalizing handlers finalizer with
  | nil => exact .pure ⟨hhandlers, hfinalizer⟩
  | cons c cs ih =>
    obtain ⟨hc, hcs⟩ := List.forall_mem_cons.1 hcs
    unfold readClauses
    split
    · refine .bind (lockstep_readCatch h hc) fun handler hhandler => ih hcs ?_ hfinalizer
      intro e he
      obtain ⟨s, hs, he⟩ := Stmt.mem_exprsAll.1 he
      rcases List.mem_append.1 hs with hs | hs
      · exact hhandlers e (Stmt.mem_exprsAll.2 ⟨s, hs, he⟩)
      · rw [Option.mem_toList.1 hs] at hhandler
        exact hhandler e he
    · split
      · refine .bind (Readings.lockstep_block? (Readings.coupled_under h c) (Tree.all_contentOf? hc))
          fun block hblock => ih hcs hhandlers ?_
        cases block with
        | none => exact hfinalizer
        | some s => exact hblock
      · exact ih hcs hhandlers hfinalizer

theorem lockstep_readTry :
    Lockstep C.alike (readTry S t read) fun s => ∀ e ∈ s.exprs, C.Sound e := by
  have hbody := Readings.lockstep_block? h (c := t.child? "body") (Tree.all_child? ht)
  unfold readTry
  refine .bind (Q := fun s => ∀ e ∈ Stmt.exprsOpt s, C.Sound e) (lockstep_inScope ?_)
    fun body hbody => ?_
  · split
    · exact hbody
    · rename_i rs hrs
      refine .bind (.forM fun c hc => lockstep_readResource h ?_) fun _ _ => hbody
      exact Tree.all_content_map (Tree.all_child? ht rs hrs) c hc
  · refine .bind (lockstep_readClauses h (Tree.all_content ht) nofun nofun)
      fun ⟨handlers, finalizer⟩ ⟨hhandlers, hfinalizer⟩ => .pure ?_
    exact Coupling.sound_append hbody (Coupling.sound_append hhandlers hfinalizer)

omit ht in
theorem lockstep_readSwitchItem (group : Tree) {c : Subtree t} (hc : c.1.all C.admits = true) :
    Lockstep C.alike (readSwitchItem t read group c)
      fun s => ∀ e ∈ Stmt.exprsOpt s, C.Sound e := by
  unfold readSwitchItem
  split
  · exact .pure nofun
  · split
    · exact .bind (h c hc).expr fun _ _ => .pure nofun
    · exact (h c hc).stmt

theorem lockstep_readSwitch :
    Lockstep C.alike (readSwitch S t read) fun s => ∀ e ∈ s.exprs, C.Sound e := by
  unfold readSwitch
  refine .bind (Readings.lockstep_expr? h (Tree.all_child? ht)) fun _ _ => ?_
  refine .bind (Q := fun ss => ∀ e ∈ Stmt.exprsAll ss, C.Sound e) (lockstep_inScope ?_)
    fun ss hss => .pure hss
  split
  · exact .pure nofun
  · rename_i body hbody
    have hgroup := Tree.all_content_map (Tree.all_child? ht body hbody)
    refine .bind (.mapM fun g hg => .mapM fun c hc => lockstep_readSwitchItem h g.1 ?_)
      fun groups hgroups => .pure fun e he => ?_
    · exact Tree.all_content_map (hgroup g hg) c hc
    · obtain ⟨s, hs, he⟩ := Stmt.mem_exprsAll.1 he
      obtain ⟨group, hgroup, hs⟩ := List.mem_flatMap.1 hs
      obtain ⟨s', hs', he'⟩ := Stmt.mem_exprsAll_filterMap.1 (Stmt.mem_exprsAll.2 ⟨s, hs, he⟩)
      exact hgroups group hgroup s' hs' e he'

/-- **A statement** is read in lockstep. -/
theorem lockstep_readStmt :
    Lockstep C.alike (readStmt S t read) fun s => ∀ e ∈ Stmt.exprsOpt s, C.Sound e := by
  have hsome : ∀ {step : Read Stmt}, Lockstep C.alike step (fun s => ∀ e ∈ s.exprs, C.Sound e) →
      Lockstep C.alike (do return some (← step)) fun s => ∀ e ∈ Stmt.exprsOpt s, C.Sound e :=
    fun hstep => .bind hstep fun s hs => .pure hs
  have hfirst := Readings.lockstep_expr? h (Tree.all_firstContent? ht)
  unfold readStmt
  simp only
  split
  · exact .pure nofun
  · exact hsome (lockstep_readBlock h ht)
  · exact .bind hfirst fun _ he => .pure (Coupling.sound_toList he)
  · exact hsome (lockstep_readDeclaration h ht)
  · exact .bind hfirst fun _ he => .pure (Coupling.sound_toList he)
  · refine .bind (Readings.lockstep_expr? h (Tree.all_child? ht)) fun condition hcondition => ?_
    refine .bind (Readings.lockstep_stmt? h (Tree.all_child? ht)) fun first hfirst => ?_
    refine .bind (Readings.lockstep_stmt? h (Tree.all_child? ht)) fun second hsecond => .pure ?_
    exact Coupling.sound_append (Coupling.sound_toList hcondition)
      (Coupling.sound_append hfirst hsecond)
  · exact hsome (lockstep_readLoop h ht _)
  · exact hsome (lockstep_readTry h ht)
  · exact hsome (lockstep_readSwitch h ht)
  · have hbody := Readings.lockstep_block? h (c := t.child? "body") (Tree.all_child? ht)
    split
    · rename_i lock hlock
      split
      · exact .bind (h lock (Tree.all_firstContent? ht lock hlock)).expr fun _ _ => hbody
      · exact hbody
    · exact hbody
  · split
    · rename_i last hlast
      exact (h last (Tree.all_content ht last (List.mem_of_getLast? hlast))).stmt
    · exact .fault _
  · exact .pure nofun
  · refine .bind (Readings.lockstep_exprs h fun c hc => ?_) fun _ _ => .pure nofun
    exact Tree.all_content ht c (List.mem_filter.1 hc).1

end

/-- **Bodies are read in lockstep**: whatever a node is read as, two runs from states that are alike
read it as the same and end in states that are alike, or both fail. -/
theorem lockstep_reading {t : Tree} (ht : t.all C.admits = true) : (reading S t).Coupled C := by
  induction hsize : t.size using Nat.strongRecOn generalizing t with
  | ind n ih =>
    have hinner : Readings.Coupled C (t := t) fun c => reading S c.1 :=
      fun c hc => ih c.1.size (hsize ▸ c.2) hc rfl
    rw [reading]
    exact ⟨lockstep_readExpr hinner ht, lockstep_readStmt hinner ht, lockstep_readBlock hinner ht⟩

end TaintFlow.Java
