import TaintFlow.Proofs.Java.Layout

/-!
# What reading a body does

The state changes in few ways while an expression or a statement is read: a scope is opened and
closed, a variable is declared, a call is kept, and a variable is given a value.  Reading is put
together from these (`Read.Tame`), and from faults where a node lacks a child that can not be done
without (`Tree.HasParts`).

* `tame_reading` : reading any node is put together so.
* `leads_reading` : what these few changes lead to, reading any node leads to.  In particular the names
  of types, the methods read so far and the place being read stay as they are (`outline_reading`).
* `Read.Tame.exists_run` : without faults, reading succeeds from any state.
-/

namespace TaintFlow.Java

open TaintFlow.Code TaintFlow.Types

/-! ### Nodes with their parts -/

/-- Types of the nodes that declare variables of a common type. -/
def declaratorTypes : List String :=
  ["field_declaration", "constant_declaration", "local_variable_declaration"]

/-- A node has the children that can not be done without. -/
structure Tree.HasParts (t : Tree) : Prop where
  /-- Every method of a type has parameters. -/
  parameters : t.isTypeDeclaration = true → ∀ m ∈ t.members, m.1.type = "method_declaration" →
    (m.1.child? "parameters").isSome = true
  /-- Every declarator has a name. -/
  declarators : t.type ∈ declaratorTypes → ∀ d ∈ t.childrenIn "declarator",
    (d.1.child? "name").isSome = true
  /-- Every constant of an enumeration has a name. -/
  constants : t.isTypeDeclaration = true → ∀ m ∈ t.members, m.1.type = "enum_constant" →
    (m.1.child? "name").isSome = true
  /-- A labeled statement is not empty. -/
  label : t.type = "labeled_statement" → t.content ≠ []

/-- Every node of a tree has the children that can not be done without. -/
def Tree.Complete (t : Tree) : Prop :=
  ∀ n : Tree, n.Inside t → n.HasParts

/-- The nodes of a body have the children that can not be done without there. -/
def Tree.Sound (t : Tree) : Prop :=
  ∀ n : Tree, n.Inside t →
    (n.type = "local_variable_declaration" → ∀ d ∈ n.childrenIn "declarator",
      (d.1.child? "name").isSome = true) ∧ (n.type = "labeled_statement" → n.content ≠ [])

/-- The nodes of a tree have them, unless reading may fail. -/
def Tree.Safe (fails : Prop) (t : Tree) : Prop :=
  fails ∨ t.Sound

namespace Tree

variable {fails : Prop} {n t : Tree}

theorem Complete.of_inside (h : t.Complete) (hn : n.Inside t) : n.Complete :=
  fun _ hx => h _ (hx.trans hn)

theorem Complete.sound (h : t.Complete) : t.Sound :=
  fun n hn => ⟨fun htype => (h n hn).declarators (by rw [htype]; decide), (h n hn).label⟩

namespace Safe

variable (h : t.Safe fails)

include h

theorem of_inside (hn : n.Inside t) : n.Safe fails :=
  h.imp_right fun h _ hx => h _ (hx.trans hn)

theorem content {c : Subtree t} (hc : c ∈ t.content) : c.1.Safe fails :=
  h.of_inside (inside_of_mem_content hc)

theorem child? {field : String} {c : Subtree t} (hc : c ∈ t.child? field) : c.1.Safe fails :=
  h.of_inside (inside_of_mem_child? hc)

theorem childrenIn {field : String} {c : Subtree t} (hc : c ∈ t.childrenIn field) :
    c.1.Safe fails :=
  h.of_inside (inside_of_mem_parts (List.mem_filter.1 hc).1)

theorem firstContent? {c : Subtree t} (hc : c ∈ t.firstContent?) : c.1.Safe fails :=
  h.content (mem_content_of_firstContent? hc)

end Safe

end Tree

/-! ### Steps of reading -/

/-- A relation between states that holds whenever one is reached from the other by the changes that
are made inside bodies. -/
structure State.Allows (R : State → State → Prop) : Prop where
  refl : ∀ s, R s s
  trans : ∀ {s₁ s₂ s₃}, R s₁ s₂ → R s₂ s₃ → R s₁ s₃
  inScope : ∀ {s s'}, R s.pushScope s' → R s s'.popScope
  addVariable : ∀ s b, R s (s.addVariable b)
  bind : ∀ s b value, R s (s.bind b value)
  addCall : ∀ s call, R s (s.addCall call)
  assign : ∀ s operator left right, R s (s.assign operator left right)

namespace Read

/-- A run of two steps is a run of the first one and then of the second one. -/
theorem run_bind_eq_ok {α β : Type} {step : Read α} {next : α → Read β} {s s' : State} {b : β} :
    (step >>= next).run s = .ok (b, s') ↔
      ∃ a s₁, step.run s = .ok (a, s₁) ∧ (next a).run s₁ = .ok (b, s') := by
  rw [StateT.run_bind]
  cases hstep : step.run s with
  | error f =>
    constructor
    · intro h
      cases h
    · rintro ⟨a, s₁, h, -⟩
      cases h
  | ok p =>
    constructor
    · intro h
      exact ⟨p.1, p.2, rfl, h⟩
    · rintro ⟨a, s₁, h, hnext⟩
      cases h
      exact hnext

/-- The step is put together from looks at the state and the changes that are made inside bodies, and
from faults, if there may be any. -/
inductive Tame (fails : Prop) : {α : Type} → Read α → Prop
  | pure {α : Type} (a : α) : Tame fails (Pure.pure a : Read α)
  | get : Tame fails (MonadState.get : Read State)
  | fault {α : Type} (h : fails) (f : Fault) : Tame fails (Read.fault f : Read α)
  | bind {α β : Type} {step : Read α} {next : α → Read β} (h : Tame fails step)
      (hnext : ∀ a, Tame fails (next a)) : Tame fails (step >>= next)
  | inScope {α : Type} {step : Read α} (h : Tame fails step) : Tame fails (Read.inScope step)
  | declare (S : Source) (name : String) (kind : VariableKind) (type : Option String) (node : Tree)
      (index : Int) : Tame fails (Java.declare S name kind type node index)
  | value (b : Binding) (value : Option Expr) :
      Tame fails (modifyThe State (·.bind b value) : Read PUnit)
  | addCall (call : Expr) : Tame fails (modifyThe State (·.addCall call) : Read PUnit)
  | assign (operator : String) (left right : Option Expr) :
      Tame fails (modifyThe State (·.assign operator left right) : Read PUnit)

/-- From every state, the step ends in a related one. -/
def Leads {α : Type} (R : State → State → Prop) (step : Read α) : Prop :=
  ∀ s a s', step.run s = .ok (a, s') → R s s'

namespace Leads

variable {α β : Type} {R : State → State → Prop} (hR : State.Allows R)

include hR

theorem pure (a : α) : Leads R (Pure.pure a : Read α) := by
  intro s b s' hrun
  cases hrun
  exact hR.refl s

theorem bind {step : Read α} {next : α → Read β} (h : Leads R step) (hnext : ∀ a, Leads R (next a)) :
    Leads R (step >>= next) := by
  intro s b s' hrun
  obtain ⟨a, s₁, hstep, hrest⟩ := run_bind_eq_ok.1 hrun
  exact hR.trans (h s a s₁ hstep) (hnext a s₁ b s' hrest)

omit hR in
theorem modify {f : State → State} (h : ∀ s, R s (f s)) :
    Leads R (modifyThe State f : Read PUnit) := by
  intro s b s' hrun
  cases hrun
  exact h s

theorem forM {l : List β} {f : β → Read PUnit} (h : ∀ x ∈ l, Leads R (f x)) : Leads R (l.forM f) := by
  induction l with
  | nil => exact pure hR ()
  | cons x l ih =>
    obtain ⟨hx, hl⟩ := List.forall_mem_cons.1 h
    exact bind hR hx fun _ => ih hl

end Leads

namespace Tame

variable {α β : Type} {fails : Prop}

theorem require {a : Option α} (h : fails ∨ a.isSome = true) : Tame fails (Read.require a) := by
  cases a with
  | none => exact fault (h.resolve_right Bool.false_ne_true) _
  | some a => exact pure a

theorem mapM {l : List β} {f : β → Read α} (h : ∀ x ∈ l, Tame fails (f x)) :
    Tame fails (l.mapM f) := by
  induction l with
  | nil => exact pure []
  | cons x l ih =>
    obtain ⟨hx, hl⟩ := List.forall_mem_cons.1 h
    rw [List.mapM_cons]
    exact bind hx fun _ => bind (ih hl) fun _ => pure _

theorem forM {l : List β} {f : β → Read PUnit} (h : ∀ x ∈ l, Tame fails (f x)) :
    Tame fails (l.forM f) := by
  induction l with
  | nil => exact pure ()
  | cons x l ih =>
    obtain ⟨hx, hl⟩ := List.forall_mem_cons.1 h
    exact bind hx fun _ => ih hl

/-- The step leads where the changes that are made inside bodies lead. -/
theorem leads {R : State → State → Prop} (hR : State.Allows R) {step : Read α}
    (h : Tame fails step) : Leads R step := by
  induction h with
  | pure a => exact .pure hR a
  | get =>
    intro s b s' hrun
    cases hrun
    exact hR.refl s
  | fault h f =>
    intro s b s' hrun
    cases hrun
  | bind _ _ ih ihnext => exact .bind hR ih ihnext
  | inScope _ ih =>
    intro s a s' hrun
    obtain ⟨_, _, hpush, hrun⟩ := run_bind_eq_ok.1 hrun
    cases hpush
    obtain ⟨a', s₁, hstep, hpop⟩ := run_bind_eq_ok.1 hrun
    cases hpop
    exact hR.inScope (ih _ _ _ hstep)
  | declare S name kind type node index =>
    intro s b s' hrun
    cases hrun
    exact hR.addVariable s _
  | value b value => exact .modify fun s => hR.bind s b value
  | addCall call => exact .modify fun s => hR.addCall s call
  | assign operator left right => exact .modify fun s => hR.assign s operator left right

/-- Without faults, the step succeeds from every state. -/
theorem exists_run {step : Read α} (h : Tame False step) (s : State) :
    ∃ a s', step.run s = .ok (a, s') := by
  induction h generalizing s with
  | fault h => exact h.elim
  | bind _ _ ih ihnext =>
    obtain ⟨a, s₁, hstep⟩ := ih s
    obtain ⟨b, s₂, hrest⟩ := ihnext a s₁
    exact ⟨b, s₂, run_bind_eq_ok.2 ⟨a, s₁, hstep, hrest⟩⟩
  | inScope _ ih =>
    obtain ⟨a, s₁, hstep⟩ := ih s.pushScope
    exact ⟨a, s₁.popScope, run_bind_eq_ok.2 ⟨(), _, rfl, run_bind_eq_ok.2 ⟨a, s₁, hstep, rfl⟩⟩⟩
  | _ => exact ⟨_, _, rfl⟩

end Tame

end Read

open Read TaintFlow.Java.Tree

/-- All readings of a node lead from states to related ones. -/
structure Reading.Leads (R : State → State → Prop) (r : Reading) : Prop where
  expr : Read.Leads R r.asExpr
  stmt : Read.Leads R r.asStmt
  block : Read.Leads R r.asBlock

/-- All readings of a node are put together from the changes that are made inside bodies. -/
structure Reading.Tame (fails : Prop) (r : Reading) : Prop where
  expr : Read.Tame fails r.asExpr
  stmt : Read.Tame fails r.asStmt
  block : Read.Tame fails r.asBlock

/-- So are all readings of smaller nodes. -/
def Readings.Tamed (fails : Prop) {t : Tree} (read : Readings t) : Prop :=
  ∀ c : Subtree t, c.1.Safe fails → (read c).Tame fails

section

variable {fails : Prop} {S : Source} {t : Tree} {read : Readings t} (h : read.Tamed fails)

namespace Readings

include h

theorem tame_under (c : Subtree t) : (read.under c).Tamed fails :=
  fun d hd => h (c.trans d) hd

theorem tame_expr? {c : Option (Subtree t)} (hc : ∀ x ∈ c, x.1.Safe fails) :
    Tame fails (read.expr? c) := by
  cases c with
  | none => exact .pure _
  | some c => exact (h c (hc c rfl)).expr.bind fun _ => .pure _

theorem tame_stmt? {c : Option (Subtree t)} (hc : ∀ x ∈ c, x.1.Safe fails) :
    Tame fails (read.stmt? c) := by
  cases c with
  | none => exact .pure _
  | some c => exact (h c (hc c rfl)).stmt

theorem tame_block? {c : Option (Subtree t)} (hc : ∀ x ∈ c, x.1.Safe fails) :
    Tame fails (read.block? c) := by
  cases c with
  | none => exact .pure _
  | some c => exact (h c (hc c rfl)).block.bind fun _ => .pure _

theorem tame_exprs {cs : List (Subtree t)} (hcs : ∀ c ∈ cs, c.1.Safe fails) :
    Tame fails (read.exprs cs) :=
  .mapM fun c hc => (h c (hcs c hc)).expr

theorem tame_contentOf {c : Option (Subtree t)} (hc : ∀ x ∈ c, x.1.Safe fails) :
    Tame fails (read.contentOf c) := by
  cases c with
  | none => exact .pure _
  | some c =>
    refine tame_exprs h fun d hd => ?_
    obtain ⟨e, he, rfl⟩ := List.mem_map.1 hd
    exact (hc c rfl).content he

end Readings

variable (ht : t.Safe fails)

include h ht

/-- Reads a child in a role, if it is there, as an expression. -/
theorem tame_child? (field : String) : Tame fails (read.expr? (t.child? field)) :=
  Readings.tame_expr? h fun _ => ht.child?

theorem tame_firstContent? : Tame fails (read.expr? t.firstContent?) :=
  Readings.tame_expr? h fun _ => ht.firstContent?

theorem tame_body? : Tame fails (read.block? (t.child? "body")) :=
  Readings.tame_block? h fun _ => ht.child?

/-! ### Expressions -/

theorem tame_readFieldAccess : Tame fails (readFieldAccess S t read) := by
  unfold readFieldAccess readFieldAccess.ownerOf
  refine .bind ?_ fun _ => .bind .get fun _ => .pure _
  split
  · exact .bind .get fun _ => .pure _
  · rename_i o ho
    split
    · exact .bind .get fun _ => .pure _
    · exact (h o (ht.child? ho)).expr.bind fun _ => .bind .get fun _ => .pure _

theorem tame_readInvocation : Tame fails (readInvocation S t read) := by
  have hreceiver : Tame fails (readInvocation.receiverOf S t read (t.child? "object")) := by
    unfold readInvocation.receiverOf
    refine .bind .get fun _ => ?_
    split
    · exact .pure _
    · rename_i o ho
      split
      · exact .pure _
      · split
        · exact .pure _
        · exact (h o (ht.child? ho)).expr.bind fun _ => .bind .get fun _ => .pure _
  refine hreceiver.bind fun _ => (Readings.tame_contentOf h fun _ => ht.child?).bind fun _ => ?_
  exact .bind .get fun _ => .bind (.addCall _) fun _ => .pure _

theorem tame_readCreation : Tame fails (readCreation S t read) := by
  have hrest : Tame fails (do
      let s ← get
      let type := (s.resolveType (S.textOf (t.child? "type"))).getD ""
      let arguments ← read.contentOf (t.child? "arguments")
      let call := Expr.creation (S.origin t) type arguments
      modify (·.addCall call)
      return call) := by
    refine .bind .get fun _ => (Readings.tame_contentOf h fun _ => ht.child?).bind fun _ => ?_
    exact .bind (.addCall _) fun _ => .pure _
  unfold readCreation
  split
  · rename_i outer houter
    split
    · exact (h outer (ht.firstContent? houter)).expr.bind fun _ => hrest
    · exact hrest
  · exact hrest

theorem tame_readArrayCreation : Tame fails (readArrayCreation S t read) := by
  unfold readArrayCreation
  refine .bind .get fun _ => ?_
  dsimp only
  split
  · rename_i v hv
    refine .bind (Readings.tame_contentOf h fun x hx => ?_) fun _ => .pure _
    exact ht.child? (hv.trans hx)
  · exact .bind (Readings.tame_exprs h fun _ => ht.childrenIn) fun _ => .pure _

theorem tame_readLambda : Tame fails (readLambda S t read) := by
  unfold readLambda
  refine .bind (.inScope ?_) fun _ => .pure _
  refine .bind (.forM fun n _ => .bind (.declare S _ _ _ _ _) fun _ => .pure _) fun _ => ?_
  split
  · exact .pure _
  · rename_i body hbody
    have hread := h body (ht.child? hbody)
    split
    · exact hread.block.bind fun _ => .pure _
    · exact hread.expr.bind fun _ => .pure _

theorem tame_readExpr : Tame fails (readExpr S t read) := by
  have hchild := tame_child? h ht
  have hfirst := tame_firstContent? h ht
  have hcontent := Readings.tame_exprs h fun _ => ht.content
  unfold readExpr
  dsimp only
  generalize ExprForm.ofType t.type = form
  cases form with
  | literal kind => exact .pure _
  | identifier => exact .bind .get fun _ => .pure _
  | parenthesized | update => exact hfirst.bind fun _ => .pure _
  | binary => exact (hchild _).bind fun _ => (hchild _).bind fun _ => .pure _
  | unary => exact (hchild _).bind fun _ => .pure _
  | ternary =>
    refine (hchild _).bind fun _ => (hchild _).bind fun _ => ?_
    exact (hchild _).bind fun _ => .pure _
  | assignment =>
    refine (hchild _).bind fun _ => (hchild _).bind fun _ => ?_
    exact .bind (.assign _ _ _) fun _ => .pure _
  | cast => exact .bind .get fun _ => (hchild _).bind fun _ => .pure _
  | creation => exact tame_readCreation h ht
  | arrayCreation => exact tame_readArrayCreation h ht
  | arrayInitializer => exact hcontent.bind fun _ => .pure _
  | fieldAccess => exact tame_readFieldAccess h ht
  | invocation => exact tame_readInvocation h ht
  | lambda => exact tame_readLambda h ht
  | other =>
    dsimp only
    split
    · exact hcontent.bind fun _ => .pure _
    · exact .pure _

/-! ### Statements -/

theorem tame_readBlock : Tame fails (readBlock S t read) :=
  .bind (.inScope (.mapM fun c hc => (h c (ht.content hc)).stmt)) fun _ => .pure _

/-- A declaration of local variables needs the names of its declarators. -/
theorem tame_readDeclaration (htype : t.type = "local_variable_declaration") :
    Tame fails (readDeclaration S t read) := by
  unfold readDeclaration
  refine .bind .get fun _ => .bind (.mapM fun d hd => ?_) fun _ => .pure _
  have hname : fails ∨ ((d.1.child? "name").map (·.1)).isSome = true := by
    rw [Option.isSome_map]
    exact ht.imp_right fun ht => (ht t .refl).1 htype d hd
  refine (tame_child? (Readings.tame_under h d) (ht.childrenIn hd) _).bind fun _ => ?_
  refine .bind (.require hname) fun _ => .bind (.declare S _ _ _ _ _) fun _ => ?_
  exact .bind (.value _ _) fun _ => .pure _

omit h ht in
theorem tame_bindVariable (type : Option String) (name : Tree) (value : Option Expr) :
    Tame fails (bindVariable S type name value) :=
  .bind (.declare S _ _ _ _ _) fun _ => .value _ _

theorem tame_readLoopHead (kind : Kind) : Tame fails (readLoopHead S t read kind) := by
  have hchild := tame_child? h ht
  unfold readLoopHead
  split
  · refine (hchild _).bind fun _ => ?_
    split
    · exact .pure _
    · exact .bind .get fun _ => tame_bindVariable _ _ _
  · refine .bind (.forM fun c hc => ?_) fun _ => (hchild _).bind fun _ => ?_
    · have hc := ht.childrenIn hc
      split
      · rename_i htype
        exact .bind (tame_readDeclaration (Readings.tame_under h c) hc (beq_iff_eq.1 htype))
          fun _ => .pure _
      · exact (h c hc).expr.bind fun _ => .pure _
    · exact .bind (Readings.tame_exprs h fun _ => ht.childrenIn) fun _ => .pure _
  · exact (hchild _).bind fun _ => .pure _

theorem tame_readLoop (kind : Kind) : Tame fails (readLoop S t read kind) := by
  unfold readLoop
  refine .bind (.inScope ?_) fun _ => .pure _
  exact (tame_readLoopHead h ht kind).bind fun _ => Readings.tame_stmt? h fun _ => ht.child?

omit ht in
theorem tame_readResource {c : Subtree t} (hc : c.1.Safe fails) :
    Tame fails (readResource S t read c) := by
  unfold readResource
  split
  · exact (h c hc).expr.bind fun _ => .pure _
  · refine (tame_child? (Readings.tame_under h c) hc _).bind fun _ => ?_
    exact .bind .get fun _ => tame_bindVariable _ _ _

omit ht in
theorem tame_readCatch {c : Subtree t} (hc : c.1.Safe fails) :
    Tame fails (readCatch S t read c) := by
  have hbody := tame_body? (Readings.tame_under h c) hc
  unfold readCatch
  refine .inScope ?_
  split
  · exact hbody
  · split
    · exact hbody
    · exact .bind .get fun _ => .bind (.declare S _ _ _ _ _) fun _ => hbody

omit ht in
theorem tame_readClauses {cs : List (Subtree t)} (hcs : ∀ c ∈ cs, c.1.Safe fails)
    (handlers : List Stmt) (finalizer : Option Stmt) :
    Tame fails (readClauses S t read cs handlers finalizer) := by
  induction cs generalizing handlers finalizer with
  | nil => exact .pure _
  | cons c cs ih =>
    obtain ⟨hc, hrest⟩ := List.forall_mem_cons.1 hcs
    unfold readClauses
    split
    · exact (tame_readCatch h hc).bind fun _ => ih hrest _ _
    · split
      · refine .bind (Readings.tame_block? (Readings.tame_under h c) fun _ hb => ?_)
          fun _ => ih hrest _ _
        exact hc.content (mem_content_of_contentOf? hb)
      · exact ih hrest _ _

theorem tame_readResources : Tame fails (match t.child? "resources" with
    | none => read.block? (t.child? "body")
    | some rs => do
      (rs.1.content.map rs.trans).forM (readResource S t read)
      read.block? (t.child? "body")) := by
  have hbody := tame_body? h ht
  split
  · exact hbody
  · rename_i rs hrs
    refine .bind (.forM fun c hc => ?_) fun _ => hbody
    obtain ⟨d, hd, rfl⟩ := List.mem_map.1 hc
    exact tame_readResource h ((ht.child? hrs).content hd)

theorem tame_readTry : Tame fails (readTry S t read) := by
  refine .bind (.inScope (tame_readResources h ht)) fun _ => ?_
  exact .bind (tame_readClauses h (fun _ => ht.content) _ _) fun _ => .pure _

omit ht in
theorem tame_readSwitchItem (group : Tree) {c : Subtree t} (hc : c.1.Safe fails) :
    Tame fails (readSwitchItem t read group c) := by
  unfold readSwitchItem
  split
  · exact .pure _
  · split
    · exact (h c hc).expr.bind fun _ => .pure _
    · exact (h c hc).stmt

theorem tame_readSwitch : Tame fails (readSwitch S t read) := by
  unfold readSwitch
  refine (tame_child? h ht _).bind fun _ => .bind (.inScope ?_) fun _ => .pure _
  split
  · exact .pure _
  · rename_i body hbody
    refine .bind (.mapM fun g hg => .mapM fun c hc => ?_) fun _ => .pure _
    obtain ⟨g', hg', rfl⟩ := List.mem_map.1 hg
    obtain ⟨c', hc', rfl⟩ := List.mem_map.1 hc
    exact tame_readSwitchItem h _ (((ht.child? hbody).content hg').content hc')

/-- A labeled statement needs something that it can be read as. -/
theorem tame_readStmt : Tame fails (readStmt S t read) := by
  have hchild := tame_child? h ht
  have hfirst := tame_firstContent? h ht
  have hbody := tame_body? h ht
  have hstmt (field : String) : Tame fails (read.stmt? (t.child? field)) :=
    Readings.tame_stmt? h fun _ => ht.child?
  have htype := StmtForm.hasType_ofType t.type
  unfold readStmt
  dsimp only
  cases hform : StmtForm.ofType t.type with
  | comment | localType => exact .pure _
  | block => exact (tame_readBlock h ht).bind fun _ => .pure _
  | expression | ret => exact hfirst.bind fun _ => .pure _
  | declaration =>
    rw [hform] at htype
    exact (tame_readDeclaration h ht htype).bind fun _ => .pure _
  | branch =>
    refine (hchild _).bind fun _ => (hstmt _).bind fun _ => ?_
    exact (hstmt _).bind fun _ => .pure _
  | loop kind => exact (tame_readLoop h ht kind).bind fun _ => .pure _
  | guarded => exact (tame_readTry h ht).bind fun _ => .pure _
  | switch => exact (tame_readSwitch h ht).bind fun _ => .pure _
  | synchronized =>
    dsimp only
    split
    · rename_i lock hlock
      split
      · exact (h lock (ht.firstContent? hlock)).expr.bind fun _ => hbody
      · exact hbody
    · exact hbody
  | labeled =>
    rw [hform] at htype
    dsimp only
    split
    · rename_i last hlast
      exact (h last (ht.content (List.mem_of_getLast? hlast))).stmt
    · rename_i hnone
      refine .fault (ht.resolve_right fun ht => ?_) _
      exact (ht t .refl).2 htype (List.getLast?_eq_none_iff.1 hnone)
  | other =>
    refine .bind (Readings.tame_exprs h fun _ hc => ?_) fun _ => .pure _
    exact ht.content (List.mem_filter.1 hc).1

end

/-- **Reading any node** is put together from these changes, without faults if the tree is complete. -/
theorem tame_reading {fails : Prop} (S : Source) {t : Tree} (ht : t.Safe fails) :
    (reading S t).Tame fails := by
  induction hsize : t.size using Nat.strongRecOn generalizing t with
  | ind n ih =>
    have hread : Readings.Tamed fails (t := t) fun c => reading S c.1 := fun c hc =>
      ih c.1.size (hsize ▸ c.2) hc rfl
    rw [reading]
    exact ⟨tame_readExpr hread ht, tame_readStmt hread ht, tame_readBlock hread ht⟩

theorem tame_readings {fails : Prop} (S : Source) (t : Tree) :
    Readings.Tamed fails (t := t) fun c => reading S c.1 :=
  fun _ hc => tame_reading S hc

/-- **Reading any node** leads where the changes that are made inside bodies lead. -/
theorem leads_reading {R : State → State → Prop} (hR : State.Allows R) (S : Source) (t : Tree) :
    (reading S t).Leads R :=
  have h : (reading S t).Tame True := tame_reading S (.inl trivial)
  ⟨h.expr.leads hR, h.stmt.leads hR, h.block.leads hR⟩

/-! ### Variables -/

/-- **An assignment** changes nothing, or is a plain one that gives a value to its target, which is no
parameter and had none where it was declared. -/
theorem State.assign_cases (s : State) (operator : String) (left right : Option Expr) :
    s.assign operator left right = s ∨ ∃ b value, State.target? left = some b ∧ right = some value ∧
      (operator = "=" ∧ b.kind ≠ .parameter ∧ b ∉ s.initialized) ∧
      s.assign operator left right = { s with bindings := s.bindings.insert b value } := by
  unfold State.assign
  split
  · rename_i b value htarget
    split
    · rename_i hplain
      simp only [Bool.and_eq_true, beq_iff_eq, decide_eq_true_eq, and_assoc] at hplain
      exact .inr ⟨b, value, htarget, rfl, hplain, rfl⟩
    · exact .inl rfl
  · exact .inl rfl

theorem State.assign_eq (s : State) (operator : String) (left right : Option Expr) :
    s.assign operator left right =
      { s with bindings := (s.assign operator left right).bindings } := by
  rcases s.assign_cases operator left right with h | ⟨_, _, -, -, -, h⟩ <;> rw [h]

theorem State.addVariable_eq (s : State) (b : Binding) :
    s.addVariable b = { s with scopes := (s.addVariable b).scopes } := by
  unfold State.addVariable
  split <;> rfl

/-! ### Outlines -/

/-- What is known of a unit apart from the variables in scope and from the calls and values of the
body being read. -/
def State.outline (s : State) : State :=
  { s with scopes := [], calls := none, initialized := [], bindings := {} }

theorem State.outline_addVariable (s : State) (b : Binding) :
    (s.addVariable b).outline = s.outline :=
  (congrArg State.outline (s.addVariable_eq b) :)

theorem State.outline_bind (s : State) (b : Binding) (value : Option Expr) :
    (s.bind b value).outline = s.outline := by
  cases value <;> rfl

theorem State.outline_assign (s : State) (operator : String) (left right : Option Expr) :
    (s.assign operator left right).outline = s.outline :=
  (congrArg State.outline (s.assign_eq operator left right) :)

/-- The changes made inside bodies keep the outline. -/
theorem allows_outline : State.Allows fun s s' => s'.outline = s.outline where
  refl _ := rfl
  trans h₁ h₂ := h₂.trans h₁
  inScope h := h
  addVariable := State.outline_addVariable
  bind := State.outline_bind
  addCall _ _ := rfl
  assign := State.outline_assign

theorem outline_reading (S : Source) (t : Tree) :
    (reading S t).Leads fun s s' => s'.outline = s.outline :=
  leads_reading allows_outline S t

end TaintFlow.Java
