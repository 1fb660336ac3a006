import TaintFlow.Proofs.Java.CallNodes
import TaintFlow.Proofs.Java.Course
import TaintFlow.Proofs.Java.Frame
import TaintFlow.Proofs.Pointwise

/-!
# Chronicles of reading

While a node is read, what its script foresees comes about.  A chronicle notes something of the events
and something of the calls that are kept; what it notes of a node follows from the script of the node
(`Chronicle.of`), and tells how the state changes when the node is read (`Chronicle.tells_reading`).

There is one lemma for each form of node, and an induction on the size of the tree.
-/

namespace TaintFlow.Java

open TaintFlow.Code TaintFlow.Types

/-- The readings of what is smaller than a node. -/
abbrev readings (S : Source) (t : Tree) : Readings t :=
  fun c => reading S c.1

theorem reading_asExpr (S : Source) (t : Tree) :
    (reading S t).asExpr = readExpr S t (readings S t) := by
  rw [reading]

theorem reading_asStmt (S : Source) (t : Tree) :
    (reading S t).asStmt = readStmt S t (readings S t) := by
  rw [reading]

theorem reading_asBlock (S : Source) (t : Tree) :
    (reading S t).asBlock = readBlock S t (readings S t) := by
  rw [reading]

/-- A node that is there is read from where the step starts to where it ends. -/
theorem rel_of_run_expr? {S : Source} {t : Tree} {c : Option (Subtree t)} {s s' : State}
    {e : Option Expr} (hrun : ((readings S t).expr? c).run s = .ok (e, s')) :
    Option.Rel (fun v e => (reading S v).asExpr.run s = .ok (e, s')) (Subtree.node? c) e := by
  cases c with
  | none =>
    cases hrun
    exact .none
  | some c =>
    obtain ⟨e', s₁, hread, hreturn⟩ := Read.run_bind_eq_ok.1 hrun
    cases hreturn
    exact .some hread

/-- Whether the nodes of a form are calls. -/
def ExprForm.isCall : ExprForm → Bool
  | .creation | .invocation => true
  | _ => false

/-- What is noted of events and calls, and how it tells one state from another. -/
structure Chronicle (S : Source) (α : Type) where
  event : Event → List α
  /-- What is noted of a call when it is kept. -/
  call : Tree → List α
  Leads : State → List α → State → Prop
  nil (s : State) : Leads s [] s
  append {s s₁ s₂ : State} {xs ys : List α} : Leads s xs s₁ → Leads s₁ ys s₂ → Leads s (xs ++ ys) s₂
  opening (s : State) : Leads s (event .opening) s.pushScope
  closing (s : State) : Leads s (event .closing) s.popScope
  declaration {kind : VariableKind} {name : Tree} {b : Binding} (s : State) :
    VariableAt S kind name b → Leads s (event (.declaration kind name none)) (s.addVariable b)
  /-- A local variable is declared right after its value was read. -/
  introduction {value : Tree} {e : Expr} {s₀ s : State} (name : Tree) (type : Option String) :
    (reading S value).asExpr.run s₀ = .ok (e, s) →
      Leads s (event (.declaration .localVar name (some value)) ++
        event (.initialization .localVar name value)) (s.introduce S name type (some e))
  addCall {t : Tree} {e : Expr} (s : State) : S.Reads t e → e.isCall = true →
    e.origin = S.origin t → Leads s (call t) (s.addCall e)

namespace Chronicle

variable {S : Source} {α : Type} (M : Chronicle S α)

/-! ### What is noted of a script -/

/-- What is noted of a node itself. -/
def own (t : Tree) : Mode → List α
  | .expr => if (ExprForm.ofType t.type).isCall then M.call t else []
  | .stmt | .block => []

/-- What is noted of a node. -/
def of (t : Tree) (mode : Mode) : List α :=
  ((t.script mode).flatMap fun
    | .event e => M.event e
    | .visit mode c => of c.1 mode) ++ M.own t mode
termination_by t.size
decreasing_by exact c.2

variable {t : Tree}

/-- What is noted of an item of a script. -/
def note : Item t → List α
  | .event e => M.event e
  | .visit mode c => M.of c.1 mode

/-- What is noted of items. -/
def notes (items : List (Item t)) : List α :=
  items.flatMap M.note

theorem of_eq (t : Tree) (mode : Mode) : M.of t mode = M.notes (t.script mode) ++ M.own t mode := by
  rw [of]
  refine congrArg (· ++ _) (List.flatMap_congr fun item _ => ?_)
  cases item <;> rfl

theorem notes_append (items items' : List (Item t)) :
    M.notes (items ++ items') = M.notes items ++ M.notes items' :=
  List.flatMap_append

theorem notes_flatMap {β : Type} (l : List β) (f : β → List (Item t)) :
    M.notes (l.flatMap f) = l.flatMap fun x => M.notes (f x) :=
  List.flatMap_assoc

theorem notes_map_visit (mode : Mode) (cs : List (Subtree t)) :
    M.notes (cs.map (.visit mode)) = cs.flatMap fun c => M.of c.1 mode :=
  List.flatMap_map ..

theorem notes_exprs (cs : List (Subtree t)) :
    M.notes (Item.exprs cs) = cs.flatMap fun c => M.of c.1 .expr :=
  M.notes_map_visit .expr cs

theorem notes_visit (mode : Mode) (c : Subtree t) : M.notes [.visit mode c] = M.of c.1 mode :=
  List.append_nil _

theorem notes_scope (items : List (Item t)) :
    M.notes (Item.scope items) = M.event .opening ++ (M.notes items ++ M.event .closing) := by
  rw [notes, Item.scope, List.flatMap_cons, List.flatMap_append]
  exact congrArg (fun l => M.event .opening ++ (M.notes items ++ l)) (List.append_nil _)

theorem notes_introduce (name : Tree) (value : Option Tree) :
    M.notes (Item.introduce (some name) value : List (Item t)) =
      M.event (.declaration .localVar name value) ++
        value.toList.flatMap fun v => M.event (.initialization .localVar name v) := by
  cases value <;> simp [notes, note, Item.introduce]

/-! ### Steps -/

/-- From every state, what is noted of the step leads where it ends, and its answer has the property. -/
def Follows {β : Type} (xs : List α) (step : Read β) (Q : β → Prop) : Prop :=
  ∀ s a s', step.run s = .ok (a, s') → Q a ∧ M.Leads s xs s'

namespace Follows

variable {M} {β γ : Type} {xs ys : List α} {Q : β → Prop} {Q' : γ → Prop}

theorem pure {a : β} (ha : Q a) : M.Follows [] (Pure.pure a : Read β) Q := by
  intro s b s' hrun
  cases hrun
  exact ⟨ha, M.nil s⟩

theorem get : M.Follows [] (MonadState.get : Read State) fun _ => True := by
  intro s b s' hrun
  cases hrun
  exact ⟨trivial, M.nil s⟩

theorem fault (f : Fault) : M.Follows xs (Read.fault f : Read β) Q := by
  intro s b s' hrun
  cases hrun

theorem require (a : Option β) : M.Follows [] (Read.require a) fun x => a = some x := by
  cases a with
  | none => exact fault _
  | some a => exact pure rfl

theorem modify {f : State → State} (h : ∀ s, M.Leads s xs (f s)) :
    M.Follows xs (modifyThe State f : Read PUnit) fun _ => True := by
  intro s b s' hrun
  cases hrun
  exact ⟨trivial, h s⟩

theorem bind {step : Read β} {next : β → Read γ} (h : M.Follows xs step Q)
    (hnext : ∀ a, Q a → M.Follows ys (next a) Q') : M.Follows (xs ++ ys) (step >>= next) Q' := by
  intro s b s' hrun
  obtain ⟨a, s₁, hstep, hrest⟩ := Read.run_bind_eq_ok.1 hrun
  obtain ⟨ha, hs₁⟩ := h s a s₁ hstep
  obtain ⟨hb, hs'⟩ := hnext a ha s₁ b s' hrest
  exact ⟨hb, M.append hs₁ hs'⟩

/-- Nothing is noted of the first step. -/
theorem first {step : Read β} {next : β → Read γ} (h : M.Follows [] step Q)
    (hnext : ∀ a, Q a → M.Follows xs (next a) Q') : M.Follows xs (step >>= next) Q' :=
  h.bind hnext

/-- Nothing is noted after the first step. -/
theorem last {step : Read β} {next : β → Read γ} (h : M.Follows xs step Q)
    (hnext : ∀ a, Q a → M.Follows [] (next a) Q') : M.Follows xs (step >>= next) Q' := by
  have hbind := h.bind hnext
  rwa [List.append_nil] at hbind

theorem mono {step : Read β} {Q' : β → Prop} (h : M.Follows xs step Q) (hQ : ∀ a, Q a → Q' a) :
    M.Follows xs step Q' := by
  intro s a s' hrun
  obtain ⟨ha, hleads⟩ := h s a s' hrun
  exact ⟨hQ a ha, hleads⟩

theorem mapM_forall₂ {l : List γ} {f : γ → Read β} {xs : γ → List α} {Q : γ → β → Prop}
    (h : ∀ x ∈ l, M.Follows (xs x) (f x) (Q x)) :
    M.Follows (l.flatMap xs) (l.mapM f) (List.Forall₂ Q l) := by
  induction l with
  | nil => exact pure .nil
  | cons x l ih =>
    obtain ⟨hx, hl⟩ := List.forall_mem_cons.1 h
    rw [List.mapM_cons, List.flatMap_cons]
    exact hx.bind fun _ ha => (ih hl).last fun _ has => pure (.cons ha has)

theorem mapM {l : List γ} {f : γ → Read β} {xs : γ → List α}
    (h : ∀ x ∈ l, M.Follows (xs x) (f x) fun _ => True) :
    M.Follows (l.flatMap xs) (l.mapM f) fun _ => True :=
  (mapM_forall₂ h).mono fun _ _ => trivial

theorem forM {l : List γ} {f : γ → Read PUnit} {xs : γ → List α}
    (h : ∀ x ∈ l, M.Follows (xs x) (f x) fun _ => True) :
    M.Follows (l.flatMap xs) (l.forM f) fun _ => True := by
  induction l with
  | nil => exact pure trivial
  | cons x l ih =>
    obtain ⟨hx, hl⟩ := List.forall_mem_cons.1 h
    rw [List.flatMap_cons]
    exact hx.bind fun _ _ => ih hl

theorem inScope {step : Read β} (h : M.Follows xs step Q) :
    M.Follows (M.event .opening ++ (xs ++ M.event .closing)) (Read.inScope step) Q :=
  (modify M.opening).bind fun _ _ => h.bind fun _ ha => (modify M.closing).last fun _ _ => pure ha

theorem declare (kind : VariableKind) (type : Option String) (node : Tree) (index : Int) :
    M.Follows (M.event (.declaration kind node none))
      (Java.declare S (S.text node) kind type node index) (VariableAt S kind node) := by
  intro s b s' hrun
  rw [run_declare] at hrun
  cases hrun
  have hb : VariableAt S kind node (newVariable S s (S.text node) kind type node index) :=
    ⟨s, type, index, rfl⟩
  exact ⟨hb, M.declaration s hb⟩

end Follows

/-- The step keeps its answer at last, which is a call with the given origin. -/
def Concludes (origin : Origin) (xs : List α) (step : Read Expr) : Prop :=
  ∀ s e s', step.run s = .ok (e, s') → e.isCall = true ∧ e.origin = origin ∧
    ∃ s₁, M.Leads s xs s₁ ∧ s' = s₁.addCall e

namespace Concludes

variable {M} {β : Type} {origin : Origin} {xs ys : List α} {Q : β → Prop}

theorem addCall {e : Expr} (he : e.isCall = true) (horigin : e.origin = origin) :
    M.Concludes origin [] (do modify (·.addCall e); return e) := by
  intro s a s' hrun
  cases hrun
  exact ⟨he, horigin, s, M.nil s, rfl⟩

theorem bind {step : Read β} {next : β → Read Expr} (h : M.Follows xs step Q)
    (hnext : ∀ a, M.Concludes origin ys (next a)) : M.Concludes origin (xs ++ ys) (step >>= next) := by
  intro s e s' hrun
  obtain ⟨a, s₁, hstep, hrest⟩ := Read.run_bind_eq_ok.1 hrun
  obtain ⟨he, horigin, s₂, hs₂, hs'⟩ := hnext a s₁ e s' hrest
  exact ⟨he, horigin, s₂, M.append (h s a s₁ hstep).2 hs₂, hs'⟩

theorem last {step : Read β} {next : β → Read Expr} (h : M.Follows xs step Q)
    (hnext : ∀ a, M.Concludes origin [] (next a)) : M.Concludes origin xs (step >>= next) := by
  have hbind := bind h hnext
  rwa [List.append_nil] at hbind

/-- A node that is read so is a call. -/
theorem follows {t : Tree} {step : Read Expr} (h : M.Concludes (S.origin t) xs step)
    (hread : (reading S t).asExpr = step) : M.Follows (xs ++ M.call t) step fun _ => True := by
  intro s e s' hrun
  obtain ⟨he, horigin, s₁, hs₁, rfl⟩ := h s e s' hrun
  exact ⟨trivial, M.append hs₁ (M.addCall s₁ ⟨s, _, hread ▸ hrun⟩ he horigin)⟩

end Concludes

/-- What is noted of a node tells of all its readings. -/
structure Tells (t : Tree) : Prop where
  expr : M.Follows (M.of t .expr) (reading S t).asExpr fun _ => True
  stmt : M.Follows (M.of t .stmt) (reading S t).asStmt fun _ => True
  block : M.Follows (M.of t .block) (reading S t).asBlock fun _ => True

end Chronicle

/-- Reads an assignment. -/
def readAssignment (S : Source) (t : Tree) (read : Readings t) : Read Expr := do
  let left ← read.expr? (t.child? "left")
  let right ← read.expr? (t.child? "right")
  modify (·.assign (S.textOf (t.child? "operator")) left right)
  return Expr.assignment (S.origin t) (S.textOf (t.child? "operator")) left right

/-- Reads the body of a try statement, after its resources. -/
def readGuarded (S : Source) (t : Tree) (read : Readings t) : Read (Option Stmt) :=
  Read.inScope do
    match t.child? "resources" with
    | none => pure ()
    | some rs => (rs.1.content.map rs.trans).forM (readResource S t read)
    read.block? (t.child? "body")

namespace Chronicle

section

variable {S : Source} {α : Type} {M : Chronicle S α} {t : Tree} (h : ∀ c : Subtree t, M.Tells c.1)

include h

/-! ### Parts of a node -/

theorem follows_expr (c : Subtree t) :
    M.Follows (M.of c.1 .expr) (reading S c.1).asExpr (S.Reads c.1) := by
  intro s e s' hrun
  exact ⟨⟨s, s', hrun⟩, ((h c).expr s e s' hrun).2⟩

theorem follows_singleton (c : Subtree t) :
    M.Follows (M.notes (Item.exprs [c])) (reading S c.1).asExpr (S.Reads c.1) := by
  rw [notes_exprs, List.flatMap_singleton]
  exact follows_expr h c

/-- Reads a node below a child as an expression, if it is there. -/
theorem follows_under_expr? (d : Subtree t) (c : Option (Subtree d.1)) :
    M.Follows (M.notes (Item.exprs (c.map d.trans).toList))
      (((readings S t).under d).expr? c) (Option.Rel S.Reads (Subtree.node? c)) := by
  cases c with
  | none => exact .pure .none
  | some c =>
    exact (follows_singleton h (d.trans c)).last fun e he => .pure (.some he)

theorem follows_expr? (c : Option (Subtree t)) :
    M.Follows (M.notes (Item.exprs c.toList)) ((readings S t).expr? c)
      (Option.Rel S.Reads (Subtree.node? c)) := by
  cases c with
  | none => exact .pure .none
  | some c =>
    exact (follows_singleton h c).last fun e he => .pure (.some he)

theorem follows_stmt? (c : Option (Subtree t)) :
    M.Follows (M.notes (c.toList.map (.visit .stmt))) ((readings S t).stmt? c)
      fun _ => True := by
  cases c with
  | none => exact .pure trivial
  | some c =>
    exact M.notes_visit .stmt c ▸ (h c).stmt

theorem follows_under_block? (d : Subtree t) (c : Option (Subtree d.1)) :
    M.Follows (M.notes (c.toList.map fun b => .visit .block (d.trans b)))
      (((readings S t).under d).block? c) fun _ => True := by
  cases c with
  | none => exact .pure trivial
  | some c =>
    exact M.notes_visit .block (d.trans c) ▸ (h (d.trans c)).block.last fun _ _ => .pure trivial

theorem follows_block? (c : Option (Subtree t)) :
    M.Follows (M.notes (c.toList.map (.visit .block))) ((readings S t).block? c)
      fun _ => True := by
  cases c with
  | none => exact .pure trivial
  | some c =>
    exact M.notes_visit .block c ▸ (h c).block.last fun _ _ => .pure trivial

theorem follows_exprs (cs : List (Subtree t)) :
    M.Follows (M.notes (Item.exprs cs)) ((readings S t).exprs cs) fun _ => True := by
  rw [notes_exprs]
  exact .mapM fun c _ => (h c).expr

theorem follows_contentOf (field : String) :
    M.Follows (M.notes (Item.exprs (t.contentIn field)))
      ((readings S t).contentOf (t.child? field)) fun _ => True := by
  unfold Tree.contentIn
  cases t.child? field with
  | none => exact .pure trivial
  | some c => exact follows_exprs h _

/-! ### Expressions -/

theorem follows_readFieldAccess :
    M.Follows (M.notes (Item.exprs t.object?.toList)) (readFieldAccess S t (readings S t))
      fun _ => True := by
  unfold readFieldAccess readFieldAccess.ownerOf Tree.object?
  refine .last (Q := fun _ => True) ?_ fun _ _ => .first .get fun _ _ => .pure trivial
  cases t.child? "object" with
  | none => exact .first .get fun _ _ => .pure trivial
  | some o =>
    rw [Option.filter_some]
    dsimp only
    cases o.1.type == "this" || o.1.type == "super" with
    | true => exact .first .get fun _ _ => .pure trivial
    | false =>
      exact (follows_singleton h o).last fun _ _ => .first .get fun _ _ => .pure trivial

theorem concludes_readInvocation :
    M.Concludes (S.origin t) (M.notes (Item.exprs (t.object?.toList ++ t.contentIn "arguments")))
      (readInvocation S t (readings S t)) := by
  have hreceiver : M.Follows (M.notes (Item.exprs t.object?.toList))
      (readInvocation.receiverOf S t (readings S t) (t.child? "object")) fun _ => True := by
    unfold readInvocation.receiverOf Tree.object?
    refine .first .get fun _ _ => ?_
    cases t.child? "object" with
    | none => exact .pure trivial
    | some o =>
      rw [Option.filter_some]
      dsimp only
      cases o.1.type == "this" with
      | true => exact .pure trivial
      | false =>
        cases o.1.type == "super" with
        | true => exact .pure trivial
        | false =>
          exact (follows_singleton h o).last fun _ _ => .first .get fun _ _ => .pure trivial
  unfold readInvocation
  rw [Item.exprs_append, notes_append]
  refine .bind hreceiver fun _ => .last (follows_contentOf h "arguments") fun _ => ?_
  exact .bind .get fun _ => .addCall rfl rfl

theorem concludes_readCreation :
    M.Concludes (S.origin t) (M.notes (Item.exprs (t.outerObject?.toList ++ t.contentIn "arguments")))
      (readCreation S t (readings S t)) := by
  have hrest : M.Concludes (S.origin t) (M.notes (Item.exprs (t.contentIn "arguments"))) (do
      let s ← get
      let type := (s.resolveType (S.textOf (t.child? "type"))).getD ""
      let arguments ← (readings S t).contentOf (t.child? "arguments")
      let call := Expr.creation (S.origin t) type arguments
      modify (·.addCall call)
      return call) :=
    .bind .get fun _ => .last (follows_contentOf h "arguments") fun _ => .addCall rfl rfl
  unfold readCreation Tree.outerObject?
  cases t.firstContent? with
  | none => exact hrest
  | some o =>
    rw [Option.filter_some]
    dsimp only
    cases !o.1.isClosed && !t.firstContentIs "type" && decide (o.1.type ≠ "argument_list") with
    | true =>
      rw [if_pos rfl, Item.exprs_append, notes_append]
      exact .bind (follows_singleton h o) fun _ => hrest
    | false => exact hrest

theorem follows_readArrayCreation :
    M.Follows (M.notes (Item.exprs
        (if (t.child? "value").isSome then t.contentIn "value" else t.childrenIn "dimensions")))
      (readArrayCreation S t (readings S t)) fun _ => True := by
  have hcontent := follows_contentOf h "value"
  unfold readArrayCreation
  refine .first .get fun _ _ => ?_
  cases hvalue : t.child? "value" with
  | none => exact (follows_exprs h _).last fun _ _ => .pure trivial
  | some v =>
    rw [hvalue] at hcontent
    exact hcontent.last fun _ _ => .pure trivial

theorem follows_readLambda :
    M.Follows (M.notes t.lambdaScript) (readLambda S t (readings S t)) fun _ => True := by
  rw [Tree.lambdaScript, notes_scope, notes_append]
  unfold readLambda
  refine .last (.inScope (Q := fun _ => True) (.bind (Q := fun _ => True) ?_ fun _ _ => ?_))
    fun _ _ => .pure trivial
  · rw [notes, List.flatMap_map]
    exact .forM fun n _ => .last (.declare _ _ n _) fun _ _ => .pure trivial
  · cases t.child? "body" with
    | none => exact .pure trivial
    | some b =>
      dsimp only
      rw [Option.toList_some, List.map_singleton, notes_visit]
      split
      · exact (h b).block.last fun _ _ => .pure trivial
      · exact (h b).expr.last fun _ _ => .pure trivial

section

variable (hassignment : M.Follows
  (M.notes (Item.exprs ((t.child? "left").toList ++ (t.child? "right").toList)
    ++ [.event (.assignment t)])) (readAssignment S t (readings S t)) fun _ => True)

include hassignment

theorem follows_readExpr_of_not_isCall (hcall : (ExprForm.ofType t.type).isCall = false) :
    M.Follows (M.notes t.exprScript) (readExpr S t (readings S t)) fun _ => True := by
  have hexpr := follows_expr? h
  unfold Tree.exprScript Tree.operands readExpr
  generalize ExprForm.ofType t.type = form at hcall ⊢
  cases form with
  | literal kind => exact .pure trivial
  | identifier => exact .first .get fun _ _ => .pure trivial
  | parenthesized | update => exact (hexpr _).last fun _ _ => .pure trivial
  | binary =>
    dsimp only
    rw [Item.exprs_append, notes_append]
    exact (hexpr _).bind fun _ _ => (hexpr _).last fun _ _ => .pure trivial
  | unary => exact (hexpr _).last fun _ _ => .pure trivial
  | ternary =>
    dsimp only
    rw [List.append_assoc, Item.exprs_append, Item.exprs_append, notes_append, notes_append]
    refine (hexpr _).bind fun _ _ => (hexpr _).bind fun _ _ => ?_
    exact (hexpr _).last fun _ _ => .pure trivial
  | assignment => exact hassignment
  | cast => exact .first .get fun _ _ => (hexpr _).last fun _ _ => .pure trivial
  | arrayCreation => exact follows_readArrayCreation h
  | arrayInitializer => exact (follows_exprs h _).last fun _ _ => .pure trivial
  | fieldAccess => exact follows_readFieldAccess h
  | lambda => exact follows_readLambda h
  | other =>
    dsimp only
    cases t.isClosed with
    | true => exact .pure trivial
    | false => exact (follows_exprs h _).last fun _ _ => .pure trivial
  | creation | invocation => cases hcall

theorem follows_readExpr : M.Follows (M.of t .expr) (readExpr S t (readings S t)) fun _ => True := by
  rw [of_eq, own]
  cases hcall : (ExprForm.ofType t.type).isCall with
  | false =>
    rw [if_neg Bool.false_ne_true, List.append_nil]
    exact follows_readExpr_of_not_isCall h hassignment hcall
  | true =>
    have hread := reading_asExpr S t
    unfold Tree.script Tree.exprScript Tree.operands
    unfold readExpr at hread ⊢
    generalize ExprForm.ofType t.type = form at hcall hread ⊢
    cases form with
    | creation => exact (concludes_readCreation h).follows hread
    | invocation => exact (concludes_readInvocation h).follows hread
    | _ => cases hcall

end

/-! ### Statements -/

theorem follows_readBlock :
    M.Follows (M.notes t.blockScript) (readBlock S t (readings S t)) fun _ => True := by
  rw [Tree.blockScript, notes_scope, notes_map_visit]
  exact .last (.inScope (.mapM fun c _ => (h c).stmt)) fun _ _ => .pure trivial

omit h in
/-- A value is read, if there is one, and then a local variable is declared with it. -/
theorem follows_introduce {β : Type} {xs : List α} {value : Option Tree} {read : Read (Option Expr)}
    {Q : Option Expr → Prop} (hread : M.Follows xs read Q)
    (hvalue : ∀ {s e s'}, read.run s = .ok (e, s') →
      Option.Rel (fun v e => (reading S v).asExpr.run s = .ok (e, s')) value e)
    (name : Tree) {next : Option Expr → Read β}
    (hnext : ∀ e s a s', (next e).run s = .ok (a, s') → ∃ type, s' = s.introduce S name type e) :
    M.Follows (xs ++ M.notes (Item.introduce (some name) value : List (Item t))) (read >>= next)
      fun _ => True := by
  intro s a s' hrun
  obtain ⟨e, s₁, hstep, hrest⟩ := Read.run_bind_eq_ok.1 hrun
  obtain ⟨type, rfl⟩ := hnext e s₁ a s' hrest
  rw [notes_introduce]
  refine ⟨trivial, M.append (hread s e s₁ hstep).2 ?_⟩
  cases hvalue hstep with
  | none =>
    rw [Option.toList_none, List.flatMap_nil, List.append_nil]
    exact M.declaration s₁ ⟨s₁, type, -1, rfl⟩
  | some hexpr =>
    rw [Option.toList_some, List.flatMap_singleton]
    exact M.introduction name type hexpr

theorem follows_readDeclaration :
    M.Follows (M.notes t.declarationScript) (readDeclaration S t (readings S t))
      fun _ => True := by
  rw [Tree.declarationScript, notes_flatMap]
  refine .first .get fun _ _ => .last (.mapM fun d _ => ?_) fun _ _ => .pure trivial
  rw [Tree.declaratorScript, notes_append]
  have hvalue := follows_under_expr? h d (d.1.child? "value")
  unfold readDeclarator
  cases d.1.child? "name" with
  | none =>
    refine hvalue.bind fun _ _ => .first (.require none) fun n hn => ?_
    cases hn
  | some n =>
    refine follows_introduce hvalue (rel_of_run_expr? (t := d.1)) n.1 fun e s a s' hrun => ?_
    cases hrun
    exact ⟨_, rfl⟩

theorem follows_readLoopHead (kind : Kind) :
    M.Follows (M.notes (t.loopHeadScript kind)) (readLoopHead S t (readings S t) kind)
      fun _ => True := by
  have hexpr := follows_expr? h
  unfold Tree.loopHeadScript
  split
  · rw [notes_append, readLoopHead]
    cases t.child? "name" with
    | none => exact (hexpr _).bind fun _ _ => .pure trivial
    | some n =>
      refine follows_introduce (hexpr _) rel_of_run_expr? n.1 fun e s a s' hrun => ?_
      cases hrun
      exact ⟨_, rfl⟩
  · rw [Item.exprs_append, notes_append, notes_append, readLoopHead]
    refine .bind (Q := fun _ => True) ?_ fun _ _ => (hexpr _).bind fun _ _ => ?_
    · rw [notes, List.flatMap_map]
      refine .forM fun c _ => ?_
      rw [note]
      split
      · rename_i hdeclaration
        have hstmt : M.of c.1 .stmt = M.notes c.1.declarationScript := by
          rw [of_eq, Tree.script, Tree.stmtScript, beq_iff_eq.1 hdeclaration]
          exact List.append_nil _
        rw [hstmt]
        exact (follows_readDeclaration fun d => h (c.trans d)).last fun _ _ => .pure trivial
      · exact (h c).expr.last fun _ _ => .pure trivial
    · exact (follows_exprs h _).last fun _ _ => .pure trivial
  · rename_i hforEach hfor
    unfold readLoopHead
    split
    · exact (hforEach rfl).elim
    · exact (hfor rfl).elim
    · exact (hexpr _).last fun _ _ => .pure trivial

theorem follows_readLoop (kind : Kind) :
    M.Follows (M.notes (t.loopScript kind)) (readLoop S t (readings S t) kind)
      fun _ => True := by
  rw [Tree.loopScript, notes_scope, notes_append]
  refine .last (.inScope (Q := fun _ => True) ?_) fun _ _ => .pure trivial
  exact (follows_readLoopHead h kind).bind fun _ _ => follows_stmt? h _

theorem follows_readResource (c : Subtree t) :
    M.Follows (M.notes (Tree.resourceScript c)) (readResource S t (readings S t) c)
      fun _ => True := by
  unfold Tree.resourceScript readResource
  cases c.1.child? "name" with
  | none => exact (follows_singleton h c).last fun _ _ => .pure trivial
  | some n =>
    dsimp only
    rw [notes_append]
    refine follows_introduce (follows_under_expr? h c _) (rel_of_run_expr? (t := c.1)) n.1
      fun e s a s' hrun => ?_
    cases hrun
    exact ⟨_, rfl⟩

theorem follows_readCatch (c : Subtree t) :
    M.Follows (M.notes (Tree.catchScript c)) (readCatch S t (readings S t) c)
      fun _ => True := by
  have hbody := follows_under_block? h c (c.1.child? "body")
  rw [Tree.catchScript, notes_scope, notes_append]
  refine .inScope ?_
  unfold Tree.caught?
  cases c.1.contentOf? ["catch_formal_parameter"] with
  | none => exact hbody
  | some p =>
    rw [Option.bind_some]
    dsimp only
    cases p.1.child? "name" with
    | none => exact hbody
    | some n =>
      have hname : Subtree.node? (some n) = some n.1 := rfl
      rw [hname, notes_introduce, Option.toList_none, List.flatMap_nil, List.append_nil]
      exact .first .get fun _ _ => .bind (.declare _ _ n.1 _) fun _ _ => hbody

theorem follows_readClauses (cs : List (Subtree t)) (handlers : List Stmt)
    (finalizer : Option Stmt) :
    M.Follows (M.notes (cs.flatMap Tree.clauseScript))
      (readClauses S t (readings S t) cs handlers finalizer) fun _ => True := by
  induction cs generalizing handlers finalizer with
  | nil => exact .pure trivial
  | cons c cs ih =>
    rw [List.flatMap_cons, notes_append, Tree.clauseScript]
    unfold readClauses
    split
    · exact (follows_readCatch h c).bind fun _ _ => ih _ _
    · split
      · exact (follows_under_block? h c _).bind fun _ _ => ih _ _
      · exact ih _ _

theorem follows_readGuarded :
    M.Follows (M.notes t.guardedScript) (readGuarded S t (readings S t)) fun _ => True := by
  rw [Tree.guardedScript, notes_scope, notes_append, notes_flatMap]
  have hbody := follows_block? h (t.child? "body")
  refine .inScope ?_
  unfold Tree.contentIn
  cases t.child? "resources" with
  | none => exact hbody
  | some rs => exact .bind (.forM fun c _ => follows_readResource h c) fun _ _ => hbody

theorem follows_readTry :
    M.Follows (M.notes (t.guardedScript ++ t.content.flatMap Tree.clauseScript))
      (readTry S t (readings S t)) fun _ => True := by
  rw [notes_append]
  refine (follows_readGuarded h).bind fun _ _ => ?_
  exact (follows_readClauses h t.content [] none).last fun _ _ => .pure trivial

theorem follows_readSwitchItem (group : Tree) (c : Subtree t) :
    M.Follows (M.notes (Tree.switchItemScript group c)) (readSwitchItem t (readings S t) group c)
      fun _ => True := by
  unfold Tree.switchItemScript readSwitchItem
  split
  · exact .pure trivial
  · split
    · exact (follows_singleton h c).last fun _ _ => .pure trivial
    · exact M.notes_visit .stmt c ▸ (h c).stmt

theorem follows_readSwitch :
    M.Follows (M.notes t.switchScript) (readSwitch S t (readings S t)) fun _ => True := by
  rw [Tree.switchScript, notes_append, notes_scope, notes_flatMap]
  refine (follows_expr? h _).bind fun _ _ => .last (.inScope (Q := fun _ => True) ?_)
    fun _ _ => .pure trivial
  unfold Tree.contentIn
  cases t.child? "body" with
  | none => exact .pure trivial
  | some body =>
    refine .last (.mapM fun g _ => ?_) fun _ _ => .pure trivial
    rw [notes_flatMap]
    exact .mapM fun c _ => follows_readSwitchItem h g.1 c

theorem follows_readStmt :
    M.Follows (M.notes t.stmtScript) (readStmt S t (readings S t)) fun _ => True := by
  have hexpr := follows_expr? h
  unfold Tree.stmtScript readStmt
  generalize StmtForm.ofType t.type = form
  cases form with
  | comment | localType => exact .pure trivial
  | block => exact (follows_readBlock h).last fun _ _ => .pure trivial
  | expression | ret => exact (hexpr _).last fun _ _ => .pure trivial
  | declaration => exact (follows_readDeclaration h).last fun _ _ => .pure trivial
  | branch =>
    dsimp only
    rw [List.map_append, notes_append, notes_append]
    refine (hexpr _).bind fun _ _ => (follows_stmt? h _).bind fun _ _ => ?_
    exact (follows_stmt? h _).last fun _ _ => .pure trivial
  | loop kind => exact (follows_readLoop h kind).last fun _ _ => .pure trivial
  | guarded => exact (follows_readTry h).last fun _ _ => .pure trivial
  | switch => exact (follows_readSwitch h).last fun _ _ => .pure trivial
  | synchronized =>
    have hbody := follows_block? h (t.child? "body")
    dsimp only
    cases t.firstContent? with
    | none => exact hbody
    | some lock =>
      rw [Option.filter_some]
      dsimp only
      cases lock.1.type == "parenthesized_expression" with
      | true =>
        rw [if_pos rfl, notes_append]
        exact (follows_singleton h lock).bind fun _ _ => hbody
      | false => exact hbody
  | labeled =>
    dsimp only
    cases t.content.getLast? with
    | none => exact .fault _
    | some last => exact follows_stmt? h (some last)
  | other => exact (follows_exprs h _).last fun _ _ => .pure trivial

end

/-- **What is noted of a node** tells what happens whenever it is read, if this is so for assignments. -/
theorem tells_reading {S : Source} {α : Type} {M : Chronicle S α}
    (hassignment : ∀ t : Tree, (∀ c : Subtree t, M.Tells c.1) → M.Follows
      (M.notes (Item.exprs ((t.child? "left").toList ++ (t.child? "right").toList)
        ++ [.event (.assignment t)])) (readAssignment S t (readings S t)) fun _ => True) (t : Tree) :
    M.Tells t := by
  induction hsize : t.size using Nat.strongRecOn generalizing t with
  | ind n ih =>
    have h : ∀ c : Subtree t, M.Tells c.1 := fun c => ih c.1.size (hsize ▸ c.2) c.1 rfl
    refine ⟨?_, ?_, ?_⟩
    · rw [reading_asExpr]
      exact follows_readExpr h (hassignment t h)
    · rw [of_eq, own, List.append_nil, reading_asStmt]
      exact follows_readStmt h
    · rw [of_eq, own, List.append_nil, reading_asBlock]
      exact follows_readBlock h

/-! ### Methods -/

theorem follows_declareParameters {S : Source} {α : Type} (M : Chronicle S α) (index : Nat)
    (ps : List Parameter) :
    M.Follows ((ps.filterMap (·.name)).flatMap fun n => M.event (.declaration .parameter n none))
      (declareParameters S index ps) fun _ => True := by
  induction ps generalizing index with
  | nil => exact .pure trivial
  | cons p ps ih =>
    unfold declareParameters
    cases hname : p.name with
    | none =>
      rw [List.filterMap_cons_none hname]
      exact ih _
    | some n =>
      rw [List.filterMap_cons_some hname, List.flatMap_cons]
      exact .bind (.declare _ _ n _) fun _ _ => ih _

theorem follows_methodBody {S : Source} {α : Type} {M : Chronicle S α} (h : ∀ t : Tree, M.Tells t)
    (ps : List Parameter) (m : Tree) :
    M.Follows (M.event .opening ++
        ((ps.filterMap (·.name)).flatMap (fun n => M.event (.declaration .parameter n none))
          ++ (m.child? "body").toList.flatMap (fun b => M.of b.1 .block) ++ M.event .closing))
      (methodBody S ps m) fun _ => True := by
  refine .inScope ((M.follows_declareParameters 0 ps).bind fun _ _ => ?_)
  cases m.child? "body" with
  | none => exact .pure trivial
  | some b =>
    rw [Option.toList_some, List.flatMap_singleton]
    exact (h b.1).block.last fun _ _ => .pure trivial

end Chronicle

end TaintFlow.Java
