import TaintFlow.Proofs.Java.Calls
import TaintFlow.Proofs.Java.Origins

/-!
# What a method returns

The return statements of a body are those that stand in places for statements, all the way down
(`Tree.returnNodes`); what stands in a lambda, in a class body or in a local type is in no such place.
Of a method that conforms to the grammar, all of them are found, in the order of the text
(`returns_found_in_order`).  The statements that a script visits are read in the order of the text.
-/

namespace TaintFlow.Java

open TaintFlow.Code TaintFlow.Types TaintFlow.Java.Read TaintFlow.Java.Tree

/-! ### Return statements -/

namespace Tree

/-- The return statements that stand in a node in places for statements. -/
def returnNodes (t : Tree) : List Tree :=
  if t.type == "return_statement" then [t]
  else (t.content.filter fun c => t.places c.1).flatMap fun c => returnNodes c.1
termination_by t.size
decreasing_by exact c.2

/-- The return statements that a child adds to those of a node. -/
def returnShare (t : Tree) (c : Subtree t) : List Tree :=
  if c.1.isContent && t.places c.1 then c.1.returnNodes else []

variable {t : Tree} {c : Subtree t}

theorem returnNodes_eq_flatMap (h : t.type ≠ "return_statement") :
    t.returnNodes = t.pieces.flatMap t.returnShare := by
  rw [returnNodes, if_neg (by simpa using h), content_eq_filter_pieces, List.filter_filter,
    flatMap_filter_ite]
  congr 1
  funext c
  rw [returnShare, Bool.and_comm]

/-- There are no places for statements in a node that holds none. -/
theorem returnNodes_of_not_mem (hcontainer : t.type ∉ containerTypes)
    (hreturn : t.type ≠ "return_statement") : t.returnNodes = [] := by
  rw [returnNodes_eq_flatMap hreturn, List.flatMap_eq_nil_iff]
  intro c _
  simp [returnShare, places, hcontainer]

/-- The nodes of the values that the statements return. -/
def returnValues (nodes : List Tree) : List Tree :=
  nodes.filterMap fun n => Subtree.node? n.firstContent?

end Tree

/-- Return statements are gathered from statements. -/
def returnGathering : Gathering Tree where
  of statement t := if statement then t.returnNodes else []
  inside statement t := if statement then t.pieces.flatMap t.returnShare else []
  share statement t c := if statement then t.returnShare c else []
  of_sealed h := by
    obtain ⟨hcontainer, hreturn⟩ := (by decide : ∀ type ∈ sealedTypes,
      type ∉ containerTypes ∧ type ≠ "return_statement") _ h
    rw [returnNodes_of_not_mem hcontainer hreturn, ite_self]
  of_empty _ h := by
    obtain ⟨hcontainer, hreturn⟩ := (by decide : ∀ type ∈ ";" :: leafTypes,
      type ∉ containerTypes ∧ type ≠ "return_statement") _ h
    rw [returnNodes_of_not_mem hcontainer hreturn, ite_self]
  of_part {statement t} h := by
    have hreturn := (by decide : ∀ type ∈ partTypes, type ≠ "return_statement") _ h
    cases statement <;> simp [returnNodes_eq_flatMap hreturn]
  inside_eq {statement t} _ := by cases statement <;> simp
  inside_creation _ _ := by simp
  share_of_not_content h := by simp [returnShare, h]
  share_of_visits {statement t c} _ hcontent _ := by cases statement <;> simp [returnShare, hcontent]
  share_of_skipped {statement t c} _ _ _ _ h := by
    cases statement with
    | false => rfl
    | true => simp_all [returnShare]

/-! ### Values of the statements that are read -/

/-- The expressions are what the values of the return statements are read as. -/
def Returned (S : Source) (nodes : List Tree) (es : List Expr) : Prop :=
  List.Forall₂ S.Reads (returnValues nodes) es

namespace Returned

variable {S : Source}

theorem nil : Returned S [] [] :=
  List.Forall₂.nil

theorem append {ns ns' : List Tree} {es es' : List Expr} (h : Returned S ns es)
    (h' : Returned S ns' es') : Returned S (ns ++ ns') (es ++ es') := by
  rw [Returned, returnValues, List.filterMap_append]
  exact List.rel_append h h'

theorem flatMap {α β : Type} {l : List α} {l' : List β} {f : α → List Tree} {g : β → List Expr}
    (h : List.Forall₂ (fun a b => Returned S (f a) (g b)) l l') :
    Returned S (l.flatMap f) (l'.flatMap g) := by
  induction h with
  | nil => exact nil
  | cons hab _ ih =>
    rw [List.flatMap_cons, List.flatMap_cons]
    exact hab.append ih

end Returned

theorem returnsAll_eq_flatMap (ss : List Stmt) : Stmt.returnsAll ss = ss.flatMap Stmt.returns := by
  induction ss with
  | nil => rfl
  | cons s ss ih => rw [Stmt.returnsAll, ih, List.flatMap_cons]

theorem returnsAll_append (ss ss' : List Stmt) :
    Stmt.returnsAll (ss ++ ss') = Stmt.returnsAll ss ++ Stmt.returnsAll ss' := by
  rw [returnsAll_eq_flatMap, returnsAll_eq_flatMap, returnsAll_eq_flatMap, List.flatMap_append]

theorem returnsAll_filterMap (rs : List (Option Stmt)) :
    Stmt.returnsAll (rs.filterMap id) = rs.flatMap Stmt.returnsOpt := by
  induction rs with
  | nil => rfl
  | cons r rs ih =>
    cases r with
    | none =>
      rw [List.filterMap_cons_none rfl, ih, List.flatMap_cons, Stmt.returnsOpt, List.nil_append]
    | some s =>
      have hcons : (some s :: rs).filterMap id = s :: rs.filterMap id := rfl
      rw [hcons, Stmt.returnsAll, ih, List.flatMap_cons, Stmt.returnsOpt]

theorem returnsAll_toList (r : Option Stmt) : Stmt.returnsAll r.toList = Stmt.returnsOpt r := by
  cases r with
  | none => rfl
  | some s => exact List.append_nil _

theorem Returned.statements {α : Type} {S : Source} {l : List α} {rs : List (Option Stmt)}
    {f : α → List Tree} (h : List.Forall₂ (fun a r => Returned S (f a) (Stmt.returnsOpt r)) l rs) :
    Returned S (l.flatMap f) (Stmt.returnsAll (rs.filterMap id)) := by
  rw [returnsAll_filterMap]
  exact .flatMap h

/-- What a node is read as returns what the return statements in it do. -/
def ReturnsFound (S : Source) (t : Tree) : Mode → Prop
  | .expr => True
  | .stmt => Yields (reading S t).asStmt fun r => Returned S t.returnNodes (Stmt.returnsOpt r)
  | .block => Yields (reading S t).asBlock fun b => Returned S t.returnNodes b.returns

/-- This is so for the nodes that items visit. -/
def Item.ReturnsFound (S : Source) {t : Tree} (items : List (Item t)) : Prop :=
  ∀ mode c, .visit mode c ∈ items → Java.ReturnsFound S c.1 mode

/-- The return statements in the nodes that items visit. -/
def Item.returns {t : Tree} (items : List (Item t)) : List Tree :=
  returnGathering.ofItems items

namespace Item.ReturnsFound

variable {S : Source} {t : Tree} {items items' : List (Item t)}

theorem left (h : Item.ReturnsFound S (items ++ items')) : Item.ReturnsFound S items :=
  fun mode c hc => h mode c (List.mem_append_left _ hc)

theorem right (h : Item.ReturnsFound S (items ++ items')) : Item.ReturnsFound S items' :=
  fun mode c hc => h mode c (List.mem_append_right _ hc)

theorem unscoped (h : Item.ReturnsFound S (Item.scope items)) : Item.ReturnsFound S items :=
  fun mode c hc => h mode c (List.mem_cons_of_mem _ (List.mem_append_left _ hc))

theorem of_flatMap {α : Type} {l : List α} {f : α → List (Item t)}
    (h : Item.ReturnsFound S (l.flatMap f)) {x : α} (hx : x ∈ l) : Item.ReturnsFound S (f x) :=
  fun mode c hc => h mode c (List.mem_flatMap.2 ⟨x, hx, hc⟩)

end Item.ReturnsFound

namespace Item

variable {t : Tree}

theorem returns_append (items items' : List (Item t)) :
    returns (items ++ items') = returns items ++ returns items' :=
  returnGathering.ofItems_append ..

theorem returns_flatMap {α : Type} (l : List α) (f : α → List (Item t)) :
    returns (l.flatMap f) = l.flatMap fun x => returns (f x) :=
  returnGathering.ofItems_flatMap ..

theorem returns_scope (items : List (Item t)) : returns (scope items) = returns items :=
  returnGathering.ofItems_scope _

theorem returns_introduce (name value : Option Tree) :
    returns (introduce name value : List (Item t)) = [] :=
  returnGathering.ofItems_introduce ..

theorem returns_visits (mode : Mode) (cs : List (Subtree t)) :
    returns (cs.map (.visit mode)) =
      cs.flatMap fun c => if mode.isStatement then c.1.returnNodes else [] :=
  returnGathering.ofItems_map_visit ..

theorem returns_visit (mode : Mode) (c : Subtree t) :
    returns [.visit mode c] = if mode.isStatement then c.1.returnNodes else [] :=
  (returns_visits mode [c]).trans (List.flatMap_singleton ..)

theorem returns_exprs (cs : List (Subtree t)) : returns (exprs cs) = [] :=
  (returns_visits .expr cs).trans (List.flatMap_eq_nil_iff.2 fun _ _ => rfl)

end Item

/-! ### Walking through the statements -/

section

variable {S : Source} {t : Tree}

theorem yields_stmt? {c : Option (Subtree t)}
    (h : Item.ReturnsFound S (c.toList.map (.visit .stmt))) :
    Yields ((readings S t).stmt? c) fun r =>
      Returned S (Item.returns (c.toList.map (.visit .stmt))) (Stmt.returnsOpt r) := by
  cases c with
  | none => exact .pure .nil
  | some c => exact Item.returns_visit .stmt c ▸ h .stmt c List.mem_cons_self

theorem yields_under_block? {d : Subtree t} {c : Option (Subtree d.1)}
    (h : Item.ReturnsFound S (c.toList.map fun b => .visit .block (d.trans b))) :
    Yields (((readings S t).under d).block? c) fun r =>
      Returned S (Item.returns (c.toList.map fun b => .visit .block (d.trans b)))
        (Stmt.returnsOpt r) := by
  cases c with
  | none => exact .pure .nil
  | some c =>
    have hblock := h .block (d.trans c) List.mem_cons_self
    exact .bind hblock fun _ hb => .pure (Item.returns_visit .block (d.trans c) ▸ hb)

theorem yields_block? {c : Option (Subtree t)}
    (h : Item.ReturnsFound S (c.toList.map (.visit .block))) :
    Yields ((readings S t).block? c) fun r =>
      Returned S (Item.returns (c.toList.map (.visit .block))) (Stmt.returnsOpt r) := by
  cases c with
  | none => exact .pure .nil
  | some c =>
    have hblock := h .block c List.mem_cons_self
    exact .bind hblock fun _ hb => .pure (Item.returns_visit .block c ▸ hb)

theorem yields_readBlock (h : Item.ReturnsFound S t.blockScript) :
    Yields (readBlock S t (readings S t)) fun b =>
      Returned S (Item.returns t.blockScript) b.returns := by
  rw [blockScript, Item.returns_scope, Item.returns_visits]
  refine .bind (.inScope (.mapM fun c hc => h.unscoped .stmt c (List.mem_map_of_mem hc)))
    fun rs hrs => .pure (.statements hrs)

/-- What stands before the body of a loop returns nothing. -/
theorem returns_loopHeadScript (kind : Kind) : Item.returns (t.loopHeadScript kind) = [] := by
  have hinit : Item.returns ((t.childrenIn "init").map fun c =>
      .visit (if c.1.type == "local_variable_declaration" then .stmt else .expr) c) = [] := by
    refine (returnGathering.ofItems_visits _ _ id).trans (List.flatMap_eq_nil_iff.2 fun c _ => ?_)
    split
    · rename_i hdeclaration
      have htype : (id c).1.type = _ := eq_of_beq hdeclaration
      exact returnNodes_of_not_mem (by rw [htype]; decide) (by rw [htype]; decide)
    · rfl
  unfold loopHeadScript
  cases kind with
  | forLoop => rw [Item.returns_append, hinit, Item.returns_exprs, List.nil_append]
  | forEachLoop =>
    rw [Item.returns_append, Item.returns_exprs, Item.returns_introduce, List.nil_append]
  | _ => exact Item.returns_exprs _

theorem yields_readLoop {kind : Kind} (h : Item.ReturnsFound S (t.loopScript kind)) :
    Yields (readLoop S t (readings S t) kind) fun l =>
      Returned S (Item.returns (t.loopScript kind)) l.returns := by
  rw [loopScript, Item.returns_scope, Item.returns_append, returns_loopHeadScript]
  exact .bind (.inScope (.after fun _ => yields_stmt? h.unscoped.right)) fun _ hr => .pure hr

theorem yields_readCatch {c : Subtree t} (h : Item.ReturnsFound S (catchScript c)) :
    Yields (readCatch S t (readings S t) c) fun r =>
      Returned S (Item.returns (catchScript c)) (Stmt.returnsOpt r) := by
  rw [catchScript, Item.returns_scope, Item.returns_append, Item.returns_introduce]
  have hbody := yields_under_block? h.unscoped.right
  unfold readCatch
  refine .inScope ?_
  split
  · exact hbody
  · split
    · exact hbody
    · exact .after fun _ => .after fun _ => hbody

/-- The clauses add to the handlers that were read before, if there is none behind a finally clause. -/
theorem yields_readClauses {cs : List (Subtree t)}
    (hlast : cs.Pairwise fun c _ => c.1.type ≠ "finally_clause")
    (h : Item.ReturnsFound S (cs.flatMap clauseScript)) (handlers : List Stmt) :
    Yields (readClauses S t (readings S t) cs handlers none) fun r =>
      ∃ es, Stmt.returnsAll r.1 ++ Stmt.returnsOpt r.2 = Stmt.returnsAll handlers ++ es ∧
        Returned S (Item.returns (cs.flatMap clauseScript)) es := by
  induction cs generalizing handlers with
  | nil => exact .pure ⟨[], rfl, .nil⟩
  | cons c cs ih =>
    obtain ⟨hc, hcs⟩ := List.pairwise_cons.1 hlast
    rw [List.flatMap_cons] at h ⊢
    have hrest := ih hcs h.right
    have hclause := h.left
    rw [Item.returns_append]
    rw [clauseScript] at hclause ⊢
    unfold readClauses
    by_cases hcatch : (c.1.type == "catch_clause") = true
    · rw [if_pos hcatch] at hclause ⊢
      rw [if_pos hcatch]
      refine (yields_readCatch hclause).bind fun r hr => (hrest _).mono ?_
      rintro p ⟨es, heq, hes⟩
      refine ⟨Stmt.returnsOpt r ++ es, ?_, hr.append hes⟩
      rw [heq, returnsAll_append, returnsAll_toList, List.append_assoc]
    · rw [if_neg hcatch] at hclause ⊢
      rw [if_neg hcatch]
      by_cases hfinally : (c.1.type == "finally_clause") = true
      · rw [if_pos hfinally] at hclause ⊢
        rw [if_pos hfinally]
        cases cs with
        | nil =>
          refine (yields_under_block? hclause).bind fun r hr => .pure ⟨Stmt.returnsOpt r, ?_, ?_⟩
          · cases r <;> rfl
          · exact List.append_nil _ ▸ hr
        | cons d cs => exact absurd (eq_of_beq hfinally) (hc d List.mem_cons_self)
      · rw [if_neg hfinally, if_neg hfinally]
        exact hrest handlers

theorem yields_readGuarded (h : Item.ReturnsFound S t.guardedScript) :
    Yields (readGuarded S t (readings S t)) fun r =>
      Returned S (Item.returns t.guardedScript) (Stmt.returnsOpt r) := by
  have hresources : Item.returns ((t.contentIn "resources").flatMap resourceScript) = [] := by
    rw [Item.returns_flatMap]
    refine List.flatMap_eq_nil_iff.2 fun c _ => ?_
    unfold resourceScript
    split
    · exact Item.returns_visit ..
    · rw [Item.returns_append, Item.returns_exprs, Item.returns_introduce, List.nil_append]
  have hbody := yields_block? h.unscoped.right
  rw [guardedScript, Item.returns_scope, Item.returns_append, hresources]
  refine .inScope ?_
  split
  · exact hbody
  · exact .after fun _ => hbody

theorem yields_readTry (hlast : t.content.Pairwise fun c _ => c.1.type ≠ "finally_clause")
    (h : Item.ReturnsFound S (t.guardedScript ++ t.content.flatMap clauseScript)) :
    Yields (readTry S t (readings S t)) fun g =>
      Returned S (Item.returns (t.guardedScript ++ t.content.flatMap clauseScript)) g.returns := by
  rw [Item.returns_append]
  refine .bind (yields_readGuarded h.left) fun body hbody => ?_
  refine (yields_readClauses hlast h.right []).bind ?_
  rintro p ⟨es, heq, hes⟩
  have hreturns : Stmt.returns (.guarded (S.position t) body p.1 p.2) =
      Stmt.returnsOpt body ++ es := by
    rw [Stmt.returns, heq]
    rfl
  refine .pure ?_
  rw [hreturns]
  exact hbody.append hes

theorem yields_readSwitchItem {group : Tree} {c : Subtree t}
    (h : Item.ReturnsFound S (switchItemScript group c)) :
    Yields (readSwitchItem t (readings S t) group c) fun r =>
      Returned S (Item.returns (switchItemScript group c)) (Stmt.returnsOpt r) := by
  unfold switchItemScript at h ⊢
  unfold readSwitchItem
  split
  · exact .pure .nil
  · rename_i hlabel
    rw [if_neg hlabel] at h
    split
    · exact .after fun _ => .pure .nil
    · rename_i hrule
      rw [if_neg hrule] at h
      exact Item.returns_visit .stmt c ▸ h .stmt c List.mem_cons_self

theorem yields_readSwitch (h : Item.ReturnsFound S t.switchScript) :
    Yields (readSwitch S t (readings S t)) fun b =>
      Returned S (Item.returns t.switchScript) b.returns := by
  have hgroups := h.right.unscoped
  rw [switchScript, Item.returns_append, Item.returns_exprs, List.nil_append, Item.returns_scope]
  refine .after fun _ => .bind (.inScope (Q := fun ss => Returned S
    (Item.returns ((t.contentIn "body").flatMap fun g =>
      (g.1.content.map g.trans).flatMap (switchItemScript g.1))) (Stmt.returnsAll ss)) ?_)
    fun _ hss => .pure hss
  unfold contentIn at hgroups ⊢
  cases hbody : t.child? "body" with
  | none => exact .pure .nil
  | some body =>
    rw [hbody] at hgroups
    rw [Item.returns_flatMap]
    refine .bind (.mapM (Q := fun g rs => Returned S (Item.returns ((g.1.content.map g.trans).flatMap
      (switchItemScript g.1))) (Stmt.returnsAll (rs.filterMap id))) fun g hg => ?_)
      fun groups hgroups => .pure ?_
    · rw [Item.returns_flatMap]
      refine (Yields.mapM fun c hc => yields_readSwitchItem ?_).mono fun rs hrs => .statements hrs
      exact (hgroups.of_flatMap hg).of_flatMap hc
    · rw [returnsAll_eq_flatMap, List.flatMap_assoc]
      simp only [← returnsAll_eq_flatMap]
      exact .flatMap hgroups

/-- A statement other than a return statement returns what the nodes do that its script visits. -/
theorem yields_readStmt (hreturn : StmtForm.ofType t.type ≠ .ret)
    (hlast : StmtForm.ofType t.type = .guarded →
      t.content.Pairwise fun c _ => c.1.type ≠ "finally_clause")
    (h : Item.ReturnsFound S t.stmtScript) :
    Yields (readStmt S t (readings S t)) fun r =>
      Returned S (Item.returns t.stmtScript) (Stmt.returnsOpt r) := by
  unfold stmtScript at h ⊢
  unfold readStmt
  generalize StmtForm.ofType t.type = form at hreturn hlast h ⊢
  cases form with
  | comment | localType => exact .pure .nil
  | ret => exact absurd rfl hreturn
  | block => exact (yields_readBlock h).bind fun _ hb => .pure hb
  | expression | other =>
    rw [Item.returns_exprs]
    exact .after fun _ => .pure .nil
  | declaration =>
    have hnone : Item.returns t.declarationScript = [] := by
      rw [declarationScript, Item.returns_flatMap]
      refine List.flatMap_eq_nil_iff.2 fun d _ => ?_
      rw [declaratorScript, Item.returns_append, Item.returns_exprs, Item.returns_introduce,
        List.nil_append]
    have hdeclaration : Yields (readDeclaration S t (readings S t)) fun d => d.returns = [] :=
      .after fun _ => .after fun _ => .pure rfl
    rw [hnone]
    exact hdeclaration.bind fun d hd => .pure (show Returned S [] d.returns from hd ▸ .nil)
  | branch =>
    have hbranches := h.right
    rw [List.map_append] at hbranches
    rw [Item.returns_append, Item.returns_exprs, List.nil_append, List.map_append,
      Item.returns_append]
    refine .after fun _ => (yields_stmt? hbranches.left).bind fun _ hfirst => ?_
    exact (yields_stmt? hbranches.right).bind fun _ hsecond => .pure (hfirst.append hsecond)
  | loop kind => exact (yields_readLoop h).bind fun _ hl => .pure hl
  | guarded => exact (yields_readTry (hlast rfl) h).bind fun _ hg => .pure hg
  | switch => exact (yields_readSwitch h).bind fun _ hb => .pure hb
  | synchronized =>
    have hbody := yields_block? h.right
    rw [Item.returns_append, Item.returns_exprs, List.nil_append]
    dsimp only
    split
    · split
      · exact .after fun _ => hbody
      · exact hbody
    · exact hbody
  | labeled =>
    dsimp only at h ⊢
    cases hcontent : t.content.getLast? with
    | none => exact .fault _
    | some last =>
      rw [hcontent] at h
      exact yields_stmt? (c := some last) h

theorem yields_return (htype : t.type = "return_statement") :
    Yields (reading S t).asStmt fun r => Returned S t.returnNodes (Stmt.returnsOpt r) := by
  have hform : StmtForm.ofType t.type = .ret := by rw [htype]; rfl
  have hnodes : t.returnNodes = [t] := by
    rw [returnNodes, if_pos (by simp [htype])]
  rw [reading_asStmt]
  unfold readStmt
  simp only [hform]
  rw [hnodes]
  refine .bind (Q := Option.Rel S.Reads (Subtree.node? t.firstContent?)) (fun s e s' hrun =>
    (Chronicle.follows_expr? (fun c => tells_courses S c.1) _ s e s' hrun).1) fun e he => .pure ?_
  have hvalues : returnValues [t] = (Subtree.node? t.firstContent?).toList := by
    cases hfirst : t.firstContent? <;> simp [returnValues, hfirst]
  rw [Returned, hvalues]
  generalize Subtree.node? t.firstContent? = value at he
  cases he with
  | none => exact .nil
  | some he => exact .cons he .nil

end

/-! ### The statements of a conforming tree -/

section

variable {t : Tree} (hconf : t.conforms = true)

include hconf

/-- Nothing stands behind the finally clause of a try statement. -/
theorem pairwise_clauses (hform : StmtForm.ofType t.type = .guarded) :
    t.content.Pairwise fun c _ => c.1.type ≠ "finally_clause" := by
  have htype : t.type = "try_statement" ∨ t.type = "try_with_resources_statement" := by
    have htype := StmtForm.hasType_ofType t.type
    rw [hform] at htype
    simpa [StmtForm.HasType] using htype
  obtain ⟨front, last, hpieces, hfront⟩ : ∃ (front : List (Subtree t)) (last : Option (Subtree t)),
      t.pieces = front ++ last.toList ∧ ∀ c ∈ front, c.1.type ≠ "finally_clause" := by
    rcases htype with htype | htype
    all_goals
      have haccepts := accepts_of_type hconf htype rfl
      simp only [accepts_one, accepts_many, accepts_optional, accepts_nil, Shape.admits_of,
        List.mem_singleton] at haccepts
    · obtain ⟨b, _, hpieces, hb, catches, _, rfl, hcatches, last, _, rfl, -, rfl⟩ := haccepts
      refine ⟨b :: catches, last, by simp [hpieces], List.forall_mem_cons.2 ⟨?_, fun c hc => ?_⟩⟩
      · simp [hb.2.2]
      · simp [(hcatches c hc).2.2]
    · obtain ⟨r, _, hpieces, hr, b, _, rfl, hb, catches, _, rfl, hcatches, last, _, rfl, -, rfl⟩ :=
        haccepts
      refine ⟨r :: b :: catches, last, by simp [hpieces], List.forall_mem_cons.2 ⟨?_,
        List.forall_mem_cons.2 ⟨?_, fun c hc => ?_⟩⟩⟩
      · simp [hr.2.2]
      · simp [hb.2.2]
      · simp [(hcatches c hc).2.2]
  rw [content_eq_filter_pieces, hpieces]
  refine List.Pairwise.filter _ (List.pairwise_append.2 ⟨?_, ?_, fun c hc _ _ => hfront c hc⟩)
  · exact List.pairwise_of_forall_mem_list fun c hc _ _ => hfront c hc
  · cases last <;> simp

/-- The script of a statement visits the return statements in it. -/
theorem returns_stmtScript (hsuits : Mode.stmt.Suits t) (hreturn : t.type ≠ "return_statement") :
    Item.returns t.stmtScript = t.returnNodes := by
  by_cases hdeclares : t.type ∈ typeDeclarations
  · obtain ⟨hform, hcontainer⟩ := (by decide : ∀ type ∈ typeDeclarations,
      StmtForm.ofType type = .localType ∧ type ∉ containerTypes) _ hdeclares
    rw [returnNodes_of_not_mem hcontainer hreturn, stmtScript, hform]
    rfl
  · rw [returnNodes_eq_flatMap hreturn]
    exact (returnGathering.matches_stmtScript hconf hsuits hdeclares).2 fun _ => rfl

theorem returns_blockScript (hsuits : Mode.block.Suits t) :
    Item.returns t.blockScript = t.returnNodes := by
  have hreturn := (by decide : ∀ type ∈ ["block", "constructor_body"],
    type ≠ "return_statement") _ hsuits
  rw [returnNodes_eq_flatMap hreturn]
  exact returnGathering.ofItems_blockScript hconf hsuits

end

theorem returnsFound (S : Source) {t : Tree} (hconf : t.conforms = true) {mode : Mode}
    (hsuits : mode.Suits t) : ReturnsFound S t mode := by
  induction hsize : t.size using Nat.strongRecOn generalizing t mode with
  | ind n ih =>
    have hfound : Item.ReturnsFound S (t.script mode) := fun mode c hc => by
      obtain ⟨hinside, hsuits⟩ := fits_script hconf hsuits _ hc
      exact ih c.1.size (hsize ▸ c.2) (hinside.conforms hconf) hsuits rfl
    cases mode with
    | expr => trivial
    | stmt =>
      by_cases htype : t.type = "return_statement"
      · exact yields_return htype
      · have hret : StmtForm.ofType t.type ≠ .ret := fun hform =>
          htype (show StmtForm.ret.HasType t.type from hform ▸ StmtForm.hasType_ofType t.type)
        rw [ReturnsFound, ← returns_stmtScript hconf hsuits htype, reading_asStmt]
        exact yields_readStmt hret (pairwise_clauses hconf) hfound
    | block =>
      rw [ReturnsFound, ← returns_blockScript hconf hsuits, reading_asBlock]
      exact yields_readBlock hfound

/-! ### Methods -/

namespace Tree

/-- The nodes of the values that a method returns. -/
def returnedValues (m : Tree) : List Tree :=
  (m.child? "body").toList.flatMap fun b => returnValues b.1.returnNodes

theorem inside_of_mem_returnNodes (t : Tree) : ∀ n ∈ t.returnNodes, n.Inside t := by
  induction hsize : t.size using Nat.strongRecOn generalizing t with
  | ind k ih =>
    intro n hn
    rw [returnNodes] at hn
    split at hn
    · rw [List.mem_singleton.1 hn]
      exact .refl
    · obtain ⟨c, hc, hn⟩ := List.mem_flatMap.1 hn
      have hparts := mem_parts_of_mem_content (List.mem_filter.1 hc).1
      exact .child hparts (ih c.1.size (hsize ▸ c.2) c.1 rfl n hn)

theorem pairwise_returnNodes {t : Tree} (h : t.laidOut = true) :
    t.returnNodes.Pairwise fun a b => a.stop ≤ b.start := by
  induction hsize : t.size using Nat.strongRecOn generalizing t with
  | ind k ih =>
    rw [returnNodes]
    split
    · exact List.pairwise_singleton _ _
    · have hsublist : (t.content.filter fun c => t.places c.1).Sublist t.parts :=
        List.filter_sublist.trans List.filter_sublist
      refine pairwise_flatMap_inside h hsublist (fun c hc => ?_)
        fun c _ => inside_of_mem_returnNodes c.1
      exact ih c.1.size (hsize ▸ c.2) (laidOut_of_mem_parts h (hsublist.subset hc)) rfl

theorem inside_of_firstContent? {n : Tree} {v : Subtree n} (hv : n.firstContent? = some v) :
    v.1.Inside n :=
  inside_of_mem_parts (mem_parts_of_mem_content (mem_content_of_firstContent? hv))

/-- **The values that a method returns** are listed in the order of the text. -/
theorem pairwise_returnedValues {m : Tree} (h : m.laidOut = true) :
    m.returnedValues.Pairwise fun a b => a.stop ≤ b.start := by
  unfold returnedValues
  cases hbody : m.child? "body" with
  | none => exact List.Pairwise.nil
  | some b =>
    have hb := laidOut_of_mem_parts h (mem_parts_of_child? hbody)
    have hinside {n v : Tree} (hv : Subtree.node? n.firstContent? = some v) : v.Inside n := by
      obtain ⟨c, hc, rfl⟩ := Option.map_eq_some_iff.1 hv
      exact inside_of_firstContent? hc
    have hlaid : b.1.returnNodes.Pairwise fun x y =>
        x.stop ≤ y.start ∧ x.laidOut = true ∧ y.laidOut = true := by
      refine (pairwise_returnNodes hb).imp_of_mem fun {x y} hx hy hxy => ⟨hxy, ?_, ?_⟩
      · exact (inside_of_mem_returnNodes b.1 x hx).laidOut hb
      · exact (inside_of_mem_returnNodes b.1 y hy).laidOut hb
    rw [Option.toList_some, List.flatMap_singleton]
    refine hlaid.filterMap _ ?_
    rintro x y ⟨hxy, hx, hy⟩ v hv w hw
    exact before_of_inside hx hy hxy (hinside hv) (hinside hw)

end Tree

theorem returned_methodBody (S : Source) (ps : List Parameter) {m : Tree}
    (hmethod : m.isMethod = true) (hconf : m.conforms = true) :
    Yields (methodBody S ps m) fun body =>
      List.Forall₂ S.Reads m.returnedValues (Stmt.returnsOpt body) := by
  refine .inScope (.after fun _ => ?_)
  unfold returnedValues
  cases hb : m.child? "body" with
  | none => exact .pure .nil
  | some b =>
    obtain ⟨hconf', htype⟩ := body_of_isMethod hmethod hconf hb
    rw [Option.toList_some, List.flatMap_singleton]
    have hsuits : Mode.block.Suits b.1 := htype
    exact .bind (returnsFound S hconf' hsuits) fun _ hbody => .pure hbody

/-- What is known of the expressions that a method returns. -/
structure FindsReturns (S : Source) (m : Tree) (method : Method) : Prop where
  /-- There is one for each return statement with a value, and it is what the value is read as. -/
  values : List.Forall₂ S.Reads m.returnedValues method.returns
  /-- It has the words and the place of the value. -/
  origins : method.returns.map Expr.origin = m.returnedValues.map S.origin
  /-- The values stand one after the other. -/
  ordered : m.laidOut = true → m.returnedValues.Pairwise fun a b => a.stop ≤ b.start

/-- **No return is lost**: reading a method from any state succeeds, and the method returns what the
values of its return statements are read as, in the order of the text. -/
theorem returns_found_in_order (S : Source) (type : String) (isConstructor : Bool) {m : Tree}
    (hmethod : m.isMethod = true) (hconf : m.conforms = true) (s : State) :
    ∃ s' method, (readMethod S type isConstructor m).run s = .ok ((), s') ∧
      ReadFrom S (type, m) method ∧ s'.methods = s.methods ++ [method] ∧
      FindsReturns S m method := by
  let ps := readParameters S s m
  obtain ⟨body, s₁, -, -, hrun, -⟩ := registers_methodBody S ps hmethod hconf
    (s.enterMethod (signatureOf S type m ps)) [] rfl
  have houtline := leads_methodBody allows_outline S ps m _ body s₁ hrun
  have hmethods : s₁.methods = s.methods := (congrArg State.methods houtline :)
  have hvalues := returned_methodBody S ps hmethod hconf _ body s₁ hrun
  let method := methodOf S type isConstructor m ps s₁ body
  refine ⟨s₁.leaveMethod s method, method, ?_, ⟨rfl, rfl, rfl⟩, congrArg (· ++ [method]) hmethods,
    hvalues, origins_of_reads hvalues, pairwise_returnedValues⟩
  rw [run_readMethod]
  exact bind_eq_ok_iff.2 ⟨(body, s₁), hrun, rfl⟩

/-- A method with returns in a loop, in a lambda and in a handler. -/
def returnsNested : String :=
  "class A \x7b int m(int k) \x7b try \x7b do return f(k); while (g(() -> \x7b return 0; \x7d)); \x7d " ++
    "catch (E e) \x7b return k; \x7d \x7d \x7d"

theorem returns_nested_found_in_order :
    ∃ (s' : State) (method : Method),
      (readMethod (.ofText "A.java" returnsNested) "A" false (firstMethod returnsNested)).run {} =
        .ok ((), s') ∧ s'.methods = [method] ∧
      method.returns.map Expr.text = ["f(k)", "k"] := by
  obtain ⟨hmethod, hconf, htexts⟩ : (firstMethod returnsNested).isMethod = true ∧
      (firstMethod returnsNested).conforms = true ∧
      (firstMethod returnsNested).returnedValues.map (Source.text (.ofText "A.java" returnsNested)) =
        ["f(k)", "k"] := by
    decide +kernel
  obtain ⟨s', method, hrun, -, hmethods, hfinds⟩ :=
    returns_found_in_order (.ofText "A.java" returnsNested) "A" false hmethod hconf {}
  exact ⟨s', method, hrun, hmethods, htexts ▸ texts_of_reads hfinds.values⟩

end TaintFlow.Java
