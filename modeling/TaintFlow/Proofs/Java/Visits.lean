import TaintFlow.Proofs.Java.Events
import TaintFlow.Proofs.Java.Roles

/-!
# What scripts visit

The script of a node visits the nodes in which something can be found when the node is read, and in
the way in which they are read there.

* `Gathering.matches_script` : what is gathered from the nodes that a script visits is what the
  children of the node add.
-/

namespace TaintFlow.Java

open TaintFlow.Code

/-- Whether a node is read as a statement or a block. -/
def Mode.isStatement : Mode → Bool
  | .expr => false
  | _ => true

/-- The nodes that can be read in a way. -/
def Mode.Suits : Mode → Tree → Prop
  | .expr, _ => True
  | .stmt, t => t.type ∈ "identifier" :: ";" :: statementTypes
  | .block, t => t.type ∈ ["block", "constructor_body"]

/-! ### The nodes that are visited -/

/-- What an item visits stands inside the node, and can be read in that way. -/
def Item.Fits {t : Tree} : Item t → Prop
  | .visit mode c => c.1.Inside t ∧ mode.Suits c.1
  | .event _ => True

namespace Item

variable {t : Tree}

theorem fits_scope {items : List (Item t)} (h : ∀ item ∈ items, item.Fits) :
    ∀ item ∈ scope items, item.Fits :=
  List.forall_mem_cons.2
    ⟨trivial, List.forall_mem_append.2 ⟨h, List.forall_mem_singleton.2 trivial⟩⟩

theorem fits_introduce (name value : Option Tree) :
    ∀ item ∈ (introduce name value : List (Item t)), item.Fits := by
  cases name with
  | none => exact List.forall_mem_nil _
  | some n => cases value <;> simp [introduce, Fits]

theorem fits_exprs {cs : List (Subtree t)} (h : ∀ c ∈ cs, c.1.Inside t) :
    ∀ item ∈ exprs cs, item.Fits :=
  List.forall_mem_map.2 fun c hc => ⟨h c hc, trivial⟩

end Item

namespace Tree

variable {t : Tree}

theorem inside_of_mem_toList_child? {field : String} {c : Subtree t}
    (hc : c ∈ (t.child? field).toList) : c.1.Inside t :=
  inside_of_mem_child? (Option.mem_toList.1 hc)

theorem inside_of_mem_childrenIn {field : String} {c : Subtree t} (hc : c ∈ t.childrenIn field) :
    c.1.Inside t :=
  inside_of_mem_parts (List.mem_filter.1 hc).1

theorem inside_of_mem_contentIn {field : String} {c : Subtree t} (hc : c ∈ t.contentIn field) :
    c.1.Inside t := by
  unfold contentIn at hc
  split at hc
  · rename_i p hp
    obtain ⟨d, hd, rfl⟩ := List.mem_map.1 hc
    exact (inside_of_mem_content hd).trans (inside_of_mem_child? hp)
  · cases hc

theorem mem_child?_of_mem_object? {c : Subtree t} (hc : c ∈ t.object?.toList) :
    c ∈ (t.child? "object").toList :=
  Option.mem_toList.2 (Option.filter_eq_some_iff.1 (Option.mem_toList.1 hc)).1

theorem mem_content_of_mem_outerObject? {c : Subtree t} (hc : c ∈ t.outerObject?.toList) :
    c ∈ t.content :=
  mem_content_of_firstContent? (Option.filter_eq_some_iff.1 (Option.mem_toList.1 hc)).1

theorem mem_content_of_mem_firstContent? {c : Subtree t} (hc : c ∈ t.firstContent?.toList) :
    c ∈ t.content :=
  mem_content_of_firstContent? (Option.mem_toList.1 hc)

theorem inside_of_mem_operands {c : Subtree t} (hc : c ∈ t.operands) : c.1.Inside t := by
  unfold operands at hc
  generalize ExprForm.ofType t.type = form at hc
  cases form with
  | literal | identifier | lambda => cases hc
  | parenthesized | update => exact inside_of_mem_content (mem_content_of_mem_firstContent? hc)
  | unary | cast => exact inside_of_mem_toList_child? hc
  | fieldAccess => exact inside_of_mem_toList_child? (mem_child?_of_mem_object? hc)
  | binary | assignment =>
    rcases List.mem_append.1 hc with hc | hc <;> exact inside_of_mem_toList_child? hc
  | ternary =>
    rcases List.mem_append.1 hc with hc | hc
    · rcases List.mem_append.1 hc with hc | hc <;> exact inside_of_mem_toList_child? hc
    · exact inside_of_mem_toList_child? hc
  | creation =>
    rcases List.mem_append.1 hc with hc | hc
    · exact inside_of_mem_content (mem_content_of_mem_outerObject? hc)
    · exact inside_of_mem_contentIn hc
  | arrayCreation =>
    dsimp only at hc
    split at hc
    · exact inside_of_mem_contentIn hc
    · exact inside_of_mem_childrenIn hc
  | arrayInitializer => exact inside_of_mem_content hc
  | invocation =>
    rcases List.mem_append.1 hc with hc | hc
    · exact inside_of_mem_toList_child? (mem_child?_of_mem_object? hc)
    · exact inside_of_mem_contentIn hc
  | other =>
    dsimp only at hc
    split at hc
    · cases hc
    · exact inside_of_mem_content hc

theorem fits_lambdaScript : ∀ item ∈ t.lambdaScript, item.Fits := by
  refine Item.fits_scope (List.forall_mem_append.2 ⟨List.forall_mem_map.2 fun _ _ => trivial,
    List.forall_mem_map.2 fun b hb => ⟨inside_of_mem_toList_child? hb, ?_⟩⟩)
  split
  · rename_i hblock
    exact List.mem_cons.2 (.inl (eq_of_beq hblock))
  · trivial

theorem fits_exprScript : ∀ item ∈ t.exprScript, item.Fits := by
  have hoperands := Item.fits_exprs fun c => inside_of_mem_operands (t := t) (c := c)
  unfold exprScript
  split
  · exact fits_lambdaScript
  · exact List.forall_mem_append.2 ⟨hoperands, List.forall_mem_singleton.2 trivial⟩
  · exact hoperands

/-- A declared variable and its value, below a node. -/
theorem fits_valued {d : Subtree t} (hd : d.1.Inside t) (field : String) (name value : Option Tree) :
    ∀ item ∈ Item.exprs ((d.1.child? field).map d.trans).toList ++ Item.introduce name value,
      item.Fits := by
  refine List.forall_mem_append.2 ⟨Item.fits_exprs fun c hc => ?_, Item.fits_introduce _ _⟩
  obtain ⟨v, hv, rfl⟩ := Option.map_eq_some_iff.1 (Option.mem_toList.1 hc)
  exact (inside_of_mem_child? hv).trans hd

theorem fits_declarationScript : ∀ item ∈ t.declarationScript, item.Fits :=
  List.forall_mem_flatMap.2 fun _ hd => fits_valued (inside_of_mem_childrenIn hd) "value" _ _

theorem fits_resourceScript {c : Subtree t} (hc : c.1.Inside t) :
    ∀ item ∈ resourceScript c, item.Fits := by
  unfold resourceScript
  split
  · exact Item.fits_exprs (List.forall_mem_singleton.2 hc)
  · exact fits_valued hc "value" _ _

theorem fits_loopHeadScript (kind : Kind) : ∀ item ∈ t.loopHeadScript kind, item.Fits := by
  have hchild (field : String) : ∀ item ∈ Item.exprs (t.child? field).toList, item.Fits :=
    Item.fits_exprs fun _ => inside_of_mem_toList_child?
  unfold loopHeadScript
  split
  · exact List.forall_mem_append.2 ⟨hchild "value", Item.fits_introduce _ _⟩
  · refine List.forall_mem_append.2 ⟨List.forall_mem_map.2 fun c hc =>
      ⟨inside_of_mem_childrenIn hc, ?_⟩, Item.fits_exprs (List.forall_mem_append.2
        ⟨fun _ => inside_of_mem_toList_child?, fun _ => inside_of_mem_childrenIn⟩)⟩
    split
    · rename_i hdecl
      rw [Mode.Suits, eq_of_beq hdecl]
      decide
    · trivial
  · exact hchild "condition"

section

variable (hconf : t.conforms = true)

include hconf

/-- A child in a role for statements is read as one. -/
theorem fits_child? {type : String} (htype : t.type = type) {field : String}
    (hslots : everySlot type (fun slot =>
      !(slot.role == some field) || slot.holds ["identifier"]) = true) :
    ∀ item ∈ (t.child? field).toList.map (Item.visit .stmt), item.Fits := by
  refine List.forall_mem_map.2 fun c hc => ⟨inside_of_mem_toList_child? hc, ?_⟩
  obtain ⟨hc, hfield⟩ := mem_pieces_of_child? (Option.mem_toList.1 hc)
  exact type_mem_of_holds hconf htype (· == some field) ["identifier"] hslots hc
    (by rw [hfield, beq_self_eq_true])

/-- The body of a node whose productions have a block for it. -/
theorem mem_content_of_body {type : String} (htype : t.type = type)
    (hslots : everySlot type (fun slot => slot.role != some "body" || slot.isWithin ["block"]) = true) :
    ∀ b ∈ (t.child? "body").toList, b ∈ t.content ∧ b.1.type = "block" := by
  intro b hb
  obtain ⟨hcontent, htype⟩ := mem_content_of_role hconf htype ["block"] hslots (Option.mem_toList.1 hb)
  exact ⟨hcontent, List.mem_singleton.1 htype⟩

theorem fits_body {type : String} (htype : t.type = type)
    (hslots : everySlot type (fun slot => slot.role != some "body" || slot.isWithin ["block"]) = true) :
    ∀ item ∈ (t.child? "body").toList.map (Item.visit .block), item.Fits :=
  List.forall_mem_map.2 fun b hb => ⟨inside_of_mem_toList_child? hb,
    List.mem_cons.2 (.inl (mem_content_of_body hconf htype hslots b hb).2)⟩

theorem fits_blockScript (hsuits : Mode.block.Suits t) : ∀ item ∈ t.blockScript, item.Fits := by
  refine Item.fits_scope (List.forall_mem_map.2 fun c hc => ⟨inside_of_mem_content hc, ?_⟩)
  have hpieces := mem_pieces_of_mem_content hc
  have htype : t.type = "block" ∨ t.type = "constructor_body" := by simpa [Mode.Suits] using hsuits
  rcases htype with htype | htype <;>
    exact type_mem_of_holds hconf htype (fun _ => true) ["identifier"] rfl hpieces rfl

theorem fits_loopScript {kind : Kind} (hform : (StmtForm.loop kind).HasType t.type) :
    ∀ item ∈ t.loopScript kind, item.Fits := by
  refine Item.fits_scope (List.forall_mem_append.2 ⟨fits_loopHeadScript kind, ?_⟩)
  simp only [StmtForm.HasType, List.mem_cons, Prod.mk.injEq, List.not_mem_nil, or_false] at hform
  rcases hform with ⟨-, htype⟩ | ⟨-, htype⟩ | ⟨-, htype⟩ | ⟨-, htype⟩ <;>
    exact fits_child? hconf htype rfl

theorem fits_clauseScript {c : Subtree t} (hc : c.1.Inside t) : ∀ item ∈ clauseScript c, item.Fits := by
  unfold clauseScript
  split
  · rename_i htype
    refine Item.fits_scope (List.forall_mem_append.2 ⟨Item.fits_introduce _ _,
      List.forall_mem_map.2 fun b hb => ⟨(inside_of_mem_toList_child? hb).trans hc, ?_⟩⟩)
    exact List.mem_cons.2
      (.inl (mem_content_of_body (hc.conforms hconf) (eq_of_beq htype) rfl b hb).2)
  · split
    · refine List.forall_mem_map.2 fun b hb => ?_
      have hb := Option.mem_toList.1 hb
      have htype : b.1.type = "block" := by simpa using List.find?_some hb
      exact ⟨(inside_of_mem_content (mem_content_of_contentOf? hb)).trans hc,
        List.mem_cons.2 (.inl htype)⟩
    · exact List.forall_mem_nil _

theorem fits_tryScript (hform : StmtForm.guarded.HasType t.type) :
    ∀ item ∈ t.guardedScript ++ t.content.flatMap clauseScript, item.Fits := by
  have hbody : ∀ item ∈ (t.child? "body").toList.map (Item.visit .block), item.Fits := by
    have htype : t.type = "try_statement" ∨ t.type = "try_with_resources_statement" := by
      simpa [StmtForm.HasType] using hform
    rcases htype with htype | htype <;> exact fits_body hconf htype rfl
  refine List.forall_mem_append.2 ⟨Item.fits_scope (List.forall_mem_append.2 ⟨?_, hbody⟩),
    List.forall_mem_flatMap.2 fun c hc => fits_clauseScript hconf (inside_of_mem_content hc)⟩
  exact List.forall_mem_flatMap.2 fun c hc => fits_resourceScript (inside_of_mem_contentIn hc)

/-- The groups of a switch. -/
theorem type_of_mem_groups (htype : t.type = "switch_expression") {g : Subtree t}
    (hg : g ∈ t.contentIn "body") : g.1.type ∈ groupTypes := by
  unfold contentIn at hg
  split at hg
  · rename_i b hb
    obtain ⟨hbcontent, hbtype⟩ := mem_content_of_role hconf htype ["switch_block"] rfl hb
    obtain ⟨d, hd, rfl⟩ := List.mem_map.1 hg
    exact type_mem_of_role (conforms_of_mem_pieces hconf (mem_pieces_of_mem_content hbcontent))
      (mem_pieces_of_mem_content hd) (List.mem_singleton.1 hbtype) (fun _ => true) rfl groupTypes rfl rfl
  · cases hg

/-- An item of a group is not visited, if it is a label, or is visited in a suitable way. -/
theorem fits_switchItemScript {g : Subtree t} (hg : g.1.Inside t) (hgroup : g.1.type ∈ groupTypes)
    {c : Subtree g.1} (hc : c ∈ g.1.content) :
    ∀ item ∈ switchItemScript g.1 (g.trans c), item.Fits := by
  have hpieces := mem_pieces_of_mem_content hc
  have htypes : c.1.type ∈ "switch_label" :: ";" :: statementTypes := by
    simp only [groupTypes, List.mem_cons, List.not_mem_nil, or_false] at hgroup
    rcases hgroup with htype | htype <;>
      exact type_mem_of_holds (hg.conforms hconf) htype (fun _ => true) ["switch_label"] rfl hpieces rfl
  have hinside : (g.trans c).1.Inside t := (inside_of_mem_content hc).trans hg
  unfold switchItemScript
  split
  · exact List.forall_mem_nil _
  · rename_i hlabel
    split
    · exact List.forall_mem_singleton.2 ⟨hinside, trivial⟩
    · refine List.forall_mem_singleton.2 ⟨hinside, List.mem_cons_of_mem _ ?_⟩
      exact (List.mem_cons.1 htypes).resolve_left fun htype => hlabel (beq_iff_eq.2 htype)

theorem fits_switchScript (htype : t.type = "switch_expression") :
    ∀ item ∈ t.switchScript, item.Fits := by
  refine List.forall_mem_append.2 ⟨Item.fits_exprs fun _ => inside_of_mem_toList_child?,
    Item.fits_scope (List.forall_mem_flatMap.2 fun g hg => ?_)⟩
  refine List.forall_mem_flatMap.2 (List.forall_mem_map.2 fun c hc => ?_)
  exact fits_switchItemScript hconf (inside_of_mem_contentIn hg) (type_of_mem_groups hconf htype hg) hc

theorem fits_stmtScript (hsuits : Mode.stmt.Suits t) : ∀ item ∈ t.stmtScript, item.Fits := by
  have hform := StmtForm.hasType_ofType t.type
  unfold stmtScript
  generalize StmtForm.ofType t.type = form at hform ⊢
  cases form with
  | comment | localType => exact List.forall_mem_nil _
  | block => exact fits_blockScript hconf hform
  | expression | ret =>
    exact Item.fits_exprs fun c hc => inside_of_mem_content (mem_content_of_mem_firstContent? hc)
  | declaration => exact fits_declarationScript
  | branch =>
    dsimp only
    rw [List.map_append]
    exact List.forall_mem_append.2 ⟨Item.fits_exprs fun _ => inside_of_mem_toList_child?,
      List.forall_mem_append.2 ⟨fits_child? hconf hform rfl, fits_child? hconf hform rfl⟩⟩
  | loop kind => exact fits_loopScript hconf hform
  | guarded => exact fits_tryScript hconf hform
  | switch =>
    have htype : t.type = "switch_expression" ∨ t.type = "switch_statement" := by
      simpa [StmtForm.HasType] using hform
    rcases htype with htype | htype
    · exact fits_switchScript hconf htype
    · rw [Mode.Suits, htype] at hsuits
      exact absurd hsuits (by decide)
  | synchronized =>
    refine List.forall_mem_append.2 ⟨Item.fits_exprs fun c hc => ?_, fits_body hconf hform rfl⟩
    have hfirst := (Option.filter_eq_some_iff.1 (Option.mem_toList.1 hc)).1
    exact inside_of_mem_content (mem_content_of_firstContent? hfirst)
  | labeled =>
    refine List.forall_mem_map.2 fun c hc => ?_
    have hmem := List.mem_of_getLast? (Option.mem_toList.1 hc)
    exact ⟨inside_of_mem_content hmem, type_mem_of_holds hconf hform (fun _ => true) ["identifier"] rfl
      (mem_pieces_of_mem_content hmem) rfl⟩
  | other => exact Item.fits_exprs fun c hc => inside_of_mem_content (List.mem_filter.1 hc).1

/-- **What a script visits** stands inside the node, and can be read in the way in which it is. -/
theorem fits_script {mode : Mode} (hsuits : mode.Suits t) : ∀ item ∈ t.script mode, item.Fits := by
  cases mode with
  | expr => exact fits_exprScript
  | stmt => exact fits_stmtScript hconf hsuits
  | block => exact fits_blockScript hconf hsuits

end

end Tree

namespace Gathering

open TaintFlow.Java.Tree

variable {α : Type} (G : Gathering α) {t : Tree}

/-! ### Items -/

/-- What is gathered from the node that an item visits. -/
def ofItem : Item t → List α
  | .visit mode c => G.of mode.isStatement c.1
  | .event _ => []

/-- What is gathered from the nodes that items visit. -/
def ofItems (items : List (Item t)) : List α :=
  items.flatMap G.ofItem

@[simp] theorem ofItems_nil : G.ofItems ([] : List (Item t)) = [] :=
  rfl

@[simp] theorem ofItems_append (items items' : List (Item t)) :
    G.ofItems (items ++ items') = G.ofItems items ++ G.ofItems items' :=
  List.flatMap_append

@[simp] theorem ofItems_flatMap {β : Type} (l : List β) (f : β → List (Item t)) :
    G.ofItems (l.flatMap f) = l.flatMap fun x => G.ofItems (f x) :=
  List.flatMap_assoc

@[simp] theorem ofItems_visits {β : Type} (l : List β) (mode : β → Mode) (f : β → Subtree t) :
    G.ofItems (l.map fun x => .visit (mode x) (f x)) =
      l.flatMap fun x => G.of (mode x).isStatement (f x).1 :=
  List.flatMap_map ..

@[simp] theorem ofItems_map_visit (mode : Mode) (cs : List (Subtree t)) :
    G.ofItems (cs.map (.visit mode)) = cs.flatMap fun c => G.of mode.isStatement c.1 :=
  List.flatMap_map ..

@[simp] theorem ofItems_exprs (cs : List (Subtree t)) :
    G.ofItems (Item.exprs cs) = cs.flatMap fun c => G.of false c.1 :=
  List.flatMap_map ..

@[simp] theorem ofItems_scope (items : List (Item t)) :
    G.ofItems (Item.scope items) = G.ofItems items := by
  rw [Item.scope, ofItems, List.flatMap_cons, List.flatMap_append]
  exact List.append_nil _

@[simp] theorem ofItems_introduce (name value : Option Tree) :
    G.ofItems (Item.introduce name value : List (Item t)) = [] := by
  cases name with
  | none => rfl
  | some n => cases value <;> rfl

/-- Two lists are the same, but for the place of what was gathered from expressions. -/
def Matches (l l' : List α) : Prop :=
  l.Perm l' ∧ ((∀ t, G.of false t = []) → l = l')

variable {G} in
theorem Matches.of_eq {l l' : List α} (h : l = l') : G.Matches l l' :=
  ⟨h ▸ .refl _, fun _ => h⟩

/-! ### Expressions -/

section

variable (hconf : t.conforms = true)

/-- Where a node is read as an expression, so is its content, with three exceptions. -/
theorem flatMap_swept
    (h : t.type ∉ ["lambda_expression", "cast_expression", "array_creation_expression"]) :
    t.pieces.flatMap (G.share false t) = t.content.flatMap fun c => G.of false c.1 := by
  simp only [List.mem_cons, List.not_mem_nil, or_false, not_or] at h
  refine G.flatMap_share_of_swept h.1 (fun c _ => ?_) fun _ _ => rfl
  unfold Tree.visits
  split <;> first | rfl | simp_all

include hconf

theorem flatMap_contentIn {type : String} (htype : t.type = type) {field : String}
    (hslots : everySlot type (fun slot => slot.role != some field ||
      slot.isWithin ["argument_list", "array_initializer"]) = true) :
    (t.contentIn field).flatMap (fun c => G.of false c.1) =
      (t.child? field).toList.flatMap fun c => G.of false c.1 := by
  unfold contentIn
  cases hchild : t.child? field with
  | none => rfl
  | some a =>
    obtain ⟨hpart, hswept⟩ := (by decide : ∀ type ∈ ["argument_list", "array_initializer"],
      type ∈ partTypes ∧ type ∉ ["lambda_expression", "cast_expression", "array_creation_expression"])
      _ (mem_content_of_role hconf htype _ hslots hchild).2
    rw [Option.toList_some, List.flatMap_singleton, G.of_part hpart, G.flatMap_swept hswept,
      List.flatMap_map]
    rfl

/-- The keywords that stand for objects are not read, and nothing is in them. -/
theorem flatMap_object? : t.object?.toList.flatMap (fun c => G.of false c.1) =
    (t.child? "object").toList.flatMap fun c => G.of false c.1 := by
  unfold object?
  cases hchild : t.child? "object" with
  | none => rfl
  | some o =>
    rw [Option.filter_some]
    split
    · rfl
    · rename_i hkeyword
      have hleaf : o.1.type ∈ silentTypes := by
        have hkeyword : o.1.type = "this" ∨ o.1.type = "super" := by
          simpa [Classical.or_iff_not_imp_left] using hkeyword
        rcases hkeyword with h | h <;> rw [h] <;> decide
      have hnone : G.of false o.1 = [] :=
        G.of_silent (conforms_of_mem_pieces hconf (mem_pieces_of_child? hchild).1) hleaf
      rw [Option.toList_some, List.flatMap_singleton, hnone]
      rfl

theorem flatMap_arrayCreation (htype : t.type = "array_creation_expression") :
    (if (t.child? "value").isSome then t.contentIn "value" else t.childrenIn "dimensions").flatMap
        (fun c => G.of false c.1) = t.pieces.flatMap (G.share false t) := by
  rw [G.flatMap_share hconf htype [(some "dimensions", .expr), (some "value", .expr)]
    rfl]
  have hvalue : inRole (some "value") t.pieces = (t.child? "value").toList :=
    inRole_eq_child? hconf htype rfl
  simp only [List.flatMap_cons, List.flatMap_nil, List.append_nil, Way.isStatement, hvalue,
    ← inRole_some]
  -- either sizes or elements are given
  rcases accepts_or_accepts_of_type hconf htype rfl with haccepts | haccepts
  · rw [inRole_eq_nil haccepts rfl] at hvalue
    rw [← hvalue, Option.toList_eq_nil_iff.1 hvalue.symm]
    exact (List.append_nil _).symm
  · have hsizes := G.flatMap_inRole_of_isSilent hconf haccepts (r := some "dimensions") rfl
      false
    rw [hsizes, List.nil_append, ← G.flatMap_contentIn hconf htype rfl]
    split
    · rfl
    · rename_i hnone
      rw [hsizes, contentIn, Option.not_isSome_iff_eq_none.1 hnone]
      rfl

/-- **What is gathered from the operands** of an expression is what its children add. -/
theorem flatMap_operands (hopen : t.type ∉ sealedTypes)
    (hnot : t.type ∉ ["lambda_expression", "object_creation_expression"]) :
    t.operands.flatMap (fun c => G.of false c.1) = t.pieces.flatMap (G.share false t) := by
  have htype := ExprForm.hasType_ofType t.type
  unfold operands
  generalize ExprForm.ofType t.type = form at htype ⊢
  cases form with
  | literal kind => exact absurd (List.mem_append_right _ htype) hopen
  | identifier =>
    have hnone : t.pieces = [] := accepts_nil.1 (accepts_of_type hconf htype rfl)
    rw [hnone]
    rfl
  | lambda | creation =>
    rw [show t.type = _ from htype] at hnot
    exact absurd hnot (by decide)
  | parenthesized | update =>
    rw [← content_eq_firstContent? hconf htype rfl,
      G.flatMap_swept (by rw [show t.type = _ from htype]; decide)]
  | binary | assignment =>
    rw [G.flatMap_share_child? hconf htype [("left", .expr), ("right", .expr)] rfl]
    simp [Way.isStatement]
  | unary =>
    rw [G.flatMap_share_child? hconf htype [("operand", .expr)] rfl]
    simp [Way.isStatement]
  | ternary =>
    rw [G.flatMap_share_child? hconf htype
      [("condition", .expr), ("consequence", .expr), ("alternative", .expr)] rfl]
    simp [Way.isStatement]
  | cast =>
    rw [G.flatMap_share_child? hconf htype [("value", .expr)] rfl]
    simp [Way.isStatement]
  | arrayCreation => exact G.flatMap_arrayCreation hconf htype
  | fieldAccess =>
    rw [G.flatMap_share_child? hconf htype [("object", .expr)] rfl,
      G.flatMap_object? hconf]
    simp [Way.isStatement]
  | invocation =>
    rw [G.flatMap_share_child? hconf htype [("object", .expr), ("arguments", .expr)]
      rfl, List.flatMap_append, G.flatMap_object? hconf,
      G.flatMap_contentIn hconf htype rfl]
    simp [Way.isStatement]
  | arrayInitializer => exact (G.flatMap_swept (by rw [show t.type = _ from htype]; decide)).symm
  | other =>
    have hclosed : t.isClosed = false := by
      refine Bool.eq_false_iff.2 fun h => hopen (List.mem_append_left _ (List.contains_iff_mem.1 h))
    dsimp only
    rw [hclosed, if_neg Bool.false_ne_true, G.flatMap_swept]
    refine fun hmem => htype ?_
    exact (by decide : ∀ type ∈ ["lambda_expression", "cast_expression",
      "array_creation_expression"], type ∈ exprTypes) _ hmem

/-- A lambda, of which the parameters are not read. -/
theorem ofItems_lambdaScript (hlambda : G.EntersLambdas) (htype : t.type = "lambda_expression") :
    G.ofItems t.lambdaScript = t.pieces.flatMap (G.share false t) := by
  have haccepts := accepts_of_type hconf htype rfl
  simp only [accepts_one, accepts_nil, Shape.admits_any] at haccepts
  obtain ⟨ps, _, hpieces, ⟨hprole, hp⟩, b, _, rfl, ⟨hbrole, hb⟩, rfl⟩ := haccepts
  have hbody : t.child? "body" = some b := by
    simp [child?_eq_find_pieces, hpieces, hprole, hbrole]
  have hnames : G.ofItems ((lambdaNames t).map fun n =>
      (.event (.declaration .localVar n none) : Item t)) = [] := by
    rw [ofItems, List.flatMap_map]
    exact List.flatMap_eq_nil_iff.2 fun _ _ => rfl
  rw [hpieces, List.flatMap_cons, List.flatMap_singleton, hlambda htype hp, hlambda htype hb, hprole, hbrole,
    lambdaScript, ofItems_scope, ofItems_append, hnames, hbody, ofItems_visits,
    Option.toList_some, List.flatMap_singleton]
  cases b.1.type == "block" <;> rfl

/-- **What is gathered from the nodes that an expression visits** is what its children add. -/
theorem ofItems_exprScript (henters : G.EntersLambdas) (hopen : t.type ∉ sealedTypes)
    (hcreation : t.type ≠ "object_creation_expression") :
    G.ofItems t.exprScript = t.pieces.flatMap (G.share false t) := by
  have hform := ExprForm.hasType_ofType t.type
  by_cases hlambda : t.type = "lambda_expression"
  · rw [exprScript, hlambda]
    exact G.ofItems_lambdaScript hconf henters hlambda
  · have hoperands := G.flatMap_operands hconf hopen (by simp [hlambda, hcreation])
    rw [← hoperands, exprScript]
    generalize ExprForm.ofType t.type = form at hform
    cases form with
    | lambda => exact absurd hform hlambda
    | assignment =>
      rw [ofItems_append, ofItems_exprs]
      exact List.append_nil _
    | _ => exact G.ofItems_exprs _

/-- The first content of a creation is read, unless it is closed. -/
theorem flatMap_outerObject? {first : Subtree t} (hfirst : t.firstContent? = some first)
    (hopen : first.1.isClosed = false → first.1.field ≠ some "type" ∧ first.1.type ≠ "argument_list") :
    t.outerObject?.toList.flatMap (fun c => G.of false c.1) = G.of false first.1 := by
  rw [outerObject?, hfirst, Option.filter_some]
  cases hclosed : first.1.isClosed with
  | true =>
    have hmem := mem_pieces_of_mem_content (mem_content_of_firstContent? hfirst)
    have hsilent : first.1.type ∈ silentTypes :=
      List.mem_append_left _ (List.mem_append_left _ (List.contains_iff_mem.1 hclosed))
    exact (G.of_silent (conforms_of_mem_pieces hconf hmem) hsilent).symm
  | false =>
    obtain ⟨hrole, hlist⟩ := hopen hclosed
    simp [firstContentIs_eq_false hfirst hrole, hlist]

/-- What is gathered from a creation comes from its first content and from what follows, annotations
apart. -/
theorem ofItems_creation (htype : t.type = "object_creation_expression") :
    ∃ first rest, t.content = first :: rest ∧ G.ofItems t.exprScript = G.of false first.1 ++
      rest.flatMap fun c => if c.1.isAnnotating then [] else G.of false c.1 := by
  have hcontent : t.content = t.pieces := by
    rw [content_eq_filter_pieces]
    refine List.filter_eq_self.2 fun c hc => ?_
    obtain ⟨slot, hwithin, -, hadmits⟩ := exists_slot_of_every hconf htype (p := Slot.isWithin
      (primaryTypes ++ annotationTypes ++ "type_arguments" :: unannotatedTypes ++
        ["argument_list", "class_body"])) rfl hc
    exact (slot.mem_of_isWithin hwithin hadmits).1
  have hscript : G.ofItems t.exprScript = t.outerObject?.toList.flatMap (fun c => G.of false c.1) ++
      (t.child? "arguments").toList.flatMap fun c => G.of false c.1 := by
    rw [← G.flatMap_contentIn hconf htype rfl, ← List.flatMap_append, exprScript, operands, htype]
    exact G.ofItems_exprs _
  have haccepts := accepts_of_type hconf htype rfl
  simp only [accepts_many, accepts_optional, accepts_one, accepts_nil, Shape.admits_of] at haccepts
  obtain ⟨outer, _, hpieces, houter, as₁, _, rfl, has₁, args, _, rfl, hargs, as₂, _, rfl, has₂, ty, _,
    rfl, ⟨htyrole, -, hty⟩, a, _, rfl, ⟨harole, -, hatype⟩, body, _, rfl, hbody, rfl⟩ := haccepts
  -- what stands between the outer object and the type
  have hmiddle : ∀ c ∈ as₁ ++ (args.toList ++ as₂), c.1.field ≠ some "type" ∧
      c.1.field ≠ some "arguments" ∧ c.1.type ∈ "type_arguments" :: annotationTypes := by
    intro c hc
    simp only [List.mem_append] at hc
    rcases hc with hc | hc | hc
    · simp [(has₁ c hc).1, (has₁ c hc).2.2]
    · simp [(hargs c hc).1, List.mem_singleton.1 (hargs c hc).2.2]
    · simp [(has₂ c hc).1, (has₂ c hc).2.2]
  have hsplit : t.pieces = outer.toList ++ ((as₁ ++ (args.toList ++ as₂)) ++ ty :: a :: body.toList) := by
    simp [hpieces]
  generalize as₁ ++ (args.toList ++ as₂) = middle at hmiddle hsplit
  have harguments : t.child? "arguments" = some a := by
    have hbefore : ∀ c ∈ outer.toList ++ middle, ¬(c.1.field == some "arguments") = true := by
      refine List.forall_mem_append.2 ⟨fun c hc => ?_, fun c hc => ?_⟩
      · simp [(houter c hc).1]
      · simpa using (hmiddle c hc).2.1
    rw [child?_eq_find_pieces, hsplit, ← List.append_assoc, List.find?_append,
      List.find?_eq_none.2 hbefore, Option.none_or]
    simp [htyrole, harole]
  have hsilent {c : Subtree t} (hc : c ∈ t.pieces) (hctype : c.1.type ∈ sealedTypes) :
      G.of false c.1 = [] :=
    G.of_silent (conforms_of_mem_pieces hconf hc) (List.mem_append_left _ hctype)
  have hquiet {c : Subtree t} (hc : c ∈ middle ++ [ty] ∨ c ∈ body.toList) :
      (if c.1.isAnnotating then [] else G.of false c.1) = [] := by
    simp only [List.mem_append, List.mem_singleton] at hc
    have hpiece : c ∈ t.pieces := by
      rw [hsplit]
      simp only [List.mem_append, List.mem_cons]
      tauto
    rw [ite_eq_left_iff]
    intro hannotating
    refine hsilent hpiece ?_
    rcases hc with (hc | rfl) | hc
    · refine (List.mem_cons.1 (hmiddle c hc).2.2).elim (fun h => by rw [h]; decide) fun h => ?_
      exact absurd (List.contains_iff_mem.2 h) hannotating
    · exact (by decide : ∀ type ∈ unannotatedTypes, type ∈ sealedTypes) _ hty
    · rw [List.mem_singleton.1 (hbody c hc).2.2]
      decide
  -- the first content is the outer object, an annotation, the type arguments or the type
  obtain ⟨first, ms, hfirst, hms, hopen⟩ : ∃ first ms, outer.toList ++ (middle ++ [ty]) = first :: ms ∧
      (∀ m ∈ ms, m ∈ middle ++ [ty]) ∧ (first.1.isClosed = false →
        first.1.field ≠ some "type" ∧ first.1.type ≠ "argument_list") := by
    cases outer with
    | some o =>
      obtain ⟨hrole, -, hotype⟩ := houter o (by simp)
      refine ⟨o, _, rfl, fun _ => id, fun _ => ⟨by simp [hrole], ?_⟩⟩
      exact (by decide : ∀ type ∈ primaryTypes, type ≠ "argument_list") _ hotype
    | none =>
      cases middle with
      | nil =>
        have hclosed := (by decide : ∀ type ∈ unannotatedTypes, closedTypes.contains type = true) _ hty
        exact ⟨ty, [], rfl, List.forall_mem_nil _, fun h => absurd (hclosed.symm.trans h) (by decide)⟩
      | cons m ms =>
        obtain ⟨hrole, -, hmtype⟩ := hmiddle m List.mem_cons_self
        refine ⟨m, _, rfl, fun _ => List.mem_cons_of_mem _, fun _ => ⟨hrole, ?_⟩⟩
        exact (by decide : ∀ type ∈ "type_arguments" :: annotationTypes, type ≠ "argument_list") _ hmtype
  have hall : t.content = first :: (ms ++ a :: body.toList) := by
    rw [hcontent, hsplit, ← List.cons_append, ← hfirst]
    simp
  have hrest : (ms ++ a :: body.toList).flatMap (fun c =>
      if c.1.isAnnotating then [] else G.of false c.1) = G.of false a.1 := by
    have ha : a.1.isAnnotating = false := by
      rw [isAnnotating, List.mem_singleton.1 hatype]
      rfl
    rw [List.flatMap_append, List.flatMap_eq_nil_iff.2 fun c hc => hquiet (.inl (hms c hc)), List.flatMap_cons,
      List.flatMap_eq_nil_iff.2 fun c hc => hquiet (.inr hc), ha]
    simp
  refine ⟨first, _, hall, ?_⟩
  rw [hscript, hrest, harguments, G.flatMap_outerObject? hconf (by rw [firstContent?_eq_head?, hall]; rfl) hopen]
  simp

/-! ### Statements -/

theorem ofItems_blockScript (htype : t.type ∈ ["block", "constructor_body"]) :
    G.ofItems t.blockScript = t.pieces.flatMap (G.share true t) := by
  have hshare : t.pieces.flatMap (G.share true t) = t.content.flatMap fun c => G.of true c.1 := by
    simp only [List.mem_cons, List.not_mem_nil, or_false] at htype
    rcases htype with htype | htype <;>
      exact G.flatMap_share_of_every hconf htype .stmt (by decide) rfl
  rw [hshare, blockScript, ofItems_scope, ofItems_map_visit]
  rfl

/-- A statement with one expression. -/
theorem ofItems_firstContent? {type : String} (htype : t.type = type)
    (hlambda : type ≠ "lambda_expression") (hslots : everySlot type (fun slot =>
      slot.isSilent || slot.isRead true type .expr) = true)
    (hsole : everyProduction type (fun slots =>
      isSingle none slots && slots.all (·.role == none)) = true) :
    G.ofItems (Item.exprs t.firstContent?.toList) = t.pieces.flatMap (G.share true t) := by
  rw [ofItems_exprs, ← content_eq_firstContent? hconf htype hsole,
    G.flatMap_share_of_every hconf htype .expr hlambda hslots]
  rfl

omit hconf in
/-- The value of a variable, told below the node that holds both. -/
theorem ofItems_value (d : Subtree t) (field : String) :
    G.ofItems (Item.exprs ((d.1.child? field).map d.trans).toList) =
      (d.1.child? field).toList.flatMap fun c => G.of false c.1 := by
  cases d.1.child? field <;> simp [Subtree.trans]

theorem ofItems_declarationScript (htype : t.type = "local_variable_declaration") :
    G.ofItems t.declarationScript = t.pieces.flatMap (G.share true t) := by
  rw [G.flatMap_share hconf htype [(some "declarator", .expr)] rfl, List.flatMap_cons,
    inRole_some, declarationScript, ofItems_flatMap, List.flatMap_nil, List.append_nil]
  refine List.flatMap_congr fun d hd => ?_
  obtain ⟨hd, hrole⟩ := mem_pieces_of_mem_childrenIn hd
  have hdtype := List.mem_singleton.1 (type_mem_of_role hconf hd htype (· == some "declarator")
    (beq_iff_eq.2 hrole) ["variable_declarator"] rfl rfl)
  rw [declaratorScript, ofItems_append, ofItems_introduce, List.append_nil, ofItems_value]
  symm
  rw [Way.isStatement, G.of_part (by rw [hdtype]; decide),
    G.flatMap_share_child? (conforms_of_mem_pieces hconf hd) hdtype [("value", .expr)]
      rfl]
  simp [Way.isStatement]

/-! ### Loops -/

theorem ofItems_for (htype : t.type = "for_statement") :
    G.ofItems (t.loopScript .forLoop) = t.pieces.flatMap (G.share true t) := by
  have hinit (c : Subtree t) :
      (if c.1.type == "local_variable_declaration" then Mode.stmt else .expr).isStatement =
        Way.init.isStatement c.1.type := by
    rw [Way.isStatement]
    cases c.1.type == "local_variable_declaration" <;> rfl
  rw [G.flatMap_share hconf htype [(some "init", .init), (some "condition", .expr),
    (some "update", .expr), (some "body", .stmt)] rfl, loopScript, loopHeadScript]
  simp only [ofItems_scope, ofItems_append, ofItems_exprs, ofItems_map_visit, ofItems_visits,
    List.flatMap_cons, List.flatMap_nil, List.append_nil, List.flatMap_append, List.append_assoc,
    inRole_some, hinit]
  rw [← inRole_some t "condition", ← inRole_some t "body",
    inRole_eq_child? hconf htype rfl,
    inRole_eq_child? hconf htype rfl]
  rfl

theorem matches_loopScript {kind : Kind} (hform : (StmtForm.loop kind).HasType t.type) :
    G.Matches (G.ofItems (t.loopScript kind)) (t.pieces.flatMap (G.share true t)) := by
  simp only [StmtForm.HasType, List.mem_cons, Prod.mk.injEq, List.not_mem_nil, or_false] at hform
  rcases hform with ⟨rfl, htype⟩ | ⟨rfl, htype⟩ | ⟨rfl, htype⟩ | ⟨rfl, htype⟩
  · rw [G.flatMap_share_child? hconf htype [("condition", .expr), ("body", .stmt)]
      rfl]
    exact .of_eq (by simp [loopScript, loopHeadScript, Way.isStatement, Mode.isStatement])
  · -- the condition is read before the body that it stands after
    rw [G.flatMap_share_child? hconf htype [("body", .stmt), ("condition", .expr)]
      rfl]
    simp only [loopScript, loopHeadScript, ofItems_scope, ofItems_append, ofItems_exprs,
      ofItems_map_visit, List.flatMap_cons, List.flatMap_nil, List.append_nil, Way.isStatement]
    refine ⟨List.perm_append_comm, fun hnone => ?_⟩
    rw [List.flatMap_eq_nil_iff.2 fun c _ => hnone c.1, List.append_nil]
    rfl
  · exact .of_eq (G.ofItems_for hconf htype)
  · rw [G.flatMap_share_child? hconf htype [("value", .expr), ("body", .stmt)]
      rfl]
    exact .of_eq (by simp [loopScript, loopHeadScript, Way.isStatement, Mode.isStatement])

/-! ### Try statements -/

/-- The content of a part whose content is read as statements. -/
theorem of_part_of_every {type : String} (htype : t.type = type) (hpart : type ∈ partTypes)
    (hlambda : type ≠ "lambda_expression")
    (h : everySlot type (fun slot => slot.isSilent || slot.isRead true type .stmt) = true) :
    G.of true t = t.content.flatMap fun c => G.of true c.1 := by
  rw [G.of_part (htype ▸ hpart), G.flatMap_share_of_every hconf htype .stmt hlambda h]
  rfl

/-- The content of a child that holds parts of a statement. -/
theorem flatMap_contentIn_stmts {type : String} (htype : t.type = type) (field part : String)
    (hslots : everySlot type (fun slot => slot.role != some field || slot.isWithin [part]) = true)
    (hpart : part ∈ partTypes ∧ part ≠ "lambda_expression")
    (hread : everySlot part (fun slot => slot.isSilent || slot.isRead true part .stmt) = true)
    (types : List String) (htypes : everySlot part (Slot.isWithin types) = true)
    {f : Subtree t → List α}
    (hf : ∀ c : Subtree t, c.1.conforms = true → c.1.type ∈ types → f c = G.of true c.1) :
    (t.contentIn field).flatMap f = (t.child? field).toList.flatMap fun c => G.of true c.1 := by
  unfold contentIn
  cases hchild : t.child? field with
  | none => rfl
  | some p =>
    have hptype := List.mem_singleton.1 (mem_content_of_role hconf htype [part] hslots hchild).2
    have hpconf := conforms_of_mem_pieces hconf (mem_pieces_of_child? hchild).1
    rw [Option.toList_some, List.flatMap_singleton, List.flatMap_map,
      G.of_part_of_every hpconf hptype hpart.1 hpart.2 hread]
    refine List.flatMap_congr fun c hc => ?_
    have hc := mem_pieces_of_mem_content hc
    obtain ⟨slot, hwithin, -, hadmits⟩ := exists_slot_of_every hpconf hptype htypes hc
    exact hf (p.trans c) (conforms_of_mem_pieces hpconf hc) (slot.mem_of_isWithin hwithin hadmits).2

omit hconf in
theorem ofItems_resourceScript {r : Subtree t} (hconf : r.1.conforms = true)
    (htype : r.1.type = "resource") : G.ofItems (resourceScript r) = G.of true r.1 := by
  have hpart : r.1.type ∈ partTypes := by
    rw [htype]
    decide
  have hname : inRole (some "name") r.1.pieces = (r.1.child? "name").toList :=
    inRole_eq_child? hconf htype rfl
  have hvalue : inRole (some "value") r.1.pieces = (r.1.child? "value").toList :=
    inRole_eq_child? hconf htype rfl
  rw [G.of_part hpart, G.flatMap_share hconf htype [(some "value", .expr), (none, .expr)]
    rfl]
  simp only [List.flatMap_cons, List.flatMap_nil, List.append_nil, Way.isStatement, hvalue]
  unfold resourceScript
  rcases accepts_or_accepts_of_type hconf htype rfl with haccepts | haccepts
  · -- a variable is declared
    have hmodifiers := G.flatMap_inRole_of_isSilent hconf haccepts (r := none) rfl false
    simp only [accepts_optional, accepts_one] at haccepts
    obtain ⟨_, _, hpieces, -, _, _, rfl, -, n, _, rfl, ⟨hrole, -⟩, -⟩ := haccepts
    have hn : n ∈ (r.1.child? "name").toList := by
      rw [← hname, hpieces]
      exact List.mem_filter.2 ⟨by simp, beq_iff_eq.2 hrole⟩
    rw [Option.mem_toList.1 hn, hmodifiers, List.append_nil]
    dsimp only
    rw [ofItems_append, ofItems_introduce, List.append_nil, ofItems_value]
  · -- a variable is used
    rw [inRole_eq_nil haccepts rfl] at hname hvalue
    rw [Option.toList_eq_nil_iff.1 hname.symm, ← hvalue, ← content_eq_inRole haccepts rfl]
    have hswept := G.flatMap_swept (t := r.1) (by rw [htype]; decide)
    rw [← G.of_part hpart] at hswept
    exact (List.append_nil _).trans hswept

omit hconf in
/-- The clauses of a try statement. -/
theorem ofItems_clauseScript {c : Subtree t} (hconf : c.1.conforms = true) :
    G.ofItems (clauseScript c) =
      if c.1.type ∈ ["catch_clause", "finally_clause"] then G.of true c.1 else [] := by
  unfold clauseScript
  split
  · rename_i hcatch
    have htype := eq_of_beq hcatch
    rw [if_pos (by simp [htype]), G.of_part (by rw [htype]; decide),
      G.flatMap_share_child? hconf htype [("body", .stmt)] rfl, catchScript]
    simp [Way.isStatement, Mode.isStatement, Subtree.trans]
  · rename_i hcatch
    split
    · rename_i hfinally
      have htype := eq_of_beq hfinally
      have hfirst : c.1.contentOf? ["block"] = c.1.firstContent? := by
        have hblock : ∀ b ∈ c.1.content, b.1.type = "block" := fun b hb =>
          List.mem_singleton.1 (type_mem_of_role hconf (mem_pieces_of_mem_content hb) htype
            (fun _ => true) rfl ["block"] rfl rfl)
        rw [contentOf?, firstContent?_eq_head?]
        cases hcontent : c.1.content with
        | nil => rfl
        | cons b rest =>
          have hb := hblock b (by rw [hcontent]; exact List.mem_cons_self)
          rw [List.find?_cons_of_pos (by simp [hb]), List.head?_cons]
      rw [if_pos (by simp [htype]), hfirst, ofItems_visits,
        G.of_part_of_every hconf htype (by decide) (by decide) rfl,
        content_eq_firstContent? hconf htype rfl]
      rfl
    · rename_i hfinally
      rw [if_neg (by simp_all)]
      rfl

/-- The clauses of a try statement have no role. -/
theorem flatMap_clauses (htype : t.type ∈ ["try_statement", "try_with_resources_statement"]) :
    t.content.flatMap (fun c => G.ofItems (clauseScript c)) =
      (inRole none t.pieces).flatMap fun c => G.of true c.1 := by
  have hslots : everySlot t.type (fun slot => slot.isWithin (if slot.role == none
      then ["catch_clause", "finally_clause"] else ["block", "resource_specification"])) = true :=
    (by decide : ∀ type ∈ ["try_statement", "try_with_resources_statement"],
      everySlot type (fun slot => slot.isWithin (if slot.role == none
        then ["catch_clause", "finally_clause"] else ["block", "resource_specification"])) = true)
      _ htype
  rw [content_eq_filter_pieces, inRole, flatMap_filter_ite, flatMap_filter_ite]
  refine List.flatMap_congr fun c hc => ?_
  obtain ⟨slot, hwithin, hrole, hadmits⟩ := exists_slot_of_every hconf rfl hslots hc
  obtain ⟨hcontent, hctype⟩ := slot.mem_of_isWithin hwithin hadmits
  rw [hcontent, if_pos rfl, G.ofItems_clauseScript (conforms_of_mem_pieces hconf hc), hrole]
  cases hnone : slot.role == none with
  | true =>
    rw [hnone, if_pos rfl] at hctype
    rw [if_pos hctype, if_pos rfl]
  | false =>
    rw [hnone, if_neg Bool.false_ne_true] at hctype
    rw [if_neg Bool.false_ne_true, if_neg]
    exact (by decide : ∀ type ∈ ["block", "resource_specification"],
      type ∉ ["catch_clause", "finally_clause"]) _ hctype

/-- **A try statement** with its resources, its block and its clauses. -/
theorem ofItems_tryScript (hform : StmtForm.guarded.HasType t.type) :
    G.ofItems (t.guardedScript ++ t.content.flatMap clauseScript) =
      t.pieces.flatMap (G.share true t) := by
  have htype : t.type = "try_statement" ∨ t.type = "try_with_resources_statement" := by
    simpa [StmtForm.HasType] using hform
  have hroles : t.pieces.flatMap (G.share true t) =
      (t.child? "resources").toList.flatMap (fun c => G.of true c.1) ++
        ((t.child? "body").toList.flatMap (fun c => G.of true c.1) ++
          (inRole none t.pieces).flatMap fun c => G.of true c.1) := by
    rcases htype with htype | htype <;>
      rw [G.flatMap_share hconf htype [(some "resources", .stmt), (some "body", .stmt), (none, .stmt)]
          rfl, List.flatMap_cons, List.flatMap_cons, List.flatMap_singleton,
        inRole_eq_child? hconf htype rfl,
        inRole_eq_child? hconf htype rfl] <;>
      rfl
  have hresources : (t.contentIn "resources").flatMap (fun r => G.ofItems (resourceScript r)) =
      (t.child? "resources").toList.flatMap fun c => G.of true c.1 := by
    rcases htype with htype | htype <;>
      exact G.flatMap_contentIn_stmts hconf htype "resources" "resource_specification"
        rfl (by decide) rfl ["resource"] rfl
        fun r hr hrtype => G.ofItems_resourceScript hr (List.mem_singleton.1 hrtype)
  rw [hroles, ofItems_append, guardedScript, ofItems_scope, ofItems_append, ofItems_flatMap,
    ofItems_flatMap, hresources, G.flatMap_clauses hconf hform, ofItems_map_visit, List.append_assoc]
  rfl

/-! ### Switches -/

/-- Whether only labels or only statements stand in a slot of a group. -/
def slotOfGroup (type : String) (slot : Slot) : Bool :=
  (slot.isWithin ["switch_label"] && slot.isSkipped true type) ||
    (slot.isRead true type .stmt && slot.holds [] && (type != "switch_rule" ||
      slot.isWithin ["expression_statement", "throw_statement", "block"]))

omit hconf in
/-- The items of a group of a switch, the labels apart. -/
theorem ofItems_group {g : Subtree t} (hconf : g.1.conforms = true) (htype : g.1.type ∈ groupTypes) :
    (g.1.content.map g.trans).flatMap (fun c => G.ofItems (switchItemScript g.1 c)) =
      G.of true g.1 := by
  have hlambda : g.1.type ≠ "lambda_expression" := (by decide :
    ∀ type ∈ groupTypes, type ≠ "lambda_expression") _ htype
  have hslots : everySlot g.1.type (slotOfGroup g.1.type) = true :=
    (by decide : ∀ type ∈ groupTypes, everySlot type (slotOfGroup type) = true) _ htype
  rw [G.of_part ((by decide : ∀ type ∈ groupTypes, type ∈ partTypes) _ htype),
    ← G.flatMap_content, List.flatMap_map]
  refine List.flatMap_congr fun c hc => ?_
  have hc := mem_pieces_of_mem_content hc
  obtain ⟨slot, hslot, hrole, hadmits⟩ := exists_slot_of_every hconf rfl hslots hc
  have hbelow : (g.trans c).1 = c.1 := rfl
  rw [switchItemScript, hbelow]
  rcases Bool.or_eq_true_iff.1 hslot with hlabel | hstatement
  · obtain ⟨hwithin, hskipped⟩ := Bool.and_eq_true_iff.1 hlabel
    have hctype := (slot.mem_of_isWithin hwithin hadmits).2
    rw [G.share_of_isSkipped hconf hlambda hskipped hc hrole hadmits,
      if_pos (beq_iff_eq.2 (List.mem_singleton.1 hctype))]
    rfl
  · simp only [Bool.and_eq_true, Bool.or_eq_true, bne_iff_ne] at hstatement
    obtain ⟨⟨hread, hholds⟩, hrule⟩ := hstatement
    have hctype := slot.mem_of_holds hholds hadmits
    have hlabel := (by decide : ∀ type ∈ ";" :: statementTypes, type ≠ "switch_label") _ hctype
    rw [G.share_of_isRead hlambda hread hrole hadmits, if_neg fun h => hlabel (eq_of_beq h), if_neg]
    · exact List.append_nil _
    · intro hexpr
      obtain ⟨htype, hnot⟩ := Bool.and_eq_true_iff.1 hexpr
      have hwithin := hrule.resolve_left fun h => h (eq_of_beq htype)
      exact of_decide_eq_true hnot (slot.mem_of_isWithin hwithin hadmits).2

theorem ofItems_switchScript (htype : t.type = "switch_expression") :
    G.ofItems t.switchScript = t.pieces.flatMap (G.share true t) := by
  have hgroups := G.flatMap_contentIn_stmts hconf htype "body" "switch_block"
    rfl (by decide) rfl groupTypes rfl
    fun g hg hgtype => G.ofItems_group hg hgtype
  rw [G.flatMap_share_child? hconf htype [("condition", .expr), ("body", .stmt)] rfl,
    switchScript, ofItems_append, ofItems_scope, ofItems_flatMap, ofItems_exprs]
  simp only [ofItems_flatMap, hgroups, List.flatMap_cons, List.flatMap_nil, List.append_nil,
    Way.isStatement]

/-! ### Other statements -/

theorem ofItems_branchScript (htype : t.type = "if_statement") :
    G.ofItems (Item.exprs (t.child? "condition").toList
      ++ ((t.child? "consequence").toList ++ (t.child? "alternative").toList).map (.visit .stmt)) =
      t.pieces.flatMap (G.share true t) := by
  rw [G.flatMap_share_child? hconf htype
    [("condition", .expr), ("consequence", .stmt), ("alternative", .stmt)] rfl]
  simp [Way.isStatement, Mode.isStatement]

theorem ofItems_synchronizedScript (htype : t.type = "synchronized_statement") :
    G.ofItems (Item.exprs (t.firstContent?.filter (·.1.type == "parenthesized_expression")).toList
      ++ (t.child? "body").toList.map (.visit .block)) = t.pieces.flatMap (G.share true t) := by
  have haccepts := accepts_of_type hconf htype rfl
  simp only [accepts_one, accepts_nil, Shape.admits_of, List.mem_singleton] at haccepts
  obtain ⟨l, _, hpieces, ⟨hlrole, hl, hltype⟩, b, _, rfl, ⟨hbrole, -⟩, rfl⟩ := haccepts
  have hlock : t.firstContent? = some l := by
    simp [firstContent?_eq_head?, content_eq_filter_pieces, hpieces, hl]
  have hnone : inRole none t.pieces = [l] := by
    simp [inRole, hpieces, hlrole, hbrole]
  rw [G.flatMap_share hconf htype [(none, .expr), (some "body", .stmt)] rfl,
    List.flatMap_cons, List.flatMap_singleton, hnone,
    inRole_eq_child? hconf htype rfl, hlock, Option.filter_some,
    if_pos (beq_iff_eq.2 hltype)]
  simp [Way.isStatement, Mode.isStatement]

/-- The name of a labeled statement is read in the place of the statement, if that is missing. -/
theorem ofItems_labeledScript (htype : t.type = "labeled_statement") :
    G.ofItems (t.content.getLast?.toList.map (.visit .stmt)) =
      t.pieces.flatMap (G.share true t) := by
  have haccepts := accepts_of_type hconf htype rfl
  have hcontent := content_eq_inRole haccepts rfl
  rw [G.flatMap_share_of_every hconf htype .stmt (by decide) rfl, ofItems_map_visit]
  simp only [accepts_one, accepts_optional, accepts_nil, Shape.admits_of, List.mem_singleton]
    at haccepts
  obtain ⟨n, _, hpieces, ⟨hnrole, -, hntype⟩, here, _, rfl, hhere, rfl⟩ := haccepts
  have hname : G.of true n.1 = [] :=
    G.of_silent (conforms_of_mem_pieces hconf (by simp [hpieces])) (by rw [hntype]; decide)
  cases here with
  | none =>
    have hsole : t.content = [n] := by simp [hcontent, hpieces, inRole, hnrole]
    simp [hsole, Way.isStatement, Mode.isStatement]
  | some c =>
    have hboth : t.content = [n, c] := by simp [hcontent, hpieces, inRole, hnrole, (hhere c (by simp)).1]
    simp [hboth, hname, Way.isStatement, Mode.isStatement]

theorem ofItems_otherScript (hform : StmtForm.other.HasType t.type) (hsuits : Mode.stmt.Suits t) :
    G.ofItems (Item.exprs (t.content.filter fun c => !c.1.isClosed && c.1.type ≠ "identifier")) =
      t.pieces.flatMap (G.share true t) := by
  obtain ⟨hcontainer, hselective⟩ := (by decide :
    ∀ type ∈ "identifier" :: ";" :: statementTypes, type ∉ stmtTypes → type ∉ containerTypes ∧
      type ∉ ["lambda_expression", "cast_expression", "array_creation_expression",
        "local_variable_declaration", "resource"]) _ hsuits hform
  simp only [List.mem_cons, List.not_mem_nil, or_false, not_or] at hselective
  have hvisits (c : Subtree t) : t.visits true c.1 = true := by
    unfold Tree.visits
    split <;> first | rfl | simp_all [containerTypes]
  rw [G.flatMap_share_of_swept hselective.1 (fun c _ => hvisits c) (fun c _ => by
    simp [places, hcontainer]), ofItems_exprs, flatMap_filter_ite]
  refine List.flatMap_congr fun c hc => ?_
  split
  · rfl
  · rename_i hskip
    refine (G.of_silent (conforms_of_mem_pieces hconf (mem_pieces_of_mem_content hc)) ?_).symm
    simp only [Bool.and_eq_true, Bool.not_eq_true', decide_eq_true_eq, not_and_or, not_not,
      Bool.not_eq_false] at hskip
    rcases hskip with hclosed | hname
    · exact List.mem_append_left _ (List.mem_append_left _ (List.contains_iff_mem.1 hclosed))
    · rw [hname]
      decide

/-- **What is gathered from the nodes that a statement visits** is what its children add. -/
theorem matches_stmtScript (hsuits : Mode.stmt.Suits t) (hdeclares : t.type ∉ typeDeclarations) :
    G.Matches (G.ofItems t.stmtScript) (t.pieces.flatMap (G.share true t)) := by
  have hform := StmtForm.hasType_ofType t.type
  have hexcluded {type : String} (htype : t.type = type)
      (hnot : type ∉ "identifier" :: ";" :: statementTypes) : False := hnot (htype ▸ hsuits)
  unfold stmtScript
  generalize StmtForm.ofType t.type = form at hform ⊢
  cases form with
  | comment =>
    exact absurd hsuits ((by decide : ∀ type ∈ commentTypes,
      type ∉ "identifier" :: ";" :: statementTypes) _ hform)
  | localType =>
    rcases List.mem_cons.1 hform with htype | htype
    · exact (hexcluded htype (by decide)).elim
    · exact absurd htype hdeclares
  | block => exact .of_eq (G.ofItems_blockScript hconf hform)
  | expression | ret =>
    exact .of_eq (G.ofItems_firstContent? hconf hform (by decide) rfl
      rfl)
  | declaration => exact .of_eq (G.ofItems_declarationScript hconf hform)
  | branch => exact .of_eq (G.ofItems_branchScript hconf hform)
  | loop kind => exact G.matches_loopScript hconf hform
  | guarded => exact .of_eq (G.ofItems_tryScript hconf hform)
  | switch =>
    have htype : t.type = "switch_expression" ∨ t.type = "switch_statement" := by
      simpa [StmtForm.HasType] using hform
    rcases htype with htype | htype
    · exact .of_eq (G.ofItems_switchScript hconf htype)
    · exact (hexcluded htype (by decide)).elim
  | synchronized => exact .of_eq (G.ofItems_synchronizedScript hconf hform)
  | labeled => exact .of_eq (G.ofItems_labeledScript hconf hform)
  | other => exact .of_eq (G.ofItems_otherScript hconf hform hsuits)

/-- **What is gathered from the nodes that a script visits** is what the children of the node add. -/
theorem matches_script {mode : Mode} (hsuits : mode.Suits t) (hopen : t.type ∉ sealedTypes)
    (hdeclares : mode = .stmt → t.type ∉ typeDeclarations) (henters : G.EntersLambdas) :
    G.Matches (G.ofItems (t.script mode)) (G.inside mode.isStatement t) := by
  cases mode with
  | expr =>
    by_cases hcreation : t.type = "object_creation_expression"
    · obtain ⟨first, rest, hcontent, hitems⟩ := G.ofItems_creation hconf hcreation
      exact .of_eq (hitems.trans (G.inside_creation hcreation hcontent).symm)
    · exact .of_eq ((G.ofItems_exprScript hconf henters hopen hcreation).trans (G.inside_eq hcreation).symm)
  | stmt =>
    have hcreation := (by decide : ∀ type ∈ "identifier" :: ";" :: statementTypes,
      type ≠ "object_creation_expression") _ hsuits
    have hmatches := G.matches_stmtScript hconf hsuits (hdeclares rfl)
    rwa [← G.inside_eq hcreation] at hmatches
  | block =>
    have hcreation := (by decide : ∀ type ∈ ["block", "constructor_body"],
      type ≠ "object_creation_expression") _ hsuits
    exact .of_eq ((G.ofItems_blockScript hconf hsuits).trans (G.inside_eq hcreation).symm)

end

end Gathering

end TaintFlow.Java
