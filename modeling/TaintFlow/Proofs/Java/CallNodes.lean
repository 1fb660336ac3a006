import TaintFlow.Proofs.Java.Production

/-!
# Calls in a body

Two lists of the calls below a node.

* `writtenCalls` : the calls that a body makes itself.  Calls in class bodies, in local types, in
  the labels of statement switches, in literals, types, annotations and parameters are not among
  them.
* `readCalls` : the calls that are met when a node is read.  A switch in an expression is swept
  without regard to statements, so that more is met in it.

No written call is missed (`writtenCalls_sublist`), and the lists are the same where labels, local
types and annotations hold no calls (`writtenCalls_eq`).
-/

namespace TaintFlow.Java

/-- Types of the nodes that are calls. -/
def callTypes : List String :=
  ["method_invocation", "object_creation_expression"]

/-- Types of the nodes inside which nothing is ever read. -/
def sealedTypes : List String :=
  closedTypes ++ literalTypes

/-- Types of the nodes in which calls do not belong to the body around them. -/
def hiddenTypes : List String :=
  sealedTypes ++ typeDeclarations ++ annotationTypes ++ ["annotated_type", "catch_formal_parameter"]

/-- Types of the nodes that statements stand in. -/
def containerTypes : List String :=
  ["block", "constructor_body", "if_statement", "while_statement", "do_statement", "for_statement",
   "enhanced_for_statement", "try_statement", "try_with_resources_statement",
   "resource_specification", "catch_clause", "finally_clause", "switch_expression", "switch_block",
   "switch_block_statement_group", "switch_rule", "synchronized_statement", "labeled_statement"]

/-- Types of a switch and of the node around its groups. -/
def switchTypes : List String :=
  ["switch_expression", "switch_block"]

/-- Types of the groups of a switch. -/
def groupTypes : List String :=
  ["switch_block_statement_group", "switch_rule"]

/-- Types of statements and of the parts of statements that are no expressions. -/
def placedTypes : List String :=
  statementTypes ++ ["constructor_body", "resource_specification", "resource", "catch_clause",
    "finally_clause", "switch_block", "switch_block_statement_group", "switch_rule"]

/-- Roles of the expressions of a statement. -/
def operandRoles : List (Option String) :=
  [some "condition", some "update", some "value"]

namespace Tree

/-- Whether a node is a call. -/
def isCall (t : Tree) : Bool :=
  callTypes.contains t.type

/-- Whether nothing inside a node is ever read. -/
def isSealed (t : Tree) : Bool :=
  sealedTypes.contains t.type

/-- Whether a node is an annotation. -/
def isAnnotating (t : Tree) : Bool :=
  annotationTypes.contains t.type

/-- Whether a child of a node stands there as a statement, or as a part of one. -/
def places (t c : Tree) : Bool :=
  containerTypes.contains t.type && placedTypes.contains c.type &&
    !operandRoles.contains c.field &&
    (c.field != some "init" || c.type == "local_variable_declaration")

/-! ### Calls that are written -/

/-- Whether the calls inside a node belong to another declaration, to a type, to an annotation or to
a parameter. -/
def isHidden (t : Tree) : Bool :=
  hiddenTypes.contains t.type

/-- Whether a child holds the parameters of a lambda, or is a label of a statement switch;
`statement` tells whether the node around it belongs to a statement. -/
def conceals (statement : Bool) (t c : Tree) : Bool :=
  (t.type == "lambda_expression" && c.field == some "parameters") ||
    (statement && groupTypes.contains t.type && c.type == "switch_label")

/-- Whether a child belongs to a statement.  The parts of a switch do if the switch does. -/
def bearsStatement (statement : Bool) (t c : Tree) : Bool :=
  if t.type == "lambda_expression" then c.type == "block"
  else t.places c && (statement || !switchTypes.contains t.type)

/-- The calls that are written in a node itself. -/
def writtenCalls (statement : Bool) (t : Tree) : List Tree :=
  if t.isHidden then []
  else
    (if t.isCall then [t] else []) ++
      (t.content.filter fun c => !t.conceals statement c.1).flatMap fun c =>
        writtenCalls (t.bearsStatement statement c.1) c.1
termination_by t.size
decreasing_by exact c.2

/-! ### Calls that are read -/

/-- Whether a child is looked at when a node is read, as a statement or as an expression. -/
def visits (statement : Bool) (t c : Tree) : Bool :=
  match t.type with
  | "lambda_expression" => c.field != some "parameters"
  | "cast_expression" => c.field != some "type"
  | "array_creation_expression" => c.field == some "dimensions" || c.field == some "value"
  | "local_variable_declaration" => !statement || c.field != some "type"
  | "enhanced_for_statement" => !statement || c.field != some "type"
  | "resource" => !statement || c.field != some "type"
  | "catch_clause" => !statement || c.type != "catch_formal_parameter"
  | "switch_block_statement_group" => !statement || c.type != "switch_label"
  | "switch_rule" => !statement || c.type != "switch_label"
  | _ => true

/-- The content of a node that is looked at when it is read.  Of the annotations of a created type
only one that comes first of all is. -/
def visited (statement : Bool) (t : Tree) : List (Subtree t) :=
  if t.type == "object_creation_expression" then
    t.content.head?.toList ++ t.content.tail.filter fun c => !c.1.isAnnotating
  else t.content.filter fun c => t.visits statement c.1

/-- Whether a child is read as a statement. -/
def readsStatement (statement : Bool) (t c : Tree) : Bool :=
  if t.type == "lambda_expression" then c.type == "block" else statement && t.places c

/-- The calls that are met when a node is read, as a statement or as an expression. -/
def readCalls (statement : Bool) (t : Tree) : List Tree :=
  if t.isSealed || (statement && t.isTypeDeclaration) then []
  else
    (if t.isCall then [t] else []) ++
      (t.visited statement).flatMap fun c => readCalls (t.readsStatement statement c.1) c.1
termination_by t.size
decreasing_by exact c.2

/-! ### Shares of the children -/

/-- The written calls that a child adds to those of a node. -/
def writtenShare (statement : Bool) (t : Tree) (c : Subtree t) : List Tree :=
  if t.conceals statement c.1 then [] else writtenCalls (t.bearsStatement statement c.1) c.1

/-- The calls in a child that are met when a node is read. -/
def readShare (statement : Bool) (t : Tree) (c : Subtree t) : List Tree :=
  if c.1.isContent && t.visits statement c.1 then readCalls (t.readsStatement statement c.1) c.1
  else []

theorem flatMap_filter_ite {α β : Type} (p : α → Bool) (f : α → List β) (l : List α) :
    (l.filter p).flatMap f = l.flatMap fun x => if p x then f x else [] := by
  induction l with
  | nil => rfl
  | cons x l ih => cases hp : p x <;> simp [hp, ih]

variable {t : Tree}

theorem writtenCalls_of_isHidden (statement : Bool) (h : t.isHidden = true) :
    t.writtenCalls statement = [] := by
  rw [writtenCalls, if_pos h]

theorem writtenCalls_eq_flatMap (statement : Bool) (h : t.isHidden = false) :
    t.writtenCalls statement =
      (if t.isCall then [t] else []) ++ t.content.flatMap (t.writtenShare statement) := by
  rw [writtenCalls, h, if_neg Bool.false_ne_true, flatMap_filter_ite]
  congr 2
  funext c
  rw [writtenShare]
  cases t.conceals statement c.1 <;> rfl

theorem readCalls_of_isSealed (statement : Bool) (h : t.isSealed = true) :
    t.readCalls statement = [] := by
  rw [readCalls, h, Bool.true_or, if_pos rfl]

theorem readCalls_of_isTypeDeclaration (h : t.isTypeDeclaration = true) :
    t.readCalls true = [] := by
  rw [readCalls, h, Bool.true_and, Bool.or_true, if_pos rfl]

theorem readCalls_eq_visited {statement : Bool} (hsealed : t.isSealed = false)
    (hdecl : (statement && t.isTypeDeclaration) = false) :
    t.readCalls statement = (if t.isCall then [t] else []) ++
      (t.visited statement).flatMap fun c => c.1.readCalls (t.readsStatement statement c.1) := by
  rw [readCalls, hsealed, hdecl, Bool.or_false, if_neg Bool.false_ne_true]

theorem flatMap_visited (hcreation : t.type ≠ "object_creation_expression") (statement : Bool) :
    (t.visited statement).flatMap (fun c => c.1.readCalls (t.readsStatement statement c.1)) =
      t.pieces.flatMap (t.readShare statement) := by
  rw [visited, if_neg (by simpa using hcreation), content_eq_filter_pieces, List.filter_filter,
    flatMap_filter_ite]
  congr 1
  funext c
  rw [readShare, Bool.and_comm]

theorem readCalls_eq_flatMap {statement : Bool} (hsealed : t.isSealed = false)
    (hdecl : (statement && t.isTypeDeclaration) = false)
    (hcreation : t.type ≠ "object_creation_expression") :
    t.readCalls statement =
      (if t.isCall then [t] else []) ++ t.pieces.flatMap (t.readShare statement) := by
  rw [readCalls_eq_visited hsealed hdecl, flatMap_visited hcreation]

theorem flatMap_readShare (statement : Bool) (t : Tree) :
    t.content.flatMap (t.readShare statement) = t.pieces.flatMap (t.readShare statement) := by
  rw [content_eq_filter_pieces, flatMap_filter_ite]
  congr 1
  funext c
  rw [readShare]
  cases c.1.isContent <;> rfl

/-- Types of the nodes that are no calls and whose content is looked at child by child. -/
def isPlainType (type : String) : Bool :=
  !(sealedTypes ++ typeDeclarations ++ callTypes).contains type

theorem readCalls_of_type {type : String} (htype : t.type = type) (h : isPlainType type = true)
    (statement : Bool) : t.readCalls statement = t.pieces.flatMap (t.readShare statement) := by
  subst htype
  have hnot : t.type ∉ sealedTypes ∧ t.type ∉ typeDeclarations ∧ t.type ∉ callTypes := by
    simpa [isPlainType, and_assoc] using h
  obtain ⟨hsealed, hdecl, hcall⟩ := hnot
  have hcreation : t.type ≠ "object_creation_expression" := by
    intro he
    exact hcall (he ▸ (by decide : "object_creation_expression" ∈ callTypes))
  have hdecl : (statement && t.isTypeDeclaration) = false := by simp [isTypeDeclaration, hdecl]
  rw [readCalls_eq_flatMap (by simpa [isSealed] using hsealed) hdecl hcreation]
  simp [isCall, hcall]

/-- Whether all content of a node with the given type is read as expressions, if the node is, and
the node is no call. -/
def isSweptType (type : String) : Bool :=
  !(sealedTypes ++ callTypes ++
    ["lambda_expression", "cast_expression", "array_creation_expression"]).contains type

theorem readCalls_of_isSweptType (h : isSweptType t.type = true) :
    t.readCalls false = t.content.flatMap fun c => c.1.readCalls false := by
  have hnot : t.type ∉ sealedTypes ∧ t.type ∉ callTypes ∧ t.type ≠ "lambda_expression" ∧
      t.type ≠ "cast_expression" ∧ t.type ≠ "array_creation_expression" := by
    simpa [isSweptType, and_assoc] using h
  obtain ⟨hsealed, hcall, hlambda, hcast, harray⟩ := hnot
  have hcreation : t.type ≠ "object_creation_expression" := by
    intro he
    exact hcall (he ▸ (by decide : "object_creation_expression" ∈ callTypes))
  have hvisits (c : Tree) : t.visits false c = true := by
    unfold visits
    split <;> first | contradiction | rfl
  have hshare (c : Subtree t) :
      t.readShare false c = if c.1.isContent then c.1.readCalls false else [] := by
    simp [readShare, hvisits, readsStatement, hlambda]
  rw [readCalls_eq_flatMap (by simpa [isSealed] using hsealed) rfl hcreation,
    content_eq_filter_pieces, flatMap_filter_ite, funext hshare]
  simp [isCall, hcall]

/-! ### Written calls among those that are read -/

/-- Content in roles for which a type has only slots with hidden nodes is hidden. -/
theorem isHidden_of_role (hconf : t.conforms = true) {c : Subtree t} (hc : c ∈ t.content)
    {type : String} (htype : t.type = type) (p : Option String → Bool) (hp : p c.1.field = true)
    (hsome : (productions type).isEmpty = false)
    (hslots : ((productions type).all fun slots => slots.all fun slot =>
      !p slot.role || slot.isWithin hiddenTypes) = true) : c.1.isHidden = true :=
  List.contains_iff_mem.2
    (type_mem_of_role hconf (mem_pieces_of_mem_content hc) htype p hp hiddenTypes hsome hslots)

/-- What is not looked at in a node and not concealed is hidden. -/
theorem isHidden_of_not_visits (hconf : t.conforms = true) {written read : Bool}
    (hflags : read = true → written = true) {c : Subtree t} (hc : c ∈ t.content)
    (hconceals : t.conceals written c.1 = false) (hvisits : t.visits read c.1 = false) :
    c.1.isHidden = true := by
  have hlabel (hread : (!read || c.1.type != "switch_label") = false)
      (htype : t.type ∈ groupTypes) : False := by
    obtain ⟨hread, hlabel⟩ : read = true ∧ c.1.type = "switch_label" := by simpa using hread
    simp [conceals, hflags hread, htype, hlabel] at hconceals
  have htypeRole (hread : (!read || c.1.field != some "type") = false) :
      (c.1.field == some "type") = true := by
    have h : read = true ∧ c.1.field = some "type" := by simpa using hread
    simp [h.2]
  -- what a line of `visits` leaves out stands in slots of hidden types, labels and parameters apart
  unfold visits at hvisits
  split at hvisits
  next htype =>
    have hfield : c.1.field = some "parameters" := by simpa using hvisits
    simp [conceals, htype, hfield] at hconceals
  next htype =>
    exact isHidden_of_role hconf hc htype (· == some "type") (by simpa using hvisits) rfl rfl
  next htype =>
    have hrole : (!(c.1.field == some "dimensions" || c.1.field == some "value")) = true := by
      rw [hvisits, Bool.not_false]
    exact isHidden_of_role hconf hc htype
      (fun role => !(role == some "dimensions" || role == some "value")) hrole rfl rfl
  next htype =>
    exact isHidden_of_role hconf hc htype (· == some "type") (htypeRole hvisits) rfl rfl
  next htype =>
    exact isHidden_of_role hconf hc htype (· == some "type") (htypeRole hvisits) rfl rfl
  next htype =>
    exact isHidden_of_role hconf hc htype (· == some "type") (htypeRole hvisits) rfl rfl
  next =>
    obtain ⟨-, hparameter⟩ : read = true ∧ c.1.type = "catch_formal_parameter" := by
      simpa using hvisits
    rw [isHidden, hparameter]
    rfl
  next htype => exact (hlabel hvisits (by simp [htype, groupTypes])).elim
  next htype => exact (hlabel hvisits (by simp [htype, groupTypes])).elim
  next => cases hvisits

/-- Nothing is written in a node of a type whose slots hold hidden nodes only. -/
theorem writtenCalls_of_hides (hconf : t.conforms = true) {type : String} (htype : t.type = type)
    (hcall : callTypes.contains type = false) (hsome : (productions type).isEmpty = false)
    (hslots : ((productions type).all fun slots => slots.all (Slot.isWithin hiddenTypes)) = true)
    (statement : Bool) :
    t.writtenCalls statement = [] := by
  cases hhidden : t.isHidden with
  | true => exact writtenCalls_of_isHidden statement hhidden
  | false =>
    rw [writtenCalls_eq_flatMap statement hhidden, isCall, htype, hcall, if_neg Bool.false_ne_true,
      List.nil_append, List.flatMap_eq_nil_iff]
    intro c hc
    have hc : c.1.isHidden = true :=
      isHidden_of_role hconf hc htype (fun _ => true) rfl hsome (by simpa using hslots)
    rw [writtenShare, writtenCalls_of_isHidden _ hc, ite_self]

/-- Whether calls inside a node are read in some places although they are not the body's own. -/
def isAside (t : Tree) : Bool :=
  t.isTypeDeclaration || t.isAnnotating || t.type == "switch_label"

/-- In the parameter of a catch clause nothing is written. -/
theorem writtenCalls_catchParameter (hconf : t.conforms = true)
    (htype : t.type = "catch_formal_parameter") {c : Subtree t} (hc : c ∈ t.content)
    (statement : Bool) : c.1.writtenCalls statement = [] := by
  have hpieces := mem_pieces_of_mem_content hc
  have hconf' := conforms_of_mem_pieces hconf hpieces
  obtain ⟨slot, hslot, -, hadmits⟩ :=
    exists_slot_of_accepts (accepts_of_type hconf htype rfl) hpieces
  have htypes : c.1.type ∈
      ["modifiers", "catch_type", "identifier", "underscore_pattern", "dimensions"] := by
    simp only [List.mem_cons, List.not_mem_nil, or_false] at hslot
    rcases hslot with rfl | rfl | rfl | rfl <;>
      exact (by decide : ∀ type ∈ _, type ∈ _) _ (Shape.admits_of.1 hadmits).2
  simp only [List.mem_cons, List.not_mem_nil, or_false] at htypes
  rcases htypes with h | h | h | h | h
  · exact writtenCalls_of_isHidden _ (by rw [isHidden, h]; rfl)
  · exact writtenCalls_of_hides hconf' h rfl rfl rfl _
  · exact writtenCalls_of_hides hconf' h rfl rfl rfl _
  · exact writtenCalls_of_hides hconf' h rfl rfl rfl _
  · exact writtenCalls_of_isHidden _ (by rw [isHidden, h]; rfl)

end Tree

/-- A relation between lists that holds if it holds between their parts. -/
structure RespectsAppend (R : List Tree → List Tree → Prop) : Prop where
  refl : ∀ l, R l l
  append : ∀ {a b c d}, R a b → R c d → R (a ++ c) (b ++ d)

namespace RespectsAppend

variable {R : List Tree → List Tree → Prop} (hR : RespectsAppend R)

include hR

theorem flatMap {α : Type} {l : List α} {f g : α → List Tree} (h : ∀ x ∈ l, R (f x) (g x)) :
    R (l.flatMap f) (l.flatMap g) := by
  induction l with
  | nil => exact hR.refl []
  | cons x l ih =>
    obtain ⟨hx, hl⟩ := List.forall_mem_cons.1 h
    exact hR.append hx (ih hl)

theorem nil_flatMap {α : Type} {l : List α} {g : α → List Tree} (h : ∀ x ∈ l, R [] (g x)) :
    R [] (l.flatMap g) := by
  have hflatMap := hR.flatMap (f := fun _ => []) h
  rwa [List.flatMap_eq_nil_iff.2 fun _ _ => rfl] at hflatMap

end RespectsAppend

namespace Tree

theorem readsStatement_imp {t c : Tree} {written read : Bool}
    (hflags : read = true → written = true) (h : t.readsStatement read c = true) :
    t.bearsStatement written c = true ∧ placedTypes.contains c.type = true := by
  unfold readsStatement at h
  unfold bearsStatement
  split at h
  next htype =>
    rw [if_pos htype, eq_of_beq h]
    exact ⟨rfl, rfl⟩
  next htype =>
    obtain ⟨hread, hplaces⟩ := Bool.and_eq_true_iff.1 h
    rw [if_neg htype, hplaces, hflags hread]
    refine ⟨rfl, ?_⟩
    simp only [places, Bool.and_eq_true] at hplaces
    exact hplaces.1.1.2

theorem label_of_conceals_of_visits {t c : Tree} {written read : Bool}
    (hconceals : t.conceals written c = true) (hvisits : t.visits read c = true) :
    t.readsStatement read c = false ∧ c.type = "switch_label" := by
  simp only [conceals, groupTypes, Bool.or_eq_true, Bool.and_eq_true, beq_iff_eq,
    List.contains_iff_mem, List.mem_cons, List.not_mem_nil, or_false] at hconceals
  rcases hconceals with ⟨htype, hfield⟩ | ⟨⟨-, htype⟩, hlabel⟩
  · simp [visits, htype, hfield] at hvisits
  · refine ⟨?_, hlabel⟩
    rcases htype with htype | htype <;> simp_all [visits, readsStatement]

section

variable {R : List Tree → List Tree → Prop} (hR : RespectsAppend R) {t : Tree}
  (hconf : t.conforms = true) {written read : Bool} (hflags : read = true → written = true)

include hR hconf

/-- In a hidden node only what is read aside makes a difference. -/
theorem related_of_isHidden (haside : t.isAside = true → R [] (t.readCalls false))
    (hinner : ∀ c ∈ t.content, R (c.1.writtenCalls false) (c.1.readCalls false))
    (hplaced : read = true → placedTypes.contains t.type = true) (hhidden : t.isHidden = true) :
    R [] (t.readCalls read) := by
  have hunplaced (h : placedTypes.contains t.type = false) : read = false := by
    cases read with
    | false => rfl
    | true => exact (hplaced rfl).symm.trans h
  have hmem : t.type ∈ hiddenTypes := List.contains_iff_mem.1 hhidden
  simp only [hiddenTypes, List.mem_append] at hmem
  rcases hmem with ((hmem | hmem) | hmem) | hmem
  · rw [readCalls_of_isSealed _ (List.contains_iff_mem.2 hmem)]
    exact hR.refl []
  · have hdecl : t.isTypeDeclaration = true := List.contains_iff_mem.2 hmem
    cases read with
    | true =>
      rw [readCalls_of_isTypeDeclaration hdecl]
      exact hR.refl []
    | false => exact haside (by rw [isAside, hdecl]; rfl)
  · have hannotating : t.isAnnotating = true := List.contains_iff_mem.2 hmem
    have hplace : placedTypes.contains t.type = false :=
      (by decide : ∀ type ∈ annotationTypes, placedTypes.contains type = false) _ hmem
    rw [hunplaced hplace]
    exact haside (by rw [isAside, hannotating, Bool.or_true, Bool.true_or])
  · -- a type with annotations or the parameter of a catch clause, in which all is swept
    obtain ⟨hplace, hswept⟩ : placedTypes.contains t.type = false ∧ isSweptType t.type = true :=
      (by decide : ∀ type ∈ ["annotated_type", "catch_formal_parameter"],
        placedTypes.contains type = false ∧ isSweptType type = true) _ hmem
    rw [hunplaced hplace, readCalls_of_isSweptType hswept]
    refine hR.nil_flatMap fun c hc => ?_
    have hwritten : c.1.writtenCalls false = [] := by
      simp only [List.mem_cons, List.not_mem_nil, or_false] at hmem
      rcases hmem with htype | htype
      · exact writtenCalls_of_isHidden _
          (isHidden_of_role hconf hc htype (fun _ => true) rfl rfl rfl)
      · exact writtenCalls_catchParameter hconf htype hc false
    exact hwritten ▸ hinner c hc

include hflags

/-- A child adds related lists to those of the node around it. -/
theorem related_share {c : Subtree t} (hc : c ∈ t.content)
    (haside : c.1.isAside = true → R [] (c.1.readCalls false))
    (hinner : R (c.1.writtenCalls (t.bearsStatement written c.1))
      (c.1.readCalls (t.readsStatement read c.1))) :
    R (t.writtenShare written c) (t.readShare read c) := by
  rw [writtenShare, readShare, isContent_of_mem_content hc, Bool.true_and]
  cases hconceals : t.conceals written c.1 with
  | false =>
    cases hvisits : t.visits read c.1 with
    | true => exact hinner
    | false =>
      have hhidden := isHidden_of_not_visits hconf hflags hc hconceals hvisits
      rw [writtenCalls_of_isHidden _ hhidden]
      exact hR.refl []
  | true =>
    cases hvisits : t.visits read c.1 with
    | false => exact hR.refl []
    | true =>
      -- the label of a statement switch inside a switch in an expression
      obtain ⟨hread, hlabel⟩ := label_of_conceals_of_visits hconceals hvisits
      rw [hread]
      exact haside (by simp [isAside, hlabel])

omit hconf hflags in
/-- The children of the creation of an object add related lists. -/
theorem related_creation (htype : t.type = "object_creation_expression")
    (hinner : ∀ c ∈ t.content, R (c.1.writtenCalls (t.bearsStatement written c.1))
      (c.1.readCalls (t.readsStatement read c.1))) :
    R (t.content.flatMap (t.writtenShare written))
      ((t.visited read).flatMap fun c => c.1.readCalls (t.readsStatement read c.1)) := by
  have hwritten (c : Subtree t) :
      t.writtenShare written c = c.1.writtenCalls (t.bearsStatement written c.1) := by
    simp [writtenShare, conceals, groupTypes, htype]
  rw [visited, if_pos (by simp [htype])]
  cases hcontent : t.content with
  | nil => exact hR.refl []
  | cons c cs =>
    rw [hcontent] at hinner
    obtain ⟨hc, hcs⟩ := List.forall_mem_cons.1 hinner
    simp only [List.head?_cons, Option.toList_some, List.tail_cons, List.singleton_append,
      List.flatMap_cons, flatMap_filter_ite]
    refine hR.append (hwritten c ▸ hc) (hR.flatMap fun d hd => ?_)
    rw [hwritten]
    cases hannotating : d.1.isAnnotating with
    | false => exact hcs d hd
    | true =>
      have hhidden : d.1.isHidden = true := by
        have hmem : d.1.type ∈ annotationTypes := List.contains_iff_mem.1 hannotating
        exact List.contains_iff_mem.2
          ((by decide : ∀ type ∈ annotationTypes, type ∈ hiddenTypes) _ hmem)
      rw [writtenCalls_of_isHidden _ hhidden]
      exact hR.refl []

end

/-- The written calls of a node are related to those that are read in it, if what is read aside
makes no difference. -/
theorem related_calls {R : List Tree → List Tree → Prop} (hR : RespectsAppend R) {q : Tree → Bool}
    (haside : ∀ n : Tree, q n = true → n.isAside = true → R [] (n.readCalls false)) (t : Tree)
    (hconf : t.conforms = true) (hq : t.all q = true) {written read : Bool}
    (hflags : read = true → written = true)
    (hplaced : read = true → placedTypes.contains t.type = true) :
    R (t.writtenCalls written) (t.readCalls read) := by
  -- the flags differ inside a switch that is an expression: its blocks are swept, not read
  induction hsize : t.size using Nat.strongRecOn generalizing t written read with
  | ind n ih =>
    have hinner {c : Subtree t} (hc : c ∈ t.content) {written read : Bool}
        (hflags : read = true → written = true)
        (hplaced : read = true → placedTypes.contains c.1.type = true) :
        R (c.1.writtenCalls written) (c.1.readCalls read) := by
      have hpieces := mem_pieces_of_mem_content hc
      exact ih c.1.size (hsize ▸ c.2) c.1 (conforms_of_mem_pieces hconf hpieces)
        (all_of_mem hq (mem_parts_of_mem_pieces hpieces)) hflags hplaced rfl
    have hqc {c : Subtree t} (hc : c ∈ t.content) : q c.1 = true :=
      (all_eq_true.1 (all_of_mem hq (mem_parts_of_mem_pieces (mem_pieces_of_mem_content hc)))).1
    cases hhidden : t.isHidden with
    | true =>
      rw [writtenCalls_of_isHidden _ hhidden]
      exact related_of_isHidden hR hconf (haside t (all_eq_true.1 hq).1)
        (fun c hc => hinner hc id nofun) hplaced hhidden
    | false =>
      have hnot : t.type ∉ hiddenTypes := by simpa [isHidden] using hhidden
      have hsealed : t.isSealed = false := by simp_all [hiddenTypes, isSealed]
      have hdecl : t.isTypeDeclaration = false := by simp_all [hiddenTypes, isTypeDeclaration]
      have hshare {c : Subtree t} (hc : c ∈ t.content) :
          R (c.1.writtenCalls (t.bearsStatement written c.1))
            (c.1.readCalls (t.readsStatement read c.1)) :=
        hinner hc (fun h => (readsStatement_imp hflags h).1)
          fun h => (readsStatement_imp hflags h).2
      rw [writtenCalls_eq_flatMap _ hhidden]
      have hdecl : (read && t.isTypeDeclaration) = false := by rw [hdecl, Bool.and_false]
      -- a creation looks at its first content, whatever it is
      by_cases hcreation : t.type = "object_creation_expression"
      · rw [readCalls_eq_visited hsealed hdecl]
        exact hR.append (hR.refl _) (related_creation hR hcreation fun c hc => hshare hc)
      · rw [readCalls_eq_flatMap hsealed hdecl hcreation, ← flatMap_readShare]
        refine hR.append (hR.refl _) (hR.flatMap fun c hc => ?_)
        exact related_share hR hconf hflags hc (haside c.1 (hqc hc)) (hshare hc)

/-- **No written call is missed** when a body is read. -/
theorem writtenCalls_sublist {body : Tree} (hconf : body.conforms = true)
    (hplaced : placedTypes.contains body.type = true) :
    List.Sublist (body.writtenCalls true) (body.readCalls true) := by
  have hsublist : RespectsAppend List.Sublist := ⟨List.Sublist.refl, List.Sublist.append⟩
  have hall : body.all (fun _ => true) = true := all_of_forall (fun _ => rfl) body
  exact related_calls hsublist (fun _ _ _ => List.nil_sublist _) body hconf hall id fun _ => hplaced

/-- Whether no call is read in a node that is not the body's own. -/
def isSilentAside (t : Tree) : Bool :=
  !t.isAside || (t.readCalls false).isEmpty

/-- **Only written calls** are read in a body in which annotations, local types and labels hold no
calls. -/
theorem writtenCalls_eq {body : Tree} (hconf : body.conforms = true)
    (hplaced : placedTypes.contains body.type = true) (hsilent : body.all isSilentAside = true) :
    body.writtenCalls true = body.readCalls true := by
  have heq : RespectsAppend (Eq : List Tree → List Tree → Prop) :=
    ⟨fun _ => rfl, fun h₁ h₂ => by rw [h₁, h₂]⟩
  refine related_calls heq (fun n hn haside => ?_) body hconf hsilent id fun _ => hplaced
  rw [isSilentAside, haside, Bool.not_true, Bool.false_or, List.isEmpty_iff] at hn
  exact hn.symm

end Tree

end TaintFlow.Java
