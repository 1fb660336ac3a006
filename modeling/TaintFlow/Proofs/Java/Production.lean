import TaintFlow.Java.Reading.Decl

/-!
# Productions

A parse tree conforms to the grammar if the children of each node fit the production of its type
(`Tree.conforms`).  A production is a list of slots for the children, each with a role, a number and
a shape.  Productions are given for the nodes whose children are read by their roles or places;
other nodes may have any children.

Only children that are words of the grammar or have a role count here (`Tree.pieces`).

* `accepts_one`, `accepts_optional`, `accepts_many` : children that fit, taken apart slot by slot.
-/

namespace TaintFlow.Java

/-! ### Nodes of a tree -/

namespace Tree

/-- Whether all nodes of a tree have a property. -/
def all (p : Tree → Bool) (t : Tree) : Bool :=
  p t && t.parts.all fun c => all p c.1
termination_by t.size
decreasing_by exact c.2

theorem all_eq_true {p : Tree → Bool} {t : Tree} :
    t.all p = true ↔ p t = true ∧ ∀ c ∈ t.parts, c.1.all p = true := by
  rw [all, Bool.and_eq_true, List.all_eq_true]

theorem all_of_mem {p : Tree → Bool} {t : Tree} (h : t.all p = true) {c : Subtree t}
    (hc : c ∈ t.parts) : c.1.all p = true :=
  (all_eq_true.1 h).2 c hc

theorem all_of_forall {p : Tree → Bool} (h : ∀ t, p t = true) (t : Tree) : t.all p = true := by
  induction hsize : t.size using Nat.strongRecOn generalizing t with
  | ind n ih => exact all_eq_true.2 ⟨h t, fun c _ => ih c.1.size (hsize ▸ c.2) c.1 rfl⟩

/-- Whether a node is punctuation or a keyword. -/
def isMark (t : Tree) : Bool :=
  !t.named && t.children.isEmpty

theorem isContent_of_isMark {t : Tree} (h : t.isMark = true) : t.isContent = false := by
  have hnamed : t.named = false := by simp_all [isMark]
  rw [isContent, hnamed, Bool.false_and]

/-- The children of a node that are words of the grammar or have a role. -/
def pieces (t : Tree) : List (Subtree t) :=
  t.parts.filter fun c => c.1.isContent || c.1.field.isSome

theorem content_eq_filter_pieces (t : Tree) : t.content = t.pieces.filter (·.1.isContent) := by
  rw [content, pieces, List.filter_filter]
  refine List.filter_congr fun c _ => ?_
  cases c.1.isContent <;> rfl

theorem childrenIn_eq_filter_pieces (t : Tree) (field : String) :
    t.childrenIn field = t.pieces.filter (·.1.field == some field) := by
  rw [childrenIn, pieces, List.filter_filter]
  refine List.filter_congr fun c _ => ?_
  cases c.1.field <;> simp

theorem child?_eq_find_pieces (t : Tree) (field : String) :
    t.child? field = t.pieces.find? (·.1.field == some field) := by
  rw [child?, pieces, List.find?_filter]
  congr 1
  funext c
  cases c.1.field with
  | none => simp
  | some role => by_cases h : role = field <;> simp [h]

theorem firstContent?_eq_head? (t : Tree) : t.firstContent? = t.content.head? := by
  rw [firstContent?, content, List.head?_filter]

theorem map_val_parts (t : Tree) : t.parts.map (·.1) = t.children := by
  simp [parts]

/-- The first content of a node is not its first child in a role that it does not have. -/
theorem firstContentIs_eq_false {t : Tree} {c : Subtree t} (hfirst : t.firstContent? = some c)
    {field : String} (hrole : c.1.field ≠ some field) : t.firstContentIs field = false := by
  have hfind : t.children.find? isContent = some c.1 := by
    rw [← map_val_parts, List.find?_map]
    exact congrArg (Option.map (·.1)) hfirst
  refine Bool.eq_false_iff.2 fun his => ?_
  obtain ⟨-, hindex⟩ := Bool.and_eq_true_iff.1 his
  have hfind' : t.children.find? (·.field == some field) = some c.1 := by
    rw [List.find?_eq_bind_findIdx?_getElem?, ← eq_of_beq hindex,
      ← List.find?_eq_bind_findIdx?_getElem?, hfind]
  have hfield := List.find?_some hfind'
  exact hrole (eq_of_beq hfield)

end Tree

/-! ### Slots -/

/-- Types of the nodes that stand for statements. -/
def statementTypes : List String :=
  ["block", "expression_statement", "local_variable_declaration", "return_statement",
   "if_statement", "while_statement", "do_statement", "for_statement", "enhanced_for_statement",
   "try_statement", "try_with_resources_statement", "switch_expression", "synchronized_statement",
   "labeled_statement", "throw_statement", "yield_statement", "assert_statement",
   "break_statement", "continue_statement", "explicit_constructor_invocation",
   "class_declaration", "interface_declaration", "enum_declaration", "record_declaration",
   "annotation_type_declaration", "module_declaration", "package_declaration",
   "import_declaration"]

/-- What stands in a slot. -/
inductive Shape where
  /-- Punctuation or a keyword -/
  | mark
  /-- A word of the grammar -/
  | any
  /-- A word of the grammar with one of the types -/
  | of (types : List String)
  /-- A statement, or the semicolon that stands for the empty one -/
  | statement

/-- Whether a node has a shape. -/
def Shape.admits : Shape → Tree → Bool
  | mark, t => t.isMark
  | any, t => t.isContent
  | of types, t => t.isContent && types.contains t.type
  | statement, t => (t.isContent && statementTypes.contains t.type) || (t.isMark && t.type == ";")

theorem Shape.admits_any {t : Tree} : Shape.any.admits t = true ↔ t.isContent = true :=
  Iff.rfl

theorem Shape.admits_of {types : List String} {t : Tree} :
    (Shape.of types).admits t = true ↔ t.isContent = true ∧ t.type ∈ types := by
  rw [admits, Bool.and_eq_true, List.contains_iff_mem]

/-- How many nodes stand in a slot. -/
inductive Count where
  | one
  | optional
  | many

/-- A place for children in a production. -/
structure Slot where
  count : Count
  role : Option String
  shape : Shape

/-- Whether a node may stand in a slot. -/
def Slot.admits (slot : Slot) (t : Tree) : Bool :=
  t.field == slot.role && slot.shape.admits t

/-- Whether only nodes of the given types stand in a slot. -/
def Slot.isWithin (types : List String) (slot : Slot) : Bool :=
  match slot.shape with
  | .of types' => types'.all types.contains
  | _ => false

theorem Slot.mem_of_isWithin {types : List String} {slot : Slot} (h : slot.isWithin types = true)
    {t : Tree} (hadmits : slot.shape.admits t = true) : t.isContent = true ∧ t.type ∈ types := by
  obtain ⟨count, role, shape⟩ := slot
  cases shape with
  | of types' =>
    obtain ⟨hcontent, htype⟩ := Shape.admits_of.1 hadmits
    exact ⟨hcontent, List.contains_iff_mem.1 (List.all_eq_true.1 h _ htype)⟩
  | mark | any | statement => cases h

/-- Whether a list begins with members that have a property, before a rest that is accepted. -/
def skips {α : Type} (p : α → Bool) (rest : List α → Bool) : List α → Bool
  | [] => rest []
  | x :: xs => rest (x :: xs) || (p x && skips p rest xs)

/-- Whether nodes stand in the slots, one after the other. -/
def accepts {t : Tree} : List Slot → List (Subtree t) → Bool
  | [], ps => ps.isEmpty
  | slot :: slots, ps =>
    match slot.count, ps with
    | .one, [] => false
    | .one, p :: ps => slot.admits p.1 && accepts slots ps
    | .optional, [] => accepts slots ([] : List (Subtree t))
    | .optional, p :: ps => accepts slots (p :: ps) || (slot.admits p.1 && accepts slots ps)
    | .many, ps => skips (fun p => slot.admits p.1) (accepts slots) ps

theorem Slot.admits_iff {slot : Slot} {t : Tree} :
    slot.admits t = true ↔ t.field = slot.role ∧ slot.shape.admits t = true := by
  rw [admits, Bool.and_eq_true, beq_iff_eq]

theorem skips_eq_true {α : Type} {p : α → Bool} {rest : List α → Bool} {xs : List α} :
    skips p rest xs = true ↔
      ∃ here after, xs = here ++ after ∧ (∀ x ∈ here, p x = true) ∧ rest after = true := by
  induction xs with
  | nil =>
    constructor
    · intro h
      exact ⟨[], [], rfl, List.forall_mem_nil _, h⟩
    · rintro ⟨here, after, h, -, hrest⟩
      obtain ⟨rfl, rfl⟩ := List.append_eq_nil_iff.1 h.symm
      exact hrest
  | cons x xs ih =>
    rw [skips, Bool.or_eq_true, Bool.and_eq_true, ih]
    constructor
    · rintro (h | ⟨hx, here, after, rfl, hhere, hrest⟩)
      · exact ⟨[], x :: xs, rfl, List.forall_mem_nil _, h⟩
      · exact ⟨x :: here, after, rfl, List.forall_mem_cons.2 ⟨hx, hhere⟩, hrest⟩
    · rintro ⟨here, after, h, hhere, hrest⟩
      cases here with
      | nil =>
        rw [List.nil_append] at h
        exact .inl (h ▸ hrest)
      | cons y here =>
        obtain ⟨rfl, rfl⟩ := List.cons.inj h
        obtain ⟨hy, hhere⟩ := List.forall_mem_cons.1 hhere
        exact .inr ⟨hy, here, after, rfl, hhere, hrest⟩

section

variable {t : Tree} {role : Option String} {shape : Shape} {slots : List Slot}
  {ps : List (Subtree t)}

theorem accepts_nil : accepts ([] : List Slot) ps = true ↔ ps = [] := by
  rw [accepts, List.isEmpty_iff]

theorem accepts_one : accepts (⟨.one, role, shape⟩ :: slots) ps = true ↔
    ∃ p rest, ps = p :: rest ∧ (p.1.field = role ∧ shape.admits p.1 = true) ∧
      accepts slots rest = true := by
  cases ps with
  | nil => simp [accepts]
  | cons p ps => simp [accepts, Slot.admits_iff, and_assoc]

theorem accepts_optional : accepts (⟨.optional, role, shape⟩ :: slots) ps = true ↔
    ∃ (here : Option (Subtree t)) (rest : List (Subtree t)), ps = here.toList ++ rest ∧
      (∀ p ∈ here.toList, p.1.field = role ∧ shape.admits p.1 = true) ∧
      accepts slots rest = true := by
  have hcons (p : Subtree t) (ps : List (Subtree t)) :
      accepts (⟨.optional, role, shape⟩ :: slots) (p :: ps) =
        (accepts slots (p :: ps) || (Slot.admits ⟨.optional, role, shape⟩ p.1 &&
          accepts slots ps)) := rfl
  constructor
  · intro h
    cases ps with
    | nil => exact ⟨none, [], rfl, List.forall_mem_nil _, h⟩
    | cons p ps =>
      rw [hcons, Bool.or_eq_true, Bool.and_eq_true, Slot.admits_iff] at h
      rcases h with h | ⟨hp, h⟩
      · exact ⟨none, p :: ps, rfl, List.forall_mem_nil _, h⟩
      · exact ⟨some p, ps, rfl, List.forall_mem_singleton.2 hp, h⟩
  · rintro ⟨here, rest, rfl, hhere, hrest⟩
    cases here with
    | none =>
      cases rest with
      | nil => exact hrest
      | cons p rest =>
        rw [Option.toList_none, List.nil_append, hcons, hrest, Bool.true_or]
    | some p =>
      have hp : Slot.admits ⟨.optional, role, shape⟩ p.1 = true :=
        Slot.admits_iff.2 (hhere p (Option.mem_toList.2 rfl))
      rw [Option.toList_some, List.singleton_append, hcons, hp, hrest, Bool.and_true, Bool.or_true]

theorem accepts_many : accepts (⟨.many, role, shape⟩ :: slots) ps = true ↔
    ∃ here rest, ps = here ++ rest ∧
      (∀ p ∈ here, p.1.field = role ∧ shape.admits p.1 = true) ∧ accepts slots rest = true := by
  have hskips : accepts (⟨.many, role, shape⟩ :: slots) ps =
      skips (fun p => Slot.admits ⟨.many, role, shape⟩ p.1) (accepts slots) ps := by
    cases ps <;> rfl
  rw [hskips, skips_eq_true]
  simp only [Slot.admits_iff]

end

/-- A node that stands in the slots stands in one of them. -/
theorem exists_slot_of_accepts {t : Tree} {slots : List Slot} {ps : List (Subtree t)}
    (h : accepts slots ps = true) {p : Subtree t} (hp : p ∈ ps) :
    ∃ slot ∈ slots, p.1.field = slot.role ∧ slot.shape.admits p.1 = true := by
  induction slots generalizing ps with
  | nil =>
    rw [accepts_nil.1 h] at hp
    cases hp
  | cons slot slots ih =>
    obtain ⟨count, role, shape⟩ := slot
    have hlater {rest : List (Subtree t)} (hrest : accepts slots rest = true) (hp : p ∈ rest) :
        ∃ slot ∈ ⟨count, role, shape⟩ :: slots, p.1.field = slot.role ∧
          slot.shape.admits p.1 = true := by
      obtain ⟨slot, hslot, hadmits⟩ := ih hrest hp
      exact ⟨slot, List.mem_cons_of_mem _ hslot, hadmits⟩
    cases count with
    | one =>
      obtain ⟨q, rest, rfl, hq, hrest⟩ := accepts_one.1 h
      rcases List.mem_cons.1 hp with rfl | hp
      · exact ⟨_, List.mem_cons_self, hq⟩
      · exact hlater hrest hp
    | optional =>
      obtain ⟨here, rest, rfl, hhere, hrest⟩ := accepts_optional.1 h
      rcases List.mem_append.1 hp with hp | hp
      · exact ⟨_, List.mem_cons_self, hhere p hp⟩
      · exact hlater hrest hp
    | many =>
      obtain ⟨here, rest, rfl, hhere, hrest⟩ := accepts_many.1 h
      rcases List.mem_append.1 hp with hp | hp
      · exact ⟨_, List.mem_cons_self, hhere p hp⟩
      · exact hlater hrest hp

/-! ### Productions -/

/-- Types of the nodes that stand for types without annotations. -/
def unannotatedTypes : List String :=
  ["type_identifier", "scoped_type_identifier", "generic_type", "array_type", "integral_type",
   "floating_point_type", "boolean_type", "void_type"]

/-- Types of the nodes that stand for types. -/
def typeTypes : List String :=
  "annotated_type" :: unannotatedTypes

/-- Types of annotations. -/
def annotationTypes : List String :=
  ["annotation", "marker_annotation"]

/-- Types of literals. -/
def literalTypes : List String :=
  ["string_literal", "text_block", "character_literal", "decimal_integer_literal",
   "hex_integer_literal", "octal_integer_literal", "binary_integer_literal",
   "decimal_floating_point_literal", "hex_floating_point_literal", "true", "false", "null_literal"]

/-- Types of the expressions that a member can be reached through. -/
def primaryTypes : List String :=
  literalTypes ++ ["identifier", "this", "class_literal", "parenthesized_expression",
    "object_creation_expression", "array_creation_expression", "field_access", "array_access",
    "method_invocation", "method_reference", "template_expression"]

namespace Slot

/-- One node in a role. -/
abbrev one (role : String) (shape : Shape) : Slot := ⟨.one, some role, shape⟩

/-- At most one node in a role. -/
abbrev optional (role : String) (shape : Shape) : Slot := ⟨.optional, some role, shape⟩

/-- Any number of nodes in a role. -/
abbrev many (role : String) (shape : Shape) : Slot := ⟨.many, some role, shape⟩

/-- One node without a role. -/
abbrev plain (shape : Shape) : Slot := ⟨.one, none, shape⟩

/-- At most one node without a role. -/
abbrev plainOptional (shape : Shape) : Slot := ⟨.optional, none, shape⟩

/-- Any number of nodes without a role. -/
abbrev plainMany (shape : Shape) : Slot := ⟨.many, none, shape⟩

end Slot

open Slot

/-- The productions of the nodes of a type that are read as expressions. -/
def exprProductions : String → List (List Slot)
  | "identifier" => [[]]
  | "this" => [[]]
  | "super" => [[]]
  | "parenthesized_expression" => [[plain .any]]
  | "binary_expression" => [[one "left" .any, one "operator" .mark, one "right" .any]]
  | "unary_expression" => [[one "operator" .mark, one "operand" .any]]
  | "update_expression" => [[plain .any]]
  | "ternary_expression" =>
    [[one "condition" .any, one "consequence" .any, one "alternative" .any]]
  | "assignment_expression" => [[one "left" .any, one "operator" .mark, one "right" .any]]
  | "cast_expression" => [[many "type" (.of typeTypes), one "value" .any]]
  | "object_creation_expression" =>
    [[plainOptional (.of primaryTypes), plainMany (.of annotationTypes),
      optional "type_arguments" (.of ["type_arguments"]), plainMany (.of annotationTypes),
      one "type" (.of unannotatedTypes), one "arguments" (.of ["argument_list"]),
      plainOptional (.of ["class_body"])]]
  | "array_creation_expression" =>
    [[plainMany (.of annotationTypes), one "type" (.of typeTypes),
      many "dimensions" (.of ["dimensions_expr", "dimensions"])],
     [plainMany (.of annotationTypes), one "type" (.of typeTypes),
      one "dimensions" (.of ["dimensions"]), one "value" (.of ["array_initializer"])]]
  | "field_access" =>
    [[one "object" .any, plainOptional (.of ["super"]), one "field" (.of ["identifier", "this"])]]
  | "method_invocation" =>
    [[optional "object" .any, plainOptional (.of ["super"]),
      optional "type_arguments" (.of ["type_arguments"]), one "name" (.of ["identifier"]),
      one "arguments" (.of ["argument_list"])]]
  | "lambda_expression" => [[one "parameters" .any, one "body" .any]]
  | "annotated_type" => [[plainMany (.of annotationTypes), plain (.of unannotatedTypes)]]
  | "catch_formal_parameter" =>
    [[plainOptional (.of ["modifiers"]), plain (.of ["catch_type"]),
      one "name" (.of ["identifier", "underscore_pattern"]),
      optional "dimensions" (.of ["dimensions"])]]
  | "catch_type" => [[plainMany (.of typeTypes)]]
  | "underscore_pattern" => [[]]
  | _ => []

/-- The productions of the nodes of a type that are read as statements, or as parts of them. -/
def stmtProductions : String → List (List Slot)
  | "block" => [[plainMany .statement]]
  | "constructor_body" => [[plainMany .statement]]
  | "expression_statement" => [[plain .any]]
  | "local_variable_declaration" =>
    [[plainOptional (.of ["modifiers"]), one "type" (.of typeTypes),
      many "declarator" (.of ["variable_declarator"])]]
  | "variable_declarator" =>
    [[one "name" (.of ["identifier", "underscore_pattern"]),
      optional "dimensions" (.of ["dimensions"]), optional "value" .any]]
  | "return_statement" => [[plainOptional .any]]
  | "if_statement" =>
    [[one "condition" (.of ["parenthesized_expression"]), one "consequence" .statement,
      optional "alternative" .statement]]
  | "while_statement" =>
    [[one "condition" (.of ["parenthesized_expression"]), one "body" .statement]]
  | "do_statement" =>
    [[one "body" .statement, one "condition" (.of ["parenthesized_expression"])]]
  | "for_statement" =>
    [[many "init" .any, optional "condition" .any, many "update" .any, one "body" .statement]]
  | "enhanced_for_statement" =>
    [[plainOptional (.of ["modifiers"]), one "type" (.of typeTypes),
      one "name" (.of ["identifier", "underscore_pattern"]),
      optional "dimensions" (.of ["dimensions"]), one "value" .any, one "body" .statement]]
  | "try_statement" =>
    [[one "body" (.of ["block"]), plainMany (.of ["catch_clause"]),
      plainOptional (.of ["finally_clause"])]]
  | "try_with_resources_statement" =>
    [[one "resources" (.of ["resource_specification"]), one "body" (.of ["block"]),
      plainMany (.of ["catch_clause"]), plainOptional (.of ["finally_clause"])]]
  | "resource_specification" => [[plainMany (.of ["resource"])]]
  | "resource" =>
    [[plainOptional (.of ["modifiers"]), one "type" (.of typeTypes),
      one "name" (.of ["identifier", "underscore_pattern"]),
      optional "dimensions" (.of ["dimensions"]), one "value" .any],
     [plain (.of ["identifier", "field_access"])]]
  | "catch_clause" => [[plain (.of ["catch_formal_parameter"]), one "body" (.of ["block"])]]
  | "finally_clause" => [[plain (.of ["block"])]]
  | "switch_expression" =>
    [[one "condition" (.of ["parenthesized_expression"]), one "body" (.of ["switch_block"])]]
  | "switch_block" =>
    [[plainMany (.of ["switch_block_statement_group", "switch_rule"])]]
  | "switch_block_statement_group" => [[plainMany (.of ["switch_label"]), plainMany .statement]]
  | "switch_rule" =>
    [[plain (.of ["switch_label"]),
      plain (.of ["expression_statement", "throw_statement", "block"])]]
  | "synchronized_statement" =>
    [[plain (.of ["parenthesized_expression"]), one "body" (.of ["block"])]]
  | "labeled_statement" => [[plain (.of ["identifier"]), plainOptional .statement]]
  | _ => []

/-- The productions of the nodes of a type that declare methods. -/
def methodProductions : String → List (List Slot)
  | "method_declaration" =>
    [[plainOptional (.of ["modifiers"]), optional "type_parameters" (.of ["type_parameters"]),
      plainMany (.of annotationTypes), one "type" (.of typeTypes), one "name" (.of ["identifier"]),
      one "parameters" (.of ["formal_parameters"]), optional "dimensions" (.of ["dimensions"]),
      plainOptional (.of ["throws"]), optional "body" (.of ["block"])]]
  | "constructor_declaration" =>
    [[plainOptional (.of ["modifiers"]), optional "type_parameters" (.of ["type_parameters"]),
      one "name" (.of ["identifier"]), one "parameters" (.of ["formal_parameters"]),
      plainOptional (.of ["throws"]), one "body" (.of ["constructor_body"])]]
  | "compact_constructor_declaration" =>
    [[plainOptional (.of ["modifiers"]), one "name" (.of ["identifier"]),
      one "body" (.of ["block"])]]
  | _ => []

/-- The productions of the nodes of a type; there are none for types whose nodes may have any
children. -/
def productions (type : String) : List (List Slot) :=
  exprProductions type ++ stmtProductions type ++ methodProductions type

namespace Tree

/-- Whether the children of a node fit a production of its type. -/
def fits (t : Tree) : Bool :=
  (productions t.type).isEmpty || (productions t.type).any fun slots => accepts slots t.pieces

/-- Whether a tree conforms to the grammar. -/
def conforms (t : Tree) : Bool :=
  t.all fits

variable {t : Tree}

theorem mem_parts_of_mem_pieces {c : Subtree t} (hc : c ∈ t.pieces) : c ∈ t.parts :=
  (List.mem_filter.1 hc).1

theorem mem_pieces_of_mem_content {c : Subtree t} (hc : c ∈ t.content) : c ∈ t.pieces :=
  (List.mem_filter.1 (t.content_eq_filter_pieces ▸ hc)).1

theorem isContent_of_mem_content {c : Subtree t} (hc : c ∈ t.content) : c.1.isContent = true :=
  (List.mem_filter.1 hc).2

theorem conforms_of_mem_pieces (h : t.conforms = true) {c : Subtree t} (hc : c ∈ t.pieces) :
    c.1.conforms = true :=
  all_of_mem h (mem_parts_of_mem_pieces hc)

theorem exists_accepts (h : t.conforms = true) {type : String} (htype : t.type = type)
    (hsome : (productions type).isEmpty = false) :
    ∃ slots ∈ productions type, accepts slots t.pieces = true := by
  have hfits := (all_eq_true.1 h).1
  rw [fits, htype, hsome, Bool.false_or, List.any_eq_true] at hfits
  exact hfits

/-- Children in roles for which a type has only slots with nodes of some types have one of these. -/
theorem type_mem_of_role (h : t.conforms = true) {c : Subtree t} (hc : c ∈ t.pieces) {type : String}
    (htype : t.type = type) (p : Option String → Bool) (hp : p c.1.field = true)
    (types : List String) (hsome : (productions type).isEmpty = false)
    (hslots : ((productions type).all fun slots => slots.all fun slot =>
      !p slot.role || slot.isWithin types) = true) : c.1.type ∈ types := by
  obtain ⟨slots, hmem, haccepts⟩ := exists_accepts h htype hsome
  obtain ⟨slot, hslot, hrole, hadmits⟩ := exists_slot_of_accepts haccepts hc
  have hwithin := List.all_eq_true.1 (List.all_eq_true.1 hslots slots hmem) slot hslot
  rw [← hrole, hp, Bool.not_true, Bool.false_or] at hwithin
  exact (slot.mem_of_isWithin hwithin hadmits).2

/-- The children of a node of a type with one production fit this one. -/
theorem accepts_of_type (h : t.conforms = true) {type : String} (htype : t.type = type)
    {slots : List Slot} (hproductions : productions type = [slots]) :
    accepts slots t.pieces = true := by
  obtain ⟨slots', hmem, haccepts⟩ := exists_accepts h htype (by rw [hproductions]; rfl)
  rw [hproductions, List.mem_singleton] at hmem
  exact hmem ▸ haccepts

/-- The children of a node of a type with two productions fit one of these. -/
theorem accepts_or_accepts_of_type (h : t.conforms = true) {type : String} (htype : t.type = type)
    {slots₁ slots₂ : List Slot} (hproductions : productions type = [slots₁, slots₂]) :
    accepts slots₁ t.pieces = true ∨ accepts slots₂ t.pieces = true := by
  obtain ⟨slots, hmem, haccepts⟩ := exists_accepts h htype (by rw [hproductions]; rfl)
  rw [hproductions, List.mem_cons, List.mem_singleton] at hmem
  rcases hmem with rfl | rfl
  · exact .inl haccepts
  · exact .inr haccepts

end Tree

/-! ### Forms of nodes -/

open TaintFlow.Java.Tree

/-- Types of the nodes that are read as expressions in ways of their own. -/
def exprTypes : List String :=
  literalTypes ++ ["identifier", "parenthesized_expression", "binary_expression",
    "unary_expression", "update_expression", "ternary_expression", "assignment_expression",
    "cast_expression", "object_creation_expression", "array_creation_expression",
    "array_initializer", "field_access", "method_invocation", "lambda_expression"]

/-- Whether nodes of a type have a form. -/
def ExprForm.HasType : ExprForm → String → Prop
  | literal _, type => type ∈ literalTypes
  | identifier, type => type = "identifier"
  | parenthesized, type => type = "parenthesized_expression"
  | binary, type => type = "binary_expression"
  | unary, type => type = "unary_expression"
  | update, type => type = "update_expression"
  | ternary, type => type = "ternary_expression"
  | assignment, type => type = "assignment_expression"
  | cast, type => type = "cast_expression"
  | creation, type => type = "object_creation_expression"
  | arrayCreation, type => type = "array_creation_expression"
  | arrayInitializer, type => type = "array_initializer"
  | fieldAccess, type => type = "field_access"
  | invocation, type => type = "method_invocation"
  | lambda, type => type = "lambda_expression"
  | other, type => type ∉ exprTypes

theorem ExprForm.hasType_ofType (type : String) : (ofType type).HasType type := by
  unfold ofType
  split <;> first | rfl | simp_all [HasType, exprTypes, literalTypes]

/-- Types of the nodes that are read as statements in ways of their own. -/
def stmtTypes : List String :=
  commentTypes ++ typeDeclarations ++ ["block", "constructor_body", "expression_statement",
    "local_variable_declaration", "return_statement", "if_statement", "while_statement",
    "do_statement", "for_statement", "enhanced_for_statement", "try_statement",
    "try_with_resources_statement", "switch_expression", "switch_statement",
    "synchronized_statement", "labeled_statement", "local_class_declaration"]

/-- Whether nodes of a type have a form. -/
def StmtForm.HasType : StmtForm → String → Prop
  | comment, type => type ∈ commentTypes
  | block, type => type ∈ ["block", "constructor_body"]
  | expression, type => type = "expression_statement"
  | declaration, type => type = "local_variable_declaration"
  | ret, type => type = "return_statement"
  | branch, type => type = "if_statement"
  | loop kind, type => (kind, type) ∈ [(.whileLoop, "while_statement"), (.doLoop, "do_statement"),
      (.forLoop, "for_statement"), (.forEachLoop, "enhanced_for_statement")]
  | guarded, type => type ∈ ["try_statement", "try_with_resources_statement"]
  | switch, type => type ∈ ["switch_expression", "switch_statement"]
  | synchronized, type => type = "synchronized_statement"
  | labeled, type => type = "labeled_statement"
  | localType, type => type ∈ "local_class_declaration" :: typeDeclarations
  | other, type => type ∉ stmtTypes

theorem StmtForm.hasType_ofType (type : String) : (ofType type).HasType type := by
  unfold ofType
  split <;> first | rfl | simp_all [HasType, stmtTypes, commentTypes, typeDeclarations]

end TaintFlow.Java
