import TaintFlow.Java.Reading.Decl
import TaintFlow.Proofs.Java.Declarations

/-!
# What happens to variables while a tree is read

Scopes are opened and closed, variables are declared there and are given values.  In which order this
happens can be told from the parse tree alone.  Each form of node has a script, which lists what
happens at the node and which smaller nodes are read in between; expanded all the way down, the script
gives the events of the node (`Tree.events`).

What a stretch of events leaves in the scope around it is told by `Exposes`.

* `exposes_events` : an expression and a block expose nothing, a statement exposes the variables that
  it declares outside of any scope of its own (`Tree.exposed`).
* `exposes_typeEvents` : methods and types expose nothing.
-/

namespace TaintFlow.Java

open TaintFlow.Code

/-! ### Scripts -/

/-- What happens to the variables. -/
inductive Event where
  /-- A scope is opened. -/
  | opening
  /-- The innermost scope is closed. -/
  | closing
  /-- A variable is declared, with or without a value. -/
  | declaration (kind : VariableKind) (name : Tree) (value : Option Tree)
  /-- A variable is given the value that it is declared with. -/
  | initialization (kind : VariableKind) (name value : Tree)
  /-- The assignment at a node is made. -/
  | assignment (node : Tree)
  /-- The variables of the innermost scope become the fields of a type. -/
  | fields

/-- The ways in which a node is read. -/
inductive Mode where
  | expr
  | stmt
  | block
  deriving DecidableEq, Repr

/-- An item of the script of a node. -/
inductive Item (t : Tree) where
  | event (e : Event)
  /-- A smaller node is read. -/
  | visit (mode : Mode) (c : Subtree t)

namespace Item

variable {t : Tree}

/-- Nodes are read as expressions. -/
def exprs (cs : List (Subtree t)) : List (Item t) :=
  cs.map (.visit .expr)

/-- A local variable is declared and is given its value. -/
def introduce (name value : Option Tree) : List (Item t) :=
  name.toList.flatMap fun n =>
    .event (.declaration .localVar n value) ::
      value.toList.map fun v => .event (.initialization .localVar n v)

/-- The items stand in a scope of their own. -/
def scope (items : List (Item t)) : List (Item t) :=
  .event .opening :: (items ++ [.event .closing])

/-- Whether an item neither opens nor closes a scope at the node itself. -/
def isPlain : Item t → Bool
  | .event .opening | .event .closing => false
  | _ => true

/-- The events of an item, given those of the smaller nodes. -/
def expand (inner : Mode → Subtree t → List Event) : Item t → List Event
  | .event e => [e]
  | .visit mode c => inner mode c

end Item

/-- The node that a child is, if it is there. -/
abbrev Subtree.node? {t : Tree} (c : Option (Subtree t)) : Option Tree :=
  c.map (·.1)

namespace Tree

variable (t : Tree)

/-- The object of a node that is read as an expression. -/
def object? : Option (Subtree t) :=
  (t.child? "object").filter fun o => !(o.1.type == "this" || o.1.type == "super")

/-- The object that a new one belongs to. -/
def outerObject? : Option (Subtree t) :=
  t.firstContent?.filter fun o =>
    !o.1.isClosed && !t.firstContentIs "type" && o.1.type ≠ "argument_list"

/-- The content of a child in a role. -/
def contentIn (field : String) : List (Subtree t) :=
  match t.child? field with
  | some c => c.1.content.map c.trans
  | none => []

/-- The nodes that are read as expressions where a node is. -/
def operands : List (Subtree t) :=
  match ExprForm.ofType t.type with
  | .literal _ | .identifier | .lambda => []
  | .parenthesized | .update => t.firstContent?.toList
  | .binary | .assignment => (t.child? "left").toList ++ (t.child? "right").toList
  | .unary => (t.child? "operand").toList
  | .ternary =>
    (t.child? "condition").toList ++ (t.child? "consequence").toList
      ++ (t.child? "alternative").toList
  | .cast => (t.child? "value").toList
  | .creation => t.outerObject?.toList ++ t.contentIn "arguments"
  | .arrayCreation =>
    if (t.child? "value").isSome then t.contentIn "value" else t.childrenIn "dimensions"
  | .arrayInitializer => t.content
  | .fieldAccess => t.object?.toList
  | .invocation => t.object?.toList ++ t.contentIn "arguments"
  | .other => if t.isClosed then [] else t.content

/-- The script of a lambda. -/
def lambdaScript : List (Item t) :=
  Item.scope <|
    (lambdaNames t).map (fun n => .event (.declaration .localVar n none))
      ++ (t.child? "body").toList.map fun b =>
        .visit (if b.1.type == "block" then .block else .expr) b

/-- The script of an expression. -/
def exprScript : List (Item t) :=
  match ExprForm.ofType t.type with
  | .lambda => t.lambdaScript
  | .assignment => Item.exprs t.operands ++ [.event (.assignment t)]
  | _ => Item.exprs t.operands

/-- The script of a block. -/
def blockScript : List (Item t) :=
  Item.scope (t.content.map (.visit .stmt))

/-- The script of a declarator of a local variable. -/
def declaratorScript {t : Tree} (d : Subtree t) : List (Item t) :=
  Item.exprs ((d.1.child? "value").map d.trans).toList
    ++ Item.introduce (Subtree.node? (d.1.child? "name")) (Subtree.node? (d.1.child? "value"))

/-- The script of a declaration of local variables. -/
def declarationScript : List (Item t) :=
  (t.childrenIn "declarator").flatMap declaratorScript

/-- The script of what stands before the body of a loop. -/
def loopHeadScript (kind : Kind) : List (Item t) :=
  match kind with
  | .forEachLoop =>
    Item.exprs (t.child? "value").toList
      ++ Item.introduce (Subtree.node? (t.child? "name")) (Subtree.node? (t.child? "value"))
  | .forLoop =>
    (t.childrenIn "init").map (fun c =>
        .visit (if c.1.type == "local_variable_declaration" then .stmt else .expr) c)
      ++ Item.exprs ((t.child? "condition").toList ++ t.childrenIn "update")
  -- also for a do statement, where the condition stands behind the body
  | _ => Item.exprs (t.child? "condition").toList

/-- The script of a loop. -/
def loopScript (kind : Kind) : List (Item t) :=
  Item.scope (t.loopHeadScript kind ++ (t.child? "body").toList.map (.visit .stmt))

/-- The script of a resource of a try statement. -/
def resourceScript {t : Tree} (c : Subtree t) : List (Item t) :=
  match c.1.child? "name" with
  | none => [.visit .expr c]
  | some n =>
    Item.exprs ((c.1.child? "value").map c.trans).toList
      ++ Item.introduce (some n.1) (Subtree.node? (c.1.child? "value"))

/-- The node that names what a clause catches. -/
def caught? (c : Tree) : Option Tree :=
  (c.contentOf? ["catch_formal_parameter"]).bind fun p => Subtree.node? (p.1.child? "name")

/-- The script of a catch clause. -/
def catchScript {t : Tree} (c : Subtree t) : List (Item t) :=
  Item.scope <| Item.introduce c.1.caught? none
    ++ (c.1.child? "body").toList.map fun b => .visit .block (c.trans b)

/-- The script of a clause of a try statement. -/
def clauseScript {t : Tree} (c : Subtree t) : List (Item t) :=
  if c.1.type == "catch_clause" then catchScript c
  else if c.1.type == "finally_clause" then
    (c.1.contentOf? ["block"]).toList.map fun b => .visit .block (c.trans b)
  else []

/-- The script of the body of a try statement, with the resources. -/
def guardedScript : List (Item t) :=
  Item.scope <| (t.contentIn "resources").flatMap resourceScript
    ++ (t.child? "body").toList.map (.visit .block)

/-- The script of an item of a group of a switch. -/
def switchItemScript {t : Tree} (group : Tree) (c : Subtree t) : List (Item t) :=
  if c.1.type == "switch_label" then []
  else if group.type == "switch_rule"
      && c.1.type ∉ ["expression_statement", "throw_statement", "block"] then [.visit .expr c]
  else [.visit .stmt c]

/-- The script of a switch. -/
def switchScript : List (Item t) :=
  Item.exprs (t.child? "condition").toList
    ++ Item.scope ((t.contentIn "body").flatMap fun g =>
      (g.1.content.map g.trans).flatMap (switchItemScript g.1))

/-- The script of a statement. -/
def stmtScript : List (Item t) :=
  match StmtForm.ofType t.type with
  | .comment | .localType => []
  | .block => t.blockScript
  | .expression | .ret => Item.exprs t.firstContent?.toList
  | .declaration => t.declarationScript
  | .branch =>
    Item.exprs (t.child? "condition").toList
      ++ ((t.child? "consequence").toList ++ (t.child? "alternative").toList).map (.visit .stmt)
  | .loop kind => t.loopScript kind
  | .guarded => t.guardedScript ++ t.content.flatMap clauseScript
  | .switch => t.switchScript
  | .synchronized =>
    Item.exprs (t.firstContent?.filter (·.1.type == "parenthesized_expression")).toList
      ++ (t.child? "body").toList.map (.visit .block)
  | .labeled => t.content.getLast?.toList.map (.visit .stmt)
  | .other => Item.exprs (t.content.filter fun c => !c.1.isClosed && c.1.type ≠ "identifier")

/-- The script of a node. -/
def script : Mode → List (Item t)
  | .expr => t.exprScript
  | .stmt => t.stmtScript
  | .block => t.blockScript

end Tree

/-- What happens while a node is read. -/
def Tree.events (t : Tree) (mode : Mode) : List Event :=
  (t.script mode).flatMap (Item.expand fun mode c => c.1.events mode)
termination_by t.size
decreasing_by exact c.2

/-- What happens while the items of a script are read. -/
def Item.events {t : Tree} (items : List (Item t)) : List Event :=
  items.flatMap (Item.expand fun mode c => c.1.events mode)

theorem Tree.events_eq (t : Tree) (mode : Mode) : t.events mode = Item.events (t.script mode) := by
  rw [Tree.events, Item.events]

namespace Item

variable {t : Tree}

@[simp] theorem events_nil : Item.events ([] : List (Item t)) = [] :=
  rfl

@[simp] theorem events_cons_event (e : Event) (items : List (Item t)) :
    Item.events (.event e :: items) = e :: Item.events items :=
  rfl

@[simp] theorem events_cons_visit (mode : Mode) (c : Subtree t) (items : List (Item t)) :
    Item.events (.visit mode c :: items) = c.1.events mode ++ Item.events items :=
  rfl

@[simp] theorem events_append (items items' : List (Item t)) :
    Item.events (items ++ items') = Item.events items ++ Item.events items' :=
  List.flatMap_append

theorem events_flatMap {α : Type} (l : List α) (f : α → List (Item t)) :
    Item.events (l.flatMap f) = l.flatMap fun a => Item.events (f a) :=
  List.flatMap_assoc

theorem events_scope (items : List (Item t)) :
    Item.events (Item.scope items) = .opening :: (Item.events items ++ [.closing]) := by
  rw [Item.scope, events_cons_event, events_append, events_cons_event, events_nil]

theorem events_introduce (name : Tree) (value : Option Tree) :
    Item.events (Item.introduce (some name) value : List (Item t)) =
      .declaration .localVar name value ::
        value.toList.map (.initialization .localVar name) := by
  cases value <;> rfl

theorem events_map_visit (mode : Mode) (cs : List (Subtree t)) :
    Item.events (cs.map (.visit mode)) = cs.flatMap fun c => c.1.events mode :=
  List.flatMap_map ..

theorem exprs_append (cs ds : List (Subtree t)) :
    Item.exprs (cs ++ ds) = Item.exprs cs ++ Item.exprs ds :=
  List.map_append

theorem events_exprs (cs : List (Subtree t)) :
    Item.events (Item.exprs cs) = cs.flatMap fun c => c.1.events .expr :=
  events_map_visit .expr cs

end Item

/-! ### Declarations -/

namespace Tree

/-- The node that names a parameter of a method. -/
def parameterName? (p : Tree) : Option Tree :=
  if p.type == "formal_parameter" then Subtree.node? (p.child? "name")
  else if p.type == "spread_parameter" then
    (p.contentOf? ["variable_declarator"]).bind fun d => Subtree.node? (d.1.child? "name")
  else none

/-- The nodes that name the parameters of a method. -/
def parameterNames (m : Tree) : List Tree :=
  match m.child? "parameters" with
  | none => []
  | some ps => ps.1.content.filterMap (·.1.parameterName?)

/-- What happens while a method is read. -/
def methodEvents (m : Tree) : List Event :=
  .opening :: (m.parameterNames.map (fun n => .declaration .parameter n none)
    ++ (m.child? "body").toList.flatMap (·.1.events .block) ++ [.closing])

/-- The names of the fields that a member of a type declares, with the values of those that have
one. -/
def fieldParts (m : Tree) : List (Tree × Option Tree) :=
  if m.type == "field_declaration" || m.type == "constant_declaration" then
    (m.childrenIn "declarator").flatMap fun d =>
      (d.1.child? "name").toList.map fun n => (n.1, Subtree.node? (d.1.child? "value"))
  else if m.type == "enum_constant" then (m.child? "name").toList.map fun n => (n.1, none)
  else []

/-- What happens while the initializer of a field is read. -/
def fieldEvents (field : Tree × Option Tree) : List Event :=
  field.2.toList.flatMap fun v => v.events .expr ++ [.initialization .field field.1 v]

/-- What happens while a type is read. -/
def typeEvents (t : Tree) : List Event :=
  let fields := t.members.flatMap (·.1.fieldParts)
  -- an initializer can refer to all fields, so these are declared before the first one is read
  .opening :: (fields.map (fun f => .declaration .field f.1 f.2)
    ++ .fields :: fields.flatMap fieldEvents
    ++ t.members.flatMap (fun m =>
      if m.1.isMethod then m.1.methodEvents
      else if m.1.isTypeDeclaration then m.1.typeEvents
      else [])
    ++ [.closing])
termination_by t.size
decreasing_by exact m.2

/-- What happens while a member of a type is read, its fields apart. -/
def memberEvents (m : Tree) : List Event :=
  if m.isMethod then m.methodEvents
  else if m.isTypeDeclaration then m.typeEvents
  else []

theorem typeEvents_eq (t : Tree) :
    t.typeEvents = .opening ::
      ((t.members.flatMap (·.1.fieldParts)).map (fun f => .declaration .field f.1 f.2)
        ++ .fields :: (t.members.flatMap (·.1.fieldParts)).flatMap fieldEvents
        ++ t.members.flatMap (·.1.memberEvents) ++ [.closing]) := by
  rw [typeEvents]
  rfl

/-- What happens while a unit is read. -/
def unitEvents (root : Tree) : List Event :=
  root.types.flatMap typeEvents

end Tree

/-- The variable that is declared at an event: its kind, its name and its value. -/
def Event.declared? : Event → Option (VariableKind × Tree × Option Tree)
  | .declaration kind name value => some (kind, name, value)
  | _ => none

theorem Event.declared?_eq_some {e : Event} {x : VariableKind × Tree × Option Tree} :
    e.declared? = some x ↔ e = .declaration x.1 x.2.1 x.2.2 := by
  cases e <;> simp [declared?, Prod.ext_iff]

/-! ### Variables that are exposed -/

/-- The events declare these variables in the scope that is innermost when they begin, and close every
other scope that they open. -/
inductive Exposes : List (VariableKind × Tree) → List Event → Prop where
  | nil : Exposes [] []
  | append {ns ns' : List (VariableKind × Tree)} {es es' : List Event} :
      Exposes ns es → Exposes ns' es' → Exposes (ns ++ ns') (es ++ es')
  | declaration (kind : VariableKind) (name : Tree) (value : Option Tree) :
      Exposes [(kind, name)] [.declaration kind name value]
  | initialization (kind : VariableKind) (name value : Tree) :
      Exposes [] [.initialization kind name value]
  | assignment (node : Tree) : Exposes [] [.assignment node]
  | fields : Exposes [] [.fields]
  | scope {ns : List (VariableKind × Tree)} {es : List Event} :
      Exposes ns es → Exposes [] (.opening :: (es ++ [.closing]))

namespace Exposes

variable {t : Tree}

theorem flatMap {α : Type} {l : List α} {ns : α → List (VariableKind × Tree)} {es : α → List Event}
    (h : ∀ a ∈ l, Exposes (ns a) (es a)) : Exposes (l.flatMap ns) (l.flatMap es) := by
  induction l with
  | nil => exact .nil
  | cons a l ih =>
    obtain ⟨ha, hl⟩ := List.forall_mem_cons.1 h
    rw [List.flatMap_cons, List.flatMap_cons]
    exact .append ha (ih hl)

/-- Stretches that expose nothing, put together, expose nothing. -/
theorem flatMap_nil {α : Type} {l : List α} {es : α → List Event}
    (h : ∀ a ∈ l, Exposes [] (es a)) : Exposes [] (l.flatMap es) := by
  have hflat : Exposes (l.flatMap fun _ => []) (l.flatMap es) := flatMap h
  rwa [List.flatMap_eq_nil_iff.2 fun _ _ => rfl] at hflat

theorem append_nil {es es' : List Event} (h : Exposes [] es) (h' : Exposes [] es') :
    Exposes [] (es ++ es') :=
  .append h h'

theorem declarations {α : Type} (kind : VariableKind) (name : α → Tree) (value : α → Option Tree)
    (l : List α) : Exposes (l.map fun a => (kind, name a))
      (l.map fun a => .declaration kind (name a) (value a)) := by
  induction l with
  | nil => exact .nil
  | cons a l ih => exact .append (.declaration kind (name a) (value a)) ih

theorem introduce (name value : Option Tree) :
    Exposes (name.toList.map (.localVar, ·))
      (Item.events (Item.introduce name value : List (Item t))) := by
  cases name with
  | none => exact .nil
  | some n =>
    rw [Item.events_introduce]
    have hvalue : Exposes [] (value.toList.map (.initialization .localVar n)) := by
      cases value with
      | none => exact .nil
      | some v => exact .initialization _ n v
    exact .append (.declaration _ n value) hvalue

end Exposes

/-- The names of the variables that a statement declares in the scope around it. -/
def Tree.exposed (t : Tree) : List Tree :=
  match StmtForm.ofType t.type with
  | .declaration =>
    (t.childrenIn "declarator").flatMap fun d => (Subtree.node? (d.1.child? "name")).toList
  -- only a block makes a scope of a branch
  | .branch =>
    ((t.child? "consequence").toList ++ (t.child? "alternative").toList).flatMap
      fun c => c.1.exposed
  | .labeled => t.content.getLast?.toList.flatMap fun c => c.1.exposed
  | _ => []
termination_by t.size
decreasing_by all_goals exact c.2

/-- The names of the variables that a node declares in the scope around it. -/
def Tree.exposedAs (t : Tree) : Mode → List Tree
  | .stmt => t.exposed
  | _ => []

section

variable {t : Tree}
  (h : ∀ (c : Subtree t) (mode : Mode),
    Exposes ((c.1.exposedAs mode).map (.localVar, ·)) (c.1.events mode))

include h

theorem Exposes.visits (mode : Mode) (cs : List (Subtree t)) :
    Exposes ((cs.flatMap (·.1.exposedAs mode)).map (.localVar, ·))
      (Item.events (cs.map (.visit mode))) := by
  rw [Item.events_map_visit, List.map_flatMap]
  exact .flatMap fun c _ => h c mode

theorem Exposes.exprs (cs : List (Subtree t)) : Exposes [] (Item.events (Item.exprs cs)) := by
  rw [Item.events_exprs]
  exact .flatMap_nil fun c _ => h c .expr

theorem Exposes.blocks (cs : List (Subtree t)) :
    Exposes [] (Item.events (cs.map (.visit .block))) := by
  rw [Item.events_map_visit]
  exact .flatMap_nil fun c _ => h c .block

/-- Items in a scope of their own expose nothing. -/
theorem Exposes.inScope {items : List (Item t)} (hplain : ∀ item ∈ items, item.isPlain = true) :
    Exposes [] (Item.events (Item.scope items)) := by
  have hitems : ∃ ns, Exposes ns (Item.events items) := by
    induction items with
    | nil => exact ⟨[], .nil⟩
    | cons item items ih =>
      obtain ⟨hitem, hrest⟩ := List.forall_mem_cons.1 hplain
      obtain ⟨ns, hns⟩ := ih hrest
      cases item with
      | visit mode c => exact ⟨_, .append (h c mode) hns⟩
      | event e =>
        cases e with
        | opening | closing => cases hitem
        | declaration kind name value => exact ⟨_, .append (.declaration kind name value) hns⟩
        | initialization kind name value => exact ⟨_, .append (.initialization kind name value) hns⟩
        | assignment node => exact ⟨_, .append (.assignment node) hns⟩
        | fields => exact ⟨_, .append .fields hns⟩
  obtain ⟨ns, hns⟩ := hitems
  rw [Item.events_scope]
  exact .scope hns

end

namespace Item

variable {t : Tree}

theorem isPlain_of_mem_visits {cs : List (Subtree t)} {mode : Subtree t → Mode} :
    ∀ item ∈ cs.map (fun c => Item.visit (mode c) c), item.isPlain = true := by
  intro item hitem
  obtain ⟨c, -, rfl⟩ := List.mem_map.1 hitem
  rfl

theorem isPlain_of_mem_introduce {name value : Option Tree} :
    ∀ item ∈ (Item.introduce name value : List (Item t)), item.isPlain = true := by
  intro item hitem
  obtain ⟨n, -, hitem⟩ := List.mem_flatMap.1 hitem
  rcases List.mem_cons.1 hitem with rfl | hitem
  · rfl
  · obtain ⟨v, -, rfl⟩ := List.mem_map.1 hitem
    rfl

end Item

section

variable {t : Tree}
  (h : ∀ (c : Subtree t) (mode : Mode),
    Exposes ((c.1.exposedAs mode).map (.localVar, ·)) (c.1.events mode))

include h

theorem exposes_lambdaScript : Exposes [] (Item.events t.lambdaScript) := by
  refine .inScope h (List.forall_mem_append.2 ⟨fun item hitem => ?_, Item.isPlain_of_mem_visits⟩)
  obtain ⟨n, -, rfl⟩ := List.mem_map.1 hitem
  rfl

theorem exposes_exprScript : Exposes [] (Item.events t.exprScript) := by
  unfold Tree.exprScript
  split
  · exact exposes_lambdaScript h
  · rw [Item.events_append]
    exact .append_nil (.exprs h _) (.assignment t)
  · exact .exprs h _

theorem exposes_blockScript : Exposes [] (Item.events t.blockScript) :=
  .inScope h Item.isPlain_of_mem_visits

theorem exposes_declarationScript :
    Exposes ((t.childrenIn "declarator").flatMap fun d =>
        (Subtree.node? (d.1.child? "name")).toList.map (.localVar, ·))
      (Item.events t.declarationScript) := by
  rw [Tree.declarationScript, Item.events_flatMap]
  refine .flatMap fun d _ => ?_
  rw [Tree.declaratorScript, Item.events_append]
  exact .append (.exprs h _) (.introduce _ _)

theorem exposes_loopScript (kind : Kind) : Exposes [] (Item.events (t.loopScript kind)) := by
  refine .inScope h (List.forall_mem_append.2 ⟨?_, Item.isPlain_of_mem_visits⟩)
  unfold Tree.loopHeadScript
  split
  · exact List.forall_mem_append.2 ⟨Item.isPlain_of_mem_visits, Item.isPlain_of_mem_introduce⟩
  · exact List.forall_mem_append.2 ⟨Item.isPlain_of_mem_visits, Item.isPlain_of_mem_visits⟩
  · exact Item.isPlain_of_mem_visits

theorem exposes_guardedScript : Exposes [] (Item.events t.guardedScript) := by
  refine .inScope h (List.forall_mem_append.2 ⟨fun item hitem => ?_, Item.isPlain_of_mem_visits⟩)
  obtain ⟨c, -, hitem⟩ := List.mem_flatMap.1 hitem
  unfold Tree.resourceScript at hitem
  split at hitem
  · rw [List.mem_singleton.1 hitem]
    rfl
  · rcases List.mem_append.1 hitem with hitem | hitem
    · exact Item.isPlain_of_mem_visits item hitem
    · exact Item.isPlain_of_mem_introduce item hitem

theorem exposes_catchScript (c : Subtree t) : Exposes [] (Item.events (Tree.catchScript c)) := by
  refine .inScope h (List.forall_mem_append.2 ⟨Item.isPlain_of_mem_introduce, fun item hitem => ?_⟩)
  obtain ⟨b, -, rfl⟩ := List.mem_map.1 hitem
  rfl

theorem exposes_clauseScript (c : Subtree t) : Exposes [] (Item.events (Tree.clauseScript c)) := by
  unfold Tree.clauseScript
  split
  · exact exposes_catchScript h c
  · split
    · have hblocks := Exposes.blocks h ((c.1.contentOf? ["block"]).toList.map c.trans)
      rwa [List.map_map] at hblocks
    · exact .nil

theorem exposes_tryScript :
    Exposes [] (Item.events (t.guardedScript ++ t.content.flatMap Tree.clauseScript)) := by
  rw [Item.events_append, Item.events_flatMap]
  exact .append_nil (exposes_guardedScript h) (.flatMap_nil fun c _ => exposes_clauseScript h c)

theorem exposes_switchScript : Exposes [] (Item.events t.switchScript) := by
  rw [Tree.switchScript, Item.events_append]
  refine .append_nil (.exprs h _) (.inScope h fun item hitem => ?_)
  obtain ⟨g, -, hitem⟩ := List.mem_flatMap.1 hitem
  obtain ⟨c, -, hitem⟩ := List.mem_flatMap.1 hitem
  unfold Tree.switchItemScript at hitem
  split at hitem
  · cases hitem
  · split at hitem
    · rw [List.mem_singleton.1 hitem]
      rfl
    · rw [List.mem_singleton.1 hitem]
      rfl

theorem exposes_stmtScript : Exposes (t.exposed.map (.localVar, ·)) (Item.events t.stmtScript) := by
  unfold Tree.stmtScript
  rw [Tree.exposed]
  generalize StmtForm.ofType t.type = form
  cases form with
  | comment | localType => exact .nil
  | block => exact exposes_blockScript h
  | expression | ret | other => exact .exprs h _
  | declaration =>
    rw [List.map_flatMap]
    exact exposes_declarationScript h
  | branch =>
    rw [Item.events_append]
    exact .append (.exprs h _) (.visits h .stmt _)
  | loop kind => exact exposes_loopScript h kind
  | guarded => exact exposes_tryScript h
  | switch => exact exposes_switchScript h
  | synchronized =>
    rw [Item.events_append]
    exact .append_nil (.exprs h _) (.blocks h _)
  | labeled => exact .visits h .stmt _

end

/-- **What a node exposes**: nothing, unless it is read as a statement. -/
theorem exposes_events (t : Tree) (mode : Mode) :
    Exposes ((t.exposedAs mode).map (.localVar, ·)) (t.events mode) := by
  -- on the size: what a script visits may lie deeper than the children
  induction hsize : t.size using Nat.strongRecOn generalizing t mode with
  | ind n ih =>
    have h : ∀ (c : Subtree t) (mode : Mode),
        Exposes ((c.1.exposedAs mode).map (.localVar, ·)) (c.1.events mode) := fun c mode =>
      ih c.1.size (hsize ▸ c.2) c.1 mode rfl
    rw [Tree.events_eq]
    cases mode with
    | expr => exact exposes_exprScript h
    | stmt => exact exposes_stmtScript h
    | block => exact exposes_blockScript h

theorem exposes_methodEvents (m : Tree) : Exposes [] m.methodEvents :=
  .scope (.append (.declarations .parameter id (fun _ => none) m.parameterNames)
    (.flatMap_nil fun b _ => exposes_events b.1 .block))

/-- **What a type exposes**: nothing. -/
theorem exposes_typeEvents (t : Tree) : Exposes [] t.typeEvents := by
  induction hsize : t.size using Nat.strongRecOn generalizing t with
  | ind n ih =>
    rw [Tree.typeEvents_eq]
    have hfields : Exposes [] ((t.members.flatMap (·.1.fieldParts)).flatMap Tree.fieldEvents) :=
      .flatMap_nil fun f _ => .flatMap_nil fun v _ =>
        .append_nil (exposes_events v .expr) (.initialization _ _ v)
    have hmembers : Exposes [] (t.members.flatMap (·.1.memberEvents)) := by
      refine .flatMap_nil fun m _ => ?_
      unfold Tree.memberEvents
      split
      · exact exposes_methodEvents m.1
      · split
        · exact ih m.1.size (hsize ▸ m.2) m.1 rfl
        · exact .nil
    exact .scope (.append (.append (.declarations .field Prod.fst Prod.snd _)
      (.append_nil .fields hfields)) hmembers)

end TaintFlow.Java
