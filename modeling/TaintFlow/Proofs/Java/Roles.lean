import Mathlib.Data.List.Nodup
import TaintFlow.Proofs.Java.CallNodes

/-!
# Children by their roles

What is gathered from a node comes from its children, and how a child is read can be told from its
role.  That the productions of a type bear this out is checked slot by slot
(`distributes`); for the nodes of a type that passes the check, what the children add can then be
listed role by role (`Gathering.flatMap_share`).

* `everyProduction`, `everySlot` : checks of all productions of a type.
* `inRole_eq_child?` : a role for at most one child.
* `Gathering` : what is gathered from nodes, and what their children add.
-/

namespace TaintFlow.Java

/-! ### Checks of productions -/

/-- Whether a type has productions, and all of them pass the check. -/
def everyProduction (type : String) (p : List Slot → Bool) : Bool :=
  !(productions type).isEmpty && (productions type).all p

/-- Whether a type has productions, and all of their slots pass the check. -/
def everySlot (type : String) (p : Slot → Bool) : Bool :=
  everyProduction type (·.all p)

/-- Whether only statements and nodes of the given types stand in a slot. -/
def Slot.holds (types : List String) (slot : Slot) : Bool :=
  match slot.shape with
  | .of types' => types'.all (types ++ ";" :: statementTypes).contains
  | .statement => true
  | _ => false

theorem Slot.mem_of_holds {types : List String} {slot : Slot} (h : slot.holds types = true) {t : Tree}
    (hadmits : slot.shape.admits t = true) : t.type ∈ types ++ ";" :: statementTypes := by
  obtain ⟨count, role, shape⟩ := slot
  cases shape with
  | of types' => exact List.contains_iff_mem.1 (List.all_eq_true.1 h _ (Shape.admits_of.1 hadmits).2)
  | statement =>
    simp only [Shape.admits, Bool.or_eq_true, Bool.and_eq_true, List.contains_iff_mem, beq_iff_eq]
      at hadmits
    refine List.mem_append_right _ ?_
    rcases hadmits with ⟨-, htype⟩ | ⟨-, htype⟩
    · exact List.mem_cons_of_mem _ htype
    · exact List.mem_cons.2 (.inl htype)
  | mark | any => cases h

/-- Whether any number of nodes may stand in a slot. -/
def Count.isMany : Count → Bool
  | .many => true
  | _ => false

namespace Tree

variable {t : Tree}

theorem mem_content_of_mem_pieces {c : Subtree t} (hc : c ∈ t.pieces)
    (hcontent : c.1.isContent = true) : c ∈ t.content := by
  rw [content_eq_filter_pieces]
  exact List.mem_filter.2 ⟨hc, hcontent⟩

theorem exists_accepts_of_every (hconf : t.conforms = true) {type : String} (htype : t.type = type)
    {p : List Slot → Bool} (h : everyProduction type p = true) :
    ∃ slots, p slots = true ∧ accepts slots t.pieces = true := by
  rw [everyProduction, Bool.and_eq_true, Bool.not_eq_true'] at h
  obtain ⟨slots, hslots, haccepts⟩ := exists_accepts hconf htype h.1
  exact ⟨slots, List.all_eq_true.1 h.2 slots hslots, haccepts⟩

theorem exists_slot_of_every (hconf : t.conforms = true) {type : String} (htype : t.type = type)
    {p : Slot → Bool} (h : everySlot type p = true) {c : Subtree t} (hc : c ∈ t.pieces) :
    ∃ slot, p slot = true ∧ c.1.field = slot.role ∧ slot.shape.admits c.1 = true := by
  obtain ⟨slots, hslots, haccepts⟩ := exists_accepts_of_every hconf htype h
  obtain ⟨slot, hslot, hrole, hadmits⟩ := exists_slot_of_accepts haccepts hc
  exact ⟨slot, List.all_eq_true.1 hslots slot hslot, hrole, hadmits⟩

theorem mem_pieces_of_child? {field : String} {c : Subtree t} (hc : t.child? field = some c) :
    c ∈ t.pieces ∧ c.1.field = some field := by
  rw [child?_eq_find_pieces] at hc
  have hfield := List.find?_some hc
  exact ⟨List.mem_of_find?_eq_some hc, eq_of_beq hfield⟩

theorem mem_pieces_of_mem_childrenIn {field : String} {c : Subtree t}
    (hc : c ∈ t.childrenIn field) : c ∈ t.pieces ∧ c.1.field = some field := by
  rw [childrenIn_eq_filter_pieces] at hc
  exact ⟨(List.mem_filter.1 hc).1, eq_of_beq (List.mem_filter.1 hc).2⟩

/-- A child in a role for which a type has only slots with words of some types is one of these. -/
theorem mem_content_of_role (hconf : t.conforms = true) {type : String} (htype : t.type = type)
    {field : String} (types : List String)
    (hslots : everySlot type (fun slot => slot.role != some field || slot.isWithin types) = true)
    {c : Subtree t} (hc : t.child? field = some c) : c ∈ t.content ∧ c.1.type ∈ types := by
  obtain ⟨hpieces, hfield⟩ := mem_pieces_of_child? hc
  obtain ⟨slot, hwithin, hrole, hadmits⟩ := exists_slot_of_every hconf htype hslots hpieces
  rw [← hrole, hfield, bne_self_eq_false, Bool.false_or] at hwithin
  obtain ⟨hcontent, hctype⟩ := slot.mem_of_isWithin hwithin hadmits
  exact ⟨mem_content_of_mem_pieces hpieces hcontent, hctype⟩

/-- Children in roles for which a type has only slots with statements and nodes of some types are among
these. -/
theorem type_mem_of_holds (hconf : t.conforms = true) {type : String} (htype : t.type = type)
    (p : Option String → Bool) (types : List String)
    (hslots : everySlot type (fun slot => !p slot.role || slot.holds types) = true)
    {c : Subtree t} (hc : c ∈ t.pieces) (hp : p c.1.field = true) :
    c.1.type ∈ types ++ ";" :: statementTypes := by
  obtain ⟨slot, hholds, hrole, hadmits⟩ := exists_slot_of_every hconf htype hslots hc
  rw [← hrole, hp, Bool.not_true, Bool.false_or] at hholds
  exact slot.mem_of_holds hholds hadmits

end Tree

/-- What stands in slots begins with what stands in the first one. -/
theorem exists_here_of_accepts {t : Tree} {slot : Slot} {slots : List Slot} {ps : List (Subtree t)}
    (h : accepts (slot :: slots) ps = true) :
    ∃ here rest, ps = here ++ rest ∧
      (∀ p ∈ here, p.1.field = slot.role ∧ slot.shape.admits p.1 = true) ∧
      (slot.count.isMany = false → here.length ≤ 1) ∧ accepts slots rest = true := by
  obtain ⟨count, role, shape⟩ := slot
  cases count with
  | one =>
    obtain ⟨p, rest, rfl, hp, hrest⟩ := accepts_one.1 h
    exact ⟨[p], rest, rfl, List.forall_mem_singleton.2 hp, fun _ => Nat.le_refl 1, hrest⟩
  | optional =>
    obtain ⟨here, rest, rfl, hhere, hrest⟩ := accepts_optional.1 h
    exact ⟨here.toList, rest, rfl, hhere, fun _ => Option.length_toList_le, hrest⟩
  | many =>
    obtain ⟨here, rest, rfl, hhere, hrest⟩ := accepts_many.1 h
    exact ⟨here, rest, rfl, hhere, fun h => (by cases h), hrest⟩

/-! ### Roles -/

/-- Whether at most one node stands in a role. -/
def isSingle (r : Option String) : List Slot → Bool
  | [] => true
  | slot :: slots =>
    if slot.role == r then !slot.count.isMany && slots.all (·.role != r) else isSingle r slots

/-- The nodes in a role. -/
def inRole {t : Tree} (r : Option String) (ps : List (Subtree t)) : List (Subtree t) :=
  ps.filter (·.1.field == r)

section

variable {t : Tree} {slot : Slot} {slots : List Slot} {here rest ps : List (Subtree t)}
  {r : Option String}

theorem inRole_append (here rest : List (Subtree t)) :
    inRole r (here ++ rest) = inRole r here ++ inRole r rest :=
  List.filter_append ..

theorem inRole_of_eq (h : ∀ p ∈ here, p.1.field = slot.role ∧ slot.shape.admits p.1 = true)
    (hrole : slot.role = r) : inRole r here = here :=
  List.filter_eq_self.2 fun p hp => beq_iff_eq.2 ((h p hp).1.trans hrole)

theorem inRole_of_ne (h : ∀ p ∈ here, p.1.field = slot.role ∧ slot.shape.admits p.1 = true)
    (hrole : slot.role ≠ r) : inRole r here = [] :=
  List.filter_eq_nil_iff.2 fun p hp heq => hrole ((h p hp).1.symm.trans (eq_of_beq heq))

theorem inRole_eq_nil (h : accepts slots ps = true) (hslots : slots.all (·.role != r) = true) :
    inRole r ps = [] := by
  refine List.filter_eq_nil_iff.2 fun p hp heq => ?_
  obtain ⟨slot, hslot, hrole, -⟩ := exists_slot_of_accepts h hp
  have hne := List.all_eq_true.1 hslots slot hslot
  rw [bne, ← hrole, heq] at hne
  cases hne

theorem length_inRole_le_one (h : accepts slots ps = true) (hsingle : isSingle r slots = true) :
    (inRole r ps).length ≤ 1 := by
  induction slots generalizing ps with
  | nil =>
    rw [accepts_nil.1 h]
    exact Nat.zero_le 1
  | cons slot slots ih =>
    obtain ⟨here, rest, rfl, hhere, hcount, hrest⟩ := exists_here_of_accepts h
    rw [isSingle] at hsingle
    split at hsingle
    · rename_i hrole
      obtain ⟨hmany, hothers⟩ := Bool.and_eq_true_iff.1 hsingle
      rw [inRole_append, inRole_of_eq hhere (eq_of_beq hrole), inRole_eq_nil hrest hothers,
        List.append_nil]
      exact hcount (by simpa using hmany)
    · rename_i hrole
      rw [inRole_append, inRole_of_ne hhere fun heq => hrole (beq_iff_eq.2 heq), List.nil_append]
      exact ih hrest hsingle

end

theorem inRole_some (t : Tree) (r : String) : inRole (some r) t.pieces = t.childrenIn r :=
  (t.childrenIn_eq_filter_pieces r).symm

theorem eq_toList_head? {α : Type} {l : List α} (h : l.length ≤ 1) : l = l.head?.toList := by
  cases l with
  | nil => rfl
  | cons a l =>
    cases l with
    | nil => rfl
    | cons b l => simp at h

namespace Tree

variable {t : Tree} (hconf : t.conforms = true) {type : String} (htype : t.type = type)

include hconf htype

/-- The children in a role for at most one node. -/
theorem inRole_eq_child? {r : String} (h : everyProduction type (isSingle (some r)) = true) :
    inRole (some r) t.pieces = (t.child? r).toList := by
  obtain ⟨slots, hsingle, haccepts⟩ := exists_accepts_of_every hconf htype h
  rw [child?_eq_find_pieces, ← List.head?_filter]
  exact eq_toList_head? (length_inRole_le_one haccepts hsingle)

omit hconf htype in
/-- The content of a node whose children have no roles. -/
theorem content_eq_inRole {slots : List Slot} (haccepts : accepts slots t.pieces = true)
    (hroles : slots.all (·.role == none) = true) : t.content = inRole none t.pieces := by
  rw [content_eq_filter_pieces]
  refine List.filter_congr fun p hp => ?_
  obtain ⟨slot, hslot, hrole, -⟩ := exists_slot_of_accepts haccepts hp
  have hnone : p.1.field = none := hrole.trans (eq_of_beq (List.all_eq_true.1 hroles slot hslot))
  have hcontent := (List.mem_filter.1 hp).2
  rw [hnone, Option.isSome_none, Bool.or_false] at hcontent
  rw [hcontent, hnone]
  rfl

/-- The only content of a node. -/
theorem content_eq_firstContent? (h : everyProduction type (fun slots =>
    isSingle none slots && slots.all (·.role == none)) = true) :
    t.content = t.firstContent?.toList := by
  obtain ⟨slots, hslots, haccepts⟩ := exists_accepts_of_every hconf htype h
  obtain ⟨hsingle, hroles⟩ := Bool.and_eq_true_iff.1 hslots
  have hlength := length_inRole_le_one haccepts hsingle
  rw [← content_eq_inRole haccepts hroles] at hlength
  rw [firstContent?_eq_head?]
  exact eq_toList_head? hlength

end Tree

/-- Whether the slots that are not quiet have roles from the list, in this order. -/
def inOrder (quiet : Slot → Bool) : List Slot → List (Option String) → Bool
  | [], _ => true
  | slot :: slots, roles =>
    if quiet slot then inOrder quiet slots roles
    else roles.contains slot.role && inOrder quiet slots (roles.dropWhile (· != slot.role))

theorem mem_of_inOrder {quiet : Slot → Bool} {slots : List Slot} {roles : List (Option String)}
    (h : inOrder quiet slots roles = true) :
    ∀ slot ∈ slots, quiet slot = true ∨ slot.role ∈ roles := by
  induction slots generalizing roles with
  | nil => simp
  | cons slot slots ih =>
    rw [inOrder] at h
    split at h
    · rename_i hquiet
      exact List.forall_mem_cons.2 ⟨.inl hquiet, ih h⟩
    · obtain ⟨hrole, h⟩ := Bool.and_eq_true_iff.1 h
      refine List.forall_mem_cons.2 ⟨.inr (List.contains_iff_mem.1 hrole), fun slot' hslot' => ?_⟩
      exact (ih h slot' hslot').imp_right fun hmem => (List.dropWhile_suffix _).subset hmem

/-- What nodes in slots add, role by role. -/
theorem flatMap_eq_of_inOrder {α : Type} {t : Tree} {quiet : Slot → Bool} {slots : List Slot}
    {roles : List (Option String)} (hroles : roles.Nodup)
    (horder : inOrder quiet slots roles = true) {ps : List (Subtree t)}
    (haccepts : accepts slots ps = true) {f : Subtree t → List α}
    (hquiet : ∀ slot ∈ slots, quiet slot = true → ∀ p ∈ ps, p.1.field = slot.role →
      slot.shape.admits p.1 = true → f p = []) :
    ps.flatMap f = roles.flatMap fun r => (inRole r ps).flatMap f := by
  induction slots generalizing ps roles with
  | nil =>
    rw [accepts_nil.1 haccepts]
    exact (List.flatMap_eq_nil_iff.2 fun _ _ => rfl).symm
  | cons slot slots ih =>
    obtain ⟨here, rest, rfl, hhere, -, hrest⟩ := exists_here_of_accepts haccepts
    have hsilent : ∀ slot' ∈ slots, quiet slot' = true → ∀ p ∈ rest, p.1.field = slot'.role →
        slot'.shape.admits p.1 = true → f p = [] := fun slot' hslot' hq p hp =>
      hquiet slot' (List.mem_cons_of_mem _ hslot') hq p (List.mem_append_right _ hp)
    simp only [List.flatMap_append, inRole_append]
    rw [inOrder] at horder
    split at horder
    · rename_i hq
      have hnone : ∀ p ∈ here, f p = [] := fun p hp =>
        hquiet slot List.mem_cons_self hq p (List.mem_append_left _ hp) (hhere p hp).1 (hhere p hp).2
      have hnone' : ∀ r, (inRole r here).flatMap f = [] := fun r =>
        List.flatMap_eq_nil_iff.2 fun p hp => hnone p (List.mem_filter.1 hp).1
      rw [List.flatMap_eq_nil_iff.2 hnone, ih hroles horder hrest hsilent]
      simp only [hnone', List.nil_append]
    · obtain ⟨hmem, horder⟩ := Bool.and_eq_true_iff.1 horder
      obtain ⟨before, after, rfl⟩ := List.append_of_mem (List.contains_iff_mem.1 hmem)
      obtain ⟨-, hlater, hapart⟩ := List.nodup_append.1 hroles
      have hdrop : (before ++ slot.role :: after).dropWhile (· != slot.role) = slot.role :: after := by
        rw [List.dropWhile_append_of_pos fun r hr =>
          bne_iff_ne.2 (hapart r hr slot.role List.mem_cons_self)]
        simp
      rw [hdrop] at horder
      have hothers {roles : List (Option String)} (h : ∀ r ∈ roles, r ≠ slot.role) :
          (roles.flatMap fun r => (inRole r here).flatMap f ++ (inRole r rest).flatMap f) =
            roles.flatMap fun r => (inRole r rest).flatMap f :=
        List.flatMap_congr fun r hr => by rw [inRole_of_ne hhere (h r hr).symm]; rfl
      -- nothing that follows has a role that was passed over
      have hbefore : (before.flatMap fun r => (inRole r rest).flatMap f) = [] := by
        refine List.flatMap_eq_nil_iff.2 fun r hr => List.flatMap_eq_nil_iff.2 fun p hp => ?_
        obtain ⟨hp, hfield⟩ := List.mem_filter.1 hp
        obtain ⟨slot', hslot', hrole, hadmits⟩ := exists_slot_of_accepts hrest hp
        rcases mem_of_inOrder horder slot' hslot' with hq | hmem
        · exact hsilent slot' hslot' hq p hp hrole hadmits
        · exact absurd ((eq_of_beq hfield).symm.trans hrole) (hapart r hr slot'.role hmem)
      rw [List.flatMap_append, hothers fun r hr => hapart r hr slot.role List.mem_cons_self, hbefore, List.flatMap_cons,
        hothers fun r hr heq => (List.nodup_cons.1 hlater).1 (heq ▸ hr), inRole_of_eq hhere rfl,
        ih hlater horder hrest hsilent, List.flatMap_cons, List.nil_append, List.append_assoc]

/-! ### How the nodes of a slot are read -/

/-- Types of the nodes that have no content. -/
def leafTypes : List String :=
  ["identifier", "this", "super", "underscore_pattern"]

/-- Types of the nodes in which nothing is read. -/
def silentTypes : List String :=
  sealedTypes ++ leafTypes

/-- How the nodes in a role are read: all as expressions, all as statements, or only declarations as
statements. -/
inductive Way where
  | expr
  | stmt
  | init
  deriving DecidableEq

/-- Whether a node of some type is read as a statement. -/
def Way.isStatement : Way → String → Bool
  | .expr, _ => false
  | .stmt, _ => true
  | .init, type => type == "local_variable_declaration"

namespace Slot

/-- Whether nothing is read in the nodes of a slot. -/
def isSilent (slot : Slot) : Bool :=
  slot.isWithin silentTypes

/-- A child of some type in a role, to which only these matter. -/
def probe (type : String) (role : Option String) : Tree where
  type
  start := 0
  stop := 0
  field := role

/-- Whether a child of some type is looked at in the slot of a node of a type. -/
def visits (statement : Bool) (type : String) (slot : Slot) (child : String) : Bool :=
  (probe type none).visits statement (probe child slot.role)

/-- Whether a child of some type stands as a statement in the slot of a node of a type. -/
def places (statement : Bool) (type : String) (slot : Slot) (child : String) : Bool :=
  statement && (probe type none).places (probe child slot.role)

/-- Whether the nodes of a slot are not looked at. -/
def isSkipped (statement : Bool) (type : String) (slot : Slot) : Bool :=
  match slot.shape with
  | .mark => true
  | .of types => types.all fun child =>
      !slot.visits statement type child && !slot.places statement type child
  | _ => false

/-- Whether the nodes of a slot are read in a way. -/
def isRead (statement : Bool) (type : String) (way : Way) (slot : Slot) : Bool :=
  match slot.shape with
  | .mark => false
  | .any => slot.visits statement type "" && !("catch_clause" :: groupTypes).contains type &&
      match way with
      | .expr => !(statement && containerTypes.contains type && !operandRoles.contains slot.role)
      | .init => statement && containerTypes.contains type && slot.role == some "init"
      | .stmt => false
  | .of types => types.all fun child =>
      slot.visits statement type child && slot.places statement type child == way.isStatement child
  | .statement => way == .stmt && statement && containerTypes.contains type &&
      !(some "init" :: operandRoles).contains slot.role &&
      statementTypes.all (slot.visits statement type)

variable {slot : Slot} {statement : Bool} {t c : Tree}

theorem visits_eq (hrole : c.field = slot.role) :
    slot.visits statement t.type c.type = t.visits statement c := by
  rw [visits, ← hrole]
  rfl

theorem places_eq (hrole : c.field = slot.role) :
    slot.places statement t.type c.type = (statement && t.places c) := by
  rw [places, ← hrole]
  rfl

/-- A child that is looked at whatever its type. -/
theorem visits_of_any (hrole : c.field = slot.role)
    (hvisits : slot.visits statement t.type "" = true)
    (htype : t.type ∉ "catch_clause" :: groupTypes) : t.visits statement c = true := by
  rw [visits, ← hrole] at hvisits
  unfold Tree.visits at hvisits ⊢
  dsimp only [probe] at hvisits
  split at hvisits <;> simp_all [groupTypes]

end Slot

/-- Whether what is gathered from a node of a type comes from the children in some roles, which are
read in some ways. -/
def distributes (statement : Bool) (type : String) (modes : List (Option String × Way)) : Bool :=
  let roles := modes.map (·.1)
  type != "lambda_expression" && decide roles.Nodup && everyProduction type fun slots =>
    inOrder (fun slot => slot.isSilent || slot.isSkipped statement type) slots roles &&
      slots.all fun slot => slot.isSilent ||
        (slot.isSkipped statement type && !roles.contains slot.role) ||
        modes.any fun x => slot.role == x.1 && slot.isRead statement type x.2

/-- Whether at most one child stands in each of these roles, too. -/
def distributesTo (statement : Bool) (type : String) (modes : List (String × Way)) : Bool :=
  distributes statement type (modes.map fun x => (some x.1, x.2)) &&
    modes.all fun x => everyProduction type (isSingle (some x.1))

/-! ### What is gathered -/

/-- Types of the nodes that hold parts of the node around them. -/
def partTypes : List String :=
  ["argument_list", "array_initializer", "variable_declarator", "resource_specification", "resource",
   "catch_clause", "finally_clause", "switch_block", "switch_block_statement_group", "switch_rule"]

/-- Something that is gathered from the nodes that are read, as statements or as expressions. -/
structure Gathering (α : Type) where
  /-- What is gathered from a node. -/
  of : Bool → Tree → List α
  /-- What is gathered from the children of a node. -/
  inside : Bool → Tree → List α
  /-- What a child adds to it. -/
  share : Bool → (t : Tree) → Subtree t → List α
  of_sealed {statement : Bool} {t : Tree} : t.type ∈ sealedTypes → of statement t = []
  of_empty {statement : Bool} {t : Tree} : t.pieces = [] → t.type ∈ ";" :: leafTypes →
    of statement t = []
  of_part {statement : Bool} {t : Tree} : t.type ∈ partTypes →
    of statement t = t.pieces.flatMap (share statement t)
  inside_eq {statement : Bool} {t : Tree} : t.type ≠ "object_creation_expression" →
    inside statement t = t.pieces.flatMap (share statement t)
  /-- Of the annotations of a created type only one that comes first of all is looked at. -/
  inside_creation {t : Tree} {first : Subtree t} {rest : List (Subtree t)} :
    t.type = "object_creation_expression" → t.content = first :: rest → inside false t =
      of false first.1 ++ rest.flatMap fun c => if c.1.isAnnotating then [] else of false c.1
  share_of_not_content {statement : Bool} {t : Tree} {c : Subtree t} : c.1.isContent = false →
    share statement t c = []
  share_of_visits {statement : Bool} {t : Tree} {c : Subtree t} : t.type ≠ "lambda_expression" →
    c.1.isContent = true → t.visits statement c.1 = true →
    share statement t c = of (statement && t.places c.1) c.1
  share_of_skipped {statement : Bool} {t : Tree} {c : Subtree t} : t.conforms = true →
    t.type ≠ "lambda_expression" → c ∈ t.content → t.visits statement c.1 = false →
    (statement && t.places c.1) = false → share statement t c = []

/-- Something is gathered from the bodies of lambdas, too. -/
def Gathering.EntersLambdas {α : Type} (G : Gathering α) : Prop :=
  ∀ {t : Tree} {c : Subtree t}, t.type = "lambda_expression" → c.1.isContent = true →
    G.share false t c = if c.1.field == some "parameters" then [] else G.of (c.1.type == "block") c.1

namespace Gathering

open TaintFlow.Java.Tree

variable {α : Type} (G : Gathering α) {t : Tree} {statement : Bool}

theorem of_silent (hconf : t.conforms = true) (h : t.type ∈ silentTypes) : G.of statement t = [] := by
  rcases List.mem_append.1 h with h | h
  · exact G.of_sealed h
  · refine G.of_empty ?_ (List.mem_cons_of_mem _ h)
    simp only [leafTypes, List.mem_cons, List.not_mem_nil, or_false] at h
    rcases h with h | h | h | h <;> exact accepts_nil.1 (accepts_of_type hconf h rfl)

theorem of_semicolon (hmark : t.isMark = true) (htype : t.type = ";") : G.of statement t = [] := by
  have hchildren : t.children = [] := by simp_all [isMark]
  exact G.of_empty (by simp [pieces, parts, hchildren]) (by rw [htype]; decide)

theorem of_isSilent (hconf : t.conforms = true) {slot : Slot} (hsilent : slot.isSilent = true)
    {c : Subtree t} (hc : c ∈ t.pieces) (hadmits : slot.shape.admits c.1 = true) (mode : Bool) :
    G.of mode c.1 = [] :=
  G.of_silent (conforms_of_mem_pieces hconf hc) (slot.mem_of_isWithin hsilent hadmits).2

theorem share_of_isSilent (hconf : t.conforms = true) (hlambda : t.type ≠ "lambda_expression")
    {slot : Slot} (hsilent : slot.isSilent = true) {c : Subtree t} (hc : c ∈ t.pieces)
    (hadmits : slot.shape.admits c.1 = true) : G.share statement t c = [] := by
  obtain ⟨hcontent, htype⟩ := slot.mem_of_isWithin hsilent hadmits
  cases hvisits : t.visits statement c.1 with
  | true => rw [G.share_of_visits hlambda hcontent hvisits, G.of_isSilent hconf hsilent hc hadmits]
  | false =>
    have hplaced := (by decide : ∀ type ∈ silentTypes, type ∉ placedTypes) _ htype
    refine G.share_of_skipped hconf hlambda (mem_content_of_mem_pieces hc hcontent) hvisits ?_
    simp [places, hplaced]

theorem share_of_isSkipped (hconf : t.conforms = true) (hlambda : t.type ≠ "lambda_expression")
    {slot : Slot} (hskipped : slot.isSkipped statement t.type = true) {c : Subtree t}
    (hc : c ∈ t.pieces) (hrole : c.1.field = slot.role) (hadmits : slot.shape.admits c.1 = true) :
    G.share statement t c = [] := by
  obtain ⟨count, role, shape⟩ := slot
  cases shape with
  | mark => exact G.share_of_not_content (isContent_of_isMark hadmits)
  | of types =>
    obtain ⟨hcontent, htype⟩ := Shape.admits_of.1 hadmits
    have hskipped := List.all_eq_true.1 hskipped _ htype
    simp only [Slot.visits_eq hrole, Slot.places_eq hrole, Bool.and_eq_true, Bool.not_eq_true']
      at hskipped
    exact G.share_of_skipped hconf hlambda (mem_content_of_mem_pieces hc hcontent) hskipped.1
      hskipped.2
  | any | statement => cases hskipped

theorem share_of_isRead (hlambda : t.type ≠ "lambda_expression") {way : Way} {slot : Slot}
    (hread : slot.isRead statement t.type way = true) {c : Subtree t}
    (hrole : c.1.field = slot.role) (hadmits : slot.shape.admits c.1 = true) :
    G.share statement t c = G.of (way.isStatement c.1.type) c.1 := by
  have hshare (hcontent : c.1.isContent = true) (hvisits : t.visits statement c.1 = true)
      (hplaces : (statement && t.places c.1) = way.isStatement c.1.type) :
      G.share statement t c = G.of (way.isStatement c.1.type) c.1 := by
    rw [G.share_of_visits hlambda hcontent hvisits, hplaces]
  obtain ⟨count, role, shape⟩ := slot
  cases shape with
  | mark => cases hread
  | any =>
    simp only [Slot.isRead, Bool.and_eq_true, Bool.not_eq_true', List.contains_eq_mem,
      decide_eq_false_iff_not] at hread
    obtain ⟨⟨hvisits, htype⟩, hway⟩ := hread
    refine hshare hadmits (Slot.visits_of_any hrole hvisits htype) ?_
    obtain rfl : c.1.field = role := hrole
    cases way with
    | stmt => cases hway
    | expr =>
      rw [Bool.not_eq_true', Bool.and_eq_false_iff, Bool.and_eq_false_iff] at hway
      rcases hway with (hway | hway) | hway <;> simp_all [places, Way.isStatement]
    | init =>
      simp only [Bool.and_eq_true, decide_eq_true_eq, beq_iff_eq] at hway
      obtain ⟨⟨rfl, hcontainer⟩, hinit⟩ := hway
      cases hdeclares : c.1.type == "local_variable_declaration" with
      | false => simp [places, hinit, Way.isStatement, hdeclares]
      | true =>
        simp [places, hcontainer, hinit, Way.isStatement, eq_of_beq hdeclares, placedTypes,
          statementTypes, operandRoles]
  | of types =>
    obtain ⟨hcontent, htype⟩ := Shape.admits_of.1 hadmits
    have hread := List.all_eq_true.1 hread _ htype
    simp only [Slot.visits_eq hrole, Slot.places_eq hrole, Bool.and_eq_true, beq_iff_eq] at hread
    exact hshare hcontent hread.1 hread.2
  | statement =>
    simp only [Slot.isRead, Bool.and_eq_true, Bool.not_eq_true', beq_iff_eq] at hread
    obtain ⟨⟨⟨⟨rfl, rfl⟩, hcontainer⟩, hoperand⟩, hvisits⟩ := hread
    rcases Bool.or_eq_true_iff.1 hadmits with hstatement | hsemicolon
    · obtain ⟨hcontent, htype⟩ := Bool.and_eq_true_iff.1 hstatement
      have htype := List.contains_iff_mem.1 htype
      have hvisits := List.all_eq_true.1 hvisits _ htype
      rw [Slot.visits_eq hrole] at hvisits
      refine hshare hcontent hvisits ?_
      obtain rfl : c.1.field = role := hrole
      have hplaced : c.1.type ∈ placedTypes := List.mem_append_left _ htype
      simp_all [places, Way.isStatement]
    · obtain ⟨hmark, htype⟩ := Bool.and_eq_true_iff.1 hsemicolon
      rw [G.share_of_not_content (isContent_of_isMark hmark), G.of_semicolon hmark (eq_of_beq htype)]

/-- Nothing is read in a role whose slots are silent. -/
theorem flatMap_inRole_of_isSilent (hconf : t.conforms = true) {slots : List Slot}
    (haccepts : accepts slots t.pieces = true) {r : Option String} (hslots : (slots.all fun slot => slot.role != r || slot.isSilent) = true)
    (mode : Bool) : (inRole r t.pieces).flatMap (fun c => G.of mode c.1) = [] := by
  refine List.flatMap_eq_nil_iff.2 fun c hc => ?_
  obtain ⟨hc, hr⟩ := List.mem_filter.1 hc
  obtain ⟨slot, hslot, hrole, hadmits⟩ := exists_slot_of_accepts haccepts hc
  have hsilent := List.all_eq_true.1 hslots slot hslot
  rw [← hrole, eq_of_beq hr, bne_self_eq_false, Bool.false_or] at hsilent
  exact G.of_isSilent hconf hsilent hc hadmits mode

theorem flatMap_content (t : Tree) (statement : Bool) :
    t.content.flatMap (G.share statement t) = t.pieces.flatMap (G.share statement t) := by
  rw [content_eq_filter_pieces, flatMap_filter_ite]
  refine List.flatMap_congr fun c _ => ?_
  split
  · rfl
  · rename_i hcontent
    exact (G.share_of_not_content (Bool.not_eq_true _ ▸ hcontent)).symm

/-- What is gathered from a node all whose content is read in one way. -/
theorem flatMap_share_of_every (hconf : t.conforms = true) {type : String} (htype : t.type = type)
    (way : Way) (hlambda : type ≠ "lambda_expression")
    (h : everySlot type (fun slot => slot.isSilent || slot.isRead statement type way) = true) :
    t.pieces.flatMap (G.share statement t) =
      t.content.flatMap fun c => G.of (way.isStatement c.1.type) c.1 := by
  subst htype
  rw [← flatMap_content]
  refine List.flatMap_congr fun c hc => ?_
  have hc := mem_pieces_of_mem_content hc
  obtain ⟨slot, hslot, hrole, hadmits⟩ := exists_slot_of_every hconf rfl h hc
  rcases Bool.or_eq_true_iff.1 hslot with hsilent | hread
  · rw [G.share_of_isSilent hconf hlambda hsilent hc hadmits,
      G.of_isSilent hconf hsilent hc hadmits]
  · exact G.share_of_isRead hlambda hread hrole hadmits

/-- **What is gathered from a node** whose type passes the check, role by role. -/
theorem flatMap_share (hconf : t.conforms = true) {type : String} (htype : t.type = type)
    (modes : List (Option String × Way)) (h : distributes statement type modes = true) :
    t.pieces.flatMap (G.share statement t) = modes.flatMap fun x =>
      (inRole x.1 t.pieces).flatMap fun c => G.of (x.2.isStatement c.1.type) c.1 := by
  subst htype
  simp only [distributes, Bool.and_eq_true, bne_iff_ne, decide_eq_true_eq] at h
  obtain ⟨⟨hlambda, hnodup⟩, hevery⟩ := h
  obtain ⟨slots, hslots, haccepts⟩ := exists_accepts_of_every hconf rfl hevery
  obtain ⟨horder, hslots⟩ := Bool.and_eq_true_iff.1 hslots
  have hroles := flatMap_eq_of_inOrder hnodup horder haccepts (f := G.share statement t)
    fun slot _ hquiet p hp hrole hadmits => by
      rcases Bool.or_eq_true_iff.1 hquiet with hsilent | hskipped
      · exact G.share_of_isSilent hconf hlambda hsilent hp hadmits
      · exact G.share_of_isSkipped hconf hlambda hskipped hp hrole hadmits
  rw [hroles, List.flatMap_map]
  refine List.flatMap_congr fun x hx => List.flatMap_congr fun c hc => ?_
  obtain ⟨hc, hfield⟩ := List.mem_filter.1 hc
  obtain ⟨slot, hslot, hrole, hadmits⟩ := exists_slot_of_accepts haccepts hc
  have hslot := List.all_eq_true.1 hslots slot hslot
  simp only [Bool.or_eq_true, Bool.and_eq_true, List.any_eq_true] at hslot
  rcases hslot with (hsilent | ⟨-, hnot⟩) | ⟨y, hy, hyrole, hread⟩
  · rw [G.share_of_isSilent hconf hlambda hsilent hc hadmits,
      G.of_isSilent hconf hsilent hc hadmits]
  · have hmem : x.1 ∈ modes.map (·.1) := List.mem_map_of_mem hx
    rw [← eq_of_beq hfield, hrole, ← List.contains_iff_mem] at hmem
    rw [hmem] at hnot
    cases hnot
  · have hxy : x = y := by
      refine List.inj_on_of_nodup_map hnodup hx hy ?_
      rw [← eq_of_beq hfield, hrole, eq_of_beq hyrole]
    rw [hxy]
    exact G.share_of_isRead hlambda hread hrole hadmits

theorem flatMap_share_child? (hconf : t.conforms = true) {type : String} (htype : t.type = type)
    (modes : List (String × Way)) (h : distributesTo statement type modes = true) :
    t.pieces.flatMap (G.share statement t) = modes.flatMap fun x =>
      (t.child? x.1).toList.flatMap fun c => G.of (x.2.isStatement c.1.type) c.1 := by
  obtain ⟨hdistributes, hsingle⟩ := Bool.and_eq_true_iff.1 h
  rw [G.flatMap_share hconf htype _ hdistributes, List.flatMap_map]
  refine List.flatMap_congr fun x hx => ?_
  rw [inRole_eq_child? hconf htype (List.all_eq_true.1 hsingle x hx)]

/-- Content that is looked at and that does not stand as a statement is read as expressions. -/
theorem flatMap_share_of_swept (hlambda : t.type ≠ "lambda_expression")
    (hvisits : ∀ c ∈ t.content, t.visits statement c.1 = true)
    (hplaces : ∀ c ∈ t.content, (statement && t.places c.1) = false) :
    t.pieces.flatMap (G.share statement t) = t.content.flatMap fun c => G.of false c.1 := by
  rw [← flatMap_content]
  refine List.flatMap_congr fun c hc => ?_
  rw [G.share_of_visits hlambda (isContent_of_mem_content hc) (hvisits c hc), hplaces c hc]

end Gathering

end TaintFlow.Java
