import Mathlib.Data.List.Pairwise
import TaintFlow.Proofs.Java.Layout
import TaintFlow.Proofs.Java.Visits

/-!
# The order of scripts

The nodes that the script of a node visits stand one after the other in the text, in the order in which
they are read, with one exception: the condition of a do statement is read before the body that it
follows.  No two nodes that a script visits or declares overlap.

* `before_of_ranks` : children stand in the order of their roles.
* `Item.Orderly` : what is said of a script, `orderly_script` : that it holds of every one.
-/

namespace TaintFlow.Java

open TaintFlow.Code

/-! ### The order of roles -/

/-- Whether no slot of the second role stands before one of the first role. -/
def ranks (r r' : Option String) (slots : List Slot) : Bool :=
  decide (slots.Pairwise fun x y => ¬(x.role = r' ∧ y.role = r))

theorem rel_or_rel_of_pairwise {α : Type} {R : α → α → Prop} {l : List α} (h : l.Pairwise R)
    {a b : α} (ha : a ∈ l) (hb : b ∈ l) (hne : a ≠ b) : R a b ∨ R b a := by
  have hsymm : Std.Symm fun a b => R a b ∨ R b a := ⟨fun _ _ => Or.symm⟩
  have hor : l.Pairwise fun a b => R a b ∨ R b a := h.imp Or.inl
  exact hor.forall ha hb hne

theorem pairwise_of_accepts {t : Tree} {slots : List Slot} {ps : List (Subtree t)}
    {r r' : Option String} (hne : r ≠ r') (hslots : ranks r r' slots = true)
    (h : accepts slots ps = true) :
    ps.Pairwise fun p q => ¬(p.1.field = r' ∧ q.1.field = r) := by
  induction slots generalizing ps with
  | nil =>
    rw [accepts_nil.1 h]
    exact .nil
  | cons slot slots ih =>
    obtain ⟨here, rest, rfl, hhere, -, hrest⟩ := exists_here_of_accepts h
    obtain ⟨hslot, hslots⟩ := List.pairwise_cons.1 (of_decide_eq_true hslots)
    refine List.pairwise_append.2 ⟨?_, ih (decide_eq_true hslots) hrest, ?_⟩
    · refine List.pairwise_of_forall_mem_list fun p hp q hq hroles => ?_
      exact hne (hroles.2.symm.trans ((hhere q hq).1.trans ((hhere p hp).1.symm.trans hroles.1)))
    · intro p hp q hq hroles
      obtain ⟨slot', hslot', hrole, -⟩ := exists_slot_of_accepts hrest hq
      exact hslot slot' hslot' ⟨(hhere p hp).1.symm.trans hroles.1, hrole.symm.trans hroles.2⟩

namespace Tree

variable {t : Tree}

/-- The nodes stand at different places. -/
def Apart (a b : Tree) : Prop :=
  a.stop ≤ b.start ∨ b.stop ≤ a.start

theorem Apart.symm {a b : Tree} (h : a.Apart b) : b.Apart a :=
  Or.symm h

theorem Apart.of_inside {a b x y : Tree} (h : a.Apart b) (ha : a.laidOut = true)
    (hb : b.laidOut = true) (hx : x.Inside a) (hy : y.Inside b) : x.Apart y :=
  h.imp (before_of_inside ha hb · hx hy) (before_of_inside hb ha · hy hx)

/-- In every production of its type, nothing in the second role stands before something in the first
one. -/
def Ranks (t : Tree) (r r' : Option String) : Prop :=
  everyProduction t.type (ranks r r') = true

theorem apart_of_mem_parts (h : t.laidOut = true) {c d : Subtree t} (hc : c ∈ t.parts)
    (hd : d ∈ t.parts) (hne : c ≠ d) : c.1.Apart d.1 :=
  rel_or_rel_of_pairwise (pairwise_parts h) hc hd hne

/-- Children in different roles stand at different places. -/
theorem apart_of_field_ne (h : t.laidOut = true) {c d : Subtree t} (hc : c ∈ t.parts)
    (hd : d ∈ t.parts) (hne : c.1.field ≠ d.1.field) : c.1.Apart d.1 :=
  apart_of_mem_parts h hc hd fun he => hne (he ▸ rfl)

/-- Children stand in the order of their roles. -/
theorem before_of_ranks (hconf : t.conforms = true) (h : t.laidOut = true) {r r' : Option String}
    (hranks : t.Ranks r r') (hne : r ≠ r') {c d : Subtree t} (hc : c ∈ t.pieces)
    (hd : d ∈ t.pieces) (hcr : c.1.field = r) (hdr : d.1.field = r') : c.1.stop ≤ d.1.start := by
  obtain ⟨slots, hslots, haccepts⟩ := exists_accepts_of_every hconf rfl hranks
  have hroles := pairwise_of_accepts hne hslots haccepts
  have hparts : t.pieces.Pairwise fun a b => a.1.stop ≤ b.1.start :=
    (pairwise_parts h).sublist List.filter_sublist
  have hcd : c ≠ d := by
    rintro rfl
    exact hne (hcr.symm.trans hdr)
  -- one of them comes first among the children, and by the roles it is the first one
  rcases rel_or_rel_of_pairwise (hparts.and hroles) hc hd hcd with hfirst | hsecond
  · exact hfirst.1
  · exact absurd ⟨hdr, hcr⟩ hsecond.2

/-- The node stands inside a child in the role. -/
def Under (t : Tree) (r : Option String) (x : Tree) : Prop :=
  ∃ c ∈ t.pieces, c.1.field = r ∧ x.Inside c.1

theorem Under.inside {r : Option String} {x : Tree} (h : t.Under r x) : x.Inside t := by
  obtain ⟨c, hc, -, hx⟩ := h
  exact .child (mem_parts_of_mem_pieces hc) hx

theorem Under.apart (hlaid : t.laidOut = true) {r r' : Option String} (hne : r ≠ r') {x y : Tree}
    (hx : t.Under r x) (hy : t.Under r' y) : x.Apart y := by
  obtain ⟨c, hc, rfl, hx⟩ := hx
  obtain ⟨d, hd, rfl, hy⟩ := hy
  have hc := mem_parts_of_mem_pieces hc
  have hd := mem_parts_of_mem_pieces hd
  exact (apart_of_field_ne hlaid hc hd hne).of_inside (laidOut_of_mem_parts hlaid hc)
    (laidOut_of_mem_parts hlaid hd) hx hy

theorem Under.before (hconf : t.conforms = true) (hlaid : t.laidOut = true) {r r' : Option String}
    (hranks : t.Ranks r r') (hne : r ≠ r') {x y : Tree} (hx : t.Under r x) (hy : t.Under r' y) :
    x.stop ≤ y.start := by
  obtain ⟨c, hc, hcr, hx⟩ := hx
  obtain ⟨d, hd, hdr, hy⟩ := hy
  exact before_of_inside (laidOut_of_mem_parts hlaid (mem_parts_of_mem_pieces hc))
    (laidOut_of_mem_parts hlaid (mem_parts_of_mem_pieces hd))
    (before_of_ranks hconf hlaid hranks hne hc hd hcr hdr) hx hy

theorem under_child? {field : String} {c : Subtree t} (hc : c ∈ (t.child? field).toList) :
    t.Under (some field) c.1 := by
  obtain ⟨hc, hfield⟩ := mem_pieces_of_child? (Option.mem_toList.1 hc)
  exact ⟨c, hc, hfield, .refl⟩

theorem under_childrenIn {field : String} {c : Subtree t} (hc : c ∈ t.childrenIn field) :
    t.Under (some field) c.1 := by
  obtain ⟨hc, hfield⟩ := mem_pieces_of_mem_childrenIn hc
  exact ⟨c, hc, hfield, .refl⟩

theorem under_contentIn {field : String} {c : Subtree t} (hc : c ∈ t.contentIn field) :
    t.Under (some field) c.1 := by
  unfold contentIn at hc
  split at hc
  · rename_i p hp
    obtain ⟨d, hd, rfl⟩ := List.mem_map.1 hc
    obtain ⟨hp, hfield⟩ := mem_pieces_of_child? hp
    exact ⟨p, hp, hfield, inside_of_mem_parts (mem_parts_of_mem_content hd)⟩
  · cases hc

theorem before_childrenIn (hlaid : t.laidOut = true) (field : String) :
    (t.childrenIn field).Pairwise fun a b => a.1.stop ≤ b.1.start :=
  (pairwise_parts hlaid).sublist List.filter_sublist

theorem before_content (hlaid : t.laidOut = true) :
    t.content.Pairwise fun a b => a.1.stop ≤ b.1.start :=
  (pairwise_parts hlaid).sublist List.filter_sublist

theorem before_contentIn (hlaid : t.laidOut = true) (field : String) :
    (t.contentIn field).Pairwise fun a b => a.1.stop ≤ b.1.start := by
  unfold contentIn
  split
  · rename_i p hp
    rw [List.pairwise_map]
    exact before_content (laidOut_of_mem_parts hlaid (mem_parts_of_child? hp))
  · exact .nil

end Tree

/-! ### Items and where they stand -/

namespace Item

variable {t : Tree}

/-- The node that an item is about. -/
def spot? : Item t → Option Tree
  | .visit _ c => some c.1
  | .event (.declaration _ name _) => some name
  | .event _ => none

/-- The node that an item visits. -/
def visit? : Item t → Option Tree
  | .visit _ c => some c.1
  | .event _ => none

/-- The nodes that items are about. -/
def spots (items : List (Item t)) : List Tree :=
  items.filterMap spot?

/-- The nodes that items visit. -/
def visited (items : List (Item t)) : List Tree :=
  items.filterMap visit?

@[simp] theorem spots_nil : spots ([] : List (Item t)) = [] :=
  rfl

@[simp] theorem visited_nil : visited ([] : List (Item t)) = [] :=
  rfl

@[simp] theorem spots_append (items items' : List (Item t)) :
    spots (items ++ items') = spots items ++ spots items' :=
  List.filterMap_append

@[simp] theorem visited_append (items items' : List (Item t)) :
    visited (items ++ items') = visited items ++ visited items' :=
  List.filterMap_append

@[simp] theorem spots_visits {α : Type} (mode : α → Mode) (f : α → Subtree t) (l : List α) :
    spots (l.map fun a => .visit (mode a) (f a)) = l.map fun a => (f a).1 := by
  rw [spots, List.filterMap_map]
  exact congrFun List.filterMap_eq_map' l

@[simp] theorem visited_visits {α : Type} (mode : α → Mode) (f : α → Subtree t) (l : List α) :
    visited (l.map fun a => .visit (mode a) (f a)) = l.map fun a => (f a).1 := by
  rw [visited, List.filterMap_map]
  exact congrFun List.filterMap_eq_map' l

@[simp] theorem spots_scope (items : List (Item t)) : spots (scope items) = spots items := by
  rw [scope, spots, List.filterMap_cons_none rfl, List.filterMap_append]
  exact List.append_nil _

@[simp] theorem visited_scope (items : List (Item t)) : visited (scope items) = visited items := by
  rw [scope, visited, List.filterMap_cons_none rfl, List.filterMap_append]
  exact List.append_nil _

@[simp] theorem spots_introduce (name value : Option Tree) :
    spots (introduce name value : List (Item t)) = name.toList := by
  cases name with
  | none => rfl
  | some n => cases value <;> rfl

@[simp] theorem visited_introduce (name value : Option Tree) :
    visited (introduce name value : List (Item t)) = [] := by
  cases name with
  | none => rfl
  | some n => cases value <;> rfl

theorem spots_flatMap {α : Type} (l : List α) (f : α → List (Item t)) :
    spots (l.flatMap f) = l.flatMap fun a => spots (f a) :=
  List.filterMap_flatMap ..

theorem visited_sublist_spots (items : List (Item t)) : (visited items).Sublist (spots items) := by
  induction items with
  | nil => exact .slnil
  | cons item items ih =>
    cases item with
    | visit mode c => exact ih.cons_cons c.1
    | event e =>
      cases e with
      | declaration kind name value => exact ih.cons name
      | _ => exact ih

end Item

/-- What is read first stands first, unless it is the condition of a do statement. -/
def Tree.Precedes (t a b : Tree) : Prop :=
  a.stop ≤ b.start ∨
    t.type = "do_statement" ∧ t.Under (some "condition") a ∧ t.Under (some "body") b

/-- The items are about nodes inside the node that do not overlap, and visit them in order.  No
assignment is made at the node itself, and no fields are published. -/
structure Item.Orderly {t : Tree} (items : List (Item t)) : Prop where
  inside : ∀ x ∈ Item.spots items, x.Inside t
  apart : (Item.spots items).Pairwise Tree.Apart
  before : (Item.visited items).Pairwise t.Precedes
  silent : ∀ a, .event (.assignment a) ∉ items
  inner : .event .fields ∉ items

namespace Item.Orderly

variable {t : Tree} {items items' : List (Item t)}

theorem nil : Orderly ([] : List (Item t)) :=
  ⟨List.forall_mem_nil _, .nil, .nil, fun _ => List.not_mem_nil, List.not_mem_nil⟩

theorem append (h : Orderly items) (h' : Orderly items')
    (hapart : ∀ x ∈ Item.spots items, ∀ y ∈ Item.spots items', x.Apart y)
    (hbefore : ∀ x ∈ Item.visited items, ∀ y ∈ Item.visited items', t.Precedes x y) :
    Orderly (items ++ items') where
  inside := by
    rw [spots_append]
    exact List.forall_mem_append.2 ⟨h.inside, h'.inside⟩
  apart := by
    rw [spots_append]
    exact List.pairwise_append.2 ⟨h.apart, h'.apart, hapart⟩
  before := by
    rw [visited_append]
    exact List.pairwise_append.2 ⟨h.before, h'.before, hbefore⟩
  silent a ha := (List.mem_append.1 ha).elim (h.silent a) (h'.silent a)
  inner hf := (List.mem_append.1 hf).elim h.inner h'.inner

/-- Items of which the first ones stand before the others. -/
theorem append_before (h : Orderly items) (h' : Orderly items')
    (hbefore : ∀ x ∈ Item.spots items, ∀ y ∈ Item.spots items', x.stop ≤ y.start) :
    Orderly (items ++ items') :=
  h.append h' (fun x hx y hy => .inl (hbefore x hx y hy)) fun x hx y hy =>
    .inl (hbefore x ((visited_sublist_spots items).subset hx) y
      ((visited_sublist_spots items').subset hy))

theorem scope (h : Orderly items) : Orderly (Item.scope items) where
  inside := by
    rw [spots_scope]
    exact h.inside
  apart := by
    rw [spots_scope]
    exact h.apart
  before := by
    rw [visited_scope]
    exact h.before
  silent a ha := by
    have hmem : .event (.assignment a) ∈ items := by simpa [Item.scope] using ha
    exact h.silent a hmem
  inner hf := by
    have hmem : .event .fields ∈ items := by simpa [Item.scope] using hf
    exact h.inner hmem

/-- Visits of nodes that stand one after the other. -/
theorem visits {α : Type} {l : List α} (mode : α → Mode) (f : α → Subtree t)
    (hinside : ∀ a ∈ l, (f a).1.Inside t)
    (hbefore : l.Pairwise fun a b => (f a).1.stop ≤ (f b).1.start) :
    Orderly (l.map fun a => .visit (mode a) (f a)) where
  inside := by
    rw [spots_visits]
    exact List.forall_mem_map.2 hinside
  apart := by
    rw [spots_visits, List.pairwise_map]
    exact hbefore.imp Or.inl
  before := by
    rw [visited_visits, List.pairwise_map]
    exact hbefore.imp Or.inl
  silent a ha := by
    obtain ⟨_, -, heq⟩ := List.mem_map.1 ha
    cases heq
  inner hf := by
    obtain ⟨_, -, heq⟩ := List.mem_map.1 hf
    cases heq

theorem exprs {cs : List (Subtree t)} (hinside : ∀ c ∈ cs, c.1.Inside t)
    (hbefore : cs.Pairwise fun a b => a.1.stop ≤ b.1.start) : Orderly (Item.exprs cs) :=
  visits (fun _ => .expr) id hinside hbefore

/-- Declarations of names that stand one after the other. -/
theorem declarations {names : List Tree} (hinside : ∀ n ∈ names, n.Inside t)
    (hbefore : names.Pairwise fun a b => a.stop ≤ b.start) :
    Orderly (names.map fun n => (.event (.declaration .localVar n none) : Item t)) := by
  have hspots : Item.spots (names.map fun n => (.event (.declaration .localVar n none) : Item t)) =
      names := by
    rw [Item.spots, List.filterMap_map]
    exact List.filterMap_some
  have hvisited :
      Item.visited (names.map fun n => (.event (.declaration .localVar n none) : Item t)) = [] := by
    rw [Item.visited, List.filterMap_map]
    exact List.filterMap_eq_nil_iff.2 fun _ _ => rfl
  refine ⟨?_, ?_, ?_, fun a ha => ?_, fun hf => ?_⟩
  · rwa [hspots]
  · rw [hspots]
    exact hbefore.imp Or.inl
  · rw [hvisited]
    exact .nil
  · obtain ⟨n, -, heq⟩ := List.mem_map.1 ha
    cases heq
  · obtain ⟨n, -, heq⟩ := List.mem_map.1 hf
    cases heq

theorem introduce (name value : Option Tree) (hinside : ∀ n ∈ name.toList, n.Inside t) :
    Orderly (Item.introduce name value : List (Item t)) where
  inside := by
    rw [spots_introduce]
    exact hinside
  apart := by
    rw [spots_introduce]
    cases name <;> simp
  before := by
    rw [visited_introduce]
    exact .nil
  silent a ha := by
    cases name <;> cases value <;> simp [Item.introduce] at ha
  inner hf := by
    cases name <;> cases value <;> simp [Item.introduce] at hf

/-- Stretches of items, each about nodes inside another child. -/
theorem flatMap (hlaid : t.laidOut = true) {cs : List (Subtree t)} {f : Subtree t → List (Item t)}
    (hinside : ∀ c ∈ cs, c.1.Inside t) (hbefore : cs.Pairwise fun a b => a.1.stop ≤ b.1.start)
    (hf : ∀ c ∈ cs, Orderly (f c) ∧ ∀ x ∈ Item.spots (f c), x.Inside c.1) :
    Orderly (cs.flatMap f) := by
  induction cs with
  | nil => exact nil
  | cons c cs ih =>
    obtain ⟨hc, hcs⟩ := List.forall_mem_cons.1 hinside
    obtain ⟨hfc, hfcs⟩ := List.forall_mem_cons.1 hf
    obtain ⟨hfirst, hrest⟩ := List.pairwise_cons.1 hbefore
    rw [List.flatMap_cons]
    refine hfc.1.append_before (ih hcs hrest hfcs) fun x hx y hy => ?_
    rw [spots_flatMap] at hy
    obtain ⟨d, hd, hy⟩ := List.mem_flatMap.1 hy
    exact Tree.before_of_inside (hc.laidOut hlaid) ((hcs d hd).laidOut hlaid) (hfirst d hd)
      (hfc.2 x hx) ((hfcs d hd).2 y hy)

end Item.Orderly

/-! ### The scripts of expressions -/

namespace Tree

variable {t : Tree}

theorem ranks_of_type {type : String} (htype : t.type = type) {r r' : Option String}
    (h : everyProduction type (ranks r r') = true) : t.Ranks r r' := by
  subst htype
  exact h

theorem pairwise_toList {α : Type} {R : α → α → Prop} (o : Option α) : o.toList.Pairwise R := by
  cases o <;> simp

/-- The first content of a node stands before the rest. -/
theorem before_of_firstContent? (hlaid : t.laidOut = true) {c d : Subtree t}
    (hc : t.firstContent? = some c) (hd : d ∈ t.content) (hne : d ≠ c) : c.1.stop ≤ d.1.start := by
  have hbefore := before_content hlaid
  rw [firstContent?_eq_head?] at hc
  cases hcontent : t.content with
  | nil =>
    rw [hcontent] at hd
    cases hd
  | cons e rest =>
    rw [hcontent] at hc hd hbefore
    cases hc
    rcases List.mem_cons.1 hd with rfl | hd
    · exact absurd rfl hne
    · exact (List.pairwise_cons.1 hbefore).1 d hd

/-- Names inside the parts of the content of a node stand one after the other. -/
theorem before_filterMap_content (hlaid : t.laidOut = true) {f : Subtree t → Option Tree}
    (hf : ∀ c n, f c = some n → n.Inside c.1) :
    (t.content.filterMap f).Pairwise fun a b => a.stop ≤ b.start := by
  refine List.pairwise_filterMap.2 ((before_content hlaid).imp_of_mem ?_)
  intro c d hc hd hbefore x hx y hy
  exact before_of_inside (laidOut_of_mem_parts hlaid (mem_parts_of_mem_content hc))
    (laidOut_of_mem_parts hlaid (mem_parts_of_mem_content hd)) hbefore (hf c x hx) (hf d y hy)

section

variable (hconf : t.conforms = true) (hlaid : t.laidOut = true)

include hconf hlaid

/-- Nodes in a role and nodes in a role that comes later. -/
theorem before_append {r r' : Option String} (hranks : t.Ranks r r') (hne : r ≠ r')
    {l l' : List (Subtree t)} (hl : l.Pairwise fun a b => a.1.stop ≤ b.1.start)
    (hl' : l'.Pairwise fun a b => a.1.stop ≤ b.1.start) (hr : ∀ c ∈ l, t.Under r c.1)
    (hr' : ∀ c ∈ l', t.Under r' c.1) : (l ++ l').Pairwise fun a b => a.1.stop ≤ b.1.start :=
  List.pairwise_append.2 ⟨hl, hl', fun c hc d hd =>
    Under.before hconf hlaid hranks hne (hr c hc) (hr' d hd)⟩

/-- Children in two roles. -/
theorem before_child?_append {type : String} (htype : t.type = type) {r r' : String} (hne : r ≠ r')
    (hranks : everyProduction type (ranks (some r) (some r')) = true) :
    ((t.child? r).toList ++ (t.child? r').toList).Pairwise fun a b => a.1.stop ≤ b.1.start :=
  before_append hconf hlaid (ranks_of_type htype hranks) (fun h => hne (Option.some.inj h))
    (pairwise_toList _) (pairwise_toList _) (fun _ => under_child?) fun _ => under_child?

theorem before_creation (htype : t.type = "object_creation_expression") :
    (t.outerObject?.toList ++ t.contentIn "arguments").Pairwise
      fun a b => a.1.stop ≤ b.1.start := by
  refine List.pairwise_append.2 ⟨pairwise_toList _, before_contentIn hlaid _, fun c hc d hd => ?_⟩
  obtain ⟨hfirst, hnot⟩ := Option.filter_eq_some_iff.1 (Option.mem_toList.1 hc)
  have hctype : c.1.type ≠ "argument_list" := by simp_all
  unfold contentIn at hd
  split at hd
  · rename_i a ha
    obtain ⟨e, he, rfl⟩ := List.mem_map.1 hd
    obtain ⟨hacontent, hatype⟩ := mem_content_of_role hconf htype ["argument_list"] rfl ha
    have hne : a ≠ c := by
      rintro rfl
      exact hctype (List.mem_singleton.1 hatype)
    exact Nat.le_trans (before_of_firstContent? hlaid hfirst hacontent hne)
      (span_of_mem_parts (laidOut_of_mem_parts hlaid (mem_parts_of_mem_content hacontent))
        (mem_parts_of_mem_content he)).1
  · cases hd

theorem before_operands : t.operands.Pairwise fun a b => a.1.stop ≤ b.1.start := by
  have htype := ExprForm.hasType_ofType t.type
  unfold operands
  generalize ExprForm.ofType t.type = form at htype ⊢
  cases form with
  | literal | identifier | lambda => exact .nil
  | parenthesized | update | unary | cast | fieldAccess => exact pairwise_toList _
  | binary => exact before_child?_append hconf hlaid htype (by decide) rfl
  | assignment => exact before_child?_append hconf hlaid htype (by decide) rfl
  | ternary =>
    refine List.pairwise_append.2 ⟨before_child?_append hconf hlaid htype (by decide) rfl,
      pairwise_toList _, List.forall_mem_append.2 ⟨fun c hc d hd => ?_, fun c hc d hd => ?_⟩⟩
    · exact Under.before hconf hlaid (ranks_of_type htype rfl) (by decide) (under_child? hc)
        (under_child? hd)
    · exact Under.before hconf hlaid (ranks_of_type htype rfl) (by decide) (under_child? hc)
        (under_child? hd)
  | creation => exact before_creation hconf hlaid htype
  | arrayCreation =>
    dsimp only
    split
    · exact before_contentIn hlaid _
    · exact before_childrenIn hlaid _
  | arrayInitializer => exact before_content hlaid
  | invocation =>
    refine before_append hconf hlaid (r := some "object") (ranks_of_type htype rfl) (by decide)
      (pairwise_toList _) (before_contentIn hlaid _) (fun c hc => ?_) fun _ => under_contentIn
    exact under_child? (mem_child?_of_mem_object? hc)
  | other =>
    dsimp only
    split
    · exact .nil
    · exact before_content hlaid

theorem orderly_operands : Item.Orderly (Item.exprs t.operands) :=
  .exprs (fun _ => inside_of_mem_operands) (before_operands hconf hlaid)

omit hconf in
theorem before_lambdaNames : (lambdaNames t).Pairwise fun a b => a.stop ≤ b.start := by
  unfold lambdaNames
  split
  · exact .nil
  · rename_i ps hps
    split
    · exact List.pairwise_singleton ..
    · refine before_filterMap_content (laidOut_of_mem_parts hlaid (mem_parts_of_child? hps)) ?_
      intro c n hn
      split at hn
      · cases hn
        exact .refl
      · obtain ⟨d, hd, rfl⟩ := Option.map_eq_some_iff.1 hn
        exact inside_of_mem_parts (mem_parts_of_child? hd)

omit hconf hlaid in
theorem under_of_mem_lambdaNames {n : Tree} (hn : n ∈ lambdaNames t) :
    t.Under (some "parameters") n := by
  unfold lambdaNames at hn
  split at hn
  · cases hn
  · rename_i ps hps
    obtain ⟨hps, hfield⟩ := mem_pieces_of_child? hps
    refine ⟨ps, hps, hfield, ?_⟩
    split at hn
    · rw [List.mem_singleton.1 hn]
      exact .refl
    · obtain ⟨c, hc, hn⟩ := List.mem_filterMap.1 hn
      refine .trans ?_ (inside_of_mem_content hc)
      split at hn
      · cases hn
        exact .refl
      · obtain ⟨d, hd, rfl⟩ := Option.map_eq_some_iff.1 hn
        exact inside_of_mem_parts (mem_parts_of_child? hd)

theorem orderly_lambdaScript (htype : t.type = "lambda_expression") :
    Item.Orderly t.lambdaScript := by
  refine .scope (.append_before
    (.declarations (fun n hn => (under_of_mem_lambdaNames hn).inside) (before_lambdaNames hlaid))
    (.visits _ id (fun c hc => inside_of_mem_toList_child? hc) (pairwise_toList _))
    fun x hx y hy => ?_)
  rw [Item.spots_visits] at hy
  obtain ⟨b, hb, rfl⟩ := List.mem_map.1 hy
  obtain ⟨item, hitem, hx⟩ := List.mem_filterMap.1 hx
  obtain ⟨n, hn, rfl⟩ := List.mem_map.1 hitem
  cases hx
  exact Under.before hconf hlaid (ranks_of_type htype rfl) (by decide)
    (under_of_mem_lambdaNames hn) (under_child? hb)

/-- Before the assignment at the node itself, if it is one, the script of an expression is orderly. -/
theorem orderly_exprScript : ∃ items, Item.Orderly items ∧ (t.exprScript = items ∨
    t.type = "assignment_expression" ∧ t.exprScript = items ++ [.event (.assignment t)]) := by
  have htype := ExprForm.hasType_ofType t.type
  have hoperands := orderly_operands hconf hlaid
  unfold exprScript
  generalize ExprForm.ofType t.type = form at htype ⊢
  cases form with
  | lambda => exact ⟨_, orderly_lambdaScript hconf hlaid htype, .inl rfl⟩
  | assignment => exact ⟨_, hoperands, .inr ⟨htype, rfl⟩⟩
  | _ => exact ⟨_, hoperands, .inl rfl⟩

/-! ### The scripts of statements -/

omit hconf in
theorem orderly_blockScript : Item.Orderly t.blockScript :=
  .scope (.visits _ id (fun _ => inside_of_mem_content) (before_content hlaid))

omit hconf in
/-- The value of a variable and its declaration, inside a node that holds both. -/
theorem orderly_valued {d : Subtree t} (hd : d.1.Inside t) (value : Option Tree) :
    Item.Orderly (Item.exprs ((d.1.child? "value").map d.trans).toList
        ++ Item.introduce (Subtree.node? (d.1.child? "name")) value) ∧
      ∀ x ∈ Item.spots (Item.exprs ((d.1.child? "value").map d.trans).toList
        ++ Item.introduce (Subtree.node? (d.1.child? "name")) value), x.Inside d.1 := by
  have hvalue : ∀ c ∈ ((d.1.child? "value").map d.trans).toList,
      d.1.Under (some "value") c.1 := by
    intro c hc
    obtain ⟨v, hv, rfl⟩ := Option.map_eq_some_iff.1 (Option.mem_toList.1 hc)
    exact under_child? (Option.mem_toList.2 hv)
  have hname : ∀ n ∈ (Subtree.node? (d.1.child? "name")).toList, d.1.Under (some "name") n := by
    intro n hn
    obtain ⟨c, hc, rfl⟩ := Option.map_eq_some_iff.1 (Option.mem_toList.1 hn)
    exact under_child? (Option.mem_toList.2 hc)
  have hspots : ∀ x ∈ Item.spots (Item.exprs ((d.1.child? "value").map d.trans).toList),
      d.1.Under (some "value") x := by
    rw [Item.exprs, Item.spots_visits]
    exact List.forall_mem_map.2 hvalue
  constructor
  · refine .append (.exprs (fun c hc => (hvalue c hc).inside.trans hd) (pairwise_toList _))
      (.introduce _ _ fun n hn => (hname n hn).inside.trans hd) (fun x hx y hy => ?_)
      fun x _ y hy => ?_
    · rw [Item.spots_introduce] at hy
      exact Under.apart (hd.laidOut hlaid) (by decide) (hspots x hx) (hname y hy)
    · rw [Item.visited_introduce] at hy
      cases hy
  · rw [Item.spots_append, Item.spots_introduce]
    exact List.forall_mem_append.2
      ⟨fun x hx => (hspots x hx).inside, fun n hn => (hname n hn).inside⟩

omit hconf in
theorem orderly_declarationScript : Item.Orderly t.declarationScript :=
  .flatMap hlaid (fun _ hd => (under_childrenIn hd).inside) (before_childrenIn hlaid _)
    fun _ hd => orderly_valued hlaid (under_childrenIn hd).inside _

omit hconf hlaid in
theorem orderly_child? {field : String} (mode : Mode) :
    Item.Orderly ((t.child? field).toList.map (.visit mode)) :=
  .visits _ id (fun _ => inside_of_mem_toList_child?) (pairwise_toList _)

omit hconf hlaid in
theorem under_of_mem_spots {field : String} {mode : Mode} {x : Tree}
    (hx : x ∈ Item.spots ((t.child? field).toList.map (.visit mode))) :
    t.Under (some field) x := by
  obtain ⟨c, hc, rfl⟩ := List.mem_map.1 ((Item.spots_visits (fun _ => mode) id _) ▸ hx)
  exact under_child? hc

theorem orderly_while (htype : t.type = "while_statement") :
    Item.Orderly (t.loopScript .whileLoop) := by
  refine .scope (.append_before (orderly_child? .expr)
    (orderly_child? .stmt) fun x hx y hy => ?_)
  exact Under.before hconf hlaid (ranks_of_type htype rfl) (by decide)
    (under_of_mem_spots hx) (under_of_mem_spots hy)

omit hconf in
/-- The condition of a do statement is read first and stands last. -/
theorem orderly_do (htype : t.type = "do_statement") : Item.Orderly (t.loopScript .doLoop) := by
  refine .scope (.append (orderly_child? .expr)
    (orderly_child? .stmt) (fun x hx y hy => ?_)
    fun x hx y hy => .inr ⟨htype, ?_, ?_⟩)
  · exact Under.apart hlaid (by decide) (under_of_mem_spots hx) (under_of_mem_spots hy)
  · exact under_of_mem_spots ((Item.visited_sublist_spots _).subset hx)
  · exact under_of_mem_spots ((Item.visited_sublist_spots _).subset hy)

theorem orderly_for (htype : t.type = "for_statement") : Item.Orderly (t.loopScript .forLoop) := by
  have hbefore {r r' : Option String} (hne : r ≠ r')
      (hranks : everyProduction "for_statement" (ranks r r') = true) {x y : Tree}
      (hx : t.Under r x) (hy : t.Under r' y) : x.stop ≤ y.start :=
    Under.before hconf hlaid (ranks_of_type htype hranks) hne hx hy
  have hinit : ∀ x ∈ Item.spots ((t.childrenIn "init").map fun c =>
      .visit (if c.1.type == "local_variable_declaration" then .stmt else .expr) c),
      t.Under (some "init") x := by
    rw [Item.spots_visits]
    exact List.forall_mem_map.2 fun c hc => under_childrenIn hc
  have hrest : ∀ x ∈ Item.spots (Item.exprs ((t.child? "condition").toList ++ t.childrenIn "update")),
      t.Under (some "condition") x ∨ t.Under (some "update") x := by
    rw [Item.exprs, Item.spots_visits, List.map_append]
    exact List.forall_mem_append.2 ⟨List.forall_mem_map.2 fun c hc => .inl (under_child? hc),
      List.forall_mem_map.2 fun c hc => .inr (under_childrenIn hc)⟩
  refine .scope (.append_before (.append_before
    (.visits _ id (fun c hc => (under_childrenIn hc).inside) (before_childrenIn hlaid _))
    (.exprs ?_ ?_) fun x hx y hy => ?_)
    (orderly_child? .stmt) fun x hx y hy => ?_)
  · exact List.forall_mem_append.2 ⟨fun c hc => (under_child? hc).inside,
      fun c hc => (under_childrenIn hc).inside⟩
  · exact before_append hconf hlaid (ranks_of_type htype rfl) (by decide) (pairwise_toList _)
      (before_childrenIn hlaid _) (fun c hc => under_child? hc) fun c hc => under_childrenIn hc
  · exact (hrest y hy).elim (hbefore (by decide) rfl (hinit x hx))
      (hbefore (by decide) rfl (hinit x hx))
  · have hy := under_of_mem_spots hy
    rw [loopHeadScript, Item.spots_append] at hx
    rcases List.mem_append.1 hx with hx | hx
    · exact hbefore (by decide) rfl (hinit x hx) hy
    · exact (hrest x hx).elim (fun hx => hbefore (by decide) rfl hx hy)
        fun hx => hbefore (by decide) rfl hx hy

theorem orderly_forEach (htype : t.type = "enhanced_for_statement") :
    Item.Orderly (t.loopScript .forEachLoop) := by
  have hname : ∀ n ∈ (Subtree.node? (t.child? "name")).toList, t.Under (some "name") n := by
    intro n hn
    obtain ⟨c, hc, rfl⟩ := Option.map_eq_some_iff.1 (Option.mem_toList.1 hn)
    exact under_child? (Option.mem_toList.2 hc)
  refine .scope (.append_before (.append (orderly_child? .expr)
    (.introduce _ _ fun n hn => (hname n hn).inside) (fun x hx y hy => ?_) fun x _ y hy => ?_)
    (orderly_child? .stmt) fun x hx y hy => ?_)
  · rw [Item.spots_introduce] at hy
    exact Under.apart hlaid (by decide) (under_of_mem_spots hx) (hname y hy)
  · rw [Item.visited_introduce] at hy
    cases hy
  · have hy := under_of_mem_spots hy
    rw [loopHeadScript, Item.spots_append, Item.spots_introduce] at hx
    rcases List.mem_append.1 hx with hx | hx
    · exact Under.before hconf hlaid (ranks_of_type htype rfl) (by decide)
        (under_of_mem_spots hx) hy
    · exact Under.before hconf hlaid (ranks_of_type htype rfl) (by decide) (hname x hx) hy

theorem orderly_loopScript {kind : Kind}
    (hform : (StmtForm.loop kind).HasType t.type) : Item.Orderly (t.loopScript kind) := by
  simp only [StmtForm.HasType, List.mem_cons, Prod.mk.injEq, List.not_mem_nil, or_false] at hform
  rcases hform with ⟨rfl, htype⟩ | ⟨rfl, htype⟩ | ⟨rfl, htype⟩ | ⟨rfl, htype⟩
  · exact orderly_while hconf hlaid htype
  · exact orderly_do hlaid htype
  · exact orderly_for hconf hlaid htype
  · exact orderly_forEach hconf hlaid htype

omit hconf in
theorem orderly_resourceScript {c : Subtree t} (hc : c.1.Inside t) :
    Item.Orderly (resourceScript c) ∧ ∀ x ∈ Item.spots (resourceScript c), x.Inside c.1 := by
  unfold resourceScript
  split
  · refine ⟨.exprs (List.forall_mem_singleton.2 hc) (List.pairwise_singleton ..), ?_⟩
    exact List.forall_mem_singleton.2 .refl
  · rename_i n hn
    have hvalued := orderly_valued hlaid hc (Subtree.node? (c.1.child? "value"))
    rwa [hn] at hvalued

omit hconf hlaid in
theorem inside_of_caught? {c n : Tree} (hn : n ∈ c.caught?.toList) :
    ∃ p : Subtree c, p ∈ c.content ∧ p.1.type = "catch_formal_parameter" ∧ n.Inside p.1 := by
  obtain ⟨p, hp, hn⟩ := Option.bind_eq_some_iff.1 (Option.mem_toList.1 hn)
  obtain ⟨d, hd, rfl⟩ := Option.map_eq_some_iff.1 hn
  have htype := List.find?_some hp
  exact ⟨p, mem_content_of_contentOf? hp, by simpa using htype,
    inside_of_mem_parts (mem_parts_of_child? hd)⟩

/-- A catch clause with its parameter and its block. -/
theorem orderly_catchScript {c : Subtree t} (hc : c.1.Inside t) (htype : c.1.type = "catch_clause") :
    Item.Orderly (catchScript c) ∧ ∀ x ∈ Item.spots (catchScript c), x.Inside c.1 := by
  have hblock := mem_content_of_body (hc.conforms hconf) htype rfl
  have hcaught {n : Tree} (hn : n ∈ c.1.caught?.toList) : n.Inside c.1 := by
    obtain ⟨p, hp, -, hn⟩ := inside_of_caught? hn
    exact hn.trans (inside_of_mem_content hp)
  constructor
  · refine .scope (.append (.introduce _ _ fun n hn => (hcaught hn).trans hc)
      (.visits _ c.trans (fun b hb => (inside_of_mem_toList_child? hb).trans hc) (pairwise_toList _))
      (fun x hx y hy => ?_) fun x hx => ?_)
    · rw [Item.spots_introduce] at hx
      rw [Item.spots_visits] at hy
      obtain ⟨p, hp, hptype, hx⟩ := inside_of_caught? hx
      obtain ⟨b, hb, rfl⟩ := List.mem_map.1 hy
      obtain ⟨hbcontent, hbtype⟩ := hblock b hb
      have hne : p ≠ b := by
        rintro rfl
        exact absurd (hptype.symm.trans hbtype) (by decide)
      have hlaid' := hc.laidOut hlaid
      have hp := mem_parts_of_mem_content hp
      have hb := mem_parts_of_mem_content hbcontent
      exact (apart_of_mem_parts hlaid' hp hb hne).of_inside (laidOut_of_mem_parts hlaid' hp)
        (laidOut_of_mem_parts hlaid' hb) hx .refl
    · rw [Item.visited_introduce] at hx
      cases hx
  · rw [catchScript, Item.spots_scope, Item.spots_append, Item.spots_introduce, Item.spots_visits]
    exact List.forall_mem_append.2 ⟨fun n => hcaught,
      List.forall_mem_map.2 fun b hb => inside_of_mem_toList_child? hb⟩

theorem orderly_clauseScript {c : Subtree t} (hc : c.1.Inside t) :
    Item.Orderly (clauseScript c) ∧ ∀ x ∈ Item.spots (clauseScript c), x.Inside c.1 := by
  unfold clauseScript
  split
  · rename_i htype
    exact orderly_catchScript hconf hlaid hc (eq_of_beq htype)
  · split
    · have hinside {b : Subtree c.1} (hb : b ∈ (c.1.contentOf? ["block"]).toList) :
          b.1.Inside c.1 :=
        inside_of_mem_content (mem_content_of_contentOf? (Option.mem_toList.1 hb))
      refine ⟨.visits _ c.trans (fun b hb => (hinside hb).trans hc) (pairwise_toList _), ?_⟩
      rw [Item.spots_visits]
      exact List.forall_mem_map.2 fun b hb => hinside hb
    · exact ⟨.nil, List.forall_mem_nil _⟩

/-- The clauses of a try statement have no role. -/
theorem under_of_mem_clauses (hform : StmtForm.guarded.HasType t.type) {c : Subtree t}
    (hc : c ∈ t.content) {x : Tree} (hx : x ∈ Item.spots (clauseScript c)) : t.Under none x := by
  have hpieces := mem_pieces_of_mem_content hc
  refine ⟨c, hpieces, ?_, (orderly_clauseScript hconf hlaid (inside_of_mem_content hc)).2 x hx⟩
  have hclause : c.1.type = "catch_clause" ∨ c.1.type = "finally_clause" := by
    unfold clauseScript at hx
    split at hx
    · rename_i htype
      exact .inl (eq_of_beq htype)
    · split at hx
      · rename_i htype
        exact .inr (eq_of_beq htype)
      · cases hx
  rcases hrole : c.1.field with _ | role
  · rfl
  · have htypes : c.1.type ∈ ["block", "resource_specification"] := by
      simp only [StmtForm.HasType, List.mem_cons, List.not_mem_nil, or_false] at hform
      rcases hform with htype | htype
      · exact type_mem_of_role hconf hpieces htype Option.isSome (by rw [hrole]; rfl) _ rfl rfl
      · exact type_mem_of_role hconf hpieces htype Option.isSome (by rw [hrole]; rfl) _ rfl rfl
    rcases hclause with hclause | hclause <;> rw [hclause] at htypes <;> exact absurd htypes (by decide)

/-- A try statement with its resources, its block and its clauses. -/
theorem orderly_tryScript (hform : StmtForm.guarded.HasType t.type) :
    Item.Orderly (t.guardedScript ++ t.content.flatMap clauseScript) := by
  have htype : t.type = "try_statement" ∨ t.type = "try_with_resources_statement" := by
    simpa [StmtForm.HasType] using hform
  have hresource : ∀ x ∈ Item.spots ((t.contentIn "resources").flatMap resourceScript),
      t.Under (some "resources") x := by
    intro x hx
    rw [Item.spots_flatMap] at hx
    obtain ⟨c, hc, hx⟩ := List.mem_flatMap.1 hx
    obtain ⟨d, hd, hfield, hcd⟩ := under_contentIn hc
    exact ⟨d, hd, hfield, ((orderly_resourceScript hlaid (under_contentIn hc).inside).2 x hx).trans hcd⟩
  have hranks : t.Ranks (some "resources") (some "body") ∧ t.Ranks (some "resources") none ∧
      t.Ranks (some "body") none := by
    rcases htype with htype | htype
    · exact ⟨ranks_of_type htype rfl, ranks_of_type htype rfl, ranks_of_type htype rfl⟩
    · exact ⟨ranks_of_type htype rfl, ranks_of_type htype rfl, ranks_of_type htype rfl⟩
  refine .append_before (.scope (.append_before (.flatMap hlaid
      (fun c hc => (under_contentIn hc).inside) (before_contentIn hlaid _)
      fun c hc => orderly_resourceScript hlaid (under_contentIn hc).inside)
    (orderly_child? .block) fun x hx y hy => ?_))
    (.flatMap hlaid (fun c => inside_of_mem_content) (before_content hlaid)
      fun c hc => orderly_clauseScript hconf hlaid (inside_of_mem_content hc)) fun x hx y hy => ?_
  · exact Under.before hconf hlaid hranks.1 (by decide) (hresource x hx) (under_of_mem_spots hy)
  · rw [Item.spots_flatMap] at hy
    obtain ⟨c, hc, hy⟩ := List.mem_flatMap.1 hy
    have hy := under_of_mem_clauses hconf hlaid hform hc hy
    rw [guardedScript, Item.spots_scope, Item.spots_append] at hx
    rcases List.mem_append.1 hx with hx | hx
    · exact Under.before hconf hlaid hranks.2.1 (by decide) (hresource x hx) hy
    · exact Under.before hconf hlaid hranks.2.2 (by decide) (under_of_mem_spots hx) hy

omit hconf hlaid in
theorem orderly_switchItemScript {g : Subtree t} (hg : g.1.Inside t) {c : Subtree g.1}
    (hc : c ∈ g.1.content) :
    Item.Orderly (switchItemScript g.1 (g.trans c)) ∧
      ∀ x ∈ Item.spots (switchItemScript g.1 (g.trans c)), x.Inside (g.trans c).1 := by
  have hvisit (mode : Mode) : Item.Orderly [.visit mode (g.trans c)] ∧
      ∀ x ∈ Item.spots [.visit mode (g.trans c)], x.Inside (g.trans c).1 := by
    refine ⟨.visits (l := [c]) (fun _ => mode) g.trans ?_ (List.pairwise_singleton ..), ?_⟩
    · exact List.forall_mem_singleton.2 ((inside_of_mem_content hc).trans hg)
    · exact List.forall_mem_singleton.2 .refl
  unfold switchItemScript
  split
  · exact ⟨.nil, List.forall_mem_nil _⟩
  · split
    · exact hvisit .expr
    · exact hvisit .stmt

theorem orderly_switchScript (htype : t.type = "switch_expression") :
    Item.Orderly t.switchScript := by
  have hgroup {g : Subtree t} (hg : g ∈ t.contentIn "body") :
      Item.Orderly ((g.1.content.map g.trans).flatMap (switchItemScript g.1)) ∧
        ∀ x ∈ Item.spots ((g.1.content.map g.trans).flatMap (switchItemScript g.1)),
          x.Inside g.1 := by
    have hinside := (under_contentIn hg).inside
    have hitem {c : Subtree g.1} (hc : c ∈ g.1.content) :=
      orderly_switchItemScript hinside hc
    constructor
    · refine .flatMap hlaid (List.forall_mem_map.2 fun c hc =>
        (inside_of_mem_content hc).trans hinside) ?_ (List.forall_mem_map.2 fun c hc => hitem hc)
      rw [List.pairwise_map]
      exact before_content (hinside.laidOut hlaid)
    · intro x hx
      rw [Item.spots_flatMap, List.flatMap_map] at hx
      obtain ⟨c, hc, hx⟩ := List.mem_flatMap.1 hx
      exact ((hitem hc).2 x hx).trans (inside_of_mem_content hc)
  refine .append_before (orderly_child? .expr)
    (.scope (.flatMap hlaid (fun g hg => (under_contentIn hg).inside) (before_contentIn hlaid _)
      fun g hg => hgroup hg)) fun x hx y hy => ?_
  rw [Item.spots_scope, Item.spots_flatMap] at hy
  obtain ⟨g, hg, hy⟩ := List.mem_flatMap.1 hy
  obtain ⟨b, hb, hfield, hgb⟩ := under_contentIn hg
  exact Under.before hconf hlaid (ranks_of_type htype rfl) (by decide) (under_of_mem_spots hx)
    ⟨b, hb, hfield, ((hgroup hg).2 y hy).trans hgb⟩

theorem orderly_branchScript (htype : t.type = "if_statement") :
    Item.Orderly (Item.exprs (t.child? "condition").toList
      ++ ((t.child? "consequence").toList ++ (t.child? "alternative").toList).map (.visit .stmt)) := by
  refine .append_before (orderly_child? .expr) (.visits _ id
    (List.forall_mem_append.2 ⟨fun _ => inside_of_mem_toList_child?,
      fun _ => inside_of_mem_toList_child?⟩) (before_child?_append hconf hlaid htype (by decide) rfl))
    fun x hx y hy => ?_
  rw [Item.spots_visits, List.map_append] at hy
  rcases List.mem_append.1 hy with hy | hy <;> obtain ⟨c, hc, rfl⟩ := List.mem_map.1 hy
  · exact Under.before hconf hlaid (ranks_of_type htype rfl) (by decide) (under_of_mem_spots hx)
      (under_child? hc)
  · exact Under.before hconf hlaid (ranks_of_type htype rfl) (by decide) (under_of_mem_spots hx)
      (under_child? hc)

theorem orderly_synchronizedScript (htype : t.type = "synchronized_statement") :
    Item.Orderly (Item.exprs (t.firstContent?.filter (·.1.type == "parenthesized_expression")).toList
      ++ (t.child? "body").toList.map (.visit .block)) := by
  have hblock := mem_content_of_body hconf htype rfl
  have hlock {c : Subtree t}
      (hc : c ∈ (t.firstContent?.filter (·.1.type == "parenthesized_expression")).toList) :
      t.firstContent? = some c ∧ c.1.type = "parenthesized_expression" := by
    obtain ⟨hfirst, hctype⟩ := Option.filter_eq_some_iff.1 (Option.mem_toList.1 hc)
    exact ⟨hfirst, eq_of_beq hctype⟩
  refine .append_before (.exprs (fun c hc => ?_) (pairwise_toList _))
    (orderly_child? .block) fun x hx y hy => ?_
  · exact inside_of_mem_content (mem_content_of_firstContent? (hlock hc).1)
  · rw [Item.exprs, Item.spots_visits] at hx
    obtain ⟨c, hc, rfl⟩ := List.mem_map.1 hx
    rw [Item.spots_visits] at hy
    obtain ⟨b, hb, rfl⟩ := List.mem_map.1 hy
    obtain ⟨hbcontent, hbtype⟩ := hblock b hb
    refine before_of_firstContent? hlaid (hlock hc).1 hbcontent ?_
    rintro rfl
    exact absurd ((hlock hc).2.symm.trans hbtype) (by decide)

theorem orderly_stmtScript (hsuits : Mode.stmt.Suits t) : Item.Orderly t.stmtScript := by
  have hform := StmtForm.hasType_ofType t.type
  unfold stmtScript
  generalize StmtForm.ofType t.type = form at hform ⊢
  cases form with
  | comment | localType => exact .nil
  | block => exact orderly_blockScript hlaid
  | expression | ret =>
    exact .exprs (fun c hc => inside_of_mem_content (mem_content_of_mem_firstContent? hc))
      (pairwise_toList _)
  | declaration => exact orderly_declarationScript hlaid
  | branch => exact orderly_branchScript hconf hlaid hform
  | loop kind => exact orderly_loopScript hconf hlaid hform
  | guarded => exact orderly_tryScript hconf hlaid hform
  | switch =>
    have htype : t.type = "switch_expression" ∨ t.type = "switch_statement" := by
      simpa [StmtForm.HasType] using hform
    rcases htype with htype | htype
    · exact orderly_switchScript hconf hlaid htype
    · rw [Mode.Suits, htype] at hsuits
      exact absurd hsuits (by decide)
  | synchronized => exact orderly_synchronizedScript hconf hlaid hform
  | labeled =>
    exact .visits _ id (fun _ hc => inside_of_mem_content
      (List.mem_of_getLast? (Option.mem_toList.1 hc))) (pairwise_toList _)
  | other =>
    exact .exprs (fun c hc => inside_of_mem_content (List.mem_filter.1 hc).1)
      ((before_content hlaid).sublist List.filter_sublist)

/-- **The script of a node is orderly**, up to the assignment at the node itself. -/
theorem orderly_script {mode : Mode} (hsuits : mode.Suits t) :
    ∃ items, Item.Orderly items ∧ (t.script mode = items ∨
      t.type = "assignment_expression" ∧ t.script mode = items ++ [.event (.assignment t)]) := by
  cases mode with
  | expr => exact orderly_exprScript hconf hlaid
  | stmt => exact ⟨_, orderly_stmtScript hconf hlaid hsuits, .inl rfl⟩
  | block => exact ⟨_, orderly_blockScript hlaid, .inl rfl⟩

end

end Tree

end TaintFlow.Java
