import TaintFlow.Proofs.Java.Production

/-!
# Where nodes stand

The children of a node stand one after the other, within the node, and none of them is empty
(`Tree.laidOut`).  Then what stands inside a node stands within its span (`Inside.span`), and what
stands inside different children is in their order (`before_of_pairwise`).
-/

namespace TaintFlow.Java

/-- A node is another one or stands below it. -/
inductive Tree.Inside (n : Tree) : Tree → Prop where
  | refl : n.Inside n
  | child {t : Tree} {c : Subtree t} : c ∈ t.parts → n.Inside c.1 → n.Inside t

namespace Tree

variable {n t : Tree}

theorem Inside.trans {u : Tree} (h : n.Inside t) (h' : t.Inside u) : n.Inside u := by
  induction h' with
  | refl => exact h
  | child hc _ ih => exact .child hc ih

theorem inside_of_mem_parts {c : Subtree t} (hc : c ∈ t.parts) : c.1.Inside t :=
  .child hc .refl

theorem mem_parts_of_mem_content {c : Subtree t} (hc : c ∈ t.content) : c ∈ t.parts :=
  (List.mem_filter.1 hc).1

theorem mem_parts_of_child? {field : String} {c : Subtree t} (hc : t.child? field = some c) :
    c ∈ t.parts :=
  List.mem_of_find?_eq_some hc

theorem mem_content_of_firstContent? {c : Subtree t} (hc : t.firstContent? = some c) :
    c ∈ t.content :=
  List.mem_of_mem_head? (firstContent?_eq_head? t ▸ hc)

theorem mem_content_of_contentOf? {types : List String} {c : Subtree t}
    (hc : t.contentOf? types = some c) : c ∈ t.content :=
  List.mem_of_find?_eq_some hc

theorem inside_of_mem_content {c : Subtree t} (hc : c ∈ t.content) : c.1.Inside t :=
  inside_of_mem_parts (mem_parts_of_mem_content hc)

theorem inside_of_mem_child? {field : String} {c : Subtree t} (hc : c ∈ t.child? field) :
    c.1.Inside t :=
  inside_of_mem_parts (mem_parts_of_child? hc)

/-! ### Spans -/

/-- Whether the children of a node stand one after the other, within the node, and none is empty. -/
def isSpaced (t : Tree) : Bool :=
  t.children.all (fun c => t.start ≤ c.start && c.start < c.stop && c.stop ≤ t.stop) &&
    decide (t.children.Pairwise fun a b => a.stop ≤ b.start)

/-- Whether this holds of all nodes of a tree. -/
def laidOut (t : Tree) : Bool :=
  t.all isSpaced

theorem laidOut_of_mem_parts (h : t.laidOut = true) {c : Subtree t} (hc : c ∈ t.parts) :
    c.1.laidOut = true :=
  all_of_mem h hc

theorem span_of_mem_parts (h : t.laidOut = true) {c : Subtree t} (hc : c ∈ t.parts) :
    t.start ≤ c.1.start ∧ c.1.start < c.1.stop ∧ c.1.stop ≤ t.stop := by
  obtain ⟨hspan, -⟩ := Bool.and_eq_true_iff.1 (all_eq_true.1 h).1
  have hmem : c.1 ∈ t.children := by
    rw [← map_val_parts]
    exact List.mem_map_of_mem hc
  have hc := List.all_eq_true.1 hspan c.1 hmem
  simpa [and_assoc] using hc

theorem pairwise_parts (h : t.laidOut = true) :
    t.parts.Pairwise fun a b => a.1.stop ≤ b.1.start := by
  obtain ⟨-, hpairwise⟩ := Bool.and_eq_true_iff.1 (all_eq_true.1 h).1
  have hchildren := of_decide_eq_true hpairwise
  rwa [← map_val_parts, List.pairwise_map] at hchildren

theorem Inside.laidOut (hn : n.Inside t) (h : t.laidOut = true) : n.laidOut = true := by
  induction hn with
  | refl => exact h
  | child hc _ ih => exact ih (laidOut_of_mem_parts h hc)

theorem Inside.conforms (hn : n.Inside t) (h : t.conforms = true) : n.conforms = true := by
  induction hn with
  | refl => exact h
  | child hc _ ih => exact ih (all_of_mem h hc)

theorem Inside.span (hn : n.Inside t) (h : t.laidOut = true) :
    t.start ≤ n.start ∧ n.stop ≤ t.stop := by
  induction hn with
  | refl => exact ⟨Nat.le_refl _, Nat.le_refl _⟩
  | child hc _ ih =>
    obtain ⟨hstart, -, hstop⟩ := span_of_mem_parts h hc
    obtain ⟨hstart', hstop'⟩ := ih (laidOut_of_mem_parts h hc)
    exact ⟨Nat.le_trans hstart hstart', Nat.le_trans hstop' hstop⟩

/-- What stands inside a node is not empty, if the node is not. -/
theorem Inside.start_lt_stop (hn : n.Inside t) (h : t.laidOut = true) (ht : t.start < t.stop) :
    n.start < n.stop := by
  induction hn with
  | refl => exact ht
  | child hc _ ih => exact ih (laidOut_of_mem_parts h hc) (span_of_mem_parts h hc).2.1

/-- What stands inside nodes that follow each other is in their order. -/
theorem before_of_inside {a b x y : Tree} (ha : a.laidOut = true) (hb : b.laidOut = true)
    (hab : a.stop ≤ b.start) (hx : x.Inside a) (hy : y.Inside b) : x.stop ≤ y.start :=
  calc
    x.stop ≤ a.stop := (hx.span ha).2
    _ ≤ b.start := hab
    _ ≤ y.start := (hy.span hb).1

/-- Lists of nodes inside children that follow each other are in order, if each of them is. -/
theorem pairwise_flatMap_inside (h : t.laidOut = true) {cs : List (Subtree t)}
    (hcs : cs.Sublist t.parts) {f : Subtree t → List Tree}
    (hf : ∀ c ∈ cs, (f c).Pairwise fun a b => a.stop ≤ b.start)
    (hinside : ∀ c ∈ cs, ∀ n ∈ f c, n.Inside c.1) :
    (cs.flatMap f).Pairwise fun a b => a.stop ≤ b.start := by
  refine List.pairwise_flatMap.2 ⟨hf, ?_⟩
  have hparts : cs.Pairwise fun a b => a.1.stop ≤ b.1.start := (pairwise_parts h).sublist hcs
  refine hparts.imp_of_mem fun {a b} ha hb hab x hx y hy => ?_
  exact before_of_inside (laidOut_of_mem_parts h (hcs.subset ha))
    (laidOut_of_mem_parts h (hcs.subset hb)) hab (hinside a ha x hx) (hinside b hb y hy)

end Tree

end TaintFlow.Java
