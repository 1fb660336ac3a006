import TaintFlow.Proofs.Java.ScriptOrder
import TaintFlow.Proofs.Java.Calls

/-!
# The order of reading and the order of the text

Of two assignments in a body the one that is read later stands later in the text, or around the other
one, unless it stands in the body of a do statement and the other one in its condition
(`pairwise_assignments`).  The names that are declared while a node is read are at different places of
the text (`pairwise_declarations`).
-/

namespace TaintFlow.Java

open TaintFlow.Code

namespace Event

/-- The assignment that is made at an event. -/
def assignment? : Event → Option Tree
  | .assignment node => some node
  | _ => none

/-- The node that an event is about. -/
def spot? : Event → Option Tree
  | .assignment node => some node
  | .declaration _ name _ => some name
  | _ => none

theorem assignment?_eq_some {e : Event} {a : Tree} : e.assignment? = some a ↔ e = .assignment a := by
  cases e <;> simp [assignment?]

end Event

namespace Tree

variable {t : Tree}

theorem Under.trans {r : Option String} {x y : Tree} (h : t.Under r x) (hy : y.Inside x) :
    t.Under r y := by
  obtain ⟨c, hc, hr, hx⟩ := h
  exact ⟨c, hc, hr, hy.trans hx⟩

/-- The first node stands in the body of a do statement and the second one in its condition. -/
def DoHolds (t x y : Tree) : Prop :=
  ∃ d : Tree, d.Inside t ∧ d.type = "do_statement" ∧ d.Under (some "body") x ∧
    d.Under (some "condition") y

theorem DoHolds.mono {u x y : Tree} (h : t.DoHolds x y) (ht : t.Inside u) : u.DoHolds x y := by
  obtain ⟨d, hd, htype, hx, hy⟩ := h
  exact ⟨d, hd.trans ht, htype, hx, hy⟩

/-- What is read first does not stand last, do statements apart. -/
def ReadsInOrder (t a b : Tree) : Prop :=
  b.stop ≤ a.start → t.DoHolds b a

end Tree

theorem Item.mem_events {t : Tree} {items : List (Item t)} {e : Event} :
    e ∈ Item.events items ↔ .event e ∈ items ∨ ∃ mode c, .visit mode c ∈ items ∧ e ∈ c.1.events mode := by
  unfold Item.events
  rw [List.mem_flatMap]
  constructor
  · rintro ⟨item, hitem, he⟩
    cases item with
    | event e' =>
      rw [List.mem_singleton.1 he]
      exact .inl hitem
    | visit mode c => exact .inr ⟨mode, c, hitem, he⟩
  · rintro (he | ⟨mode, c, hc, he⟩)
    · exact ⟨_, he, List.mem_singleton.2 rfl⟩
    · exact ⟨_, hc, he⟩

namespace Tree

theorem mem_spots_of_visit {t : Tree} {items : List (Item t)} {mode : Mode} {c : Subtree t}
    (hc : .visit mode c ∈ items) : c.1 ∈ Item.spots items :=
  List.mem_filterMap.2 ⟨_, hc, rfl⟩

/-- What holds of a node if it holds of those that its script visits holds of all nodes. -/
theorem script_induction {P : Tree → Mode → Prop}
    (hstep : ∀ (t : Tree) (mode : Mode) (items : List (Item t)), t.conforms = true →
      t.laidOut = true → Item.Orderly items → (∀ item ∈ items, item.Fits) →
      (t.events mode = Item.events items ∨ t.type = "assignment_expression" ∧
        t.events mode = Item.events items ++ [.assignment t]) →
      (∀ mode c, .visit mode c ∈ items → P c.1 mode) → P t mode)
    {t : Tree} (hconf : t.conforms = true) (hlaid : t.laidOut = true) {mode : Mode}
    (hsuits : mode.Suits t) : P t mode := by
  induction hsize : t.size using Nat.strongRecOn generalizing t mode with
  | ind n ih =>
    obtain ⟨items, horderly, hscript⟩ := orderly_script hconf hlaid hsuits
    have hfits : ∀ item ∈ items, item.Fits := fun item hitem => fits_script hconf hsuits item (by
      rcases hscript with hscript | ⟨-, hscript⟩ <;> rw [hscript]
      · exact hitem
      · exact List.mem_append_left _ hitem)
    refine hstep t mode items hconf hlaid horderly hfits ?_ fun mode c hc => ?_
    · rw [events_eq]
      rcases hscript with hscript | ⟨htype, hscript⟩
      · exact .inl (by rw [hscript])
      · exact .inr ⟨htype, by rw [hscript, Item.events_append]; rfl⟩
    · obtain ⟨hinside, hcsuits⟩ := hfits _ hc
      exact ih c.1.size (hsize ▸ c.2) (hinside.conforms hconf) (hinside.laidOut hlaid) hcsuits rfl

/-- **What happens while a node is read** is about nodes inside of it. -/
theorem inside_of_mem_events {t : Tree} (hconf : t.conforms = true) (hlaid : t.laidOut = true)
    {mode : Mode} (hsuits : mode.Suits t) :
    ∀ e ∈ t.events mode, ∀ x, e.spot? = some x → x.Inside t := by
  refine script_induction (P := fun t mode => ∀ e ∈ t.events mode, ∀ x, e.spot? = some x → x.Inside t)
    (fun t mode items _ _ horderly _ hevents hinner => ?_) hconf hlaid hsuits
  have hitems : ∀ e ∈ Item.events items, ∀ x, e.spot? = some x → x.Inside t := by
    intro e he x hx
    rcases Item.mem_events.1 he with he | ⟨mode, c, hc, he⟩
    · cases e with
      | declaration kind name value =>
        cases hx
        exact horderly.inside _ (List.mem_filterMap.2 ⟨_, he, rfl⟩)
      | assignment a => exact absurd he (horderly.silent a)
      | _ => cases hx
    · exact (hinner mode c hc e he x hx).trans (horderly.inside c.1 (mem_spots_of_visit hc))
  rcases hevents with hevents | ⟨-, hevents⟩ <;> rw [hevents]
  · exact hitems
  · refine List.forall_mem_append.2 ⟨hitems, List.forall_mem_singleton.2 fun x hx => ?_⟩
    cases hx
    exact .refl

end Tree

namespace Item.Orderly

variable {t : Tree} {items : List (Item t)} (h : Orderly items) (hfits : ∀ item ∈ items, item.Fits)
  (hconf : t.conforms = true) (hlaid : t.laidOut = true)

include h

theorem inside_of_visit {mode : Mode} {c : Subtree t} (hc : .visit mode c ∈ items) :
    c.1.Inside t :=
  h.inside c.1 (Tree.mem_spots_of_visit hc)

include hfits hconf hlaid

/-- What an item of a script brings about is about nodes inside the node that the item is about. -/
theorem inside_of_mem_expand {item : Item t} (hitem : item ∈ items) {e : Event}
    (he : e ∈ item.expand fun mode c => c.1.events mode) {x : Tree} (hx : e.spot? = some x) :
    ∃ y, item.spot? = some y ∧ y.Inside t ∧ x.Inside y ∧
      (e.assignment? = some x → item.visit? = some y) := by
  cases item with
  | visit mode c =>
    have hc := h.inside_of_visit hitem
    exact ⟨c.1, rfl, hc, Tree.inside_of_mem_events (hc.conforms hconf) (hc.laidOut hlaid)
      (hfits _ hitem).2 e he x hx, fun _ => rfl⟩
  | event e' =>
    obtain rfl := List.mem_singleton.1 he
    cases e with
    | declaration kind name value =>
      obtain rfl := Option.some.inj hx
      refine ⟨name, rfl, h.inside _ (List.mem_filterMap.2 ⟨_, hitem, rfl⟩), .refl, fun hassigned => ?_⟩
      cases hassigned
    | assignment a => exact absurd hitem (h.silent a)
    | _ => cases hx

/-- The assignments of a script are in order if those of the nodes that it visits are. -/
theorem pairwise_assignments (hspan : t.start < t.stop)
    (hinner : ∀ mode c, .visit mode c ∈ items →
      ((c.1.events mode).filterMap Event.assignment?).Pairwise c.1.ReadsInOrder) :
    ((Item.events items).filterMap Event.assignment?).Pairwise t.ReadsInOrder := by
  have hassigned {item : Item t} (hitem : item ∈ items) {a : Tree}
      (ha : a ∈ (item.expand fun mode c => c.1.events mode).filterMap Event.assignment?) :
      ∃ y, item.visit? = some y ∧ y.Inside t ∧ a.Inside y := by
    obtain ⟨e, he, ha⟩ := List.mem_filterMap.1 ha
    obtain rfl := Event.assignment?_eq_some.1 ha
    obtain ⟨y, -, hy, ha', hvisit⟩ := h.inside_of_mem_expand hfits hconf hlaid hitem he rfl
    exact ⟨y, hvisit ha, hy, ha'⟩
  rw [Item.events, List.filterMap_flatMap, List.pairwise_flatMap]
  refine ⟨fun item hitem => ?_, ?_⟩
  · cases item with
    | event e => exact List.pairwise_filterMap.2 (List.pairwise_singleton ..)
    | visit mode c =>
      exact (hinner mode c hitem).imp fun hR hstop => (hR hstop).mono (h.inside_of_visit hitem)
  · refine (List.pairwise_filterMap.1 h.before).imp_of_mem ?_
    intro i j hi hj hbefore a ha b hb hstop
    obtain ⟨c, hic, hc, ha⟩ := hassigned hi ha
    obtain ⟨d, hjd, hd, hb⟩ := hassigned hj hb
    rcases hbefore c hic d hjd with hle | ⟨htype, hcond, hbody⟩
    · -- then the first one ends where the second one begins, at the latest
      have hab := Tree.before_of_inside (hc.laidOut hlaid) (hd.laidOut hlaid) hle ha hb
      have ha := (ha.trans hc).start_lt_stop hlaid hspan
      have hb := (hb.trans hd).start_lt_stop hlaid hspan
      omega
    · exact ⟨t, .refl, htype, hbody.trans hb, hcond.trans ha⟩

/-- The names that a script declares are apart if those in the nodes that it visits are. -/
theorem pairwise_declarations
    (hinner : ∀ mode c, .visit mode c ∈ items →
      ((c.1.events mode).filterMap Event.declared?).Pairwise fun x y => x.2.1.Apart y.2.1) :
    ((Item.events items).filterMap Event.declared?).Pairwise fun x y => x.2.1.Apart y.2.1 := by
  have hdeclared {item : Item t} (hitem : item ∈ items) {x : VariableKind × Tree × Option Tree}
      (hx : x ∈ (item.expand fun mode c => c.1.events mode).filterMap Event.declared?) :
      ∃ y, item.spot? = some y ∧ y.Inside t ∧ x.2.1.Inside y := by
    obtain ⟨e, he, hx⟩ := List.mem_filterMap.1 hx
    obtain rfl := Event.declared?_eq_some.1 hx
    obtain ⟨y, hspot, hy, hx, -⟩ := h.inside_of_mem_expand hfits hconf hlaid hitem he rfl
    exact ⟨y, hspot, hy, hx⟩
  rw [Item.events, List.filterMap_flatMap, List.pairwise_flatMap]
  refine ⟨fun item hitem => ?_, ?_⟩
  · cases item with
    | event e => exact List.pairwise_filterMap.2 (List.pairwise_singleton ..)
    | visit mode c => exact hinner mode c hitem
  · refine (List.pairwise_filterMap.1 h.apart).imp_of_mem ?_
    intro i j hi hj hapart x hx y hy
    obtain ⟨c, hic, hc, hx⟩ := hdeclared hi hx
    obtain ⟨d, hjd, hd, hy⟩ := hdeclared hj hy
    exact (hapart c hic d hjd).of_inside (hc.laidOut hlaid) (hd.laidOut hlaid) hx hy

end Item.Orderly

namespace Tree

/-- **The order of assignments**: what is read later stands later, do statements apart. -/
theorem pairwise_assignments {t : Tree} (hconf : t.conforms = true) (hlaid : t.laidOut = true)
    {mode : Mode} (hsuits : mode.Suits t) (hspan : t.start < t.stop) :
    ((t.events mode).filterMap Event.assignment?).Pairwise t.ReadsInOrder := by
  refine script_induction (P := fun t mode => t.start < t.stop →
      ((t.events mode).filterMap Event.assignment?).Pairwise t.ReadsInOrder)
    (fun t mode items hconf hlaid horderly hfits hevents hinner hspan => ?_) hconf hlaid hsuits hspan
  have hitems := horderly.pairwise_assignments hfits hconf hlaid hspan fun mode c hc =>
    hinner mode c hc ((horderly.inside_of_visit hc).start_lt_stop hlaid hspan)
  rcases hevents with hevents | ⟨-, hevents⟩ <;> rw [hevents]
  · exact hitems
  · rw [List.filterMap_append]
    refine List.pairwise_append.2 ⟨hitems, List.pairwise_singleton .., fun a ha b hb hstop => ?_⟩
    -- the assignment at the node itself stands around the others
    obtain rfl := List.mem_singleton.1 hb
    obtain ⟨e, he, ha⟩ := List.mem_filterMap.1 ha
    obtain ⟨item, hitem, he⟩ := List.mem_flatMap.1 he
    obtain rfl := Event.assignment?_eq_some.1 ha
    obtain ⟨y, -, hy, ha, -⟩ := horderly.inside_of_mem_expand hfits hconf hlaid hitem he rfl
    have hwithin := (ha.trans hy).span hlaid
    have hpositive := (ha.trans hy).start_lt_stop hlaid hspan
    omega

/-- **The names that are declared** while a node is read are at different places. -/
theorem pairwise_declarations {t : Tree} (hconf : t.conforms = true) (hlaid : t.laidOut = true)
    {mode : Mode} (hsuits : mode.Suits t) :
    ((t.events mode).filterMap Event.declared?).Pairwise fun x y => x.2.1.Apart y.2.1 := by
  refine script_induction (P := fun t mode =>
      ((t.events mode).filterMap Event.declared?).Pairwise fun x y => x.2.1.Apart y.2.1)
    (fun t mode items hconf hlaid horderly hfits hevents hinner => ?_) hconf hlaid hsuits
  have hitems := horderly.pairwise_declarations hfits hconf hlaid hinner
  rcases hevents with hevents | ⟨-, hevents⟩ <;> rw [hevents]
  · exact hitems
  · rw [List.filterMap_append]
    exact List.append_nil _ ▸ hitems

/-- Assignments are made at assignment expressions, and no fields are published. -/
structure Ordinary (es : List Event) : Prop where
  type_of_assignment : ∀ a, .assignment a ∈ es → a.type = "assignment_expression"
  fields_notMem : .fields ∉ es

theorem Ordinary.append {es es' : List Event} (h : Ordinary es) (h' : Ordinary es') :
    Ordinary (es ++ es') where
  type_of_assignment a ha :=
    (List.mem_append.1 ha).elim (h.type_of_assignment a) (h'.type_of_assignment a)
  fields_notMem hf := (List.mem_append.1 hf).elim h.fields_notMem h'.fields_notMem

/-- **What happens while a node is read** is ordinary. -/
theorem ordinary_events {t : Tree} (hconf : t.conforms = true) (hlaid : t.laidOut = true)
    {mode : Mode} (hsuits : mode.Suits t) : Ordinary (t.events mode) := by
  refine script_induction (P := fun t mode => Ordinary (t.events mode))
    (fun t mode items _ _ horderly _ hevents hinner => ?_) hconf hlaid hsuits
  have hitems : Ordinary (Item.events items) := by
    refine ⟨fun a ha => ?_, fun hf => ?_⟩
    · rcases Item.mem_events.1 ha with ha | ⟨mode, c, hc, ha⟩
      · exact absurd ha (horderly.silent a)
      · exact (hinner mode c hc).type_of_assignment a ha
    · rcases Item.mem_events.1 hf with hf | ⟨mode, c, hc, hf⟩
      · exact horderly.inner hf
      · exact (hinner mode c hc).fields_notMem hf
  rcases hevents with hevents | ⟨htype, hevents⟩ <;> rw [hevents]
  · exact hitems
  · refine hitems.append ⟨fun a ha => ?_, fun hf => ?_⟩
    · cases List.mem_singleton.1 ha
      exact htype
    · cases List.mem_singleton.1 hf

/-! ### Methods -/

theorem inside_of_parameterName? {p n : Tree} (hn : p.parameterName? = some n) : n.Inside p := by
  unfold parameterName? at hn
  split at hn
  · obtain ⟨c, hc, rfl⟩ := Option.map_eq_some_iff.1 hn
    exact inside_of_mem_parts (mem_parts_of_child? hc)
  · split at hn
    · obtain ⟨d, hd, hn⟩ := Option.bind_eq_some_iff.1 hn
      obtain ⟨c, hc, rfl⟩ := Option.map_eq_some_iff.1 hn
      exact (inside_of_mem_parts (mem_parts_of_child? hc)).trans
        (inside_of_mem_content (mem_content_of_contentOf? hd))
    · cases hn

theorem under_of_mem_parameterNames {m n : Tree} (hn : n ∈ m.parameterNames) :
    m.Under (some "parameters") n := by
  unfold parameterNames at hn
  split at hn
  · cases hn
  · rename_i ps hps
    obtain ⟨hps, hfield⟩ := mem_pieces_of_child? hps
    obtain ⟨c, hc, hn⟩ := List.mem_filterMap.1 hn
    exact ⟨ps, hps, hfield, (inside_of_parameterName? hn).trans (inside_of_mem_content hc)⟩

theorem before_parameterNames {m : Tree} (hlaid : m.laidOut = true) :
    m.parameterNames.Pairwise fun a b => a.stop ≤ b.start := by
  unfold parameterNames
  split
  · exact .nil
  · rename_i ps hps
    exact before_filterMap_content (laidOut_of_mem_parts hlaid (mem_parts_of_child? hps))
      fun c n hn => inside_of_parameterName? hn

/-- What happens while a method is read, its scope and its parameters apart, happens in its body. -/
theorem mem_methodEvents {m : Tree} {e : Event} (he : e ∈ m.methodEvents) :
    e = .opening ∨ e = .closing ∨ (∃ n ∈ m.parameterNames, e = .declaration .parameter n none) ∨
      ∃ b ∈ (m.child? "body").toList, e ∈ b.1.events .block := by
  simp only [methodEvents, List.mem_cons, List.mem_append, List.mem_map, List.mem_flatMap,
    List.not_mem_nil, or_false] at he
  rcases he with he | (⟨n, hn, rfl⟩ | he) | he
  · exact .inl he
  · exact .inr (.inr (.inl ⟨n, hn, rfl⟩))
  · exact .inr (.inr (.inr he))
  · exact .inr (.inl he)

section

variable {m : Tree} (hmethod : m.isMethod = true) (hconf : m.conforms = true)
  (hlaid : m.laidOut = true)

include hmethod hconf

/-- The body of a method can be read as a block. -/
theorem suits_body {b : Subtree m} (hb : b ∈ (m.child? "body").toList) :
    b.1.conforms = true ∧ Mode.block.Suits b.1 :=
  body_of_isMethod hmethod hconf (Option.mem_toList.1 hb)

include hlaid

theorem inside_of_mem_methodEvents :
    ∀ e ∈ m.methodEvents, ∀ x, e.spot? = some x → x.Inside m := by
  intro e he x hx
  rcases mem_methodEvents he with rfl | rfl | ⟨n, hn, rfl⟩ | ⟨b, hb, he⟩
  · cases hx
  · cases hx
  · cases hx
    exact (under_of_mem_parameterNames hn).inside
  · obtain ⟨hconf', hsuits⟩ := suits_body hmethod hconf hb
    have hinside := inside_of_mem_toList_child? hb
    exact (inside_of_mem_events hconf' (hinside.laidOut hlaid) hsuits e he x hx).trans hinside

theorem ordinary_methodEvents : Ordinary m.methodEvents := by
  have hbody {b : Subtree m} (hb : b ∈ (m.child? "body").toList) : Ordinary (b.1.events .block) := by
    obtain ⟨hconf', hsuits⟩ := suits_body hmethod hconf hb
    exact ordinary_events hconf' ((inside_of_mem_toList_child? hb).laidOut hlaid) hsuits
  refine ⟨fun a ha => ?_, fun hf => ?_⟩
  · rcases mem_methodEvents ha with ha | ha | ⟨n, -, ha⟩ | ⟨b, hb, ha⟩
    · cases ha
    · cases ha
    · cases ha
    · exact (hbody hb).type_of_assignment a ha
  · rcases mem_methodEvents hf with hf | hf | ⟨n, -, hf⟩ | ⟨b, hb, hf⟩
    · cases hf
    · cases hf
    · cases hf
    · exact (hbody hb).fields_notMem hf

/-- **The assignments of a method** are read in order, do statements apart. -/
theorem pairwise_assignments_method (hspan : m.start < m.stop) :
    (m.methodEvents.filterMap Event.assignment?).Pairwise m.ReadsInOrder := by
  have hparameters : (m.parameterNames.map fun n => Event.declaration .parameter n none).filterMap
      Event.assignment? = [] := by
    rw [List.filterMap_map]
    exact List.filterMap_eq_nil_iff.2 fun _ _ => rfl
  have heq : m.methodEvents.filterMap Event.assignment? =
      (m.child? "body").toList.flatMap fun b => (b.1.events .block).filterMap Event.assignment? := by
    rw [methodEvents, List.filterMap_cons_none rfl, List.filterMap_append, List.filterMap_append,
      hparameters, List.nil_append, List.filterMap_flatMap]
    exact List.append_nil _
  rw [heq]
  cases hb : m.child? "body" with
  | none => exact .nil
  | some b =>
    have hb := Option.mem_toList.2 hb
    obtain ⟨hconf', hsuits⟩ := suits_body hmethod hconf hb
    have hinside := inside_of_mem_toList_child? hb
    rw [Option.toList_some, List.flatMap_singleton]
    exact (pairwise_assignments hconf' (hinside.laidOut hlaid) hsuits
      (hinside.start_lt_stop hlaid hspan)).imp fun hR hstop => (hR hstop).mono hinside

/-- **What a method declares** is at different places. -/
theorem pairwise_declarations_method :
    (m.methodEvents.filterMap Event.declared?).Pairwise fun x y => x.2.1.Apart y.2.1 := by
  have heq : m.methodEvents.filterMap Event.declared? =
      m.parameterNames.map (fun n => (.parameter, n, none)) ++
        (m.child? "body").toList.flatMap fun b => (b.1.events .block).filterMap Event.declared? := by
    rw [methodEvents, List.filterMap_cons_none rfl, List.filterMap_append, List.filterMap_append,
      List.filterMap_map, List.filterMap_flatMap]
    refine (List.append_nil _).trans ?_
    congr 1
    exact congrFun List.filterMap_eq_map' _
  rw [heq]
  refine List.pairwise_append.2 ⟨?_, ?_, ?_⟩
  · rw [List.pairwise_map]
    exact (before_parameterNames hlaid).imp Or.inl
  · refine List.pairwise_flatMap.2 ⟨fun b hb => ?_, pairwise_toList _⟩
    obtain ⟨hconf', hsuits⟩ := suits_body hmethod hconf hb
    exact pairwise_declarations hconf' ((inside_of_mem_toList_child? hb).laidOut hlaid) hsuits
  · intro x hx y hy
    obtain ⟨n, hn, rfl⟩ := List.mem_map.1 hx
    obtain ⟨b, hb, hy⟩ := List.mem_flatMap.1 hy
    obtain ⟨e, he, hy⟩ := List.mem_filterMap.1 hy
    obtain rfl := Event.declared?_eq_some.1 hy
    obtain ⟨hconf', hsuits⟩ := suits_body hmethod hconf hb
    have hinside := inside_of_mem_events hconf' ((inside_of_mem_toList_child? hb).laidOut hlaid)
      hsuits _ he _ rfl
    exact Under.apart hlaid (by decide) (under_of_mem_parameterNames hn) ((under_child? hb).trans hinside)

end

end Tree

end TaintFlow.Java
