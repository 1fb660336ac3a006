import TaintFlow.Proofs.Java.SourceOrder

/-!
# What happens around a method

While a unit is read, what happens before and after one of its methods is about nodes outside of the
method: the fields of the types around it, their other members, and other types
(`exists_surrounds_unitEvents`).
-/

namespace TaintFlow.Java

open TaintFlow.Code

namespace Tree

variable {t : Tree}

theorem inside_of_mem_members {m : Subtree t} (hm : m ∈ t.members) : m.1.Inside t := by
  unfold members at hm
  split at hm
  · cases hm
  · rename_i body hbody
    obtain ⟨c, hc, hm⟩ := List.mem_flatMap.1 hm
    have hc := (inside_of_mem_content hc).trans (inside_of_mem_parts (mem_parts_of_child? hbody))
    split at hm
    · obtain ⟨d, hd, rfl⟩ := List.mem_map.1 hm
      exact (inside_of_mem_content hd).trans hc
    · rw [List.mem_singleton.1 hm]
      exact hc

/-- The members of a type stand one after the other. -/
theorem before_members (hlaid : t.laidOut = true) :
    t.members.Pairwise fun a b => a.1.stop ≤ b.1.start := by
  unfold members
  split
  · exact .nil
  · rename_i body hbody
    have hlaid := laidOut_of_mem_parts hlaid (mem_parts_of_child? hbody)
    refine List.pairwise_flatMap.2 ⟨fun c hc => ?_, (before_content hlaid).imp_of_mem ?_⟩
    · split
      · rw [List.pairwise_map]
        exact before_content (laidOut_of_mem_parts hlaid (mem_parts_of_mem_content hc))
      · exact List.pairwise_singleton ..
    · intro c d hc hd hbefore x hx y hy
      have hinside {c : Subtree body.1} {x : Subtree t}
          (hx : x ∈ if c.1.type == "enum_body_declarations" then
            c.1.content.map fun d => body.trans (c.trans d) else [body.trans c]) :
          x.1.Inside c.1 := by
        split at hx
        · obtain ⟨d, hd, rfl⟩ := List.mem_map.1 hx
          exact inside_of_mem_content hd
        · rw [List.mem_singleton.1 hx]
          exact .refl
      exact before_of_inside (laidOut_of_mem_parts hlaid (mem_parts_of_mem_content hc))
        (laidOut_of_mem_parts hlaid (mem_parts_of_mem_content hd)) hbefore (hinside hx) (hinside hy)

theorem inside_of_mem_fieldParts {m : Tree} {f : Tree × Option Tree} (hf : f ∈ m.fieldParts) :
    f.1.Inside m ∧ ∀ v, f.2 = some v → v.Inside m := by
  unfold fieldParts at hf
  split at hf
  · obtain ⟨d, hd, hf⟩ := List.mem_flatMap.1 hf
    obtain ⟨n, hn, rfl⟩ := List.mem_map.1 hf
    have hd := (under_childrenIn hd).inside
    refine ⟨(inside_of_mem_toList_child? hn).trans hd, fun v hv => ?_⟩
    obtain ⟨c, hc, rfl⟩ := Option.map_eq_some_iff.1 hv
    exact (inside_of_mem_parts (mem_parts_of_child? hc)).trans hd
  · split at hf
    · obtain ⟨n, hn, rfl⟩ := List.mem_map.1 hf
      refine ⟨inside_of_mem_toList_child? hn, fun v hv => ?_⟩
      cases hv
    · cases hf

/-- Methods and types declare no fields themselves. -/
theorem fieldParts_eq_nil {m : Tree} (h : m.isMethod = true ∨ m.isTypeDeclaration = true) :
    m.fieldParts = [] := by
  have htype : m.type ∈ "method_declaration" :: constructorTypes ++ typeDeclarations := by
    simpa [isMethod, isTypeDeclaration, or_assoc] using h
  obtain ⟨hfield, hconstant, henum⟩ :=
    (by decide : ∀ type ∈ "method_declaration" :: constructorTypes ++ typeDeclarations,
      type ≠ "field_declaration" ∧ type ≠ "constant_declaration" ∧ type ≠ "enum_constant") _ htype
  simp [fieldParts, hfield, hconstant, henum]

/-- The events of the fields of a type. -/
def fieldsEvents (t : Tree) : List Event :=
  (t.members.flatMap (·.1.fieldParts)).map (fun f => .declaration .field f.1 f.2)
    ++ .fields :: (t.members.flatMap (·.1.fieldParts)).flatMap fieldEvents

theorem inside_of_mem_fieldsEvents (hconf : t.conforms = true) (hlaid : t.laidOut = true) {e : Event}
    (he : e ∈ t.fieldsEvents) {x : Tree} (hx : e.spot? = some x) :
    ∃ m ∈ t.members, m.1.fieldParts ≠ [] ∧ x.Inside m.1 := by
  have hmember {f : Tree × Option Tree} (hf : f ∈ t.members.flatMap (·.1.fieldParts)) :
      ∃ m ∈ t.members, m.1.fieldParts ≠ [] ∧ f.1.Inside m.1 ∧ ∀ v, f.2 = some v → v.Inside m.1 := by
    obtain ⟨m, hm, hf⟩ := List.mem_flatMap.1 hf
    exact ⟨m, hm, List.ne_nil_of_mem hf, inside_of_mem_fieldParts hf⟩
  unfold fieldsEvents at he
  rcases List.mem_append.1 he with he | he
  · obtain ⟨f, hf, rfl⟩ := List.mem_map.1 he
    cases hx
    obtain ⟨m, hm, hne, hname, -⟩ := hmember hf
    exact ⟨m, hm, hne, hname⟩
  · rcases List.mem_cons.1 he with rfl | he
    · cases hx
    · obtain ⟨f, hf, he⟩ := List.mem_flatMap.1 he
      obtain ⟨m, hm, hne, -, hvalue⟩ := hmember hf
      obtain ⟨v, hv, he⟩ := List.mem_flatMap.1 he
      have hv := hvalue v (Option.mem_toList.1 hv)
      refine ⟨m, hm, hne, ?_⟩
      rcases List.mem_append.1 he with he | he
      · have hinside := hv.trans (inside_of_mem_members hm)
        have hsuits : Mode.expr.Suits v := trivial
        exact (inside_of_mem_events (hinside.conforms hconf) (hinside.laidOut hlaid) hsuits
          e he x hx).trans hv
      · rw [List.mem_singleton.1 he] at hx
        cases hx

theorem typeEvents_eq_fieldsEvents (t : Tree) :
    t.typeEvents = .opening :: t.fieldsEvents ++ t.members.flatMap (·.1.memberEvents) ++ [.closing] :=
  t.typeEvents_eq

/-- **What happens while a type is read** is about nodes inside of it. -/
theorem inside_of_mem_typeEvents (hconf : t.conforms = true) (hlaid : t.laidOut = true) :
    ∀ e ∈ t.typeEvents, ∀ x, e.spot? = some x → x.Inside t := by
  induction hsize : t.size using Nat.strongRecOn generalizing t with
  | ind n ih =>
    intro e he x hx
    rw [typeEvents_eq_fieldsEvents] at he
    simp only [List.cons_append, List.mem_cons, List.mem_append, List.not_mem_nil, or_false] at he
    rcases he with rfl | (he | he) | rfl
    · cases hx
    · obtain ⟨m, hm, -, hx⟩ := inside_of_mem_fieldsEvents hconf hlaid he hx
      exact hx.trans (inside_of_mem_members hm)
    · obtain ⟨m, hm, he⟩ := List.mem_flatMap.1 he
      have hinside := inside_of_mem_members hm
      refine .trans ?_ hinside
      unfold memberEvents at he
      split at he
      · rename_i hmethod
        exact inside_of_mem_methodEvents hmethod (hinside.conforms hconf) (hinside.laidOut hlaid)
          e he x hx
      · split at he
        · exact ih m.1.size (hsize ▸ m.2) (hinside.conforms hconf) (hinside.laidOut hlaid) rfl
            e he x hx
        · cases he
    · cases hx

end Tree

/-- The events are what happens while the method is read, and before and after it something about nodes
apart from the method. -/
structure Surrounds (m : Tree) (events before after : List Event) : Prop where
  eq : events = before ++ m.methodEvents ++ after
  apart : ∀ e ∈ before ++ after, ∀ x, e.spot? = some x → x.Apart m

namespace Surrounds

variable {m : Tree} {events before after : List Event}

theorem refl (m : Tree) : Surrounds m m.methodEvents [] [] :=
  ⟨by rw [List.nil_append, List.append_nil], List.forall_mem_nil _⟩

theorem append (h : Surrounds m events before after) {es es' : List Event}
    (hes : ∀ e ∈ es ++ es', ∀ x, e.spot? = some x → x.Apart m) :
    Surrounds m (es ++ events ++ es') (es ++ before) (after ++ es') where
  eq := by simp [h.eq]
  apart := by
    have hes := List.forall_mem_append.1 hes
    have h := List.forall_mem_append.1 h.apart
    exact List.forall_mem_append.2
      ⟨List.forall_mem_append.2 ⟨hes.1, h.1⟩, List.forall_mem_append.2 ⟨h.2, hes.2⟩⟩

/-- One of several stretches, about nodes that stand one after the other. -/
theorem flatMap {α : Type} {l : List α} {node : α → Tree} {f : α → List Event}
    (hbefore : l.Pairwise fun a b => (node a).stop ≤ (node b).start)
    (hlaid : ∀ a ∈ l, (node a).laidOut = true)
    (hinside : ∀ a ∈ l, ∀ e ∈ f a, ∀ x, e.spot? = some x → x.Inside (node a)) {a : α} (ha : a ∈ l)
    (hm : m.Inside (node a)) (h : Surrounds m (f a) before after) :
    ∃ before' after', Surrounds m (l.flatMap f) before' after' := by
  obtain ⟨l₁, l₂, rfl⟩ := List.append_of_mem ha
  obtain ⟨-, hlast, hcross⟩ := List.pairwise_append.1 hbefore
  have hfirst := (List.pairwise_cons.1 hlast).1
  have heq : (l₁ ++ a :: l₂).flatMap f = l₁.flatMap f ++ f a ++ l₂.flatMap f := by simp
  rw [heq]
  refine ⟨_, _, h.append (List.forall_mem_append.2 ⟨fun e he x hx => ?_, fun e he x hx => ?_⟩)⟩
  · obtain ⟨b, hb, he⟩ := List.mem_flatMap.1 he
    have hmem : b ∈ l₁ ++ a :: l₂ := List.mem_append_left _ hb
    exact .inl (Tree.before_of_inside (hlaid b hmem) (hlaid a ha)
      (hcross b hb a List.mem_cons_self) (hinside b hmem e he x hx) hm)
  · obtain ⟨b, hb, he⟩ := List.mem_flatMap.1 he
    have hmem : b ∈ l₁ ++ a :: l₂ := List.mem_append_right _ (List.mem_cons_of_mem _ hb)
    exact .inr (Tree.before_of_inside (hlaid a ha) (hlaid b hmem) (hfirst b hb) hm
      (hinside b hmem e he x hx))

end Surrounds

namespace Tree

variable {t : Tree}

theorem inside_of_mem_memberEvents {m : Tree} (hconf : m.conforms = true) (hlaid : m.laidOut = true) :
    ∀ e ∈ m.memberEvents, ∀ x, e.spot? = some x → x.Inside m := by
  unfold memberEvents
  split
  · rename_i hmethod
    exact inside_of_mem_methodEvents hmethod hconf hlaid
  · split
    · exact inside_of_mem_typeEvents hconf hlaid
    · exact List.forall_mem_nil _

/-- The events of a type around one of its methods. -/
theorem exists_surrounds_typeEvents {S : Source} {naming : Naming} {around : Option String}
    (htype : t.isTypeDeclaration = true) (hconf : t.conforms = true) (hlaid : t.laidOut = true)
    {type : String} {m : Tree} (hm : (type, m) ∈ declared S naming around t)
    (hmethod : m.isMethod = true) :
    m.Inside t ∧ ∃ before after, Surrounds m t.typeEvents before after := by
  induction hsize : t.size using Nat.strongRecOn generalizing t around with
  | ind n ih =>
    rw [declared_eq] at hm
    rcases List.mem_cons.1 hm with heq | hm
    · cases heq
      rw [not_isMethod_of_isTypeDeclaration htype] at hmethod
      cases hmethod
    obtain ⟨c, hc, hm⟩ := List.mem_flatMap.1 hm
    have hinside := inside_of_mem_members hc
    -- the method is the member or belongs to it
    obtain ⟨hmc, hnone, before, after, hsurrounds⟩ : m.Inside c.1 ∧ c.1.fieldParts = [] ∧
        ∃ before after, Surrounds m c.1.memberEvents before after := by
      unfold declaredIn at hm
      unfold memberEvents
      split at hm
      · rename_i htype
        obtain ⟨hmc, hsurrounds⟩ := ih c.1.size (hsize ▸ c.2) htype (hinside.conforms hconf)
          (hinside.laidOut hlaid) hm rfl
        rw [not_isMethod_of_isTypeDeclaration htype, if_neg Bool.false_ne_true, if_pos htype]
        exact ⟨hmc, fieldParts_eq_nil (.inr htype), hsurrounds⟩
      · split at hm
        · rename_i hcmethod
          cases List.mem_singleton.1 hm
          rw [if_pos hcmethod]
          exact ⟨.refl, fieldParts_eq_nil (.inl hcmethod), [], [], .refl _⟩
        · cases hm
    have hlaid' : ∀ d ∈ t.members, d.1.laidOut = true := fun d hd =>
      (inside_of_mem_members hd).laidOut hlaid
    obtain ⟨before', after', hmembers⟩ := hsurrounds.flatMap (before_members hlaid) hlaid'
      (fun d hd => inside_of_mem_memberEvents ((inside_of_mem_members hd).conforms hconf)
        (hlaid' d hd)) hc hmc
    have hfields : ∀ e ∈ t.fieldsEvents, ∀ x, e.spot? = some x → x.Apart m := by
      intro e he x hx
      obtain ⟨d, hd, hsome, hx⟩ := inside_of_mem_fieldsEvents hconf hlaid he hx
      have hne : d ≠ c := by
        rintro rfl
        exact hsome hnone
      have hapart : d.1.Apart c.1 := rel_or_rel_of_pairwise (before_members hlaid) hd hc hne
      exact hapart.of_inside (hlaid' d hd) (hlaid' c hc) hx hmc
    have hrest : ∀ e ∈ .opening :: t.fieldsEvents ++ [.closing],
        ∀ x, e.spot? = some x → x.Apart m := by
      intro e he x hx
      simp only [List.cons_append, List.mem_cons, List.mem_append, List.not_mem_nil, or_false] at he
      rcases he with rfl | he | rfl
      · cases hx
      · exact hfields e he x hx
      · cases hx
    exact ⟨hmc.trans hinside, _, _, t.typeEvents_eq_fieldsEvents ▸ hmembers.append hrest⟩

/-- **Around a method of a unit** all that happens is about nodes apart from the method. -/
theorem exists_surrounds_unitEvents {S : Source} {naming : Naming} {root : Tree}
    (hconf : root.conforms = true) (hlaid : root.laidOut = true) {type : String} {m : Tree}
    (hm : (type, m) ∈ declarations S naming root) (hmethod : m.isMethod = true) :
    m.Inside root ∧ m.start < m.stop ∧ ∃ before after, Surrounds m root.unitEvents before after := by
  obtain ⟨t, ht, hm⟩ := List.mem_flatMap.1 hm
  have hmem {t : Tree} (ht : t ∈ root.types) : ∃ c ∈ root.parts, c.1 = t := by
    obtain ⟨c, hc, rfl⟩ := List.mem_map.1 (List.mem_filter.1 ht).1
    exact ⟨c, mem_parts_of_mem_content hc, rfl⟩
  have hinside {t : Tree} (ht : t ∈ root.types) : t.Inside root := by
    obtain ⟨c, hc, rfl⟩ := hmem ht
    exact inside_of_mem_parts hc
  have hbefore : root.types.Pairwise fun a b => a.stop ≤ b.start :=
    (List.pairwise_map.2 (before_content hlaid)).sublist List.filter_sublist
  obtain ⟨hmt, before, after, hsurrounds⟩ := exists_surrounds_typeEvents (List.mem_filter.1 ht).2
    ((hinside ht).conforms hconf) ((hinside ht).laidOut hlaid) hm hmethod
  refine ⟨hmt.trans (hinside ht), ?_, hsurrounds.flatMap hbefore
    (fun t ht => (hinside ht).laidOut hlaid) (fun t ht => inside_of_mem_typeEvents
      ((hinside ht).conforms hconf) ((hinside ht).laidOut hlaid)) ht hmt⟩
  obtain ⟨c, hc, rfl⟩ := hmem ht
  exact hmt.start_lt_stop (laidOut_of_mem_parts hlaid hc) (span_of_mem_parts hlaid hc).2.1

/-- **What happens while a unit is read** is about nodes inside of it, with something in them. -/
theorem inside_of_mem_unitEvents {root : Tree} (hconf : root.conforms = true)
    (hlaid : root.laidOut = true) {e : Event} (he : e ∈ root.unitEvents) {x : Tree}
    (hx : e.spot? = some x) : x.Inside root ∧ x.start < x.stop := by
  obtain ⟨t, ht, he⟩ := List.mem_flatMap.1 he
  obtain ⟨c, hc, rfl⟩ := List.mem_map.1 (List.mem_filter.1 ht).1
  have hc := mem_parts_of_mem_content hc
  have hlaid' := laidOut_of_mem_parts hlaid hc
  have hinside := inside_of_mem_parts hc
  have hx := inside_of_mem_typeEvents (hinside.conforms hconf) hlaid' e he x hx
  exact ⟨hx.trans hinside, hx.start_lt_stop hlaid' (span_of_mem_parts hlaid hc).2.1⟩

end Tree

end TaintFlow.Java
