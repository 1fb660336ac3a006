import TaintFlow.Proofs.Java.Chronicle

/-!
# Runs follow their scripts

Whenever a node is read, the variables undergo the effects of the events that the node foresees, in
that order (`follows_reading`).  This is the chronicle of the events (`courses`).  Methods, types and
units follow (`follows_readUnit`).
-/

namespace TaintFlow.Java

open TaintFlow.Code TaintFlow.Types

/-- The events have a course from one state to the other, and what they declare with a value is given
it. -/
def State.Passes (S : Source) (s : State) (es : List Event) (s' : State) : Prop :=
  ∃ effects, Course S s.ledger es effects ∧ Tied (es.zip effects) ∧
    s'.ledger = effects.foldl State.after s.ledger

namespace State.Passes

variable {S : Source} {s s₁ s' : State} {es es' : List Event}

theorem append (h : s.Passes S es s₁) (h' : s₁.Passes S es' s') : s.Passes S (es ++ es') s' := by
  obtain ⟨xs, hxs, htied, hs₁⟩ := h
  obtain ⟨ys, hys, htied', hs'⟩ := h'
  rw [hs₁] at hys hs'
  refine ⟨xs ++ ys, hxs.append hys, ?_, by rw [hs', List.foldl_append]⟩
  rw [hxs.zip_append]
  exact htied.append htied'

theorem single {e : Event} {x : Effect} (h : Happens S s.ledger e x) (htied : Tied [(e, x)])
    (hs' : s'.ledger = s.ledger.after x) : s.Passes S [e] s' :=
  ⟨[x], .single h, htied, hs'⟩

end State.Passes

/-- Of an event it is noted that it happens, of a call nothing. -/
def courses (S : Source) : Chronicle S Event where
  event e := [e]
  call _ := []
  Leads s es s' := s.Passes S es s'
  nil s := ⟨[], .nil _, .nil, rfl⟩
  append := .append
  opening s := .single .opening (.single nofun nofun) rfl
  closing s := .single .closing (.single nofun nofun) rfl
  declaration s hb := .single (.declaration none hb) (.single nofun nofun) (s.ledger_addVariable _)
  introduction {value e s₀ s} name type hread := by
    have hgives : S.Gives _ .localVar name value _ e := .localVar type rfl hread
    rw [State.ledger_addVariable] at hgives
    refine ⟨[.declared _, .initialized _ e], .cons (.declaration _ hgives.variableAt)
      (.single (.initialization hgives)), .pair _ _ _ _ _, ?_⟩
    exact congrArg (State.bind · _ (some e)) (s.ledger_addVariable _)
  addCall s _ _ _ := ⟨[], .nil _, .nil, rfl⟩

theorem of_courses (S : Source) (t : Tree) (mode : Mode) : (courses S).of t mode = t.events mode := by
  induction hsize : t.size using Nat.strongRecOn generalizing t mode with
  | ind n ih =>
    have hown : (courses S).own t mode = [] := by
      cases mode with
      | expr => exact ite_self _
      | stmt | block => rfl
    rw [Chronicle.of_eq, Tree.events_eq, hown, List.append_nil]
    refine List.flatMap_congr fun item _ => ?_
    cases item with
    | event e => rfl
    | visit mode c => exact ih c.1.size (hsize ▸ c.2) c.1 mode rfl

theorem notes_courses (S : Source) {t : Tree} (items : List (Item t)) :
    (courses S).notes items = Item.events items := by
  refine List.flatMap_congr fun item _ => ?_
  cases item with
  | event e => rfl
  | visit mode c => exact of_courses S c.1 mode

/-- From every state, the step has a course over the events, and its answer has the property. -/
abbrev Read.Follows {α : Type} (S : Source) (events : List Event) (step : Read α) (Q : α → Prop) :
    Prop :=
  (courses S).Follows events step Q

open Read

section

variable {S : Source} {t : Tree} (h : ∀ c : Subtree t, (courses S).Tells c.1)

include h

/-- The operands of an assignment leave the variables in scope as they are. -/
theorem sameVariables_expr? {c : Option (Subtree t)} {s s' : State} {e : Option Expr}
    (hrun : ((readings S t).expr? c).run s = .ok (e, s')) :
    s'.scopes = s.scopes ∧ s'.fields = s.fields := by
  have houtline := (Readings.tame_expr? (tame_readings S t) (c := c) fun _ _ => .inl trivial).leads
    allows_outline s e s' hrun
  obtain ⟨-, xs, hxs, -, hs'⟩ := Chronicle.follows_expr? h c s e s' hrun
  rw [notes_courses] at hxs
  have hexposes : Exposes [] (Item.events (Item.exprs c.toList)) :=
    .exprs (fun c mode => exposes_events c.1 mode) _
  have hscopes : s'.ledger.scopes = s.scopes :=
    (congrArg State.scopes hs').trans (hxs.scopes_eq hexposes)
  have hfields : s'.outline.fields = s.outline.fields := congrArg State.fields houtline
  exact ⟨hscopes, hfields⟩

omit h in
/-- What an operand of an assignment is read as, told where the same variables are in scope. -/
theorem readsIn_expr? {c : Option (Subtree t)} {s s₁ s' : State} {e : Option Expr}
    (hrun : ((readings S t).expr? c).run s = .ok (e, s₁)) (hscopes : s'.scopes = s.scopes)
    (hfields : s'.fields = s.fields) :
    Option.Rel (S.ReadsIn s') (Subtree.node? c) e := by
  have hvalue := rel_of_run_expr? hrun
  generalize Subtree.node? c = value at hvalue ⊢
  cases hvalue with
  | none => exact .none
  | some hread => exact .some ⟨s, s₁, hscopes.symm, hfields.symm, hread⟩

theorem follows_assignment :
    Follows S ((courses S).notes
      (Item.exprs ((t.child? "left").toList ++ (t.child? "right").toList) ++ [.event (.assignment t)]))
      (readAssignment S t (readings S t)) fun _ => True := by
  intro s a s' hrun
  obtain ⟨left, s₁, hleft, hrun⟩ := run_bind_eq_ok.1 hrun
  obtain ⟨right, s₂, hright, hrun⟩ := run_bind_eq_ok.1 hrun
  obtain ⟨_, s₃, hassign, hreturn⟩ := run_bind_eq_ok.1 hrun
  cases hassign
  cases hreturn
  have hs₁ := (Chronicle.follows_expr? h _ _ _ _ hleft).2
  have hs₂ := (Chronicle.follows_expr? h _ _ _ _ hright).2
  obtain ⟨hscopes₁, hfields₁⟩ := sameVariables_expr? h hleft
  obtain ⟨hscopes₂, hfields₂⟩ := sameVariables_expr? h hright
  have hhappens : Happens S s₂.ledger (.assignment t)
      (.assigned (S.textOf (t.child? "operator")) left right) :=
    .assignment (readsIn_expr? hleft (hscopes₂.trans hscopes₁) (hfields₂.trans hfields₁))
      (readsIn_expr? hright hscopes₂ hfields₂)
  rw [Chronicle.notes_append, Item.exprs_append, Chronicle.notes_append]
  exact ⟨trivial, (courses S).append ((courses S).append hs₁ hs₂)
    (.single hhappens (.single nofun nofun) (s₂.ledger_assign _ _ _))⟩

end

theorem tells_courses (S : Source) (t : Tree) : (courses S).Tells t :=
  Chronicle.tells_reading (fun _ h => follows_assignment h) t

/-- All readings of a node follow its events. -/
structure Reading.Follows (S : Source) (t : Tree) (r : Reading) : Prop where
  expr : Read.Follows S (t.events .expr) r.asExpr fun _ => True
  stmt : Read.Follows S (t.events .stmt) r.asStmt fun _ => True
  block : Read.Follows S (t.events .block) r.asBlock fun _ => True

/-- **Reading any node** follows the events of the node. -/
theorem follows_reading (S : Source) (t : Tree) : (reading S t).Follows S t := by
  have h := tells_courses S t
  refine ⟨?_, ?_, ?_⟩ <;> rw [← of_courses S]
  exacts [h.expr, h.stmt, h.block]

/-! ### Methods -/

theorem filterMap_name_readParameters (S : Source) (s : State) (m : Tree) :
    (readParameters S s m).filterMap (·.name) = m.parameterNames := by
  unfold readParameters Tree.parameterNames
  cases m.child? "parameters" with
  | none => rfl
  | some ps =>
    rw [List.filterMap_filterMap]
    refine List.filterMap_congr fun p _ => ?_
    unfold readParameter Tree.parameterName?
    split
    · rfl
    · split <;> rfl

theorem follows_methodBody (S : Source) (s : State) (m : Tree) :
    Follows S m.methodEvents (methodBody S (readParameters S s m) m) fun _ => True := by
  have hbody := Chronicle.follows_methodBody (tells_courses S) (readParameters S s m) m
  have hnames : m.parameterNames.flatMap
      (fun n => (courses S).event (.declaration .parameter n none)) =
      m.parameterNames.map (.declaration .parameter · none) := List.map_eq_flatMap.symm
  simp only [filterMap_name_readParameters, of_courses, hnames] at hbody
  exact hbody

/-- **Reading a method** follows the events of the method. -/
theorem follows_readMethod (S : Source) (type : String) (isConstructor : Bool) (m : Tree) :
    Follows S m.methodEvents (readMethod S type isConstructor m) fun _ => True := by
  intro s a s' hrun
  rw [run_readMethod] at hrun
  obtain ⟨p, hbody, hleave⟩ := bind_eq_ok_iff.1 hrun
  cases hleave
  have hcourse := follows_methodBody S s m _ _ _ hbody
  exact hcourse

/-! ### Types -/

/-- From one state to the other the fields are declared; of those that have a value, the variable is
kept with it. -/
inductive Declares (S : Source) :
    List (Tree × Option Tree) → State → List (Binding × Tree) → State → Prop where
  | nil (s : State) : Declares S [] s [] s
  | bare {fs : List (Tree × Option Tree)} {vs : List (Binding × Tree)} {name : Tree} {b : Binding}
      {s s' : State} : VariableAt S .field name b → Declares S fs (s.addVariable b) vs s' →
      Declares S ((name, none) :: fs) s vs s'
  | valued {fs : List (Tree × Option Tree)} {vs : List (Binding × Tree)} {name value : Tree}
      {b : Binding} {s s' : State} : VariableAt S .field name b →
      Declares S fs (s.addVariable b) vs s' →
      Declares S ((name, some value) :: fs) s ((b, value) :: vs) s'

namespace Declares

variable {S : Source} {fs fs' : List (Tree × Option Tree)} {vs vs' : List (Binding × Tree)}
  {s s₁ s' : State}

theorem append (h : Declares S fs s vs s₁) (h' : Declares S fs' s₁ vs' s') :
    Declares S (fs ++ fs') s (vs ++ vs') s' := by
  induction h with
  | nil => exact h'
  | bare hb _ ih => exact .bare hb (ih h')
  | valued hb _ ih => exact .valued hb (ih h')

theorem mapM {α β : Type} {l : List α} {f : α → Read β} {parts : α → List (Tree × Option Tree)}
    {values : β → List (Binding × Tree)}
    (h : ∀ x ∈ l, ∀ s a s', (f x).run s = .ok (a, s') → Declares S (parts x) s (values a) s')
    {as : List β} (hrun : (l.mapM f).run s = .ok (as, s')) :
    Declares S (l.flatMap parts) s (as.flatMap values) s' := by
  induction l generalizing s as with
  | nil =>
    cases hrun
    exact .nil _
  | cons x l ih =>
    obtain ⟨hx, hl⟩ := List.forall_mem_cons.1 h
    rw [List.mapM_cons] at hrun
    obtain ⟨a, s₁, hstep, hrun⟩ := run_bind_eq_ok.1 hrun
    obtain ⟨as, s₂, hrest, hreturn⟩ := run_bind_eq_ok.1 hrun
    cases hreturn
    exact (hx s a s₁ hstep).append (ih hl hrest)

/-- The initializers of the fields are read one after the other, and the fields are given their
values. -/
theorem follows (h : Declares S fs s vs s') :
    ∃ xs, Course S s.ledger (fs.map fun f => .declaration .field f.1 f.2) xs ∧
      s'.ledger = xs.foldl State.after s.ledger ∧
      ∀ s₁ u s₂, (vs.forM fun x => do
        let e ← (reading S x.2).asExpr
        modify (·.bind x.1 (some e)) : Read PUnit).run s₁ = .ok (u, s₂) →
      ∃ ys, Course S s₁.ledger (fs.flatMap Tree.fieldEvents) ys ∧
        s₂.ledger = ys.foldl State.after s₁.ledger ∧
        Tied ((fs.map fun f => .declaration .field f.1 f.2).zip xs
          ++ (fs.flatMap Tree.fieldEvents).zip ys) := by
  induction h with
  | nil s =>
    refine ⟨[], .nil _, rfl, fun s₁ u s₂ hrun => ?_⟩
    cases hrun
    exact ⟨[], .nil _, rfl, .nil⟩
  | @bare fs vs name b s s' hb _ ih =>
    obtain ⟨xs, hxs, hs', hvalues⟩ := ih
    rw [State.ledger_addVariable] at hxs hs'
    refine ⟨.declared b :: xs, .cons (.declaration none hb) hxs, hs', fun s₁ u s₂ hrun => ?_⟩
    obtain ⟨ys, hys, hs₂, htied⟩ := hvalues s₁ u s₂ hrun
    have hbare : Tied [(.declaration .field name none, .declared b)] := .single nofun nofun
    exact ⟨ys, hys, hs₂, hbare.append htied⟩
  | @valued fs vs name value b s s' hb _ ih =>
    obtain ⟨xs, hxs, hs', hvalues⟩ := ih
    rw [State.ledger_addVariable] at hxs hs'
    refine ⟨.declared b :: xs, .cons (.declaration _ hb) hxs, hs', fun s₁ u s₂ hrun => ?_⟩
    obtain ⟨_, s₃, hfirst, hrest⟩ := run_bind_eq_ok.1 hrun
    obtain ⟨e, s₄, hread, hbind⟩ := run_bind_eq_ok.1 hfirst
    cases hbind
    obtain ⟨-, zs, hzs, hinner, hs₄⟩ := (follows_reading S value).expr s₁ e s₄ hread
    obtain ⟨ys, hys, hs₂, htied⟩ := hvalues _ u s₂ hrest
    have hgives : S.Gives (zs.foldl State.after s₁.ledger) .field name value b e :=
      hs₄ ▸ .field hb hread
    have hcourse := hzs.append (.single (.initialization hgives))
    have hafter : (s₄.bind b (some e)).ledger =
        (zs ++ [Effect.initialized b e]).foldl State.after s₁.ledger := by
      rw [List.foldl_append, ← hs₄]
      rfl
    rw [hafter] at hys hs₂
    refine ⟨zs ++ [.initialized b e] ++ ys, ?_, hs₂.trans List.foldl_append.symm, ?_⟩
    · rw [List.flatMap_cons, Tree.fieldEvents, Option.toList_some, List.flatMap_singleton]
      exact hcourse.append hys
    · refine ((Tied.pair .field name value b e).append (hinner.append htied)).congr fun x => ?_
      rw [List.flatMap_cons, Tree.fieldEvents, Option.toList_some, List.flatMap_singleton,
        hcourse.zip_append, hzs.zip_append, List.map_cons, List.zip_cons_cons]
      simp only [List.mem_append, List.mem_cons, List.zip_cons_cons, List.zip_nil_left]
      tauto

end Declares

theorem declares_declareMember (S : Source) (type : String) (m : Tree) (s : State)
    (vs : List (Binding × Tree)) (s' : State) :
    (declareMember S type m).run s = .ok (vs, s') → Declares S m.fieldParts s vs s' := by
  unfold declareMember Tree.fieldParts
  cases m.type == "field_declaration" || m.type == "constant_declaration" with
  | true =>
    intro hrun
    obtain ⟨_, _, hget, hrun⟩ := run_bind_eq_ok.1 hrun
    cases hget
    obtain ⟨values, s₁, hrun, hreturn⟩ := run_bind_eq_ok.1 hrun
    cases hreturn
    rw [List.filterMap_eq_flatMap_toList]
    refine .mapM (fun d _ s a s' => ?_) hrun
    cases d.1.child? "name" with
    | none => exact nofun
    | some n =>
      intro hrun
      cases hrun
      cases d.1.child? "value" with
      | none => exact .bare ⟨s, _, _, rfl⟩ (.nil _)
      | some v => exact .valued ⟨s, _, _, rfl⟩ (.nil _)
  | false =>
    cases m.type == "enum_constant" with
    | true =>
      cases m.child? "name" with
      | none => exact nofun
      | some n =>
        intro hrun
        cases hrun
        exact .bare ⟨s, _, _, rfl⟩ (.nil _)
    | false =>
      intro hrun
      cases hrun
      exact .nil s

theorem follows_readFields (S : Source) (type : String) (members : List Tree) :
    Follows S ((members.flatMap Tree.fieldParts).map (fun f => .declaration .field f.1 f.2)
        ++ .fields :: (members.flatMap Tree.fieldParts).flatMap Tree.fieldEvents)
      (readFields S type members) fun _ => True := by
  intro s u s' hrun
  obtain ⟨values, s₁, hdeclare, hrun⟩ := run_bind_eq_ok.1 hrun
  obtain ⟨_, s₂, hpublish, hread⟩ := run_bind_eq_ok.1 hrun
  cases hpublish
  have hdeclares : Declares S (members.flatMap Tree.fieldParts) s (values.flatMap id) s₁ :=
    .mapM (fun m _ => declares_declareMember S type m) hdeclare
  rw [List.flatMap_id] at hdeclares
  obtain ⟨xs, hxs, hs₁, hvalues⟩ := hdeclares.follows
  obtain ⟨ys, hys, hs', htied⟩ := hvalues (s₁.addFields type) u s' hread
  have hpublished : (s₁.addFields type).ledger =
      (xs ++ [Effect.published type]).foldl State.after s.ledger := by
    rw [List.foldl_append, ← hs₁]
    rfl
  have hcourse := hxs.append (.single (.fields type))
  rw [hpublished] at hys hs'
  refine ⟨trivial, xs ++ [.published type] ++ ys, ?_, ?_, hs'.trans List.foldl_append.symm⟩
  · rw [List.append_cons]
    exact hcourse.append hys
  · have hfields : Tied [(.fields, .published type)] := .single nofun nofun
    refine (hfields.append htied).congr fun x => ?_
    rw [List.append_cons, hcourse.zip_append, hxs.zip_append]
    simp only [List.mem_append]
    tauto

/-- **Reading a type** follows the events of the type. -/
theorem follows_readType (S : Source) (t : Tree) :
    Follows S t.typeEvents (readType S t) fun _ => True := by
  induction hsize : t.size using Nat.strongRecOn generalizing t with
  | ind n ih =>
    have hmember : ∀ type, ∀ m ∈ t.members,
        Follows S m.1.memberEvents (readMember S type m.1) fun _ => True := by
      intro type m _
      unfold Tree.memberEvents readMember Tree.isMethod
      cases m.1.type == "method_declaration" with
      | true => exact follows_readMethod S type false m.1
      | false =>
        cases constructorTypes.contains m.1.type with
        | true => exact follows_readMethod S type true m.1
        | false =>
          cases m.1.isTypeDeclaration with
          | true => exact ih m.1.size (hsize ▸ m.2) m.1 rfl
          | false => exact .pure trivial
    intro s a s' hrun
    rw [run_readType S t s rfl] at hrun
    obtain ⟨p, hmembers, hleave⟩ := bind_eq_ok_iff.1 hrun
    cases hleave
    have hinside : Follows S
        ((t.members.flatMap (·.1.fieldParts)).map (fun f => .declaration .field f.1 f.2)
          ++ .fields :: (t.members.flatMap (·.1.fieldParts)).flatMap Tree.fieldEvents
          ++ t.members.flatMap (·.1.memberEvents))
        (readMembers S (readName s.localTypes s.currentClass (S.nameOf t)) t) fun _ => True := by
      have hfields := follows_readFields S (readName s.localTypes s.currentClass (S.nameOf t))
        (t.members.map (·.1))
      rw [List.flatMap_map] at hfields
      exact hfields.bind fun _ _ => .forM (hmember _)
    rw [Tree.typeEvents_eq]
    refine ⟨trivial, .append (.single .opening (.single nofun nofun) ?_)
      ((hinside _ _ _ hmembers).2.append (.single .closing (.single nofun nofun) rfl))⟩
    rfl

/-- **Reading a unit** follows the events of the unit. -/
theorem follows_readUnit {S : Source} {root : Tree} {s : State}
    (hrun : (readUnit S root).run {} = .ok ((), s)) :
    ∃ effects, Course S {} root.unitEvents effects ∧ Tied (root.unitEvents.zip effects) ∧
      s.ledger = effects.foldl State.after {} := by
  have hfresh := fresh_collected S root
  have hstart : (collected S root).ledger = {} := by
    rw [State.ledger, hfresh.scopes, hfresh.fields, hfresh.initialized, hfresh.bindings]
  obtain ⟨-, effects, hcourse, htied, hs⟩ := Chronicle.Follows.forM (l := root.types)
    (fun t _ => follows_readType S t) _ _ _ (run_readUnit hrun)
  rw [hstart] at hcourse hs
  exact ⟨effects, hcourse, htied, hs⟩

end TaintFlow.Java
