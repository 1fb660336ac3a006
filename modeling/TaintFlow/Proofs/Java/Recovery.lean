import TaintFlow.Java.Unit
import TaintFlow.Proofs.Java.Following
import TaintFlow.Proofs.Java.Surroundings

/-!
# Reading recovered trees

A parser that recovers from a mistake leaves nodes without some of their children, or with children of
any type in their places.  Reading does without most of them.  Four can not be missing
(`Tree.HasParts`): the parameters of a method, the names of declared variables and of the constants of
an enumeration, and whatever stands in a labeled statement.

* `succeeds_readUnit` : a tree whose nodes have these can be read, from any state.
* `Course.finds_scopes` : no variable is declared and no scope is closed where no scope is open.
* `recovered_trees_are_read` : so every such tree gives a unit.
-/

namespace TaintFlow.Java

open TaintFlow.Code

/-! ### Complete trees -/

instance (t : Tree) : Decidable t.HasParts :=
  decidable_of_iff
    ((t.isTypeDeclaration = true → ∀ m ∈ t.members, m.1.type = "method_declaration" →
        (m.1.child? "parameters").isSome = true) ∧
      (t.type ∈ declaratorTypes → ∀ d ∈ t.childrenIn "declarator",
        (d.1.child? "name").isSome = true) ∧
      (t.isTypeDeclaration = true → ∀ m ∈ t.members, m.1.type = "enum_constant" →
        (m.1.child? "name").isSome = true) ∧
      (t.type = "labeled_statement" → t.content.isEmpty = false))
    ⟨fun h => ⟨h.1, h.2.1, h.2.2.1, fun ht => List.isEmpty_eq_false_iff.1 (h.2.2.2 ht)⟩,
      fun h => ⟨h.parameters, h.declarators, h.constants,
        fun ht => List.isEmpty_eq_false_iff.2 (h.label ht)⟩⟩

namespace Tree

variable {t : Tree}

/-- All nodes of a tree can be looked at one after the other. -/
theorem complete_iff : t.Complete ↔ t.all (fun n => decide n.HasParts) = true := by
  constructor
  · induction hsize : t.size using Nat.strongRecOn generalizing t with
    | ind k ih =>
      intro h
      refine all_eq_true.2 ⟨decide_eq_true (h t .refl), fun c hc => ?_⟩
      exact ih c.1.size (hsize ▸ c.2) rfl (h.of_inside (inside_of_mem_parts hc))
  · intro h n hn
    induction hn with
    | refl => exact of_decide_eq_true (all_eq_true.1 h).1
    | child hc _ ih => exact ih (all_of_mem h hc)

instance : Decidable t.Complete :=
  decidable_of_iff _ complete_iff.symm

end Tree

open TaintFlow.Java.Tree

/-! ### Units that can be read -/

namespace Read

/-- From every state the step succeeds. -/
def Succeeds {α : Type} (step : Read α) : Prop :=
  ∀ s, ∃ a s', step.run s = .ok (a, s')

namespace Succeeds

variable {α β : Type}

theorem bind {step : Read α} {next : α → Read β} (h : Succeeds step)
    (hnext : ∀ a, Succeeds (next a)) : Succeeds (step >>= next) := by
  intro s
  obtain ⟨a, s₁, hstep⟩ := h s
  obtain ⟨b, s₂, hrest⟩ := hnext a s₁
  exact ⟨b, s₂, run_bind_eq_ok.2 ⟨a, s₁, hstep, hrest⟩⟩

theorem get : Succeeds (MonadState.get : Read State) :=
  fun s => ⟨s, s, rfl⟩

theorem set (s : State) : Succeeds (MonadStateOf.set s : Read PUnit) :=
  fun _ => ⟨(), s, rfl⟩

theorem modify (f : State → State) : Succeeds (modifyThe State f : Read PUnit) :=
  fun s => ⟨(), f s, rfl⟩

theorem forM {l : List β} {f : β → Read PUnit} (h : ∀ x ∈ l, Succeeds (f x)) :
    Succeeds (l.forM f) := by
  induction l with
  | nil => exact fun s => ⟨(), s, rfl⟩
  | cons x l ih =>
    obtain ⟨hx, hl⟩ := List.forall_mem_cons.1 h
    exact hx.bind fun _ => ih hl

end Succeeds

end Read

open Read

theorem succeeds_collect (S : Source) (around : String) {t : Tree} (h : t.Complete)
    (ht : t.isTypeDeclaration = true) : Succeeds (collect S around t) := by
  induction hsize : t.size using Nat.strongRecOn generalizing around t with
  | ind n ih =>
    have htype : Succeeds (collectType S around t) := fun s => ⟨_, _, rfl⟩
    rw [collect]
    refine htype.bind fun qualified => .forM fun m hm => ?_
    split
    · rename_i hnested
      exact ih m.1.size (hsize ▸ m.2) qualified (h.of_inside (inside_of_mem_members hm)) hnested rfl
    · split
      · rename_i hmethod
        have hparameters := (h t .refl).parameters ht m hm (beq_iff_eq.1 hmethod)
        exact Succeeds.bind (Tame.require (.inr hparameters)).exists_run fun _ => .modify _
      · exact fun s => ⟨(), s, rfl⟩

theorem succeeds_readMethod (S : Source) (type : String) (isConstructor : Bool) {m : Tree}
    (h : m.Complete) : Succeeds (readMethod S type isConstructor m) := by
  intro s
  have hbody : Tame False (methodBody S (readParameters S s m) m) := tame_methodBody S _ (.inr h.sound)
  obtain ⟨body, s', hrun⟩ := hbody.exists_run
    (s.enterMethod (signatureOf S type m (readParameters S s m)))
  rw [run_readMethod, hrun]
  exact ⟨(), _, rfl⟩

/-- The values of fields stand in their declarations. -/
theorem Declares.exists_value {S : Source} {fs : List (Tree × Option Tree)} {s s' : State}
    {vs : List (Binding × Tree)} (h : Declares S fs s vs s') :
    ∀ v ∈ vs, ∃ f ∈ fs, f.2 = some v.2 := by
  induction h with
  | nil => exact nofun
  | bare _ _ ih =>
    intro v hv
    obtain ⟨f, hf, heq⟩ := ih v hv
    exact ⟨f, List.mem_cons_of_mem _ hf, heq⟩
  | valued _ _ ih =>
    refine List.forall_mem_cons.2 ⟨⟨_, List.mem_cons_self, rfl⟩, fun v hv => ?_⟩
    obtain ⟨f, hf, heq⟩ := ih v hv
    exact ⟨f, List.mem_cons_of_mem _ hf, heq⟩

theorem succeeds_readFields (S : Source) (type : String) {t : Tree} (h : t.Complete)
    (ht : t.isTypeDeclaration = true) :
    Succeeds (readFields S type (t.members.map (·.1))) := by
  have hdeclare : Tame False ((t.members.map (·.1)).mapM (declareMember S type)) := by
    refine .mapM fun m hm => ?_
    obtain ⟨m', hm', rfl⟩ := List.mem_map.1 hm
    exact tame_declareMember S type (.inr (h _ (inside_of_mem_members hm')))
      fun htype => .inr ((h t .refl).constants ht m' hm' htype)
  intro s
  obtain ⟨values, s₁, hrun⟩ := hdeclare.exists_run s
  have hfields : Declares S _ s (values.flatMap id) s₁ :=
    .mapM (fun m _ => declares_declareMember S type m) hrun
  have hinside : ∀ x ∈ values.flatten, x.2.Inside t := by
    intro x hx
    rw [← List.flatMap_id] at hx
    obtain ⟨f, hf, hvalue⟩ := hfields.exists_value x hx
    obtain ⟨m, hm, hf⟩ := List.mem_flatMap.1 hf
    obtain ⟨m', hm', rfl⟩ := List.mem_map.1 hm
    exact ((inside_of_mem_fieldParts hf).2 _ hvalue).trans (inside_of_mem_members hm')
  have hread : Succeeds (values.flatten.forM fun x => do
      let e ← (reading S x.2).asExpr
      modify (·.bind x.1 (some e)) : Read PUnit) :=
    .forM fun x hx => Succeeds.bind (tame_reading S (.inr (h.of_inside (hinside x hx)).sound)).expr.exists_run
      fun _ => .modify _
  obtain ⟨_, s₂, hrest⟩ := hread (s₁.addFields type)
  exact ⟨(), s₂, run_bind_eq_ok.2 ⟨values, s₁, hrun, run_bind_eq_ok.2 ⟨(), _, rfl, hrest⟩⟩⟩

theorem succeeds_readType (S : Source) {t : Tree} (h : t.Complete)
    (ht : t.isTypeDeclaration = true) : Succeeds (readType S t) := by
  induction hsize : t.size using Nat.strongRecOn generalizing t with
  | ind n ih =>
    rw [readType]
    refine .bind .get fun outer => .bind (.set _) fun _ => ?_
    refine (succeeds_readFields S _ h ht).bind fun _ => ?_
    refine .bind (.forM fun m hm => ?_) fun _ => .modify _
    have hm := h.of_inside (inside_of_mem_members hm)
    split
    · exact succeeds_readMethod S _ _ hm
    · split
      · exact succeeds_readMethod S _ _ hm
      · split
        · rename_i hnested
          exact ih m.1.size (hsize ▸ m.2) hm hnested rfl
        · exact fun s => ⟨(), s, rfl⟩

/-- **Reading a unit** succeeds, if its tree is complete. -/
theorem succeeds_readUnit (S : Source) {root : Tree} (h : root.Complete) :
    Succeeds (readUnit S root) := by
  have htypes : ∀ t ∈ (root.content.map (·.1)).filter isTypeDeclaration,
      t.Complete ∧ t.isTypeDeclaration = true := by
    intro t ht
    obtain ⟨ht, hdeclares⟩ := List.mem_filter.1 ht
    obtain ⟨c, hc, rfl⟩ := List.mem_map.1 ht
    exact ⟨h.of_inside (inside_of_mem_content hc), hdeclares⟩
  refine .bind (.modify _) fun _ => .bind (.forM fun t ht => ?_) fun _ => .forM fun t ht => ?_
  · exact succeeds_collect S "" (htypes t ht).1 (htypes t ht).2
  · exact succeeds_readType S (htypes t ht).1 (htypes t ht).2

/-! ### Scopes -/

/-- Whether an effect needs a scope to be open. -/
def Effect.needsScope : Effect → Bool
  | .declared _ | .closed => true
  | _ => false

/-- From the state on, each of the effects finds the scope that it needs. -/
def State.Affords (s : State) : List Effect → Prop
  | [] => True
  | x :: xs => (x.needsScope = true → s.scopes ≠ []) ∧ (s.after x).Affords xs

theorem State.affords_append {s : State} {xs ys : List Effect} :
    s.Affords (xs ++ ys) ↔ s.Affords xs ∧ (xs.foldl State.after s).Affords ys := by
  induction xs generalizing s with
  | nil => exact ⟨fun h => ⟨trivial, h⟩, fun h => h.2⟩
  | cons x xs ih =>
    rw [List.cons_append, Affords, Affords, List.foldl_cons, ih, and_assoc]

/-- **No variable is declared and no scope is closed where none is open**: a course whose events
expose nothing, or that starts in a scope, finds all the scopes that it needs. -/
theorem Course.finds_scopes {S : Source} {s : State} {ns : List (VariableKind × Tree)}
    {es : List Event} {xs : List Effect} (h : Course S s es xs) (hes : Exposes ns es)
    (hs : ns = [] ∨ s.scopes ≠ []) : s.Affords xs := by
  induction hes generalizing s xs with
  | nil =>
    cases h
    trivial
  | @append ns ns' es es' hes _ ih ih' =>
    obtain ⟨ys, zs, rfl, hys, hzs⟩ := h.exists_append
    rw [List.append_eq_nil_iff] at hs
    refine State.affords_append.2 ⟨ih hys (hs.imp_left And.left), ih' hzs ?_⟩
    refine hs.imp And.right fun hs hnil => hs ?_
    -- the events before expose variables, but leave as many scopes open
    obtain ⟨bs, -, hscopes⟩ := hys.scopes_of_exposes hes
    have hlength := (s.tail_scopes_addVariables bs).2
    rw [← hscopes, hnil] at hlength
    exact List.length_eq_zero_iff.1 hlength.symm
  | declaration kind name value =>
    cases h with
    | cons hx hrest =>
      cases hrest
      exact ⟨fun _ => hs.resolve_left (List.cons_ne_nil _ _), trivial⟩
  | initialization kind name value | assignment node | fields =>
    cases h with
    | cons hx hrest =>
      cases hrest
      cases hx
      exact ⟨fun hneeds => (Bool.false_ne_true hneeds).elim, trivial⟩
  | scope hes ih =>
    cases h with
    | cons hopen hrest =>
      cases hopen
      obtain ⟨ys, zs, rfl, hys, hzs⟩ := hrest.exists_append
      have hpushed : s.pushScope.scopes ≠ [] := List.cons_ne_nil _ _
      refine ⟨fun hneeds => (Bool.false_ne_true hneeds).elim,
        State.affords_append.2 ⟨ih hys (.inr hpushed), ?_⟩⟩
      cases hzs with
      | cons hclose hnil =>
        cases hnil
        refine ⟨fun _ hempty => hpushed ?_, trivial⟩
        obtain ⟨bs, -, hscopes⟩ := hys.scopes_of_exposes hes
        have hlength := ((s.after .opened).tail_scopes_addVariables bs).2
        rw [← hscopes, hempty] at hlength
        exact List.length_eq_zero_iff.1 hlength.symm

theorem exposes_unitEvents (root : Tree) : Exposes [] root.unitEvents :=
  .flatMap_nil fun t _ => exposes_typeEvents t

/-! ### Units -/

/-- **Recovered trees are read**: whatever children are missing, misplaced or of an unexpected type,
a tree in which methods have parameters, declarators and constants have names and labeled statements
are not empty gives a unit, and no variable is declared outside of every scope on the way. -/
theorem recovered_trees_are_read (directive path text : String) {tree : Tree} (h : tree.Complete)
    (hasErrors : Bool) :
    ∃ u effects, unitOf directive path text tree hasErrors = .ok u ∧ u.path = path ∧
      u.hasErrors = hasErrors ∧ u.trustedLines = trustedLines directive text ∧
      Course (.ofText path text) {} tree.unitEvents effects ∧ ({} : State).Affords effects ∧
      u.bindings = (effects.foldl State.after {}).bindings := by
  obtain ⟨_, s, hrun⟩ := succeeds_readUnit (.ofText path text) h {}
  obtain ⟨effects, hcourse, -, hledger⟩ := follows_readUnit hrun
  have hbindings : s.ledger.bindings = (effects.foldl State.after {}).bindings :=
    congrArg State.bindings hledger
  have hafford := hcourse.finds_scopes (exposes_unitEvents tree) (.inl rfl)
  rw [unitOf, unitOfTree, hrun]
  exact ⟨_, effects, rfl, rfl, rfl, rfl, hcourse, hafford, hbindings⟩

/-- A recovered tree: a type without a name has a constant, a field without a type, and a method with
neither name nor type, whose body has an addition of one operand, a catch clause without anything to
catch, and a mistake after a label. -/
def recoveredTree : Tree :=
  let name : Tree := ⟨"identifier", 6, 7, true, some "name", []⟩
  let sum : Tree :=
    ⟨"binary_expression", 8, 30, true, some "value", [⟨"identifier", 6, 7, true, some "left", []⟩]⟩
  let declarator : Tree := ⟨"variable_declarator", 6, 9, true, some "declarator", [name, sum]⟩
  let body : Tree :=
    ⟨"block", 10, 20, true, some "body",
      [⟨"local_variable_declaration", 5, 9, true, none, [declarator]⟩,
        ⟨"try_statement", 12, 11, true, none, [⟨"catch_clause", 0, 0, true, none, []⟩]⟩,
        ⟨"labeled_statement", 14, 15, true, none, [⟨"ERROR", 14, 15, true, none, []⟩]⟩]⟩
  let members : List Tree :=
    [⟨"enum_constant", 3, 9, true, none, [name]⟩,
      ⟨"field_declaration", 5, 9, true, none, [declarator]⟩,
      ⟨"method_declaration", 5, 20, true, none,
        [⟨"formal_parameters", 9, 10, true, some "parameters", []⟩, body]⟩]
  ⟨"program", 0, 20, true, none,
    [⟨"class_declaration", 0, 20, true, none,
      [⟨"class_body", 4, 20, true, some "body", members⟩]⟩]⟩

theorem recoveredTree_is_read :
    recoveredTree.Complete ∧ ∃ u effects,
      unitOf defaultDirective "A.java" "class A\n b = c +" recoveredTree true = .ok u ∧
        u.path = "A.java" ∧ u.hasErrors = true ∧
        u.trustedLines = trustedLines defaultDirective "class A\n b = c +" ∧
        Course (.ofText "A.java" "class A\n b = c +") {} recoveredTree.unitEvents effects ∧
        ({} : State).Affords effects ∧
        u.bindings = (effects.foldl State.after {}).bindings := by
  have h : recoveredTree.Complete := by decide +kernel
  exact ⟨h, recovered_trees_are_read defaultDirective "A.java" "class A\n b = c +" h true⟩

end TaintFlow.Java
