import TaintFlow.Proofs.Java.Surroundings
import TaintFlow.Proofs.Java.Targets
import TaintFlow.Proofs.Java.Written

/-!
# The last assignment wins

A local variable without an initializer has the value of the plain assignment to it that is read last.
It is the only variable at its place of the text, so that nothing else is visible under its name in its
scope (`State.Knows`), and the events tell which assignments are made to it (`Watched`).  Reading goes
along the text, with one exception: the condition of a do statement is read before its body.

* `Course.get?_of_quiet` : a variable keeps its value where no plain assignment is made to it.
* `last_assignment_wins` : what this says of every method of a unit that can be read.
* `condition_of_do_loses` : the exception.
-/

namespace TaintFlow.Java

open TaintFlow.Code

/-! ### What a state knows of a local variable -/

/-- Whether the assignment at a node is a plain one. -/
def Source.isPlain (S : Source) (a : Tree) : Bool :=
  S.textOf (a.child? "operator") == "="

/-- The kind and the name of the variable that is declared or initialized at an event. -/
def Event.subject? : Event → Option (VariableKind × Tree)
  | .declaration kind name _ => some (kind, name)
  | .initialization kind name _ => some (kind, name)
  | _ => none

/-- The event is not about the local variable with its name at the node. -/
def Event.Spares (S : Source) (n : Tree) (e : Event) : Prop :=
  ∀ kind name, e.subject? = some (kind, name) →
    ∀ b, VariableAt S kind name b → ¬VariableAt S .localVar n b

/-- Of the variables with their name at the node, at most one is in scope and at most one has a value,
none is a field and none has an initializer. -/
def State.Knows (S : Source) (n : Tree) (visible bound : Option Binding) (s : State) : Prop :=
  s.Confines (fun b => VariableAt S .localVar n b → visible = some b)
    (fun b => ¬VariableAt S .localVar n b) (fun b => ¬VariableAt S .localVar n b)
    (fun b => VariableAt S .localVar n b → bound = some b)

theorem State.bindings_addVariable (s : State) (b : Binding) :
    (s.addVariable b).bindings = s.bindings :=
  (congrArg State.bindings (s.addVariable_eq b) :)

namespace State.Knows

variable {S : Source} {n : Tree} {visible bound : Option Binding} {s : State}

theorem of_none (h : s.Knows S n none none) (o : Option Binding) : s.Knows S n o o where
  scopes scope hscope b hb hat := absurd (h.scopes scope hscope b hb hat) (Option.some_ne_none b).symm
  fields := h.fields
  initialized := h.initialized
  bindings b hb hat := absurd (h.bindings b hb hat) (Option.some_ne_none b).symm

/-- **An effect** changes nothing of this, if its event is not about the variable. -/
theorem after (h : s.Knows S n visible bound) (hle : ∀ b, visible = some b → bound = some b)
    {e : Event} {x : Effect} (hx : Happens S s e x) (hspares : e.Spares S n)
    (hfields : e = .fields → visible = none) : (s.after x).Knows S n visible bound := by
  refine Confines.after h hx ?_ ?_ (fun b hb hat => hle b (hb hat)) (fun b hb hat => absurd hat hb) ?_
  · rintro b rfl hat
    cases hx with
    | declaration _ hb => exact absurd hat (hspares _ _ rfl b hb)
  · rintro b v rfl
    cases hx with
    | initialization hgives =>
      have hnot := hspares _ _ rfl b hgives.variableAt
      exact ⟨hnot, fun hat => absurd hat hnot⟩
  · intro he b hb hat
    rw [hfields he] at hb
    exact absurd (hb hat) (Option.some_ne_none b).symm

/-- **A value stays**, unless the event is a plain assignment to a name that refers to the variable. -/
theorem get?_after (h : s.Knows S n visible bound) {e : Event} {x : Effect} (hx : Happens S s e x)
    (hspares : e.Spares S n) {b : Binding} (hat : VariableAt S .localVar n b)
    (hnot : ∀ a l, e = .assignment a → S.isPlain a = true → a.child? "left" = some l →
      l.1.type = "identifier" → s.lookup (S.text l.1) ≠ some b) :
    (s.after x).bindings.get? b = s.bindings.get? b := by
  cases hx with
  | opening | closing | fields => rfl
  | declaration value hb => exact congrArg (Table.get? · b) (s.bindings_addVariable _)
  | @initialization _ _ _ b' _ hgives =>
    have hne : b ≠ b' := by
      rintro rfl
      exact hspares _ _ rfl _ hgives.variableAt hat
    exact (Table.get?_insert ..).trans (if_neg hne)
  | @assignment node left right hleft _ =>
    change (s.assign _ left right).bindings.get? b = _
    rcases s.assign_cases (S.textOf (node.child? "operator")) left right with
      heq | ⟨b', value, hb', -, ⟨hplain, -⟩, heq⟩
    · rw [heq]
    · have hne : b ≠ b' := by
        rintro rfl
        rcases left_or_field_of_target hleft hb' with ⟨l, hl, hname, hlookup⟩ | hfield
        · exact hnot node l rfl (beq_iff_eq.2 hplain) hl hname hlookup
        · exact Confines.hasField h hfield hat
      rw [heq]
      exact (Table.get?_insert ..).trans (if_neg hne)

end State.Knows

/-! ### Events that are watched -/

/-- Among assignments with their targets, a plain one is made at the node `a` to the local variable with
its name at `n`. -/
def Assigns (S : Source) (n : Tree) (l : List (Tree × Option (VariableKind × Tree))) (a : Tree) :
    Prop :=
  (a, some (.localVar, n)) ∈ l ∧ S.isPlain a = true

/-- The assignment is the last one of these. -/
def AssignsLast (S : Source) (n : Tree) (l : List (Tree × Option (VariableKind × Tree)))
    (a : Tree) : Prop :=
  ∃ earlier later, l = earlier ++ (a, some (.localVar, n)) :: later ∧ S.isPlain a = true ∧
    ∀ a', ¬Assigns S n later a'

/-- The value that the last one of these gives to the variable, if there is one. -/
def LastValue (S : Source) (n : Tree) (l : List (Tree × Option (VariableKind × Tree))) :
    Option Expr → Prop
  | none => ∀ a, ¬Assigns S n l a
  | some e => ∃ a v, AssignsLast S n l a ∧ a.child? "right" = some v ∧ S.Reads v.1 e

/-- The names in scope are known, and all that the state knows of the local variable. -/
structure Watched (S : Source) (n : Tree) (names : Names) (visible bound : Option Binding)
    (s : State) : Prop where
  tracks : names.Tracks S s.scopes
  /-- The name of the variable is the only one at its place. -/
  tells : ∀ p ∈ names.flatten, ∀ b, VariableAt S p.1 p.2 b → VariableAt S .localVar n b →
    p = (.localVar, n)
  knows : s.Knows S n visible bound

section

variable {S : Source} {n : Tree} {names : Names} {visible bound : Option Binding} {s : State}
  {es : List Event} {xs : List Effect}

theorem Watched.after (h : Watched S n names visible bound s)
    (hle : ∀ b, visible = some b → bound = some b) {e : Event} {x : Effect} (hx : Happens S s e x)
    (hspares : e.Spares S n) (hfields : e = .fields → visible = none) :
    Watched S n (names.after e) visible bound (s.after x) where
  tracks := h.tracks.after hx
  tells p hp b hb hat := by
    rcases Names.mem_after hp with hp | ⟨v, rfl⟩
    · exact h.tells p hp b hb hat
    · exact absurd hat (hspares p.1 p.2 rfl b hb)
  knows := h.knows.after hle hx hspares hfields

/-- The variable is declared. -/
theorem Watched.declare (h : Watched S n names none none s) {b : Binding}
    (hb : VariableAt S .localVar n b) :
    Watched S n (names.after (.declaration .localVar n none)) (some b) (some b) (s.addVariable b) where
  tracks := h.tracks.after (.declaration none hb)
  tells p hp b' hb' hat := by
    rcases Names.mem_after hp with hp | ⟨v, heq⟩
    · exact h.tells p hp b' hb' hat
    · obtain ⟨hkind, hname, -⟩ := Event.declaration.inj heq
      exact Prod.ext hkind.symm hname.symm
  knows := State.Confines.addVariable (h.knows.of_none (some b)) fun _ => rfl

theorem Course.watched (h : Course S s es xs)
    (hw : Watched S n names visible bound s) (hle : ∀ b, visible = some b → bound = some b)
    (hspares : ∀ e ∈ es, e.Spares S n) (hfields : .fields ∈ es → visible = none) :
    Watched S n (es.foldl Names.after names) visible bound (xs.foldl State.after s) := by
  induction h generalizing names with
  | nil => exact hw
  | cons hx _ ih =>
    refine ih (hw.after hle hx (hspares _ List.mem_cons_self) fun he => hfields ?_)
      (fun e he => hspares e (List.mem_cons_of_mem _ he)) fun he => hfields (List.mem_cons_of_mem _ he)
    rw [he]
    exact List.mem_cons_self

/-- A name that refers to the variable is a target of assignments to it. -/
theorem Watched.target?_eq (h : Watched S n names visible bound s) {a : Tree} {l : Subtree a}
    (hl : a.child? "left" = some l) (hname : l.1.type = "identifier") {b : Binding}
    (hlookup : s.lookup (S.text l.1) = some b) (hat : VariableAt S .localVar n b) :
    names.target? S a = some (.localVar, n) := by
  have hrel := h.tracks.lookup (S.text l.1)
  rw [hlookup] at hrel
  generalize hresolve : names.resolve S (S.text l.1) = p at hrel
  cases hrel with
  | some hb =>
    rw [h.tells _ (Names.mem_of_resolve hresolve) b hb hat] at hresolve
    exact Names.target?_eq_some.2 ⟨l, hl, hname, hresolve⟩

/-- **A variable keeps its value** where no plain assignment is made to it. -/
theorem Course.get?_of_quiet (h : Course S s es xs)
    (hw : Watched S n names visible bound s) (hle : ∀ b, visible = some b → bound = some b)
    (hspares : ∀ e ∈ es, e.Spares S n) (hfields : .fields ∈ es → visible = none)
    (hquiet : ∀ a, ¬Assigns S n (targets S names es) a) {b : Binding} (hat : VariableAt S .localVar n b) :
    (xs.foldl State.after s).bindings.get? b = s.bindings.get? b := by
  induction h generalizing names with
  | nil => rfl
  | @cons s e x es xs hx _ ih =>
    -- an assignment that changed the value would be one to this variable
    have hspares' := hspares e List.mem_cons_self
    have hfields' : e = .fields → visible = none := by
      rintro rfl
      exact hfields List.mem_cons_self
    have hstep : (s.after x).bindings.get? b = s.bindings.get? b := by
      refine hw.knows.get?_after hx hspares' hat ?_
      rintro a l rfl hplain hl hname hlookup
      refine hquiet a ⟨?_, hplain⟩
      rw [targets_cons_assignment, hw.target?_eq hl hname hlookup hat]
      exact List.mem_cons_self
    rw [List.foldl_cons, ih (hw.after hle hx hspares' hfields')
      (fun e he => hspares e (List.mem_cons_of_mem _ he))
      (fun he => hfields (List.mem_cons_of_mem _ he))
      fun a ha => hquiet a ⟨List.mem_append_right _ ha.1, ha.2⟩, hstep]

/-- **A plain assignment to the variable** gives it the value on the right side. -/
theorem Watched.get?_of_assignment {b : Binding} (h : Watched S n names (some b) bound s)
    (hat : VariableAt S .localVar n b) {a : Tree} {x : Effect} (hx : Happens S s (.assignment a) x)
    (htarget : names.target? S a = some (.localVar, n)) (hplain : S.isPlain a = true)
    {v : Subtree a} (hv : a.child? "right" = some v) :
    ∃ e, (s.after x).bindings.get? b = some e ∧ S.Reads v.1 e := by
  obtain ⟨l, hl, hname, hresolve⟩ := Names.target?_eq_some.1 htarget
  cases hx with
  | @assignment _ left right hleft hright =>
    rw [hl] at hleft
    rw [hv] at hright
    cases hleft with
    | @some _ el hel =>
    cases hright with
    | @some _ e he =>
      have htarget : State.target? (some el) = s.lookup (S.text l.1) := by
        obtain ⟨s₀, s₁, hscopes, -, hrun⟩ := hel
        rw [run_identifier S hname] at hrun
        cases hrun
        exact State.lookup_congr hscopes _
      have hrel := h.tracks.lookup (S.text l.1)
      rw [hresolve] at hrel
      generalize hlookup : s.lookup (S.text l.1) = found at hrel
      cases hrel with
      | @some _ b' hb' =>
        obtain rfl := Option.some.inj (State.Confines.lookup h.knows hlookup hb')
        refine ⟨e, ?_, he.reads⟩
        have hkind : b.kind ≠ .parameter := by
          rw [hat.kind_eq]
          decide
        have hnot : b ∉ s.initialized := fun hmem => h.knows.initialized b hmem hat
        change (s.assign (S.textOf (a.child? "operator")) (some el) (some e)).bindings.get? b = some e
        simp [State.assign, htarget.trans hlookup, eq_of_beq hplain, hkind, hnot, Table.get?_insert]

/-- Of the plain assignments to a variable one is the last. -/
theorem exists_last_of_assigns {es : List Event} (h : ∃ a, Assigns S n (targets S names es) a) :
    ∃ es₁ a es₂, es = es₁ ++ .assignment a :: es₂ ∧
      (es₁.foldl Names.after names).target? S a = some (.localVar, n) ∧ S.isPlain a = true ∧
      ∀ a', ¬Assigns S n (targets S (es₁.foldl Names.after names) es₂) a' := by
  induction es generalizing names with
  | nil =>
    obtain ⟨a, ha, -⟩ := h
    cases ha
  | cons e es ih =>
    by_cases hlater : ∃ a, Assigns S n (targets S (names.after e) es) a
    · obtain ⟨es₁, a, es₂, rfl, htarget, hplain, hnone⟩ := ih hlater
      exact ⟨e :: es₁, a, es₂, rfl, htarget, hplain, hnone⟩
    · obtain ⟨a, ha, hplain⟩ := h
      rcases List.mem_append.1 ha with ha | ha
      · obtain ⟨a', ha', heq⟩ := List.mem_map.1 ha
        obtain ⟨rfl, htarget⟩ := Prod.mk.inj heq
        obtain rfl := Event.assignment?_eq_some.1 (Option.mem_toList.1 ha')
        exact ⟨[], a', es, rfl, htarget, hplain, not_exists.1 hlater⟩
      · exact absurd ⟨a, ha, hplain⟩ hlater

/-- **In its scope** a variable gets the value of the last plain assignment. -/
theorem Course.lastValue (h : Course S s es xs) {b : Binding}
    (hat : VariableAt S .localVar n b) (hw : Watched S n names (some b) (some b) s)
    (hspares : ∀ e ∈ es, e.Spares S n) (hfields : .fields ∉ es)
    (hright : ∀ a, .assignment a ∈ es → ∃ v, a.child? "right" = some v)
    (hnone : s.bindings.get? b = none) :
    LastValue S n (targets S names es) ((xs.foldl State.after s).bindings.get? b) := by
  -- the events split at the last assignment, and after it the value stays
  by_cases hsome : ∃ a, Assigns S n (targets S names es) a
  · obtain ⟨es₁, a, es₂, rfl, htarget, hplain, hquiet⟩ := exists_last_of_assigns hsome
    obtain ⟨hspares₁, hspares₂⟩ := List.forall_mem_append.1 hspares
    obtain ⟨hspares₀, hspares₂⟩ := List.forall_mem_cons.1 hspares₂
    have hfields₁ : .fields ∉ es₁ := fun he => hfields (List.mem_append_left _ he)
    have hfields₂ : .fields ∉ es₂ := fun he =>
      hfields (List.mem_append_right _ (List.mem_cons_of_mem _ he))
    obtain ⟨v, hv⟩ := hright a (List.mem_append_right _ List.mem_cons_self)
    obtain ⟨ys, zs, rfl, hys, hzs⟩ := h.exists_append
    have hw₁ := hys.watched hw (fun _ => id) hspares₁ fun he => absurd he hfields₁
    cases hzs with
    | cons hx hrest =>
      have hw₂ := hw₁.after (fun _ => id) hx hspares₀ fun he => by cases he
      obtain ⟨e, he, hreads⟩ := hw₁.get?_of_assignment hat hx htarget hplain hv
      have hkeeps := hrest.get?_of_quiet hw₂ (fun _ => id) hspares₂ (fun he => absurd he hfields₂)
        hquiet hat
      have hlast : AssignsLast S n (targets S names (es₁ ++ .assignment a :: es₂)) a := by
        rw [targets_append, targets_cons_assignment, htarget]
        exact ⟨_, _, rfl, hplain, hquiet⟩
      rw [List.foldl_append, List.foldl_cons, hkeeps, he]
      exact ⟨a, v, hlast, hv, hreads⟩
  · have hquiet := not_exists.1 hsome
    rw [h.get?_of_quiet hw (fun _ => id) hspares (fun he => absurd he hfields) hquiet hat, hnone]
    exact hquiet

theorem not_spares_declaration (S : Source) (n : Tree) (v : Option Tree) :
    ¬(Event.declaration .localVar n v).Spares S n := by
  intro h
  have hat : VariableAt S .localVar n (newVariable S {} (S.text n) .localVar none n 0) :=
    ⟨{}, none, 0, rfl⟩
  exact h .localVar n rfl _ hat hat

/-- Events that are not about the variable do not bring its name into scope. -/
theorem notMem_of_spares (hnames : (.localVar, n) ∉ names.flatten) {es : List Event}
    (hspares : ∀ e ∈ es, e.Spares S n) : (.localVar, n) ∉ (es.foldl Names.after names).flatten := by
  intro hmem
  rcases Names.mem_foldl_after hmem with hmem | ⟨v, hv⟩
  · exact hnames hmem
  · exact not_spares_declaration S n v (hspares _ hv)

/-- Where the variable is neither in scope nor declared, nothing is assigned to it. -/
theorem not_assigns_of_spares (hnames : (.localVar, n) ∉ names.flatten) {es : List Event}
    (hspares : ∀ e ∈ es, e.Spares S n) (a : Tree) : ¬Assigns S n (targets S names es) a := by
  rintro ⟨ha, -⟩
  rcases mem_of_mem_targets ha with hmem | ⟨v, hv⟩
  · exact hnames hmem
  · exact not_spares_declaration S n v (hspares _ hv)

end

theorem AssignsLast.append {S : Source} {n : Tree} {l : List (Tree × Option (VariableKind × Tree))}
    {a : Tree} (h : AssignsLast S n l a) (first : List (Tree × Option (VariableKind × Tree)))
    {last : List (Tree × Option (VariableKind × Tree))} (hlast : ∀ a, ¬Assigns S n last a) :
    AssignsLast S n (first ++ l ++ last) a := by
  obtain ⟨earlier, later, rfl, hplain, hnone⟩ := h
  refine ⟨first ++ earlier, later ++ last, by simp, hplain, fun a' ha' => ?_⟩
  rcases List.mem_append.1 ha'.1 with hmem | hmem
  · exact hnone a' ⟨hmem, ha'.2⟩
  · exact hlast a' ⟨hmem, ha'.2⟩

theorem AssignsLast.mem_events {S : Source} {n a : Tree} {names : Names} {es : List Event}
    (h : AssignsLast S n (targets S names es) a) : .assignment a ∈ es := by
  obtain ⟨earlier, later, heq, -, -⟩ := h
  have hmem : a ∈ es.filterMap Event.assignment? := by
    rw [← map_fst_targets S names, heq]
    simp
  obtain ⟨e, he, ha⟩ := List.mem_filterMap.1 hmem
  rwa [Event.assignment?_eq_some.1 ha] at he

/-! ### The scope of a local variable -/

/-- Events around the declaration of a local variable without an initializer: those before and after it
in its method, and those around the method. -/
structure Declared (S : Source) (n : Tree) (before early late after : List Event) : Prop where
  exposes : Exposes [] (early ++ .declaration .localVar n none :: late)
  fields : .fields ∉ late
  outside : ∀ e ∈ before ++ after, e.Spares S n
  inside : ∀ e ∈ early ++ late, e.Spares S n

namespace Declared

variable {S : Source} {n : Tree} {before early late after : List Event}

/-- The names in scope right after the declaration. -/
def names (n : Tree) (before early : List Event) : Names :=
  Names.after (early.foldl Names.after (before.foldl Names.after [])) (.declaration .localVar n none)

/-- Assignments to the variable are made after its declaration, in the same method. -/
theorem exists_targets_eq (h : Declared S n before early late after) :
    ∃ first last,
      targets S [] (before ++ (early ++ .declaration .localVar n none :: late) ++ after) =
        first ++ targets S (names n before early) late ++ last ∧
      (∀ a, ¬Assigns S n first a) ∧ ∀ a, ¬Assigns S n last a := by
  obtain ⟨hbefore, hafter⟩ := List.forall_mem_append.1 h.outside
  obtain ⟨hearly, -⟩ := List.forall_mem_append.1 h.inside
  have hnil : (.localVar, n) ∉ ([] : Names).flatten := List.not_mem_nil
  have hnames := notMem_of_spares hnil hbefore
  refine ⟨targets S [] before ++ targets S (before.foldl Names.after []) early,
    targets S (before.foldl Names.after []) after, ?_, fun a ha => ?_,
    not_assigns_of_spares hnames hafter⟩
  · rw [targets_append, targets_append, targets_append, List.foldl_append, h.exposes.foldl_after_nil,
      ← List.append_assoc]
    rfl
  · rcases List.mem_append.1 ha.1 with hmem | hmem
    · exact not_assigns_of_spares hnil hbefore a ⟨hmem, ha.2⟩
    · exact not_assigns_of_spares hnames hearly a ⟨hmem, ha.2⟩

theorem assigns (h : Declared S n before early late after) {a : Tree}
    (ha : Assigns S n
      (targets S [] (before ++ (early ++ .declaration .localVar n none :: late) ++ after)) a) :
    Assigns S n (targets S (names n before early) late) a := by
  obtain ⟨first, last, htargets, hfirst, hlast⟩ := h.exists_targets_eq
  obtain ⟨hmem, hplain⟩ := ha
  rw [htargets] at hmem
  simp only [List.mem_append] at hmem
  rcases hmem with (hmem | hmem) | hmem
  · exact absurd ⟨hmem, hplain⟩ (hfirst a)
  · exact ⟨hmem, hplain⟩
  · exact absurd ⟨hmem, hplain⟩ (hlast a)

theorem assignsLast (h : Declared S n before early late after) {a : Tree}
    (ha : AssignsLast S n (targets S (names n before early) late) a) :
    AssignsLast S n
      (targets S [] (before ++ (early ++ .declaration .localVar n none :: late) ++ after)) a := by
  obtain ⟨first, last, htargets, -, hlast⟩ := h.exists_targets_eq
  rw [htargets]
  exact ha.append first hlast

/-- **After a unit** the variable has the value of the last plain assignment to it. -/
theorem lastValue (h : Declared S n before early late after)
    (hright : ∀ a, .assignment a ∈ late → ∃ v, a.child? "right" = some v) {xs : List Effect}
    (hcourse : Course S {} (before ++ (early ++ .declaration .localVar n none :: late) ++ after) xs) :
    ∃ b, VariableAt S .localVar n b ∧
      LastValue S n (targets S (names n before early) late)
        ((xs.foldl State.after {}).bindings.get? b) ∧
      ∀ b' e, (xs.foldl State.after {}).bindings.get? b' = some e → VariableAt S .localVar n b' →
        b' = b := by
  obtain ⟨hbefore, hafter⟩ := List.forall_mem_append.1 h.outside
  obtain ⟨hearly, hlate⟩ := List.forall_mem_append.1 h.inside
  obtain ⟨xs, xs₄, rfl, hcourse, hcourse₄⟩ := hcourse.exists_append
  obtain ⟨xs₁, xs, rfl, hcourse₁, hmethod⟩ := hcourse.exists_append
  have hscopes := hmethod.scopes_eq h.exposes
  obtain ⟨xs₂, xs, rfl, hcourse₂, hcourse₃⟩ := hmethod.exists_append
  -- before the declaration the variable is unknown
  have hw₀ : Watched S n [] none none {} := ⟨.nil, List.forall_mem_nil _, .empty ..⟩
  have hw₁ := hcourse₁.watched hw₀ (fun _ => id) hbefore fun _ => rfl
  have hw₂ := hcourse₂.watched hw₁ (fun _ => id) hearly fun _ => rfl
  cases hcourse₃ with
  | @cons _ _ _ _ xs₃ hx hcourse₃ =>
  cases hx with
  | @declaration _ _ b _ hat =>
  -- in its method it is in scope
  have hw₃ := hw₂.declare hat
  have hnone : ((xs₂.foldl State.after (xs₁.foldl State.after {})).after
      (.declared b)).bindings.get? b = none := by
    refine (congrArg (Table.get? · b) (State.bindings_addVariable _ b)).trans ?_
    exact Table.get?_eq_none_iff.2 fun hmem =>
      absurd (hw₂.knows.bindings b hmem hat) (Option.some_ne_none b).symm
  have hvalue := hcourse₃.lastValue hat hw₃ hlate h.fields hright hnone
  have hknows := (hcourse₃.watched hw₃ (fun _ => id) hlate fun he => absurd he h.fields).knows
  -- after the method the scopes are as they were before it
  rw [List.foldl_append, List.foldl_cons] at hscopes
  rw [List.foldl_append, List.foldl_append, List.foldl_cons] at hcourse₄
  rw [List.foldl_append, List.foldl_append, List.foldl_append, List.foldl_cons]
  have hw₄ : Watched S n (before.foldl Names.after []) none (some b) _ :=
    ⟨hscopes ▸ hw₁.tracks, hw₁.tells, { hknows with scopes := hscopes ▸ hw₁.knows.scopes }⟩
  have hle (b' : Binding) (hb' : none = some b') : some b = some b' := by cases hb'
  have hnil : (.localVar, n) ∉ ([] : Names).flatten := List.not_mem_nil
  have hquiet := not_assigns_of_spares (notMem_of_spares hnil hbefore) hafter
  have hkeeps := hcourse₄.get?_of_quiet hw₄ hle hafter (fun _ => rfl) hquiet hat
  have hw₅ := hcourse₄.watched hw₄ hle hafter fun _ => rfl
  refine ⟨b, hat, hkeeps ▸ hvalue, fun b' e hb' hat' => ?_⟩
  exact (Option.some.inj (State.Confines.get? hw₅.knows hb' hat')).symm

end Declared

/-! ### Local variables of a method -/

/-- Names at different places of the text belong to different variables. -/
theorem not_variableAt_of_apart {S : Source} {x n : Tree} (hx : x.start < x.stop)
    (hn : n.start < n.stop) (hxS : x.stop ≤ S.bytes.size) (hnS : n.stop ≤ S.bytes.size)
    (h : x.Apart n) {kind : VariableKind} {b : Binding} (hb : VariableAt S kind x b) :
    ¬VariableAt S .localVar n b := by
  intro hat
  have hstart := hb.declaredAt.start_eq hat.declaredAt (by omega) (by omega)
  rcases h with h | h <;> omega

section

variable {S : Source} {root : Tree} (hconf : root.conforms = true) (hlaid : root.laidOut = true)
  {m : Tree} (hmethod : m.isMethod = true) (hm : m.Inside root)

include hconf hlaid hmethod hm

/-- Other names that are declared in the unit stand at other places. -/
theorem apart_of_declaration {n : Tree} {before early late after : List Event}
    (hsurrounds : Surrounds m root.unitEvents before after)
    (hevents : m.methodEvents = early ++ .declaration .localVar n none :: late)
    {kind : VariableKind} {x : Tree} {v : Option Tree}
    (hx : .declaration kind x v ∈ before ++ after ∨ .declaration kind x v ∈ early ++ late) :
    x.Apart n := by
  have hmconf := hm.conforms hconf
  have hmlaid := hm.laidOut hlaid
  rcases hx with hx | hx
  · have hn : .declaration .localVar n none ∈ m.methodEvents := by simp [hevents]
    have hninside := Tree.inside_of_mem_methodEvents hmethod hmconf hmlaid _ hn n rfl
    have hxunit : .declaration kind x v ∈ root.unitEvents := by
      rw [hsurrounds.eq]
      rcases List.mem_append.1 hx with hx | hx <;> simp [hx]
    have hxroot := (Tree.inside_of_mem_unitEvents hconf hlaid hxunit rfl).1
    exact (hsurrounds.apart _ hx x rfl).of_inside (hxroot.laidOut hlaid) hmlaid .refl hninside
  · have hsplit : m.methodEvents.filterMap Event.declared? =
        early.filterMap Event.declared? ++ (.localVar, n, none) :: late.filterMap Event.declared? := by
      rw [hevents, List.filterMap_append]
      rfl
    have hpairwise := Tree.pairwise_declarations_method hmethod hmconf hmlaid
    rw [hsplit] at hpairwise
    obtain ⟨-, hlater, hcross⟩ := List.pairwise_append.1 hpairwise
    rcases List.mem_append.1 hx with hx | hx
    · exact hcross (kind, x, v) (List.mem_filterMap.2 ⟨_, hx, rfl⟩) _ List.mem_cons_self
    · exact ((List.pairwise_cons.1 hlater).1 (kind, x, v) (List.mem_filterMap.2 ⟨_, hx, rfl⟩)).symm

/-- **The events of a unit** around the declaration of a local variable. -/
theorem Surrounds.exists_declared (hsize : root.stop ≤ S.bytes.size)
    (hinitialized : ∀ kind name v, .initialization kind name v ∈ root.unitEvents →
      .declaration kind name (some v) ∈ root.unitEvents) {n : Tree}
    {before after : List Event} (hsurrounds : Surrounds m root.unitEvents before after)
    (hn : .declaration .localVar n none ∈ m.methodEvents) :
    ∃ early late, m.methodEvents = early ++ .declaration .localVar n none :: late ∧
      Declared S n before early late after := by
  obtain ⟨early, late, hevents⟩ := List.append_of_mem hn
  have hunit := hsurrounds.eq
  rw [hevents] at hunit
  have hmem {e : Event} (he : e ∈ before ++ after ∨ e ∈ early ++ late) : e ∈ root.unitEvents := by
    rw [hunit]
    simp only [List.mem_append, List.mem_cons] at he ⊢
    tauto
  have hspan {kind : VariableKind} {x : Tree} {v : Option Tree}
      (hx : .declaration kind x v ∈ root.unitEvents) : x.start < x.stop ∧ x.stop ≤ S.bytes.size := by
    obtain ⟨hinside, hspan⟩ := Tree.inside_of_mem_unitEvents hconf hlaid hx rfl
    exact ⟨hspan, Nat.le_trans (hinside.span hlaid).2 hsize⟩
  -- a variable with an initializer is declared with it, and so is another one
  have hdeclared {e : Event} (he : e ∈ before ++ after ∨ e ∈ early ++ late) {kind : VariableKind}
      {x : Tree} (hsubject : e.subject? = some (kind, x)) : ∃ v,
        .declaration kind x v ∈ before ++ after ∨ .declaration kind x v ∈ early ++ late := by
    cases e with
    | opening | closing | assignment | fields => cases hsubject
    | declaration _ _ value =>
      cases hsubject
      exact ⟨value, he⟩
    | initialization _ _ value =>
      cases hsubject
      have hvalue := hinitialized _ _ _ (hmem he)
      rw [hunit] at hvalue
      simp only [List.mem_append, List.mem_cons, Event.declaration.injEq, reduceCtorEq, and_false,
        false_or] at hvalue ⊢
      exact ⟨some value, by tauto⟩
  have hspares {e : Event} (he : e ∈ before ++ after ∨ e ∈ early ++ late) : e.Spares S n := by
    intro kind x hsubject b hb
    obtain ⟨v, hv⟩ := hdeclared he hsubject
    obtain ⟨hx, hxS⟩ := hspan (hmem hv)
    have hnunit : .declaration .localVar n none ∈ root.unitEvents := by simp [hunit]
    obtain ⟨hn, hnS⟩ := hspan hnunit
    exact not_variableAt_of_apart hx hn hxS hnS
      (apart_of_declaration hconf hlaid hmethod hm hsurrounds hevents hv) hb
  refine ⟨early, late, hevents, hevents ▸ exposes_methodEvents m, fun hfields => ?_,
    fun e he => hspares (.inl he), fun e he => hspares (.inr he)⟩
  refine (Tree.ordinary_methodEvents hmethod (hm.conforms hconf) (hm.laidOut hlaid)).fields_notMem ?_
  rw [hevents]
  exact List.mem_append_right _ (List.mem_cons_of_mem _ hfields)

/-- An assignment in a method has a right side. -/
theorem exists_right_of_assignment {a : Tree} (ha : .assignment a ∈ m.methodEvents) :
    a.Inside m ∧ ∃ v, a.child? "right" = some v := by
  have hmconf := hm.conforms hconf
  have hmlaid := hm.laidOut hlaid
  have hinside := Tree.inside_of_mem_methodEvents hmethod hmconf hmlaid _ ha a rfl
  have htype := (Tree.ordinary_methodEvents hmethod hmconf hmlaid).type_of_assignment a ha
  have haccepts := Tree.accepts_of_type (hinside.conforms hmconf) htype rfl
  simp only [accepts_one, accepts_nil] at haccepts
  obtain ⟨l, _, hpieces, ⟨hl, -⟩, o, _, rfl, ⟨ho, -⟩, r, _, rfl, ⟨hr, -⟩, rfl⟩ := haccepts
  exact ⟨hinside, r, by simp [Tree.child?_eq_find_pieces, hpieces, hl, ho, hr]⟩

end

/-- The assignment that is read last is not followed by another one in the text, unless that one stands
in the condition of a do statement around it. -/
theorem AssignsLast.readsInOrder {S : Source} {n t : Tree}
    {l : List (Tree × Option (VariableKind × Tree))} {a : Tree} (h : AssignsLast S n l a)
    (hpairwise : (l.map Prod.fst).Pairwise t.ReadsInOrder) (hspan : a.start < a.stop) {a' : Tree}
    (ha' : Assigns S n l a') (hafter : a.stop ≤ a'.start) : t.DoHolds a a' := by
  obtain ⟨earlier, later, rfl, -, hnone⟩ := h
  rw [List.map_append, List.map_cons] at hpairwise
  obtain ⟨hmem, hplain⟩ := ha'
  rcases List.mem_append.1 hmem with hmem | hmem
  · exact (List.pairwise_append.1 hpairwise).2.2 a' (List.mem_map_of_mem hmem) a
      List.mem_cons_self hafter
  · rcases List.mem_cons.1 hmem with heq | hmem
    · rw [(Prod.mk.inj heq).1] at hafter
      omega
    · exact absurd ⟨hmem, hplain⟩ (hnone a')

/-- What becomes of a local variable without an initializer. -/
structure LastAssignmentWins (S : Source) (root m n : Tree) (bindings : Table Binding Expr) :
    Prop where
  /-- The variable has a value if there is a plain assignment to it. -/
  assigned : (∃ a, Assigns S n (root.assignments S) a) →
    ∃ b e, VariableAt S .localVar n b ∧ bindings.get? b = some e
  /-- Its value is the right side of the plain assignment to it that is read last.  One that begins
  after this one in the text stands in the condition of a do statement with this one in the body. -/
  last : ∀ b e, VariableAt S .localVar n b → bindings.get? b = some e →
    ∃ a v, AssignsLast S n (root.assignments S) a ∧ a.Inside m ∧ a.child? "right" = some v ∧
      S.Reads v.1 e ∧ e.origin = S.origin v.1 ∧
      ∀ a', Assigns S n (root.assignments S) a' → a.stop ≤ a'.start → m.DoHolds a a'

theorem LastAssignmentWins.of_declaration {S : Source} {root : Tree} {u : SourceUnit}
    (h : unitOfTree S root = .ok u) (hconf : root.conforms = true) (hlaid : root.laidOut = true)
    (hsize : root.stop ≤ S.bytes.size) {m : Tree} (hmethod : m.isMethod = true) (hm : m.Inside root)
    (hspan : m.start < m.stop) {before after : List Event}
    (hsurrounds : Surrounds m root.unitEvents before after) {n : Tree}
    (hn : .declaration .localVar n none ∈ m.methodEvents) :
    LastAssignmentWins S root m n u.bindings := by
  obtain ⟨s, hrun, rfl⟩ := exists_state_of_unitOfTree h
  obtain ⟨effects, hcourse, htied, hs⟩ := follows_readUnit hrun
  obtain ⟨early, late, hevents, hdeclared⟩ := hsurrounds.exists_declared hconf hlaid hmethod hm hsize
    (fun _ _ _ => hcourse.declaration_of_initialization htied) hn
  have hlate {a : Tree} (ha : .assignment a ∈ late) :
      a.Inside m ∧ ∃ v, a.child? "right" = some v := by
    refine exists_right_of_assignment hconf hlaid hmethod hm ?_
    rw [hevents]
    exact List.mem_append_right _ (List.mem_cons_of_mem _ ha)
  have hbindings : s.bindings = (effects.foldl State.after {}).bindings :=
    (congrArg State.bindings hs :)
  have hunit := hsurrounds.eq
  rw [hevents] at hunit
  rw [hunit] at hcourse
  obtain ⟨b, hat, hvalue, hunique⟩ := hdeclared.lastValue (fun a ha => (hlate ha).2) hcourse
  rw [← hbindings] at hvalue hunique
  have hassigns {a : Tree} (ha : Assigns S n (root.assignments S) a) :
      Assigns S n (targets S (Declared.names n before early) late) a := by
    unfold Tree.assignments at ha
    rw [hunit] at ha
    exact hdeclared.assigns ha
  constructor
  case assigned =>
    rintro ⟨a, ha⟩
    cases hget : s.bindings.get? b with
    | none =>
      rw [hget] at hvalue
      exact absurd (hassigns ha) (hvalue a)
    | some e => exact ⟨b, e, hat, hget⟩
  case last =>
    intro b' e hat' he
    obtain rfl := hunique b' e he hat'
    rw [he] at hvalue
    obtain ⟨a, v, hwins, hv, hreads⟩ := hvalue
    -- the assignments of the method are read along the text, do statements apart
    have hpairwise : ((targets S (Declared.names n before early) late).map Prod.fst).Pairwise
        m.ReadsInOrder := by
      have hmethodWide := Tree.pairwise_assignments_method hmethod (hm.conforms hconf)
        (hm.laidOut hlaid) hspan
      rw [map_fst_targets]
      refine hmethodWide.sublist (List.Sublist.filterMap _ ?_)
      rw [hevents]
      exact (List.sublist_cons_self _ late).trans (List.sublist_append_right early _)
    have ha := (hlate hwins.mem_events).1
    refine ⟨a, v, ?_, ha, hv, hreads, hreads.origin, fun a' ha' => hwins.readsInOrder hpairwise
      (ha.start_lt_stop (hm.laidOut hlaid) hspan) (hassigns ha')⟩
    unfold Tree.assignments
    rw [hunit]
    exact hdeclared.assignsLast hwins

/-- **Only what is declared has a value.** -/
theorem declared_of_unitOfTree {S : Source} {root : Tree} {u : SourceUnit}
    (h : unitOfTree S root = .ok u) {b : Binding} {e : Expr} (hb : u.bindings.get? b = some e) :
    ∃ kind name v, .declaration kind name v ∈ root.unitEvents ∧ VariableAt S kind name b := by
  obtain ⟨s, hrun, rfl⟩ := exists_state_of_unitOfTree h
  obtain ⟨effects, hcourse, htied, hs⟩ := follows_readUnit hrun
  have hbindings : s.bindings = (effects.foldl State.after {}).bindings :=
    (congrArg State.bindings hs :)
  rw [hbindings] at hb
  obtain ⟨kind, name, v, hmem⟩ := hcourse.declared_of_get? htied hb
  exact ⟨kind, name, v, (List.of_mem_zip hmem).1, hcourse.variableAt hmem⟩

/-- **The last assignment wins**: in a method of a unit that can be read, every assignment of the body
is one of the assignments of the unit, and a local variable that the body declares without an
initializer has the value of the plain assignment to it that is read last, which no other one follows in
the text but in the condition of a do statement.  What is not declared while the unit is read, such as
the variables in the blocks of a switch that is an expression, has no value at all. -/
theorem last_assignment_wins {S : Source} {root : Tree} {u : SourceUnit}
    (h : unitOfTree S root = .ok u) (hconf : root.conforms = true) (hlaid : root.laidOut = true)
    (hsize : root.stop ≤ S.bytes.size) {type : String} {m : Tree}
    (hm : (type, m) ∈ javaDeclarations S root) (hmethod : m.isMethod = true)
    {body : Subtree m} (hbody : m.child? "body" = some body) :
    (∀ a, .assignment a ∈ body.1.written true → ∃ target, (a, target) ∈ root.assignments S) ∧
      (∀ n, .declaration .localVar n none ∈ body.1.written true →
        LastAssignmentWins S root m n u.bindings) ∧
      ∀ b e, u.bindings.get? b = some e →
        ∃ kind n v, .declaration kind n v ∈ root.unitEvents ∧ VariableAt S kind n b := by
  obtain ⟨hinside, hspan, before, after, hsurrounds⟩ :=
    Tree.exists_surrounds_unitEvents hconf hlaid hm hmethod
  -- what is written in the body happens while the method is read
  have hwritten {e : Event} (he : e ∈ body.1.written true) : e ∈ m.methodEvents := by
    obtain ⟨hbconf, hsuits⟩ := Tree.suits_body hmethod (hinside.conforms hconf)
      (Option.mem_toList.2 hbody)
    have he := Tree.written_subset_events hbconf hsuits e he
    unfold Tree.methodEvents
    rw [hbody]
    simp [he]
  refine ⟨fun a ha => ?_, fun n hn => .of_declaration h hconf hlaid hsize hmethod hinside hspan
    hsurrounds (hwritten hn), fun b e hb => declared_of_unitOfTree h hb⟩
  have hmem : a ∈ root.unitEvents.filterMap Event.assignment? := by
    refine List.mem_filterMap.2 ⟨.assignment a, ?_, rfl⟩
    rw [hsurrounds.eq]
    exact List.mem_append_left _ (List.mem_append_right _ (hwritten ha))
  rw [← map_fst_targets S []] at hmem
  obtain ⟨⟨a, target⟩, htarget, rfl⟩ := List.mem_map.1 hmem
  exact ⟨target, htarget⟩

theorem exists_mem_of_isMethod_firstMethod {text : String} (h : (firstMethod text).isMethod = true) :
    ∃ type, (type, firstMethod text) ∈ javaDeclarations (.ofText "A.java" text) (treeOf text) := by
  unfold firstMethod at h ⊢
  cases hhead : ((javaDeclarations (.ofText "A.java" text) (treeOf text)).filter (·.2.isMethod)).head?
  case none =>
    rw [hhead] at h
    exact absurd h (by decide)
  case some first => exact ⟨first.1, (List.mem_filter.1 (List.mem_of_head? hhead)).1⟩

/-- A method that assigns a variable in the condition of a do statement, after the body. -/
def assignedInDo : String :=
  "class A \x7b void m() \x7b String x; do \x7b x = \"a\"; \x7d while ((x = next()) != null); \x7d \x7d"

/-- The source of that method. -/
def doSource : Source :=
  .ofText "A.java" assignedInDo

theorem assignedInDo_read :
    (treeOf assignedInDo).conforms = true ∧ (treeOf assignedInDo).laidOut = true ∧
      (treeOf assignedInDo).stop ≤ doSource.bytes.size ∧ (firstMethod assignedInDo).isMethod = true ∧
      ((firstMethod assignedInDo).child? "body").map (fun b => (b.1.written true).length) = some 3 ∧
      ((treeOf assignedInDo).assignments doSource).map
        (fun x => (doSource.text x.1, x.1.start, x.1.stop, x.2.map fun n => doSource.text n.2)) =
        [("x = next()", 55, 65, some "x"), ("x = \"a\"", 36, 43, some "x")] ∧
      (unitOfTree doSource (treeOf assignedInDo)).toOption.map
        (fun u => u.bindings.values.map Expr.text) = some ["\"a\""] := by
  decide +kernel

theorem body_of_do_wins :
    ∃ (u : SourceUnit) (body : Subtree (firstMethod assignedInDo)),
      unitOfTree doSource (treeOf assignedInDo) = .ok u ∧
        u.bindings.values.map Expr.text = ["\"a\""] ∧
        (firstMethod assignedInDo).child? "body" = some body ∧ (body.1.written true).length = 3 ∧
        ∀ n, .declaration .localVar n none ∈ body.1.written true →
          LastAssignmentWins doSource (treeOf assignedInDo) (firstMethod assignedInDo) n u.bindings := by
  obtain ⟨hconf, hlaid, hsize, hmethod, hlength, -, hvalues⟩ := assignedInDo_read
  obtain ⟨type, hm⟩ := exists_mem_of_isMethod_firstMethod hmethod
  obtain ⟨body, hbody, hlength⟩ := Option.map_eq_some_iff.1 hlength
  obtain ⟨u, hu, hvalues⟩ := Option.map_eq_some_iff.1 hvalues
  have h : unitOfTree doSource (treeOf assignedInDo) = .ok u := by
    cases hunit : unitOfTree doSource (treeOf assignedInDo) with
    | error f =>
      rw [hunit] at hu
      cases hu
    | ok v =>
      rw [hunit] at hu
      rw [Option.some.inj hu]
  exact ⟨u, body, h, hvalues, hbody, hlength,
    (last_assignment_wins h hconf hlaid hsize hm hmethod hbody).2.1⟩

/-- A method with a variable in a block of a switch that is an expression. -/
def variableInSwitch : String :=
  "class A \x7b int m(int k) \x7b return switch (k) \x7b " ++
    "default -> \x7b int x; x = 1; yield x; \x7d \x7d; \x7d \x7d"

/-- **The condition of a do statement loses** against its body, although it stands after it, and a
variable in a block of a switch that is an expression has no value, although it is assigned one. -/
theorem condition_of_do_loses :
    (treeOf assignedInDo).conforms = true ∧
      ((treeOf assignedInDo).assignments doSource).map
        (fun x => (doSource.text x.1, x.1.start, x.1.stop, x.2.map fun n => doSource.text n.2)) =
        [("x = next()", 55, 65, some "x"), ("x = \"a\"", 36, 43, some "x")] ∧
      (unitOfTree doSource (treeOf assignedInDo)).toOption.map
        (fun u => u.bindings.values.map Expr.text) = some ["\"a\""] ∧
      (treeOf variableInSwitch).conforms = true ∧
      (unitOfTree (.ofText "A.java" variableInSwitch) (treeOf variableInSwitch)).toOption.map
        (fun u => u.bindings.values.map Expr.text) = some [] := by
  obtain ⟨hconf, -, -, -, -, htexts, hvalues⟩ := assignedInDo_read
  exact ⟨hconf, htexts, hvalues, by decide +kernel⟩

end TaintFlow.Java
