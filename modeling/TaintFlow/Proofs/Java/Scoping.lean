import TaintFlow.Proofs.Java.Following

/-!
# Lexical scoping

Whatever is read, and from whatever state: when it is done, the place being read is as it was, the
scopes around the innermost one are untouched, and calls were only added (`State.Resumes`).  What has
a scope of its own, and every expression, leaves all scopes as they were (`State.Restores`), so a name
that is declared inside is not visible afterwards.  A statement adds to the innermost scope exactly
the variables that it exposes.

* `Course.named` : variables stand in their scopes under their own names.
* `lookup_addVariables` : what is visible after variables were declared.
* `scoping_is_lexical` : what this says of every node.
-/

namespace TaintFlow.Java

open TaintFlow.Code TaintFlow.Types Read

/-! ### Names in scopes -/

/-- Every variable stands in its scope under its own name. -/
def State.Named (s : State) : Prop :=
  ∀ scope ∈ s.scopes, ∀ name b, scope.get? name = some b → b.name = name

theorem State.Named.addVariable {s : State} (h : s.Named) (b : Binding) :
    (s.addVariable b).Named := by
  unfold State.addVariable
  split
  · exact h
  · rename_i scope rest hscopes
    unfold State.Named at h
    rw [hscopes, List.forall_mem_cons] at h
    refine List.forall_mem_cons.2 ⟨fun name x hx => ?_, h.2⟩
    rw [Table.get?_insert] at hx
    split at hx
    · rename_i hname
      rw [← Option.some.inj hx, hname]
    · exact h.1 name x hx

theorem Course.named {S : Source} {s : State} {es : List Event} {xs : List Effect}
    (h : Course S s es xs) (hs : s.Named) : (xs.foldl State.after s).Named := by
  refine h.invariant (fun s e x _ hx hs => ?_) hs
  cases hx with
  | opening =>
    refine List.forall_mem_cons.2 ⟨fun name b hb => ?_, hs⟩
    cases hb
  | closing => exact fun scope hscope => hs scope (List.mem_of_mem_tail hscope)
  | declaration _ hb => exact hs.addVariable _
  | initialization => exact hs
  | assignment =>
    unfold State.after State.Named
    rw [State.scopes_assign]
    exact hs
  | fields => exact hs

/-- The variable is the one of the name in the innermost scope that has one. -/
def IsInnermost (scopes : List Scope) (name : String) : Option Binding → Prop
  | none => ∀ scope ∈ scopes, scope.get? name = none
  | some b => ∃ inner scope outer, scopes = inner ++ scope :: outer ∧ scope.get? name = some b ∧
      ∀ x ∈ inner, x.get? name = none

theorem State.isInnermost_lookup (s : State) (name : String) :
    IsInnermost s.scopes name (s.lookup name) := by
  unfold lookup
  cases hfind : s.scopes.findSome? (·.get? name) with
  | none => exact List.findSome?_eq_none_iff.1 hfind
  | some b =>
    obtain ⟨inner, scope, outer, hscopes, hscope, hinner⟩ := List.findSome?_eq_some_iff.1 hfind
    exact ⟨inner, scope, outer, hscopes, hscope, hinner⟩

theorem State.lookup_congr {s s' : State} (h : s'.scopes = s.scopes) (name : String) :
    s'.lookup name = s.lookup name := by
  rw [lookup, lookup, h]

theorem State.lookup_addVariable {s : State} (hs : s.scopes ≠ []) (b : Binding) (name : String) :
    (s.addVariable b).lookup name = if b.name = name then some b else s.lookup name := by
  unfold lookup addVariable
  split
  · rename_i hscopes
    exact absurd hscopes hs
  · rename_i scope rest hscopes
    rw [hscopes, List.findSome?_cons, List.findSome?_cons, Table.get?_insert]
    by_cases hname : b.name = name
    · rw [if_pos hname.symm, if_pos hname]
    · rw [if_neg (Ne.symm hname), if_neg hname]

/-- **After variables were declared**, a name refers to the last of them that bears it. -/
theorem State.lookup_addVariables {s : State} (hs : s.scopes ≠ []) (bs : List Binding)
    (name : String) :
    (bs.foldl addVariable s).lookup name =
      (bs.filter (·.name == name)).getLast?.or (s.lookup name) := by
  induction bs generalizing s with
  | nil => rfl
  | cons b bs ih =>
    have hs' : (s.addVariable b).scopes ≠ [] := by
      intro hnil
      have hlength := (s.tail_scopes_addVariables [b]).2
      rw [List.foldl_cons, List.foldl_nil, hnil] at hlength
      exact hs (List.eq_nil_of_length_eq_zero hlength.symm)
    rw [List.foldl_cons, ih hs', lookup_addVariable hs, List.filter_cons]
    by_cases hname : b.name = name
    · rw [if_pos hname, if_pos (beq_iff_eq.2 hname), List.getLast?_cons]
      cases (bs.filter (·.name == name)).getLast? <;> rfl
    · rw [if_neg hname, if_neg (by simpa using hname)]

/-! ### The place after a step -/

/-- The place being read is as before, and calls were only added. -/
structure State.Resumes (s s' : State) : Prop where
  classes : s'.classes = s.classes
  method : s'.method = s.method
  /-- As many scopes are open. -/
  depth : s'.scopes.length = s.scopes.length
  /-- The scopes around the innermost one are the same. -/
  outer : s'.scopes.tail = s.scopes.tail
  named : s.Named → s'.Named
  calls : ∃ new, s'.calls = s.calls.map (· ++ new)
  methodCalls : ∀ m, ∃ new, s'.methodCalls.getD m [] = s.methodCalls.getD m [] ++ new

/-- All scopes are as before, so that every name refers to what it referred to. -/
structure State.Restores (s s' : State) : Prop extends s.Resumes s' where
  scopes : s'.scopes = s.scopes
  lookup : ∀ name, s'.lookup name = s.lookup name

/-- The outline is the same, and calls were only added. -/
def State.AddsCalls (s s' : State) : Prop :=
  s'.outline = s.outline ∧ ∃ new, s'.calls = s.calls.map (· ++ new)

theorem map_append_nil (calls : Option (List Expr)) : calls.map (· ++ []) = calls := by
  cases calls with
  | none => rfl
  | some calls => rw [Option.map_some, List.append_nil]

theorem State.addsCalls_of_calls_eq {s s' : State} (houtline : s'.outline = s.outline)
    (hcalls : s'.calls = s.calls) : s.AddsCalls s' := by
  refine ⟨houtline, [], ?_⟩
  rw [hcalls, map_append_nil]

theorem allows_addsCalls : State.Allows State.AddsCalls where
  refl s := State.addsCalls_of_calls_eq rfl rfl
  trans := by
    rintro s₁ s₂ s₃ ⟨houtline, new, hcalls⟩ ⟨houtline', new', hcalls'⟩
    refine ⟨houtline'.trans houtline, new ++ new', ?_⟩
    rw [hcalls', hcalls, Option.map_map]
    congr 1
    funext calls
    exact List.append_assoc calls new new'
  inScope h := h
  addVariable s b := State.addsCalls_of_calls_eq (s.outline_addVariable b)
    (congrArg State.calls (s.addVariable_eq b) :)
  bind s b value := by
    refine State.addsCalls_of_calls_eq (s.outline_bind b value) ?_
    cases value <;> rfl
  addCall s call := ⟨rfl, [call], rfl⟩
  assign s operator left right := State.addsCalls_of_calls_eq (s.outline_assign operator left right)
    (congrArg State.calls (s.assign_eq operator left right) :)

section

variable {α : Type} {S : Source} {step : Read α} {Q : α → Prop} {es : List Event} {s s' : State}
  {a : α}

/-- A step inside a body, of which it is known what happens to the variables. -/
theorem State.Resumes.of_follows {ns : List (VariableKind × Tree)}
    (hleads : Leads State.AddsCalls step) (hfollows : Follows S es step Q) (hexposes : Exposes ns es)
    (hrun : step.run s = .ok (a, s')) :
    s.Resumes s' ∧ ∃ bs, List.Forall₂ (fun n => VariableAt S n.1 n.2) ns bs ∧
      s'.scopes = (bs.foldl State.addVariable s).scopes := by
  obtain ⟨houtline, hcalls⟩ := hleads s a s' hrun
  -- the outline leaves the scopes out; what happens to these is told by the events
  obtain ⟨-, xs, hxs, -, hs'⟩ := hfollows s a s' hrun
  obtain ⟨bs, hbs, hscopes⟩ := hxs.scopes_of_exposes hexposes
  have hledger : s.ledger.scopes = s.scopes := rfl
  replace hscopes : s'.scopes = (bs.foldl State.addVariable s).scopes :=
    (congrArg State.scopes hs').trans (hscopes.trans (State.scopes_addVariables_congr hledger bs))
  obtain ⟨houter, hdepth⟩ := s.tail_scopes_addVariables bs
  refine ⟨⟨?_, ?_, hscopes ▸ hdepth, hscopes ▸ houter, fun hnamed => ?_, hcalls, fun m => ⟨[], ?_⟩⟩,
    bs, hbs, hscopes⟩
  · exact (congrArg State.classes houtline :)
  · exact (congrArg State.method houtline :)
  · have hnamed' := hxs.named (s := s.ledger) hnamed
    rw [← hs'] at hnamed'
    exact hnamed'
  · have hmethodCalls : s'.methodCalls = s.methodCalls := (congrArg State.methodCalls houtline :)
    rw [hmethodCalls, List.append_nil]

theorem State.Restores.of_scopes (h : s.Resumes s') (hscopes : s'.scopes = s.scopes) :
    s.Restores s' :=
  ⟨h, hscopes, State.lookup_congr hscopes⟩

/-- A step that exposes nothing. -/
theorem State.Restores.of_follows (hleads : Leads State.AddsCalls step)
    (hfollows : Follows S es step Q) (hexposes : Exposes [] es) (hrun : step.run s = .ok (a, s')) :
    s.Restores s' := by
  obtain ⟨hresumes, bs, hbs, hscopes⟩ := State.Resumes.of_follows hleads hfollows hexposes hrun
  cases hbs
  exact .of_scopes hresumes hscopes

end

/-! ### Methods and types -/

/-- The calls of every method are kept, and possibly more. -/
def State.ExtendsCalls (s s' : State) : Prop :=
  ∀ m, ∃ new, s'.methodCalls.getD m [] = s.methodCalls.getD m [] ++ new

theorem State.extendsCalls_of_eq {s s' : State} (h : s'.methodCalls = s.methodCalls) :
    s.ExtendsCalls s' :=
  fun m => ⟨[], by rw [h, List.append_nil]⟩

theorem State.extendsCalls_of_outline {s s' : State} (h : s'.outline = s.outline) :
    s.ExtendsCalls s' :=
  extendsCalls_of_eq (congrArg State.methodCalls h :)

theorem allows_extendsCalls : State.Allows State.ExtendsCalls where
  refl s := State.extendsCalls_of_eq rfl
  trans := by
    intro s₁ s₂ s₃ h h' m
    obtain ⟨new, hnew⟩ := h m
    obtain ⟨new', hnew'⟩ := h' m
    exact ⟨new ++ new', by rw [hnew', hnew, List.append_assoc]⟩
  inScope h := h
  addVariable s b := State.extendsCalls_of_outline (s.outline_addVariable b)
  bind s b value := State.extendsCalls_of_outline (s.outline_bind b value)
  addCall s call := State.extendsCalls_of_eq rfl
  assign s operator left right := State.extendsCalls_of_outline (s.outline_assign operator left right)

theorem extendsCalls_readMethod (S : Source) (type : String) (isConstructor : Bool) (m : Tree) :
    Leads State.ExtendsCalls (readMethod S type isConstructor m) := by
  intro s a s' hrun k
  obtain ⟨method, calls, -, houtline⟩ := outline_readMethod hrun
  have hmethodCalls : s'.methodCalls = s.methodCalls.update method.signature [] (· ++ calls) :=
    (congrArg State.methodCalls houtline :)
  rw [hmethodCalls, Table.getD_update]
  split
  · rename_i hk
    exact ⟨calls, by rw [hk]⟩
  · exact ⟨[], (List.append_nil _).symm⟩

theorem extendsCalls_readType (S : Source) (t : Tree) :
    Leads State.ExtendsCalls (readType S t) := by
  induction hsize : t.size using Nat.strongRecOn generalizing t with
  | ind n ih =>
    intro s a s' hrun
    rw [run_readType S t s rfl] at hrun
    obtain ⟨p, hmembers, hleave⟩ := bind_eq_ok_iff.1 hrun
    cases hleave
    generalize readName s.localTypes s.currentClass (S.nameOf t) = type at hmembers
    have hinside : Leads State.ExtendsCalls (readMembers S type t) := by
      refine .bind allows_extendsCalls ?_ fun _ => .forM allows_extendsCalls fun m _ => ?_
      · intro s₁ a s₂ hfields
        obtain ⟨scope, houtline⟩ := outline_readFields hfields
        exact State.extendsCalls_of_eq (congrArg State.methodCalls houtline :)
      · unfold readMember
        split
        · exact extendsCalls_readMethod S type false m.1
        · split
          · exact extendsCalls_readMethod S type true m.1
          · split
            · exact ih m.1.size (hsize ▸ m.2) m.1 rfl
            · exact .pure allows_extendsCalls _
    have hextends := hinside _ _ _ hmembers
    exact hextends

/-- A method or type leaves the scopes as they were. -/
theorem State.Restores.of_course {S : Source} {s s' : State} {es : List Event} {xs : List Effect}
    (hclasses : s'.classes = s.classes) (hmethod : s'.method = s.method)
    (hcalls : s'.calls = s.calls) (hmethodCalls : s.ExtendsCalls s')
    (hxs : Course S s.ledger es xs) (hs' : s'.ledger = xs.foldl State.after s.ledger)
    (hexposes : Exposes [] es) : s.Restores s' := by
  have hscopes : s'.scopes = s.scopes :=
    (congrArg State.scopes hs').trans (hxs.scopes_eq hexposes)
  refine .of_scopes ⟨hclasses, hmethod, by rw [hscopes], by rw [hscopes], ?_, ?_, hmethodCalls⟩ hscopes
  · intro hnamed scope hscope
    exact hnamed scope (hscopes ▸ hscope)
  · exact ⟨[], by rw [hcalls, map_append_nil]⟩

theorem restores_readMethod {S : Source} {type : String} {isConstructor : Bool} {m : Tree}
    {s s' : State} (hrun : (readMethod S type isConstructor m).run s = .ok ((), s')) :
    s.Restores s' := by
  have hextends := extendsCalls_readMethod S type isConstructor m s () s' hrun
  obtain ⟨-, xs, hxs, -, hs'⟩ := follows_readMethod S type isConstructor m s () s' hrun
  obtain ⟨method, calls, -, houtline⟩ := outline_readMethod hrun
  rw [run_readMethod] at hrun
  obtain ⟨p, -, hleave⟩ := bind_eq_ok_iff.1 hrun
  cases hleave
  exact .of_course (congrArg State.classes houtline :) rfl rfl hextends hxs hs'
    (exposes_methodEvents m)

theorem restores_readType {S : Source} {t : Tree} {s s' : State}
    (hrun : (readType S t).run s = .ok ((), s')) : s.Restores s' := by
  have hextends := extendsCalls_readType S t s () s' hrun
  obtain ⟨-, xs, hxs, -, hs'⟩ := follows_readType S t s () s' hrun
  rw [run_readType S t s rfl] at hrun
  obtain ⟨p, -, hleave⟩ := bind_eq_ok_iff.1 hrun
  cases hleave
  exact .of_course rfl rfl rfl hextends hxs hs' (exposes_typeEvents t)

/-! ### Lexical scoping -/

/-- What reading a node in a state does to the scopes. -/
structure LexicallyScoped (S : Source) (t : Tree) (s : State) : Prop where
  expr : ∀ e s', (reading S t).asExpr.run s = .ok (e, s') → s.Restores s'
  lambda : ∀ e s', (readLambda S t (readings S t)).run s = .ok (e, s') → s.Restores s'
  block : ∀ b s', (reading S t).asBlock.run s = .ok (b, s') → s.Restores s'
  loop : ∀ kind l s', (readLoop S t (readings S t) kind).run s = .ok (l, s') → s.Restores s'
  guarded : ∀ g s', (readTry S t (readings S t)).run s = .ok (g, s') → s.Restores s'
  /-- The resources are not visible in the clauses. -/
  resources : ∀ b s', (readGuarded S t (readings S t)).run s = .ok (b, s') → s.Restores s'
  handler : ∀ c b s', (readCatch S t (readings S t) c).run s = .ok (b, s') → s.Restores s'
  switch : ∀ b s', (readSwitch S t (readings S t)).run s = .ok (b, s') → s.Restores s'
  method : ∀ type isConstructor s', (readMethod S type isConstructor t).run s = .ok ((), s') →
    s.Restores s'
  type : ∀ s', (readType S t).run s = .ok ((), s') → s.Restores s'
  /-- A statement declares the variables that it exposes, and nothing else stays visible. -/
  stmt : ∀ r s', (reading S t).asStmt.run s = .ok (r, s') → s.Resumes s' ∧
    ∃ bs, List.Forall₂ (VariableAt S .localVar) t.exposed bs ∧
      s'.scopes = (bs.foldl State.addVariable s).scopes ∧
      (s.scopes ≠ [] → ∀ name,
        s'.lookup name = (bs.filter (·.name == name)).getLast?.or (s.lookup name))
  /-- An identifier refers to the innermost variable of its name. -/
  identifier : t.type = "identifier" → ∃ b,
    (reading S t).asExpr.run s = .ok (.name ⟨S.origin t, S.text t, b⟩, s) ∧
      IsInnermost s.scopes (S.text t) b ∧ (s.Named → ∀ x ∈ b, x.name = S.text t)

theorem State.Named.name_of_lookup {s : State} (h : s.Named) {name : String} {b : Binding}
    (hb : s.lookup name = some b) : b.name = name := by
  obtain ⟨scope, hscope, hget⟩ := List.exists_of_findSome?_eq_some hb
  exact h scope hscope name b hget

theorem run_identifier (S : Source) {t : Tree} (ht : t.type = "identifier") (s : State) :
    (reading S t).asExpr.run s = .ok (.name ⟨S.origin t, S.text t, s.lookup (S.text t)⟩, s) := by
  have hform : ExprForm.ofType t.type = .identifier := by rw [ht]; rfl
  rw [reading_asExpr]
  unfold readExpr
  rw [hform]
  rfl

/-- **Scoping is lexical**: whatever is read, from whatever state, the place being read is as before,
only the innermost scope may have changed and only by what a statement declares outside of any scope of
its own, and an identifier refers to the innermost variable of its name. -/
theorem scoping_is_lexical (S : Source) (t : Tree) (s : State) : LexicallyScoped S t s := by
  have hleads := leads_reading allows_addsCalls S t
  have hfollows := follows_reading S t
  have hread : (readings S t).Tamed True := tame_readings S t
  have hsafe (c : Tree) : c.Safe True := .inl trivial
  have hsmaller : ∀ c : Subtree t, (courses S).Tells c.1 := fun c => tells_courses S c.1
  have hexposed : ∀ (c : Subtree t) (mode : Mode),
      Exposes ((c.1.exposedAs mode).map (.localVar, ·)) (c.1.events mode) := fun c mode =>
    exposes_events c.1 mode
  constructor
  case expr => exact fun e s' hrun => .of_follows hleads.expr hfollows.expr (exposes_events t .expr) hrun
  case block =>
    exact fun b s' hrun => .of_follows hleads.block hfollows.block (exposes_events t .block) hrun
  case lambda =>
    intro e s' hrun
    exact .of_follows ((tame_readLambda hread (hsafe t)).leads allows_addsCalls)
      (notes_courses S _ ▸ Chronicle.follows_readLambda hsmaller) (exposes_lambdaScript hexposed) hrun
  case loop =>
    intro kind l s' hrun
    exact .of_follows ((tame_readLoop hread (hsafe t) kind).leads allows_addsCalls)
      (notes_courses S _ ▸ Chronicle.follows_readLoop hsmaller kind) (exposes_loopScript hexposed kind) hrun
  case guarded =>
    intro g s' hrun
    exact .of_follows ((tame_readTry hread (hsafe t)).leads allows_addsCalls)
      (notes_courses S _ ▸ Chronicle.follows_readTry hsmaller) (exposes_tryScript hexposed) hrun
  case resources =>
    intro b s' hrun
    exact .of_follows ((Tame.inScope (tame_readResources hread (hsafe t))).leads allows_addsCalls)
      (notes_courses S _ ▸ Chronicle.follows_readGuarded hsmaller) (exposes_guardedScript hexposed) hrun
  case handler =>
    intro c b s' hrun
    exact .of_follows ((tame_readCatch hread (hsafe c.1)).leads allows_addsCalls)
      (notes_courses S _ ▸ Chronicle.follows_readCatch hsmaller c) (exposes_catchScript hexposed c) hrun
  case switch =>
    intro b s' hrun
    exact .of_follows ((tame_readSwitch hread (hsafe t)).leads allows_addsCalls)
      (notes_courses S _ ▸ Chronicle.follows_readSwitch hsmaller) (exposes_switchScript hexposed) hrun
  case method => exact fun type isConstructor s' hrun => restores_readMethod hrun
  case type => exact fun s' hrun => restores_readType hrun
  case stmt =>
    intro r s' hrun
    obtain ⟨hresumes, bs, hbs, hscopes⟩ :=
      State.Resumes.of_follows hleads.stmt hfollows.stmt (exposes_events t .stmt) hrun
    rw [List.forall₂_map_left_iff] at hbs
    refine ⟨hresumes, bs, hbs, hscopes, fun hs name => ?_⟩
    rw [State.lookup_congr hscopes, State.lookup_addVariables hs]
  case identifier =>
    intro htype
    refine ⟨_, run_identifier S htype s, s.isInnermost_lookup _, fun hnamed x hx => ?_⟩
    exact hnamed.name_of_lookup hx

end TaintFlow.Java
