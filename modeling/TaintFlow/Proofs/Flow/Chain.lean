import TaintFlow.Proofs.Flow.Recursion

/-!
# Vulnerable means reached by a tainted chain

A *tainted chain* leads backwards from an argument of a sink to a call that yields tainted data.
It is described here without records and without the tracer: `Step` says how a value can have come
to an expression, `Source` where taint enters, `Passes` which expressions a chain may touch, and
`Chain` puts them together.

* `isVulnerable_trace_iff` : a record of a trace is vulnerable iff a tainted chain starts at the
  traced expression.
* `checkSink_reports_tainted_chains` : checking a sink gives one record for each parameter that is
  of concern, in order, and it is vulnerable iff a tainted chain starts at the argument.
-/

namespace TaintFlow.Flow

open TaintFlow.Code TaintFlow.Catalog

/-- The expression is a call of a method. -/
inductive IsInvocation : Expr → Prop
  | intro {origin : Code.Origin} {method : String} {receiver : Option Expr} {arguments : List Expr}
      {receiverType returnType : Option String} :
    IsInvocation (.call origin method receiver arguments receiverType returnType)

section

variable (E : Engine) (rule : Rule)

/-- A step backwards to an expression from which a value can have come, with its number of hops. -/
inductive Step : Expr → ℕ → Expr → Prop
  /-- From a composite expression to one of its operands. -/
  | operand {e a : Expr} (ha : a ∈ e.operands) : Step e 0 a
  /-- From a qualified name to its member. -/
  | member {origin : Code.Origin} {qualifier : Option Expr} {n : Name} :
    Step (.qualified origin qualifier (some n)) 0 (.name n)
  /-- From a variable to its value. -/
  | value {n : Name} {v : Expr} (hv : E.graph.valueOf n = some v) : Step (.name n) 1 v
  /-- From a parameter without a value to the argument at its place in a call of its method. -/
  | argument {n : Name} {b : Binding} {owner : Signature} {invoker : Method × Expr} {a : Expr}
    (hv : E.graph.valueOf n = none) (hb : n.binding = some b) (hkind : b.kind = .parameter)
    (howner : b.owner = some owner) (hi : invoker ∈ E.graph.invokers owner)
    (ha : invoker.2.arguments[b.index.toNat]? = some a) : Step (.name n) 1 a
  /-- From a call to an expression that the body of the called method returns. -/
  | returned {call e : Expr} {m : Method} {body : Stmt} (hcall : IsInvocation call)
    (hs : E.catalog.sanitizationPoint? call = none) (hp : E.catalog.entryPoint? call = none)
    (hm : E.graph.resolve (some call.position.unit) call = some m) (hbody : m.body = some body)
    (he : e ∈ body.returns) : Step call 1 e

/-- A call at which taint enters: it is not cleaned, and it either matches an entry point or calls
no method whose body is known. -/
inductive Source : Expr → Prop
  | entry {call : Expr} {p : Pattern} (hcall : IsInvocation call)
    (hs : E.catalog.sanitizationPoint? call = none) (hp : E.catalog.entryPoint? call = some p) :
    Source call
  | unresolved {call : Expr} (hcall : IsInvocation call)
    (hs : E.catalog.sanitizationPoint? call = none)
    (hm : ∀ m, E.graph.resolve (some call.position.unit) call = some m → m.body = none) :
    Source call

/-- A chain may touch an expression after some hops: it is neither accepted nor trusted, and the
bound on hops is not reached. -/
def Passes (hops : ℕ) (e : Expr) : Prop :=
  rule.accepts e = false ∧ E.trusted.covers e = false ∧ hops < E.maxDepth

/-- A chain of steps, `hops` hops behind the sink, that ends where taint enters. -/
inductive Chain : ℕ → List Expr → Prop
  | last {hops : ℕ} {e : Expr} (hpass : Passes E rule hops e) (hsource : Source E e) :
    Chain hops [e]
  | cons {hops k : ℕ} {e e' : Expr} {rest : List Expr} (hpass : Passes E rule hops e)
    (hstep : Step E e k e') (hrest : Chain (hops + k) (e' :: rest)) : Chain hops (e :: e' :: rest)

/-- A tainted chain starts at the expression. -/
def Tainted (hops : ℕ) (e : Expr) : Prop :=
  ∃ rest, Chain E rule hops (e :: rest)

end

variable {E : Engine} {rule : Rule}

theorem tainted_iff {hops : ℕ} {e : Expr} :
    Tainted E rule hops e ↔ Passes E rule hops e ∧
      (Source E e ∨ ∃ k e', Step E e k e' ∧ Tainted E rule (hops + k) e') := by
  constructor
  · rintro ⟨rest, h⟩
    cases h with
    | last hpass hsource => exact ⟨hpass, .inl hsource⟩
    | cons hpass hstep hrest => exact ⟨hpass, .inr ⟨_, _, hstep, _, hrest⟩⟩
  · rintro ⟨hpass, hsource | ⟨k, e', hstep, rest, hrest⟩⟩
    · exact ⟨[], .last hpass hsource⟩
    · exact ⟨e' :: rest, .cons hpass hstep hrest⟩

/-! ### Chains and moves -/

theorem move_of_isInvocation {call : Expr} (h : IsInvocation call) :
    ∃ method, move E call = moveCall E call method := by
  cases h
  exact ⟨_, rfl⟩

/-- Taint enters exactly where the move ends a path as vulnerable. -/
theorem source_iff_move {e : Expr} :
    Source E e ↔ ∃ kind message, move E e = .stop (.vulnerable kind message) := by
  constructor
  · intro h
    cases h with
    | entry hcall hs hp =>
      obtain ⟨method, hmove⟩ := move_of_isInvocation hcall
      exact ⟨_, _, by rw [hmove, moveCall]; simp only [hs, hp]; rfl⟩
    | unresolved hcall hs hm =>
      obtain ⟨method, hmove⟩ := move_of_isInvocation hcall
      have hbody := Option.bind_eq_none_iff.2 hm
      rw [hmove, moveCall]
      cases hp : E.catalog.entryPoint? e with
      | some p => exact ⟨_, _, by simp only [hs]; rfl⟩
      | none => exact ⟨_, _, by simp only [hs, hbody]; rfl⟩
  · rintro ⟨kind, message, h⟩
    cases e with
    | call o method receiver args rt type =>
      change moveCall E _ method = _ at h
      rcases moveCall_cases E (.call o method receiver args rt type) method with
        hm | ⟨hs, ⟨p, hp, -⟩ | ⟨-, ⟨m, body, -, -, hm⟩ | ⟨hbody, -⟩⟩⟩
      · cases hm.symm.trans h
      · exact .entry .intro hs hp
      · cases hm.symm.trans h
      · exact .unresolved .intro hs hbody
    | name n =>
      change moveName E n = _ at h
      rcases moveName_cases E n with ⟨v, -, hm⟩ | ⟨-, owner, index, -, hm⟩ | hm <;>
        cases hm.symm.trans h
    | _ => cases h

theorem step_name_iff {n : Name} {e' : Expr} {k : ℕ} (hn : n.HasPlace) :
    Step E (.name n) k e' ↔ (k, some e') ∈ (moveName E n).targets := by
  constructor
  · intro h
    cases h with
    | operand ha => cases ha
    | value hv => simp only [moveName, hv]; exact List.mem_cons_self
    | @argument _ b owner invoker _ hv hb hkind howner hi ha =>
      have hp : n.parameter? = some (owner, b.index) :=
        Name.parameter?_eq_some_iff.2 ⟨b, hb, hkind, howner, rfl⟩
      simp only [moveName, hv, hp]
      refine mem_targets_spread.2 ⟨rfl, List.mem_map.2 ⟨invoker, hi, ?_⟩⟩
      rw [argumentAt_of_nonneg (hn b hb hkind), ha]
    | returned hcall => cases hcall
  · intro h
    rcases moveName_cases E n with ⟨v, hv, hm⟩ | ⟨hv, owner, index, hp, hm⟩ | hm <;> rw [hm] at h
    · obtain ⟨rfl, hv'⟩ := Prod.mk.inj (List.mem_singleton.1 h)
      cases hv'
      exact .value hv
    · obtain ⟨rfl, ht⟩ := mem_targets_spread.1 h
      obtain ⟨invoker, hi, ha⟩ := List.mem_map.1 ht
      obtain ⟨b, hb, hkind, howner, rfl⟩ := Name.parameter?_eq_some_iff.1 hp
      rw [argumentAt_of_nonneg (hn b hb hkind)] at ha
      exact .argument hv hb hkind howner hi (Except.ok.inj ha)
    · cases h

theorem step_call_iff {call e' : Expr} {method : String} {k : ℕ} (hcall : IsInvocation call) :
    Step E call k e' ↔ (k, some e') ∈ (moveCall E call method).targets := by
  constructor
  · intro h
    cases h with
    | operand ha => cases hcall; cases ha
    | member => cases hcall
    | value => cases hcall
    | argument => cases hcall
    | @returned _ _ m body _ hs hp hm hbody he =>
      have hbody' : (E.graph.resolve (some call.position.unit) call).bind (·.body) = some body := by
        rw [hm]; exact hbody
      simp only [moveCall, hs, hp, hbody']
      exact mem_targets_spread.2 ⟨rfl, List.mem_map.2 ⟨e', he, rfl⟩⟩
  · intro h
    rcases moveCall_cases E call method with
      hm | ⟨hs, ⟨p, -, hm⟩ | ⟨hp, ⟨m, body, hres, hbody, hm⟩ | ⟨-, hm⟩⟩⟩ <;> rw [hm] at h
    · cases h
    · cases h
    · obtain ⟨rfl, ht⟩ := mem_targets_spread.1 h
      obtain ⟨a, ha, hat⟩ := List.mem_map.1 ht
      cases hat
      exact .returned hcall hs hp hres hbody ha
    · cases h

/-- The steps from a regular expression are where its move leads. -/
theorem step_iff_mem_targets {e e' : Expr} {k : ℕ} (he : e.Regular) :
    Step E e k e' ↔ (k, some e') ∈ (move E e).targets := by
  have operands : ∀ {e : Expr}, (∀ n, e ≠ .name n) → (∀ o q n, e ≠ .qualified o q n) →
      ¬ IsInvocation e → (Step E e k e' ↔
        (k, some e') ∈ (Move.spread 0 (e.operands.map fun a => .ok (some a))).targets) := by
    intro e hname hqual hcall
    rw [mem_targets_spread, List.mem_map]
    constructor
    · intro h
      cases h with
      | operand ha => exact ⟨rfl, e', ha, rfl⟩
      | member => exact absurd rfl (hqual _ _ _)
      | value => exact absurd rfl (hname _)
      | argument => exact absurd rfl (hname _)
      | returned h => exact absurd h hcall
    · rintro ⟨rfl, a, ha, hat⟩
      cases hat
      exact .operand ha
  cases e with
  | name n => exact step_name_iff he.hasPlace
  | call o method receiver args rt type => exact step_call_iff .intro
  | qualified o q m =>
    constructor
    · intro h
      cases h with
      | operand ha => cases ha
      | member => exact List.mem_cons_self
      | returned hcall => cases hcall
    · intro h
      obtain ⟨rfl, hm⟩ := Prod.mk.inj (List.mem_singleton.1 h)
      cases m with
      | none => cases hm
      | some n => cases hm; exact .member
  | textOnly o => exact absurd rfl (he.form o)
  -- every other form is composite or has nothing to lead to
  | _ => exact operands (by simp) (by simp) (by rintro ⟨⟩)

/-! ### Chains and records -/

/-- Performing a move makes a fresh record vulnerable when the move says so, or when one of the
traces to which it leads is vulnerable. -/
theorem isVulnerable_perform_iff {go : ℕ → Hop} {m : Move} {r r' : Record} (hr : r.Fresh)
    (h : perform go m r = .ok r') :
    r'.isVulnerable = true ↔ (∃ kind message, m = .stop (.vulnerable kind message)) ∨
      ∃ k t c, (k, t) ∈ m.targets ∧ go k r t = .ok c ∧ c.isVulnerable = true := by
  constructor
  · intro hv
    obtain ⟨w, hw, hv⟩ := Record.isVulnerable_iff.1 hv
    rcases mem_walk_of_perform hr h hw with ⟨-, hstop⟩ | ⟨k, t, c, ht, hc, hw⟩
    · obtain ⟨kind, message, hverdict⟩ := Verdict.isVulnerable_iff.1 hv
      exact .inl ⟨kind, message, hverdict ▸ hstop hv⟩
    · exact .inr ⟨k, t, c, ht, hc, Record.isVulnerable_iff.2 ⟨w, hw, hv⟩⟩
  · rintro (⟨kind, message, rfl⟩ | ⟨k, t, c, ht, hc, hv⟩)
    · rw [perform_stop hr.pending] at h
      cases h
      exact Record.isVulnerable_iff.2 ⟨_, Record.mem_walk.2 (.inl rfl), rfl⟩
    · cases m with
      | stop | fail => cases ht
      | follow k' t' =>
        obtain ⟨rfl, rfl⟩ := Prod.mk.inj (List.mem_singleton.1 ht)
        cases h.symm.trans hc
        exact hv
      | spread k' ts =>
        obtain ⟨rfl, hts⟩ := mem_targets_spread.1 ht
        obtain ⟨cs, hcs, rfl⟩ :=
          (perform_spread_eq_ok_iff hr.pending (List.ne_nil_of_mem hts)).1 h
        rw [hr.child_eq] at hcs
        obtain ⟨c', hc', a, ha, hca⟩ := exists_right_of_forall₂ hcs hts
        cases ha
        cases hc.symm.trans hca
        rw [Record.isVulnerable_eq, Bool.or_eq_true, List.any_eq_true]
        exact .inr ⟨c, List.mem_append_right _ hc', hv⟩

theorem turn_of_passes {hops : ℕ} {e : Expr} (h : Passes E rule hops e) :
    turn E rule hops e = move E e :=
  turn_of_open h.1 (Int.ofNat_lt.2 h.2.2) h.2.1

theorem turn_of_not_passes {hops : ℕ} {e : Expr} (h : ¬ Passes E rule hops e) :
    ∃ v : Verdict, v.isVulnerable = false ∧ turn E rule hops e = .stop v := by
  rcases turn_cases E rule hops e with hstop | ⟨ha, hd, ht, -⟩
  · exact hstop
  · exact absurd ⟨ha, ht, Int.ofNat_lt.1 hd⟩ h

/-- All records of a trace belong to the sink and the parameter of the record it began with. -/
theorem sink_of_mem_walk :
    ∀ (depth : ℤ) (e : Option Expr) (r r' : Record), r.Fresh → trace E rule depth r e = .ok r' →
      ∀ x ∈ r'.walk, x.sink = r.sink ∧ x.parameter = r.parameter := by
  refine walk_induction ?_ ?_ fun _ _ _ _ _ _ _ hx => hx
  · rintro depth _ x rfl -
    exact ⟨rfl, rfl⟩
  · intro depth e r x hx _
    exact ⟨(congrArg Record.sink hx :), (congrArg Record.parameter hx :)⟩

/-- **Vulnerable means tainted.**  A trace of a regular expression is vulnerable iff a tainted chain
starts at the expression. -/
theorem isVulnerable_trace_iff (hE : ∀ x ∈ E.graph.landings, x.Regular) :
    ∀ (depth : ℤ) (e : Option Expr), (∀ x ∈ e, x.Regular) → ∀ hops : ℕ, depth = hops →
      ∀ r r' : Record, r.Fresh → trace E rule depth r e = .ok r' →
        (r'.isVulnerable = true ↔ ∃ x ∈ e, Tainted E rule hops x) := by
  refine calls_induction E rule fun depth e ih he hops hd r r' hr h => ?_
  subst hd
  cases e with
  | none =>
    rw [trace_none, Record.close_of_pending hr.pending] at h
    cases h
    rw [Record.isVulnerable_eq]
    simp [hr.childless, Verdict.isVulnerable]
  | some e =>
    have hr' : (joined rule e r).Fresh := fresh_joined hr e
    rw [trace_of_pending hr.pending] at h
    rw [isVulnerable_perform_iff hr' h]
    simp only [Option.mem_some_iff, exists_eq_left']
    rw [tainted_iff]
    by_cases hpass : Passes E rule hops e
    · have hm := turn_of_passes hpass
      -- the traces that follow are vulnerable exactly when chains start where they begin
      have hnext : ∀ {k t c}, (k, t) ∈ (move E e).targets →
          trace E rule (hops + k) (joined rule e r) t = .ok c →
          (c.isVulnerable = true ↔ ∃ x ∈ t, Tainted E rule (hops + k) x) := fun ht hc =>
        have hcall := Calls.intro (hm ▸ ht)
        ih _ _ hcall (regular_of_calls hE he hcall) _ rfl _ _ hr' hc
      rw [hm, ← source_iff_move, and_iff_right hpass]
      refine or_congr_right ⟨?_, ?_⟩
      · rintro ⟨k, t, c, ht, hc, hv⟩
        obtain ⟨x, rfl, hx⟩ := (hnext ht hc).1 hv
        exact ⟨k, x, (step_iff_mem_targets (he e rfl)).2 ht, hx⟩
      · rintro ⟨k, x, hstep, hx⟩
        have ht := (step_iff_mem_targets (he e rfl)).1 hstep
        obtain ⟨c, hc⟩ := @exists_trace E rule hE (hops + k) (some x)
          (regular_of_calls hE he (.intro (hm ▸ ht))) (joined rule e r) hr'.pending
        exact ⟨k, some x, c, ht, hc, (hnext ht hc).2 ⟨x, rfl, hx⟩⟩
    · -- the trace stops here with a verdict that is not vulnerable
      obtain ⟨v, hv, hm⟩ := turn_of_not_passes hpass
      rw [hm]
      simp only [hpass, false_and, iff_false]
      rintro (⟨_, _, hstop⟩ | ⟨_, _, _, ht, -⟩)
      · cases hstop
        cases hv
      · cases ht

/-! ### Checking a sink -/

/-- What the record for one parameter of a sink has to say. -/
structure Judges (E : Engine) (call : Expr) (rule : Rule) (index : ℕ) (record : Record) : Prop where
  sink : record.sink = some call
  parameter : record.parameter = some index
  vulnerable : record.isVulnerable = true ↔
    ∃ e rest, call.arguments[index]? = some e ∧ Chain E rule 0 (e :: rest)

theorem exists_judges (hE : ∀ x ∈ E.graph.landings, x.Regular) {call : Expr}
    (hcall : ∀ x ∈ call.arguments, x.Regular) (index : ℕ) :
    ∃ record, trace E rule 0 { sink := some call, parameter := some index }
        call.arguments[index]? = .ok record ∧ Judges E call rule index record := by
  have harg : ∀ x ∈ call.arguments[index]?, x.Regular := fun x hx =>
    hcall x (List.mem_of_getElem? hx)
  obtain ⟨record, h⟩ := @exists_trace E rule hE 0 _ harg
    { sink := some call, parameter := some index } rfl
  obtain ⟨hsink, hparameter⟩ := sink_of_mem_walk 0 _ _ _ ⟨rfl, rfl⟩ h record
    (Record.mem_walk.2 (.inl rfl))
  refine ⟨record, h, hsink, hparameter, ?_⟩
  rw [isVulnerable_trace_iff hE 0 _ harg 0 rfl _ _ ⟨rfl, rfl⟩ h]
  constructor
  · rintro ⟨e, he, rest, hchain⟩
    exact ⟨e, rest, he, hchain⟩
  · rintro ⟨e, rest, he, hchain⟩
    exact ⟨e, he, rest, hchain⟩

theorem traceArguments_judges (hE : ∀ x ∈ E.graph.landings, x.Regular) {call : Expr}
    (hcall : ∀ x ∈ call.arguments, x.Regular) (rules : List Rule) (index : ℕ) :
    ∃ records, traceArguments E call index rules = .ok records ∧
      List.Forall₂ (fun p record => Judges E call p.1 p.2 record)
        ((rules.zipIdx index).filter (!·.1.ignore)) records := by
  induction rules generalizing index with
  | nil => exact ⟨[], rfl, .nil⟩
  | cons rule rules ih =>
    obtain ⟨records, hrecords, hall⟩ := ih (index + 1)
    rw [traceArguments, List.zipIdx_cons]
    by_cases hi : rule.ignore = true
    · rw [if_pos hi, List.filter_cons_of_neg (by simp [hi])]
      exact ⟨records, hrecords, hall⟩
    · obtain ⟨record, hrecord, hj⟩ := @exists_judges E rule hE call hcall index
      rw [if_neg hi, List.filter_cons_of_pos (by simpa using hi)]
      refine ⟨record :: records, ?_, .cons hj hall⟩
      simp only [hrecord, hrecords]
      rfl

/-- **A sink is reported exactly for its tainted arguments.**  Checking a sink gives one record for
each parameter that is of concern, in the order of the parameters, and the record is vulnerable iff
a tainted chain starts at the argument. -/
theorem checkSink_reports_tainted_chains (E : Engine) (call : Expr) (exit : ExitPoint)
    (hE : ∀ x ∈ E.graph.landings, x.Regular) (hcall : ∀ x ∈ call.arguments, x.Regular) :
    ∃ records, checkSink E call exit = .ok records ∧
      List.Forall₂ (fun p record => Judges E call p.1 p.2 record)
        (exit.rules.zipIdx.filter (!·.1.ignore)) records :=
  traceArguments_judges hE hcall exit.rules 0

/-- A call without receiver and arguments. -/
def plainCall (method : String) : Expr :=
  .call ⟨method ++ "()", "A.java", 2, 1⟩ method none [] none none

/-- A variable whose value comes from an entry point. -/
def taintedValue : Engine where
  graph := CallGraph.empty.addBinding "A.java"
    { unit := "A.java", name := "x", kind := .localVar } (plainCall "read")
  catalog := { vulnerability := .sqlInjection, entryPoints := [⟨"Reader", "read", []⟩] }

/-- A call of a sink with the variable as its second argument. -/
def taintedSink : Expr :=
  .call ⟨"run(0, x)", "A.java", 3, 1⟩ "run" none
    [.literal ⟨"0", "A.java", 3, 5⟩ .numberLiteral, .name (localName "x")] none none

/-- An exit point whose first parameter is of no concern. -/
def runPoint : ExitPoint :=
  ⟨⟨"Db", "run", ["int", "String"]⟩, [.ignored, {}]⟩

/-- A sink is reported when its second argument has its value from an entry point. -/
theorem checkSink_taintedSink_reported :
    ∃ record, checkSink taintedValue taintedSink runPoint = .ok [record] ∧
      record.parameter = some 1 ∧ record.isVulnerable = true := by
  have hE : ∀ x ∈ taintedValue.graph.landings, x.Regular := by
    intro x hx
    rw [show taintedValue.graph.landings = [plainCall "read"] from rfl] at hx
    rw [List.mem_singleton.1 hx, plainCall]
    exact .intro (by simp) (by simp) (by simp [Expr.parts, Expr.operands])
  have hcall : ∀ x ∈ taintedSink.arguments, x.Regular := by
    rintro x (_ | ⟨_, _ | ⟨_, ⟨⟩⟩⟩)
    · exact .intro (by simp) (by simp) (by simp [Expr.parts, Expr.operands])
    · exact regular_localName "x"
  have hchain : Chain taintedValue {} 0 [.name (localName "x"), plainCall "read"] :=
    .cons ⟨rfl, rfl, by decide⟩ (.value rfl) (.last ⟨rfl, rfl, by decide⟩ (.entry .intro rfl rfl))
  obtain ⟨records, hok, hall⟩ := checkSink_reports_tainted_chains taintedValue taintedSink
    runPoint hE hcall
  cases hall with
  | cons hj hnil =>
    cases hnil
    exact ⟨_, hok, hj.parameter, hj.vulnerable.2 ⟨_, _, rfl, hchain⟩⟩

end TaintFlow.Flow
