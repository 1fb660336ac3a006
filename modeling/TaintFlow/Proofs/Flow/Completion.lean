import TaintFlow.Proofs.Flow.Recursion

/-!
# The tree that a trace leaves

A trace hands an open record on, branches it or closes it, and never comes back to a record that it
has closed.  So a trace that begins with a fresh record cannot fail at a closed one, and when it
comes to an end it has decided every path.

* `exists_of_branchEach_eq_error` : spreading an open record fails only where a branch fails.
* `trace_ne_closed` : a trace of an open record never meets a closed one.
* `Record.Complete` : how a record stands in a tree in which every path is decided.
* `outcome_of_trace` : a trace of a fresh record leaves such a tree.
-/

namespace TaintFlow.Flow

open TaintFlow.Code TaintFlow.Catalog

variable {E : Engine} {rule : Rule}

/-! ### Closed records are never met -/

/-- The faults that a move brings up by itself. -/
def Move.Faults : Move → Fault → Prop
  | spread _ ts, f => .error f ∈ ts
  | fail f', f => f = f'
  | _, _ => False

theorem not_faults_spread_ok (hops : ℕ) (es : List Expr) (f : Fault) :
    ¬ (Move.spread hops (es.map fun a => .ok (some a))).Faults f := by
  intro h
  obtain ⟨a, -, ha⟩ := List.mem_map.1 h
  cases ha

theorem argumentAt_ne_closed (args : List Expr) (index : ℤ) (cause : Closed) :
    argumentAt args index ≠ .error (.closed cause) := by
  unfold argumentAt
  split_ifs <;> simp

theorem not_faults_move (e : Expr) (cause : Closed) : ¬ (move E e).Faults (.closed cause) := by
  cases e with
  | name n =>
    change ¬ (moveName E n).Faults _
    rcases moveName_cases E n with ⟨_, -, hm⟩ | ⟨-, owner, index, -, hm⟩ | hm <;> rw [hm]
    · exact id
    · intro h
      obtain ⟨invoker, -, ha⟩ := List.mem_map.1 h
      exact argumentAt_ne_closed _ _ cause ha
    · exact id
  | call o method receiver args rt type =>
    change ¬ (moveCall E _ method).Faults _
    rcases moveCall_cases E (.call o method receiver args rt type) method with
      hm | ⟨-, ⟨_, -, hm⟩ | ⟨-, ⟨_, body, -, -, hm⟩ | ⟨-, hm⟩⟩⟩ <;> rw [hm]
    · exact id
    · exact id
    · exact not_faults_spread_ok _ _ _
    · exact id
  | qualified o q m => exact id
  | textOnly o => exact Fault.noConfusion
  | _ => exact not_faults_spread_ok _ _ _

theorem not_faults_turn (depth : ℤ) (e : Expr) (cause : Closed) :
    ¬ (turn E rule depth e).Faults (.closed cause) := by
  rcases turn_cases E rule depth e with ⟨v, -, hstop⟩ | ⟨-, -, -, hmove⟩
  · rw [hstop]
    exact id
  · rw [hmove]
    exact not_faults_move e cause

/-- Spreading an open record fails only where a branch fails. -/
theorem exists_of_branchEach_eq_error {α : Type} {go : α → Record → Except Fault Record}
    {r : Record} (hr : r.verdict = .pending) {xs : List α} {f : Fault}
    (h : branchEach go xs r = .error f) : ∃ x ∈ xs, go x r.child = .error f := by
  induction xs generalizing r with
  | nil => cases h
  | cons x xs ih =>
    rw [branchEach_cons_of_pending hr] at h
    cases hx : go x r.child with
    | error f' =>
      rw [hx] at h
      cases h
      exact ⟨x, List.mem_cons_self, hx⟩
    | ok c =>
      rw [hx] at h
      obtain ⟨y, hy, hgo⟩ := ih (r := r.addChild c) hr h
      exact ⟨y, List.mem_cons_of_mem x hy, hgo⟩

/-- Performing a move on an open record brings up a fault of the move itself or of a trace to which
it leads. -/
theorem faults_of_perform {go : ℕ → Hop} {m : Move} {r : Record} {f : Fault}
    (hr : r.verdict = .pending) (h : perform go m r = .error f) :
    m.Faults f ∨ ∃ k t r', (k, t) ∈ m.targets ∧ r'.verdict = .pending ∧ go k r' t = .error f := by
  cases m with
  | stop v => cases h
  | follow k t => exact .inr ⟨k, t, r, List.mem_cons_self, hr, h⟩
  | fail f' => cases h; exact .inl rfl
  | spread k ts =>
    cases ts with
    | nil => cases h
    | cons t ts =>
      obtain ⟨x, hx, hgo⟩ := exists_of_branchEach_eq_error hr h
      cases x with
      | error f' => cases hgo; exact .inl hx
      | ok a => exact .inr ⟨k, a, r.child, mem_targets_spread.2 ⟨rfl, hx⟩, rfl, hgo⟩

/-- **A trace of an open record never meets a closed one.** -/
theorem trace_ne_closed (cause : Closed) :
    ∀ (depth : ℤ) (e : Option Expr) (r : Record), r.verdict = .pending →
      trace E rule depth r e ≠ .error (.closed cause) := by
  refine calls_induction E rule fun depth e ih r hr h => ?_
  cases e with
  | none => rw [trace_none] at h; cases h
  | some e =>
    rw [trace_of_pending hr] at h
    have hr' : (joined rule e r).verdict = .pending := hr
    rcases faults_of_perform hr' h with hf | ⟨k, t, c, ht, hc, hgo⟩
    · exact not_faults_turn depth e cause hf
    · exact ih _ _ (.intro ht) c hc hgo

/-! ### Every path is decided -/

/-- A path is only ever ended with a verdict. -/
theorem isFinal_of_turn {depth : ℤ} {e : Expr} {v : Verdict}
    (h : turn E rule depth e = .stop v) : v.isFinal = true := by
  have hmove : move E e = .stop v → v.isFinal = true := by
    intro h
    cases e with
    | name n =>
      change moveName E n = .stop v at h
      rcases moveName_cases E n with ⟨_, -, hm⟩ | ⟨-, _, _, -, hm⟩ | hm <;> rw [hm] at h <;>
        cases h
      rfl
    | call o method receiver args rt type =>
      change moveCall E _ method = .stop v at h
      rcases moveCall_cases E (.call o method receiver args rt type) method with
        hm | ⟨-, ⟨_, -, hm⟩ | ⟨-, ⟨_, _, -, -, hm⟩ | ⟨-, hm⟩⟩⟩ <;> rw [hm] at h <;> cases h <;> rfl
    | _ => cases h
  unfold turn at h
  split_ifs at h
  · cases h; rfl
  · cases h; rfl
  · cases h; rfl
  · exact hmove h

namespace Record

/-- A record as it stands in a tree in which every path is decided: either its path ends with a
verdict, or it is continued by its children and says nothing itself. -/
structure Complete (x : Record) : Prop where
  /-- A record that is not continued has a verdict. -/
  leaf : x.children = [] → x.isClosed = true
  /-- A record that is continued has none. -/
  inner : x.children ≠ [] → x.verdict = .pending
  /-- Only what is vulnerable is said to be so, and how. -/
  kind : x.verdict.kind?.isSome = true ↔ x.verdict.isVulnerable = true
  message : x.verdict.message?.isSome = true ↔ x.verdict.isVulnerable = true
  /-- The children go on where the record has come to. -/
  path : ∀ c ∈ x.children, x.path <+: c.path

/-- The tree is what a trace makes of the record `r`. -/
structure Outcome (r tree : Record) : Prop where
  path : r.path <+: tree.path
  complete : ∀ x ∈ tree.walk, x.Complete ∧ x.sink = r.sink ∧ x.parameter = r.parameter

theorem Fresh.outcome_close {r : Record} (hr : r.Fresh) {v : Verdict} (hv : v.isFinal = true) :
    r.Outcome { r with verdict := v } := by
  refine ⟨List.prefix_rfl, fun x hx => ?_⟩
  rcases mem_walk.1 hx with rfl | ⟨c, hc, -⟩
  · exact ⟨⟨fun _ => hv, fun h => absurd hr.childless h, v.isSome_kind?, v.isSome_message?,
      fun c hc => by rw [hr.childless] at hc; cases hc⟩, rfl, rfl⟩
  · rw [hr.childless] at hc
    cases hc

/-- A record that is continued by finished trees is finished itself. -/
theorem Fresh.outcome_adopt {r : Record} (hr : r.Fresh) {cs : List Record} (hne : cs ≠ [])
    (h : ∀ c ∈ cs, r.Outcome c) : r.Outcome (r.adopt cs) := by
  have hcs : (r.adopt cs).children = cs := by
    change r.children ++ cs = cs
    rw [hr.childless, List.nil_append]
  refine ⟨List.prefix_rfl, fun x hx => ?_⟩
  rcases mem_walk.1 hx with rfl | ⟨c, hc, hxc⟩
  · refine ⟨⟨fun hnil => absurd (hcs.symm.trans hnil) hne, fun _ => hr.pending, Verdict.isSome_kind? _,
      Verdict.isSome_message? _, fun c hc => ?_⟩, rfl, rfl⟩
    rw [hcs] at hc
    exact (h c hc).path
  · rw [hcs] at hc
    exact (h c hc).complete x hxc

end Record

theorem Record.Outcome.of_joined {e : Expr} {r tree : Record}
    (h : (joined rule e r).Outcome tree) : r.Outcome tree := by
  refine ⟨List.IsPrefix.trans ?_ h.path, h.complete⟩
  change r.path <+: if rule.accepts e then r.path else r.path ++ [e]
  split
  · exact List.prefix_rfl
  · exact List.prefix_append _ _

/-- **A trace of a fresh record leaves a tree in which every path is decided.** -/
theorem outcome_of_trace :
    ∀ (depth : ℤ) (e : Option Expr) (r r' : Record), r.Fresh → trace E rule depth r e = .ok r' →
      r.Outcome r' := by
  refine calls_induction E rule fun depth e ih r r' hr h => ?_
  cases e with
  | none =>
    rw [trace_none, Record.close_of_pending hr.pending] at h
    cases h
    exact hr.outcome_close rfl
  | some e =>
    have hr' : (joined rule e r).Fresh := fresh_joined hr e
    rw [trace_of_pending hr.pending] at h
    refine @Record.Outcome.of_joined rule e r r' ?_
    cases hm : turn E rule depth e with
    | stop v =>
      rw [hm, perform_stop hr'.pending] at h
      cases h
      exact hr'.outcome_close (isFinal_of_turn hm)
    | follow k t =>
      rw [hm] at h
      exact ih _ _ (.intro (hm ▸ List.mem_cons_self)) _ _ hr' h
    | fail f => rw [hm] at h; cases h
    | spread k ts =>
      rw [hm] at h
      by_cases hts : ts = []
      · rw [hts, perform_spread_nil hr'.pending] at h
        cases h
        exact hr'.outcome_close rfl
      · obtain ⟨cs, hcs, rfl⟩ := (perform_spread_eq_ok_iff hr'.pending hts).1 h
        have hne : cs ≠ [] := by
          rintro rfl
          cases hcs
          exact hts rfl
        refine hr'.outcome_adopt hne fun c hc => ?_
        obtain ⟨t, ht, a, rfl, hca⟩ := exists_left_of_forall₂ hcs hc
        rw [hr'.child_eq] at hca
        exact ih _ _ (.intro (hm ▸ mem_targets_spread.2 ⟨rfl, ht⟩)) _ _ hr' hca

/-- **What a trace leaves behind**, for every call graph, rule, number of hops and expression.  From
a fresh record on it never meets a closed record; when all expressions are regular it comes to a
tree; and in a tree that it comes to every path is decided, about the same argument of the same
sink. -/
theorem trace_decides_every_path (E : Engine) (rule : Rule) (depth : ℤ) (e : Option Expr)
    {r : Record} (hr : r.Fresh) :
    (∀ cause, trace E rule depth r e ≠ .error (.closed cause)) ∧
    ((∀ x ∈ E.graph.landings, x.Regular) → (∀ x ∈ e, x.Regular) →
      ∃ r', trace E rule depth r e = .ok r') ∧
    ∀ r', trace E rule depth r e = .ok r' → r.path <+: r'.path ∧
      ∀ x ∈ r'.walk, x.Complete ∧ x.sink = r.sink ∧ x.parameter = r.parameter := by
  refine ⟨fun cause => trace_ne_closed cause depth e r hr.pending,
    fun hE he => exists_trace hE depth e he r hr.pending, fun r' h => ?_⟩
  have ho : r.Outcome r' := outcome_of_trace depth e r r' hr h
  exact ⟨ho.path, ho.complete⟩

/-- The sum of two variables, each of which has the other as its value. -/
def mutualSum : Expr :=
  .binary ⟨"x + y", "A.java", 1, 1⟩ "+" (some (.name (localName "x"))) (some (.name (localName "y")))

/-- The trace of the sum goes on in two branches, and both come to a verdict. -/
theorem trace_mutualSum_decides :
    ∃ r', trace mutualValues {} 0 {} (some mutualSum) = .ok r' ∧ r'.children.length = 2 ∧
      ∀ x ∈ r'.walk, x.Complete := by
  obtain ⟨-, hex, hall⟩ := trace_decides_every_path mutualValues {} 0 (some mutualSum)
    (r := {}) ⟨rfl, rfl⟩
  have hregular : ∀ x ∈ mutualValues.graph.landings, x.Regular := by
    have hland : mutualValues.graph.landings = [.name (localName "y"), .name (localName "x")] := rfl
    rw [hland]
    simp [regular_localName]
  have hsum : mutualSum.Regular := by
    refine .intro nofun nofun fun p hp => ?_
    have hparts : mutualSum.parts = [.name (localName "x"), .name (localName "y")] := rfl
    rw [hparts] at hp
    simp only [List.mem_cons, List.not_mem_nil, or_false] at hp
    rcases hp with rfl | rfl <;> exact regular_localName _
  obtain ⟨r', hr'⟩ := hex hregular (by simpa using hsum)
  refine ⟨r', hr', ?_, fun x hx => ((hall r' hr').2 x hx).1⟩
  have hlen : (trace mutualValues {} 0 {} (some mutualSum)).toOption.map (·.children.length) =
      some 2 := by decide +kernel
  rw [hr'] at hlen
  exact Option.some.inj hlen

end TaintFlow.Flow
