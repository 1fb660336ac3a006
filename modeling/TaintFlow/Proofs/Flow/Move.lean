import TaintFlow.Flow.Trace
import TaintFlow.Proofs.CallGraph.Lookup
import TaintFlow.Proofs.Code.Height
import TaintFlow.Proofs.Flow.Record
import Mathlib.Data.Int.Notation
import Mathlib.Data.List.Forall2

/-!
# The moves of a trace

`turn` says what a trace does at one expression, before any of it is done: it stops with a verdict,
goes on at one expression in the same record, spreads over several in branches of the record, or
cannot go on.  `perform` carries such a move out.

* `trace_some` : a trace is the performance of its turn, with the trace itself, some hops later,
  for what follows.  All other facts about traces rest on this equation; none of them looks at the
  forms of expressions again.
* `branchEach_eq_ok_iff` : what spreading a record gives.
* `targets_move` : a move without a hop leads to a part of the expression, and a hop leads to an
  expression that the call graph keeps.
-/

namespace TaintFlow

open TaintFlow.Code TaintFlow.Catalog

/-- The method that owns the parameter a name refers to, and the place of the parameter. -/
def Code.Name.parameter? (n : Name) : Option (Signature × ℤ) :=
  match n.binding with
  | some ⟨_, _, .parameter, _, some owner, _, index, _, _⟩ => some (owner, index)
  | _ => none

theorem Code.Name.parameter?_eq_some_iff {n : Name} {owner : Signature} {index : ℤ} :
    n.parameter? = some (owner, index) ↔
      ∃ b, n.binding = some b ∧ b.kind = .parameter ∧ b.owner = some owner ∧ b.index = index := by
  unfold Code.Name.parameter?
  rcases n.binding with _ | ⟨unit, name, kind, type, owner', declaring, index', line, column⟩
  · simp
  · cases kind <;> cases owner' <;> simp

namespace Flow

/-- How a trace goes on from an expression. -/
inductive Move where
  /-- The path ends with a verdict. -/
  | stop (verdict : Verdict)
  /-- The record goes on at one expression, if it is there. -/
  | follow (hops : ℕ) (target : Option Expr)
  /-- The record goes on in one branch for each target; without any it is safe. -/
  | spread (hops : ℕ) (targets : List (Except Fault (Option Expr)))
  /-- There is no way to go on. -/
  | fail (fault : Fault)

/-- Where a move leads, with the number of hops it takes. -/
def Move.targets : Move → List (ℕ × Option Expr)
  | stop _ => []
  | follow hops target => [(hops, target)]
  | spread hops targets => (targets.filterMap Except.toOption).map fun target => (hops, target)
  | fail _ => []

/-- Carries a move out on a record, with `go` for what follows after some hops. -/
def perform (go : ℕ → Hop) : Move → Record → Except Fault Record
  | .stop verdict, r => .ok (r.close verdict)
  | .follow hops target, r => go hops r target
  | .spread _ [], r => .ok (r.close .safe)
  | .spread hops (t :: ts), r =>
    branchEach (fun target child => do go hops child (← target)) (t :: ts) r
  | .fail fault, _ => .error fault

section

variable (E : Engine) (rule : Rule)

/-- The move at a simple name. -/
def moveName (n : Name) : Move :=
  match E.graph.valueOf n with
  | some value => .follow 1 (some value)
  | none =>
    match n.parameter? with
    | some (owner, index) =>
      .spread 1 ((E.graph.invokers owner).map fun invoker => argumentAt invoker.2.arguments index)
    | none => .stop .safe

/-- The move at a call. -/
def moveCall (call : Expr) (method : String) : Move :=
  if (E.catalog.sanitizationPoint? call).isSome then .stop .safe
  else
    match E.catalog.entryPoint? call with
    | some p => .stop (.vulnerable .entryPoint ("Entry point method: " ++ p.toText))
    | none =>
      match (E.graph.resolve (some call.position.unit) call).bind (·.body) with
      | some body => .spread 1 (body.returns.map fun e => .ok (some e))
      | none => .stop (.vulnerable .unknown ("unresolvable call: " ++ method))

/-- The move at an expression that is neither accepted nor trusted. -/
def move : Expr → Move
  | .name n => moveName E n
  | .qualified _ _ m => .follow 0 (m.map .name)
  | e@(.call _ method _ _ _ _) => moveCall E e method
  | .textOnly _ => .fail .noRule
  | e => .spread 0 (e.operands.map fun a => .ok (some a))

/-- What a trace does at an expression after `depth` hops. -/
def turn (depth : ℤ) (e : Expr) : Move :=
  if rule.accepts e then .stop .safe
  else if (E.maxDepth : ℤ) ≤ depth then .stop .depthExceeded
  else if E.trusted.covers e then .stop .safe
  else move E e

/-- Puts an expression on the path of a record, unless it is accepted. -/
def joinPath (e : Expr) (r : Record) : Except Fault Record :=
  if rule.accepts e then .ok r else extend r e

end

/-! ### Spreading a record -/

theorem extend_of_pending {r : Record} (h : r.verdict = .pending) (e : Expr) :
    extend r e = .ok { r with path := r.path ++ [e] } := by
  rw [extend, Record.append_of_pending h]; rfl

theorem branchEach_map {α β : Type} (f : α → β) (go : β → Record → Except Fault Record)
    (xs : List α) (r : Record) :
    branchEach go (xs.map f) r = branchEach (fun x => go (f x)) xs r := by
  induction xs generalizing r with
  | nil => rfl
  | cons x xs ih => simp only [List.map_cons, branchEach, ih]

theorem branchEach_append {α : Type} (go : α → Record → Except Fault Record) (xs ys : List α)
    (r : Record) :
    branchEach go (xs ++ ys) r = (branchEach go xs r >>= branchEach go ys) := by
  induction xs generalizing r with
  | nil => rfl
  | cons x xs ih => simp only [List.cons_append, branchEach, ih, bind_assoc]

theorem branchEach_cons_of_pending {α : Type} {go : α → Record → Except Fault Record} {r : Record}
    (h : r.verdict = .pending) (x : α) (xs : List α) :
    branchEach go (x :: xs) r =
      (go x r.child >>= fun c => branchEach go xs (r.addChild c)) := by
  rw [branchEach, Record.branch_of_pending h]; rfl

/-- **Spreading an open record** succeeds when every branch does, and the branches become its
children in order. -/
theorem branchEach_eq_ok_iff {α : Type} {go : α → Record → Except Fault Record} {r r' : Record}
    (h : r.verdict = .pending) {xs : List α} :
    branchEach go xs r = .ok r' ↔
      ∃ cs, List.Forall₂ (fun x c => go x r.child = .ok c) xs cs ∧
        r' = r.adopt cs := by
  induction xs generalizing r with
  | nil =>
    constructor
    · rintro ⟨⟩
      exact ⟨[], .nil, (Record.adopt_nil _).symm⟩
    · rintro ⟨cs, hcs, rfl⟩
      cases hcs
      rw [Record.adopt_nil]; rfl
  | cons x xs ih =>
    rw [branchEach_cons_of_pending h]
    constructor
    · intro hr
      cases hx : go x r.child with
      | error f => rw [hx] at hr; cases hr
      | ok c =>
        rw [hx] at hr
        obtain ⟨cs, hcs, rfl⟩ := (ih (r := r.addChild c) h).1 hr
        exact ⟨c :: cs, .cons hx hcs, Record.adopt_addChild ..⟩
    · rintro ⟨cs, hcs, rfl⟩
      cases hcs with
      | @cons _ c _ cs hx hcs =>
        rw [hx]
        exact (ih (r := r.addChild c) h).2 ⟨cs, hcs, (Record.adopt_addChild ..).symm⟩

/-! ### The equation of a trace -/

section

variable {E : Engine} {rule : Rule} {next : Option Hop}

theorem visitAll_eq_branchEach (es : List Expr) (r : Record) :
    visitAll E rule next es r = branchEach (visit E rule next) es r := by
  induction es generalizing r with
  | nil => rfl
  | cons e es ih => simp only [visitAll, branchEach, ih]

theorem visitOpt_eq_branchEach (e : Option Expr) (r : Record) :
    visitOpt E rule next e r = branchEach (visit E rule next) e.toList r := by
  cases e <;> rfl

theorem visitOpt_bind (a b : Option Expr) (r : Record) :
    (visitOpt E rule next a r >>= visitOpt E rule next b) =
      branchEach (visit E rule next) (a.toList ++ b.toList) r := by
  rw [branchEach_append, visitOpt_eq_branchEach]
  simp only [funext (visitOpt_eq_branchEach b)]

variable (E rule next) in
/-- What follows after some hops: the expression is visited at once, or handed to `hop`. -/
def onward (hop : Hop) : ℕ → Hop
  | 0 => continueAt E rule next
  | _ + 1 => hop

theorem perform_spread_map {α : Type} (go : ℕ → Hop) (hops : ℕ)
    (f : α → Except Fault (Option Expr)) (xs : List α) (r : Record) :
    perform go (.spread hops (xs.map f)) r =
      if xs.isEmpty then .ok (r.close .safe)
      else branchEach (fun x child => f x >>= go hops child) xs r := by
  cases xs with
  | nil => rfl
  | cons x xs =>
    exact branchEach_map f (fun target child => target >>= go hops child) (x :: xs) r

variable (rule next) in
theorem visitBinding_eq_perform (hop : Hop) (n : Name) (r : Record) :
    visitBinding E hop n r = perform (onward E rule next hop) (moveName E n) r := by
  unfold visitBinding moveName Code.Name.parameter?
  cases E.graph.valueOf n with
  | some value => rfl
  | none =>
    rcases n.binding with _ | ⟨_, _, kind, _, owner, _, index, _, _⟩
    · rfl
    · cases kind <;> cases owner <;> try rfl
      -- what is left is a parameter with its owner
      rename_i owner
      simp only [visitInvokers, perform_spread_map]
      cases E.graph.invokers owner <;> rfl

variable (rule next) in
theorem visitCall_eq_perform (hop : Hop) (call : Expr) (method : String) (r : Record) :
    visitCall E hop call method r =
      perform (onward E rule next hop) (moveCall E call method) r := by
  unfold visitCall moveCall
  split
  · rfl
  · cases E.catalog.entryPoint? call with
    | some p => rfl
    | none =>
      rcases E.graph.resolve (some call.position.unit) call with _ | ⟨_, _, _, _, _ | body, _⟩
      · rfl
      · rfl
      · simp only [Option.bind_some, perform_spread_map]
        cases body.returns <;> rfl

/-- Visiting an expression is entering it and performing its move. -/
theorem visit_eq_enter (e : Expr) (r : Record) :
    visit E rule next e r =
      enter E rule next e r fun hop r => perform (onward E rule next hop) (move E e) r := by
  have operands : ∀ (es : List Expr) (hop : Hop) (r : Record),
      perform (onward E rule next hop) (.spread 0 (es.map fun a => .ok (some a))) r =
        if es.isEmpty then .ok (r.close .safe) else branchEach (visit E rule next) es r := by
    intro es hop r
    rw [perform_spread_map]; rfl
  cases e with
  | literal o k => rfl
  | binary o op a b =>
    simp only [visit, enterOperands, visitOpt_bind, move, operands]; rfl
  | unary o op a =>
    simp only [visit, enterOperands, visitOpt_eq_branchEach, move, operands]; rfl
  | conditional o c a b =>
    simp only [visit, enterOperands, visitOpt_bind, move, operands]; rfl
  | assignment o op a b =>
    simp only [visit, enterOperands, visitOpt_bind, move, operands]; rfl
  | cast o t a =>
    simp only [visit, enterOperands, visitOpt_eq_branchEach, move, operands]; rfl
  | creation o t es =>
    simp only [visit, enterOperands, visitAll_eq_branchEach, move, operands]; rfl
  | array o es t =>
    simp only [visit, enterOperands, visitAll_eq_branchEach, move, operands]; rfl
  | parenthesized o a =>
    simp only [visit, enterOperands, visitOpt_eq_branchEach, move, operands]; rfl
  | name n =>
    simp only [visit, visitName, visitBinding_eq_perform rule next]; rfl
  | qualified o q m => cases m <;> rfl
  | call o method receiver args rt t =>
    simp only [visit, visitCall_eq_perform rule next]; rfl
  | unsupported o c => rfl
  | textOnly o => rfl

end

/-! ### Where a move leads -/

theorem mem_targets_spread {hops k : ℕ} {ts : List (Except Fault (Option Expr))}
    {t : Option Expr} : (k, t) ∈ (Move.spread hops ts).targets ↔ k = hops ∧ .ok t ∈ ts := by
  simp only [Move.targets, List.mem_map, List.mem_filterMap, Prod.mk.injEq]
  constructor
  · rintro ⟨a, ⟨x, hx, ha⟩, rfl, rfl⟩
    cases x with
    | error f => cases ha
    | ok b => cases ha; exact ⟨rfl, hx⟩
  · rintro ⟨rfl, ht⟩
    exact ⟨t, ⟨.ok t, ht, rfl⟩, rfl, rfl⟩

theorem branchEach_congr {α : Type} {go go' : α → Record → Except Fault Record} {xs : List α}
    (h : ∀ x ∈ xs, ∀ r, go x r = go' x r) (r : Record) :
    branchEach go xs r = branchEach go' xs r := by
  induction xs generalizing r with
  | nil => rfl
  | cons x xs ih =>
    simp only [branchEach, h x List.mem_cons_self,
      fun r => ih (fun y hy => h y (List.mem_cons_of_mem _ hy)) r]

/-- Performing a move asks for what follows only where the move leads. -/
theorem perform_congr {go go' : ℕ → Hop} {m : Move}
    (h : ∀ k t, (k, t) ∈ m.targets → ∀ r, go k r t = go' k r t) (r : Record) :
    perform go m r = perform go' m r := by
  cases m with
  | stop v => rfl
  | follow hops target => exact h hops target List.mem_cons_self r
  | fail f => rfl
  | spread hops ts =>
    cases ts with
    | nil => rfl
    | cons t ts =>
      rw [perform, perform]
      refine branchEach_congr (fun x hx child => ?_) r
      cases x with
      | error f => rfl
      | ok target => exact h hops target (mem_targets_spread.2 ⟨rfl, hx⟩) child

theorem mem_of_argumentAt {args : List Expr} {index : ℤ} {a : Expr}
    (h : argumentAt args index = .ok (some a)) : a ∈ args := by
  unfold argumentAt at h
  split at h
  · split at h
    · cases h
    · exact List.mem_of_getElem? (Except.ok.inj h)
  · exact List.mem_of_getElem? (Except.ok.inj h)

theorem argumentAt_of_nonneg {index : ℤ} (h : 0 ≤ index) (args : List Expr) :
    argumentAt args index = .ok args[index.toNat]? :=
  if_neg (by omega)

/-- All that the move at a simple name can be. -/
theorem moveName_cases (E : Engine) (n : Name) :
    (∃ v, E.graph.valueOf n = some v ∧ moveName E n = .follow 1 (some v)) ∨
    (E.graph.valueOf n = none ∧ ∃ owner index, n.parameter? = some (owner, index) ∧
      moveName E n = .spread 1 ((E.graph.invokers owner).map fun invoker =>
        argumentAt invoker.2.arguments index)) ∨
    moveName E n = .stop .safe := by
  cases hv : E.graph.valueOf n with
  | some v => exact .inl ⟨v, rfl, by simp only [moveName, hv]⟩
  | none =>
    cases hp : n.parameter? with
    | some p => exact .inr (.inl ⟨rfl, p.1, p.2, rfl, by simp only [moveName, hv, hp]⟩)
    | none => exact .inr (.inr (by simp only [moveName, hv, hp]))

/-- All that the move at a call can be. -/
theorem moveCall_cases (E : Engine) (call : Expr) (method : String) :
    moveCall E call method = .stop .safe ∨
    (E.catalog.sanitizationPoint? call = none ∧
      ((∃ p, E.catalog.entryPoint? call = some p ∧ moveCall E call method =
          .stop (.vulnerable .entryPoint ("Entry point method: " ++ p.toText))) ∨
        (E.catalog.entryPoint? call = none ∧
          ((∃ m body, E.graph.resolve (some call.position.unit) call = some m ∧
              m.body = some body ∧
              moveCall E call method = .spread 1 (body.returns.map fun e => .ok (some e))) ∨
            ((∀ m, E.graph.resolve (some call.position.unit) call = some m → m.body = none) ∧
              moveCall E call method =
                .stop (.vulnerable .unknown ("unresolvable call: " ++ method))))))) := by
  unfold moveCall
  cases hs : E.catalog.sanitizationPoint? call with
  | some p => exact .inl rfl
  | none =>
    refine .inr ⟨rfl, ?_⟩
    cases hp : E.catalog.entryPoint? call with
    | some p => exact .inl ⟨p, rfl, rfl⟩
    | none =>
      refine .inr ⟨rfl, ?_⟩
      cases hb : (E.graph.resolve (some call.position.unit) call).bind (·.body) with
      | some body =>
        obtain ⟨m, hm, hbody⟩ := Option.bind_eq_some_iff.1 hb
        exact .inl ⟨m, body, hm, hbody, rfl⟩
      | none => exact .inr ⟨Option.bind_eq_none_iff.1 hb, rfl⟩

/-- **Where a move leads**: without a hop to a part of the expression, and with a hop to an
expression that the call graph keeps. -/
theorem targets_move {E : Engine} {e : Expr} {hops : ℕ} {t : Option Expr}
    (h : (hops, t) ∈ (move E e).targets) :
    (hops = 0 ∧ ∀ p ∈ t, p ∈ e.parts) ∨ (hops = 1 ∧ ∀ p ∈ t, p ∈ E.graph.landings) := by
  have operands : ∀ {e : Expr}, (hops, t) ∈
      (Move.spread 0 (e.operands.map fun a => .ok (some a))).targets →
      hops = 0 ∧ ∀ p ∈ t, p ∈ e.operands := by
    intro e h
    obtain ⟨rfl, ht⟩ := mem_targets_spread.1 h
    obtain ⟨a, ha, hat⟩ := List.mem_map.1 ht
    cases hat
    exact ⟨rfl, fun p hp => Option.mem_some.1 hp ▸ ha⟩
  cases e with
  | name n =>
    right
    change (hops, t) ∈ (moveName E n).targets at h
    rcases moveName_cases E n with ⟨v, hv, hm⟩ | ⟨-, owner, index, -, hm⟩ | hm <;> rw [hm] at h
    · obtain ⟨rfl, rfl⟩ := Prod.mk.inj (List.mem_singleton.1 h)
      exact ⟨rfl, fun p hp => Option.mem_some.1 hp ▸ CallGraph.mem_landings_of_valueOf hv⟩
    · obtain ⟨rfl, ht⟩ := mem_targets_spread.1 h
      obtain ⟨invoker, hi, ha⟩ := List.mem_map.1 ht
      refine ⟨rfl, fun p hp => CallGraph.mem_landings_of_mem_invokers hi ?_⟩
      rw [Option.mem_def.1 hp] at ha
      exact mem_of_argumentAt ha
    · cases h
  | call o method receiver args rt type =>
    right
    change (hops, t) ∈ (moveCall E _ method).targets at h
    rcases moveCall_cases E (.call o method receiver args rt type) method with
      hm | ⟨-, ⟨p, -, hm⟩ | ⟨-, ⟨m, body, hres, hbody, hm⟩ | ⟨-, hm⟩⟩⟩ <;> rw [hm] at h
    · cases h
    · cases h
    · obtain ⟨rfl, ht⟩ := mem_targets_spread.1 h
      obtain ⟨a, ha, hat⟩ := List.mem_map.1 ht
      cases hat
      refine ⟨rfl, fun p hp => ?_⟩
      rw [← Option.mem_some.1 hp]
      exact CallGraph.mem_landings_of_resolve hres (by rw [Method.returns, hbody]; exact ha)
    · cases h
  | qualified o q m =>
    left
    obtain ⟨rfl, rfl⟩ := Prod.mk.inj (List.mem_singleton.1 h)
    exact ⟨rfl, fun p hp => Option.mem_toList.2 hp⟩
  | textOnly o => cases h
  | _ => exact .inl (operands h)

/-! ### The trace as the performance of its turn -/

section

variable {E : Engine} {rule : Rule}

theorem trace_none (depth : ℤ) (r : Record) :
    trace E rule depth r none = .ok (r.close .safe) := by
  unfold trace
  cases (E.maxDepth - depth).toNat <;> rfl

theorem turn_of_accepts {e : Expr} (h : rule.accepts e = true) (depth : ℤ) :
    turn E rule depth e = .stop .safe :=
  if_pos h

/-- **The equation of a trace.**  At an expression, a trace takes its turn and performs it; what
follows is the trace itself, as many hops later as the move takes. -/
theorem trace_some (depth : ℤ) (r : Record) (e : Expr) :
    trace E rule depth r (some e) =
      (joinPath rule e r >>=
        perform (fun hops => trace E rule (depth + hops)) (turn E rule depth e)) := by
  by_cases ha : rule.accepts e = true
  · have hv : ∀ next, visit E rule next e r = .ok (r.close .safe) := fun next => by
      rw [visit_eq_enter, enter, if_pos ha]
    rw [joinPath, if_pos ha, turn_of_accepts ha, trace]
    cases (E.maxDepth - depth).toNat <;> exact hv _
  · rw [joinPath, if_neg ha, turn, if_neg ha]
    by_cases hd : (E.maxDepth : ℤ) ≤ depth
    · have h0 : (E.maxDepth - depth).toNat = 0 := by omega
      rw [if_pos hd, trace, h0, traceFrom, continueAt, visit_eq_enter, enter, if_neg ha]
      rfl
    · -- a part is visited with as many hops left as before, a landing with one less
      obtain ⟨left, hleft⟩ : ∃ left, (E.maxDepth - depth).toNat = left + 1 :=
        Nat.exists_eq_succ_of_ne_zero (by omega)
      have hsame : (E.maxDepth - (depth + (0 : ℕ))).toNat = left + 1 := by omega
      have hnext : (E.maxDepth - (depth + (1 : ℕ))).toNat = left := by omega
      have hgo : ∀ r, perform (onward E rule (some (traceFrom E rule left)) (traceFrom E rule left))
          (move E e) r = perform (fun hops => trace E rule (depth + hops)) (move E e) r := by
        refine perform_congr fun k t ht r => ?_
        rcases targets_move ht with ⟨rfl, -⟩ | ⟨rfl, -⟩
        · simp only [trace, hsame]; rfl
        · simp only [trace, hnext]; rfl
      rw [if_neg hd, trace, hleft, traceFrom, continueAt, visit_eq_enter, enter, if_neg ha]
      simp only [hgo]
      congr 1
      funext r
      split <;> rfl

variable (rule) in
/-- An open record with an expression on its path, unless the expression is accepted. -/
def joined (e : Expr) (r : Record) : Record :=
  { r with path := if rule.accepts e then r.path else r.path ++ [e] }

theorem fresh_joined {r : Record} (h : r.Fresh) (e : Expr) : (joined rule e r).Fresh :=
  ⟨h.pending, h.childless⟩

theorem joinPath_of_pending {r : Record} (h : r.verdict = .pending) (e : Expr) :
    joinPath rule e r = .ok (joined rule e r) := by
  unfold joinPath joined
  split
  · cases r; rfl
  · exact extend_of_pending h e

/-- The equation of a trace on an open record. -/
theorem trace_of_pending {r : Record} (h : r.verdict = .pending) (depth : ℤ) (e : Expr) :
    trace E rule depth r (some e) =
      perform (fun hops => trace E rule (depth + hops)) (turn E rule depth e)
        (joined rule e r) := by
  rw [trace_some, joinPath_of_pending h]; rfl

theorem perform_stop {r : Record} (h : r.verdict = .pending) (go : ℕ → Hop) (v : Verdict) :
    perform go (.stop v) r = .ok { r with verdict := v } := by
  rw [perform, Record.close_of_pending h]

theorem perform_spread_nil {r : Record} (h : r.verdict = .pending) (go : ℕ → Hop) (hops : ℕ) :
    perform go (.spread hops []) r = .ok { r with verdict := .safe } := by
  rw [perform, Record.close_of_pending h]

/-- Spreading over some targets succeeds when every target is there and the trace of each does. -/
theorem perform_spread_eq_ok_iff {go : ℕ → Hop} {hops : ℕ}
    {ts : List (Except Fault (Option Expr))} {r r' : Record} (h : r.verdict = .pending)
    (hts : ts ≠ []) :
    perform go (.spread hops ts) r = .ok r' ↔
      ∃ cs, List.Forall₂ (fun t c => ∃ a, t = .ok a ∧ go hops r.child a = .ok c) ts cs ∧
        r' = r.adopt cs := by
  have hbind : ∀ (t : Except Fault (Option Expr)) c, (t >>= go hops r.child) = .ok c ↔
      ∃ a, t = .ok a ∧ go hops r.child a = .ok c := by
    intro t c
    cases t with
    | error f => exact ⟨nofun, nofun⟩
    | ok a => exact ⟨fun h => ⟨a, rfl, h⟩, fun ⟨_, ha, h⟩ => Except.ok.inj ha ▸ h⟩
  obtain ⟨t, ts, rfl⟩ := List.exists_cons_of_ne_nil hts
  rw [perform, branchEach_eq_ok_iff h]
  simp only [hbind]

end

end Flow

end TaintFlow
