import TaintFlow.Proofs.Flow.Move
import TaintFlow.Proofs.Pointwise
import Mathlib.Logic.Relation
import Mathlib.Order.WellFounded

/-!
# The recursion of a trace ends

A trace calls for further traces: at the parts of an expression after as many hops as before, and
one hop later at expressions anywhere in the call graph, which may be larger and may lead back.
`Calls` relates a trace to those it may call for.

* `calls_wellFounded` : no chain of calls goes on for ever, whatever cycles the graph has.  The
  measure is the number of hops that are left, and below it the height of the expression.
* `eq_trace_of_eq_body` : the equation of a trace has no other solution.
* `depth_le_of_calls` : no call is made beyond the bound on hops.
* `exists_trace` : on regular expressions a trace always comes to a record.
* `length_path_le` : the paths in that record are bounded by the hops and by the heights of the
  expressions.
-/

namespace TaintFlow.Flow

open TaintFlow.Code TaintFlow.Catalog

section

variable (E : Engine) (rule : Rule)

/-- One turn of a trace, with `self` for the traces that follow. -/
def body (self : ℤ → Hop) (depth : ℤ) : Hop
  | r, none => .ok (r.close .safe)
  | r, some e =>
    joinPath rule e r >>= perform (fun hops => self (depth + hops)) (turn E rule depth e)

/-- A trace after some hops of an expression may call for a trace after more hops of another. -/
inductive Calls : ℤ × Option Expr → ℤ × Option Expr → Prop
  | intro {depth : ℤ} {e : Expr} {hops : ℕ} {t : Option Expr}
      (h : (hops, t) ∈ (turn E rule depth e).targets) : Calls (depth, some e) (depth + hops, t)

end

variable {E : Engine} {rule : Rule}

theorem trace_eq_body (depth : ℤ) (r : Record) (e : Option Expr) :
    trace E rule depth r e = body E rule (trace E rule) depth r e := by
  cases e with
  | none => exact trace_none depth r
  | some e => exact trace_some depth r e

variable (E rule) in
/-- All that a turn can be: the end of the path, which is not vulnerable, or the move at an
expression that is neither accepted nor trusted, when hops are left. -/
theorem turn_cases (depth : ℤ) (e : Expr) :
    (∃ v : Verdict, v.isVulnerable = false ∧ turn E rule depth e = .stop v) ∨
      (rule.accepts e = false ∧ depth < E.maxDepth ∧ E.trusted.covers e = false ∧
        turn E rule depth e = move E e) := by
  unfold turn
  split_ifs with ha hd ht
  · exact .inl ⟨_, rfl, rfl⟩
  · exact .inl ⟨_, rfl, rfl⟩
  · exact .inl ⟨_, rfl, rfl⟩
  · exact .inr ⟨by simpa using ha, by omega, by simpa using ht, rfl⟩

theorem turn_of_open {depth : ℤ} {e : Expr} (ha : rule.accepts e = false)
    (hd : depth < E.maxDepth) (ht : E.trusted.covers e = false) :
    turn E rule depth e = move E e := by
  rw [turn, if_neg (by simp [ha]), if_neg (by omega), if_neg (by simp [ht])]

/-- A turn that leads on is a move. -/
theorem turn_eq_move {depth : ℤ} {e : Expr} {k : ℕ × Option Expr}
    (h : k ∈ (turn E rule depth e).targets) :
    rule.accepts e = false ∧ depth < E.maxDepth ∧ E.trusted.covers e = false ∧
      turn E rule depth e = move E e := by
  rcases turn_cases E rule depth e with ⟨v, -, hstop⟩ | hmove
  · rw [hstop] at h
    cases h
  · exact hmove

theorem depth_le_of_calls {a b : ℤ × Option Expr} (h : Calls E rule a b) : b.1 ≤ E.maxDepth := by
  cases h with
  | @intro depth e hops t h =>
    obtain ⟨-, hd, -, hm⟩ := turn_eq_move h
    rw [hm] at h
    change depth + hops ≤ E.maxDepth
    rcases targets_move h with ⟨rfl, -⟩ | ⟨rfl, -⟩ <;> omega

/-- The hops that are left and the height of the expression, of which each call lowers the first
or keeps it and lowers the second. -/
def weight (E : Engine) (a : ℤ × Option Expr) : ℕ × ℕ :=
  ((E.maxDepth - a.1).toNat, Expr.heightOpt a.2)

/-- Wherever a move can lead, less is left. -/
theorem weight_lt_of_leads {depth : ℤ} {e : Expr} {hops : ℕ} {t : Option Expr}
    (hd : depth < E.maxDepth)
    (h : (hops = 0 ∧ ∀ p ∈ t, p ∈ e.parts) ∨ (hops = 1 ∧ ∀ p ∈ t, p ∈ E.graph.landings)) :
    Prod.Lex (· < ·) (· < ·) (weight E (depth + hops, t)) (weight E (depth, some e)) := by
  rw [Prod.lex_def]
  rcases h with ⟨rfl, hp⟩ | ⟨rfl, -⟩
  · refine .inr ⟨congrArg Int.toNat (by omega), ?_⟩
    change Expr.heightOpt t < e.height
    cases t with
    | none => exact e.height_pos
    | some p => exact Expr.height_lt_of_mem_parts (hp p rfl)
  · refine .inl ?_
    change (E.maxDepth - (depth + (1 : ℕ))).toNat < (E.maxDepth - depth).toNat
    omega

theorem weight_lt_of_calls {a b : ℤ × Option Expr} (h : Calls E rule a b) :
    Prod.Lex (· < ·) (· < ·) (weight E b) (weight E a) := by
  cases h with
  | intro h =>
    obtain ⟨-, hd, -, hm⟩ := turn_eq_move h
    rw [hm] at h
    exact weight_lt_of_leads hd (targets_move h)

/-- **Every chain of calls ends.** -/
theorem calls_wellFounded : WellFounded (fun b a => Calls E rule a b) :=
  Subrelation.wf weight_lt_of_calls
    (InvImage.wf (weight E) (WellFounded.prod_lex Nat.lt_wfRel.wf Nat.lt_wfRel.wf))

/-- One turn asks `self` only for the traces that it may call for. -/
theorem body_congr {f g : ℤ → Hop} {depth : ℤ} {e : Option Expr}
    (h : ∀ c, Calls E rule (depth, e) c → ∀ r, f c.1 r c.2 = g c.1 r c.2) (r : Record) :
    body E rule f depth r e = body E rule g depth r e := by
  cases e with
  | none => rfl
  | some e =>
    have hp : ∀ r, perform (fun hops => f (depth + hops)) (turn E rule depth e) r =
        perform (fun hops => g (depth + hops)) (turn E rule depth e) r :=
      perform_congr fun k t ht => h (depth + k, t) (.intro ht)
    rw [body, body, funext hp]

variable (E rule) in
/-- What holds of a trace as soon as it holds of all the traces it may call for holds always. -/
theorem calls_induction {P : ℤ → Option Expr → Prop}
    (h : ∀ depth e, (∀ d t, Calls E rule (depth, e) (d, t) → P d t) → P depth e) (depth : ℤ)
    (e : Option Expr) : P depth e :=
  calls_wellFounded.induction (C := fun a => P a.1 a.2) (depth, e)
    fun a ih => h a.1 a.2 fun d t hc => ih (d, t) hc

/-- **The equation of a trace has one solution.** -/
theorem eq_trace_of_eq_body {f : ℤ → Hop} (h : ∀ depth r e, f depth r e = body E rule f depth r e) :
    f = trace E rule := by
  have key : ∀ depth e, ∀ r, f depth r e = trace E rule depth r e := by
    refine calls_induction E rule fun depth e ih r => ?_
    rw [h, trace_eq_body]
    exact body_congr (fun c hc => ih c.1 c.2 hc) r
  funext depth r e
  exact key depth e r

/-! ### A trace comes to a record -/

/-- Whether a move can be carried out as far as it is concerned. -/
def Move.Possible : Move → Prop
  | stop _ => True
  | follow _ _ => True
  | spread _ ts => ∀ t ∈ ts, ∃ a, t = .ok a
  | fail _ => False

theorem possible_spread_ok (hops : ℕ) (es : List Expr) :
    (Move.spread hops (es.map fun a => .ok (some a))).Possible := by
  intro t ht
  obtain ⟨a, -, rfl⟩ := List.mem_map.1 ht
  exact ⟨some a, rfl⟩

theorem possible_move {e : Expr} (h : e.Regular) : (move E e).Possible := by
  cases e with
  | name n =>
    change (moveName E n).Possible
    rcases moveName_cases E n with ⟨v, -, hm⟩ | ⟨-, owner, index, hp, hm⟩ | hm <;> rw [hm]
    · trivial
    · intro t ht
      obtain ⟨b, hb, hkind, -, rfl⟩ := Name.parameter?_eq_some_iff.1 hp
      obtain ⟨invoker, -, rfl⟩ := List.mem_map.1 ht
      exact ⟨_, argumentAt_of_nonneg (h.hasPlace b hb hkind) _⟩
    · trivial
  | call o method receiver args rt type =>
    change (moveCall E _ method).Possible
    rcases moveCall_cases E (.call o method receiver args rt type) method with
      hm | ⟨-, ⟨p, -, hm⟩ | ⟨-, ⟨m, body, -, -, hm⟩ | ⟨-, hm⟩⟩⟩ <;> rw [hm]
    · trivial
    · trivial
    · exact possible_spread_ok _ _
    · trivial
  | qualified o q m => trivial
  | textOnly o => exact absurd rfl (h.form o)
  | _ => exact possible_spread_ok _ _

theorem possible_turn {e : Expr} (h : e.Regular) (depth : ℤ) :
    (turn E rule depth e).Possible := by
  rcases turn_cases E rule depth e with ⟨v, -, hstop⟩ | ⟨-, -, -, hmove⟩
  · rw [hstop]
    trivial
  · rw [hmove]
    exact possible_move h

/-- A trace of a regular expression only calls for traces of regular expressions. -/
theorem regular_of_calls (hE : ∀ x ∈ E.graph.landings, x.Regular) {depth d : ℤ}
    {e t : Option Expr} (he : ∀ x ∈ e, x.Regular) (h : Calls E rule (depth, e) (d, t)) :
    ∀ x ∈ t, x.Regular := by
  cases h with
  | intro h =>
    rw [(turn_eq_move h).2.2.2] at h
    intro x hx
    rcases targets_move h with ⟨-, hp⟩ | ⟨-, hl⟩
    · exact (he _ rfl).of_mem_parts (hp x hx)
    · exact hE x (hl x hx)

/-- **A trace of a regular expression comes to a record**, when all that the graph keeps is
regular. -/
theorem exists_trace (hE : ∀ x ∈ E.graph.landings, x.Regular) :
    ∀ (depth : ℤ) (e : Option Expr), (∀ x ∈ e, x.Regular) → ∀ r : Record,
      r.verdict = .pending → ∃ r', trace E rule depth r e = .ok r' := by
  refine calls_induction E rule fun depth e ih he r hr => ?_
  cases e with
  | none => exact ⟨_, trace_none depth r⟩
  | some e =>
    have hc : ∀ {k t}, (k, t) ∈ (turn E rule depth e).targets → ∀ r : Record,
        r.verdict = .pending → ∃ r', trace E rule (depth + k) r t = .ok r' := fun h =>
      ih _ _ (.intro h) (regular_of_calls hE he (.intro h))
    have hpos := @possible_turn E rule e (he e rfl) depth
    have hr' : (joined rule e r).verdict = .pending := hr
    rw [trace_of_pending hr]
    cases hm : turn E rule depth e with
    | stop v => exact ⟨_, perform_stop hr' _ v⟩
    | follow k t => exact hc (hm ▸ List.mem_cons_self) _ hr'
    | fail f => rw [hm] at hpos; exact hpos.elim
    | spread k ts =>
      rw [hm] at hpos
      by_cases hts : ts = []
      · exact ⟨_, hts ▸ perform_spread_nil hr' _ k⟩
      · have hbranch : ∀ t ∈ ts, ∃ c a, t = .ok a ∧
            trace E rule (depth + k) (joined rule e r).child a = .ok c := by
          intro t ht
          obtain ⟨a, rfl⟩ := hpos t ht
          obtain ⟨c, hca⟩ := hc (hm ▸ mem_targets_spread.2 ⟨rfl, ht⟩) (Record.child _) rfl
          exact ⟨c, a, rfl, hca⟩
        obtain ⟨cs, hcs⟩ := exists_forall₂ hbranch
        exact ⟨_, (perform_spread_eq_ok_iff hr' hts).2 ⟨cs, hcs, rfl⟩⟩

/-! ### The length of paths -/

/-- The number of expressions that join a path from an expression of height `h` on, when `left` hops
are left and no landing is higher than `H`: the expression at which no hop is left still joins. -/
def reach (H h : ℕ) : ℕ → ℕ
  | 0 => 1
  | left + 1 => left * H + h + 1

theorem reach_pos (H h left : ℕ) : 0 < reach H h left := by
  cases left <;> exact Nat.succ_pos _

theorem reach_le {H h : ℕ} (hh : h ≤ H) (left : ℕ) : reach H h left ≤ left * H + 1 := by
  cases left with
  | zero => exact Nat.le_add_left _ _
  | succ left => rw [reach, Nat.succ_mul]; omega

/-- A call leaves room for the expression at which it is made. -/
theorem reach_lt_of_calls {H : ℕ} (hE : ∀ x ∈ E.graph.landings, x.height ≤ H) {depth d : ℤ}
    {e : Expr} {t : Option Expr} (h : Calls E rule (depth, some e) (d, t)) :
    reach H (Expr.heightOpt t) (E.maxDepth - d).toNat <
      reach H e.height (E.maxDepth - depth).toNat := by
  cases h with
  | @intro _ _ hops _ h =>
    obtain ⟨-, hd, -, hm⟩ := turn_eq_move h
    rw [hm] at h
    obtain ⟨left, hleft⟩ : ∃ left, (E.maxDepth - depth).toNat = left + 1 :=
      Nat.exists_eq_succ_of_ne_zero (by omega)
    have hpos := e.height_pos
    -- a part is lower than the whole; a landing may be higher, but costs a hop
    rcases targets_move h with ⟨rfl, hp⟩ | ⟨rfl, hl⟩
    · have hsame : (E.maxDepth - (depth + (0 : ℕ))).toNat = left + 1 := by omega
      have hlt : Expr.heightOpt t < e.height := by
        cases t with
        | none => exact hpos
        | some p => exact Expr.height_lt_of_mem_parts (hp p rfl)
      rw [hleft, hsame, reach, reach]
      omega
    · have hnext : (E.maxDepth - (depth + (1 : ℕ))).toNat = left := by omega
      have hle : Expr.heightOpt t ≤ H := by
        cases t with
        | none => exact Nat.zero_le H
        | some p => exact hE p (hl p rfl)
      rw [hleft, hnext]
      cases left with
      | zero => rw [reach, reach]; omega
      | succ left => rw [reach, reach, Nat.succ_mul]; omega

/-- Every record that comes of performing a move on a fresh record has the path of that record, and is
vulnerable only if the move says so, or comes of a trace to which the move leads. -/
theorem mem_walk_of_perform {go : ℕ → Hop} {m : Move} {r r' x : Record} (hr : r.Fresh)
    (h : perform go m r = .ok r') (hx : x ∈ r'.walk) :
    (x.child = r ∧ (x.verdict.isVulnerable = true → m = .stop x.verdict)) ∨
      ∃ k t c, (k, t) ∈ m.targets ∧ go k r t = .ok c ∧ x ∈ c.walk := by
  cases m with
  | stop v =>
    rw [perform_stop hr.pending] at h
    cases h
    obtain ⟨hchild, hverdict⟩ := hr.of_mem_walk hx
    exact .inl ⟨hchild, fun _ => congrArg Move.stop hverdict.symm⟩
  | follow k t => exact .inr ⟨k, t, r', List.mem_cons_self, h, hx⟩
  | fail f => cases h
  | spread k ts =>
    by_cases hts : ts = []
    · rw [hts, perform_spread_nil hr.pending] at h
      cases h
      obtain ⟨hchild, hverdict⟩ := hr.of_mem_walk hx
      exact .inl ⟨hchild, by rw [hverdict]; exact fun hv => by cases hv⟩
    · obtain ⟨cs, hcs, rfl⟩ := (perform_spread_eq_ok_iff hr.pending hts).1 h
      rcases Record.mem_walk.1 hx with rfl | ⟨c, hc, hxc⟩
      · have hpending : (r.adopt cs).verdict = .pending := hr.pending
        exact .inl ⟨hr.child_eq, by rw [hpending]; exact fun hv => by cases hv⟩
      · change c ∈ r.children ++ cs at hc
        rw [hr.childless, List.nil_append] at hc
        obtain ⟨t, ht, a, rfl, hca⟩ := exists_left_of_forall₂ hcs hc
        rw [hr.child_eq] at hca
        exact .inr ⟨k, a, c, mem_targets_spread.2 ⟨rfl, ht⟩, hca, hxc⟩

/-- What holds of the records that a trace leaves where it stops, and is handed on by its calls,
holds of all records that come of it. -/
theorem walk_induction {P : ℤ → Option Expr → Record → Record → Prop}
    (hend : ∀ depth r x, x.child = r → x.verdict.isVulnerable = false → P depth none r x)
    (hstop : ∀ depth e r x, x.child = joined rule e r →
      (x.verdict.isVulnerable = true → turn E rule depth e = .stop x.verdict) → P depth (some e) r x)
    (hcall : ∀ depth e r d t x, Calls E rule (depth, some e) (d, t) → P d t (joined rule e r) x →
      P depth (some e) r x) :
    ∀ (depth : ℤ) (e : Option Expr) (r r' : Record), r.Fresh → trace E rule depth r e = .ok r' →
      ∀ x ∈ r'.walk, P depth e r x := by
  refine calls_induction E rule fun depth e ih r r' hr h x hx => ?_
  cases e with
  | none =>
    rw [trace_none, Record.close_of_pending hr.pending] at h
    cases h
    obtain ⟨hchild, hverdict⟩ := hr.of_mem_walk hx
    exact hend depth r x hchild (by rw [hverdict]; rfl)
  | some e =>
    have hr' : (joined rule e r).Fresh := fresh_joined hr e
    rw [trace_of_pending hr.pending] at h
    rcases mem_walk_of_perform hr' h hx with ⟨hc, hv⟩ | ⟨k, t, c, ht, hc, hxc⟩
    · exact hstop depth e r x hc hv
    · exact hcall _ _ _ _ _ _ (.intro ht) (ih _ _ (.intro ht) _ _ hr' hc x hxc)

variable (rule) in
theorem length_path_joined_le (e : Expr) (r : Record) :
    (joined rule e r).path.length ≤ r.path.length + 1 := by
  rw [joined]
  split <;> simp

/-- **The length of paths**: from a fresh record on, a path grows by no more than the reach of the
expression. -/
theorem length_path_le {H : ℕ} (hE : ∀ x ∈ E.graph.landings, x.height ≤ H) :
    ∀ (depth : ℤ) (e : Option Expr) (r r' : Record), r.Fresh → trace E rule depth r e = .ok r' →
      ∀ x ∈ r'.walk,
        x.path.length ≤ r.path.length + reach H (Expr.heightOpt e) (E.maxDepth - depth).toNat := by
  refine walk_induction ?_ ?_ ?_
  · rintro depth _ x rfl -
    exact Nat.le_add_right _ _
  · intro depth e r x hx _
    have hlen := length_path_joined_le rule e r
    have hpos := reach_pos H (Expr.heightOpt (some e)) (E.maxDepth - depth).toNat
    rw [← hx] at hlen
    exact Nat.le_trans hlen (by omega)
  · intro depth e r d t x hc hx
    have hlen := length_path_joined_le rule e r
    have hlt := reach_lt_of_calls hE hc
    change _ ≤ _ + reach H e.height _
    omega

/-- **Traces end within their bounds**, for every call graph.  The calls of the recursion are
well-founded, they determine the trace, none of them is made beyond the bound on hops, and on the
paths of the resulting tree stand at most `maxDepth * H + 1` expressions when no expression is
higher than `H`. -/
theorem trace_ends_within_bounds (E : Engine) (rule : Rule) (H : ℕ) (e : Option Expr)
    (hE : ∀ x ∈ E.graph.landings, x.height ≤ H) (he : ∀ x ∈ e, x.height ≤ H) :
    WellFounded (fun b a => Calls E rule a b) ∧
    (∀ (f g : ℤ → Hop) (depth : ℤ) (t : Option Expr),
      (∀ c, Calls E rule (depth, t) c → ∀ r, f c.1 r c.2 = g c.1 r c.2) →
        ∀ r, body E rule f depth r t = body E rule g depth r t) ∧
    (∀ f : ℤ → Hop, (∀ depth r t, f depth r t = body E rule f depth r t) ↔ f = trace E rule) ∧
    (∀ a b, Relation.ReflTransGen (Calls E rule) a b → a.1 ≤ E.maxDepth → b.1 ≤ E.maxDepth) ∧
    ∀ r : Record, r.Fresh → r.path = [] →
      ((∀ x ∈ E.graph.landings, x.Regular) → (∀ x ∈ e, x.Regular) →
        ∃ r', trace E rule 0 r e = .ok r') ∧
      ∀ r', trace E rule 0 r e = .ok r' → ∀ x ∈ r'.walk, x.path.length ≤ E.maxDepth * H + 1 := by
  refine ⟨calls_wellFounded, fun f g depth t h r => body_congr h r,
    fun f => ⟨eq_trace_of_eq_body, ?_⟩, fun a b hab ha => ?_,
    fun r hr hpath => ⟨fun hR heR => exists_trace hR 0 e heR r hr.pending, ?_⟩⟩
  · rintro rfl
    exact trace_eq_body
  · cases hab with
    | refl => exact ha
    | tail _ hc => exact depth_le_of_calls hc
  · intro r' h x hx
    have hheight : Expr.heightOpt e ≤ H := by
      cases e with
      | none => exact Nat.zero_le H
      | some e => exact he e rfl
    have hlen := length_path_le hE 0 e r r' hr h x hx
    rw [hpath, List.length_nil, Nat.zero_add, Int.sub_zero, Int.toNat_natCast] at hlen
    exact hlen.trans (reach_le hheight E.maxDepth)

/-- A name that refers to a local variable. -/
def localName (identifier : String) : Name where
  origin := ⟨identifier, "A.java", 1, 1⟩
  identifier := identifier
  binding := some { unit := "A.java", name := identifier, kind := .localVar }

/-- Two variables, each with the other as its value, and three hops to make. -/
def mutualValues : Engine where
  graph := [("x", "y"), ("y", "x")].foldl (fun g p => g.addBinding "A.java"
    { unit := "A.java", name := p.1, kind := .localVar } (.name (localName p.2))) .empty
  catalog := { vulnerability := .sqlInjection }
  maxDepth := 3

theorem regular_localName (identifier : String) : (Expr.name (localName identifier)).Regular := by
  refine .intro nofun ?_ nofun
  rintro n ⟨⟩ b hb hkind
  cases hb
  cases hkind

/-- A trace through the cycle of the two variables ends, with at most four expressions on its
path. -/
theorem trace_mutualValues_ends :
    (∀ x ∈ mutualValues.graph.landings, x.height ≤ 1) ∧
      ∃ r', trace mutualValues {} 0 {} (some (.name (localName "x"))) = .ok r' ∧
        ∀ x ∈ r'.walk, x.path.length ≤ 3 * 1 + 1 := by
  have hland : mutualValues.graph.landings = [.name (localName "y"), .name (localName "x")] := rfl
  have hheight : ∀ x ∈ mutualValues.graph.landings, x.height ≤ 1 := by
    rw [hland]
    simp [Expr.height]
  have hregular : ∀ x ∈ mutualValues.graph.landings, x.Regular := by
    rw [hland]
    simp [regular_localName]
  obtain ⟨-, -, -, -, h⟩ := trace_ends_within_bounds mutualValues {} 1
    (some (.name (localName "x"))) hheight (by simp [Expr.height])
  obtain ⟨hex, hlen⟩ := h {} ⟨rfl, rfl⟩ rfl
  obtain ⟨r', hr'⟩ := hex hregular (by simp [regular_localName])
  exact ⟨hheight, r', hr', hlen r' hr'⟩

end TaintFlow.Flow
