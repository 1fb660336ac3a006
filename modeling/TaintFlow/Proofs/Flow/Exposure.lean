import TaintFlow.Proofs.Flow.Recursion

/-!
# What a trace exposes

The *exposures* of a record are the vulnerable paths of its tree with their verdicts, in depth-first
order: all that is ever reported of it.  Which exposures come of a trace is said here without
records: by the path so far, the move, and the exposures of the traces to which the move leads.

* `exposures_trace` : the equation of a trace, for exposures.
* `Move.exposures_congr`, `Move.exposures_spread_eq_nil`, `Move.exposures_sublist` : a move exposes
  the same, nothing or more, when the traces to which it leads do.
-/

namespace TaintFlow.Flow

open TaintFlow.Code TaintFlow.Catalog

/-- A vulnerable path, and why it is vulnerable. -/
abbrev Exposure := List Expr × Verdict

namespace Record

/-- The vulnerable paths of a tree with their verdicts, in depth-first order. -/
def exposures (r : Record) : List Exposure :=
  r.witnesses.map fun w => (w.path, w.verdict)

/-- What a path exposes that ends with a verdict. -/
def exposed (path : List Expr) (v : Verdict) : List Exposure :=
  if v.isVulnerable then [(path, v)] else []

theorem exposures_eq (r : Record) :
    r.exposures = exposed r.path r.verdict ++ r.children.flatMap exposures := by
  unfold exposures witnesses exposed
  rw [walk_eq, List.filter_cons, List.filter_flatMap]
  split <;> simp [List.map_flatMap]

theorem isVulnerable_eq_exposures (r : Record) : r.isVulnerable = !r.exposures.isEmpty := by
  rw [Bool.eq_iff_iff, isVulnerable_iff_witnesses, exposures]
  simp

theorem exposures_addChild (r c : Record) :
    (r.addChild c).exposures = r.exposures ++ c.exposures := by
  rw [exposures_eq, exposures_eq r]
  simp [addChild]

theorem Fresh.exposures_eq_nil {r : Record} (h : r.Fresh) : r.exposures = [] := by
  rw [exposures_eq, h.pending, h.childless]
  rfl

/-- A fresh record that is closed exposes its own path, if at all. -/
theorem Fresh.exposures_closed {r : Record} (h : r.Fresh) (v : Verdict) :
    exposures { r with verdict := v } = exposed r.path v := by
  rw [exposures_eq]
  simp [h.childless]

end Record

/-! ### The exposures of a move -/

/-- What a move exposes after a path, with `go` for the exposures of what follows. -/
def Move.exposures (path : List Expr) (go : ℕ → Option Expr → Except Fault (List Exposure)) :
    Move → Except Fault (List Exposure)
  | stop v => .ok (Record.exposed path v)
  | follow hops target => go hops target
  | spread hops targets => (targets.mapM (· >>= go hops)).map List.flatten
  | fail fault => .error fault

/-- Spreading an open record adds the exposures of each branch. -/
theorem exposures_branchEach {α : Type} (go : α → Record → Except Fault Record) (xs : List α)
    {r : Record} (h : r.verdict = .pending) :
    (branchEach go xs r).map Record.exposures =
      (xs.mapM fun x => (go x r.child).map Record.exposures).map (r.exposures ++ ·.flatten) := by
  induction xs generalizing r with
  | nil => exact congrArg Except.ok (List.append_nil _).symm
  | cons x xs ih =>
    rw [branchEach_cons_of_pending h, List.mapM_cons]
    cases go x r.child with
    | error f => rfl
    | ok c =>
      -- the record grows by a child, and so do the exposures at its end
      have hrest := ih (r := r.addChild c) h
      change (branchEach go xs (r.addChild c)).map Record.exposures = _
      rw [hrest, Record.exposures_addChild]
      change (xs.mapM fun x => (go x r.child).map Record.exposures).map _ = _
      cases xs.mapM fun x => (go x r.child).map Record.exposures with
      | error f => rfl
      | ok ys => exact congrArg Except.ok (List.append_assoc _ _ _)

/-- Performing a move on a fresh record exposes what the move does. -/
theorem exposures_perform (go : ℕ → Hop) (m : Move) {r : Record} (hr : r.Fresh) :
    (perform go m r).map Record.exposures =
      m.exposures r.path fun k t => (go k r t).map Record.exposures := by
  cases m with
  | stop v =>
    rw [perform_stop hr.pending]
    exact congrArg Except.ok (hr.exposures_closed v)
  | follow k t => rfl
  | fail f => rfl
  | spread k ts =>
    cases ts with
    | nil =>
      rw [perform_spread_nil hr.pending]
      exact congrArg Except.ok (hr.exposures_closed .safe)
    | cons t ts =>
      have hbind : ∀ t : Except Fault (Option Expr), (t >>= go k r).map Record.exposures =
          t >>= fun a => (go k r a).map Record.exposures := by
        intro t
        cases t <;> rfl
      rw [perform, exposures_branchEach _ _ hr.pending, hr.exposures_eq_nil, hr.child_eq]
      simp only [hbind]
      rfl

section

variable {E : Engine} {rule : Rule}

theorem exposures_trace_none (depth : ℤ) {r : Record} (hr : r.Fresh) :
    (trace E rule depth r none).map Record.exposures = .ok [] := by
  rw [trace_none, Record.close_of_pending hr.pending]
  exact congrArg Except.ok (hr.exposures_closed .safe)

/-- **The equation of a trace, for exposures.** -/
theorem exposures_trace (depth : ℤ) (e : Expr) {r : Record} (hr : r.Fresh) :
    (trace E rule depth r (some e)).map Record.exposures =
      (turn E rule depth e).exposures (joined rule e r).path fun k t =>
        (trace E rule (depth + k) (joined rule e r) t).map Record.exposures := by
  rw [trace_of_pending hr.pending]
  exact exposures_perform _ _ (fresh_joined hr e)

end

/-! ### Comparing the exposures of moves -/

namespace Move

variable {go go' : ℕ → Option Expr → Except Fault (List Exposure)} {m : Move} {path : List Expr}

theorem exposures_congr (h : ∀ k t, (k, t) ∈ m.targets → go k t = go' k t) :
    m.exposures path go = m.exposures path go' := by
  cases m with
  | stop v => rfl
  | follow k t => exact h k t List.mem_cons_self
  | fail f => rfl
  | spread k ts =>
    refine congrArg (Except.map List.flatten) (mapM_congr fun t ht => ?_)
    cases t with
    | error f => rfl
    | ok a => exact h k a (mem_targets_spread.2 ⟨rfl, ht⟩)

/-- Spreading exposes nothing if every target is there and exposes nothing. -/
theorem exposures_spread_eq_nil {k : ℕ} {ts : List (Except Fault (Option Expr))}
    (h : ∀ t ∈ ts, ∃ a, t = .ok a ∧ go k a = .ok []) :
    (spread k ts).exposures path go = .ok [] := by
  have hnil : List.Forall₂ (fun t xs => (t >>= go k) = .ok xs) ts (ts.map fun _ => []) := by
    refine List.forall₂_map_right_iff.2 (List.forall₂_same.2 fun t ht => ?_)
    obtain ⟨a, rfl, hgo⟩ := h t ht
    exact hgo
  rw [exposures, mapM_eq_ok_iff.2 hnil]
  exact congrArg Except.ok (List.flatten_eq_nil_iff.2 (by simp))

theorem exposures_stop_eq_nil {v : Verdict} (h : v.isVulnerable = false) :
    (stop v).exposures path go = .ok [] := by
  rw [exposures, Record.exposed, h]
  rfl

/-- A move exposes a part of what it exposes with more behind it. -/
theorem exposures_sublist {xs ys : List Exposure}
    (h : ∀ k t, (k, t) ∈ m.targets → ∀ xs ys, go k t = .ok xs → go' k t = .ok ys →
      xs.Sublist ys)
    (hxs : m.exposures path go = .ok xs) (hys : m.exposures path go' = .ok ys) : xs.Sublist ys := by
  cases m with
  | stop v =>
    cases hxs
    cases hys
    exact List.Sublist.refl _
  | follow k t => exact h k t List.mem_cons_self xs ys hxs hys
  | fail f => cases hxs
  | spread k ts =>
    cases hmap : ts.mapM (· >>= go k) with
    | error f => rw [exposures, hmap] at hxs; cases hxs
    | ok xss =>
      cases hmap' : ts.mapM (· >>= go' k) with
      | error f => rw [exposures, hmap'] at hys; cases hys
      | ok yss =>
        rw [exposures, hmap] at hxs
        rw [exposures, hmap'] at hys
        cases hxs
        cases hys
        refine flatten_sublist (fun t ht xs ys hx hy => ?_) (mapM_eq_ok_iff.1 hmap)
          (mapM_eq_ok_iff.1 hmap')
        cases t with
        | error f => cases hx
        | ok a => exact h k a (mem_targets_spread.2 ⟨rfl, ht⟩) xs ys hx hy

end Move

end TaintFlow.Flow
