import TaintFlow.Flow.Record
import Mathlib.Data.Nat.Notation

/-!
# Records that are still open

The tracer only ever works on records that have no verdict yet.  For these, extending, branching and
closing never fail, and this file says what they give.  The questions asked of a whole tree of
records are put in terms of its root and of the trees below it.
-/

namespace TaintFlow.Flow

open TaintFlow.Code

theorem Verdict.isVulnerable_iff {v : Verdict} :
    v.isVulnerable = true ↔ ∃ kind message, v = .vulnerable kind message := by
  cases v <;> simp [isVulnerable]

theorem Verdict.isSome_kind? (v : Verdict) : v.kind?.isSome = true ↔ v.isVulnerable = true := by
  cases v <;> simp [kind?, isVulnerable]

theorem Verdict.isSome_message? (v : Verdict) :
    v.message?.isSome = true ↔ v.isVulnerable = true := by
  cases v <;> simp [message?, isVulnerable]

namespace Record

/-- A record without verdict and without alternatives. -/
structure Fresh (r : Record) : Prop where
  pending : r.verdict = .pending
  childless : r.children = []

/-- The alternative with which a branch of the record begins. -/
def child (r : Record) : Record :=
  { sink := r.sink, parameter := r.parameter, path := r.path }

/-- The record with more alternatives after those it has. -/
def adopt (r : Record) (cs : List Record) : Record :=
  { r with children := r.children ++ cs }

theorem Fresh.child_eq {r : Record} (h : r.Fresh) : r.child = r := by
  cases r
  obtain ⟨rfl, rfl⟩ := h
  rfl

@[simp] theorem adopt_nil (r : Record) : r.adopt [] = r := by
  cases r; simp [adopt]

@[simp] theorem adopt_addChild (r c : Record) (cs : List Record) :
    (r.addChild c).adopt cs = r.adopt (c :: cs) := by
  simp [adopt, addChild]

theorem isClosed_of_pending {r : Record} (h : r.verdict = .pending) : r.isClosed = false := by
  rw [isClosed, h]; rfl

theorem append_of_pending {r : Record} (h : r.verdict = .pending) (e : Expr) :
    r.append e = .ok { r with path := r.path ++ [e] } := by
  simp [append, isClosed_of_pending h]

theorem branch_of_pending {r : Record} (h : r.verdict = .pending) : r.branch = .ok r.child := by
  simp [branch, isClosed_of_pending h, child]

theorem close_of_pending {r : Record} (h : r.verdict = .pending) (v : Verdict) :
    r.close v = { r with verdict := v } := by
  simp [close, isClosed_of_pending h]

/-! ### Trees of records -/

theorem anyVulnerable_eq_any (rs : List Record) : anyVulnerable rs = rs.any isVulnerable := by
  induction rs with
  | nil => rfl
  | cons r rs ih => rw [anyVulnerable, ih, List.any_cons]

theorem isVulnerable_eq (r : Record) :
    r.isVulnerable = (r.verdict.isVulnerable || r.children.any isVulnerable) := by
  cases r
  rw [isVulnerable, anyVulnerable_eq_any]

theorem walkAll_eq_flatMap (rs : List Record) : walkAll rs = rs.flatMap walk := by
  induction rs with
  | nil => rfl
  | cons r rs ih => rw [walkAll, ih, List.flatMap_cons]

theorem walk_eq (r : Record) : r.walk = r :: r.children.flatMap walk := by
  cases r
  rw [walk, walkAll_eq_flatMap]

/-- What holds of a record as soon as it holds of its children holds of every record. -/
theorem induction {P : Record → Prop} (h : ∀ r : Record, (∀ c ∈ r.children, P c) → P r)
    (r : Record) : P r :=
  @Record.rec P (fun cs => ∀ c ∈ cs, P c) (fun _ _ _ _ _ hcs => h _ hcs) nofun
    (fun _ _ hc hcs => List.forall_mem_cons.2 ⟨hc, hcs⟩) r

theorem mem_walk {r x : Record} : x ∈ r.walk ↔ x = r ∨ ∃ c ∈ r.children, x ∈ c.walk := by
  rw [walk_eq, List.mem_cons, List.mem_flatMap]

/-- A tree is vulnerable when one of its records is. -/
theorem isVulnerable_iff {r : Record} :
    r.isVulnerable = true ↔ ∃ w ∈ r.walk, w.verdict.isVulnerable = true := by
  induction r using induction with
  | h r ih =>
    rw [isVulnerable_eq, Bool.or_eq_true, List.any_eq_true]
    constructor
    · rintro (hv | ⟨c, hc, hv⟩)
      · exact ⟨r, mem_walk.2 (.inl rfl), hv⟩
      · obtain ⟨w, hw, hv⟩ := (ih c hc).1 hv
        exact ⟨w, mem_walk.2 (.inr ⟨c, hc, hw⟩), hv⟩
    · rintro ⟨w, hw, hv⟩
      rcases mem_walk.1 hw with rfl | ⟨c, hc, hw⟩
      · exact .inl hv
      · exact .inr ⟨c, hc, (ih c hc).2 ⟨w, hw, hv⟩⟩

theorem isVulnerable_iff_witnesses {r : Record} :
    r.isVulnerable = true ↔ r.witnesses ≠ [] := by
  rw [isVulnerable_iff, witnesses, ne_eq, List.filter_eq_nil_iff]
  simp

/-- A fresh record that is closed stays alone. -/
theorem Fresh.of_mem_walk {r x : Record} (h : r.Fresh) {v : Verdict}
    (hx : x ∈ walk { r with verdict := v }) : x.child = r ∧ x.verdict = v := by
  rcases mem_walk.1 hx with rfl | ⟨c, hc, -⟩
  · exact ⟨h.child_eq, rfl⟩
  · change c ∈ r.children at hc
    rw [h.childless] at hc
    cases hc

end Record

end TaintFlow.Flow
