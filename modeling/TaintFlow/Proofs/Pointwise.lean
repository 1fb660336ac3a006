import Mathlib.Data.List.Forall2
import Mathlib.Data.Nat.Notation

/-!
# Lists compared item by item

`List.Forall₂` says that two lists are related item by item.  It describes the results of effectful
maps (`mapM_eq_ok_iff`) and of maps that leave items out (`forall₂_filter_filterMap`), and it is
handed on by joining lists (`forall₂_flatMap`, `flatten_sublist`).
-/

namespace TaintFlow

variable {α β γ ε : Type}

theorem exists_forall₂ {R : α → β → Prop} {xs : List α}
    (h : ∀ x ∈ xs, ∃ y, R x y) : ∃ ys, List.Forall₂ R xs ys := by
  induction xs with
  | nil => exact ⟨[], .nil⟩
  | cons x xs ih =>
    obtain ⟨y, hy⟩ := h x List.mem_cons_self
    obtain ⟨ys, hys⟩ := ih fun x hx => h x (List.mem_cons_of_mem _ hx)
    exact ⟨y :: ys, .cons hy hys⟩

theorem exists_right_of_forall₂ {R : α → β → Prop} {xs : List α} {ys : List β}
    (h : List.Forall₂ R xs ys) {x : α} (hx : x ∈ xs) : ∃ y ∈ ys, R x y := by
  induction h with
  | nil => cases hx
  | cons hxy _ ih =>
    rcases List.mem_cons.1 hx with rfl | hx
    · exact ⟨_, List.mem_cons_self, hxy⟩
    · obtain ⟨y, hy, hR⟩ := ih hx
      exact ⟨y, List.mem_cons_of_mem _ hy, hR⟩

theorem exists_left_of_forall₂ {R : α → β → Prop} {xs : List α} {ys : List β}
    (h : List.Forall₂ R xs ys) {y : β} (hy : y ∈ ys) : ∃ x ∈ xs, R x y :=
  exists_right_of_forall₂ (R := flip R) (List.Forall₂.flip h) hy

theorem forall₂_flatMap {R : β → γ → Prop} {xs : List α} {f : α → List β}
    {g : α → List γ} (h : ∀ x ∈ xs, List.Forall₂ R (f x) (g x)) :
    List.Forall₂ R (xs.flatMap f) (xs.flatMap g) := by
  induction xs with
  | nil => exact .nil
  | cons x xs ih =>
    rw [List.flatMap_cons, List.flatMap_cons]
    exact List.rel_append (h x List.mem_cons_self) (ih fun y hy => h y (List.mem_cons_of_mem _ hy))

/-- Items that are chosen and items that are kept stand in a relation, if those chosen are exactly
those of which something is kept. -/
theorem forall₂_filter_filterMap {R : α → β → Prop} {p : α → Bool} {f : α → Option β}
    {xs : List α} (hchosen : ∀ x ∈ xs, p x = true → ∃ y, f x = some y ∧ R x y)
    (hothers : ∀ x ∈ xs, p x = false → f x = none) :
    List.Forall₂ R (xs.filter p) (xs.filterMap f) := by
  induction xs with
  | nil => exact .nil
  | cons x xs ih =>
    have hrest := ih (fun y hy => hchosen y (List.mem_cons_of_mem _ hy))
      fun y hy => hothers y (List.mem_cons_of_mem _ hy)
    cases hp : p x with
    | true =>
      obtain ⟨y, hy, hR⟩ := hchosen x List.mem_cons_self hp
      rw [List.filter_cons_of_pos hp, List.filterMap_cons_some hy]
      exact .cons hR hrest
    | false =>
      rw [List.filter_cons_of_neg (by simp [hp]),
        List.filterMap_cons_none (hothers x List.mem_cons_self hp)]
      exact hrest

/-! ### Effectful maps -/

/-- A computation and what follows it give a result when both do. -/
theorem bind_eq_ok_iff {x : Except ε α} {f : α → Except ε β} {b : β} :
    (x >>= f) = .ok b ↔ ∃ a, x = .ok a ∧ f a = .ok b := by
  cases x with
  | error e =>
    constructor
    · intro h
      cases h
    · rintro ⟨a, ha, -⟩
      cases ha
  | ok a =>
    constructor
    · intro h
      exact ⟨a, rfl, h⟩
    · rintro ⟨a', ha, h⟩
      rw [Except.ok.inj ha]
      exact h

/-- An effectful map over a list gives results when it gives one for each item. -/
theorem mapM_eq_ok_iff {f : α → Except ε β} {xs : List α} {ys : List β} :
    xs.mapM f = .ok ys ↔ List.Forall₂ (fun x y => f x = .ok y) xs ys := by
  induction xs generalizing ys with
  | nil =>
    rw [List.mapM_nil, List.forall₂_nil_left_iff]
    exact ⟨fun h => (Except.ok.inj h).symm, fun h => congrArg Except.ok h.symm⟩
  | cons x xs ih =>
    rw [List.mapM_cons, List.forall₂_cons_left_iff]
    constructor
    · intro h
      cases hx : f x with
      | error e => rw [hx] at h; cases h
      | ok y =>
        cases hxs : xs.mapM f with
        | error e => rw [hx, hxs] at h; cases h
        | ok zs =>
          rw [hx, hxs] at h
          exact ⟨y, zs, rfl, ih.1 hxs, (Except.ok.inj h).symm⟩
    · rintro ⟨y, zs, hx, hxs, rfl⟩
      rw [hx, ih.2 hxs]
      rfl

theorem mapM_congr {f g : α → Except ε β} {xs : List α}
    (h : ∀ x ∈ xs, f x = g x) : xs.mapM f = xs.mapM g := by
  induction xs with
  | nil => rfl
  | cons x xs ih =>
    rw [List.mapM_cons, List.mapM_cons, h x List.mem_cons_self,
      ih fun y hy => h y (List.mem_cons_of_mem _ hy)]

/-- Results that are parts of others, item by item, are together a part of the others. -/
theorem flatten_sublist {f g : α → Except ε (List β)} {xs : List α}
    {yss zss : List (List β)}
    (h : ∀ x ∈ xs, ∀ ys zs, f x = .ok ys → g x = .ok zs → ys.Sublist zs)
    (hf : List.Forall₂ (fun x ys => f x = .ok ys) xs yss)
    (hg : List.Forall₂ (fun x zs => g x = .ok zs) xs zss) : yss.flatten.Sublist zss.flatten := by
  induction hf generalizing zss with
  | nil => exact List.nil_sublist _
  | @cons x ys xs yss hy hf ih =>
    cases hg with
    | cons hz hg =>
      rw [List.flatten_cons, List.flatten_cons]
      exact (h x List.mem_cons_self _ _ hy hz).append
        (ih (fun x hx => h x (List.mem_cons_of_mem _ hx)) hg)

/-- An effectful map that keeps its results with more data gives the same results. -/
theorem map_mapM_map {f : α → Except ε β} {g : α → β → γ} {v : γ → β}
    (h : ∀ a b, v (g a b) = b) (xs : List α) :
    (xs.mapM fun a => (f a).map (g a)).map (List.map v) = xs.mapM f := by
  induction xs with
  | nil => rfl
  | cons a xs ih =>
    rw [List.mapM_cons, List.mapM_cons, ← ih]
    cases f a with
    | error e => rfl
    | ok b =>
      cases xs.mapM fun a => (f a).map (g a) with
      | error e => rfl
      | ok cs => exact congrArg (fun b => Except.ok (b :: cs.map v)) (h a b)

end TaintFlow
