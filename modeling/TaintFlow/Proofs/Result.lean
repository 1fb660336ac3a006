import TaintFlow.Result
import Mathlib.Data.List.Sort
import Mathlib.Data.String.Basic

/-!
# The order of findings in results

Findings are sorted by severity, file and line, and findings that are equal in this order keep the
places they had.

* `precedes_trans`, `precedes_total` : the order ranks any findings.
* `mergeSort_sublist` : sorting part of a list gives part of the sorted list, in the same order.
* `filter_mergeSort` : so choosing items commutes with sorting.
* `map_rank_mergeSort` : the ranks of the sorted findings do not depend on the order they had.
-/

namespace TaintFlow

/-- A stable sort of a sublist is a sublist of the sorted list. -/
theorem mergeSort_sublist {α : Type} {le : α → α → Bool}
    (trans : ∀ a b c, le a b = true → le b c = true → le a c = true)
    (total : ∀ a b, (le a b || le b a) = true) {l l' : List α} (h : l.Sublist l') :
    (l.mergeSort le).Sublist (l'.mergeSort le) := by
  -- an item stands between those that come before it strictly and those that do not
  have place : ∀ (a : α) (l : List α), (a :: l).mergeSort le =
      (l.mergeSort le).filter (fun b => !le a b) ++ a :: (l.mergeSort le).filter (le a) := by
    intro a l
    obtain ⟨before, after, hcons, hl, hbefore⟩ := List.mergeSort_cons trans total a l
    have hsorted := List.pairwise_mergeSort trans total (a :: l)
    rw [hcons] at hsorted
    have hafter : ∀ b ∈ after, le a b = true :=
      (List.pairwise_cons.1 (List.pairwise_append.1 hsorted).2.1).1
    have hnone : after.filter (fun b => !le a b) = [] :=
      List.filter_eq_nil_iff.2 fun b hb => by simp [hafter b hb]
    have hnone' : before.filter (le a) = [] :=
      List.filter_eq_nil_iff.2 fun b hb => by simpa using hbefore b hb
    rw [hcons, hl, List.filter_append, List.filter_append, List.filter_eq_self.2 hbefore, hnone,
      hnone', List.filter_eq_self.2 hafter, List.append_nil, List.nil_append]
  induction h with
  | slnil => exact List.Sublist.refl _
  | @cons l₁ l₂ a _ ih =>
    obtain ⟨before, after, hcons, hl, -⟩ := List.mergeSort_cons trans total a l₂
    rw [hcons]
    rw [hl] at ih
    exact ih.middle a
  | cons_cons a _ ih =>
    rw [place, place]
    exact (ih.filter _).append ((ih.filter _).cons_cons a)

/-- Choosing items from a list that is sorted stably is choosing them before. -/
theorem filter_mergeSort {α : Type} {le : α → α → Bool}
    (trans : ∀ a b c, le a b = true → le b c = true → le a c = true)
    (total : ∀ a b, (le a b || le b a) = true) (p : α → Bool) (l : List α) :
    (l.mergeSort le).filter p = (l.filter p).mergeSort le := by
  have hpart : ((l.filter p).mergeSort le).Sublist (l.mergeSort le) :=
    mergeSort_sublist trans total List.filter_sublist
  have hall : ((l.filter p).mergeSort le).filter p = (l.filter p).mergeSort le :=
    List.filter_eq_self.2 fun a ha => (List.mem_filter.1 (List.mem_mergeSort.1 ha)).2
  have hlength : ((l.filter p).mergeSort le).length = ((l.mergeSort le).filter p).length := by
    rw [List.length_mergeSort]
    exact ((List.mergeSort_perm l le).filter p).length_eq.symm
  have hchosen := hpart.filter p
  rw [hall] at hchosen
  exact (hchosen.eq_of_length hlength).symm

namespace ScanResult

theorem precedes_iff {a b : Finding} :
    precedes a b = true ↔ b.severity.priority < a.severity.priority ∨
      (a.severity.priority = b.severity.priority ∧ (a.location.file < b.location.file ∨
        (a.location.file = b.location.file ∧ a.location.line ≤ b.location.line))) := by
  unfold precedes
  split
  · rename_i hne
    simp only [decide_eq_true_eq]
    omega
  · rename_i hpriority
    have heq : a.severity.priority = b.severity.priority := by omega
    split
    · rename_i hfile
      simp [heq, hfile]
    · rename_i hfile
      have hsame : a.location.file = b.location.file := by simpa using hfile
      simp [heq, hsame]

theorem precedes_trans (a b c : Finding) (hab : precedes a b = true) (hbc : precedes b c = true) :
    precedes a c = true := by
  rw [precedes_iff] at hab hbc ⊢
  rcases hab with hab | ⟨hp, hab⟩ <;> rcases hbc with hbc | ⟨hp', hbc⟩
  · exact .inl (by omega)
  · exact .inl (by omega)
  · exact .inl (by omega)
  · refine .inr ⟨hp.trans hp', ?_⟩
    rcases hab with hab | ⟨hf, hab⟩ <;> rcases hbc with hbc | ⟨hf', hbc⟩
    · exact .inl (hab.trans hbc)
    · exact .inl (hf' ▸ hab)
    · exact .inl (hf ▸ hbc)
    · exact .inr ⟨hf.trans hf', hab.trans hbc⟩

theorem precedes_total (a b : Finding) : (precedes a b || precedes b a) = true := by
  rw [Bool.or_eq_true, precedes_iff, precedes_iff]
  rcases lt_trichotomy a.severity.priority b.severity.priority with hp | hp | hp
  · exact .inr (.inl hp)
  · rcases lt_trichotomy a.location.file b.location.file with hf | hf | hf
    · exact .inl (.inr ⟨hp, .inl hf⟩)
    · rcases Nat.le_total a.location.line b.location.line with hl | hl
      · exact .inl (.inr ⟨hp, .inr ⟨hf, hl⟩⟩)
      · exact .inr (.inr ⟨hp.symm, .inr ⟨hf.symm, hl⟩⟩)
    · exact .inr (.inr ⟨hp.symm, .inl hf⟩)
  · exact .inl (.inl hp)

/-- All that the order of findings looks at. -/
def rank (f : Finding) : Severity × String × ℕ :=
  (f.severity, f.location.file, f.location.line)

/-- The order of findings, told from their ranks. -/
def RankLe (x y : Severity × String × ℕ) : Prop :=
  y.1.priority < x.1.priority ∨
    (x.1.priority = y.1.priority ∧ (x.2.1 < y.2.1 ∨ (x.2.1 = y.2.1 ∧ x.2.2 ≤ y.2.2)))

theorem rankLe_antisymm {x y : Severity × String × ℕ} (hxy : RankLe x y) (hyx : RankLe y x) :
    x = y := by
  obtain ⟨s, file, line⟩ := x
  obtain ⟨s', file', line'⟩ := y
  change s'.priority < s.priority ∨ (s.priority = s'.priority ∧
    (file < file' ∨ (file = file' ∧ line ≤ line'))) at hxy
  change s.priority < s'.priority ∨ (s'.priority = s.priority ∧
    (file' < file ∨ (file' = file ∧ line' ≤ line))) at hyx
  rcases hxy with hlt | ⟨hp, hxy⟩
  · omega
  rcases hyx with hlt | ⟨-, hyx⟩
  · omega
  have hseverity : s = s' := by
    revert hp
    cases s <;> cases s' <;> decide
  rcases hxy with hlt | ⟨rfl, hline⟩
  · rcases hyx with hlt' | ⟨rfl, -⟩
    · exact absurd hlt' hlt.asymm
    · exact absurd hlt (lt_irrefl _)
  · rcases hyx with hlt | ⟨-, hline'⟩
    · exact absurd hlt (lt_irrefl _)
    · rw [hseverity, le_antisymm hline hline']

/-- **The ranks of sorted findings** are the same, in whatever order the findings were. -/
theorem map_rank_mergeSort {l l' : List Finding} (h : l.Perm l') :
    (l.mergeSort precedes).map rank = (l'.mergeSort precedes).map rank := by
  have hsorted : ∀ l : List Finding, ((l.mergeSort precedes).map rank).Pairwise RankLe := by
    intro l
    refine List.pairwise_map.2 ?_
    exact (List.pairwise_mergeSort precedes_trans precedes_total l).imp fun h => precedes_iff.1 h
  have hperm := (List.mergeSort_perm l precedes).trans
    (h.trans (List.mergeSort_perm l' precedes).symm)
  exact (hperm.map rank).eq_of_pairwise (fun x y _ _ => rankLe_antisymm) (hsorted l) (hsorted l')

/-- A result with part of the findings has part of them after sorting as well. -/
theorem findings_sorted_sublist {r r' : ScanResult} (h : r.findings.Sublist r'.findings) :
    r.sorted.findings.Sublist r'.sorted.findings :=
  mergeSort_sublist precedes_trans precedes_total h

end ScanResult

end TaintFlow
