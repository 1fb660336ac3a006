import TaintFlow.Proofs.Flow.Record
import Mathlib.Data.List.Range

/-!
# Depth-first order

A record in a tree is addressed by the places of its ancestors among their siblings.  Depth-first
order is the order of addresses in which an address comes before its extensions, and addresses that
part come in the order of the places at which they part.  This is the lexicographic order of lists.

* `mem_addresses` : `addresses` lists the addresses of a tree, no others,
* `pairwise_addresses` : in depth-first order, and
* `map_some_walk` : `walk` visits the records at these addresses.
* `exists_addresses_witnesses` : so the witnesses of a tree are its vulnerable records in
  depth-first order.
-/

namespace TaintFlow.Flow.Record

/-- The first address comes before the second in depth-first order. -/
def Precedes (a b : List ℕ) : Prop :=
  List.Lex (· < ·) a b

theorem addressesFrom_eq (i : ℕ) (rs : List Record) :
    addressesFrom i rs = (rs.zipIdx i).flatMap fun p => p.1.addresses.map (p.2 :: ·) := by
  induction rs generalizing i with
  | nil => rfl
  | cons r rs ih => rw [addressesFrom, ih, List.zipIdx_cons, List.flatMap_cons]

theorem addresses_eq (r : Record) :
    r.addresses = [] :: r.children.zipIdx.flatMap fun p => p.1.addresses.map (p.2 :: ·) := by
  cases r
  rw [addresses, addressesFrom_eq]

theorem at?_cons_of_mem {r : Record} {p : Record × ℕ} (h : p ∈ r.children.zipIdx) (a : List ℕ) :
    r.at? (p.2 :: a) = p.1.at? a := by
  rw [at?, List.mem_zipIdx_iff_getElem?.1 h, Option.bind_some]

/-- The addresses are those at which there is a record. -/
theorem mem_addresses {r : Record} {a : List ℕ} : a ∈ r.addresses ↔ (r.at? a).isSome = true := by
  induction a generalizing r with
  | nil =>
    rw [addresses_eq]
    exact iff_of_true List.mem_cons_self rfl
  | cons i a ih =>
    rw [addresses_eq, List.mem_cons, List.mem_flatMap]
    constructor
    · rintro (h | ⟨p, hp, h⟩)
      · cases h
      · obtain ⟨b, hb, heq⟩ := List.mem_map.1 h
        cases heq
        rw [at?_cons_of_mem hp]
        exact ih.1 hb
    · intro h
      rw [at?] at h
      cases hc : r.children[i]? with
      | none => rw [hc] at h; cases h
      | some c =>
        rw [hc, Option.bind_some] at h
        exact .inr ⟨(c, i), List.mk_mem_zipIdx_iff_getElem?.2 hc,
          List.mem_map.2 ⟨a, ih.2 h, rfl⟩⟩

theorem pairwise_snd_zipIdx {α : Type} (l : List α) :
    l.zipIdx.Pairwise fun p q => p.2 < q.2 := by
  have h : (l.zipIdx.map Prod.snd).Pairwise (· < ·) := by
    rw [List.zipIdx_map_snd]
    exact List.pairwise_lt_range'
  exact List.pairwise_map.1 h

/-- The addresses come in depth-first order. -/
theorem pairwise_addresses (r : Record) : r.addresses.Pairwise Precedes := by
  induction r using induction with
  | h r ih =>
    rw [addresses_eq, List.pairwise_cons, List.pairwise_flatMap]
    refine ⟨fun a ha => ?_, fun p hp => ?_, ?_⟩
    · obtain ⟨p, -, ha⟩ := List.mem_flatMap.1 ha
      obtain ⟨b, -, rfl⟩ := List.mem_map.1 ha
      exact .nil
    · have hc : p.1 ∈ r.children := List.mem_of_getElem? (List.mem_zipIdx_iff_getElem?.1 hp)
      rw [List.pairwise_map]
      exact (ih p.1 hc).imp fun h => .cons h
    · refine (pairwise_snd_zipIdx r.children).imp fun hlt a ha b hb => ?_
      obtain ⟨a, -, rfl⟩ := List.mem_map.1 ha
      obtain ⟨b, -, rfl⟩ := List.mem_map.1 hb
      exact .rel hlt

/-- A walk visits the records at the addresses, in their order. -/
theorem map_some_walk (r : Record) : r.walk.map some = r.addresses.map r.at? := by
  induction r using induction with
  | h r ih =>
    have hchildren : r.children.flatMap walk = r.children.zipIdx.flatMap fun p => p.1.walk := by
      rw [← List.flatMap_map Prod.fst walk, List.zipIdx_map_fst]
    rw [walk_eq, addresses_eq, List.map_cons, List.map_cons, hchildren, List.map_flatMap,
      List.map_flatMap]
    refine congrArg₂ _ rfl (List.flatMap_congr fun p hp => ?_)
    have hc : p.1 ∈ r.children := List.mem_of_getElem? (List.mem_zipIdx_iff_getElem?.1 hp)
    rw [ih p.1 hc, List.map_map]
    exact List.map_congr_left fun a _ => (at?_cons_of_mem hp a).symm

theorem mem_walk_iff_at? {r w : Record} : w ∈ r.walk ↔ ∃ a, r.at? a = some w := by
  have h : some w ∈ r.walk.map some ↔ w ∈ r.walk := by simp
  rw [← h, map_some_walk, List.mem_map]
  exact ⟨fun ⟨a, _, ha⟩ => ⟨a, ha⟩, fun ⟨a, ha⟩ => ⟨a, mem_addresses.2 (by simp [ha]), ha⟩⟩

/-- A tree is vulnerable when there is a vulnerable record at some address. -/
theorem isVulnerable_iff_at? {r : Record} :
    r.isVulnerable = true ↔ ∃ a w, r.at? a = some w ∧ w.verdict.isVulnerable = true := by
  rw [isVulnerable_iff]
  constructor
  · rintro ⟨w, hw, hv⟩
    obtain ⟨a, ha⟩ := mem_walk_iff_at?.1 hw
    exact ⟨a, w, ha, hv⟩
  · rintro ⟨a, w, ha, hv⟩
    exact ⟨w, mem_walk_iff_at?.2 ⟨a, ha⟩, hv⟩

/-- **The witnesses of a tree** are the vulnerable records in it, in depth-first order. -/
theorem exists_addresses_witnesses (r : Record) :
    ∃ as : List (List ℕ), as.Pairwise Precedes ∧
      (∀ a, a ∈ as ↔ ∃ w, r.at? a = some w ∧ w.verdict.isVulnerable = true) ∧
      r.witnesses.map some = as.map r.at? := by
  let vulnerable : Option Record → Bool := fun w => w.any (·.verdict.isVulnerable)
  refine ⟨r.addresses.filter fun a => vulnerable (r.at? a), (pairwise_addresses r).filter _,
    fun a => ?_, ?_⟩
  · rw [List.mem_filter, Option.any_eq_true]
    refine and_iff_right_of_imp fun ⟨w, hw, _⟩ => mem_addresses.2 (by simp [hw])
  · have hfilter : r.witnesses.map some = (r.walk.map some).filter vulnerable := by
      rw [List.filter_map]; rfl
    rw [hfilter, map_some_walk, List.filter_map]
    rfl

end TaintFlow.Flow.Record
