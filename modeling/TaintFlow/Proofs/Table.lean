import TaintFlow.Table
import Mathlib.Data.List.Nodup
import Mathlib.Data.List.Perm.Basic

/-!
# Laws of ordered tables

What a table answers after a change, and where the change stands in the order of the entries.

* `get?_insert`, `get?_erase`, `getD_update` : reading after writing.
* `insert_of_not_mem` : a new key comes last, so a table that is extended by a new key is the old
  table with one more entry.
* `update_entries` : an update works on one entry in its place, or adds one.
* `flatten_values_perm` : a table of lists, read as a whole, holds what its keys hold one by one.
-/

namespace TaintFlow

/-- A choice among items that is seen in what they contribute. -/
theorem flatMap_filter_eq {α β : Type} {f : α → List β} {q : α → Bool} {p : β → Bool} {l : List α}
    (h : ∀ a ∈ l, ∀ b ∈ f a, p b = q a) : (l.filter q).flatMap f = (l.flatMap f).filter p := by
  induction l with
  | nil => rfl
  | cons a l ih =>
    have hl := ih fun a' ha' => h a' (List.mem_cons_of_mem _ ha')
    have ha := h a List.mem_cons_self
    rw [List.flatMap_cons, List.filter_append, ← hl]
    by_cases hq : q a = true
    · rw [List.filter_cons_of_pos hq, List.flatMap_cons,
        List.filter_eq_self.2 fun b hb => (ha b hb).trans hq]
    · have hnil : (f a).filter p = [] := List.filter_eq_nil_iff.2 fun b hb => by rwa [ha b hb]
      rw [List.filter_cons_of_neg hq, hnil, List.nil_append]

namespace Table

variable {κ α β : Type} [DecidableEq κ]

/-! ### Reading -/

theorem mem_entries_of_get? {t : Table κ α} {k : κ} {v : α} (h : t.get? k = some v) :
    (k, v) ∈ t.entries := by
  obtain ⟨before, after, he, -⟩ := List.lookup_eq_some_iff.1 h
  rw [he]
  exact List.mem_append_right _ List.mem_cons_self

theorem mem_values_of_get? {t : Table κ α} {k : κ} {v : α} (h : t.get? k = some v) :
    v ∈ t.values :=
  List.mem_map.2 ⟨(k, v), mem_entries_of_get? h, rfl⟩

theorem get?_eq_none_iff {t : Table κ α} {k : κ} : t.get? k = none ↔ k ∉ t.keys := by
  rw [get?, List.lookup_eq_none_iff, keys, List.mem_map]
  simp only [bne_iff_ne, ne_eq, not_exists, not_and]
  exact forall₂_congr fun p _ => not_congr eq_comm

theorem contains_iff {t : Table κ α} {k : κ} : t.contains k = true ↔ k ∈ t.keys := by
  rw [contains, Option.isSome_iff_ne_none, ne_eq, get?_eq_none_iff, not_not]

theorem getD_of_get? {t : Table κ α} {k : κ} {v d : α} (h : t.get? k = some v) :
    t.getD k d = v := by
  rw [getD, h]; rfl

theorem getD_of_not_mem {t : Table κ α} {k : κ} (h : k ∉ t.keys) (d : α) : t.getD k d = d := by
  rw [getD, get?_eq_none_iff.2 h]; rfl

theorem exists_mem_values_of_mem_getD {t : Table κ (List α)} {k : κ} {a : α}
    (h : a ∈ t.getD k []) : ∃ v ∈ t.values, a ∈ v := by
  cases hk : t.get? k with
  | none => rw [getD, hk] at h; cases h
  | some v => exact ⟨v, mem_values_of_get? hk, getD_of_get? hk ▸ h⟩

theorem get?_cons (k' : κ) (v : α) (l : List (κ × α)) (k : κ) :
    (⟨(k', v) :: l⟩ : Table κ α).get? k = if k = k' then some v else (⟨l⟩ : Table κ α).get? k := by
  rw [get?, List.lookup_cons]
  by_cases h : k = k'
  · simp [h]
  · rw [if_neg h, beq_false_of_ne h]
    rfl

theorem get?_insert (t : Table κ α) (k : κ) (v : α) (k' : κ) :
    (t.insert k v).get? k' = if k' = k then some v else t.get? k' := by
  obtain ⟨l⟩ := t
  rw [insert]
  induction l with
  | nil => rw [insertInto, get?_cons]
  | cons p l ih =>
    obtain ⟨k₀, v₀⟩ := p
    rw [insertInto]
    by_cases h₀ : k₀ = k
    · subst h₀
      rw [if_pos rfl, get?_cons, get?_cons]
      by_cases h : k' = k₀ <;> simp [h]
    · rw [if_neg h₀, get?_cons, get?_cons, ih]
      by_cases h : k' = k₀
      · subst h
        simp [h₀]
      · simp [h]

theorem get?_erase (t : Table κ α) (k k' : κ) :
    (t.erase k).get? k' = if k' = k then none else t.get? k' := by
  obtain ⟨l⟩ := t
  rw [erase]
  induction l with
  | nil => simp [get?]
  | cons p l ih =>
    obtain ⟨k₀, v₀⟩ := p
    by_cases h₀ : k₀ = k
    · subst h₀
      rw [List.filter_cons_of_neg (by simp), ih, get?_cons]
      by_cases h : k' = k₀ <;> simp [h]
    · rw [List.filter_cons_of_pos (by simpa using h₀), get?_cons, get?_cons, ih]
      by_cases h : k' = k₀
      · subst h
        simp [h₀]
      · simp [h]

theorem get?_of_mem_entries {t : Table κ α} (h : t.keys.Nodup) {p : κ × α} (hp : p ∈ t.entries) :
    t.get? p.1 = some p.2 := by
  obtain ⟨l⟩ := t
  induction l with
  | nil => cases hp
  | cons q l ih =>
    obtain ⟨hq, hl⟩ := List.nodup_cons.1 h
    rw [get?_cons]
    rcases List.mem_cons.1 hp with rfl | hp
    · exact if_pos rfl
    · have hne : p.1 ≠ q.1 := fun heq => hq (heq ▸ List.mem_map_of_mem hp)
      rw [if_neg hne]
      exact ih hl hp

/-- Tables with the same entries give the same answers, in whatever order the entries stand. -/
theorem get?_of_perm {t t' : Table κ α} (h : t.entries.Perm t'.entries) (hn : t.keys.Nodup)
    (k : κ) : t.get? k = t'.get? k := by
  cases hk : t'.get? k with
  | none =>
    rw [get?_eq_none_iff] at hk ⊢
    exact fun hmem => hk ((h.map Prod.fst).mem_iff.1 hmem)
  | some v => exact get?_of_mem_entries hn (h.mem_iff.2 (mem_entries_of_get? hk))

theorem get?_foldl_insert_of_not_mem {l : List (κ × α)} {k : κ} (h : k ∉ l.map Prod.fst)
    (t : Table κ α) :
    (l.foldl (fun t entry => t.insert entry.1 entry.2) t).get? k = t.get? k := by
  induction l generalizing t with
  | nil => rfl
  | cons p l ih =>
    rw [List.map_cons, List.mem_cons, not_or] at h
    rw [List.foldl_cons, ih h.2, get?_insert, if_neg h.1]

theorem getD_insert (t : Table κ α) (k : κ) (v : α) (k' : κ) (d : α) :
    (t.insert k v).getD k' d = if k' = k then v else t.getD k' d := by
  rw [getD, get?_insert]
  split <;> rfl

theorem getD_erase (t : Table κ α) (k k' : κ) (d : α) :
    (t.erase k).getD k' d = if k' = k then d else t.getD k' d := by
  rw [getD, get?_erase]
  split <;> rfl

theorem getD_update (t : Table κ α) (k : κ) (d : α) (f : α → α) (k' : κ) (d' : α) :
    (t.update k d f).getD k' d' = if k' = k then f (t.getD k d) else t.getD k' d' :=
  getD_insert ..

/-! ### Writing -/

theorem insertInto_append_of_not_mem {k : κ} {l : List (κ × α)} (h : k ∉ l.map Prod.fst) (v : α)
    (l' : List (κ × α)) : insertInto k v (l ++ l') = l ++ insertInto k v l' := by
  induction l with
  | nil => rfl
  | cons p l ih =>
    rw [List.map_cons, List.mem_cons, not_or] at h
    rw [List.cons_append, insertInto, if_neg (Ne.symm h.1), ih h.2]
    rfl

theorem insert_of_not_mem {t : Table κ α} {k : κ} (h : k ∉ t.keys) (v : α) :
    (t.insert k v).entries = t.entries ++ [(k, v)] := by
  have := insertInto_append_of_not_mem h v []
  rwa [List.append_nil] at this

theorem foldl_insert_append {l : List (κ × α)} (l' : List (κ × α)) {entries : List (κ × α)}
    (h : ∀ entry ∈ entries, entry.1 ∉ l.map Prod.fst) :
    (entries.foldl (fun t entry => t.insert entry.1 entry.2) (⟨l ++ l'⟩ : Table κ α)).entries =
      l ++
        (entries.foldl (fun t entry => t.insert entry.1 entry.2) (⟨l'⟩ : Table κ α)).entries := by
  induction entries generalizing l' with
  | nil => rfl
  | cons entry entries ih =>
    have hfirst := insertInto_append_of_not_mem (h entry List.mem_cons_self) entry.2 l'
    rw [List.foldl_cons, List.foldl_cons, insert, insert, hfirst]
    exact ih _ fun e he => h e (List.mem_cons_of_mem _ he)

/-- Entries with new keys come after those that are there. -/
theorem foldl_insert_of_not_mem {t : Table κ α} {entries : List (κ × α)}
    (h : ∀ entry ∈ entries, entry.1 ∉ t.keys) :
    (entries.foldl (fun t entry => t.insert entry.1 entry.2) t).entries =
      t.entries ++
        (entries.foldl (fun t entry => t.insert entry.1 entry.2) ({} : Table κ α)).entries := by
  have := foldl_insert_append [] h
  rwa [List.append_nil] at this

theorem insert_insert (t : Table κ α) (k : κ) (v v' : α) :
    (t.insert k v).insert k v' = t.insert k v' := by
  obtain ⟨l⟩ := t
  refine congrArg mk (?_ : insertInto k v' (insertInto k v l) = insertInto k v' l)
  induction l with
  | nil => simp [insertInto]
  | cons p l ih =>
    by_cases h : p.1 = k
    · simp [insertInto, h]
    · simp [insertInto, h, ih]

theorem update_insert (t : Table κ α) (k : κ) (v d : α) (f : α → α) :
    (t.insert k v).update k d f = t.insert k (f v) := by
  rw [update, getD_insert, if_pos rfl, insert_insert]

theorem update_update (t : Table κ α) (k : κ) (d : α) (f g : α → α) :
    (t.update k d f).update k d g = t.update k d (fun v => g (f v)) :=
  update_insert ..

theorem foldl_update (t : Table κ α) (k : κ) (d : α) (f : β → α → α) (xs : List β) :
    xs.foldl (fun t x => t.update k d (f x)) t =
      if xs = [] then t else t.update k d fun v => xs.foldl (fun v x => f x v) v := by
  cases xs with
  | nil => rfl
  | cons x xs =>
    rw [if_neg (List.cons_ne_nil _ _)]
    induction xs generalizing x t with
    | nil => rfl
    | cons y ys ih =>
      rw [List.foldl_cons, ih, update_update]
      rfl

/-- An update works on the first entry of its key in place, or adds an entry. -/
theorem update_entries (t : Table κ α) (k : κ) (d : α) (f : α → α) :
    (k ∉ t.keys ∧ (t.update k d f).entries = t.entries ++ [(k, f d)]) ∨
      ∃ l v l', t.entries = l ++ (k, v) :: l' ∧ k ∉ l.map Prod.fst ∧
        (t.update k d f).entries = l ++ (k, f v) :: l' := by
  by_cases hk : k ∈ t.keys
  · obtain ⟨v, hv⟩ := Option.isSome_iff_exists.1 (contains_iff.2 hk)
    obtain ⟨l, l', he, hl⟩ := List.lookup_eq_some_iff.1 hv
    have hl' : k ∉ l.map Prod.fst := by
      rintro hmem
      obtain ⟨p, hp, rfl⟩ := List.mem_map.1 hmem
      simpa using hl p hp
    refine .inr ⟨l, v, l', he, hl', ?_⟩
    rw [update, getD_of_get? hv, insert, he, insertInto_append_of_not_mem hl', insertInto,
      if_pos rfl]
  · refine .inl ⟨hk, ?_⟩
    rw [update, getD_of_not_mem hk, insert_of_not_mem hk]

theorem keys_insert (t : Table κ α) (k : κ) (v : α) :
    (t.insert k v).keys = if k ∈ t.keys then t.keys else t.keys ++ [k] := by
  rcases update_entries t k v (fun _ => v) with ⟨hk, he⟩ | ⟨l, v', l', he, -, he'⟩
  · rw [if_neg hk]
    exact (congrArg (List.map Prod.fst) he).trans (by simp [keys])
  · have hk : k ∈ t.keys := by simp [keys, he]
    rw [if_pos hk]
    exact (congrArg (List.map Prod.fst) he').trans (by simp [keys, he])

theorem nodup_keys_insert {t : Table κ α} (h : t.keys.Nodup) (k : κ) (v : α) :
    (t.insert k v).keys.Nodup := by
  rw [keys_insert]
  split
  · exact h
  · rename_i hk
    exact h.append (List.nodup_singleton k) (by simpa using hk)

theorem nodup_keys_erase {t : Table κ α} (h : t.keys.Nodup) (k : κ) : (t.erase k).keys.Nodup :=
  h.sublist (List.filter_sublist.map Prod.fst)

theorem erase_of_not_mem {t : Table κ α} {k : κ} (h : k ∉ t.keys) : t.erase k = t := by
  refine congrArg mk (List.filter_eq_self.2 fun entry he => decide_eq_true ?_)
  rintro rfl
  exact h (List.mem_map_of_mem he)

theorem not_mem_keys_erase (t : Table κ α) (k : κ) : k ∉ (t.erase k).keys := by
  rw [← get?_eq_none_iff, get?_erase, if_pos rfl]

theorem mem_keys_erase {t : Table κ α} {k k' : κ} :
    k' ∈ (t.erase k).keys ↔ k' ∈ t.keys ∧ k' ≠ k := by
  rw [← contains_iff, ← contains_iff, contains, contains, get?_erase]
  by_cases h : k' = k <;> simp [h]

theorem mem_keys_insert {t : Table κ α} {k k' : κ} {v : α} :
    k' ∈ (t.insert k v).keys ↔ k' ∈ t.keys ∨ k' = k := by
  rw [← contains_iff, ← contains_iff, contains, contains, get?_insert]
  by_cases h : k' = k <;> simp [h]

theorem foldl_erase (t : Table κ α) (ks : List κ) :
    (ks.foldl erase t).entries = t.entries.filter fun entry => entry.1 ∉ ks := by
  induction ks generalizing t with
  | nil => simp
  | cons k ks ih =>
    rw [List.foldl_cons, ih, erase, List.filter_filter]
    refine List.filter_congr fun entry _ => ?_
    simp [Bool.and_comm]

theorem get?_foldl_erase (t : Table κ α) (ks : List κ) (k : κ) :
    (ks.foldl erase t).get? k = if k ∈ ks then none else t.get? k := by
  induction ks generalizing t with
  | nil => simp
  | cons k' ks ih =>
    rw [List.foldl_cons, ih, get?_erase]
    by_cases hk : k = k' <;> simp [hk]

theorem forall_entries_insert {t : Table κ α} {P : κ → α → Prop}
    (h : ∀ p ∈ t.entries, P p.1 p.2) {k : κ} {v : α} (hv : P k v) :
    ∀ p ∈ (t.insert k v).entries, P p.1 p.2 := by
  rcases update_entries t k v (fun _ => v) with ⟨-, he⟩ | ⟨l, v', l', he, -, he'⟩
  · intro p hp
    rcases List.mem_append.1 (he ▸ hp : p ∈ t.entries ++ [(k, v)]) with hp | hp
    · exact h p hp
    · rw [List.mem_singleton.1 hp]; exact hv
  · intro p hp
    rw [he] at h
    rcases List.mem_append.1 (he' ▸ hp : p ∈ l ++ (k, v) :: l') with hp | hp
    · exact h p (List.mem_append_left _ hp)
    · rcases List.mem_cons.1 hp with rfl | hp
      · exact hv
      · exact h p (List.mem_append_right _ (List.mem_cons_of_mem _ hp))

theorem forall_entries_update {t : Table κ α} {P : κ → α → Prop}
    (h : ∀ p ∈ t.entries, P p.1 p.2) {k : κ} {d : α} (hd : P k d) {f : α → α}
    (hf : ∀ v, P k v → P k (f v)) : ∀ p ∈ (t.update k d f).entries, P p.1 p.2 := by
  refine forall_entries_insert h (hf _ ?_)
  cases hk : t.get? k with
  | none => rw [getD, hk]; exact hd
  | some v => rw [getD_of_get? hk]; exact h _ (mem_entries_of_get? hk)

/-- Writing to a table keeps what holds of all its values. -/
theorem forall_values_insert {t : Table κ α} {P : α → Prop} (h : ∀ v ∈ t.values, P v) (k : κ)
    {v : α} (hv : P v) : ∀ w ∈ (t.insert k v).values, P w :=
  List.forall_mem_map.2 (forall_entries_insert (P := fun _ => P) (List.forall_mem_map.1 h) hv)

theorem forall_values_update {t : Table κ α} {P : α → Prop} (h : ∀ v ∈ t.values, P v) (k : κ)
    {d : α} (hd : P d) {f : α → α} (hf : ∀ v, P v → P (f v)) :
    ∀ w ∈ (t.update k d f).values, P w :=
  List.forall_mem_map.2 (forall_entries_update (P := fun _ => P) (List.forall_mem_map.1 h) hd hf)

/-- What an update adds to the contents of one entry it adds to the contents of the table. -/
theorem flatMap_update_perm {F : κ → α → List β} {k : κ} {d : α} {f : α → α} {new : List β}
    (t : Table κ α) (hd : F k d = []) (hf : ∀ v, (F k (f v)).Perm (F k v ++ new)) :
    ((t.update k d f).entries.flatMap fun p => F p.1 p.2).Perm
      ((t.entries.flatMap fun p => F p.1 p.2) ++ new) := by
  rcases update_entries t k d f with ⟨-, he⟩ | ⟨l, v, l', he, -, he'⟩
  · rw [he, List.flatMap_append, List.flatMap_singleton]
    refine List.Perm.append_left _ ((hf d).trans (.of_eq ?_))
    rw [hd, List.nil_append]
  · rw [he, he', List.flatMap_append, List.flatMap_append, List.flatMap_cons, List.flatMap_cons,
      List.append_assoc, List.append_assoc]
    refine List.Perm.append_left _ (((hf v).append_right _).trans ?_)
    rw [List.append_assoc]
    exact List.Perm.append_left _ List.perm_append_comm

/-- **A table of lists, read as a whole**, holds what it is known to hold at each key. -/
theorem flatten_values_perm {t : Table κ (List α)} (ht : t.keys.Nodup) {face : α → β} {f : β → κ}
    {L : List β} (h : ∀ k, ((t.getD k []).map face).Perm (L.filter fun b => f b = k)) :
    (t.values.flatten.map face).Perm L := by
  obtain ⟨l⟩ := t
  induction l generalizing L with
  | nil =>
    have hL : L = [] := List.eq_nil_iff_forall_not_mem.2 fun b hb => by
      have := (h (f b)).nil_eq ▸ List.mem_filter.2 ⟨hb, decide_eq_true rfl⟩
      cases this
    rw [hL]
    exact .nil
  | cons p l ih =>
    obtain ⟨k, bucket⟩ := p
    obtain ⟨hk, hl⟩ := List.nodup_cons.1 ht
    have hbucket : (bucket.map face).Perm (L.filter fun b => f b = k) := by
      have := h k
      rwa [getD, get?_cons, if_pos rfl] at this
    -- the first entry takes what belongs to its key, and the other entries share the rest
    have hrest : ((⟨l⟩ : Table κ (List α)).values.flatten.map face).Perm
        (L.filter fun b => !decide (f b = k)) := by
      refine ih hl fun k' => ?_
      rw [List.filter_filter]
      by_cases hkk : k' = k
      · subst hkk
        rw [getD_of_not_mem hk, List.filter_eq_nil_iff.2 (by simp)]
        exact .nil
      · have := h k'
        rw [getD, get?_cons, if_neg hkk] at this
        refine this.trans (.of_eq (List.filter_congr fun b _ => ?_))
        by_cases hb : f b = k'
        · simp [hb, hkk]
        · simp [hb]
    have hall : ((⟨(k, bucket) :: l⟩ : Table κ (List α)).values.flatten.map face) =
        bucket.map face ++ (⟨l⟩ : Table κ (List α)).values.flatten.map face := by
      simp [values]
    rw [hall]
    exact (hbucket.append hrest).trans (List.filter_append_perm _ L)

end Table

end TaintFlow
