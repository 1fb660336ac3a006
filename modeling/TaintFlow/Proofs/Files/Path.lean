import TaintFlow.Files.Path

/-!
# Paths and their components

What a path begins with and the list of its components say all about it: they can be read back from
the text that is made of them.

* `components_ofParts`, `anchor_ofParts` : a text made of parts has these parts.
* `isUnder_join` : a path that starts at another one lies below it.
-/

namespace TaintFlow.Files.Path

/-- A text that can be a component. -/
def Plain (c : String) : Prop :=
  '/' ∉ c.toList ∧ c ≠ "" ∧ c ≠ "."

/-- A text that can stand before the components. -/
def IsAnchor (a : String) : Prop :=
  a = "" ∨ a = "/" ∨ a = "//"

theorem isAnchor_anchor (path : String) : IsAnchor (anchor path) := by
  unfold anchor
  split
  · exact .inr (.inl rfl)
  · exact .inr (.inr rfl)
  · exact .inr (.inl rfl)
  · exact .inl rfl

/-! ### Components -/

/-- The components of a path, given as characters. -/
def componentsOf (cs : List Char) : List String :=
  ((cs.splitOn '/').map String.ofList).filter fun c => c ≠ "" && c ≠ "."

theorem componentsOf_append (cs ds : List Char) :
    componentsOf (cs ++ '/' :: ds) = componentsOf cs ++ componentsOf ds := by
  unfold componentsOf
  rw [List.splitOn_append_cons_self, List.map_append, List.filter_append]

theorem componentsOf_slash (cs : List Char) : componentsOf ('/' :: cs) = componentsOf cs :=
  componentsOf_append [] cs

theorem componentsOf_of_plain {c : String} (h : Plain c) : componentsOf c.toList = [c] := by
  obtain ⟨hslash, hempty, hdot⟩ := h
  unfold componentsOf
  rw [List.splitOn_eq_singleton hslash]
  simp [hempty, hdot]

theorem not_mem_of_mem_splitOn {cs piece : List Char} (h : piece ∈ cs.splitOn '/') :
    '/' ∉ piece := by
  induction cs generalizing piece with
  | nil =>
    rw [List.splitOn_nil, List.mem_singleton] at h
    rw [h]
    exact List.not_mem_nil
  | cons c cs ih =>
    rw [List.splitOn_cons_eq_if_modifyHead] at h
    split at h
    · rcases List.mem_cons.1 h with rfl | h
      · exact List.not_mem_nil
      · exact ih h
    · rename_i hc
      obtain ⟨first, rest, hsplit⟩ := List.exists_cons_of_ne_nil (List.splitOn_ne_nil '/' cs)
      rw [hsplit, List.modifyHead_cons] at h
      rcases List.mem_cons.1 h with rfl | h
      · have hfirst := ih (hsplit ▸ List.mem_cons_self)
        have hne : ¬ '/' = c := fun heq => hc (heq ▸ beq_self_eq_true c)
        exact fun hmem => (List.mem_cons.1 hmem).elim hne hfirst
      · exact ih (hsplit ▸ List.mem_cons_of_mem _ h)

theorem plain_of_mem_components {c path : String} (h : c ∈ components path) : Plain c := by
  obtain ⟨hmem, hne⟩ := List.mem_filter.1 h
  obtain ⟨piece, hpiece, rfl⟩ := List.mem_map.1 hmem
  simp only [Bool.and_eq_true, decide_eq_true_eq] at hne
  refine ⟨?_, hne.1, hne.2⟩
  rw [String.toList_ofList]
  exact not_mem_of_mem_splitOn hpiece

theorem componentsOf_intercalate {cs : List String} (h : ∀ c ∈ cs, Plain c) :
    componentsOf (String.intercalate "/" cs).toList = cs := by
  induction cs with
  | nil => rfl
  | cons c cs ih =>
    have hc := componentsOf_of_plain (h c List.mem_cons_self)
    rcases cs with _ | ⟨d, cs⟩
    · rw [String.intercalate_singleton]
      exact hc
    · have htext : (String.intercalate "/" (c :: d :: cs)).toList =
          c.toList ++ '/' :: (String.intercalate "/" (d :: cs)).toList := by
        rw [String.intercalate_cons_cons]
        simp
      rw [htext, componentsOf_append, hc, ih fun e he => h e (List.mem_cons_of_mem _ he)]
      rfl

/-! ### Parts -/

theorem toList_ofParts {a : String} {cs : List String}
    (h : a ++ String.intercalate "/" cs ≠ "") :
    (ofParts a cs).toList = a.toList ++ (String.intercalate "/" cs).toList := by
  have hne : ¬ (a ++ String.intercalate "/" cs == "") = true := by simpa using h
  rw [ofParts, if_neg hne, String.toList_append]

/-- **The components of a text made of components** are these. -/
theorem components_ofParts {a : String} (ha : IsAnchor a) {cs : List String}
    (h : ∀ c ∈ cs, Plain c) : components (ofParts a cs) = cs := by
  have hcs := componentsOf_intercalate h
  change componentsOf (ofParts a cs).toList = cs
  by_cases hempty : a ++ String.intercalate "/" cs = ""
  · obtain ⟨rfl, hnil⟩ := String.append_eq_empty_iff.1 hempty
    rw [hnil] at hcs
    rw [ofParts, hempty, ← hcs]
    rfl
  · rw [toList_ofParts hempty]
    rcases ha with rfl | rfl | rfl
    · exact hcs
    · exact (componentsOf_slash _).trans hcs
    · exact ((componentsOf_slash _).trans (componentsOf_slash _)).trans hcs

/-- A path begins with what stands before the first character that is no slash. -/
theorem anchor_of_toList {path a : String} (ha : IsAnchor a) {c : Char} {cs : List Char}
    (h : path.toList = a.toList ++ c :: cs) (hc : c ≠ '/') : anchor path = a := by
  unfold anchor
  rw [h]
  rcases ha with rfl | rfl | rfl
  · rw [String.toList_empty]
    split <;> grind
  · rw [show "/".toList = ['/'] from rfl]
    split <;> grind
  · rw [show "//".toList = ['/', '/'] from rfl]
    split <;> grind

/-- **What a text made of parts begins with.** -/
theorem anchor_ofParts {a : String} (ha : IsAnchor a) {cs : List String}
    (h : ∀ c ∈ cs, Plain c) : anchor (ofParts a cs) = a := by
  cases cs with
  | nil => rcases ha with rfl | rfl | rfl <;> rfl
  | cons c cs =>
    obtain ⟨hslash, hempty, -⟩ := h c List.mem_cons_self
    obtain ⟨x, xs, hx⟩ : ∃ x xs, c.toList = x :: xs :=
      List.exists_cons_of_ne_nil fun hnil => hempty (String.toList_eq_nil_iff.1 hnil)
    obtain ⟨rest, hrest⟩ : ∃ rest, (String.intercalate "/" (c :: cs)).toList = x :: rest := by
      cases cs with
      | nil => exact ⟨xs, by rw [String.intercalate_singleton, hx]⟩
      | cons d cs =>
        rw [String.intercalate_cons_cons, String.toList_append, String.toList_append, hx]
        exact ⟨_, rfl⟩
    have hne : a ++ String.intercalate "/" (c :: cs) ≠ "" := by
      intro heq
      rw [(String.append_eq_empty_iff.1 heq).2] at hrest
      cases hrest
    have htext : (ofParts a (c :: cs)).toList = a.toList ++ x :: rest := by
      rw [toList_ofParts hne, hrest]
    refine anchor_of_toList ha htext fun heq => hslash ?_
    rw [hx, heq]
    exact List.mem_cons_self

/-- A text without a slash is no absolute path. -/
theorem not_isAbsolute {path : String} (h : '/' ∉ path.toList) : isAbsolute path = false := by
  have hanchor : anchor path = "" := by
    unfold anchor
    split <;> simp_all
  simp [isAbsolute, hanchor]

/-! ### Paths below others -/

section

variable {base path : String} (h : isAbsolute path = false)

include h

theorem join_eq : join base path = ofParts (anchor base) (components base ++ components path) := by
  rw [join, h]
  rfl

theorem components_join :
    components (join base path) = components base ++ components path := by
  rw [join_eq h]
  refine components_ofParts (isAnchor_anchor base) fun c hc => ?_
  exact (List.mem_append.1 hc).elim plain_of_mem_components plain_of_mem_components

theorem anchor_join : anchor (join base path) = anchor base := by
  rw [join_eq h]
  refine anchor_ofParts (isAnchor_anchor base) fun c hc => ?_
  exact (List.mem_append.1 hc).elim plain_of_mem_components plain_of_mem_components

end

theorem isUnder_iff {base path : String} :
    isUnder base path = true ↔ anchor base = anchor path ∧ components base <+: components path := by
  simp [isUnder]

theorem isUnder_refl (path : String) : isUnder path path = true :=
  isUnder_iff.2 ⟨rfl, List.prefix_rfl⟩

/-- **A relative path that starts at another one lies below it**, and so below what that one is
below. -/
theorem isUnder_join {top base path : String} (hbase : isUnder top base = true)
    (h : isAbsolute path = false) : isUnder top (join base path) = true := by
  obtain ⟨hanchor, hprefix⟩ := isUnder_iff.1 hbase
  rw [isUnder_iff, anchor_join h, components_join h]
  exact ⟨hanchor, hprefix.trans (List.prefix_append _ _)⟩

end TaintFlow.Files.Path
