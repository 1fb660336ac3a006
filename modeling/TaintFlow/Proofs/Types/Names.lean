import Mathlib.Data.List.Chain
import Mathlib.Data.List.TakeWhile
import TaintFlow.Java.Reading.Decl

/-!
# Names of types

The simple name of a type has no dot and nothing that erasure takes away (`isTypeName`).  References
to types are such names with dots between them (`IsReference`).  They are not changed by erasure, and
a unit that knows nothing of their first component leaves them as they are
(`IsReference.resolveType`).

A name that is qualified by a package is the same as the name without the package only if one of them
is simple (`same_qualify`).
-/

namespace TaintFlow.Types

open TaintFlow.Text

/-- A character that may stand in the simple name of a type. -/
def isNameChar (c : Char) : Bool :=
  c ≠ '.' && c ≠ '@' && c ≠ '<' && c ≠ '[' && !isBlank c

/-- Whether a text is the simple name of a type: it is no keyword and has only characters of a
name. -/
def isTypeName (name : String) : Bool :=
  name ≠ "" && name.toList.all isNameChar && !("var" :: primitiveTypes).contains name

/-- Names of types with dots between them. -/
inductive IsReference : String → Prop
  | simple {name : String} (h : isTypeName name = true) : IsReference name
  | nested {around name : String} (haround : IsReference around) (h : isTypeName name = true) :
    IsReference (around ++ "." ++ name)

/-! ### Erasure -/

theorem dropAnnotations_eq_self {cs : List Char} (h : '@' ∉ cs) : dropAnnotations cs = cs := by
  induction cs with
  | nil => rw [dropAnnotations]
  | cons c cs ih =>
    rw [List.mem_cons, not_or] at h
    have hc : (c == '@') = false := beq_false_of_ne (Ne.symm h.1)
    rw [dropAnnotations, hc, Bool.false_and, if_neg Bool.false_ne_true, ih h.2]

theorem dropInnermost_eq_self {cs : List Char} (h : '<' ∉ cs) : dropInnermost cs = cs := by
  induction cs with
  | nil => rw [dropInnermost]
  | cons c cs ih =>
    rw [List.mem_cons, not_or] at h
    have hc : (c == '<') = false := beq_false_of_ne (Ne.symm h.1)
    rw [dropInnermost, hc, if_neg Bool.false_ne_true, ih h.2]

theorem dropArguments_eq_self {cs : List Char} (h : '<' ∉ cs) : dropArguments cs = cs := by
  rw [dropArguments, dropInnermost_eq_self h, if_neg (Nat.lt_irrefl _)]

/-- Dots that do not stand next to each other stay. -/
theorem dotsToBrackets_eq_self {cs : List Char}
    (h : cs.IsChain fun a b => ¬(a = '.' ∧ b = '.')) : dotsToBrackets cs = cs := by
  induction cs with
  | nil => rfl
  | cons c cs ih =>
    rw [dotsToBrackets, ih h.tail]
    rintro rest rfl ⟨⟩
    exact (List.isChain_cons_cons.1 h).1 ⟨rfl, rfl⟩

/-- What erasure leaves alone. -/
theorem eraseChars_eq_self {cs : List Char} (hmark : '@' ∉ cs) (hbracket : '<' ∉ cs)
    (hdots : cs.IsChain fun a b => ¬(a = '.' ∧ b = '.')) (hblank : ∀ c ∈ cs, isBlank c = false) :
    eraseChars cs = cs := by
  rw [eraseChars, dropAnnotations_eq_self hmark, dropArguments_eq_self hbracket,
    dotsToBrackets_eq_self hdots, List.filter_eq_self]
  intro c hc
  rw [hblank c hc, Bool.not_false]

/-! ### References -/

theorem isNameChar_of_isTypeName {name : String} (h : isTypeName name = true) :
    ∀ c ∈ name.toList, isNameChar c = true := by
  simp only [isTypeName, Bool.and_eq_true, List.all_eq_true] at h
  exact h.1.2

theorem toList_ne_nil_of_isTypeName {name : String} (h : isTypeName name = true) :
    name.toList ≠ [] := by
  simp only [isTypeName, Bool.and_eq_true, decide_eq_true_eq] at h
  simpa using h.1.1

theorem ne_dot_of_isNameChar {c : Char} (h : isNameChar c = true) : c ≠ '.' := by
  rintro rfl
  exact absurd h (by decide)

/-- Characters of names with single dots between them. -/
structure Dotted (cs : List Char) : Prop where
  chars : ∀ c ∈ cs, c = '.' ∨ isNameChar c = true
  dots : cs.IsChain fun a b => ¬(a = '.' ∧ b = '.')
  last : ∀ c ∈ cs.getLast?, c ≠ '.'

theorem dotted_of_isTypeName {name : String} (h : isTypeName name = true) : Dotted name.toList := by
  have hchars := isNameChar_of_isTypeName h
  constructor
  case chars => exact fun c hc => .inr (hchars c hc)
  case dots =>
    refine List.Pairwise.isChain (List.pairwise_of_forall_mem_list fun a ha b _ hab => ?_)
    exact ne_dot_of_isNameChar (hchars a ha) hab.1
  case last => exact fun c hc => ne_dot_of_isNameChar (hchars c (List.mem_of_getLast? hc))

namespace IsReference

theorem toList_nested (around name : String) :
    (around ++ "." ++ name).toList = around.toList ++ '.' :: name.toList := by
  simp

theorem dotted {r : String} (h : IsReference r) : Dotted r.toList := by
  induction h with
  | simple h => exact dotted_of_isTypeName h
  | @nested around name _ h ih =>
    have hname := dotted_of_isTypeName h
    have hne := toList_ne_nil_of_isTypeName h
    rw [toList_nested]
    constructor
    case chars =>
      intro c hc
      rcases List.mem_append.1 hc with hc | hc
      · exact ih.chars c hc
      · rcases List.mem_cons.1 hc with rfl | hc
        · exact .inl rfl
        · exact hname.chars c hc
    case dots =>
      refine List.isChain_append.2 ⟨ih.dots, List.isChain_cons.2 ⟨?_, hname.dots⟩, ?_⟩
      · rintro c hc ⟨-, rfl⟩
        have hmem := List.mem_of_head? hc
        exact ne_dot_of_isNameChar (isNameChar_of_isTypeName h _ hmem) rfl
      · rintro c hc _ - ⟨rfl, -⟩
        exact ih.last _ hc rfl
    case last =>
      intro c hc
      rw [List.getLast?_append, List.getLast?_cons, Option.some_or,
        List.getLast?_eq_some_getLast hne, Option.getD_some] at hc
      refine hname.last c ?_
      rwa [List.getLast?_eq_some_getLast hne]

variable {r : String} (h : IsReference r)

include h

/-- Erasure leaves a reference alone. -/
theorem eraseChars_toList : eraseChars r.toList = r.toList := by
  have hnone : ∀ c, c ≠ '.' → isNameChar c = false → c ∉ r.toList := by
    intro c hdot hname hc
    rcases h.dotted.chars c hc with rfl | hc
    · exact hdot rfl
    · rw [hname] at hc
      cases hc
  refine eraseChars_eq_self (hnone _ (by decide) (by decide)) (hnone _ (by decide) (by decide))
    h.dotted.dots fun c hc => ?_
  rcases h.dotted.chars c hc with rfl | hc
  · decide
  · simp only [isNameChar, Bool.and_eq_true, Bool.not_eq_true'] at hc
    exact hc.2

theorem erase_eq_self : erase r = r := by
  rw [erase, h.eraseChars_toList, String.ofList_toList]

theorem not_mem_bracket : '[' ∉ r.toList := by
  intro hc
  rcases h.dotted.chars _ hc with hc | hc
  · exact absurd hc (by decide)
  · exact absurd hc (by decide)

theorem not_reserved : r ∉ "var" :: primitiveTypes := by
  cases h with
  | simple h =>
    simp only [isTypeName, Bool.and_eq_true, Bool.not_eq_true'] at h
    exact fun hmem => Bool.false_ne_true (h.2.symm.trans (List.contains_iff_mem.2 hmem))
  | @nested around name _ _ =>
    -- no keyword has a dot
    intro hmem
    have hdot : ∀ word ∈ "var" :: primitiveTypes, '.' ∉ word.toList := by decide
    refine hdot _ hmem ?_
    rw [toList_nested]
    exact List.mem_append_right _ List.mem_cons_self

theorem ne_empty : r ≠ "" := by
  cases h with
  | simple h =>
    rintro rfl
    exact toList_ne_nil_of_isTypeName h rfl
  | @nested around name _ _ =>
    intro hempty
    have htoList := congrArg String.toList hempty
    rw [toList_nested] at htoList
    simp at htoList

end IsReference

/-- A name up to its first dot. -/
def firstComponent (r : String) : String :=
  String.ofList (Java.State.splitHead r.toList).1

/-- **A reference of which a unit does not know the first component** is resolved to itself, whatever
erasure takes away from how it is written. -/
theorem IsReference.resolveType {r : String} (h : IsReference r) {s : Java.State}
    (hunknown : ∀ single, s.qualifiedHead? (firstComponent r) single = none) {text : String}
    (htext : erase text = r) : s.resolveType text = some r := by
  have herased : eraseChars text.toList = r.toList := by
    rw [← htext, erase, String.toList_ofList]
  have hempty : (text == "") = false := by
    refine beq_false_of_ne ?_
    rintro rfl
    refine h.ne_empty (htext.symm.trans ?_)
    have hnil : eraseChars [] = [] :=
      eraseChars_eq_self List.not_mem_nil List.not_mem_nil .nil (List.forall_mem_nil _)
    rw [erase, String.toList_empty, hnil]
  have hbase : r.toList.takeWhile (· ≠ '[') = r.toList := by
    refine List.takeWhile_eq_self_iff.2 fun c hc => decide_eq_true ?_
    rintro rfl
    exact h.not_mem_bracket hc
  have hne : r.toList.isEmpty = false := by simpa using h.ne_empty
  have hreserved := h.not_reserved
  rw [List.mem_cons, not_or] at hreserved
  have hprimitive : primitiveTypes.contains (String.ofList r.toList) = false := by
    rw [String.ofList_toList, ← Bool.not_eq_true, List.contains_iff_mem]
    exact hreserved.2
  have hvar : (r.toList == ['v', 'a', 'r']) = false := by
    refine beq_false_of_ne fun heq => hreserved.1 ?_
    rw [← String.ofList_toList (s := r), heq]
  simp only [Java.State.resolveType, hempty, herased, hbase, hne, hprimitive, hvar, Bool.or_false,
    Bool.false_eq_true, if_false]
  rw [← firstComponent, hunknown, String.ofList_toList]

/-! ### Qualified names -/

theorem not_mem_of_not_isQualified {r : String} (h : isQualified r = false) : '.' ∉ r.toList := by
  rw [isQualified, ← Bool.not_eq_true, List.contains_iff_mem] at h
  exact h

theorem afterLastDot_eq_self {cs : List Char} (h : '.' ∉ cs) : afterLastDot cs = cs := by
  have htake : cs.reverse.takeWhile (· ≠ '.') = cs.reverse := by
    refine List.takeWhile_eq_self_iff.2 fun c hc => decide_eq_true ?_
    rintro rfl
    exact h (List.mem_reverse.1 hc)
  rw [afterLastDot, htake, List.reverse_reverse]

theorem afterLastDot_append {cs : List Char} (h : '.' ∉ cs) (before : List Char) :
    afterLastDot (before ++ '.' :: cs) = cs := by
  have hchars : ∀ c ∈ cs.reverse, decide (c ≠ '.') = true := by
    refine fun c hc => decide_eq_true ?_
    rintro rfl
    exact h (List.mem_reverse.1 hc)
  rw [afterLastDot, List.reverse_append, List.reverse_cons, List.append_assoc,
    List.takeWhile_append_of_pos hchars]
  simp

theorem toList_qualify {package : String} (h : package ≠ "") (r : String) :
    (Java.qualify package r).toList = package.toList ++ '.' :: r.toList := by
  rw [Java.qualify, if_neg (by simpa using h)]
  simp

/-- **A name that is qualified by a package** is the same as the name alone exactly if there is no
package or the name is simple. -/
theorem same_qualify (package r : String) :
    same (Java.qualify package r) r = (package == "" || !isQualified r) := by
  by_cases hpackage : package = ""
  · subst hpackage
    simp [same, Java.qualify]
  · have htoList := toList_qualify hpackage r
    have hne : (Java.qualify package r == r) = false := by
      refine beq_false_of_ne fun heq => ?_
      have hlength := congrArg (fun s : String => s.toList.length) heq
      simp only [htoList, List.length_append, List.length_cons] at hlength
      omega
    have hqualified : isQualified (Java.qualify package r) = true := by
      rw [isQualified, htoList, List.contains_iff_mem]
      exact List.mem_append_right _ List.mem_cons_self
    rw [same, hne, hqualified, Bool.false_or, Bool.true_and, beq_false_of_ne hpackage, Bool.false_or]
    cases hr : isQualified r with
    | true => rfl
    | false =>
      have hdot := not_mem_of_not_isQualified hr
      rw [simpleName, simpleName, htoList, afterLastDot_append hdot, afterLastDot_eq_self hdot]
      simp

end TaintFlow.Types
