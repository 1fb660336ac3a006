import TaintFlow.Proofs.Java.Chronicle
import TaintFlow.Types.Static

/-!
# Number literals

The grammar of number literals gives each of them a type: `NumberLiteral`.  The type of a literal is read
off its letters, in lower case and without underscores (`spelled`).

* `numberType_of_plain` and `numberType_of_radix` say what is read off letters without and with a radix,
* `literals_have_static_types` says that a literal has the type that the grammar gives it, unless it is
  a hexadecimal fraction: its radix makes it an `int`.
-/

namespace TaintFlow.Types

open TaintFlow.Text TaintFlow.Code TaintFlow.Java

/-! ### The grammar -/

/-- The digits of a radix. -/
def radixDigits : Nat → List Char
  | 2 => "01".toList
  | 8 => "01234567".toList
  | 16 => "0123456789abcdefABCDEF".toList
  | _ => "0123456789".toList

/-- One or more digits, with underscores between them. -/
def isDigits (radix : Nat) (cs : List Char) : Bool :=
  cs.head?.any (radixDigits radix).contains && cs.getLast?.any (radixDigits radix).contains &&
    cs.all ('_' :: radixDigits radix).contains

/-- A whole number without suffix. -/
inductive IsWhole : List Char → Prop where
  | zero : IsWhole ['0']
  | decimal {cs : List Char} : isDigits 10 cs = true → cs.head? ≠ some '0' → IsWhole cs
  | octal {cs : List Char} : isDigits 8 ('0' :: cs) = true → cs ≠ [] → IsWhole ('0' :: cs)
  | hexadecimal {x : Char} {cs : List Char} : x ∈ ['x', 'X'] → isDigits 16 cs = true →
      IsWhole ('0' :: x :: cs)
  | binary {b : Char} {cs : List Char} : b ∈ ['b', 'B'] → isDigits 2 cs = true →
      IsWhole ('0' :: b :: cs)

/-- An exponent, with one of the letters that begin one. -/
inductive IsExponent (letters : List Char) : List Char → Prop where
  | signed {e : Char} {sign cs : List Char} : e ∈ letters → sign ∈ [[], ['+'], ['-']] →
      isDigits 10 cs = true → IsExponent letters (e :: (sign ++ cs))

/-- A fraction without suffix, which is hexadecimal or decimal. -/
inductive IsFraction : (hexadecimal : Bool) → List Char → Prop where
  | point {whole part exponent : List Char} : isDigits 10 whole = true →
      part = [] ∨ isDigits 10 part = true → exponent = [] ∨ IsExponent ['e', 'E'] exponent →
      IsFraction false (whole ++ '.' :: (part ++ exponent))
  | pointFirst {part exponent : List Char} : isDigits 10 part = true →
      exponent = [] ∨ IsExponent ['e', 'E'] exponent → IsFraction false ('.' :: (part ++ exponent))
  | scaled {whole exponent : List Char} : isDigits 10 whole = true → IsExponent ['e', 'E'] exponent →
      IsFraction false (whole ++ exponent)
  | hexadecimal {x : Char} {whole dot exponent : List Char} : x ∈ ['x', 'X'] →
      isDigits 16 whole = true → dot ∈ [[], ['.']] → IsExponent ['p', 'P'] exponent →
      IsFraction true ('0' :: x :: (whole ++ (dot ++ exponent)))
  | hexadecimalPoint {x : Char} {whole part exponent : List Char} : x ∈ ['x', 'X'] →
      whole = [] ∨ isDigits 16 whole = true → isDigits 16 part = true →
      IsExponent ['p', 'P'] exponent →
      IsFraction true ('0' :: x :: (whole ++ '.' :: (part ++ exponent)))

/-- A number literal with its type; `hexadecimal` tells hexadecimal fractions from all others. -/
inductive NumberLiteral : (hexadecimal : Bool) → (type : String) → List Char → Prop where
  | int {cs : List Char} : IsWhole cs → NumberLiteral false "int" cs
  | long {cs : List Char} {l : Char} : IsWhole cs → l ∈ ['l', 'L'] →
      NumberLiteral false "long" (cs ++ [l])
  | double {hexadecimal : Bool} {cs : List Char} : IsFraction hexadecimal cs →
      NumberLiteral hexadecimal "double" cs
  | markedDouble {hexadecimal : Bool} {cs : List Char} {d : Char} :
      IsFraction hexadecimal cs ∨ hexadecimal = false ∧ isDigits 10 cs = true → d ∈ ['d', 'D'] →
      NumberLiteral hexadecimal "double" (cs ++ [d])
  | float {hexadecimal : Bool} {cs : List Char} {f : Char} :
      IsFraction hexadecimal cs ∨ hexadecimal = false ∧ isDigits 10 cs = true → f ∈ ['f', 'F'] →
      NumberLiteral hexadecimal "float" (cs ++ [f])

/-! ### The characters of a literal -/

/-- Characters of decimal literals before the suffix. -/
def decimalChars : List Char :=
  "0123456789_.+-eE".toList

/-- Characters of hexadecimal and binary literals after the radix, but for the suffix of a `long`. -/
def radixChars : List Char :=
  "0123456789abcdefABCDEF_.+-pP".toList

/-- Characters of number literals. -/
def numberChars : List Char :=
  "lLxX".toList ++ (decimalChars ++ radixChars)

theorem subset_of_isDigits {radix : Nat} {cs chars : List Char} (h : isDigits radix cs = true)
    (hchars : '_' :: radixDigits radix ⊆ chars) : cs ⊆ chars := fun c hc =>
  hchars (List.contains_iff_mem.1 (List.all_eq_true.1 (Bool.and_eq_true_iff.1 h).2 c hc))

theorem IsExponent.subset {letters chars : List Char} {cs : List Char} (h : IsExponent letters cs)
    (hletters : letters ⊆ chars) (hsigns : ['+', '-'] ⊆ chars)
    (hdigits : '_' :: radixDigits 10 ⊆ chars) : cs ⊆ chars := by
  cases h with
  | signed he hsign hcs =>
    have hsign : _ ⊆ ['+', '-'] := (by decide : ∀ sign ∈ [[], ['+'], ['-']], sign ⊆ ['+', '-']) _ hsign
    exact List.cons_subset.2 ⟨hletters he, List.append_subset.2
      ⟨List.Subset.trans hsign hsigns, subset_of_isDigits hcs hdigits⟩⟩

/-- A fraction has the characters of its radix, and a decimal one has a point or an exponent. -/
theorem IsFraction.chars {hexadecimal : Bool} {cs : List Char} (h : IsFraction hexadecimal cs) :
    if hexadecimal then ∃ x ∈ ['x', 'X'], ∃ rest, cs = '0' :: x :: rest ∧ rest ⊆ radixChars
    else cs ⊆ decimalChars ∧ ∃ c ∈ ['.', 'e', 'E'], c ∈ cs := by
  have hdecimal {ds : List Char} (hds : isDigits 10 ds = true) : ds ⊆ decimalChars :=
    subset_of_isDigits hds (by decide)
  have hradix {ds : List Char} (hds : isDigits 16 ds = true) : ds ⊆ radixChars :=
    subset_of_isDigits hds (by decide)
  have hexponent {e : List Char} (he : IsExponent ['e', 'E'] e) : e ⊆ decimalChars :=
    he.subset (by decide) (by decide) (by decide)
  have hpower {e : List Char} (he : IsExponent ['p', 'P'] e) : e ⊆ radixChars :=
    he.subset (by decide) (by decide) (by decide)
  have hoption {p : Prop} {ds chars : List Char} (hds : ds = [] ∨ p) (hp : p → ds ⊆ chars) :
      ds ⊆ chars := hds.elim (fun hds => hds ▸ List.nil_subset _) hp
  cases h with
  | point hwhole hpart he =>
    refine ⟨List.append_subset.2 ⟨hdecimal hwhole, List.cons_subset.2 ⟨by decide,
      List.append_subset.2 ⟨hoption hpart hdecimal, hoption he hexponent⟩⟩⟩, '.', by simp⟩
  | pointFirst hpart he =>
    exact ⟨List.cons_subset.2 ⟨by decide,
      List.append_subset.2 ⟨hdecimal hpart, hoption he hexponent⟩⟩, '.', by simp⟩
  | scaled hwhole he =>
    refine ⟨List.append_subset.2 ⟨hdecimal hwhole, hexponent he⟩, ?_⟩
    cases he with
    | @signed e _ _ hletter => exact ⟨e, List.mem_cons_of_mem _ hletter, by simp⟩
  | hexadecimal hx hwhole hdot he =>
    refine ⟨_, hx, _, rfl, List.append_subset.2 ⟨hradix hwhole, List.append_subset.2 ⟨?_, hpower he⟩⟩⟩
    exact (by decide : ∀ dot ∈ [[], ['.']], dot ⊆ radixChars) _ hdot
  | hexadecimalPoint hx hwhole hpart he =>
    exact ⟨_, hx, _, rfl, List.append_subset.2 ⟨hoption hwhole hradix, List.cons_subset.2 ⟨by decide,
      List.append_subset.2 ⟨hradix hpart, hpower he⟩⟩⟩⟩

/-- A whole number has only digits, after a radix if there is one. -/
theorem IsWhole.chars {cs : List Char} (h : IsWhole cs) : cs ⊆ '_' :: radixDigits 10 ∨
    ∃ m ∈ ['x', 'X', 'b', 'B'], ∃ rest, cs = '0' :: m :: rest ∧ rest ⊆ radixChars := by
  cases h with
  | zero => exact .inl (by decide)
  | decimal hcs => exact .inl (subset_of_isDigits hcs (by decide))
  | octal hcs _ => exact .inl (subset_of_isDigits hcs (by decide))
  | hexadecimal hx hcs =>
    exact .inr ⟨_, List.mem_append_left ['b', 'B'] hx, _, rfl, subset_of_isDigits hcs (by decide)⟩
  | binary hb hcs =>
    exact .inr ⟨_, List.mem_append_right ['x', 'X'] hb, _, rfl, subset_of_isDigits hcs (by decide)⟩

/-! ### Spelling -/

/-- The letters of a literal, in lower case and without underscores. -/
def spelled (cs : List Char) : List Char :=
  cs.flatMap fun c => (lowerChar c).filter (· ≠ '_')

theorem spelled_append (cs ds : List Char) : spelled (cs ++ ds) = spelled cs ++ spelled ds :=
  List.flatMap_append

theorem spelled_subset {cs ds : List Char} (h : cs ⊆ ds) : spelled cs ⊆ spelled ds :=
  fun _ hc => List.mem_flatMap.2 ((List.mem_flatMap.1 hc).imp fun _ hx => ⟨h hx.1, hx.2⟩)

theorem filter_lower {text : String} (h : text.toList ⊆ numberChars) :
    (Text.lower text).toList.filter (· ≠ '_') = spelled text.toList := by
  suffices hfrom : ∀ before, (lowerFrom before text.toList).filter (· ≠ '_') = spelled text.toList by
    rw [Text.lower, String.toList_ofList, hfrom]
  generalize text.toList = cs at h
  induction cs with
  | nil => exact fun _ => rfl
  | cons c cs ih =>
    obtain ⟨hc, hcs⟩ := List.cons_subset.1 h
    have hascii : numberChars.all (fun c => c.toNat != 0x3a3) = true := by decide
    have hsigma := List.all_eq_true.1 hascii c hc
    intro before
    rw [lowerFrom, if_neg (by simpa using hsigma), List.filter_append, ih hcs]
    rfl

section

variable {text : String} (htext : text.toList ⊆ numberChars)

include htext

/-- The type of a literal with a radix. -/
theorem numberType_of_radix {m : Char} {rest : List Char} (hm : m ∈ ['x', 'b'])
    (hspelled : spelled text.toList = '0' :: m :: rest) :
    numberType text = if (m :: rest).getLast? = some 'l' then "long" else "int" := by
  have hradix : (['0', 'x'].isPrefixOf ('0' :: m :: rest) || ['0', 'b'].isPrefixOf ('0' :: m :: rest))
      = true := by
    simp only [List.mem_cons, List.not_mem_nil, or_false] at hm
    rcases hm with rfl | rfl <;> rfl
  simp only [numberType, filter_lower htext, hspelled, hradix, if_true, beq_iff_eq,
    List.getLast?_cons_cons]

/-- The type of a literal without radix. -/
theorem numberType_of_plain {letters : List Char} (hspelled : spelled text.toList = letters)
    (hx : 'x' ∉ letters) (hb : 'b' ∉ letters) :
    numberType text = if letters.getLast? = some 'l' then "long"
      else if letters.getLast? = some 'f' then "float"
      else if letters.getLast? = some 'd' ∨ '.' ∈ letters ∨ 'e' ∈ letters then "double" else "int" := by
  have hradix {m : Char} (hm : m ∉ letters) : ['0', m].isPrefixOf letters = false := by
    refine Bool.eq_false_iff.2 fun hprefix => hm ?_
    exact (List.isPrefixOf_iff_prefix.1 hprefix).subset (by simp)
  simp only [numberType, filter_lower htext, hspelled, hradix hx, hradix hb, Bool.or_self, beq_iff_eq,
    Bool.false_eq_true, if_false, Bool.or_eq_true, List.contains_iff_mem, or_assoc]

end

/-- A literal with a radix is an `int` if it does not end with the suffix of a `long`. -/
theorem numberType_radix {text : String} {x : Char} {rest suffix : List Char}
    (hx : x ∈ ['x', 'X', 'b', 'B']) (hrest : rest ⊆ radixChars) (hsuffix : suffix ∈ [[], ['l'], ['L']])
    (htext : text.toList = '0' :: x :: (rest ++ suffix)) :
    numberType text = if suffix = [] then "int" else "long" := by
  have hchars : text.toList ⊆ numberChars := by
    have hx : x ∈ numberChars := (by decide : ['x', 'X', 'b', 'B'] ⊆ numberChars) hx
    have hsuffix := (by decide : ∀ suffix ∈ [[], ['l'], ['L']], suffix ⊆ numberChars) _ hsuffix
    rw [htext]
    refine List.cons_subset.2 ⟨by decide, List.cons_subset.2 ⟨hx, List.append_subset.2 ⟨?_, hsuffix⟩⟩⟩
    exact List.Subset.trans hrest (by decide)
  obtain ⟨m, hm, hspelled⟩ : ∃ m ∈ ['x', 'b'], spelled ['0', x] = ['0', m] := by
    simp only [List.mem_cons, List.not_mem_nil, or_false] at hx
    rcases hx with rfl | rfl | rfl | rfl
    · exact ⟨'x', by decide, by decide⟩
    · exact ⟨'x', by decide, by decide⟩
    · exact ⟨'b', by decide, by decide⟩
    · exact ⟨'b', by decide, by decide⟩
  have hletters : spelled text.toList = '0' :: m :: (spelled rest ++ spelled suffix) := by
    rw [htext, ← spelled_append]
    exact (spelled_append ['0', x] (rest ++ suffix)).trans (by rw [hspelled]; rfl)
  have hnot : 'l' ∉ m :: spelled rest := by
    rw [List.mem_cons, not_or]
    refine ⟨?_, fun hmem => (by decide : 'l' ∉ spelled radixChars) (spelled_subset hrest hmem)⟩
    rintro rfl
    exact absurd hm (by decide)
  rw [numberType_of_radix hchars hm hletters, ← List.cons_append]
  simp only [List.mem_cons, List.not_mem_nil, or_false] at hsuffix
  rcases hsuffix with rfl | rfl | rfl
  · have hnil : m :: spelled rest ++ spelled [] = m :: spelled rest := List.append_nil _
    rw [hnil, if_neg fun hlast => hnot (List.mem_of_getLast? hlast), if_pos rfl]
  · rw [show spelled ['l'] = ['l'] by decide, List.getLast?_concat]
    rfl
  · rw [show spelled ['L'] = ['l'] by decide, List.getLast?_concat]
    rfl

/-- A decimal literal without suffix is a `double` if it has a point or an exponent. -/
theorem numberType_unmarked {text : String} (htext : text.toList ⊆ decimalChars) :
    numberType text =
      if '.' ∈ spelled text.toList ∨ 'e' ∈ spelled text.toList then "double" else "int" := by
  have hletters := spelled_subset htext
  have hlast {c : Char} (hc : c ∉ spelled decimalChars) : (spelled text.toList).getLast? ≠ some c :=
    fun hlast => hc (hletters (List.mem_of_getLast? hlast))
  rw [numberType_of_plain (List.Subset.trans htext (by decide)) rfl
    (fun hx => absurd (hletters hx) (by decide)) (fun hb => absurd (hletters hb) (by decide)),
    if_neg (hlast (by decide)), if_neg (hlast (by decide))]
  simp only [hlast (by decide : 'd' ∉ spelled decimalChars), false_or]

/-- A decimal literal with a suffix has the type of the suffix. -/
theorem numberType_marked {text : String} {cs : List Char} {s m : Char}
    (htext : text.toList = cs ++ [s]) (hcs : cs ⊆ decimalChars) (hs : s ∈ numberChars)
    (hspelled : spelled [s] = [m]) (hm : m ∈ ['l', 'f', 'd']) :
    numberType text = if m = 'l' then "long" else if m = 'f' then "float" else "double" := by
  have hchars : text.toList ⊆ numberChars := by
    rw [htext]
    exact List.append_subset.2
      ⟨List.Subset.trans hcs (by decide), List.cons_subset.2 ⟨hs, List.nil_subset _⟩⟩
  have hletters : spelled text.toList = spelled cs ++ [m] := by
    rw [htext, spelled_append, hspelled]
  have hnot {c : Char} (hc : c ∉ spelled decimalChars ++ ['l', 'f', 'd']) : c ∉ spelled cs ++ [m] := by
    refine fun hmem => hc (List.mem_append.2 ((List.mem_append.1 hmem).imp (spelled_subset hcs ·) ?_))
    exact fun hmem => List.mem_singleton.1 hmem ▸ hm
  rw [numberType_of_plain hchars hletters (hnot (by decide)) (hnot (by decide)), List.getLast?_concat]
  simp only [List.mem_cons, List.not_mem_nil, or_false] at hm
  rcases hm with rfl | rfl | rfl <;> simp

/-! ### The types of literals -/

/-- Types of the nodes that are number literals. -/
def numberNodes : List String :=
  ["decimal_integer_literal", "octal_integer_literal", "hex_integer_literal", "binary_integer_literal",
   "decimal_floating_point_literal", "hex_floating_point_literal"]

theorem numberType_of_literal {hexadecimal : Bool} {type : String} {text : String}
    (h : NumberLiteral hexadecimal type text.toList) :
    numberType text = if hexadecimal then "int" else type := by
  generalize htext : text.toList = cs at h
  have hmarked {cs : List Char} {hexadecimal : Bool} {s m : Char} {type : String}
      (hcs : IsFraction hexadecimal cs ∨ hexadecimal = false ∧ isDigits 10 cs = true)
      (htext : text.toList = cs ++ [s]) (hs : s ∈ radixChars) (hspelled : spelled [s] = [m])
      (hm : m ∈ ['f', 'd']) (htype : type = if m = 'f' then "float" else "double") :
      numberType text = if hexadecimal then "int" else type := by
    cases hexadecimal with
    | true =>
      obtain ⟨x, hx, rest, rfl, hrest⟩ := (hcs.resolve_right (by simp)).chars
      have hrest : rest ++ [s] ⊆ radixChars :=
        List.append_subset.2 ⟨hrest, List.cons_subset.2 ⟨hs, List.nil_subset _⟩⟩
      exact numberType_radix (List.mem_append_left ['b', 'B'] hx) hrest List.mem_cons_self
        (by rw [htext, List.append_nil]; rfl)
    | false =>
      have hcs : cs ⊆ decimalChars := by
        rcases hcs with hcs | ⟨-, hcs⟩
        · exact hcs.chars.1
        · exact subset_of_isDigits hcs (by decide)
      rw [numberType_marked htext hcs ((by decide : radixChars ⊆ numberChars) hs) hspelled
        (List.mem_cons_of_mem _ hm), if_neg, htype]
      · rfl
      · rintro rfl
        exact absurd hm (by decide)
  cases h with
  | int hwhole =>
    rcases hwhole.chars with hdigits | ⟨x, hx, rest, rfl, hrest⟩
    · have hletters := spelled_subset hdigits
      rw [← htext] at hdigits hletters
      rw [numberType_unmarked (List.Subset.trans hdigits (by decide)), if_neg]
      · rfl
      · rintro (hmem | hmem)
        · exact absurd (hletters hmem) (by decide)
        · exact absurd (hletters hmem) (by decide)
    · exact numberType_radix hx hrest List.mem_cons_self (by rw [htext, List.append_nil])
  | @long cs l hwhole hl =>
    rcases hwhole.chars with hdigits | ⟨x, hx, rest, rfl, hrest⟩
    · have hspelled := (by decide : ['l', 'L'].all (fun l => spelled [l] == ['l']) = true)
      refine (numberType_marked htext (List.Subset.trans hdigits (by decide)) ?_
        (eq_of_beq (List.all_eq_true.1 hspelled l hl)) (by decide)).trans rfl
      exact (by decide : ['l', 'L'] ⊆ numberChars) hl
    · have hsuffix : [l] ∈ [[], ['l'], ['L']] := by
        simpa using hl
      exact numberType_radix hx hrest hsuffix htext
  | double hfraction =>
    cases hexadecimal with
    | true =>
      obtain ⟨x, hx, rest, rfl, hrest⟩ := hfraction.chars
      exact numberType_radix (List.mem_append_left ['b', 'B'] hx) hrest List.mem_cons_self
        (by rw [htext, List.append_nil])
    | false =>
      obtain ⟨hchars, c, hc, hmem⟩ := hfraction.chars
      rw [← htext] at hchars hmem
      rw [numberType_unmarked hchars, if_pos]
      · rfl
      · have hspelled := spelled_subset (List.cons_subset.2 ⟨hmem, List.nil_subset _⟩)
        simp only [List.mem_cons, List.not_mem_nil, or_false] at hc
        rcases hc with rfl | rfl | rfl
        · exact .inl (hspelled (by decide))
        · exact .inr (hspelled (by decide))
        · exact .inr (hspelled (by decide))
  | @markedDouble _ cs d hcs hd =>
    have hspelled := (by decide : ['d', 'D'].all (fun d => spelled [d] == ['d']) = true)
    exact hmarked hcs htext ((by decide : ['d', 'D'] ⊆ radixChars) hd)
      (eq_of_beq (List.all_eq_true.1 hspelled d hd)) (by decide) rfl
  | @float _ cs f hcs hf =>
    have hspelled := (by decide : ['f', 'F'].all (fun f => spelled [f] == ['f']) = true)
    exact hmarked hcs htext ((by decide : ['f', 'F'] ⊆ radixChars) hf)
      (eq_of_beq (List.all_eq_true.1 hspelled f hf)) (by decide) rfl

/-- **Literals have the type of their grammar**, but for hexadecimal fractions, which are taken for whole
numbers: a node of a number literal is read without further ado, and this is its static type. -/
theorem literals_have_static_types (S : Source) (t : Tree) (s : State) (htype : t.type ∈ numberNodes)
    {hexadecimal : Bool} {type : String} (h : NumberLiteral hexadecimal type (S.text t).toList) :
    ∃ e, (reading S t).asExpr.run s = .ok (e, s) ∧
      staticType e = some (if hexadecimal then "int" else type) := by
  have hform := (by decide : ∀ type ∈ numberNodes, ExprForm.ofType type = .literal .numberLiteral) _ htype
  refine ⟨.literal (S.origin t) .numberLiteral, ?_, ?_⟩
  · rw [reading_asExpr]
    unfold readExpr
    rw [hform]
    rfl
  · exact congrArg some (numberType_of_literal h)

/-- A literal over a whole source. -/
def scaledFloat : Tree :=
  ⟨"decimal_floating_point_literal", 0, 7, true, none, []⟩

theorem scaledFloat_is_float :
    ∃ e, (reading (.ofText "A.java" "1_0e-3F") scaledFloat).asExpr.run {} = .ok (e, {}) ∧
      staticType e = some "float" := by
  have htext : (Source.text (.ofText "A.java" "1_0e-3F") scaledFloat).toList =
      ['1', '_', '0'] ++ 'e' :: (['-'] ++ ['3']) ++ ['F'] := by decide +kernel
  have hexponent : IsExponent ['e', 'E'] ('e' :: (['-'] ++ ['3'])) :=
    .signed (by decide) (by decide) (by decide)
  have hwhole : isDigits 10 ['1', '_', '0'] = true := by decide
  have hliteral := NumberLiteral.float (.inl (.scaled hwhole hexponent)) (by decide : 'F' ∈ ['f', 'F'])
  exact literals_have_static_types _ scaledFloat {} (by decide) (htext ▸ hliteral)

/-- The exponent of a hexadecimal fraction does not count. -/
theorem hexadecimal_fraction_is_int :
    NumberLiteral true "double" "0x1.8p1".toList ∧ numberType "0x1.8p1" = "int" := by
  have hexponent : IsExponent ['p', 'P'] ('p' :: ([] ++ ['1'])) :=
    .signed (by decide) (by decide) (by decide)
  exact ⟨.double (.hexadecimalPoint (by decide) (.inr (by decide : isDigits 16 ['1'] = true))
    (by decide : isDigits 16 ['8'] = true) hexponent), by decide⟩

end TaintFlow.Types
