import TaintFlow.Text.Blank
import TaintFlow.Text.Case
import Mathlib.Data.Nat.Bitwise

/-!
# Lower case and blanks around a text

Lower case leads to characters that it leaves as they are (`settled_of_mem_lowerChar`), also where
it makes several of one and where it depends on the word around.  For the table of shifts this means
that no shift leads to a code point that another one covers.  The code points are compared as sets of
bits (`bits`), all at once.

* `lower_lower` : a text in lower case stays as it is.
* `trim_eq_self` : a text without blanks at its ends stays as it is when it is trimmed.
-/

namespace TaintFlow.Text

/-! ### Code points of a table -/

/-- The number with these bits. -/
def bits (codes : List Nat) : Nat :=
  codes.foldr (fun code n => 2 ^ code ||| n) 0

theorem testBit_bits (codes : List Nat) (code : Nat) :
    (bits codes).testBit code = decide (code ∈ codes) := by
  induction codes with
  | nil => simp [bits]
  | cons c codes ih =>
    have hcons : bits (c :: codes) = 2 ^ c ||| bits codes := rfl
    rw [hcons, Nat.testBit_or, ih, Nat.testBit_two_pow]
    simp [eq_comm]

/-- The code points that a shift covers. -/
def Shift.codes (s : Shift) : List Nat :=
  (List.range ((s.last - s.first) / s.stride + 1)).map fun k => s.first + k * s.stride

/-- The code points that a shift leads to. -/
def Shift.targets (s : Shift) : List Nat :=
  s.codes.map fun code => (Int.ofNat code + s.offset).toNat

theorem Shift.mem_codes {s : Shift} {code : Nat} (hfirst : s.first ≤ code) (hlast : code ≤ s.last)
    (hstride : (code - s.first) % s.stride = 0) : code ∈ s.codes := by
  refine List.mem_map.2 ⟨(code - s.first) / s.stride, List.mem_range.2 (Nat.lt_succ_of_le ?_), ?_⟩
  · exact Nat.div_le_div_right (Nat.sub_le_sub_right hlast _)
  · rw [Nat.div_mul_cancel (Nat.dvd_of_mod_eq_zero hstride)]
    omega

/-- The capitals of ASCII with all before them, the capitals with rules of their own, and the blanks
beyond. -/
def unfitCodes : List Nat :=
  List.range 0x61 ++ (List.range' 0x2000 11 ++
    [0x130, 0x3a3, 0x85, 0xa0, 0x1680, 0x2028, 0x2029, 0x202f, 0x205f, 0x3000])

theorem disjoint_targets :
    bits (lowerShifts.flatMap Shift.codes ++ unfitCodes) &&&
      bits (lowerShifts.flatMap Shift.targets) = 0 := by
  decide +kernel

/-- What a shift leads to is neither covered by a shift nor unfit. -/
theorem notMem_of_mem_targets {s : Shift} (hs : s ∈ lowerShifts) {code : Nat}
    (hcode : code ∈ s.targets) :
    (∀ t ∈ lowerShifts, code ∉ t.codes) ∧ code ∉ unfitCodes := by
  have hbit : (bits (lowerShifts.flatMap Shift.targets)).testBit code = true := by
    rw [testBit_bits]
    exact decide_eq_true (List.mem_flatMap.2 ⟨s, hs, hcode⟩)
  have hzero := congrArg (Nat.testBit · code) disjoint_targets
  simp only [Nat.testBit_and, hbit, Bool.and_true, Nat.zero_testBit, testBit_bits,
    decide_eq_false_iff_not, List.mem_append, List.mem_flatMap, not_or, not_exists, not_and] at hzero
  exact hzero

/-! ### Settled characters -/

/-- Lower case leaves the character as it is, wherever it stands. -/
def Settled (c : Char) : Prop :=
  lowerChar c = [c] ∧ c.toNat ≠ 0x3a3

instance (c : Char) : Decidable (Settled c) :=
  inferInstanceAs (Decidable (_ ∧ _))

/-- A code point stays as it is, or a shift that covers it leads on from it. -/
theorem shifted_eq (table : List Shift) (code : Nat) :
    shifted table code = code ∨ ∃ s ∈ table, code ∈ s.codes ∧ shifted table code ∈ s.targets := by
  unfold shifted
  dsimp only
  split
  · rename_i s hfind
    have hcovers := List.find?_some hfind
    simp only [Bool.and_eq_true, decide_eq_true_eq, beq_iff_eq] at hcovers
    have hcode := Shift.mem_codes hcovers.1.1 hcovers.1.2 hcovers.2
    exact .inr ⟨s, List.mem_of_find?_eq_some hfind, hcode, List.mem_map_of_mem hcode⟩
  · exact .inl rfl

/-- A letter that a shift leads to is settled, and no blank. -/
theorem settled_of_mem_targets {s : Shift} (hs : s ∈ lowerShifts) {code : Nat}
    (hcode : code ∈ s.targets) : Settled (Char.ofNat code) ∧ isBlank (Char.ofNat code) = false := by
  obtain ⟨hcovered, hunfit⟩ := notMem_of_mem_targets hs hcode
  have hself : shifted lowerShifts code = code :=
    (shifted_eq lowerShifts code).resolve_right fun ⟨t, ht, hmem, _⟩ => hcovered t ht hmem
  by_cases hvalid : code.isValidChar
  · have hcode : (Char.ofNat code).toNat = code := by
      rw [Char.ofNat, dif_pos hvalid]
      rfl
    simp only [unfitCodes, List.mem_append, List.mem_range, List.mem_range'_1, List.mem_cons, not_or,
      List.not_mem_nil, not_false_eq_true, and_true] at hunfit
    refine ⟨⟨?_, ?_⟩, ?_⟩
    · unfold lowerChar
      rw [hcode, hself]
      split
      · rw [if_neg]
        simp only [Bool.and_eq_true, decide_eq_true_eq]
        omega
      · rw [if_neg (by simp only [beq_iff_eq]; omega)]
    · rw [hcode]
      omega
    · simp only [isBlank, hcode, Bool.or_eq_false_iff, Bool.and_eq_false_iff, beq_eq_false_iff_ne,
        decide_eq_false_iff_not]
      omega
  · have hnull : Char.ofNat code = Char.ofNat 0 := by
      rw [Char.ofNat, dif_neg hvalid]
      rfl
    rw [hnull]
    decide

/-- The code points of ASCII, and the one capital with two small letters. -/
theorem settled_ascii : ∀ code ∈ 0x130 :: List.range 0x80, (lowerChar (Char.ofNat code)).all
    fun d => decide (Settled d ∧ (isBlank (Char.ofNat code) = false → isBlank d = false)) := by
  decide +kernel

/-- **The small form of a character** is settled, and blank only if the character is. -/
theorem settled_of_mem_lowerChar {c d : Char} (hc : c.toNat ≠ 0x3a3) (hd : d ∈ lowerChar c) :
    Settled d ∧ (isBlank c = false → isBlank d = false) := by
  by_cases hcode : c.toNat ∈ 0x130 :: List.range 0x80
  · have h := settled_ascii c.toNat hcode
    rw [Char.ofNat_toNat] at h
    exact of_decide_eq_true (List.all_eq_true.1 h d hd)
  · simp only [List.mem_cons, List.mem_range, not_or] at hcode
    have hlower : lowerChar c = [Char.ofNat (shifted lowerShifts c.toNat)] := by
      rw [lowerChar, if_neg hcode.2, if_neg (by simpa using hcode.1)]
    rcases shifted_eq lowerShifts c.toNat with heq | ⟨s, hs, -, htarget⟩
    · rw [heq, Char.ofNat_toNat] at hlower
      rw [hlower, List.mem_singleton] at hd
      subst hd
      exact ⟨⟨hlower, hc⟩, id⟩
    · rw [hlower, List.mem_singleton] at hd
      exact hd ▸ (settled_of_mem_targets hs htarget).imp_right fun h _ => h

theorem lowerChar_ne_nil (c : Char) : lowerChar c ≠ [] := by
  unfold lowerChar
  split
  · exact List.cons_ne_nil _ _
  · split <;> exact List.cons_ne_nil _ _

/-! ### Lower case of texts -/

/-- The small form of a character between others. -/
def lowerAt (before : List Char) (c : Char) (rest : List Char) : List Char :=
  if c.toNat == 0x3a3 then
    [Char.ofNat (if casedNext before && !casedNext rest then 0x3c2 else 0x3c3)]
  else lowerChar c

theorem lowerFrom_cons (before : List Char) (c : Char) (rest : List Char) :
    lowerFrom before (c :: rest) = lowerAt before c rest ++ lowerFrom (c :: before) rest := by
  rw [lowerFrom, lowerAt]

theorem lowerAt_ne_nil (before : List Char) (c : Char) (rest : List Char) :
    lowerAt before c rest ≠ [] := by
  unfold lowerAt
  split
  · exact List.cons_ne_nil _ _
  · exact lowerChar_ne_nil c

theorem settled_of_mem_lowerAt {before rest : List Char} {c d : Char}
    (hd : d ∈ lowerAt before c rest) : Settled d ∧ (isBlank c = false → isBlank d = false) := by
  unfold lowerAt at hd
  split at hd
  · rw [List.mem_singleton] at hd
    have hsmall : ∀ code ∈ [0x3c2, 0x3c3], Settled (Char.ofNat code) ∧
        isBlank (Char.ofNat code) = false := by decide +kernel
    exact hd ▸ (hsmall _ (by split <;> simp)).imp_right fun h _ => h
  · rename_i hc
    exact settled_of_mem_lowerChar (by simpa using hc) hd

theorem settled_of_mem_lowerFrom {before cs : List Char} {d : Char} (hd : d ∈ lowerFrom before cs) :
    Settled d := by
  induction cs generalizing before with
  | nil => cases hd
  | cons c cs ih =>
    rw [lowerFrom_cons] at hd
    rcases List.mem_append.1 hd with hd | hd
    · exact (settled_of_mem_lowerAt hd).1
    · exact ih hd

theorem lowerFrom_of_settled {before cs : List Char} (h : ∀ c ∈ cs, Settled c) :
    lowerFrom before cs = cs := by
  induction cs generalizing before with
  | nil => rfl
  | cons c cs ih =>
    obtain ⟨⟨hlower, hsigma⟩, hcs⟩ := List.forall_mem_cons.1 h
    rw [lowerFrom_cons, ih hcs, lowerAt, if_neg (by simpa using hsigma), hlower]
    rfl

/-- Lower case leaves a text of settled characters as it is. -/
theorem lower_of_settled {s : String} (h : ∀ c ∈ s.toList, Settled c) : lower s = s := by
  rw [lower, lowerFrom_of_settled h, String.ofList_toList]

theorem settled_of_mem_lower {s : String} {c : Char} (hc : c ∈ (lower s).toList) : Settled c := by
  rw [lower, String.toList_ofList] at hc
  exact settled_of_mem_lowerFrom hc

/-- **A text in lower case** stays as it is. -/
theorem lower_lower (s : String) : lower (lower s) = lower s :=
  lower_of_settled fun _ => settled_of_mem_lower

/-! ### Blanks around a text -/

/-- The text neither begins nor ends with a blank. -/
def Trimmed (cs : List Char) : Prop :=
  (∀ c ∈ cs.head?, isBlank c = false) ∧ ∀ c ∈ cs.getLast?, isBlank c = false

theorem trimBlanks_of_trimmed {cs : List Char} (h : Trimmed cs) : trimBlanks cs = cs := by
  have hdrop : ∀ {cs : List Char}, (∀ c ∈ cs.head?, isBlank c = false) →
      cs.dropWhile isBlank = cs := by
    intro cs hcs
    cases cs with
    | nil => rfl
    | cons c cs => rw [List.dropWhile_cons_of_neg (by simp [hcs c rfl])]
  rw [trimBlanks, hdrop h.1, hdrop (by rw [List.head?_reverse]; exact h.2), List.reverse_reverse]

theorem isBlank_of_head?_dropWhile {cs : List Char} {c : Char}
    (hc : c ∈ (cs.dropWhile isBlank).head?) : isBlank c = false := by
  have hhead := List.head?_dropWhile_not isBlank cs
  rwa [Option.mem_def.1 hc] at hhead

theorem trimmed_trimBlanks (cs : List Char) : Trimmed (trimBlanks cs) := by
  constructor
  · intro c hc
    rw [trimBlanks, List.head?_reverse] at hc
    -- what is left after the blanks at the end ends with what comes first after those at the front
    have hlast : (cs.dropWhile isBlank).reverse.getLast? = some c := by
      rw [← List.takeWhile_append_dropWhile (p := isBlank) (l := (cs.dropWhile isBlank).reverse),
        List.getLast?_append, Option.mem_def.1 hc, Option.some_or]
    rw [List.getLast?_reverse] at hlast
    exact isBlank_of_head?_dropWhile hlast
  · intro c hc
    rw [trimBlanks, List.getLast?_reverse] at hc
    exact isBlank_of_head?_dropWhile hc

/-- A text without blanks at its ends stays as it is. -/
theorem trim_eq_self {s : String} (h : Trimmed s.toList) : trim s = s := by
  rw [trim, trimBlanks_of_trimmed h, String.ofList_toList]

/-- Lower case puts no blank at the end of a text. -/
theorem getLast?_lowerFrom {before cs : List Char} (h : ∀ c ∈ cs.getLast?, isBlank c = false) :
    ∀ c ∈ (lowerFrom before cs).getLast?, isBlank c = false := by
  induction cs generalizing before with
  | nil => simp [lowerFrom]
  | cons c cs ih =>
    rw [lowerFrom_cons]
    cases cs with
    | nil =>
      intro d hd
      rw [lowerFrom, List.append_nil] at hd
      exact (settled_of_mem_lowerAt (List.mem_of_getLast? hd)).2 (h c rfl)
    | cons c' cs =>
      have hne : lowerFrom (c :: before) (c' :: cs) ≠ [] := by
        rw [lowerFrom_cons]
        exact List.append_ne_nil_of_left_ne_nil (lowerAt_ne_nil _ _ _) _
      rw [List.getLast?_append, List.getLast?_eq_some_getLast hne, Option.some_or,
        ← List.getLast?_eq_some_getLast hne]
      exact ih h

/-- A text without blanks at its ends has none there in lower case. -/
theorem trimmed_lower {s : String} (h : Trimmed s.toList) : Trimmed (lower s).toList := by
  rw [lower, String.toList_ofList]
  refine ⟨?_, getLast?_lowerFrom h.2⟩
  cases hs : s.toList with
  | nil => simp [lowerFrom]
  | cons c cs =>
    intro d hd
    obtain ⟨x, xs, hx⟩ := List.exists_cons_of_ne_nil (lowerAt_ne_nil [] c cs)
    rw [lowerFrom_cons, hx, List.cons_append, List.head?_cons, Option.mem_some] at hd
    have hblank : isBlank c = false := h.1 c (by rw [hs]; rfl)
    exact hd ▸ (settled_of_mem_lowerAt (hx ▸ List.mem_cons_self)).2 hblank

end TaintFlow.Text
