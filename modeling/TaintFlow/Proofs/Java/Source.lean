import TaintFlow.Java.Source
import TaintFlow.Proofs.Text.Lines

/-!
# Positions of nodes

The position of a node counts the line feeds among the bytes before it.  No other character has
the byte of a line feed in its encoding, so that these are the line feeds of the text.

* `count_utf8EncodeChar` : a line feed is the only character encoded with its byte;
* `Source.line_position_eq` : a position counts the line feeds before a node;
* `Source.line_position` : a node that starts on a line of the text is in the row of that line.
* `Source.start_eq_of_position_eq` : the position of a node tells at which byte it starts.
-/

namespace TaintFlow.Java

open TaintFlow.Text

/-- The bytes of a text. -/
def encoded (cs : List Char) : List UInt8 :=
  cs.flatMap String.utf8EncodeChar

theorem encoded_append (cs ds : List Char) : encoded (cs ++ ds) = encoded cs ++ encoded ds :=
  List.flatMap_append

theorem toList_loop (bytes : ByteArray) (i : Nat) (read : List UInt8) :
    ByteArray.toList.loop bytes i read = read.reverse ++ bytes.data.toList.drop i := by
  fun_induction ByteArray.toList.loop bytes i read with
  | case1 i read h ih =>
    have hi : i < bytes.data.toList.length := h
    rw [ih, List.drop_eq_getElem_cons hi, List.reverse_cons, List.append_assoc,
      List.singleton_append]
    simp [ByteArray.get!, getElem!_pos bytes.data i h]
  | case2 i read h =>
    have hi : bytes.data.toList.length ≤ i := Nat.le_of_not_lt h
    rw [List.drop_of_length_le hi, List.append_nil]

theorem toList_toUTF8 (text : String) : text.toUTF8.toList = encoded text.toList := by
  have hdata : text.toUTF8.data.toList = encoded text.toList := by
    rw [String.toUTF8_eq_toByteArray, ← String.utf8Encode_toList, List.utf8Encode,
      List.toList_data_toByteArray, encoded]
  rw [ByteArray.toList, toList_loop, hdata]
  rfl

/-! ### Bytes of a line feed -/

theorem ofNat_ne_feed {n : Nat} (hlow : 0x80 ≤ n) (hhigh : n < 0x100) :
    UInt8.ofNat n ≠ 0x0a := by
  intro h
  have hnat := congrArg UInt8.toNat h
  rw [UInt8.toNat_ofNat_of_lt' hhigh] at hnat
  exact absurd hlow (by rw [hnat]; decide)

theorem count_utf8EncodeChar (c : Char) :
    (String.utf8EncodeChar c).count 0x0a = if c = '\n' then 1 else 0 := by
  have hfeed : c = '\n' ↔ c.val.toNat = 10 := by
    rw [← Char.val_inj, ← UInt32.toNat_inj]
    rfl
  -- the bytes of a character with more than one are all at least 0x80
  have hmore : ∀ bytes : List UInt8, (∀ b ∈ bytes, b ≠ 0x0a) → 0x7f < c.val.toNat →
      bytes.count 0x0a = if c = '\n' then 1 else 0 := by
    intro bytes hbytes hlarge
    have hnot : c ≠ '\n' := fun h => absurd (hfeed.mp h) (by omega)
    rw [if_neg hnot, List.count_eq_zero]
    exact fun hmem => hbytes _ hmem rfl
  fun_cases String.utf8EncodeChar c with
  | case1 v hv =>
    have hbyte : UInt8.ofNat v = 0x0a ↔ v = 10 := by
      have hsmall : v < UInt8.size := Nat.lt_of_le_of_lt hv (by decide)
      rw [← UInt8.toNat_inj, UInt8.toNat_ofNat_of_lt' hsmall]
      rfl
    simp only [List.count_singleton, beq_iff_eq, hbyte, hfeed]
    rfl
  | case2 v hv =>
    refine hmore _ ?_ (Nat.lt_of_not_le hv)
    simp only [List.forall_mem_cons]
    exact ⟨ofNat_ne_feed (by omega) (by omega), ofNat_ne_feed (by omega) (by omega), by simp⟩
  | case3 v hv =>
    refine hmore _ ?_ (Nat.lt_of_not_le hv)
    simp only [List.forall_mem_cons]
    exact ⟨ofNat_ne_feed (by omega) (by omega), ofNat_ne_feed (by omega) (by omega),
      ofNat_ne_feed (by omega) (by omega), by simp⟩
  | case4 v hv =>
    refine hmore _ ?_ (Nat.lt_of_not_le hv)
    simp only [List.forall_mem_cons]
    exact ⟨ofNat_ne_feed (by omega) (by omega), ofNat_ne_feed (by omega) (by omega),
      ofNat_ne_feed (by omega) (by omega), ofNat_ne_feed (by omega) (by omega), by simp⟩

theorem count_encoded (cs : List Char) : (encoded cs).count 0x0a = cs.count '\n' := by
  induction cs with
  | nil => rfl
  | cons c cs ih =>
    have hcons : encoded (c :: cs) = String.utf8EncodeChar c ++ encoded cs := List.flatMap_cons
    rw [hcons, List.count_append, count_utf8EncodeChar, ih, List.count_cons, Nat.add_comm]
    simp

namespace Source

theorem length_newlines_before (bytes : List UInt8) (offset stop : Nat) :
    ((newlinesFrom offset bytes).filter (· < stop)).length =
      (bytes.take (stop - offset)).count 0x0a := by
  induction bytes generalizing offset with
  | nil => simp [newlinesFrom]
  | cons b rest ih =>
    rw [newlinesFrom]
    by_cases hlt : offset < stop
    · have hk : stop - offset = stop - (offset + 1) + 1 := by omega
      rw [hk, List.take_succ_cons, List.count_cons, ← ih (offset + 1)]
      split <;> simp [hlt]
    · have hzero : stop - offset = 0 := by omega
      have hrest : stop - (offset + 1) = 0 := by omega
      rw [hzero]
      have ih := ih (offset + 1)
      rw [hrest] at ih
      split <;> simp [hlt, ih]

theorem line_position_eq (path text : String) (t : Tree) :
    ((ofText path text).position t).line =
      ((encoded text.toList).take t.start).count 0x0a + 1 := by
  change ((newlinesFrom 0 text.toUTF8.toList).filter (· < t.start)).length + 1 = _
  rw [toList_toUTF8, length_newlines_before, Nat.sub_zero]

/-- **The row of a node** is that of the line on which it starts. -/
theorem line_position {path text : String} {above line : List Char} {t : Tree}
    (hline : LineAt text.toList above line) (hfrom : (encoded above).length ≤ t.start)
    (hto : t.start ≤ (encoded (above ++ line)).length) :
    ((ofText path text).position t).line = rowAfter above := by
  obtain ⟨hend, below, htext, -⟩ := hline
  have hnone : (encoded line).count 0x0a = 0 := by
    rw [count_encoded]
    exact List.count_eq_zero.mpr (hend.not_mem (by decide))
  have hcount : ((encoded text.toList).take t.start).count 0x0a = above.count '\n' := by
    rw [encoded_append, List.length_append] at hto
    have hinside : t.start - (encoded above).length ≤ (encoded line).length := by omega
    have hpart : ((encoded line).take (t.start - (encoded above).length)).count 0x0a = 0 :=
      Nat.eq_zero_of_le_zero (hnone ▸ (List.take_sublist _ _).count_le _)
    rw [htext, encoded_append, encoded_append, List.take_append, List.take_of_length_le hfrom,
      List.take_append_of_le_length hinside, List.count_append, hpart, count_encoded]
    rfl
  rw [line_position_eq, hcount, rowAfter]

/-! ### Columns -/

/-- The offset at which the line of an offset starts. -/
def lineStart (S : Source) (start : Nat) : Nat :=
  (S.newlines.filter (· < start)).getLast?.map (· + 1) |>.getD 0

theorem lineStart_le (S : Source) (start : Nat) : S.lineStart start ≤ start := by
  unfold lineStart
  cases hlast : (S.newlines.filter (· < start)).getLast? with
  | none => exact Nat.zero_le _
  | some feed =>
    have hfeed := (List.mem_filter.1 (List.mem_of_getLast? hlast)).2
    exact Nat.succ_le_of_lt (of_decide_eq_true hfeed)

/-- No line feed stands between offsets that have as many before them. -/
theorem newlines_before_eq (S : Source) {start start' : Nat} (hle : start ≤ start')
    (hlength : (S.newlines.filter (· < start)).length = (S.newlines.filter (· < start')).length) :
    S.newlines.filter (· < start) = S.newlines.filter (· < start') := by
  have hfilter : S.newlines.filter (· < start) =
      (S.newlines.filter (· < start')).filter (· < start) := by
    rw [List.filter_filter]
    refine List.filter_congr fun feed _ => ?_
    rw [← Bool.decide_and, decide_eq_decide]
    omega
  have hsublist : (S.newlines.filter (· < start)).Sublist (S.newlines.filter (· < start')) := by
    rw [hfilter]
    exact List.filter_sublist
  exact hsublist.eq_of_length hlength

/-- **Nodes with one position** start at one byte, if they start within the text. -/
theorem start_eq_of_position_eq (S : Source) {t t' : Tree} (ht : t.start ≤ S.bytes.size)
    (ht' : t'.start ≤ S.bytes.size) (hline : (S.position t).line = (S.position t').line)
    (hcolumn : (S.position t).column = (S.position t').column) : t.start = t'.start := by
  have hlength : (S.newlines.filter (· < t.start)).length =
      (S.newlines.filter (· < t'.start)).length := Nat.succ.inj hline
  have hbefore : S.newlines.filter (· < t.start) = S.newlines.filter (· < t'.start) := by
    rcases Nat.le_total t.start t'.start with hle | hle
    · exact S.newlines_before_eq hle hlength
    · exact (S.newlines_before_eq hle hlength.symm).symm
  have hstart : S.lineStart t.start = S.lineStart t'.start := by rw [lineStart, hbefore, lineStart]
  have hcolumn : min t.start S.bytes.size - S.lineStart t.start =
      min t'.start S.bytes.size - S.lineStart t'.start := Nat.succ.inj hcolumn
  have hle := S.lineStart_le t.start
  have hle' := S.lineStart_le t'.start
  omega

end Source

end TaintFlow.Java
