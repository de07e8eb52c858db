import Vicinity.Disk.Reading
import Vicinity.Proofs.Disk.Trees

/-!
# Reading the beginning of a file

Reading in chunks gives what reading the whole file would give. Where a chunk ends within a character,
its bytes so far are the beginning of one; where it ends within a line end, the half of it is not seen.

## What is proved

* `unifyLineEnds_append`: the line ends of two texts together are those of each.
* `isBeginning_take`: the first bytes of any character are the beginning of one.
* `readUpTo_of_text`: of a file that is text, the first characters are read.
* `readUpTo_eq_notText`: a file that is no text is found to be none if it has fewer bytes than characters
  are wanted.
-/

namespace Vicinity

namespace Text

/-! ### Line ends -/

theorem go_append_done (s done more : List Char) :
    unifyLineEnds.go s (done ++ more) = more.reverse ++ unifyLineEnds.go s done := by
  fun_induction unifyLineEnds.go s done with
  | case1 done => simp [unifyLineEnds.go]
  | case2 rest done ih =>
    rw [unifyLineEnds.go]
    exact ih
  | case3 rest done hrest ih =>
    rw [unifyLineEnds.go]
    · exact ih
    · exact hrest
  | case4 c rest done hpair hreturn ih =>
    rw [unifyLineEnds.go]
    · exact ih
    · exact hpair
    · exact hreturn

theorem getLast?_cons_of_some {c d : Char} {s : List Char} (h : s.getLast? = some d) :
    (c :: s).getLast? = some d := by
  rw [List.getLast?_cons, h]
  rfl

/-- Two texts can be taken apart where no line end is cut in two. -/
theorem unifyLineEnds_append {s t : List Char} (h : s.getLast? = some '\r' → t.head? ≠ some '\n') :
    unifyLineEnds (s ++ t) = unifyLineEnds s ++ unifyLineEnds t := by
  suffices hgo : ∀ done, unifyLineEnds.go (s ++ t) done = unifyLineEnds.go s done ++ unifyLineEnds t by
    exact hgo []
  intro done
  fun_induction unifyLineEnds.go s done with
  | case1 done => simpa [unifyLineEnds] using go_append_done t [] done
  | case2 rest done ih =>
    rw [List.cons_append, List.cons_append, unifyLineEnds.go]
    exact ih fun hrest => h (getLast?_cons_of_some (getLast?_cons_of_some hrest))
  | case3 rest done hrest ih =>
    rw [List.cons_append, unifyLineEnds.go]
    · exact ih fun hlast => h (getLast?_cons_of_some hlast)
    · intro more hmore
      cases rest with
      | nil => exact h rfl (by rw [← List.nil_append t, hmore]; rfl)
      | cons d rest =>
        cases hmore
        exact hrest rest rfl
  | case4 c rest done hpair hreturn ih =>
    rw [List.cons_append, unifyLineEnds.go]
    · exact ih fun hlast => h (getLast?_cons_of_some hlast)
    · rintro more rfl hmore
      exact hreturn rfl
    · exact hreturn

theorem length_unifyLineEnds_le (s : List Char) : (unifyLineEnds s).length ≤ s.length := by
  suffices hgo : ∀ done, (unifyLineEnds.go s done).length ≤ s.length + done.length by
    exact hgo []
  intro done
  fun_induction unifyLineEnds.go s done <;> simp_all <;> omega

end Text

namespace Reading

/-! ### Characters -/

section

variable {c : Char}

/-- A number that a character can have is that of one. -/
theorem exists_char {n : Nat} (h : n.isValidChar) : ∃ c : Char, c.toNat = n :=
  ⟨Char.ofNatAux n h, rfl⟩

theorem utf8EncodeChar_one (hmost : c.toNat < 0x80) :
    String.utf8EncodeChar c = [UInt8.ofNat c.toNat] := by
  simp only [String.utf8EncodeChar, Char.toNat_val]
  rw [if_pos (by omega)]

theorem utf8EncodeChar_two (hleast : 0x80 ≤ c.toNat) (hmost : c.toNat < 0x800) :
    String.utf8EncodeChar c =
      [UInt8.ofNat (c.toNat / 64 % 32 + 192), UInt8.ofNat (c.toNat % 64 + 128)] := by
  simp only [String.utf8EncodeChar, Char.toNat_val]
  rw [if_neg (by omega), if_pos (by omega)]

theorem utf8EncodeChar_three (hleast : 0x800 ≤ c.toNat) (hmost : c.toNat < 0x10000) :
    String.utf8EncodeChar c =
      [UInt8.ofNat (c.toNat / 4096 % 16 + 224), UInt8.ofNat (c.toNat / 64 % 64 + 128),
        UInt8.ofNat (c.toNat % 64 + 128)] := by
  simp only [String.utf8EncodeChar, Char.toNat_val]
  rw [if_neg (by omega), if_neg (by omega), if_pos (by omega)]

theorem utf8EncodeChar_four (hleast : 0x10000 ≤ c.toNat) :
    String.utf8EncodeChar c =
      [UInt8.ofNat (c.toNat / 262144 % 8 + 240), UInt8.ofNat (c.toNat / 4096 % 64 + 128),
        UInt8.ofNat (c.toNat / 64 % 64 + 128), UInt8.ofNat (c.toNat % 64 + 128)] := by
  simp only [String.utf8EncodeChar, Char.toNat_val]
  rw [if_neg (by omega), if_neg (by omega), if_neg (by omega)]

/-- Bytes that one of the endings completes to a character. -/
def IsCompleted (bytes : List UInt8) : Prop :=
  ∃ c : Char, ∃ ending ∈ endings, String.utf8EncodeChar c = bytes ++ ending

theorem isValidChar_toNat : c.toNat < 0xd800 ∨ 0xdfff < c.toNat ∧ c.toNat < 0x110000 := c.valid

theorem isCompleted_two {k : Nat} (hleast : 0x80 ≤ c.toNat) (hmost : c.toNat < 0x800) (hpos : 0 < k)
    (hk : k < 2) : IsCompleted ((String.utf8EncodeChar c).take k) := by
  obtain rfl : k = 1 := by omega
  obtain ⟨c', hc'⟩ := exists_char (n := c.toNat / 64 * 64) (.inl (by omega))
  refine ⟨c', [0x80], by simp [endings], ?_⟩
  rw [utf8EncodeChar_two hleast hmost, utf8EncodeChar_two (by omega) (by omega), hc']
  simp

theorem isCompleted_three {k : Nat} (hleast : 0x800 ≤ c.toNat) (hmost : c.toNat < 0x10000)
    (hpos : 0 < k) (hk : k < 3) : IsCompleted ((String.utf8EncodeChar c).take k) := by
  have hvalid := isValidChar_toNat (c := c)
  rw [utf8EncodeChar_three hleast hmost]
  obtain rfl | rfl : k = 1 ∨ k = 2 := by omega
  · -- Behind the smallest first byte the second one has a bound of its own.
    by_cases hsmall : c.toNat < 0x1000
    · obtain ⟨c', hc'⟩ := exists_char (n := 0x800) (.inl (by omega))
      refine ⟨c', [0xa0, 0x80], by simp [endings], ?_⟩
      have hfirst : c.toNat / 4096 = 0 := by omega
      rw [utf8EncodeChar_three (by omega) (by omega), hc']
      simp [hfirst]
    · obtain ⟨c', hc'⟩ := exists_char (n := c.toNat / 4096 * 4096)
        (by unfold Nat.isValidChar; omega)
      refine ⟨c', [0x80, 0x80], by simp [endings], ?_⟩
      have hsecond : c.toNat / 4096 * 4096 / 64 % 64 = 0 := by omega
      have hthird : c.toNat / 4096 * 4096 % 64 = 0 := by omega
      rw [utf8EncodeChar_three (by omega) (by omega), hc']
      simp [hsecond, hthird]
  · obtain ⟨c', hc'⟩ := exists_char (n := c.toNat / 64 * 64) (by unfold Nat.isValidChar; omega)
    refine ⟨c', [0x80], by simp [endings], ?_⟩
    have hfirst : c.toNat / 64 * 64 / 4096 = c.toNat / 4096 := by omega
    rw [utf8EncodeChar_three (by omega) (by omega), hc']
    simp [hfirst]

theorem isCompleted_four {k : Nat} (hleast : 0x10000 ≤ c.toNat) (hpos : 0 < k) (hk : k < 4) :
    IsCompleted ((String.utf8EncodeChar c).take k) := by
  have hvalid := isValidChar_toNat (c := c)
  rw [utf8EncodeChar_four hleast]
  obtain rfl | rfl | rfl : k = 1 ∨ k = 2 ∨ k = 3 := by omega
  · by_cases hsmall : c.toNat < 0x40000
    · obtain ⟨c', hc'⟩ := exists_char (n := 0x10000) (by unfold Nat.isValidChar; omega)
      refine ⟨c', [0x90, 0x80, 0x80], by simp [endings], ?_⟩
      have hfirst : c.toNat / 262144 = 0 := by omega
      rw [utf8EncodeChar_four (by omega), hc']
      simp [hfirst]
    · obtain ⟨c', hc'⟩ := exists_char (n := c.toNat / 262144 * 262144)
        (by unfold Nat.isValidChar; omega)
      refine ⟨c', [0x80, 0x80, 0x80], by simp [endings], ?_⟩
      have hsecond : c.toNat / 262144 * 262144 / 4096 % 64 = 0 := by omega
      have hthird : c.toNat / 262144 * 262144 / 64 % 64 = 0 := by omega
      have hfourth : c.toNat / 262144 * 262144 % 64 = 0 := by omega
      rw [utf8EncodeChar_four (by omega), hc']
      simp [hsecond, hthird, hfourth]
  · obtain ⟨c', hc'⟩ := exists_char (n := c.toNat / 4096 * 4096) (by unfold Nat.isValidChar; omega)
    refine ⟨c', [0x80, 0x80], by simp [endings], ?_⟩
    have hfirst : c.toNat / 4096 * 4096 / 262144 = c.toNat / 262144 := by omega
    have hthird : c.toNat / 4096 * 4096 / 64 % 64 = 0 := by omega
    have hfourth : c.toNat / 4096 * 4096 % 64 = 0 := by omega
    rw [utf8EncodeChar_four (by omega), hc']
    simp [hfirst, hthird, hfourth]
  · obtain ⟨c', hc'⟩ := exists_char (n := c.toNat / 64 * 64) (by unfold Nat.isValidChar; omega)
    refine ⟨c', [0x80], by simp [endings], ?_⟩
    have hfirst : c.toNat / 64 * 64 / 262144 = c.toNat / 262144 := by omega
    have hsecond : c.toNat / 64 * 64 / 4096 = c.toNat / 4096 := by omega
    rw [utf8EncodeChar_four (by omega), hc']
    simp [hfirst, hsecond]

/-- Any beginning of a character goes on with one of the endings. -/
theorem isCompleted_take {k : Nat} (hpos : 0 < k) (hk : k < (String.utf8EncodeChar c).length) :
    IsCompleted ((String.utf8EncodeChar c).take k) := by
  by_cases htwo : c.toNat < 0x80
  · rw [utf8EncodeChar_one htwo, List.length_singleton] at hk
    omega
  by_cases hthree : c.toNat < 0x800
  · rw [utf8EncodeChar_two (by omega) hthree] at hk
    exact isCompleted_two (by omega) hthree hpos hk
  by_cases hfour : c.toNat < 0x10000
  · rw [utf8EncodeChar_three (by omega) hfour] at hk
    exact isCompleted_three (by omega) hfour hpos hk
  · rw [utf8EncodeChar_four (by omega)] at hk
    exact isCompleted_four (by omega) hpos hk

end

/-! ### Beginnings of a text -/

theorem fromUTF8?_eq_some_iff {bytes : ByteArray} {text : String} :
    String.fromUTF8? bytes = some text ↔ text.toUTF8 = bytes := by
  constructor
  · intro h
    unfold String.fromUTF8? at h
    split at h
    · cases h
      rfl
    · cases h
  · rintro rfl
    exact dif_pos text.isValidUTF8

theorem toUTF8_eq_utf8Encode (text : String) : text.toUTF8 = text.toList.utf8Encode := by
  rw [String.toUTF8_eq_toByteArray, ← String.toByteArray_ofList, String.ofList_toList]

theorem extract_toByteArray (l : List UInt8) {k : Nat} (hk : k ≤ l.length) :
    l.toByteArray.extract 0 k = (l.take k).toByteArray := by
  have hsplit := congrArg List.toByteArray (List.take_append_drop k l)
  rw [List.toByteArray_append] at hsplit
  rw [← hsplit]
  refine ByteArray.extract_append_eq_left ?_
  simp
  omega

/-- The first bytes of a character are the beginning of one. -/
theorem isBeginning_take {c : Char} {k : Nat} (hpos : 0 < k)
    (hk : k < (String.utf8EncodeChar c).length) :
    isBeginning ((String.utf8EncodeChar c).take k).toByteArray = true := by
  obtain ⟨c', ending, hmem, hc'⟩ := isCompleted_take hpos hk
  unfold isBeginning
  rw [List.any_eq_true]
  refine ⟨ending, hmem, ?_⟩
  have hvalid : String.fromUTF8? (((String.utf8EncodeChar c).take k).toByteArray ++ ending.toByteArray) =
      some (String.ofList [c']) := by
    rw [fromUTF8?_eq_some_iff, String.toUTF8_eq_toByteArray, String.toByteArray_ofList,
      List.utf8Encode_singleton, hc', List.toByteArray_append]
  rw [hvalid]
  rfl

theorem exists_cut (l : List Char) {n : Nat} (h : n ≤ l.utf8Encode.size) :
    ∃ front back k, l = front ++ back ∧ n = front.utf8Encode.size + k ∧
      (k = 0 ∨ 0 < k ∧ ∃ c more, back = c :: more ∧ k < (String.utf8EncodeChar c).length) := by
  induction l generalizing n with
  | nil => exact ⟨[], [], 0, rfl, by simpa using h, .inl rfl⟩
  | cons c more ih =>
    rw [List.utf8Encode_cons, ByteArray.size_append] at h
    by_cases hin : n < [c].utf8Encode.size
    · refine ⟨[], c :: more, n, rfl, by simp, ?_⟩
      rcases Nat.eq_zero_or_pos n with rfl | hpos
      · exact .inl rfl
      · rw [List.utf8Encode_singleton, List.size_toByteArray] at hin
        exact .inr ⟨hpos, c, more, rfl, hin⟩
    · obtain ⟨front, back, k, rfl, hn, hk⟩ := ih (n := n - [c].utf8Encode.size) (by omega)
      refine ⟨c :: front, back, k, rfl, ?_, hk⟩
      clear hk
      rw [List.utf8Encode_cons, ByteArray.size_append]
      omega

/-- The text of the first bytes of a text is the beginning of the text. -/
theorem isPrefix_of_extract {text t : String} {n : Nat} (hn : n ≤ text.toUTF8.size)
    (h : String.fromUTF8? (text.toUTF8.extract 0 n) = some t) : t.toList <+: text.toList := by
  rw [fromUTF8?_eq_some_iff, String.toUTF8_eq_toByteArray, String.toUTF8_eq_toByteArray] at h
  have hplace : (String.Pos.Raw.mk n).IsValid text := by
    rw [String.Pos.Raw.isValid_iff_isValidUTF8_extract_zero]
    exact ⟨hn, h ▸ t.isValidUTF8⟩
  obtain ⟨front, back, rfl, hfront⟩ := String.Pos.Raw.isValid_iff_exists_append.mp hplace
  have ht : t = front := by
    rw [← String.toByteArray_inj, h, String.toByteArray_append]
    refine ByteArray.extract_append_eq_left ?_
    simpa using congrArg String.Pos.Raw.byteIdx hfront
  rw [ht, String.toList_append]
  exact List.prefix_append _ _

/-- Some text is seen of the first bytes of a text. -/
theorem exists_text? (text : String) {stop : Nat} (h : stop ≤ text.toUTF8.size) :
    ∃ t, text? text.toUTF8 stop = some t := by
  rw [toUTF8_eq_utf8Encode] at h ⊢
  obtain ⟨front, back, k, hl, rfl, hk⟩ := exists_cut _ h
  have hfront : textBefore? text.toList.utf8Encode (front.utf8Encode.size + k) k =
      some (String.ofList front) := by
    unfold textBefore?
    rw [hl, Nat.add_sub_cancel, List.utf8Encode_append, ByteArray.extract_append_eq_left rfl, if_pos,
      fromUTF8?_eq_some_iff, String.toUTF8_eq_toByteArray, String.toByteArray_ofList]
    rcases hk with rfl | ⟨hpos, c, more, rfl, hk⟩
    · exact .inl rfl
    · right
      have hcut : (front.utf8Encode ++ (c :: more).utf8Encode).extract (front.utf8Encode.size + 0)
          (front.utf8Encode.size + k) = (c :: more).utf8Encode.extract 0 k :=
        ByteArray.extract_append_size_add
      rw [Nat.add_zero] at hcut
      have hmore : k - (String.utf8EncodeChar c).toByteArray.size = 0 := by
        rw [List.size_toByteArray]
        omega
      rw [hcut, List.utf8Encode_cons, List.utf8Encode_singleton, ByteArray.extract_append,
        extract_toByteArray _ (Nat.le_of_lt hk), hmore]
      simpa using isBeginning_take hpos hk
  have hmem : k ∈ [0, 1, 2, 3] := by
    rcases hk with rfl | ⟨hpos, c, more, rfl, hk⟩
    · simp
    · rw [String.length_utf8EncodeChar] at hk
      have := c.utf8Size_le_four
      simp
      omega
  have hsome : (text? text.toList.utf8Encode (front.utf8Encode.size + k)).isSome := by
    unfold text?
    rw [List.findSome?_isSome_iff]
    exact ⟨k, hmem, by rw [hfront]; rfl⟩
  exact Option.isSome_iff_exists.mp hsome

/-- The text of the first bytes is that of some of them. -/
theorem exists_of_text? {bytes : ByteArray} {stop : Nat} {t : String}
    (h : text? bytes stop = some t) :
    ∃ n ≤ stop, String.fromUTF8? (bytes.extract 0 n) = some t := by
  obtain ⟨k, -, hk⟩ := List.exists_of_findSome?_eq_some h
  unfold textBefore? at hk
  split at hk
  · exact ⟨stop - k, Nat.sub_le _ _, hk⟩
  · cases hk

theorem isPrefix_of_text? {text t : String} {stop : Nat} (hstop : stop ≤ text.toUTF8.size)
    (h : text? text.toUTF8 stop = some t) : t.toList <+: text.toList := by
  obtain ⟨n, hn, hbytes⟩ := exists_of_text? h
  exact isPrefix_of_extract (Nat.le_trans hn hstop) hbytes

/-- What is seen of the beginning of a text is the beginning of what is seen of all of it. -/
theorem seen_isPrefix {t : String} {text : List Char} (h : t.toList <+: text) :
    seen t <+: Text.unifyLineEnds text := by
  obtain ⟨rest, rfl⟩ := h
  unfold seen
  dsimp only
  split
  · rename_i hlast
    obtain ⟨front, hfront⟩ := List.getLast?_eq_some_iff.mp hlast
    rw [hfront, List.dropLast_concat, List.append_assoc,
      Text.unifyLineEnds_append (t := ['\r'] ++ rest) (by simp)]
    exact List.prefix_append _ _
  · rename_i hlast
    rw [Text.unifyLineEnds_append fun h => absurd h hlast]
    exact List.prefix_append _ _

theorem length_seen_le (t : String) : (seen t).length ≤ t.toList.length := by
  unfold seen
  dsimp only
  split
  · refine Nat.le_trans (Text.length_unifyLineEnds_le _) ?_
    simp
  · exact Text.length_unifyLineEnds_le _

/-- A text has no more characters than bytes. -/
theorem length_toList_le (t : String) : t.toList.length ≤ t.toUTF8.size := by
  rw [toUTF8_eq_utf8Encode]
  induction t.toList with
  | nil => exact Nat.zero_le _
  | cons c more ih =>
    have hpos := c.utf8Size_pos
    rw [List.utf8Encode_cons, List.utf8Encode_singleton, ByteArray.size_append, List.size_toByteArray,
      String.length_utf8EncodeChar, List.length_cons]
    omega

/-! ### Files -/

/-- Reading on in a text leads to its first characters. -/
theorem readOn_of_text (text : String) (limit start before size : Nat) :
    readOn text.toUTF8 limit start before size =
      some ((Text.unifyLineEnds text.toList).take limit) := by
  fun_induction readOn text.toUTF8 limit start before size with
  | case1 start before size stop hstop hnone =>
    obtain ⟨t, ht⟩ := exists_text? text (Nat.min_le_right (start + size) _)
    rw [hnone] at ht
    cases ht
  | case2 start before size stop hstop t ht found hlimit =>
    have hfound : found <+: Text.unifyLineEnds text.toList :=
      seen_isPrefix (isPrefix_of_text? (Nat.min_le_right (start + size) _) ht)
    rw [List.prefix_iff_eq_take.mp hfound, List.take_take, Nat.min_eq_left hlimit]
  | case3 start before size stop hstop t ht found hlimit ih => exact ih
  | case4 start before size stop hstop =>
    rw [fromUTF8?_eq_some_iff.mpr rfl]
    rfl

/-- Reading on to the end of bytes that are no text fails. -/
theorem readOn_eq_none {bytes : ByteArray} (h : String.fromUTF8? bytes = none) {limit : Nat}
    (hsize : bytes.size < limit) (start before size : Nat) :
    readOn bytes limit start before size = none := by
  fun_induction readOn bytes limit start before size with
  | case1 start before size stop hstop hnone => rfl
  | case2 start before size stop hstop t ht found hlimit =>
    obtain ⟨n, hn, hbytes⟩ := exists_of_text? ht
    have hlength : t.toList.length ≤ bytes.size := by
      refine Nat.le_trans (length_toList_le t) ?_
      rw [fromUTF8?_eq_some_iff.mp hbytes, ByteArray.size_extract]
      omega
    have hfound : found.length ≤ t.toList.length := length_seen_le t
    omega
  | case3 start before size stop hstop t ht found hlimit ih => exact ih
  | case4 start before size stop hstop => rw [h, Option.map_none]

/-- **Of a file that is text, the first characters are read.** -/
theorem upTo_of_text {bytes : ByteArray} {text : String} (h : String.fromUTF8? bytes = some text)
    (limit : Nat) : upTo limit bytes = some ((Text.unifyLineEnds text.toList).take limit) := by
  rw [fromUTF8?_eq_some_iff] at h
  rw [← h]
  exact readOn_of_text text limit 0 0 _

/-- **A file that is no text cannot be read** if it has fewer bytes than characters are wanted. -/
theorem upTo_eq_none {bytes : ByteArray} (h : String.fromUTF8? bytes = none) {limit : Nat}
    (hsize : bytes.size < limit) : upTo limit bytes = none :=
  readOn_eq_none h hsize 0 0 _

end Reading

namespace Disk

variable {disk : Disk} {path : String}

/-- Reading a part of a file finds bytes that are no text only where the file is no text. -/
theorem holdsNoText_of_readUpTo {limit : Nat}
    (h : disk.access.readUpTo limit path = .error .notText) : disk.HoldsNoText path := by
  unfold access at h
  dsimp only at h
  split at h
  · rename_i bytes hentry
    refine ⟨bytes, hentry, ?_⟩
    cases hbytes : String.fromUTF8? bytes with
    | none => rfl
    | some text =>
      rw [Reading.upTo_of_text hbytes] at h
      cases h
  · cases h
  · cases h

/-- **A file that is no text is found to be none** if it has fewer bytes than characters are wanted. -/
theorem readUpTo_eq_notText {bytes : ByteArray} (hentry : disk.entry path = .ok (.file bytes))
    (hbytes : String.fromUTF8? bytes = none) {limit : Nat} (hsize : bytes.size < limit) :
    disk.access.readUpTo limit path = .error .notText := by
  unfold access
  dsimp only
  rw [hentry]
  dsimp only
  rw [Reading.upTo_eq_none hbytes hsize]

/-- **Of a file that is text, the first characters are read.** -/
theorem readUpTo_of_text {bytes : ByteArray} {text : String}
    (hentry : disk.entry path = .ok (.file bytes)) (hbytes : String.fromUTF8? bytes = some text)
    (limit : Nat) :
    disk.access.readUpTo limit path = .ok ((Text.unifyLineEnds text.toList).take limit) := by
  unfold access
  dsimp only
  rw [hentry]
  dsimp only
  rw [Reading.upTo_of_text hbytes]

end Disk

end Vicinity
