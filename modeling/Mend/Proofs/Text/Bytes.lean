import Mend.Text.Bytes
import Mend.Text.Offset

/-!
# Texts as bytes, and back

The bytes of a text are those of its characters one after the other (`encode_append`). A character
below U+0080 is its own byte (`encode_ascii`), and all the bytes of any other character are above
(`le_of_mem_encode`). What is encoded can be decoded (`decode?_encode`). Characters
below U+0080 that stand in front of the bytes stand in front of the text (`prefix_encode`).
-/

namespace Mend.Text

theorem toList_loop_eq (bytes : ByteArray) (i : Nat) (front : List UInt8) :
    ByteArray.toList.loop bytes i front = front.reverse ++ bytes.data.toList.drop i := by
  rw [ByteArray.toList.loop]
  split
  · next hi =>
    have hsize : i < bytes.data.toList.length := by simpa using hi
    have hget : bytes.get! i = bytes.data.toList[i] := by
      simp [ByteArray.get!, hi]
    rw [toList_loop_eq bytes (i + 1), List.drop_eq_getElem_cons hsize, hget]
    simp
  · next hi =>
    have hsize : bytes.data.toList.length ≤ i := by
      have := Nat.le_of_not_lt hi
      simpa using this
    rw [List.drop_eq_nil_of_le hsize, List.append_nil]
termination_by bytes.size - i

theorem toList_eq (bytes : ByteArray) : bytes.toList = bytes.data.toList := by
  rw [ByteArray.toList, toList_loop_eq]
  simp

theorem encode_eq (s : List Char) :
    encode s = s.flatMap fun c => (String.utf8EncodeChar c).map fun b => Char.ofNat b.toNat := by
  have hbytes : (String.ofList s).toUTF8.data.toList = s.flatMap String.utf8EncodeChar := by
    rw [String.toUTF8, String.toByteArray_ofList, List.utf8Encode, List.toList_data_toByteArray]
  rw [encode, ofBytes, toList_eq, hbytes, List.map_flatMap]

@[simp] theorem encode_nil : encode [] = [] := by
  rw [encode_eq, List.flatMap_nil]

theorem encode_append (s t : List Char) : encode (s ++ t) = encode s ++ encode t := by
  rw [encode_eq, encode_eq, encode_eq, List.flatMap_append]

theorem encode_cons (c : Char) (s : List Char) : encode (c :: s) = encode [c] ++ encode s :=
  encode_append [c] s

theorem encode_toUTF8 (s : String) : ofBytes s.toUTF8 = encode s.toList := by
  rw [encode, String.ofList_toList]

theorem encode_ascii {c : Char} (h : c.toNat < 128) : encode [c] = [c] := by
  have hc : c.val.toNat ≤ 127 := Nat.le_of_lt_succ h
  rw [encode_eq, List.flatMap_singleton, String.utf8EncodeChar]
  simp only [hc, if_true, List.map_cons, List.map_nil]
  have hmod : (UInt8.ofNat c.val.toNat).toNat = c.toNat := by
    rw [UInt8.toNat_ofNat']
    exact Nat.mod_eq_of_lt (Nat.lt_of_le_of_lt hc (by decide))
  rw [hmod, Char.ofNat_toNat]

theorem encode_of_ascii : ∀ {s : List Char}, (∀ c ∈ s, c.toNat < 128) → encode s = s
  | [], _ => encode_nil
  | c :: s, h => by
    rw [encode_cons, encode_ascii (h c List.mem_cons_self),
      encode_of_ascii fun d hd => h d (List.mem_cons_of_mem c hd)]
    rfl

theorem encode_of_all_ascii {s : List Char} (h : s.all fun c => c.toNat < 128) : encode s = s :=
  encode_of_ascii fun c hc => of_decide_eq_true (List.all_eq_true.mp h c hc)

theorem toNat_ofNat_byte (b : UInt8) : (Char.ofNat b.toNat).toNat = b.toNat := by
  have hb := b.toNat_lt
  rw [Char.ofNat, dif_pos (Or.inl (by omega))]
  rfl

/-- The bytes of a character above U+007F. -/
theorem le_of_mem_encode {c b : Char} (h : ¬ c.toNat < 128) (hb : b ∈ encode [c]) :
    128 ≤ b.toNat := by
  have hc : ¬ c.val.toNat ≤ 127 := fun hle => h (Nat.lt_succ_of_le hle)
  rw [encode_eq, List.flatMap_singleton] at hb
  obtain ⟨byte, hbyte, rfl⟩ := List.mem_map.mp hb
  rw [toNat_ofNat_byte]
  simp only [String.utf8EncodeChar, if_neg hc] at hbyte
  split at hbyte
  · simp only [List.mem_cons, List.not_mem_nil, or_false] at hbyte
    rcases hbyte with rfl | rfl <;> rw [UInt8.toNat_ofNat'] <;> omega
  · split at hbyte
    · simp only [List.mem_cons, List.not_mem_nil, or_false] at hbyte
      rcases hbyte with rfl | rfl | rfl <;> rw [UInt8.toNat_ofNat'] <;> omega
    · simp only [List.mem_cons, List.not_mem_nil, or_false] at hbyte
      rcases hbyte with rfl | rfl | rfl | rfl <;> rw [UInt8.toNat_ofNat'] <;> omega

theorem decode?_encode (s : List Char) : decode? (encode s) = some (String.ofList s) := by
  have hbytes : (encode s).map (fun c => UInt8.ofNat c.toNat) = s.flatMap String.utf8EncodeChar := by
    rw [encode_eq, List.map_flatMap]
    congr 1
    funext c
    rw [List.map_map]
    refine (List.map_congr_left fun b _ => ?_).trans (List.map_id _)
    simp [toNat_ofNat_byte]
  have harray : (⟨((encode s).map fun c => UInt8.ofNat c.toNat).toArray⟩ : ByteArray) =
      (String.ofList s).toUTF8 := by
    rw [hbytes, String.toUTF8, String.toByteArray_ofList, List.utf8Encode]
    apply ByteArray.ext
    rw [← Array.toList_inj, List.toList_data_toByteArray]
  rw [decode?, harray]
  exact dif_pos (String.ofList s).isValidUTF8

theorem encode_injective {s t : List Char} (h : encode s = encode t) : s = t := by
  have hdecode := congrArg decode? h
  rw [decode?_encode, decode?_encode, Option.some.injEq] at hdecode
  exact String.ofList_injective hdecode

theorem length_encode : ∀ s : List Char, (encode s).length = width s
  | [] => by rw [encode_nil]; rfl
  | c :: s => by
    have hc : (encode [c]).length = c.utf8Size := by
      rw [encode_eq, List.flatMap_singleton, List.length_map, String.length_utf8EncodeChar]
    rw [encode_cons, List.length_append, hc, length_encode s, width]

theorem ne_of_high {a b : Char} (ha : a.toNat < 128) (hb : 128 ≤ b.toNat) : b ≠ a := by
  rintro rfl
  omega

/-- Characters below U+0080 stand in front of the bytes of a text where they stand in front of the
text. -/
theorem prefix_encode : ∀ {w s : List Char}, (∀ a ∈ w, a.toNat < 128) → (w <+: encode s ↔ w <+: s)
  | [], _, _ => ⟨fun _ => List.nil_prefix, fun _ => List.nil_prefix⟩
  | a :: w, [], _ => by rw [encode_nil]
  | a :: w, c :: s, h => by
    obtain ⟨ha, hw⟩ := List.forall_mem_cons.mp h
    by_cases hc : c.toNat < 128
    · rw [encode_cons, encode_ascii hc, List.singleton_append, List.cons_prefix_cons,
        List.cons_prefix_cons, prefix_encode hw]
    · refine ⟨fun hpre => ?_, fun hpre => ?_⟩
      · obtain ⟨rest, hrest⟩ := hpre
        have hmem : a ∈ encode [c] := by
          have hpos := c.utf8Size_pos
          have hlength := length_encode [c]
          cases hbytes : encode [c] with
          | nil =>
            rw [hbytes] at hlength
            simp [width] at hlength
            omega
          | cons b bs =>
            rw [encode_cons, hbytes] at hrest
            simp [(List.cons.inj hrest).1]
        have := le_of_mem_encode hc hmem
        omega
      · obtain ⟨rfl, -⟩ := List.cons_prefix_cons.mp hpre
        exact absurd ha hc

end Mend.Text
