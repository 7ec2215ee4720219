import ObjectStore.Bytes

/-
Buffers seen byte by byte, with zeros past the end. Joining, cutting and overwriting are
described by what they do to the byte at a place.
-/
namespace ObjectStore.Bytes

theorem getPadded_of_lt {b : Bytes} {i : Nat} (h : i < b.size) : b.getPadded i = b[i] :=
  dif_pos h

theorem getPadded_past {b : Bytes} {i : Nat} (h : b.size ≤ i) : b.getPadded i = 0 :=
  dif_neg (by omega)

theorem ext_getPadded {a b : Bytes} (size_eq : a.size = b.size)
    (same : ∀ i, i < a.size → a.getPadded i = b.getPadded i) : a = b := by
  apply ByteArray.ext_getElem size_eq
  intro i left right
  have at_i := same i left
  rwa [getPadded_of_lt left, getPadded_of_lt right] at at_i

theorem getPadded_append (a b : Bytes) (i : Nat) :
    (a ++ b).getPadded i = if i < a.size then a.getPadded i else b.getPadded (i - a.size) := by
  by_cases inside : i < (a ++ b).size
  · rw [getPadded_of_lt inside]
    rw [ByteArray.size_append] at inside
    split
    · rename_i left
      rw [ByteArray.getElem_append_left left, getPadded_of_lt left]
    · rename_i right
      rw [ByteArray.getElem_append_right (by omega), getPadded_of_lt (by omega)]
  · rw [getPadded_past (by omega)]
    rw [ByteArray.size_append] at inside
    rw [if_neg (by omega), getPadded_past (by omega)]

theorem getPadded_append_left {a b : Bytes} {i : Nat} (h : i < a.size) :
    (a ++ b).getPadded i = a.getPadded i := by
  rw [getPadded_append, if_pos h]

theorem getPadded_append_right {a b : Bytes} {i : Nat} :
    (a ++ b).getPadded (a.size + i) = b.getPadded i := by
  rw [getPadded_append, if_neg (by omega), Nat.add_sub_cancel_left]

theorem size_extract_of_le {b : Bytes} {start stop : Nat} (h : stop ≤ b.size) :
    (b.extract start stop).size = stop - start := by
  rw [ByteArray.size_extract]
  omega

theorem getPadded_extract {b : Bytes} {start stop i : Nat} (h : start + i < stop) :
    getPadded (b.extract start stop) i = b.getPadded (start + i) := by
  have size_eq : (b.extract start stop).size = min stop b.size - start := ByteArray.size_extract
  by_cases inside : start + i < b.size
  · rw [getPadded_of_lt inside, getPadded_of_lt (by omega), ByteArray.getElem_extract]
  · rw [getPadded_past (by omega), getPadded_past (by omega)]

theorem size_drop (b : Bytes) (offset : Nat) : (b.drop offset).size = b.size - offset := by
  simp [drop]

theorem getPadded_drop (b : Bytes) (offset i : Nat) :
    (b.drop offset).getPadded i = b.getPadded (offset + i) := by
  by_cases inside : offset + i < b.size
  · exact getPadded_extract inside
  · rw [getPadded_past (by rw [size_drop]; omega), getPadded_past (by omega)]

theorem toList_extract {b : Bytes} {offset n : Nat} (fits : offset + n ≤ b.size) :
    (b.extract offset (offset + n)).data.toList
      = (List.range n).map fun i => b.getPadded (offset + i) := by
  have size_eq : (b.extract offset (offset + n)).size = n := by
    rw [size_extract_of_le fits, Nat.add_sub_cancel_left]
  apply List.ext_getElem
  · rw [List.length_map, List.length_range, Array.length_toList]
    exact size_eq
  · intro i left right
    rw [List.length_map, List.length_range] at right
    have cut : getPadded (b.extract offset (offset + n)) i = b.getPadded (offset + i) :=
      getPadded_extract (by omega)
    rw [List.getElem_map, List.getElem_range, ← cut, getPadded_of_lt (by omega)]
    rfl

theorem overwrite_eq (b new : Bytes) (offset : Nat) :
    b.overwrite offset new
      = b.extract 0 offset ++ new ++ b.extract (offset + new.size) b.size := by
  have size_eq : new.data.size = new.size := rfl
  have whole : new.extract 0 new.size = new := ByteArray.extract_zero_size
  simp only [overwrite, ByteArray.copySlice_eq_append, size_eq, Nat.zero_add, Nat.sub_zero,
    Nat.min_self, whole]
  rfl

theorem overwrite_front (b new : Bytes) : b.overwrite 0 new = new ++ b.drop new.size := by
  rw [overwrite_eq]
  simp [drop]

theorem size_overwrite {b new : Bytes} {offset : Nat} (fits : offset + new.size ≤ b.size) :
    (b.overwrite offset new).size = b.size := by
  rw [overwrite_eq, ByteArray.size_append, ByteArray.size_append, size_extract_of_le (by omega),
    size_extract_of_le (by omega)]
  omega

theorem getPadded_overwrite {b new : Bytes} {offset : Nat} (fits : offset + new.size ≤ b.size)
    (i : Nat) : (b.overwrite offset new).getPadded i
      = if offset ≤ i ∧ i < offset + new.size then new.getPadded (i - offset)
        else b.getPadded i := by
  have front : (b.extract 0 offset).size = offset := by rw [size_extract_of_le (by omega)]; omega
  have middle : (b.extract 0 offset ++ new).size = offset + new.size := by
    rw [ByteArray.size_append, front]
  rw [overwrite_eq]
  rcases Nat.lt_or_ge i offset with before | from_offset
  · rw [getPadded_append_left (by omega), getPadded_append_left (by omega),
      getPadded_extract (by omega), if_neg (by omega), Nat.zero_add]
  · rcases Nat.lt_or_ge i (offset + new.size) with inside | behind
    · rw [getPadded_append_left (by omega), getPadded_append, front, if_neg (by omega),
        if_pos ⟨from_offset, inside⟩]
    · rw [getPadded_append, middle, if_neg (by omega), if_neg (by omega)]
      rcases Nat.lt_or_ge i b.size with stored | past
      · rw [getPadded_extract (by omega)]
        congr 1
        omega
      · rw [getPadded_past past, getPadded_past (by rw [size_extract_of_le (by omega)]; omega)]

theorem size_ofList (l : List UInt8) : (ofList l).size = l.length := List.size_toByteArray

theorem getPadded_ofList {l : List UInt8} {i : Nat} (h : i < l.length) :
    (ofList l).getPadded i = l[i] := by
  rw [getPadded_of_lt (by rwa [size_ofList])]
  exact List.getElem_toByteArray

theorem size_zeros (n : Nat) : (zeros n).size = n := by simp [zeros, ByteArray.size]

theorem getPadded_zeros (n i : Nat) : (zeros n).getPadded i = 0 := by
  rcases Nat.lt_or_ge i n with inside | past
  · rw [getPadded_of_lt (by rw [size_zeros]; exact inside)]
    exact Array.getElem_replicate _
  · exact getPadded_past (by rw [size_zeros]; exact past)

theorem rangeError?_of_fits {size offset len : Nat} (fits : offset + len ≤ size)
    (addressable : offset + len < addressLimit) : rangeError? size offset len = none := by
  rw [rangeError?, if_neg (by omega), if_neg (by omega)]

theorem rangeError?_eq_none_iff {size offset len : Nat} :
    rangeError? size offset len = none ↔ offset + len < addressLimit ∧ offset + len ≤ size := by
  constructor
  · intro inside
    refine ⟨Nat.lt_of_not_le fun far => ?_, rangeError?_eq_none inside⟩
    rw [rangeError?, if_pos far] at inside
    cases inside
  · rintro ⟨addressable, fits⟩
    exact rangeError?_of_fits fits addressable

theorem rangeError?_of_short {size offset len : Nat} (short : size < offset + len)
    (addressable : offset + len < addressLimit) :
    rangeError? size offset len = some (.insufficientData len offset (size - offset)) := by
  rw [rangeError?, if_neg (by omega), if_pos short]

end ObjectStore.Bytes
