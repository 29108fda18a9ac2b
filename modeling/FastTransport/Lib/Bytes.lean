import Mathlib

/-! Byte strings: fixed-width little-endian numbers, slices and overwriting in place. -/

namespace FastTransport.Lib.Bytes

def toBytes : ℕ → ℕ → List UInt8
  | 0, _ => []
  | width + 1, n => UInt8.ofNat n :: toBytes width (n / 256)

def ofBytes : List UInt8 → ℕ
  | [] => 0
  | b :: bs => b.toNat + 256 * ofBytes bs

@[simp] lemma toBytes_length (width n : ℕ) : (toBytes width n).length = width := by
  induction width generalizing n with
  | zero => rfl
  | succ width ih => rw [toBytes, List.length_cons, ih]

lemma ofBytes_toBytes (width n : ℕ) : ofBytes (toBytes width n) = n % 256 ^ width := by
  induction width generalizing n with
  | zero => simp [toBytes, ofBytes, Nat.mod_one]
  | succ width ih =>
    have hb : (UInt8.ofNat n).toNat = n % 256 := UInt8.toNat_ofNat'
    rw [toBytes, ofBytes, ih, hb, Nat.pow_succ', Nat.mod_mul]

lemma ofBytes_toBytes_of_lt {width n : ℕ} (h : n < 256 ^ width) : ofBytes (toBytes width n) = n := by
  rw [ofBytes_toBytes, Nat.mod_eq_of_lt h]

variable {α : Type*}

def slice (xs : List α) (offset size : ℕ) : List α := (xs.drop offset).take size

def overwrite (xs : List α) (offset : ℕ) (ys : List α) : List α :=
  xs.take offset ++ ys ++ xs.drop (offset + ys.length)

@[simp] lemma overwrite_nil (xs : List α) (offset : ℕ) : overwrite xs offset [] = xs := by
  simp [overwrite]

lemma overwrite_length {xs ys : List α} {offset : ℕ} (h : offset + ys.length ≤ xs.length) :
    (overwrite xs offset ys).length = xs.length := by
  simp only [overwrite, List.length_append, List.length_take, List.length_drop]
  omega

lemma overwrite_ne_nil {xs : List α} (h : xs ≠ []) (offset : ℕ) (ys : List α) : overwrite xs offset ys ≠ [] := by
  have hpos := List.length_pos_of_ne_nil h
  apply List.ne_nil_of_length_pos
  simp only [overwrite, List.length_append, List.length_take, List.length_drop]
  omega

lemma slice_length {xs : List α} {offset size : ℕ} (h : offset + size ≤ xs.length) :
    (slice xs offset size).length = size := by
  simp only [slice, List.length_take, List.length_drop]
  omega

lemma getElem?_overwrite {xs ys : List α} {offset : ℕ} (h : offset + ys.length ≤ xs.length) (i : ℕ) :
    (overwrite xs offset ys)[i]? =
      if offset ≤ i ∧ i < offset + ys.length then ys[i - offset]? else xs[i]? := by
  have ht : (xs.take offset).length = offset := by
    rw [List.length_take, Nat.min_eq_left (by omega)]
  rw [overwrite, List.append_assoc, List.getElem?_append, ht]
  split_ifs with h1 h2 h2
  · omega
  · rw [List.getElem?_take, if_pos h1]
  · rw [List.getElem?_append_left (by omega)]
  · rw [List.getElem?_append_right (by omega), List.getElem?_drop]
    congr 1
    omega

lemma getElem?_slice (xs : List α) (offset size i : ℕ) :
    (slice xs offset size)[i]? = if i < size then xs[offset + i]? else none := by
  rw [slice, List.getElem?_take, List.getElem?_drop]

lemma slice_overwrite_self {xs ys : List α} {offset : ℕ} (h : offset + ys.length ≤ xs.length) :
    slice (overwrite xs offset ys) offset ys.length = ys := by
  apply List.ext_getElem?
  intro i
  rw [getElem?_slice, getElem?_overwrite h]
  split_ifs with h1 h2
  · rw [Nat.add_sub_cancel_left]
  · omega
  · rw [List.getElem?_eq_none (by omega)]

lemma slice_overwrite_disjoint {xs ys : List α} {offset start size : ℕ}
    (h : offset + ys.length ≤ xs.length) (hd : start + size ≤ offset ∨ offset + ys.length ≤ start) :
    slice (overwrite xs offset ys) start size = slice xs start size := by
  apply List.ext_getElem?
  intro i
  rw [getElem?_slice, getElem?_slice, getElem?_overwrite h]
  split_ifs with h1 h2
  · omega
  · rfl
  · rfl

lemma overwrite_append {xs ys : List α} (zs : List α) {offset : ℕ} (h : offset + ys.length ≤ xs.length) :
    overwrite (overwrite xs offset ys) (offset + ys.length) zs = overwrite xs offset (ys ++ zs) := by
  have ht : (xs.take offset).length = offset := by
    rw [List.length_take, Nat.min_eq_left (by omega)]
  have hl : (xs.take offset ++ ys).length = offset + ys.length := by
    rw [List.length_append, ht]
  rw [overwrite, overwrite, overwrite, List.take_left' hl, ← hl, ← List.drop_drop, List.drop_left,
    List.drop_drop, hl]
  simp only [List.append_assoc, List.length_append, Nat.add_assoc]

lemma slice_append (xs : List α) (offset size size' : ℕ) :
    slice xs offset (size + size') = slice xs offset size ++ slice xs (offset + size) size' := by
  rw [slice, slice, slice, List.take_add, List.drop_drop]

lemma slice_of_length_le {xs : List α} {size : ℕ} (h : xs.length ≤ size) : slice xs 0 size = xs := by
  rw [slice, List.drop_zero, List.take_of_length_le h]

lemma flatMap_slices (xs : List α) (size k : ℕ) :
    (List.range k).flatMap (fun i => slice xs (i * size) size) = slice xs 0 (k * size) := by
  induction k with
  | zero => simp [slice]
  | succ k ih =>
    rw [List.range_succ, List.flatMap_append, ih, List.flatMap_singleton, Nat.succ_mul, slice_append, Nat.zero_add]

lemma slice_slice (xs : List α) (offset size start n : ℕ) :
    slice (slice xs offset size) start n = slice xs (offset + start) (min n (size - start)) := by
  apply List.ext_getElem?
  intro i
  rw [getElem?_slice, getElem?_slice, getElem?_slice, Nat.add_assoc]
  split_ifs with h1 h2 h3 h3 <;> first | rfl | omega

lemma slice_length_eq (xs : List α) (offset size : ℕ) :
    (slice xs offset size).length = min size (xs.length - offset) := by
  rw [slice, List.length_take, List.length_drop]

lemma slice_eq_min (xs : List α) (offset size : ℕ) :
    slice xs offset size = slice xs offset (min size (xs.length - offset)) := by
  rw [slice, slice, ← List.length_drop, ← List.take_eq_take_min]

/-- `pwrite` to a file that grows as needed, holes read as zero. -/
def writeAt (file : List UInt8) (offset : ℕ) (bytes : List UInt8) : List UInt8 :=
  file.take offset ++ List.replicate (offset - file.length) 0 ++ bytes ++ file.drop (offset + bytes.length)

lemma getElem?_writeAt (file bytes : List UInt8) (offset i : ℕ) :
    (writeAt file offset bytes)[i]? =
      if i < offset then (if i < file.length then file[i]? else some 0)
      else if i < offset + bytes.length then bytes[i - offset]? else file[i]? := by
  have hl : (file.take offset ++ List.replicate (offset - file.length) 0).length = offset := by
    rw [List.length_append, List.length_take, List.length_replicate]
    omega
  rw [writeAt, List.append_assoc, List.getElem?_append, hl]
  split_ifs with h1 h2 h2
  · rw [List.getElem?_append_left (by rw [List.length_take]; omega), List.getElem?_take, if_pos h1]
  · rw [List.getElem?_append_right (by rw [List.length_take]; omega), List.getElem?_replicate,
      List.length_take, if_pos (by omega)]
  · rw [List.getElem?_append_left (by omega)]
  · rw [List.getElem?_append_right (by omega), List.getElem?_drop]
    congr 1
    omega

def AgreeOn (file bytes : List UInt8) (offset size : ℕ) : Prop :=
  ∀ i, offset ≤ i → i < offset + size → i < bytes.length → file[i]? = bytes[i]?

lemma AgreeOn.slice_eq {file bytes : List UInt8} {offset size : ℕ} (h : AgreeOn file bytes offset size)
    (hs : offset + size ≤ bytes.length) : slice file offset size = slice bytes offset size := by
  apply List.ext_getElem?
  intro i
  rw [getElem?_slice, getElem?_slice]
  split_ifs with hi
  · exact h (offset + i) (by omega) (by omega) (by omega)
  · rfl

lemma AgreeOn.mono {file bytes : List UInt8} {offset size start n : ℕ} (h : AgreeOn file bytes offset size)
    (h1 : offset ≤ start) (h2 : start + n ≤ offset + size) : AgreeOn file bytes start n :=
  fun i hi hn hl => h i (by omega) (by omega) hl

lemma AgreeOn.append {file bytes : List UInt8} {offset size n : ℕ} (h : AgreeOn file bytes offset size)
    (h' : AgreeOn file bytes (offset + size) n) : AgreeOn file bytes offset (size + n) := by
  intro i hi hn hl
  by_cases hs : i < offset + size
  · exact h i hi hs hl
  · exact h' i (by omega) (by omega) hl

lemma AgreeOn.writeAt {file bytes data : List UInt8} {offset size start : ℕ} (h : AgreeOn file bytes offset size)
    (hd : ∀ i, i < data.length → start + i < bytes.length → data[i]? = bytes[start + i]?) :
    AgreeOn (writeAt file start data) bytes offset size := by
  intro i hi hn hl
  have hf := h i hi hn hl
  rw [getElem?_writeAt]
  split_ifs with h1 h2 h2
  · exact hf
  · rw [List.getElem?_eq_none (by omega), List.getElem?_eq_getElem hl] at hf
    cases hf
  · rw [hd (i - start) (by omega) (by omega), Nat.add_sub_cancel' (by omega)]
  · exact hf

lemma agreeOn_writeAt_self {bytes data : List UInt8} (file : List UInt8) {start size : ℕ}
    (hd : ∀ i, i < data.length → start + i < bytes.length → data[i]? = bytes[start + i]?)
    (hs : min size (bytes.length - start) ≤ data.length) :
    AgreeOn (writeAt file start data) bytes start size := by
  intro i hi hn hl
  rw [getElem?_writeAt, if_neg (by omega), if_pos (by omega), hd (i - start) (by omega) (by omega),
    Nat.add_sub_cancel' (by omega)]

end FastTransport.Lib.Bytes
