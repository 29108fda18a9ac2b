import Mathlib.Data.List.Dedup
import FastTransport.Lib.Bytes

/-! Lists cut into pieces of one length, and lists sorted by a key, each key's elements in their order. -/

namespace FastTransport.Lib.Chunks

open Lib.Bytes

variable {α β : Type*}

def chunks (size : ℕ) (xs : List α) : List (List α) :=
  (List.range ((xs.length + size - 1) / size)).map fun i => slice xs (i * size) size

lemma flatten_chunks {size : ℕ} (hsize : 0 < size) (xs : List α) : (chunks size xs).flatten = xs := by
  rw [chunks, ← List.flatMap_def, flatMap_slices]
  apply slice_of_length_le
  have h := Nat.div_add_mod (xs.length + size - 1) size
  have hmod := Nat.mod_lt (xs.length + size - 1) hsize
  rw [Nat.mul_comm] at h
  omega

lemma chunks_append {size : ℕ} (hsize : 0 < size) {xs : List α} (hxs : xs.length = size) (ys : List α) :
    chunks size (xs ++ ys) = xs :: chunks size ys := by
  have hcount : ((xs ++ ys).length + size - 1) / size = (ys.length + size - 1) / size + 1 := by
    rw [List.length_append, hxs, show size + ys.length + size - 1 = ys.length + size - 1 + size by omega,
      Nat.add_div_right _ hsize]
  rw [chunks, hcount, List.range_succ_eq_map, List.map_cons, List.map_map]
  congr 1
  · rw [slice, Nat.zero_mul, List.drop_zero, List.take_left' hxs]
  · refine List.map_congr_left fun i _ => ?_
    rw [Function.comp_apply, slice, slice, Nat.succ_mul, Nat.add_comm, ← hxs, List.drop_length_add_append]

lemma chunks_flatten {size : ℕ} (hsize : 0 < size) {xss : List (List α)} (h : ∀ xs ∈ xss, xs.length = size) :
    chunks size xss.flatten = xss := by
  induction xss with
  | nil => rw [List.flatten_nil, chunks, List.length_nil, Nat.zero_add, Nat.div_eq_of_lt (by omega)]; rfl
  | cons xs xss ih =>
    obtain ⟨hxs, hrest⟩ := List.forall_mem_cons.mp h
    rw [List.flatten_cons, chunks_append hsize hxs, ih hrest]

lemma length_flatten {size : ℕ} {xss : List (List α)} (h : ∀ xs ∈ xss, xs.length = size) :
    xss.flatten.length = xss.length * size := by
  induction xss with
  | nil => rw [List.flatten_nil, List.length_nil, List.length_nil, Nat.zero_mul]
  | cons xs xss ih =>
    obtain ⟨hxs, hrest⟩ := List.forall_mem_cons.mp h
    rw [List.flatten_cons, List.length_append, ih hrest, hxs, List.length_cons, Nat.succ_mul, Nat.add_comm]

lemma mem_of_mem_chunks {size : ℕ} (hsize : 0 < size) {xs ys : List α} (hys : ys ∈ chunks size xs) {y : α}
    (hy : y ∈ ys) : y ∈ xs := by
  rw [← flatten_chunks hsize xs]
  exact List.mem_flatten.mpr ⟨ys, hys, hy⟩

variable [DecidableEq β]

def byKey (key : α → β) (keys : List β) (xs : List α) : List α :=
  keys.flatMap fun k => xs.filter fun x => key x = k

variable {key : α → β} {keys : List β} {xs : List α}

lemma byKey_perm (hkeys : keys.Nodup) (h : ∀ x ∈ xs, key x ∈ keys) : (byKey key keys xs).Perm xs := by
  induction keys generalizing xs with
  | nil =>
    rw [List.eq_nil_iff_forall_not_mem.mpr fun x hx => List.not_mem_nil (h x hx)]
    exact List.Perm.refl _
  | cons k keys ih =>
    obtain ⟨hk, hkeys⟩ := List.nodup_cons.mp hkeys
    -- The other keys find their elements among those that do not have `k`.
    have hrest : (keys.flatMap fun k' => xs.filter fun x => key x = k') =
        byKey key keys (xs.filter fun x => ¬ key x = k) := by
      refine List.flatMap_congr fun k' hk' => ?_
      rw [List.filter_filter]
      refine List.filter_congr fun x _ => ?_
      by_cases hx : key x = k'
      · have hne : ¬ key x = k := fun hxk => hk (hxk ▸ hx ▸ hk')
        simp [hx, show ¬ k' = k from hx ▸ hne]
      · simp [hx]
    rw [byKey, List.flatMap_cons, hrest]
    have hothers : ∀ x ∈ xs.filter fun x => ¬ key x = k, key x ∈ keys := fun x hx => by
      obtain ⟨hx, hne⟩ := List.mem_filter.mp hx
      exact (List.mem_cons.mp (h x hx)).resolve_left (of_decide_eq_true hne)
    refine ((ih hkeys hothers).append_left _).trans ?_
    simpa only [decide_not] using List.filter_append_perm (fun x => decide (key x = k)) xs

lemma filter_byKey_eq (hkeys : keys.Nodup) (k : β) : (byKey key keys xs).filter (fun x => key x = k) =
    if k ∈ keys then xs.filter fun x => key x = k else [] := by
  induction keys with
  | nil => rfl
  | cons k' keys ih =>
    obtain ⟨hk, hkeys⟩ := List.nodup_cons.mp hkeys
    have hcons : byKey key (k' :: keys) xs = (xs.filter fun x => key x = k') ++ byKey key keys xs := List.flatMap_cons
    rw [hcons, List.filter_append, ih hkeys, List.filter_filter]
    by_cases h : k = k'
    · subst h
      rw [if_neg hk, if_pos List.mem_cons_self, List.append_nil]
      simp only [Bool.and_self]
    · have hnone : (xs.filter fun x => decide (key x = k) && decide (key x = k')) = [] := by
        refine List.filter_eq_nil_iff.mpr fun x _ hx => h ?_
        obtain ⟨hx, hx'⟩ := Bool.and_eq_true_iff.mp hx
        exact (of_decide_eq_true hx).symm.trans (of_decide_eq_true hx')
      rw [hnone, List.nil_append]
      simp only [List.mem_cons, h, false_or]

lemma filter_byKey (hkeys : keys.Nodup) (h : ∀ x ∈ xs, key x ∈ keys) (k : β) :
    (byKey key keys xs).filter (fun x => key x = k) = xs.filter fun x => key x = k := by
  rw [filter_byKey_eq hkeys]
  split
  · rfl
  · rename_i hk
    exact (List.filter_eq_nil_iff.mpr fun x hx hxk => hk ((of_decide_eq_true hxk : key x = k) ▸ h x hx)).symm

end FastTransport.Lib.Chunks
