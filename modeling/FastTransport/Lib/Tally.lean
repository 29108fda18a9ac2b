import Mathlib

/-! Tables of counters: an association list in which a key that is not there counts zero. -/

namespace FastTransport.Lib.Tally

variable {κ : Type*} [DecidableEq κ]

def tally (t : List (κ × ℤ)) (k : κ) : ℤ := (t.lookup k).getD 0

def add (t : List (κ × ℤ)) (k : κ) (n : ℤ) : List (κ × ℤ) :=
  match t.lookup k with
  | some _ => t.map fun e => if e.1 = k then (e.1, e.2 + n) else e
  | none => t ++ [(k, n)]

def take (t : List (κ × ℤ)) (k : κ) (n : ℤ) : List (κ × ℤ) :=
  (t.map fun e => if e.1 = k then (e.1, e.2 - n) else e).filter fun e => !(e.1 = k && e.2 = 0)

def total (t : List (κ × ℤ)) : ℤ := (t.map Prod.snd).sum

def KeysNodup (t : List (κ × ℤ)) : Prop := (t.map Prod.fst).Nodup

lemma map_fst_update (t : List (κ × ℤ)) (k : κ) (f : ℤ → ℤ) :
    (t.map fun e => if e.1 = k then (e.1, f e.2) else e).map Prod.fst = t.map Prod.fst := by
  rw [List.map_map]
  refine List.map_congr_left fun e _ => ?_
  simp only [Function.comp_apply]
  split_ifs <;> rfl

lemma lookup_update (t : List (κ × ℤ)) (k : κ) (f : ℤ → ℤ) (j : κ) :
    (t.map fun e => if e.1 = k then (e.1, f e.2) else e).lookup j =
      if j = k then (t.lookup j).map f else t.lookup j := by
  induction t with
  | nil => simp
  | cons e t ih =>
    obtain ⟨i, n⟩ := e
    by_cases hj : j = i
    · subst hj
      by_cases hk : j = k <;> simp [hk]
    · have hb : (j == i) = false := beq_false_of_ne hj
      by_cases hi : i = k <;> simp only [List.map_cons, hi, if_true, if_false, List.lookup_cons] at *
      · rw [hb, ih]
      · rw [hb, ih]

lemma lookup_isSome {t : List (κ × ℤ)} {k : κ} : (t.lookup k).isSome = true ↔ k ∈ t.map Prod.fst := by
  induction t with
  | nil => simp
  | cons e t ih =>
    rw [List.lookup_cons, List.map_cons, List.mem_cons, ← ih]
    by_cases hk : k = e.1
    · simp [hk]
    · rw [beq_false_of_ne hk]
      simp [hk]

lemma tally_of_notMem {t : List (κ × ℤ)} {k : κ} (h : k ∉ t.map Prod.fst) : tally t k = 0 := by
  rw [← lookup_isSome, Bool.not_eq_true, Option.isSome_eq_false_iff, Option.isNone_iff_eq_none] at h
  rw [tally, h]
  rfl

lemma add_of_mem {t : List (κ × ℤ)} {k : κ} (h : k ∈ t.map Prod.fst) (n : ℤ) :
    add t k n = t.map fun e => if e.1 = k then (e.1, e.2 + n) else e := by
  obtain ⟨m, hm⟩ := Option.isSome_iff_exists.mp (lookup_isSome.mpr h)
  rw [add, hm]

lemma add_of_notMem {t : List (κ × ℤ)} {k : κ} (h : k ∉ t.map Prod.fst) (n : ℤ) : add t k n = t ++ [(k, n)] := by
  rw [← lookup_isSome, Bool.not_eq_true, Option.isSome_eq_false_iff, Option.isNone_iff_eq_none] at h
  rw [add, h]

lemma tally_add (t : List (κ × ℤ)) (k : κ) (n : ℤ) (j : κ) :
    tally (add t k n) j = tally t j + if j = k then n else 0 := by
  by_cases hk : k ∈ t.map Prod.fst
  · obtain ⟨m, hm⟩ := Option.isSome_iff_exists.mp (lookup_isSome.mpr hk)
    rw [add_of_mem hk, tally, tally, lookup_update t k (· + n)]
    split_ifs with hj
    · rw [hj, hm]
      rfl
    · rw [add_zero]
  · rw [add_of_notMem hk, tally, tally, List.lookup_append]
    by_cases hj : j = k
    · have hl := tally_of_notMem hk
      have hn : t.lookup k = none := by
        rwa [← lookup_isSome, Bool.not_eq_true, Option.isSome_eq_false_iff, Option.isNone_iff_eq_none] at hk
      simp [hj, hn]
    · simp [hj, List.lookup_cons, beq_false_of_ne hj]

lemma KeysNodup.add {t : List (κ × ℤ)} (h : KeysNodup t) (k : κ) (n : ℤ) : KeysNodup (add t k n) := by
  by_cases hk : k ∈ t.map Prod.fst
  · rw [KeysNodup, add_of_mem hk, map_fst_update t k (· + n)]
    exact h
  · rw [KeysNodup, add_of_notMem hk, List.map_append, List.map_cons, List.map_nil]
    refine List.nodup_append.mpr ⟨h, List.nodup_singleton k, fun a ha b hb hab => ?_⟩
    have hak : a = k := hab.trans (List.mem_singleton.mp hb)
    exact hk (hak ▸ ha)

lemma KeysNodup.take {t : List (κ × ℤ)} (h : KeysNodup t) (k : κ) (n : ℤ) : KeysNodup (take t k n) := by
  refine List.Nodup.sublist (List.filter_sublist.map _) ?_
  rw [map_fst_update t k (· - n)]
  exact h

lemma tally_append (l₁ l₂ : List (κ × ℤ)) (k : κ) (h : k ∉ l₁.map Prod.fst) :
    tally (l₁ ++ l₂) k = tally l₂ k := by
  rw [← lookup_isSome, Bool.not_eq_true, Option.isSome_eq_false_iff, Option.isNone_iff_eq_none] at h
  rw [tally, tally, List.lookup_append, h, Option.none_or]

lemma tally_of_mem {t : List (κ × ℤ)} (h : KeysNodup t) {k : κ} {n : ℤ} (hm : (k, n) ∈ t) : tally t k = n := by
  obtain ⟨l₁, l₂, rfl⟩ := List.append_of_mem hm
  rw [KeysNodup, List.map_append, List.map_cons] at h
  have hn : k ∉ l₁.map Prod.fst := fun hk => List.disjoint_of_nodup_append h hk List.mem_cons_self
  rw [tally_append _ _ _ hn, tally, List.lookup_cons_self]
  rfl

lemma update_of_notMem {t : List (κ × ℤ)} {k : κ} (h : k ∉ t.map Prod.fst) (f : ℤ → ℤ) :
    (t.map fun e => if e.1 = k then (e.1, f e.2) else e) = t := by
  refine (List.map_congr_left fun e he => if_neg fun hk => h ?_).trans (List.map_id t)
  rw [← hk]
  exact List.mem_map_of_mem he

lemma take_of_notMem {t : List (κ × ℤ)} {k : κ} (h : k ∉ t.map Prod.fst) (n : ℤ) : take t k n = t := by
  rw [take, update_of_notMem h (· - n), List.filter_eq_self]
  intro e he
  have hk : e.1 ≠ k := fun hk => h (hk ▸ List.mem_map_of_mem he)
  simp [hk]

lemma take_eq {t : List (κ × ℤ)} (h : KeysNodup t) {k : κ} (hk : k ∈ t.map Prod.fst) (n : ℤ) :
    ∃ l₁ m l₂, t = l₁ ++ (k, m) :: l₂ ∧ k ∉ l₁.map Prod.fst ∧ k ∉ l₂.map Prod.fst ∧
      take t k n = l₁ ++ ((if m - n = 0 then [] else [(k, m - n)]) ++ l₂) := by
  obtain ⟨⟨k', m⟩, hm, rfl⟩ := List.mem_map.mp hk
  obtain ⟨l₁, l₂, rfl⟩ := List.append_of_mem hm
  rw [KeysNodup, List.map_append, List.map_cons] at h
  have h₁ : k' ∉ l₁.map Prod.fst := fun hk => List.disjoint_of_nodup_append h hk List.mem_cons_self
  have h₂ : k' ∉ l₂.map Prod.fst := (List.nodup_cons.mp (List.nodup_append.mp h).2.1).1
  refine ⟨l₁, m, l₂, rfl, h₁, h₂, ?_⟩
  have happend : take (l₁ ++ (k', m) :: l₂) k' n = take l₁ k' n ++ (take [(k', m)] k' n ++ take l₂ k' n) := by
    simp only [take, ← List.filter_append, ← List.map_append]
    rfl
  rw [happend, take_of_notMem h₁, take_of_notMem h₂]
  congr 2
  simp only [take, List.map_cons, List.map_nil, if_true, List.filter_cons, List.filter_nil]
  by_cases hz : m - n = 0 <;> simp [hz]

lemma tally_take {t : List (κ × ℤ)} (h : KeysNodup t) {k : κ} (hk : k ∈ t.map Prod.fst) (n : ℤ) (j : κ) :
    tally (take t k n) j = tally t j - if j = k then n else 0 := by
  obtain ⟨l₁, m, l₂, rfl, h₁, h₂, htake⟩ := take_eq h hk n
  rw [htake]
  by_cases hj : j = k
  · subst hj
    rw [tally_append _ _ _ h₁, tally_append _ _ _ h₁, if_pos rfl]
    have hm : tally ((j, m) :: l₂) j = m := by
      rw [tally, List.lookup_cons_self]
      rfl
    rw [hm]
    split_ifs with hz
    · rw [List.nil_append, tally_of_notMem h₂, hz]
    · rw [List.singleton_append, tally, List.lookup_cons_self]
      rfl
  · have hskip : ∀ l : List (κ × ℤ), (∀ e ∈ l, e.1 = k) → tally (l₁ ++ (l ++ l₂)) j = tally (l₁ ++ l₂) j := by
      intro l hl
      have hn : l.lookup j = none := by
        refine List.lookup_eq_none_iff.mpr fun e he => ?_
        rw [hl e he]
        simpa using hj
      rw [tally, tally, List.lookup_append, List.lookup_append, List.lookup_append, hn, Option.none_or]
    rw [if_neg hj, sub_zero, hskip, ← List.singleton_append, hskip]
    · simp
    · intro e he
      split_ifs at he
      · exact absurd he List.not_mem_nil
      · rw [List.mem_singleton.mp he]

lemma total_add {t : List (κ × ℤ)} (h : KeysNodup t) (k : κ) (n : ℤ) : total (add t k n) = total t + n := by
  by_cases hk : k ∈ t.map Prod.fst
  · obtain ⟨l₁, m, l₂, rfl, h₁, h₂, -⟩ := take_eq h hk n
    rw [add_of_mem hk, total, total, List.map_append, update_of_notMem h₁ (· + n), List.map_cons,
      update_of_notMem h₂ (· + n)]
    simp only [if_true, List.map_append, List.map_cons, List.sum_append, List.sum_cons]
    ring
  · simp [add_of_notMem hk, total]

lemma total_take {t : List (κ × ℤ)} (h : KeysNodup t) {k : κ} (hk : k ∈ t.map Prod.fst) (n : ℤ) :
    total (take t k n) = total t - n := by
  obtain ⟨l₁, m, l₂, rfl, h₁, h₂, htake⟩ := take_eq h hk n
  rw [htake, total, total]
  split_ifs with hz
  · simp only [List.nil_append, List.map_append, List.map_cons, List.sum_append, List.sum_cons]
    omega
  · simp only [List.singleton_append, List.map_append, List.map_cons, List.sum_append, List.sum_cons]
    ring

lemma total_eq_finsum {t : List (κ × ℤ)} (h : KeysNodup t) : total t = ∑ᶠ k, tally t k := by
  have hsupport : Function.support (tally t) ⊆ (t.map Prod.fst).toFinset := by
    intro k hk
    by_contra hn
    exact hk (tally_of_notMem fun hm => hn (by simpa using hm))
  rw [finsum_eq_sum_of_support_subset _ hsupport, List.sum_toFinset _ h, List.map_map, total]
  exact congrArg List.sum (List.map_congr_left fun e he => (tally_of_mem h he).symm)

end FastTransport.Lib.Tally
