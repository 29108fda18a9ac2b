import Mathlib

/-! Shared pointers: an object lives while its use count is positive, and the pointers among its members are let go
when it goes. -/

namespace FastTransport.Lib.SharedPtr

variable {κ : Type*} [DecidableEq κ]

structure Heap (κ : Type*) where
  live : List κ
  useCount : κ → ℕ

namespace Heap

def allocate (h : Heap κ) (a : κ) : Heap κ := ⟨h.live ++ [a], Function.update h.useCount a 1⟩

def copy (h : Heap κ) (a : κ) : Heap κ := { h with useCount := Function.update h.useCount a (h.useCount a + 1) }

/-- Pointers are let go one after another. With the last pointer to an object it goes, and its own are next. -/
def releaseLoop (refs : κ → List κ) : ℕ → Heap κ → List κ → Heap κ
  | 0, h, _ => h
  | _ + 1, h, [] => h
  | fuel + 1, h, a :: pending =>
    if h.useCount a ≤ 1 then releaseLoop refs fuel { h with live := h.live.erase a } (refs a ++ pending)
    else releaseLoop refs fuel { h with useCount := Function.update h.useCount a (h.useCount a - 1) } pending

/-- There are no more pointers to let go than these. -/
def release (h : Heap κ) (refs : κ → List κ) (pending : List κ) : Heap κ :=
  releaseLoop refs (pending.length + (h.live.flatMap refs).length) h pending

lemma release_nil (h : Heap κ) (refs : κ → List κ) : h.release refs [] = h := by
  rw [release]
  cases [].length + (h.live.flatMap refs).length <;> rfl

end Heap

def pointers (refs : κ → List κ) (held live : List κ) : List κ := held ++ live.flatMap refs

structure Counted (refs : κ → List κ) (held : List κ) (h : Heap κ) : Prop where
  nodup : h.live.Nodup
  live_iff : ∀ a, a ∈ h.live ↔ a ∈ pointers refs held h.live
  counts : ∀ a ∈ h.live, h.useCount a = (pointers refs held h.live).count a

namespace Counted

variable {refs refs' : κ → List κ} {held held' pending : List κ} {h : Heap κ} {a : κ}

omit [DecidableEq κ] in
lemma mem_pointers {live : List κ} : a ∈ pointers refs held live ↔ a ∈ held ∨ ∃ p ∈ live, a ∈ refs p := by
  rw [pointers, List.mem_append, List.mem_flatMap]

lemma live_of_held (hc : Counted refs held h) (ha : a ∈ held) : a ∈ h.live :=
  (hc.live_iff a).mpr (List.mem_append_left _ ha)

lemma live_of_refs (hc : Counted refs held h) {p : κ} (hp : p ∈ h.live) (ha : a ∈ refs p) : a ∈ h.live :=
  (hc.live_iff a).mpr (mem_pointers.mpr (Or.inr ⟨p, hp, ha⟩))

lemma moved (hc : Counted refs held h) (hp : (pointers refs held h.live).Perm (pointers refs' held' h.live)) :
    Counted refs' held' h where
  nodup := hc.nodup
  live_iff a := (hc.live_iff a).trans hp.mem_iff
  counts a ha := (hc.counts a ha).trans (hp.count_eq a)

lemma allocate (hc : Counted refs held h) (ha : a ∉ h.live) (hnil : refs' a = [])
    (hrefs : ∀ p ∈ h.live, refs' p = refs p) : Counted refs' (a :: held) (h.allocate a) := by
  have hpointers : pointers refs' (a :: held) (h.live ++ [a]) = a :: pointers refs held h.live := by
    rw [pointers, pointers, List.flatMap_append, List.flatMap_singleton, hnil, List.append_nil,
      List.flatMap_congr hrefs, List.cons_append]
  constructor
  case nodup => exact List.nodup_append'.mpr ⟨hc.nodup, List.nodup_singleton a, List.disjoint_singleton.mpr ha⟩
  case live_iff =>
    intro b
    change b ∈ h.live ++ [a] ↔ b ∈ pointers refs' (a :: held) (h.live ++ [a])
    rw [hpointers, List.mem_append, List.mem_singleton, hc.live_iff, List.mem_cons, or_comm]
  case counts =>
    intro b hb
    change Function.update h.useCount a 1 b = (pointers refs' (a :: held) (h.live ++ [a])).count b
    rw [hpointers]
    by_cases hba : b = a
    · rw [hba, Function.update_self, List.count_cons_self, List.count_eq_zero.mpr ((hc.live_iff a).not.mp ha)]
    · have hb : b ∈ h.live := (List.mem_append.mp hb).resolve_right fun hm => hba (List.mem_singleton.mp hm)
      rw [Function.update_of_ne hba, List.count_cons_of_ne (Ne.symm hba), hc.counts b hb]

lemma copy (hc : Counted refs held h) (ha : a ∈ h.live) : Counted refs (a :: held) (h.copy a) := by
  constructor
  case nodup => exact hc.nodup
  case live_iff =>
    intro b
    change b ∈ h.live ↔ b ∈ a :: pointers refs held h.live
    rw [List.mem_cons, ← hc.live_iff]
    exact ⟨Or.inr, fun hb => hb.elim (fun heq => heq ▸ ha) id⟩
  case counts =>
    intro b hb
    change Function.update h.useCount a (h.useCount a + 1) b = (a :: pointers refs held h.live).count b
    by_cases hba : b = a
    · rw [hba, Function.update_self, List.count_cons_self, hc.counts a ha]
    · rw [Function.update_of_ne hba, List.count_cons_of_ne (Ne.symm hba), hc.counts b hb]

lemma destroy (hc : Counted refs (a :: held) h) (hcount : h.useCount a ≤ 1) :
    Counted refs (refs a ++ held) { h with live := h.live.erase a } ∧ a ∉ pointers refs held h.live := by
  have ha : a ∈ h.live := hc.live_of_held List.mem_cons_self
  have hcounts : h.useCount a = (a :: pointers refs held h.live).count a := hc.counts a ha
  have hnot : a ∉ pointers refs held h.live := by
    intro hm
    rw [List.count_cons_self] at hcounts
    have hpos := List.count_pos_iff.mpr hm
    omega
  have hperm : (pointers refs held h.live).Perm (pointers refs (refs a ++ held) (h.live.erase a)) := by
    have hlive := (List.perm_cons_erase ha).flatMap_right refs
    rw [List.flatMap_cons] at hlive
    apply (hlive.append_left held).trans
    rw [pointers, ← List.append_assoc]
    exact List.perm_append_comm.append_right _
  refine ⟨?_, hnot⟩
  constructor
  case nodup => exact hc.nodup.erase a
  case live_iff =>
    intro b
    rw [hc.nodup.mem_erase_iff, hc.live_iff, ← hperm.mem_iff]
    change b ≠ a ∧ b ∈ a :: pointers refs held h.live ↔ _
    rw [List.mem_cons]
    constructor
    · rintro ⟨hne, hb⟩
      exact hb.resolve_left hne
    · intro hb
      exact ⟨fun heq => hnot (heq ▸ hb), Or.inr hb⟩
  case counts =>
    intro b hb
    obtain ⟨hne, hb⟩ := hc.nodup.mem_erase_iff.mp hb
    rw [← hperm.count_eq]
    exact (hc.counts b hb).trans (List.count_cons_of_ne (Ne.symm hne))

lemma decrement (hc : Counted refs (a :: held) h) (hcount : ¬ h.useCount a ≤ 1) :
    Counted refs held { h with useCount := Function.update h.useCount a (h.useCount a - 1) } := by
  have ha : a ∈ h.live := hc.live_of_held List.mem_cons_self
  have hcounts : h.useCount a = (pointers refs held h.live).count a + 1 :=
    (hc.counts a ha).trans List.count_cons_self
  have hmem : a ∈ pointers refs held h.live := by
    rw [← List.count_pos_iff]
    omega
  constructor
  case nodup => exact hc.nodup
  case live_iff =>
    intro b
    apply (hc.live_iff b).trans
    change b ∈ a :: pointers refs held h.live ↔ _
    rw [List.mem_cons]
    exact ⟨fun hb => hb.elim (fun heq => heq ▸ hmem) id, Or.inr⟩
  case counts =>
    intro b hb
    change Function.update h.useCount a (h.useCount a - 1) b = _
    by_cases hba : b = a
    · rw [hba, Function.update_self, hcounts, Nat.add_sub_cancel]
    · rw [Function.update_of_ne hba]
      exact (hc.counts b hb).trans (List.count_cons_of_ne (Ne.symm hba))

lemma releaseLoop {fuel : ℕ} (hc : Counted refs (pending ++ held) h)
    (hfuel : pending.length + (h.live.flatMap refs).length ≤ fuel) :
    Counted refs held (Heap.releaseLoop refs fuel h pending) ∧
      (Heap.releaseLoop refs fuel h pending).live.Sublist h.live ∧
      ∀ b ∈ h.live, b ∉ (Heap.releaseLoop refs fuel h pending).live → b ∉ refs b := by
  induction fuel generalizing h pending with
  | zero =>
    obtain rfl : pending = [] := List.eq_nil_of_length_eq_zero (by omega)
    exact ⟨hc, List.Sublist.refl _, fun b hb hn => absurd hb hn⟩
  | succ fuel ih =>
    cases pending with
    | nil => exact ⟨hc, List.Sublist.refl _, fun b hb hn => absurd hb hn⟩
    | cons a pending =>
      rw [List.length_cons] at hfuel
      rw [Heap.releaseLoop]
      replace hc : Counted refs (a :: (pending ++ held)) h := hc
      split_ifs with hcount
      · obtain ⟨hc', hnot⟩ := hc.destroy hcount
        have ha : a ∈ h.live := hc.live_of_held List.mem_cons_self
        have hlength := ((List.perm_cons_erase ha).flatMap_right refs).length_eq
        rw [List.flatMap_cons, List.length_append] at hlength
        rw [← List.append_assoc] at hc'
        obtain ⟨hcounted, hsub, hgone⟩ := ih hc' (by rw [List.length_append]; dsimp only; omega)
        refine ⟨hcounted, hsub.trans List.erase_sublist, fun b hb hn => ?_⟩
        by_cases hba : b = a
        · rw [hba]
          exact fun hm => hnot (mem_pointers.mpr (Or.inr ⟨a, ha, hm⟩))
        · exact hgone b (hc.nodup.mem_erase_iff.mpr ⟨hba, hb⟩) hn
      · exact ih (hc.decrement hcount) (by dsimp only; omega)

/-- When all pointers have been let go, the counts are right again. No object goes that has a pointer to itself. -/
theorem release (hc : Counted refs (pending ++ held) h) :
    Counted refs held (h.release refs pending) ∧ (h.release refs pending).live.Sublist h.live ∧
      ∀ b ∈ h.live, b ∉ (h.release refs pending).live → b ∉ refs b :=
  hc.releaseLoop le_rfl

end Counted

end FastTransport.Lib.SharedPtr
