import Mathlib

/-! Walks down a forest that is given by its edges: what hangs below the root is visited once, and nothing else. -/

namespace FastTransport.Lib.ForestWalk

variable {κ ε : Type*} [DecidableEq κ] (source target : ε → κ) (edges : List ε)

def next (a : κ) : List κ := (edges.filter fun e => source e = a).map target

def Reach : κ → κ → Prop := Relation.ReflTransGen fun a b => b ∈ next source target edges a

/-- What is found last is visited first. -/
def walk : ℕ → List κ → List κ
  | 0, _ => []
  | _ + 1, [] => []
  | fuel + 1, a :: queue => a :: walk fuel ((next source target edges a).reverse ++ queue)

def ahead (visited : List κ) : List ε := edges.filter fun e => source e ∉ visited

variable {source target edges}

lemma ahead_perm {visited : List κ} {a : κ} (ha : a ∉ visited) :
    (ahead source edges visited).Perm
      ((edges.filter fun e => source e = a) ++ ahead source edges (visited ++ [a])) := by
  have hout : (ahead source edges visited).filter (fun e => source e = a) = edges.filter fun e => source e = a := by
    rw [ahead, List.filter_filter]
    apply List.filter_congr
    intro e _
    rw [← Bool.decide_and, decide_eq_decide]
    exact ⟨And.left, fun he => ⟨he, he ▸ ha⟩⟩
  have hrest : (ahead source edges visited).filter (fun e => !decide (source e = a)) =
      ahead source edges (visited ++ [a]) := by
    rw [ahead, ahead, List.filter_filter]
    apply List.filter_congr
    intro e _
    simp only [List.mem_append, List.mem_singleton, not_or, Bool.decide_and, decide_not, Bool.and_comm]
  have hperm := List.filter_append_perm (fun e => decide (source e = a)) (ahead source edges visited)
  rw [hout, hrest] at hperm
  exact hperm.symm

lemma walk_spec {fuel : ℕ} {visited queue : List κ}
    (hnodup : (visited ++ (queue ++ (ahead source edges visited).map target)).Nodup)
    (hfuel : queue.length + (ahead source edges visited).length ≤ fuel) :
    (visited ++ walk source target edges fuel queue).Nodup ∧
      (∀ a ∈ queue, a ∈ walk source target edges fuel queue) ∧
      (∀ a ∈ walk source target edges fuel queue, ∀ b ∈ next source target edges a,
        b ∈ walk source target edges fuel queue) ∧
      ∀ a ∈ walk source target edges fuel queue, ∃ r ∈ queue, Reach source target edges r a := by
  induction fuel generalizing visited queue with
  | zero =>
    obtain rfl : queue = [] := List.eq_nil_of_length_eq_zero (by omega)
    rw [walk, List.append_nil]
    refine ⟨(List.nodup_append'.mp hnodup).1, fun _ ha => ha, ?_, ?_⟩
    · exact fun _ ha => absurd ha List.not_mem_nil
    · exact fun _ ha => absurd ha List.not_mem_nil
  | succ fuel ih =>
    cases queue with
    | nil =>
      rw [walk, List.append_nil]
      refine ⟨(List.nodup_append'.mp hnodup).1, fun _ ha => ha, ?_, ?_⟩
      · exact fun _ ha => absurd ha List.not_mem_nil
      · exact fun _ ha => absurd ha List.not_mem_nil
    | cons a queue =>
      have ha : a ∉ visited := by
        intro hm
        exact List.disjoint_of_nodup_append hnodup hm (List.mem_append_left _ List.mem_cons_self)
      have hperm : (ahead source edges visited).Perm
          ((edges.filter fun e => source e = a) ++ ahead source edges (visited ++ [a])) := ahead_perm ha
      have hnext : ((next source target edges a).reverse ++ queue).length =
          (edges.filter fun e => source e = a).length + queue.length := by
        rw [List.length_append, List.length_reverse, next, List.length_map]
      have hlength := hperm.length_eq
      rw [List.length_append] at hlength
      rw [List.length_cons] at hfuel
      have hmoved : (visited ++ (a :: queue ++ (ahead source edges visited).map target)).Perm
          (visited ++ [a] ++ ((next source target edges a).reverse ++ queue ++
            (ahead source edges (visited ++ [a])).map target)) := by
        rw [List.append_assoc]
        apply List.Perm.append_left
        rw [List.cons_append, List.singleton_append]
        apply List.Perm.cons
        apply (((hperm.map target).trans (by rw [List.map_append])).append_left queue).trans
        rw [← List.append_assoc]
        apply List.Perm.append_right
        exact List.perm_append_comm.trans ((List.reverse_perm _).symm.append_right queue)
      obtain ⟨hnodup', hqueue, hclosed, hreach⟩ := ih (hmoved.nodup_iff.mp hnodup) (by omega)
      rw [walk]
      refine ⟨?_, ?_, ?_, ?_⟩
      · rwa [List.append_assoc, List.singleton_append] at hnodup'
      · intro b hb
        rcases List.mem_cons.mp hb with rfl | hb
        · exact List.mem_cons_self
        · exact List.mem_cons_of_mem _ (hqueue b (List.mem_append_right _ hb))
      · intro b hb c hc
        apply List.mem_cons_of_mem
        rcases List.mem_cons.mp hb with rfl | hb
        · exact hqueue c (List.mem_append_left _ (List.mem_reverse.mpr hc))
        · exact hclosed b hb c hc
      · intro b hb
        rcases List.mem_cons.mp hb with rfl | hb
        · exact ⟨b, List.mem_cons_self, .refl⟩
        · obtain ⟨r, hr, hrb⟩ := hreach b hb
          rcases List.mem_append.mp hr with hr | hr
          · exact ⟨a, List.mem_cons_self, hrb.head (List.mem_reverse.mp hr)⟩
          · exact ⟨r, List.mem_cons_of_mem _ hr, hrb⟩

theorem walk_root {root : κ} (h : (root :: edges.map target).Nodup) :
    (walk source target edges (edges.length + 1) [root]).Nodup ∧
      ∀ a, a ∈ walk source target edges (edges.length + 1) [root] ↔ Reach source target edges root a := by
  have hahead : ahead source edges [] = edges := by
    apply List.filter_eq_self.mpr
    intro e _
    exact decide_eq_true List.not_mem_nil
  have hnodup : ([] ++ ([root] ++ (ahead source edges []).map target)).Nodup := by
    rw [hahead]
    exact h
  have hfuel : [root].length + (ahead source edges []).length ≤ edges.length + 1 := by
    rw [hahead, List.length_singleton, Nat.add_comm]
  obtain ⟨hwalk, hqueue, hclosed, hreach⟩ := walk_spec hnodup hfuel
  refine ⟨hwalk, fun a => ⟨fun ha => ?_, fun ha => ?_⟩⟩
  · obtain ⟨r, hr, hra⟩ := hreach a ha
    rwa [List.mem_singleton.mp hr] at hra
  · induction ha with
    | refl => exact hqueue root List.mem_cons_self
    | tail _ hb ih => exact hclosed _ ih _ hb

end FastTransport.Lib.ForestWalk
