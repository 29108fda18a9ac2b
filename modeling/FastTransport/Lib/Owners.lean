import Mathlib

/-! Owners: a thing lives while it is held or while an edge from another thing leads to it, and the edges of a
thing go with it. -/

namespace FastTransport.Lib.Owners

variable {κ ε : Type*} (source target : ε → κ) (held : κ → Prop)

def Owned (edges : List ε) (a : κ) : Prop := held a ∨ a ∈ edges.map target

def Settled (edges : List ε) : Prop := ∀ e ∈ edges, Owned target held edges (source e)

lemma Owned.mono {target : ε → κ} {held held' : κ → Prop} {edges edges' : List ε}
    (hh : ∀ a, held a → held' a) (he : edges ⊆ edges') {a : κ} (h : Owned target held edges a) :
    Owned target held' edges' a := by
  cases h with
  | inl h => exact Or.inl (hh a h)
  | inr h => exact Or.inr (List.map_subset target he h)

variable [DecidableEq κ] [DecidablePred held]

instance (edges : List ε) : DecidablePred (Owned target held edges) :=
  fun _ => inferInstanceAs (Decidable (_ ∨ _))

def sweep (edges : List ε) : List ε := edges.filter fun e => Owned target held edges (source e)

def collect (edges : List ε) : List ε := (sweep source target held)^[edges.length] edges

variable {source target held}

lemma Settled.sweep {edges : List ε} (h : Settled source target held edges) :
    sweep source target held edges = edges := by
  apply List.filter_eq_self.mpr
  intro e he
  exact decide_eq_true (h e he)

lemma Settled.collect {edges : List ε} (h : Settled source target held edges) :
    collect source target held edges = edges :=
  Function.iterate_fixed h.sweep _

lemma settled_iterate (n : ℕ) {edges : List ε} (h : edges.length ≤ n) :
    Settled source target held ((sweep source target held)^[n] edges) := by
  induction n generalizing edges with
  | zero =>
    obtain rfl := List.length_eq_zero_iff.mp (Nat.le_zero.mp h)
    exact fun e he => absurd he List.not_mem_nil
  | succ n ih =>
    rw [Function.iterate_succ_apply]
    by_cases hs : Settled source target held edges
    · have hfixed : (Owners.sweep source target held)^[n] edges = edges := Function.iterate_fixed hs.sweep n
      rw [hs.sweep, hfixed]
      exact hs
    · apply ih
      rw [Settled] at hs
      push Not at hs
      obtain ⟨e, he, hdead⟩ := hs
      have hlt : (Owners.sweep source target held edges).length < edges.length :=
        List.length_filter_lt_length_iff_exists.mpr ⟨e, he, by simpa using hdead⟩
      omega

lemma settled_collect (edges : List ε) : Settled source target held (collect source target held edges) :=
  settled_iterate edges.length le_rfl

lemma iterate_sublist (n : ℕ) (edges : List ε) : ((sweep source target held)^[n] edges).Sublist edges := by
  induction n generalizing edges with
  | zero => exact List.Sublist.refl edges
  | succ n ih =>
    rw [Function.iterate_succ_apply]
    exact (ih _).trans List.filter_sublist

lemma collect_sublist (edges : List ε) : (collect source target held edges).Sublist edges :=
  iterate_sublist edges.length edges

lemma mem_collect {P : κ → Prop} {edges : List ε}
    (hP : ∀ e ∈ edges, P (source e) → held (source e) ∨ ∃ e' ∈ edges, target e' = source e ∧ P (source e'))
    {e : ε} (he : e ∈ edges) (hs : P (source e)) : e ∈ collect source target held edges := by
  have hkeeps : ∀ n, ∀ e ∈ edges, P (source e) → e ∈ (sweep source target held)^[n] edges := by
    intro n
    induction n with
    | zero => exact fun e he _ => he
    | succ n ih =>
      intro e he hs
      rw [Function.iterate_succ_apply']
      apply List.mem_filter.mpr
      refine ⟨ih e he hs, decide_eq_true ?_⟩
      rcases hP e he hs with h | ⟨e', he', ht, hs'⟩
      · exact Or.inl h
      · exact Or.inr (List.mem_map.mpr ⟨e', ih e' he' hs', ht⟩)
  exact hkeeps edges.length e he hs

end FastTransport.Lib.Owners
