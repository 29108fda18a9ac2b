import Mathlib

/-! Lists kept in order of recency: what a bounded cache holds that gives up its least recent elements when it
is full. A history has the latest request first. -/

namespace FastTransport.Lib.Recency

variable {κ : Type*} [DecidableEq κ]

/-- Every element has been requested, and those before it in the list were requested after it. -/
structure Ordered (history l : List κ) : Prop where
  requested : ∀ a ∈ l, a ∈ history
  pairwise : l.Pairwise fun a b => history.idxOf a < history.idxOf b

def request (capacity dropped : ℕ) (l : List κ) (a : κ) : List κ :=
  if a ∈ l then a :: l.erase a
  else if capacity ≤ l.length then a :: l.take (l.length - dropped)
  else a :: l

variable {history l : List κ} {capacity dropped : ℕ}

lemma Ordered.nil : Ordered (history : List κ) [] := ⟨fun _ ha => absurd ha List.not_mem_nil, List.Pairwise.nil⟩

lemma Ordered.nodup (h : Ordered history l) : l.Nodup :=
  h.pairwise.imp fun hlt heq => hlt.ne (congrArg history.idxOf heq)

lemma Ordered.sublist (h : Ordered history l) {l' : List κ} (hs : l'.Sublist l) : Ordered history l' :=
  ⟨fun a ha => h.requested a (hs.subset ha), h.pairwise.sublist hs⟩

lemma Ordered.cons (h : Ordered history l) {a : κ} (ha : a ∉ l) : Ordered (a :: history) (a :: l) := by
  have hne : ∀ b ∈ l, a ≠ b := fun b hb heq => ha (heq ▸ hb)
  refine ⟨fun b hb => ?_, List.pairwise_cons.mpr ⟨fun b hb => ?_, ?_⟩⟩
  · rcases List.mem_cons.mp hb with rfl | hb
    · exact List.mem_cons_self
    · exact List.mem_cons_of_mem a (h.requested b hb)
  · rw [List.idxOf_cons_self, List.idxOf_cons_ne history (hne b hb)]
    exact Nat.succ_pos _
  · refine h.pairwise.imp_of_mem fun hb hc hlt => ?_
    rw [List.idxOf_cons_ne history (hne _ hb), List.idxOf_cons_ne history (hne _ hc)]
    exact Nat.succ_lt_succ hlt

lemma Ordered.request (h : Ordered history l) (capacity dropped : ℕ) (a : κ) :
    Ordered (a :: history) (request capacity dropped l a) := by
  rw [Recency.request]
  split_ifs with ha hfull
  · exact (h.sublist List.erase_sublist).cons h.nodup.not_mem_erase
  · exact (h.sublist (List.take_sublist _ _)).cons fun hm => ha (List.mem_of_mem_take hm)
  · exact h.cons ha

lemma head?_request (capacity dropped : ℕ) (l : List κ) (a : κ) : (request capacity dropped l a).head? = some a := by
  rw [request]
  split_ifs <;> rfl

lemma length_request_le (hl : l.length ≤ capacity) (hd : 0 < dropped) (hc : 0 < capacity) (a : κ) :
    (request capacity dropped l a).length ≤ capacity := by
  rw [request]
  split_ifs with ha hfull
  · have hlen := List.length_erase_of_mem ha
    have hpos := List.length_pos_of_mem ha
    rw [List.length_cons]
    omega
  · rw [List.length_cons, List.length_take]
    omega
  · rw [List.length_cons]
    omega

lemma Ordered.lt_of_cut (h : Ordered history l) (n : ℕ) {a b : κ} (ha : a ∈ l.take n) (hb : b ∈ l.drop n) :
    history.idxOf a < history.idxOf b := by
  have hp := h.pairwise
  rw [← List.take_append_drop n l] at hp
  exact (List.pairwise_append.mp hp).2.2 a ha b hb

end FastTransport.Lib.Recency
