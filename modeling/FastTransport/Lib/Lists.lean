import Mathlib

/-! Facts about lists cut at a position, and about rearrangements of them. -/

namespace FastTransport.Lib.Lists

variable {α : Type*}

@[simp] lemma eraseIdx_length (xs ys : List α) (a : α) :
    (xs ++ a :: ys).eraseIdx xs.length = xs ++ ys := by
  rw [List.eraseIdx_append_of_length_le le_rfl]
  simp

@[simp] lemma drop_take_middle (xs ys zs : List α) :
    ((xs ++ (ys ++ zs)).take (xs.length + ys.length)).drop xs.length = ys := by
  rw [← List.append_assoc, ← List.length_append, List.take_left, List.drop_left]

@[simp] lemma drop_length_add_append (xs ys : List α) (k : ℕ) :
    (xs ++ ys).drop (xs.length + k) = ys.drop k := by
  rw [← List.drop_drop, List.drop_left]

lemma cut_append {l xs : List α} (ys zs : List α) {i j : ℕ} (h : l = xs ++ (ys ++ zs)) (hi : i = xs.length)
    (hj : j = xs.length + ys.length) :
    (l.drop i).take (j - i) = ys ∧ l.take i ++ l.drop j = xs ++ zs := by
  subst h hi hj
  simp

lemma modify_middle (xs ys : List α) (a : α) (f : α → α) :
    (xs ++ a :: ys).modify xs.length f = xs ++ f a :: ys := by
  rw [List.modify_eq_take_cons_drop (by simp)]
  simp

lemma take_modify (l : List α) (f : α → α) {i k : ℕ} (h : k ≤ i) : (l.modify i f).take k = l.take k := by
  refine List.ext_getElem? fun j => ?_
  rw [List.getElem?_take, List.getElem?_take]
  split_ifs with hj
  · have hne : i ≠ j := by omega
    simp [hne]
  · rfl

lemma map_modify_eq {β : Type*} {g : α → β} {f : α → α} {l : List α} {i : ℕ}
    (h : ∀ a, l[i]? = some a → g (f a) = g a) : (l.modify i f).map g = l.map g := by
  induction l generalizing i with
  | nil => rw [List.modify_nil]
  | cons b l ih =>
    cases i with
    | zero => rw [List.modify_zero_cons, List.map_cons, List.map_cons, h b rfl]
    | succ i => rw [List.modify_succ_cons, List.map_cons, List.map_cons, ih h]

lemma prefix_or_eq_or_prefix {l xs ys xs' ys' : List α} {a a' : α} (h : l = xs ++ a :: ys)
    (h' : l = xs' ++ a' :: ys') :
    (∃ zs, xs' = xs ++ a :: zs) ∨ (xs = xs' ∧ a = a' ∧ ys = ys') ∨ ∃ zs, xs = xs' ++ a' :: zs := by
  subst h
  rcases List.append_eq_append_iff.mp h' with ⟨zs, hx, hz⟩ | ⟨zs, hx, hz⟩
  · cases zs with
    | nil =>
      simp only [List.append_nil, List.nil_append, List.cons.injEq] at hx hz
      exact Or.inr (Or.inl ⟨hx.symm, hz⟩)
    | cons b zs =>
      simp only [List.cons_append, List.cons.injEq] at hz
      exact Or.inl ⟨zs, by rw [hx, hz.1]⟩
  · cases zs with
    | nil =>
      simp only [List.append_nil, List.nil_append, List.cons.injEq] at hx hz
      exact Or.inr (Or.inl ⟨hx, hz.1.symm, hz.2.symm⟩)
    | cons b zs =>
      simp only [List.cons_append, List.cons.injEq] at hz
      exact Or.inr (Or.inr ⟨zs, by rw [hx, hz.1]⟩)

lemma append_middle_perm (a b u v : List α) : (a ++ u ++ (b ++ v)).Perm (a ++ b ++ (u ++ v)) := by
  rw [List.append_assoc, List.append_assoc, ← List.append_assoc u, ← List.append_assoc b]
  exact (List.perm_append_comm.append_right v).append_left a

lemma filter_perm (l : List α) {p q : α → Bool} (h : ∀ a ∈ l, q a = !p a) :
    (l.filter p ++ l.filter q).Perm l := by
  rw [List.filter_congr h]
  exact List.filter_append_perm p l

lemma find?_eraseP {l : List α} {p : α → Bool} {a : α} (h : l.find? p = some a) :
    ∃ xs ys, l = xs ++ a :: ys ∧ l.eraseP p = xs ++ ys := by
  obtain ⟨ha, xs, ys, rfl, hx⟩ := List.find?_eq_some_iff_append.mp h
  have hn : ∀ b ∈ xs, ¬ p b = true := fun b hb => by simpa using hx b hb
  refine ⟨xs, ys, rfl, ?_⟩
  rw [List.eraseP_append_right _ hn, List.eraseP_cons_of_pos ha]

lemma getElem?_eraseIdx {l : List α} {i : ℕ} {a : α} (h : l[i]? = some a) :
    ∃ xs ys, l = xs ++ a :: ys ∧ l.eraseIdx i = xs ++ ys := by
  obtain ⟨hi, rfl⟩ := List.getElem?_eq_some_iff.mp h
  refine ⟨l.take i, l.drop (i + 1), ?_, List.eraseIdx_eq_take_drop_succ l i⟩
  rw [List.getElem_cons_drop, List.take_append_drop]

lemma getElem?_set {l : List α} {i : ℕ} {a : α} (h : l[i]? = some a) :
    ∃ xs ys, l = xs ++ a :: ys ∧ ∀ b, l.set i b = xs ++ b :: ys := by
  obtain ⟨hi, rfl⟩ := List.getElem?_eq_some_iff.mp h
  refine ⟨l.take i, l.drop (i + 1), ?_, fun b => ?_⟩
  · rw [List.getElem_cons_drop, List.take_append_drop]
  · rw [List.set_eq_take_append_cons_drop, if_pos hi]

lemma append_middle {xs ys zs ws : List α} (h : (xs ++ zs).Perm (ys ++ ws)) (l : List α) :
    (xs ++ (l ++ zs)).Perm (ys ++ (l ++ ws)) := by
  refine List.perm_append_comm_assoc xs l zs |>.trans ?_
  exact (h.append_left l).trans (List.perm_append_comm_assoc l ys ws)

lemma filterMap_update_perm {ι : Type*} [DecidableEq ι] {l : List ι} (hl : l.Nodup) {f : ι → Option α} {i : ι}
    (hi : i ∈ l) (hf : f i = none) (a : α) :
    (a :: l.filterMap f).Perm (l.filterMap (Function.update f i (some a))) := by
  induction l with
  | nil => cases hi
  | cons j l ih =>
    rw [List.nodup_cons] at hl
    by_cases hj : j = i
    · subst hj
      have hrest : l.filterMap (Function.update f j (some a)) = l.filterMap f :=
        List.filterMap_congr fun k hk => Function.update_of_ne (fun (h : k = j) => hl.1 (h ▸ hk)) _ _
      rw [List.filterMap_cons_none hf, List.filterMap_cons_some (Function.update_self j (some a) f), hrest]
    · have hrec := ih hl.2 ((List.mem_cons.mp hi).resolve_left (Ne.symm hj))
      rw [List.filterMap_cons, List.filterMap_cons, Function.update_of_ne hj]
      cases f j with
      | none => exact hrec
      | some b => exact (List.Perm.swap b a _).trans (hrec.cons b)

lemma flatMap_update_perm {ι : Type*} [DecidableEq ι] {l : List ι} (hl : l.Nodup) (f : ι → List α) {i : ι}
    (hi : i ∈ l) (xs : List α) :
    (f i ++ l.flatMap (Function.update f i xs)).Perm (xs ++ l.flatMap f) := by
  induction l with
  | nil => cases hi
  | cons j l ih =>
    rw [List.nodup_cons] at hl
    rw [List.flatMap_cons, List.flatMap_cons]
    by_cases hj : j = i
    · subst hj
      have hrest : l.flatMap (Function.update f j xs) = l.flatMap f :=
        List.flatMap_congr fun k hk => Function.update_of_ne (fun (h : k = j) => hl.1 (h ▸ hk)) _ _
      rw [hrest, Function.update_self, ← List.append_assoc, ← List.append_assoc]
      exact List.perm_append_comm.append_right _
    · have hrec := ih hl.2 ((List.mem_cons.mp hi).resolve_left (Ne.symm hj))
      rw [Function.update_of_ne hj]
      exact append_middle hrec (f j)

lemma flatMap_update_append_perm {ι : Type*} [DecidableEq ι] {l : List ι} (hl : l.Nodup) {f : ι → List α} {i : ι}
    (hi : i ∈ l) {xs ys : List α} (h : xs.Perm (ys ++ f i)) :
    (l.flatMap (Function.update f i xs)).Perm (ys ++ l.flatMap f) := by
  apply (List.perm_append_left_iff (f i)).mp
  apply (flatMap_update_perm hl f hi xs).trans
  rw [← List.append_assoc]
  exact (h.trans List.perm_append_comm).append_right _

lemma flatMap_perm_append_update {ι : Type*} [DecidableEq ι] {l : List ι} (hl : l.Nodup) {f : ι → List α} {i : ι}
    (hi : i ∈ l) {xs ys : List α} (h : (f i).Perm (ys ++ xs)) :
    (l.flatMap f).Perm (ys ++ l.flatMap (Function.update f i xs)) := by
  have hf : Function.update (Function.update f i xs) i (f i) = f := by
    rw [Function.update_idem, Function.update_eq_self]
  have hperm : (f i).Perm (ys ++ Function.update f i xs i) := by rwa [Function.update_self]
  have hflat := flatMap_update_append_perm hl hi hperm
  rwa [hf] at hflat

lemma flatMap_set_perm {β : Type*} (f : β → List α) {l : List β} {i : ℕ} {b : β} (h : l[i]? = some b) (c : β) :
    (f b ++ (l.set i c).flatMap f).Perm (f c ++ l.flatMap f) := by
  induction l generalizing i with
  | nil => cases h
  | cons d l ih =>
    cases i with
    | zero =>
      cases h
      rw [List.set_cons_zero, List.flatMap_cons, List.flatMap_cons, ← List.append_assoc, ← List.append_assoc]
      exact List.perm_append_comm.append_right _
    | succ i =>
      rw [List.set_cons_succ, List.flatMap_cons, List.flatMap_cons]
      exact append_middle (ih h) (f d)

lemma eq_of_mem_flatMap {β : Type*} {l : List α} {f : α → List β} (h : (l.flatMap f).Nodup) {a b : α} (ha : a ∈ l)
    (hb : b ∈ l) {x : β} (hx : x ∈ f a) (hx' : x ∈ f b) : a = b := by
  have : Std.Symm (Function.onFun List.Disjoint f) := ⟨fun _ _ hd => List.Disjoint.symm hd⟩
  by_contra hne
  exact (List.nodup_flatMap.mp h).2.forall ha hb hne hx hx'

lemma exists_of_forall₂ {β : Type*} {R : α → β → Prop} {l : List α} {l' : List β} (h : List.Forall₂ R l l') {b : β}
    (hb : b ∈ l') : ∃ a ∈ l, R a b := by
  induction h with
  | nil => cases hb
  | cons hab _ ih =>
    rcases List.mem_cons.mp hb with rfl | hb
    · exact ⟨_, List.mem_cons_self, hab⟩
    · obtain ⟨a, ha, hR⟩ := ih hb
      exact ⟨a, List.mem_cons_of_mem _ ha, hR⟩

lemma forall₂_eraseIdx {β : Type*} {R : α → β → Prop} {l : List α} {l' : List β} (h : List.Forall₂ R l l') (i : ℕ) :
    List.Forall₂ R (l.eraseIdx i) (l'.eraseIdx i) := by
  induction h generalizing i with
  | nil => exact .nil
  | cons hr hl ih =>
    cases i with
    | zero => exact hl
    | succ i => exact .cons hr (ih i)

lemma forall₂_getElem? {β : Type*} {R : α → β → Prop} {l : List α} {l' : List β} (h : List.Forall₂ R l l') {i : ℕ}
    {a : α} {b : β} (ha : l[i]? = some a) (hb : l'[i]? = some b) : R a b :=
  (List.forall₂_iff_zip.mp h).2 (List.mem_of_getElem? (List.getElem?_zip_eq_some.mpr ⟨ha, hb⟩))

lemma mem_of_lookup_eq_some {κ β : Type*} [BEq κ] [LawfulBEq κ] {l : List (κ × β)} {k : κ} {b : β}
    (h : l.lookup k = some b) : (k, b) ∈ l := by
  obtain ⟨l₁, l₂, rfl, -⟩ := List.lookup_eq_some_iff.mp h
  exact List.mem_append_right l₁ List.mem_cons_self

lemma lookup_eq_some_iff_mem {κ β : Type*} [BEq κ] [LawfulBEq κ] {l : List (κ × β)} (hl : (l.map Prod.fst).Nodup) {k : κ}
    {b : β} : l.lookup k = some b ↔ (k, b) ∈ l := by
  refine ⟨mem_of_lookup_eq_some, fun h => ?_⟩
  obtain ⟨l₁, l₂, rfl⟩ := List.append_of_mem h
  refine List.lookup_eq_some_iff.mpr ⟨l₁, l₂, rfl, fun e he => bne_iff_ne.mpr fun heq => ?_⟩
  rw [List.map_append, List.map_cons] at hl
  exact List.disjoint_of_nodup_append hl (List.mem_map_of_mem he) (heq ▸ List.mem_cons_self)

lemma filter_eq_singleton {l : List α} (hl : l.Nodup) {a : α} (ha : a ∈ l) {p : α → Bool}
    (hp : ∀ b ∈ l, p b = true ↔ b = a) : l.filter p = [a] := by
  classical
  have heq : l.filter p = l.filter (· = a) := by
    apply List.filter_congr
    intro b hb
    rw [Bool.eq_iff_iff, hp b hb, decide_eq_true_eq]
  rw [heq, List.filter_eq, List.count_eq_one_of_mem hl ha, List.replicate_one]

lemma coe_filterMap_cons {β : Type*} (f : α → Option β) (a : α) (l : List α) :
    ((a :: l).filterMap f : Multiset β) = ((f a).toList : Multiset β) + (l.filterMap f : Multiset β) := by
  cases h : f a with
  | none =>
    rw [List.filterMap_cons_none h]
    exact (zero_add _).symm
  | some b =>
    rw [List.filterMap_cons_some h]
    exact (Multiset.coe_add [b] _).symm

lemma coe_filterMap_concat {β : Type*} (f : α → Option β) (l : List α) (a : α) :
    ((l ++ [a]).filterMap f : Multiset β) = ((f a).toList : Multiset β) + (l.filterMap f : Multiset β) := by
  rw [← coe_filterMap_cons]
  exact Multiset.coe_eq_coe.mpr ((List.perm_append_singleton a l).filterMap f)

end FastTransport.Lib.Lists
