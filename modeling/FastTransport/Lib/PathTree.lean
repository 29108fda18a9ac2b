import FastTransport.Lib.Lists

/-! Finite trees, given by the paths of their nodes and an identity for each. -/

namespace FastTransport.Lib

structure PathTree (α ι : Type*) where
  nodes : List (List α × ι)
  pathsNodup : (nodes.map Prod.fst).Nodup
  idsNodup : (nodes.map Prod.snd).Nodup
  root : [] ∈ nodes.map Prod.fst
  closed : ∀ p a, p ++ [a] ∈ nodes.map Prod.fst → p ∈ nodes.map Prod.fst

namespace PathTree

variable {α ι : Type*}

def single (i : ι) : PathTree α ι where
  nodes := [([], i)]
  pathsNodup := List.nodup_singleton _
  idsNodup := List.nodup_singleton _
  root := List.mem_singleton_self _
  closed p a h := absurd (List.mem_singleton.mp h) (List.concat_ne_nil a p)

def paths (t : PathTree α ι) : List (List α) := t.nodes.map Prod.fst

def ids (t : PathTree α ι) : List ι := t.nodes.map Prod.snd

lemma mem_paths_above {t : PathTree α ι} {p q : List α} (h : p <+: q) (hq : q ∈ t.paths) : p ∈ t.paths := by
  obtain ⟨r, rfl⟩ := h
  induction r using List.reverseRecOn with
  | nil => rwa [List.append_nil] at hq
  | append_singleton r a ih =>
    rw [← List.append_assoc] at hq
    exact ih (t.closed _ _ hq)

lemma mem_paths_of_mem {t : PathTree α ι} {p : List α} {i : ι} (h : (p, i) ∈ t.nodes) : p ∈ t.paths :=
  List.mem_map_of_mem h

lemma exists_mem {t : PathTree α ι} {p : List α} (h : p ∈ t.paths) : ∃ i, (p, i) ∈ t.nodes := by
  obtain ⟨⟨q, i⟩, hm, rfl⟩ := List.mem_map.mp h
  exact ⟨i, hm⟩

lemma id_unique {t : PathTree α ι} {p : List α} {i j : ι} (hi : (p, i) ∈ t.nodes) (hj : (p, j) ∈ t.nodes) : i = j :=
  congrArg Prod.snd (List.inj_on_of_nodup_map t.pathsNodup hi hj rfl)

lemma path_unique {t : PathTree α ι} {p q : List α} {i : ι} (hp : (p, i) ∈ t.nodes) (hq : (q, i) ∈ t.nodes) : p = q :=
  congrArg Prod.fst (List.inj_on_of_nodup_map t.idsNodup hp hq rfl)

variable [DecidableEq α]

def find (t : PathTree α ι) (p : List α) : Option ι := t.nodes.lookup p

def children (t : PathTree α ι) (p : List α) : List (List α) := t.paths.filter fun q => q ≠ [] ∧ q.dropLast = p

lemma find_eq_some {t : PathTree α ι} {p : List α} {i : ι} : t.find p = some i ↔ (p, i) ∈ t.nodes :=
  Lists.lookup_eq_some_iff_mem t.pathsNodup

lemma mem_children {t : PathTree α ι} {p q : List α} : q ∈ t.children p ↔ q ∈ t.paths ∧ ∃ a, q = p ++ [a] := by
  rw [children, List.mem_filter, decide_eq_true_eq]
  refine and_congr_right fun _ => ⟨fun ⟨hne, hp⟩ => ?_, ?_⟩
  · exact ⟨q.getLast hne, by rw [← hp, List.dropLast_append_getLast]⟩
  · rintro ⟨a, rfl⟩
    exact ⟨List.concat_ne_nil _ _, List.dropLast_concat⟩

lemma prefix_iff_children {t : PathTree α ι} {p q : List α} (hq : q ∈ t.paths) :
    p <+: q ↔ q = p ∨ ∃ c ∈ t.children p, c <+: q := by
  constructor
  · rintro ⟨r, rfl⟩
    cases r with
    | nil => exact Or.inl (List.append_nil p)
    | cons a r =>
      have hc : p ++ [a] <+: p ++ a :: r := ⟨r, by simp⟩
      exact Or.inr ⟨p ++ [a], mem_children.mpr ⟨mem_paths_above hc hq, a, rfl⟩, hc⟩
  · rintro (rfl | ⟨c, hc, hcq⟩)
    · exact List.prefix_refl q
    · obtain ⟨a, rfl⟩ := (mem_children.mp hc).2
      exact (List.prefix_append p [a]).trans hcq

def nodesBelow (t : PathTree α ι) (p : List α) : List (List α × ι) :=
  (t.nodes.filter fun e => p <+: e.1).map fun e => (e.1.drop p.length, e.2)

lemma mem_nodesBelow {t : PathTree α ι} {p r : List α} {i : ι} : (r, i) ∈ t.nodesBelow p ↔ (p ++ r, i) ∈ t.nodes := by
  constructor
  · intro h
    obtain ⟨⟨q, j⟩, he, heq⟩ := List.mem_map.mp h
    obtain ⟨hm, hp⟩ := List.mem_filter.mp he
    obtain ⟨r', rfl⟩ : p <+: q := of_decide_eq_true hp
    simp only [List.drop_left, Prod.mk.injEq] at heq
    obtain ⟨rfl, rfl⟩ := heq
    exact hm
  · intro h
    refine List.mem_map.mpr ⟨(p ++ r, i), List.mem_filter.mpr ⟨h, decide_eq_true (List.prefix_append p r)⟩, ?_⟩
    rw [List.drop_left]

lemma mem_paths_nodesBelow {t : PathTree α ι} {p r : List α} :
    r ∈ (t.nodesBelow p).map Prod.fst ↔ p ++ r ∈ t.paths := by
  constructor
  · intro h
    obtain ⟨⟨q, i⟩, he, rfl⟩ := List.mem_map.mp h
    exact mem_paths_of_mem (mem_nodesBelow.mp he)
  · intro h
    obtain ⟨i, hi⟩ := exists_mem h
    exact List.mem_map_of_mem (mem_nodesBelow.mpr hi)

def subtree (t : PathTree α ι) (p : List α) (h : p ∈ t.paths) : PathTree α ι where
  nodes := t.nodesBelow p
  pathsNodup := by
    refine List.Nodup.map_on ?_ ((t.pathsNodup.of_map.filter _).map_on ?_)
    · rintro ⟨r, i⟩ hi ⟨r', j⟩ hj rfl
      rw [id_unique (mem_nodesBelow.mp hi) (mem_nodesBelow.mp hj)]
    · rintro ⟨q, i⟩ he ⟨q', j⟩ he' heq
      obtain rfl : i = j := (Prod.mk.inj heq).2
      rw [path_unique (List.mem_of_mem_filter he) (List.mem_of_mem_filter he')]
  idsNodup := by
    rw [nodesBelow, List.map_map]
    exact t.idsNodup.sublist (List.filter_sublist.map Prod.snd)
  root := mem_paths_nodesBelow.mpr (by rwa [List.append_nil])
  closed q a hq := by
    rw [mem_paths_nodesBelow, ← List.append_assoc] at hq
    exact mem_paths_nodesBelow.mpr (t.closed _ _ hq)

def remove (t : PathTree α ι) (p : List α) (a : α) : PathTree α ι where
  nodes := t.nodes.filter fun e => ¬ p ++ [a] <+: e.1
  pathsNodup := t.pathsNodup.sublist (List.filter_sublist.map _)
  idsNodup := t.idsNodup.sublist (List.filter_sublist.map _)
  root := by
    obtain ⟨⟨q, i⟩, he, hq⟩ := List.mem_map.mp t.root
    refine List.mem_map.mpr ⟨(q, i), List.mem_filter.mpr ⟨he, decide_eq_true ?_⟩, hq⟩
    change q = [] at hq
    rw [hq, List.prefix_nil]
    exact List.concat_ne_nil a p
  closed q b hq := by
    obtain ⟨⟨q', i⟩, he, rfl⟩ := List.mem_map.mp hq
    obtain ⟨hm, hn⟩ := List.mem_filter.mp he
    obtain ⟨j, hj⟩ := exists_mem (t.closed q b (mem_paths_of_mem hm))
    refine List.mem_map.mpr ⟨(q, j), List.mem_filter.mpr ⟨hj, decide_eq_true fun hp => ?_⟩, rfl⟩
    exact of_decide_eq_true hn (hp.trans (List.prefix_append q [b]))

lemma mem_remove {t : PathTree α ι} {p : List α} {a : α} {q : List α} {i : ι} :
    (q, i) ∈ (t.remove p a).nodes ↔ (q, i) ∈ t.nodes ∧ ¬ p ++ [a] <+: q := by
  rw [remove, List.mem_filter, decide_eq_true_eq]

structure Takes (t : PathTree α ι) (p : List α) (a : α) (sub : PathTree α ι) : Prop where
  parent : p ∈ t.paths
  free : p ++ [a] ∉ t.paths
  ids : ∀ i ∈ t.ids, i ∉ sub.ids

instance [DecidableEq ι] (t : PathTree α ι) (p : List α) (a : α) (sub : PathTree α ι) : Decidable (t.Takes p a sub) :=
  decidable_of_iff (p ∈ t.paths ∧ p ++ [a] ∉ t.paths ∧ ∀ i ∈ t.ids, i ∉ sub.ids)
    ⟨fun ⟨hp, hf, hi⟩ => ⟨hp, hf, hi⟩, fun ⟨hp, hf, hi⟩ => ⟨hp, hf, hi⟩⟩

omit [DecidableEq α] in
lemma Takes.not_below {t sub : PathTree α ι} {p q : List α} {a : α} (h : t.Takes p a sub) (hq : q ∈ t.paths) :
    ¬ p ++ [a] <+: q := fun hp => h.free (mem_paths_above hp hq)

def graft (t : PathTree α ι) (p : List α) (a : α) (sub : PathTree α ι) (h : t.Takes p a sub) : PathTree α ι where
  nodes := t.nodes ++ sub.nodes.map fun e => (p ++ [a] ++ e.1, e.2)
  pathsNodup := by
    rw [List.map_append, List.map_map]
    refine List.nodup_append'.mpr ⟨t.pathsNodup, ?_, fun q hq hq' => ?_⟩
    · have hcomp : (Prod.fst ∘ fun e : List α × ι => (p ++ [a] ++ e.1, e.2)) = (p ++ [a] ++ ·) ∘ Prod.fst := rfl
      rw [hcomp, ← List.map_map]
      exact sub.pathsNodup.map fun _ _ heq => List.append_cancel_left heq
    · obtain ⟨e, -, rfl⟩ := List.mem_map.mp hq'
      exact h.not_below hq (List.prefix_append _ _)
  idsNodup := by
    rw [List.map_append, List.map_map]
    exact List.nodup_append'.mpr ⟨t.idsNodup, sub.idsNodup, fun i hi hi' => h.ids i hi hi'⟩
  root := by
    rw [List.map_append]
    exact List.mem_append_left _ t.root
  closed q b hq := by
    rw [List.map_append, List.map_map] at hq ⊢
    rcases List.mem_append.mp hq with hq | hq
    · exact List.mem_append_left _ (t.closed q b hq)
    · obtain ⟨e, he, heq⟩ := List.mem_map.mp hq
      change p ++ [a] ++ e.1 = q ++ [b] at heq
      rcases List.eq_nil_or_concat e.1 with hnil | ⟨r, c, hr⟩
      · rw [hnil, List.append_nil] at heq
        rw [← List.append_inj_left' heq rfl]
        exact List.mem_append_left _ h.parent
      · rw [hr, List.concat_eq_append, ← List.append_assoc] at heq
        rw [← List.append_inj_left' heq rfl]
        have hmem : r ++ [c] ∈ sub.paths := by
          rw [← List.concat_eq_append, ← hr]
          exact List.mem_map_of_mem he
        obtain ⟨j, hj⟩ := exists_mem (sub.closed r c hmem)
        exact List.mem_append_right _ (List.mem_map.mpr ⟨(r, j), hj, rfl⟩)

omit [DecidableEq α] in
lemma mem_graft {t sub : PathTree α ι} {p : List α} {a : α} {h : t.Takes p a sub} {q : List α} {i : ι} :
    (q, i) ∈ (t.graft p a sub h).nodes ↔ (q, i) ∈ t.nodes ∨ ∃ r, q = p ++ [a] ++ r ∧ (r, i) ∈ sub.nodes := by
  rw [graft, List.mem_append, List.mem_map]
  refine or_congr_right ⟨?_, ?_⟩
  · rintro ⟨⟨r, j⟩, hr, heq⟩
    obtain ⟨rfl, rfl⟩ := Prod.mk.inj heq
    exact ⟨r, rfl, hr⟩
  · rintro ⟨r, rfl, hr⟩
    exact ⟨(r, i), hr, rfl⟩

omit [DecidableEq α] in
lemma Takes.top_mem {t sub : PathTree α ι} {p : List α} {a : α} (h : t.Takes p a sub) :
    p ++ [a] ∈ (t.graft p a sub h).paths := by
  obtain ⟨i, hi⟩ := exists_mem sub.root
  exact mem_paths_of_mem (mem_graft.mpr (Or.inr ⟨[], (List.append_nil _).symm, hi⟩))

def Apart (p q : List α) : Prop := ¬ p <+: q ∧ ¬ q <+: p

omit [DecidableEq α] in
lemma Apart.child {p q : List α} (h : Apart p q) (a : α) : Apart (p ++ [a]) q := by
  refine ⟨fun hpq => h.1 ((List.prefix_append p [a]).trans hpq), fun hqp => ?_⟩
  rcases List.prefix_concat_iff.mp hqp with rfl | hqp
  · exact h.1 (List.prefix_append p [a])
  · exact h.2 hqp

/-- The nodes a walk of the tree has still to visit, by their topmost ones. -/
structure Frontier (t : PathTree α ι) (tops : List (List α)) : Prop where
  mem : ∀ p ∈ tops, p ∈ t.paths
  apart : tops.Pairwise Apart

def below (t : PathTree α ι) (tops : List (List α)) : List (List α) := t.paths.filter fun q => ∃ p ∈ tops, p <+: q

lemma pairwise_children (t : PathTree α ι) (p : List α) : (t.children p).Pairwise Apart := by
  refine List.Pairwise.imp_of_mem ?_ (t.pathsNodup.filter _)
  intro q r hq hr hne
  obtain ⟨-, a, rfl⟩ := mem_children.mp hq
  obtain ⟨-, b, rfl⟩ := mem_children.mp hr
  have hlen : (p ++ [a]).length = (p ++ [b]).length := by rw [List.length_append, List.length_append]; rfl
  exact ⟨fun h => hne (h.eq_of_length hlen), fun h => hne (h.eq_of_length hlen.symm).symm⟩

namespace Frontier

variable {t : PathTree α ι} {p : List α} {tops : List (List α)}

omit [DecidableEq α] in
lemma singleton (h : p ∈ t.paths) : t.Frontier [p] where
  mem q hq := by rwa [List.mem_singleton.mp hq]
  apart := List.pairwise_singleton _ _

lemma expand (h : t.Frontier (p :: tops)) : t.Frontier ((t.children p).reverse ++ tops) where
  mem q hq := by
    rcases List.mem_append.mp hq with hq | hq
    · exact (mem_children.mp (List.mem_reverse.mp hq)).1
    · exact h.mem q (List.mem_cons_of_mem p hq)
  apart := by
    obtain ⟨hp, htops⟩ := List.pairwise_cons.mp h.apart
    refine List.pairwise_append.mpr ⟨?_, htops, fun q hq r hr => ?_⟩
    · rw [List.pairwise_reverse]
      exact (t.pairwise_children p).imp fun hqr => ⟨hqr.2, hqr.1⟩
    · obtain ⟨-, a, rfl⟩ := mem_children.mp (List.mem_reverse.mp hq)
      exact (hp r hr).child a

lemma below_expand (h : t.Frontier (p :: tops)) {q : List α} (hq : q ∈ t.paths) :
    (∃ r ∈ (t.children p).reverse ++ tops, r <+: q) ↔ (∃ r ∈ p :: tops, r <+: q) ∧ q ≠ p := by
  constructor
  · rintro ⟨r, hr, hrq⟩
    rcases List.mem_append.mp hr with hr | hr
    · obtain ⟨-, a, rfl⟩ := mem_children.mp (List.mem_reverse.mp hr)
      refine ⟨⟨p, List.mem_cons_self, (List.prefix_append p [a]).trans hrq⟩, ?_⟩
      rintro rfl
      have hlen := hrq.length_le
      rw [List.length_append, List.length_singleton] at hlen
      omega
    · refine ⟨⟨r, List.mem_cons_of_mem p hr, hrq⟩, fun heq => ?_⟩
      rw [heq] at hrq
      exact (List.rel_of_pairwise_cons h.apart hr).2 hrq
  · rintro ⟨⟨r, hr, hrq⟩, hne⟩
    rcases List.mem_cons.mp hr with rfl | hr
    · obtain ⟨c, hc, hcq⟩ := ((prefix_iff_children hq).mp hrq).resolve_left hne
      exact ⟨c, List.mem_append_left _ (List.mem_reverse.mpr hc), hcq⟩
    · exact ⟨r, List.mem_append_right _ hr, hrq⟩

lemma length_below_expand (h : t.Frontier (p :: tops)) :
    (t.below ((t.children p).reverse ++ tops)).length < (t.below (p :: tops)).length := by
  have heq : t.below ((t.children p).reverse ++ tops) = (t.below (p :: tops)).filter (· ≠ p) := by
    rw [below, below, List.filter_filter]
    apply List.filter_congr
    intro q hq
    rw [← Bool.decide_and, decide_eq_decide, h.below_expand hq, and_comm]
  rw [heq, List.length_filter_lt_length_iff_exists]
  have hp : p ∈ t.paths := h.mem p List.mem_cons_self
  refine ⟨p, List.mem_filter.mpr ⟨hp, decide_eq_true ⟨p, List.mem_cons_self, List.prefix_refl p⟩⟩, ?_⟩
  simp

end Frontier

end PathTree

end FastTransport.Lib
