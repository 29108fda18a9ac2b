import FastTransport.FileSystem.FileTree

/-! The index of server inodes against the leaves of the tree, over whole runs of changes. -/

namespace FastTransport.FileSystem

open Lib.Runs

namespace Children

lemma mem_of_lookup {address : ℕ} {l : TreeLeaf} {sub : Children} :
    ∀ {cs : Children}, cs.lookup address = some (l, sub) → l ∈ cs.leaves ∧ l.address = address
  | nil, h => by cases h
  | cons leaf children rest, h => by
    rw [lookup] at h
    split_ifs at h with ha
    · cases h
      exact ⟨List.mem_cons_self, ha⟩
    · rcases Option.or_eq_some_iff.mp h with h | ⟨-, h⟩
      · exact ⟨List.mem_cons_of_mem _ (List.mem_append_left _ (mem_of_lookup h).1), (mem_of_lookup h).2⟩
      · exact ⟨List.mem_cons_of_mem _ (List.mem_append_right _ (mem_of_lookup h).1), (mem_of_lookup h).2⟩

lemma lookup_eq_none {address : ℕ} :
    ∀ {cs : Children}, address ∉ cs.leaves.map TreeLeaf.address → cs.lookup address = none
  | nil, _ => rfl
  | cons leaf children rest, h => by
    simp only [leaves, List.map_cons, List.map_append, List.mem_cons, List.mem_append, not_or] at h
    rw [lookup, if_neg (Ne.symm h.1), lookup_eq_none h.2.1, lookup_eq_none h.2.2]
    rfl

lemma modify_of_notMem {address : ℕ} {f : Children → Children} :
    ∀ {cs : Children}, address ∉ cs.leaves.map TreeLeaf.address → cs.modify address f = cs
  | nil, _ => rfl
  | cons leaf children rest, h => by
    simp only [leaves, List.map_cons, List.map_append, List.mem_cons, List.mem_append, not_or] at h
    rw [modify, if_neg (Ne.symm h.1), modify_of_notMem h.2.1, modify_of_notMem h.2.2]

lemma modify_perm {address : ℕ} {f : Children → Children} {l : TreeLeaf} {sub : Children} {xs ys : List TreeLeaf}
    (hf : (xs ++ sub.leaves).Perm (ys ++ (f sub).leaves)) :
    ∀ {cs : Children}, (cs.leaves.map TreeLeaf.address).Nodup → cs.lookup address = some (l, sub) →
      (xs ++ cs.leaves).Perm (ys ++ (cs.modify address f).leaves)
  | nil, _, h => by cases h
  | cons leaf children rest, hn, h => by
    rw [leaves, List.map_cons, List.map_append, List.nodup_cons] at hn
    obtain ⟨hc, hr, hd⟩ := List.nodup_append.mp hn.2
    rw [lookup] at h
    rw [modify]
    refine List.perm_iff_count.mpr fun a => ?_
    have hcount := List.perm_iff_count.mp hf a
    split_ifs at h ⊢ with ha
    · cases h
      simp only [leaves, List.count_append, List.count_cons] at hcount ⊢
      omega
    · by_cases hm : address ∈ children.leaves.map TreeLeaf.address
      · have hnot : address ∉ rest.leaves.map TreeLeaf.address := fun hm' => hd _ hm _ hm' rfl
        rw [lookup_eq_none hnot, Option.or_none] at h
        rw [modify_of_notMem hnot]
        have hrec := List.perm_iff_count.mp (modify_perm hf hc h) a
        simp only [leaves, List.count_append, List.count_cons] at hrec ⊢
        omega
      · rw [lookup_eq_none hm, Option.none_or] at h
        rw [modify_of_notMem hm]
        have hrec := List.perm_iff_count.mp (modify_perm hf hr h) a
        simp only [leaves, List.count_append, List.count_cons] at hrec ⊢
        omega

lemma insert_perm {new : TreeLeaf} {sub : Children} :
    ∀ {cs : Children}, (cs.find new.name).isSome = false →
      ((new :: sub.leaves) ++ cs.leaves).Perm (insert new sub cs).leaves
  | nil, _ => by simp [insert, leaves]
  | cons leaf children rest, h => by
    rw [find] at h
    split_ifs at h with hn
    · cases h
    rw [insert, if_neg (Ne.symm hn)]
    split_ifs
    · exact List.Perm.refl _
    · refine List.perm_iff_count.mpr fun a => ?_
      have hrec := List.perm_iff_count.mp (@insert_perm new sub rest h) a
      simp only [leaves, List.count_append, List.count_cons] at hrec ⊢
      omega

lemma erase_perm {name : String} {leaf : TreeLeaf} {sub : Children} :
    ∀ {cs : Children}, cs.find name = some (leaf, sub) →
      cs.leaves.Perm ((leaf :: sub.leaves) ++ (cs.erase name).leaves)
  | nil, h => by cases h
  | cons l children rest, h => by
    rw [find] at h
    rw [erase]
    split_ifs at h ⊢ with hn
    · cases h
      exact List.Perm.refl _
    · refine List.perm_iff_count.mpr fun a => ?_
      have hrec := List.perm_iff_count.mp (erase_perm h) a
      simp only [leaves, List.count_append, List.count_cons] at hrec ⊢
      omega

@[simp] lemma leaves_mapLeaves (f : TreeLeaf → TreeLeaf) :
    ∀ cs : Children, (cs.mapLeaves f).leaves = cs.leaves.map f
  | nil => rfl
  | cons leaf children rest => by
    simp [mapLeaves, leaves, leaves_mapLeaves f children, leaves_mapLeaves f rest]

lemma flatMap_entries : ∀ cs : Children, (cs.entries.flatMap fun e => e.1 :: e.2.leaves) = cs.leaves
  | nil => rfl
  | cons leaf children rest => by
    rw [entries, List.flatMap_cons, flatMap_entries rest, leaves]
    rfl

lemma setTree_eq_self {name : String} {tree : Bool} :
    ∀ {cs : Children}, (∀ l ∈ cs.leaves, l.tree = tree) → cs.setTree name tree = cs
  | nil, _ => rfl
  | cons leaf children rest, h => by
    have hl := h leaf List.mem_cons_self
    have hr : ∀ l ∈ rest.leaves, l.tree = tree := fun l hl =>
      h l (List.mem_cons_of_mem _ (List.mem_append_right _ hl))
    rw [setTree, setTree_eq_self hr, ← hl]
    split_ifs <;> rfl

lemma modify_setTree {address : ℕ} {name : String} {tree : Bool} :
    ∀ {cs : Children}, (∀ l ∈ cs.leaves, l.tree = tree) → cs.modify address (setTree name tree) = cs
  | nil, _ => rfl
  | cons leaf children rest, h => by
    have hc : ∀ l ∈ children.leaves, l.tree = tree := fun l hl =>
      h l (List.mem_cons_of_mem _ (List.mem_append_left _ hl))
    have hr : ∀ l ∈ rest.leaves, l.tree = tree := fun l hl =>
      h l (List.mem_cons_of_mem _ (List.mem_append_right _ hl))
    rw [modify, setTree_eq_self hc, modify_setTree hc, modify_setTree hr, ite_self]

end Children

namespace InodeIndex

lemma walk_eq_foldl (visit : InodeIndex → TreeLeaf → InodeIndex) (queue : List (TreeLeaf × Children))
    (index : InodeIndex) :
    ∃ order : List TreeLeaf, order.Perm (queue.flatMap fun e => e.1 :: e.2.leaves) ∧
      walk visit queue index = order.foldl visit index := by
  induction queue, index using walk.induct visit with
  | case1 index => exact ⟨[], List.Perm.refl _, by rw [walk]; rfl⟩
  | case2 index leaf children rest ih =>
    obtain ⟨order, hp, ho⟩ := ih
    refine ⟨leaf :: order, ?_, by rw [walk, ho]; rfl⟩
    rw [List.flatMap_cons, List.cons_append]
    refine List.Perm.cons leaf (hp.trans ?_)
    rw [List.flatMap_append]
    refine List.Perm.append_right _ ?_
    rw [← Children.flatMap_entries children]
    exact (List.reverse_perm _).flatMap_right _

def Has (index : InodeIndex) (leaves : List TreeLeaf) (i a : ℕ) : Prop :=
  (∃ l ∈ leaves, l.getServerInode = i ∧ l.address = a) ∨
    (∀ l ∈ leaves, l.getServerInode ≠ i) ∧ index i = some a

lemma foldl_registerLeaf (order : List TreeLeaf) (hn : (order.map TreeLeaf.getServerInode).Nodup)
    (index : InodeIndex) (i a : ℕ) :
    order.foldl registerLeaf index i = some a ↔ index.Has order i a := by
  induction order generalizing index with
  | nil => simp [Has]
  | cons l order ih =>
    rw [List.map_cons, List.nodup_cons] at hn
    rw [List.foldl_cons, ih hn.2]
    have hl : ∀ m ∈ order, m.getServerInode ≠ l.getServerInode := fun m hm he =>
      hn.1 (he ▸ List.mem_map_of_mem hm)
    simp only [Has, registerLeaf, List.mem_cons, forall_eq_or_imp, exists_eq_or_imp]
    by_cases hi : i = l.getServerInode
    · subst hi
      simp only [Function.update_self, Option.some.injEq, ne_eq, not_true_eq_false, false_and, or_false, true_and]
      constructor
      · rintro (h | ⟨-, h⟩)
        · exact Or.inr h
        · exact Or.inl h
      · rintro (h | h)
        · exact Or.inr ⟨hl, h⟩
        · exact Or.inl h
    · rw [Function.update_of_ne hi]
      simp only [Ne.symm hi, false_and, false_or, ne_eq, not_false_eq_true, true_and]

lemma foldl_unregisterLeaf (order : List TreeLeaf) (index : InodeIndex) (i : ℕ) :
    order.foldl unregisterLeaf index i = if i ∈ order.map TreeLeaf.getServerInode then none else index i := by
  induction order generalizing index with
  | nil => rfl
  | cons l order ih =>
    rw [List.foldl_cons, ih, List.map_cons, unregisterLeaf]
    by_cases hi : i = l.getServerInode
    · subst hi
      simp
    · rw [Function.update_of_ne hi]
      simp [hi]

lemma walk_registerLeaf {leaf : TreeLeaf} {sub : Children}
    (hn : ((leaf :: sub.leaves).map TreeLeaf.getServerInode).Nodup) (index : InodeIndex) (i a : ℕ) :
    walk registerLeaf [(leaf, sub)] index i = some a ↔ index.Has (leaf :: sub.leaves) i a := by
  obtain ⟨order, hp, ho⟩ := walk_eq_foldl registerLeaf [(leaf, sub)] index
  rw [List.flatMap_singleton] at hp
  rw [ho, foldl_registerLeaf order ((hp.map _).nodup_iff.mpr hn)]
  simp only [Has, hp.mem_iff]

lemma walk_unregisterLeaf (leaf : TreeLeaf) (sub : Children) (index : InodeIndex) (i : ℕ) :
    walk unregisterLeaf [(leaf, sub)] index i =
      if i ∈ (leaf :: sub.leaves).map TreeLeaf.getServerInode then none else index i := by
  obtain ⟨order, hp, ho⟩ := walk_eq_foldl unregisterLeaf [(leaf, sub)] index
  rw [List.flatMap_singleton] at hp
  rw [ho, foldl_unregisterLeaf]
  simp only [(hp.map TreeLeaf.getServerInode).mem_iff]

end InodeIndex

def serverKey (address inode : ℕ) : ℕ := if inode ≠ 0 then inode else address

namespace TreeLeaf

def rekey (address inode : ℕ) (l : TreeLeaf) : TreeLeaf :=
  if l.address = address then { l with serverInode := inode } else l

@[simp] lemma rekey_address (address inode : ℕ) (l : TreeLeaf) : (l.rekey address inode).address = l.address := by
  rw [rekey]
  split_ifs <;> rfl

@[simp] lemma rekey_tree (address inode : ℕ) (l : TreeLeaf) : (l.rekey address inode).tree = l.tree := by
  rw [rekey]
  split_ifs <;> rfl

lemma rekey_getServerInode (address inode : ℕ) (l : TreeLeaf) :
    (l.rekey address inode).getServerInode =
      if l.address = address then serverKey address inode else l.getServerInode := by
  rw [rekey]
  split_ifs with h
  · rw [← h]
    rfl
  · rfl

end TreeLeaf

structure FileTree.Indexed (t : FileTree) : Prop where
  tree : ∀ l ∈ t.leaves, l.tree = true
  addresses : (t.leaves.map TreeLeaf.address).Nodup
  keys : (t.leaves.map TreeLeaf.getServerInode).Nodup
  index : ∀ i, i ≠ t.root.getServerInode → ∀ a, t.serverInodeIndex i = some a ↔
    ∃ l ∈ t.children.leaves, l.getServerInode = i ∧ l.address = a

namespace FileTree

def KeyedIn (t : FileTree) (K : Set ℕ) : Prop := ∀ l ∈ t.leaves, l.getServerInode ∈ K ∨ l.serverInode = 0

lemma allocate_bind {t t' : FileTree} {addresses : List ℕ} {f : FileTree → Option FileTree}
    (h : (t.allocate addresses).bind f = some t') :
    (addresses.Nodup ∧ ∀ a ∈ addresses, a ∉ t.leaves.map TreeLeaf.address) ∧ f t = some t' := by
  rw [allocate] at h
  split_ifs at h with ha
  · exact ⟨ha, h⟩
  · cases h

lemma mem_of_lookup {t : FileTree} {address : ℕ} {p : TreeLeaf × Children} (h : t.lookup address = some p) :
    p.1 ∈ t.leaves ∧ p.1.address = address := by
  rw [lookup] at h
  split_ifs at h with ha
  · cases h
    exact ⟨List.mem_cons_self, ha⟩
  · obtain ⟨hm, ha⟩ := @Children.mem_of_lookup address p.1 p.2 t.children h
    exact ⟨List.mem_cons_of_mem _ hm, ha⟩

lemma modify_perm {t : FileTree} {address : ℕ} {f : Children → Children} {p : TreeLeaf × Children}
    (xs ys : List TreeLeaf) (hn : (t.leaves.map TreeLeaf.address).Nodup) (hl : t.lookup address = some p)
    (hf : (xs ++ p.2.leaves).Perm (ys ++ (f p.2).leaves)) :
    (xs ++ t.children.leaves).Perm (ys ++ (t.modify address f).leaves) := by
  rw [lookup] at hl
  rw [modify]
  split_ifs at hl ⊢ with ha
  · cases hl
    exact hf
  · exact Children.modify_perm hf (List.nodup_cons.mp hn).2 hl

lemma setServerInode_eq_some {t t' : FileTree} {address inode : ℕ} (h : t.setServerInode address inode = some t') :
    ∃ p, t.lookup address = some p ∧ t'.root = t.root.rekey address inode ∧
      t'.children = t.children.mapLeaves (TreeLeaf.rekey address inode) ∧
      t'.serverInodeIndex = if p.1.tree then
        (t.serverInodeIndex.unregisterLeaf p.1).registerLeaf (p.1.rekey address inode) else t.serverInodeIndex := by
  obtain ⟨p, hp, rfl⟩ := Option.map_eq_some_iff.mp h
  exact ⟨p, hp, rfl, rfl, rfl⟩

lemma modify_setTree {t : FileTree} {address : ℕ} {name : String} (h : ∀ l ∈ t.leaves, l.tree = true) :
    t.modify address (Children.setTree name true) = t.children := by
  have hc : ∀ l ∈ t.children.leaves, l.tree = true := fun l hl => h l (List.mem_cons_of_mem _ hl)
  rw [modify]
  split_ifs
  · exact Children.setTree_eq_self hc
  · exact Children.modify_setTree hc

namespace Indexed

variable {t t' : FileTree}

lemma eq_of_key (h : t.Indexed) {l m : TreeLeaf} (hl : l ∈ t.leaves) (hm : m ∈ t.leaves)
    (he : l.getServerInode = m.getServerInode) : l = m := List.inj_on_of_nodup_map h.keys hl hm he

lemma grow (h : t.Indexed) (new : List TreeLeaf) (hroot : t'.root = t.root)
    (hp : (new ++ t.children.leaves).Perm t'.children.leaves) (htree : ∀ l ∈ new, l.tree = true)
    (haddr : (new.map TreeLeaf.address).Nodup ∧ ∀ a ∈ new.map TreeLeaf.address, a ∉ t.leaves.map TreeLeaf.address)
    (hkeys : (new.map TreeLeaf.getServerInode).Nodup ∧
      ∀ k ∈ new.map TreeLeaf.getServerInode, k ∉ t.leaves.map TreeLeaf.getServerInode)
    (hindex : ∀ i a, t'.serverInodeIndex i = some a ↔ t.serverInodeIndex.Has new i a) :
    t'.Indexed ∧ ∀ l ∈ t'.leaves, l ∈ t.leaves ∨ l ∈ new := by
  have hp' : (new ++ t.leaves).Perm t'.leaves := by
    rw [leaves, leaves, hroot]
    exact List.perm_middle.trans (hp.cons _)
  refine ⟨⟨fun l hl => ?_, ?_, ?_, fun i hi a => ?_⟩,
    fun l hl => (List.mem_append.mp (hp'.mem_iff.mpr hl)).symm⟩
  · rcases List.mem_append.mp (hp'.mem_iff.mpr hl) with hl | hl
    · exact htree l hl
    · exact h.tree l hl
  · refine (hp'.map _).nodup_iff.mp ?_
    rw [List.map_append, List.nodup_append]
    exact ⟨haddr.1, h.addresses, fun a ha b hb hab => haddr.2 a ha (hab ▸ hb)⟩
  · refine (hp'.map _).nodup_iff.mp ?_
    rw [List.map_append, List.nodup_append]
    exact ⟨hkeys.1, h.keys, fun a ha b hb hab => hkeys.2 a ha (hab ▸ hb)⟩
  · rw [hroot] at hi
    rw [hindex, InodeIndex.Has, h.index i hi]
    simp only [← hp.mem_iff, List.mem_append]
    constructor
    · rintro (⟨l, hl, he⟩ | ⟨-, l, hl, he⟩)
      · exact ⟨l, Or.inl hl, he⟩
      · exact ⟨l, Or.inr hl, he⟩
    · rintro ⟨l, hl | hl, he⟩
      · exact Or.inl ⟨l, hl, he⟩
      · refine Or.inr ⟨fun m hm hk => ?_, l, hl, he⟩
        refine hkeys.2 _ (List.mem_map_of_mem hm) ?_
        rw [hk, ← he.1]
        exact List.mem_map_of_mem (List.mem_cons_of_mem _ hl)

lemma shrink (h : t.Indexed) (gone : List TreeLeaf) (hroot : t'.root = t.root)
    (hp : t.children.leaves.Perm (gone ++ t'.children.leaves))
    (hindex : ∀ i, t'.serverInodeIndex i =
      if i ∈ gone.map TreeLeaf.getServerInode then none else t.serverInodeIndex i) :
    t'.Indexed ∧ ∀ l ∈ t'.leaves, l ∈ t.leaves := by
  have hp' : t.leaves.Perm (gone ++ t'.leaves) := by
    rw [leaves, leaves, hroot]
    exact (hp.cons _).trans List.perm_middle.symm
  have hkeys := (hp'.map TreeLeaf.getServerInode).nodup_iff.mp h.keys
  have haddr := (hp'.map TreeLeaf.address).nodup_iff.mp h.addresses
  rw [List.map_append, List.nodup_append] at hkeys haddr
  have hsub : ∀ l ∈ t'.leaves, l ∈ t.leaves := fun l hl => hp'.mem_iff.mpr (List.mem_append_right _ hl)
  refine ⟨⟨fun l hl => h.tree l (hsub l hl), haddr.2.1, hkeys.2.1, fun i hi a => ?_⟩, hsub⟩
  rw [hroot] at hi
  rw [hindex]
  split_ifs with hg
  · refine iff_of_false id ?_
    rintro ⟨l, hl, rfl, -⟩
    exact absurd rfl (hkeys.2.2 _ hg _ (List.mem_map_of_mem (List.mem_cons_of_mem _ hl)))
  · rw [h.index i hi]
    simp only [hp.mem_iff, List.mem_append]
    constructor
    · rintro ⟨l, hl | hl, he⟩
      · exact absurd (he.1 ▸ List.mem_map_of_mem hl) hg
      · exact ⟨l, hl, he⟩
    · rintro ⟨l, hl, he⟩
      exact ⟨l, Or.inr hl, he⟩

lemma addChild (h : t.Indexed) {parent : ℕ} {e : DirectoryEntry}
    (ha : e.address ∉ t.leaves.map TreeLeaf.address)
    (hk : ∀ p, t.lookup parent = some p → (p.2.find e.name).isSome = false →
      e.address ∉ t.leaves.map TreeLeaf.getServerInode)
    (ht : t.addChild parent e = some t') :
    t'.Indexed ∧ ∀ l ∈ t'.leaves, l ∈ t.leaves ∨ l.serverInode = 0 := by
  obtain ⟨p, hp, rfl⟩ := Option.map_eq_some_iff.mp ht
  have htree := h.tree p.1 (mem_of_lookup hp).1
  simp only [htree, if_true]
  split_ifs with hf
  · exact ⟨h, fun l hl => Or.inl hl⟩
  · have hf' : (p.2.find e.name).isSome = false := by simpa using hf
    set leaf : TreeLeaf := ⟨e.address, e.name, e.type, e.size, 0, true⟩
    have hkey : leaf.getServerInode = e.address := if_neg (by simp [leaf])
    refine And.imp_right ?_ (h.grow [leaf] rfl ?_ ?_ ?_ ?_ ?_)
    · refine fun hm l hl => (hm l hl).imp_right fun hn => ?_
      rw [List.mem_singleton.mp hn]
    · exact modify_perm _ [] h.addresses hp (@Children.insert_perm leaf .nil p.2 hf')
    · exact fun l hl => by rw [List.mem_singleton.mp hl]
    · exact ⟨List.nodup_singleton _, fun a hm => by rwa [List.mem_singleton.mp hm]⟩
    · exact ⟨List.nodup_singleton _, fun k hm => by
        rw [List.mem_singleton.mp hm, hkey]
        exact hk p hp hf'⟩
    · intro i a
      exact InodeIndex.foldl_registerLeaf [leaf] (List.nodup_singleton _) t.serverInodeIndex i a

lemma addSubtree (h : t.Indexed) {parent : ℕ} {leaf : TreeLeaf} {sub : Children}
    (haddr : ((leaf :: sub.leaves).map TreeLeaf.address).Nodup ∧
      ∀ a ∈ (leaf :: sub.leaves).map TreeLeaf.address, a ∉ t.leaves.map TreeLeaf.address)
    (hkeys : ∀ p, t.lookup parent = some p → (p.2.find leaf.name).isSome = false →
      ((leaf :: sub.leaves).map TreeLeaf.getServerInode).Nodup ∧
        ∀ k ∈ (leaf :: sub.leaves).map TreeLeaf.getServerInode, k ∉ t.leaves.map TreeLeaf.getServerInode)
    (ht : t.addSubtree parent leaf sub = some t') :
    t'.Indexed ∧ ∀ l ∈ t'.leaves, l ∈ t.leaves ∨ ∃ m ∈ leaf :: sub.leaves, l.serverInode = m.serverInode := by
  obtain ⟨p, hp, rfl⟩ := Option.map_eq_some_iff.mp ht
  have htree := h.tree p.1 (mem_of_lookup hp).1
  simp only [htree, if_true]
  split_ifs with hf
  · rw [modify_setTree h.tree]
    exact ⟨h, fun l hl => Or.inl hl⟩
  · have hf' : (p.2.find leaf.name).isSome = false := by simpa using hf
    obtain ⟨hk, hd⟩ := hkeys p hp hf'
    refine And.imp_right ?_ (h.grow ((leaf :: sub.leaves).map fun l => { l with tree := true }) rfl ?_ ?_ ?_ ?_ ?_)
    · refine fun hm l hl => (hm l hl).imp_right fun hn => ?_
      obtain ⟨m, hm, rfl⟩ := List.mem_map.mp hn
      exact ⟨m, hm, rfl⟩
    · refine modify_perm _ [] h.addresses hp ?_
      have := @Children.insert_perm { leaf with tree := true } (sub.mapLeaves fun l => { l with tree := true }) p.2 hf'
      rwa [Children.leaves_mapLeaves] at this
    · intro l hl
      obtain ⟨m, -, rfl⟩ := List.mem_map.mp hl
      rfl
    · rw [List.map_map]
      exact haddr
    · rw [List.map_map]
      exact ⟨hk, hd⟩
    · intro i a
      rw [InodeIndex.walk_registerLeaf hk, InodeIndex.Has, InodeIndex.Has]
      simp only [List.mem_map, exists_exists_and_eq_and, forall_exists_index, and_imp, forall_apply_eq_imp_iff₂]
      rfl

lemma removeChild (h : t.Indexed) {parent : ℕ} {name : String} (ht : t.removeChild parent name = some t') :
    t'.Indexed ∧ ∀ l ∈ t'.leaves, l ∈ t.leaves := by
  obtain ⟨p, hp, rfl⟩ := Option.map_eq_some_iff.mp ht
  have htree := h.tree p.1 (mem_of_lookup hp).1
  cases hf : p.2.find name with
  | none => exact ⟨h, fun l hl => hl⟩
  | some e =>
    obtain ⟨leaf, sub⟩ := e
    simp only [htree, if_true]
    refine h.shrink (leaf :: sub.leaves) rfl ?_ fun i => InodeIndex.walk_unregisterLeaf leaf sub _ i
    exact modify_perm [] _ h.addresses hp (Children.erase_perm hf)

lemma setServerInode (h : t.Indexed) {address inode : ℕ}
    (hkey : ∀ l ∈ t.leaves, l.address ≠ address → l.getServerInode ≠ serverKey address inode)
    (ht : t.setServerInode address inode = some t') : t'.Indexed := by
  obtain ⟨p, hp, hr, hc, hx⟩ := setServerInode_eq_some ht
  obtain ⟨hm, ha⟩ := mem_of_lookup hp
  have hsole (l : TreeLeaf) (hl : l ∈ t.leaves) (hla : l.address = address) : l = p.1 :=
    List.inj_on_of_nodup_map h.addresses hl hm (hla.trans ha.symm)
  have hmap : t'.leaves = t.leaves.map (TreeLeaf.rekey address inode) := by
    rw [leaves, leaves, hr, hc, Children.leaves_mapLeaves, List.map_cons]
  refine ⟨fun l hl => ?_, ?_, ?_, fun i hi a => ?_⟩
  · rw [hmap] at hl
    obtain ⟨m, hm', rfl⟩ := List.mem_map.mp hl
    rw [TreeLeaf.rekey_tree, h.tree m hm']
  · rw [hmap, List.map_map]
    exact (List.map_congr_left fun l _ => TreeLeaf.rekey_address address inode l) ▸ h.addresses
  · rw [hmap, List.map_map]
    refine List.Nodup.map_on (fun l hl m hm' he => ?_) (List.Nodup.of_map _ h.keys)
    simp only [Function.comp_apply, TreeLeaf.rekey_getServerInode] at he
    split_ifs at he with hla hma hma
    · exact (hsole l hl hla).trans (hsole m hm' hma).symm
    · exact absurd he.symm (hkey m hm' hma)
    · exact absurd he (hkey l hl hla)
    · exact h.eq_of_key hl hm' he
  · rw [hr] at hi
    rw [hx, hc, if_pos (h.tree p.1 hm)]
    rw [TreeLeaf.rekey_getServerInode] at hi
    rw [InodeIndex.registerLeaf, TreeLeaf.rekey_getServerInode, if_pos ha, TreeLeaf.rekey_address, ha,
      InodeIndex.unregisterLeaf, Children.leaves_mapLeaves]
    simp only [List.mem_map, exists_exists_and_eq_and, TreeLeaf.rekey_getServerInode, TreeLeaf.rekey_address]
    by_cases hnew : i = serverKey address inode
    · subst hnew
      rw [Function.update_self, Option.some.injEq]
      constructor
      · rintro rfl
        refine ⟨p.1, ?_, if_pos ha, ha⟩
        rcases List.mem_cons.mp hm with hr | hc
        · rw [if_pos (hr ▸ ha)] at hi
          exact absurd rfl hi
        · exact hc
      · rintro ⟨l, hl, hk, hla⟩
        split_ifs at hk with hl'
        · exact hl'.symm.trans hla
        · exact absurd hk (hkey l (List.mem_cons_of_mem _ hl) hl')
    rw [Function.update_of_ne hnew]
    by_cases hold : i = p.1.getServerInode
    · subst hold
      rw [Function.update_self]
      refine iff_of_false (Option.some_ne_none a).symm ?_
      rintro ⟨l, hl, hk, -⟩
      split_ifs at hk with hla
      · exact hnew hk.symm
      · exact hla (h.eq_of_key (List.mem_cons_of_mem _ hl) hm hk ▸ ha)
    rw [Function.update_of_ne hold, h.index i ?_]
    · refine exists_congr fun l => and_congr_right fun hl => and_congr_left fun _ => ?_
      split_ifs with hla
      · rw [hsole l (List.mem_cons_of_mem _ hl) hla]
        exact iff_of_false (Ne.symm hold) (Ne.symm hnew)
      · rfl
    · intro hroot
      split_ifs at hi with hra
      · exact hold (hsole t.root List.mem_cons_self hra ▸ hroot)
      · exact hi hroot

lemma notMem_keys {K : Set ℕ} (hK : t.KeyedIn K) {address : ℕ} (hk : address ∉ K)
    (ha : address ∉ t.leaves.map TreeLeaf.address) : address ∉ t.leaves.map TreeLeaf.getServerInode := by
  intro hm
  obtain ⟨l, hl, he⟩ := List.mem_map.mp hm
  rcases hK l hl with hin | hzero
  · exact hk (he ▸ hin)
  · rw [TreeLeaf.getServerInode, if_neg (not_not.mpr hzero)] at he
    exact ha (he ▸ List.mem_map_of_mem hl)

lemma addChild_keyedIn (h : t.Indexed) {K : Set ℕ} (hK : t.KeyedIn K) {parent : ℕ} {e : DirectoryEntry}
    (hk : e.address ∉ K) (ht : ((t.allocate [e.address]).bind fun t => t.addChild parent e) = some t') :
    t'.Indexed ∧ t'.KeyedIn K := by
  obtain ⟨⟨-, ha⟩, ht⟩ := allocate_bind ht
  have ha' : e.address ∉ t.leaves.map TreeLeaf.address := ha _ List.mem_cons_self
  obtain ⟨hi, hm⟩ := h.addChild ha' (fun _ _ _ => notMem_keys hK hk ha') ht
  refine ⟨hi, fun l hl => ?_⟩
  rcases hm l hl with hl | hz
  · exact hK l hl
  · exact Or.inr hz

lemma rescan {K : Set ℕ} {parent : ℕ} {entries : List DirectoryEntry} (h : t.Indexed) (hK : t.KeyedIn K)
    (hk : ∀ e ∈ entries, e.address ∉ K) (ht : t.rescan parent entries = some t') :
    t'.Indexed ∧ t'.KeyedIn K := by
  induction entries generalizing t with
  | nil =>
    cases Option.some.inj ht
    exact ⟨h, hK⟩
  | cons e entries ih =>
    obtain ⟨u, hu, ht⟩ := Option.bind_eq_some_iff.mp ht
    suffices hnext : u.Indexed ∧ u.KeyedIn K from
      ih hnext.1 hnext.2 (fun e he => hk e (List.mem_cons_of_mem _ he)) ht
    obtain ⟨p, -, hp⟩ := Option.bind_eq_some_iff.mp hu
    have hke := hk e List.mem_cons_self
    split_ifs at hp
    · cases Option.some.inj hp
      exact ⟨h, hK⟩
    · split at hp
      · exact h.addChild_keyedIn hK hke hp
      · exact h.addChild_keyedIn hK (e := { e with size := 0 }) hke hp
      · cases Option.some.inj hp
        exact ⟨h, hK⟩

lemma create (name : String) (address : ℕ) : (create name address).Indexed := by
  refine ⟨fun l hl => ?_, List.nodup_singleton _, List.nodup_singleton _, fun i _ a => ?_⟩
  · rw [List.mem_singleton.mp hl]
    rfl
  · exact iff_of_false (Option.some_ne_none a).symm fun ⟨l, hl, _⟩ => List.not_mem_nil hl

lemma find_iff (h : t.Indexed) (held : ℕ → Bool) (i a : ℕ) :
    t.findLeafByServerInode held i = some a ↔ ∃ l ∈ t.leaves, l.address = a ∧ l.getServerInode = i := by
  rw [findLeafByServerInode]
  split_ifs with hi
  · subst hi
    constructor
    · intro he
      exact ⟨t.root, List.mem_cons_self, Option.some.inj he, rfl⟩
    · rintro ⟨l, hl, rfl, hk⟩
      rw [h.eq_of_key hl List.mem_cons_self hk]
  · rw [Option.filter_eq_some_iff, h.index i hi]
    constructor
    · rintro ⟨⟨l, hl, hk, ha⟩, -⟩
      exact ⟨l, List.mem_cons_of_mem _ hl, ha, hk⟩
    · rintro ⟨l, hl, rfl, hk⟩
      rcases List.mem_cons.mp hl with rfl | hc
      · exact absurd hk.symm hi
      · refine ⟨⟨l, hc, hk, rfl⟩, ?_⟩
        rw [Bool.or_eq_true, decide_eq_true_eq]
        exact Or.inl (List.mem_map_of_mem hl)

end Indexed

def KeysApart (t : FileTree) : Call → Prop
  | .addChild parent e => ∀ p, t.lookup parent = some p → (p.2.find e.name).isSome = false →
      e.address ∉ t.leaves.map TreeLeaf.getServerInode
  | .addSubtree parent leaf sub => ∀ p, t.lookup parent = some p → (p.2.find leaf.name).isSome = false →
      ((leaf :: sub.leaves).map TreeLeaf.getServerInode).Nodup ∧
        ∀ k ∈ (leaf :: sub.leaves).map TreeLeaf.getServerInode, k ∉ t.leaves.map TreeLeaf.getServerInode
  | .removeChild _ _ => True
  | .rescan _ entries => ∀ e ∈ entries, e.address ∉ t.leaves.map TreeLeaf.getServerInode
  | .setServerInode address inode => ∀ l ∈ t.leaves, l.address ≠ address →
      l.getServerInode ≠ serverKey address inode

lemma Indexed.step {t t' : FileTree} (h : t.Indexed) {c : Call} (hc : t.KeysApart c) (ht : t.step c = some t') :
    t'.Indexed := by
  cases c with
  | addChild parent e =>
    obtain ⟨⟨-, ha⟩, ht⟩ := allocate_bind ht
    exact (h.addChild (ha _ List.mem_cons_self) hc ht).1
  | addSubtree parent leaf sub =>
    obtain ⟨ha, ht⟩ := allocate_bind ht
    exact (h.addSubtree ha hc ht).1
  | removeChild parent name => exact (h.removeChild ht).1
  | rescan parent entries =>
    have hK : t.KeyedIn { k | k ∈ t.leaves.map TreeLeaf.getServerInode } := fun l hl =>
      Or.inl (List.mem_map_of_mem hl)
    exact (h.rescan hK hc ht).1
  | setServerInode address inode => exact h.setServerInode hc ht

structure Exact (t : FileTree) (held : ℕ → Bool) : Prop where
  found : ∀ l ∈ t.leaves, t.findLeafByServerInode held l.getServerInode = some l.address
  missing : ∀ i, (∀ l ∈ t.leaves, l.getServerInode ≠ i) → t.findLeafByServerInode held i = none

lemma Indexed.exact {t : FileTree} (h : t.Indexed) (held : ℕ → Bool) : t.Exact held := by
  refine ⟨fun l hl => (h.find_iff held _ _).mpr ⟨l, hl, rfl, rfl⟩, fun i hi => ?_⟩
  refine Option.eq_none_iff_forall_ne_some.mpr fun a ha => ?_
  obtain ⟨l, hl, -, hk⟩ := (h.find_iff held i a).mp ha
  exact hi l hl hk

end FileTree

open FileTree

theorem client_index_exact {name : String} {address : ℕ} {calls : List Call} {t : FileTree}
    (h : Path step KeysApart (create name address) calls t) (held : ℕ → Bool) : t.Exact held := by
  have hindexed : t.Indexed := h.invariant (P := Indexed)
    (fun _ _ _ hi hc hs => hi.step hc hs) (Indexed.create name address)
  exact hindexed.exact held

def mirrored : List Call := [.addChild 1 ⟨"a", .directory, 0, 100⟩, .setServerInode 100 7,
  .addChild 100 ⟨"b", .regular, 5, 200⟩, .setServerInode 200 8]

theorem client_index_exact_mirrored : ∃ t : FileTree, Path step KeysApart (create "mnt" 1) mirrored t ∧
    t.Exact fun _ => false := by
  have happart {address : ℕ} {leaves : List TreeLeaf} (h : address ∉ leaves.map TreeLeaf.getServerInode) :
      ∀ l ∈ leaves, l.getServerInode ≠ address := fun l hl he => h (he ▸ List.mem_map_of_mem hl)
  have hpath : ∃ t, Path step KeysApart (create "mnt" 1) mirrored t :=
    ⟨_, .cons (fun _ _ _ => by decide) rfl (.cons (fun l hl _ => happart (by decide) l hl) rfl
      (.cons (fun _ _ _ => by decide) rfl (.cons (fun l hl _ => happart (by decide) l hl) rfl (.nil _))))⟩
  obtain ⟨t, ht⟩ := hpath
  exact ⟨t, ht, client_index_exact ht _⟩

def FileTree.Call.assigned : Call → Option ℕ
  | .setServerInode _ inode => some inode
  | _ => none

theorem rekeyed_leaf_not_found : ¬ ∀ (name : String) (address : ℕ) (calls : List Call) (t : FileTree),
    run step (create name address) calls = some t → (calls.filterMap Call.assigned).Nodup →
      ∀ held, t.Exact held := by
  intro h
  have hexact := h "mnt" 1 [.addChild 1 ⟨"a", .directory, 0, 100⟩, .addChild 100 ⟨"b", .regular, 5, 200⟩,
    .setServerInode 200 100, .setServerInode 100 7] _ rfl (by decide) fun _ => false
  have hfound := hexact.found ⟨200, "b", .regular, 5, 100, true⟩ (by decide)
  exact absurd hfound (by decide)

def FileTree.Call.OnServer : Call → Prop
  | .addSubtree _ leaf sub => ∀ l ∈ leaf :: sub.leaves, l.serverInode = 0
  | .setServerInode _ _ => False
  | _ => True

lemma FileTree.Indexed.step_onServer {t t' : FileTree} (h : t.Indexed) (hK : t.KeyedIn ∅) {c : Call}
    (hc : c.OnServer) (ht : t.step c = some t') : t'.Indexed ∧ t'.KeyedIn ∅ := by
  cases c with
  | addChild parent e => exact h.addChild_keyedIn hK (Set.notMem_empty _) ht
  | addSubtree parent leaf sub =>
    obtain ⟨⟨hn, ha⟩, ht⟩ := allocate_bind ht
    have hkeys : (leaf :: sub.leaves).map TreeLeaf.getServerInode = (leaf :: sub.leaves).map TreeLeaf.address :=
      List.map_congr_left fun l hl => if_neg (not_not.mpr (hc l hl))
    obtain ⟨hi, hm⟩ := h.addSubtree ⟨hn, ha⟩ (fun _ _ _ => by
      rw [hkeys]
      exact ⟨hn, fun k hk => notMem_keys hK (Set.notMem_empty _) (ha k hk)⟩) ht
    refine ⟨hi, fun l hl => ?_⟩
    rcases hm l hl with hl | ⟨m, hm, he⟩
    · exact hK l hl
    · exact Or.inr (he.trans (hc m hm))
  | removeChild parent name =>
    obtain ⟨hi, hm⟩ := h.removeChild ht
    exact ⟨hi, fun l hl => hK l (hm l hl)⟩
  | rescan parent entries => exact h.rescan hK (fun _ _ => Set.notMem_empty _) ht
  | setServerInode address inode => exact hc.elim

theorem server_index_follows_tree {name : String} {address : ℕ} {calls : List Call} {t : FileTree}
    (h : run step (create name address) calls = some t) (hcalls : ∀ c ∈ calls, c.OnServer) (held : ℕ → Bool)
    (i a : ℕ) :
    t.findLeafByServerInode held i = some a ↔ ∃ l ∈ t.leaves, l.address = a ∧ l.getServerInode = i := by
  have hall : ∀ {s : FileTree} {calls : List Call}, s.Indexed ∧ s.KeyedIn ∅ → run step s calls = some t →
      (∀ c ∈ calls, c.OnServer) → t.Indexed := by
    intro s calls hs hr hc
    induction calls generalizing s with
    | nil =>
      cases Option.some.inj hr
      exact hs.1
    | cons c calls ih =>
      obtain ⟨u, hu, hr⟩ := run_cons_eq_some.mp hr
      exact ih (hs.1.step_onServer hs.2 (hc c List.mem_cons_self) hu) hr fun c hm => hc c (List.mem_cons_of_mem _ hm)
  have hstart : (create name address).KeyedIn ∅ := fun l hl => by
    rw [List.mem_singleton.mp hl]
    exact Or.inr rfl
  exact (hall ⟨Indexed.create name address, hstart⟩ h hcalls).find_iff held i a

def spliced : Call :=
  .addSubtree 1 ⟨100, "a", .directory, 0, 0, false⟩ (.cons ⟨200, "b", .regular, 5, 0, false⟩ .nil .nil)

theorem server_index_follows_tree_spliced :
    (∃ t, run step (create "srv" 1) [spliced] = some t ∧
      t.findLeafByServerInode (fun _ => false) 200 = some 200) ∧
    ∃ t, run step (create "srv" 1) [spliced, .removeChild 1 "a"] = some t ∧
      t.findLeafByServerInode (fun _ => true) 200 = none := by
  have hsub : spliced.OnServer := by
    unfold spliced Call.OnServer
    decide
  constructor
  · have hrun : ∃ t, run step (create "srv" 1) [spliced] = some t ∧
      (⟨200, "b", .regular, 5, 0, true⟩ : TreeLeaf) ∈ t.leaves := ⟨_, rfl, by decide⟩
    obtain ⟨t, ht, hl⟩ := hrun
    have hcalls : ∀ c ∈ [spliced], c.OnServer := fun c hc => List.mem_singleton.mp hc ▸ hsub
    exact ⟨t, ht, (server_index_follows_tree ht hcalls _ _ _).mpr ⟨_, hl, rfl, rfl⟩⟩
  · have hrun : ∃ t, run step (create "srv" 1) [spliced, .removeChild 1 "a"] = some t ∧
      ∀ l ∈ t.leaves, l.getServerInode ≠ 200 := ⟨_, rfl, by decide⟩
    obtain ⟨t, ht, hl⟩ := hrun
    refine ⟨t, ht, Option.eq_none_iff_forall_ne_some.mpr fun a ha => ?_⟩
    have hcalls : ∀ c ∈ [spliced, .removeChild 1 "a"], c.OnServer := by
      intro c hc
      rcases List.mem_cons.mp hc with rfl | hc
      · exact hsub
      · rw [List.mem_singleton.mp hc]
        trivial
    obtain ⟨l, hm, -, hk⟩ := (server_index_follows_tree ht hcalls _ _ _).mp ha
    exact hl l hm hk

end FastTransport.FileSystem
