import FastTransport.FileSystem.InodeIndex

/-! `ResponseLookupInJob` and `NotifyInvalEntryJob`: the client's tree under the messages about its entries. -/

namespace FastTransport.FileSystem

namespace Children

def setServerInode (name : String) (inode : ℕ) : Children → Children
  | nil => nil
  | cons leaf children rest =>
    if leaf.name = name then cons { leaf with serverInode := inode } children rest
    else cons leaf children (rest.setServerInode name inode)

def NamesUnique : Children → Prop
  | nil => True
  | cons leaf children rest => rest.find leaf.name = none ∧ children.NamesUnique ∧ rest.NamesUnique

lemma lookup_modify (address : ℕ) (f : Children → Children) :
    ∀ cs : Children, (cs.modify address f).lookup address = (cs.lookup address).map fun p => (p.1, f p.2)
  | nil => rfl
  | cons leaf children rest => by
    rw [modify, lookup]
    split_ifs with ha
    · rw [lookup, if_pos ha, Option.map_some]
    · rw [lookup, if_neg ha, lookup_modify address f children, lookup_modify address f rest, Option.map_or]

lemma modify_modify (address : ℕ) (f g : Children → Children) :
    ∀ cs : Children, (cs.modify address f).modify address g = cs.modify address fun c => g (f c)
  | nil => rfl
  | cons leaf children rest => by
    rw [modify, modify]
    split_ifs with ha
    · rw [modify, if_pos ha]
    · rw [modify, if_neg ha, modify_modify address f g children, modify_modify address f g rest]

lemma modify_id (address : ℕ) : ∀ cs : Children, cs.modify address id = cs
  | nil => rfl
  | cons leaf children rest => by
    rw [modify, modify_id address children, modify_id address rest, id, ite_self]

lemma find_insert_self {new : TreeLeaf} {sub : Children} :
    ∀ {cs : Children}, cs.find new.name = none → (insert new sub cs).find new.name = some (new, sub)
  | nil, _ => if_pos rfl
  | cons leaf children rest, h => by
    rw [find] at h
    split_ifs at h with hn
    rw [insert, if_neg (Ne.symm hn)]
    split_ifs
    · exact if_pos rfl
    · rw [find, if_neg hn, find_insert_self h]

lemma find_insert_of_ne {new : TreeLeaf} {sub : Children} {other : String} (h : other ≠ new.name) :
    ∀ cs : Children, (insert new sub cs).find other = cs.find other
  | nil => if_neg (Ne.symm h)
  | cons leaf children rest => by
    rw [insert]
    split_ifs
    · rfl
    · exact if_neg (Ne.symm h)
    · rw [find, find_insert_of_ne h rest, find]

lemma find_erase_of_ne {name other : String} (h : other ≠ name) :
    ∀ cs : Children, (cs.erase name).find other = cs.find other
  | nil => rfl
  | cons leaf children rest => by
    rw [erase, find]
    split_ifs with hn ho
    · exact absurd (ho.symm.trans hn) h
    · rfl
    · rw [find, if_pos (by assumption)]
    · rw [find, if_neg (by assumption), find_erase_of_ne h rest]

lemma find_erase_self {name : String} : ∀ {cs : Children}, cs.NamesUnique → (cs.erase name).find name = none
  | nil, _ => rfl
  | cons leaf children rest, h => by
    rw [erase]
    split_ifs with hn
    · rw [← hn]
      exact h.1
    · rw [find, if_neg hn, find_erase_self h.2.2]

lemma find_setServerInode_self {name : String} {inode : ℕ} {leaf : TreeLeaf} {sub : Children} :
    ∀ {cs : Children}, cs.find name = some (leaf, sub) →
      (cs.setServerInode name inode).find name = some ({ leaf with serverInode := inode }, sub)
  | nil, h => by cases h
  | cons l children rest, h => by
    rw [find] at h
    rw [setServerInode]
    split_ifs at h ⊢ with hn
    · cases h
      exact if_pos hn
    · rw [find, if_neg hn, find_setServerInode_self h]

lemma find_setServerInode_of_ne {name other : String} {inode : ℕ} (h : other ≠ name) :
    ∀ cs : Children, (cs.setServerInode name inode).find other = cs.find other
  | nil => rfl
  | cons leaf children rest => by
    rw [setServerInode]
    split_ifs with hn
    · have ho : leaf.name ≠ other := fun ho => h (ho.symm.trans hn)
      rw [find, find, if_neg ho, if_neg ho]
    · rw [find, find_setServerInode_of_ne h rest, find]

lemma mem_of_find {name : String} {leaf : TreeLeaf} {sub : Children} :
    ∀ {cs : Children}, cs.find name = some (leaf, sub) → leaf ∈ cs.leaves ∧ leaf.name = name
  | nil, h => by cases h
  | cons l children rest, h => by
    rw [find] at h
    split_ifs at h with hn
    · cases h
      exact ⟨List.mem_cons_self, hn⟩
    · obtain ⟨hm, hname⟩ := mem_of_find h
      exact ⟨List.mem_cons_of_mem _ (List.mem_append_right _ hm), hname⟩

lemma rekey_of_notMem {address inode : ℕ} {cs : Children} (h : address ∉ cs.leaves.map TreeLeaf.address) :
    cs.mapLeaves (TreeLeaf.rekey address inode) = cs := by
  induction cs with
  | nil => rfl
  | cons leaf children rest ihc ihr =>
    simp only [leaves, List.map_cons, List.map_append, List.mem_cons, List.mem_append, not_or] at h
    rw [mapLeaves, ihc h.2.1, ihr h.2.2, TreeLeaf.rekey, if_neg (Ne.symm h.1)]

lemma rekey_eq_setServerInode {name : String} {inode : ℕ} {leaf : TreeLeaf} {sub : Children} :
    ∀ {cs : Children}, (cs.leaves.map TreeLeaf.address).Nodup → cs.find name = some (leaf, sub) →
      cs.mapLeaves (TreeLeaf.rekey leaf.address inode) = cs.setServerInode name inode
  | nil, _, h => by cases h
  | cons l children rest, hn, h => by
    rw [leaves, List.map_cons, List.map_append, List.nodup_cons, List.mem_append, not_or] at hn
    obtain ⟨-, hr, hd⟩ := List.nodup_append.mp hn.2
    rw [find] at h
    rw [mapLeaves, setServerInode]
    split_ifs at h ⊢ with hname
    · cases h
      rw [rekey_of_notMem hn.1.1, rekey_of_notMem hn.1.2, TreeLeaf.rekey, if_pos rfl]
    · have hmem := List.mem_map_of_mem (f := TreeLeaf.address) (mem_of_find h).1
      have hl : l.address ≠ leaf.address := fun he => hn.1.2 (he ▸ hmem)
      have hc : leaf.address ∉ children.leaves.map TreeLeaf.address := fun hm => hd _ hm _ hmem rfl
      rw [rekey_of_notMem hc, rekey_eq_setServerInode hr h, TreeLeaf.rekey, if_neg hl]

lemma mem_leaves_of_lookup {address : ℕ} {l leaf : TreeLeaf} {sub : Children} :
    ∀ {cs : Children}, cs.lookup address = some (l, sub) → leaf ∈ sub.leaves → leaf ∈ cs.leaves
  | nil, h, _ => by cases h
  | cons r children rest, h, hm => by
    rw [lookup] at h
    split_ifs at h
    · cases h
      exact List.mem_cons_of_mem _ (List.mem_append_left _ hm)
    · rcases Option.or_eq_some_iff.mp h with h | ⟨-, h⟩
      · exact List.mem_cons_of_mem _ (List.mem_append_left _ (mem_leaves_of_lookup h hm))
      · exact List.mem_cons_of_mem _ (List.mem_append_right _ (mem_leaves_of_lookup h hm))

lemma nodup_of_lookup {address : ℕ} {l : TreeLeaf} {sub : Children} :
    ∀ {cs : Children}, (cs.leaves.map TreeLeaf.address).Nodup → cs.lookup address = some (l, sub) →
      ((l :: sub.leaves).map TreeLeaf.address).Nodup
  | nil, _, h => by cases h
  | cons r children rest, hn, h => by
    rw [leaves, List.map_cons, List.map_append, List.nodup_cons, List.mem_append, not_or] at hn
    obtain ⟨hc, hr, -⟩ := List.nodup_append.mp hn.2
    rw [lookup] at h
    split_ifs at h
    · cases h
      exact List.nodup_cons.mpr ⟨hn.1.1, hc⟩
    · rcases Option.or_eq_some_iff.mp h with h | ⟨-, h⟩
      · exact nodup_of_lookup hc h
      · exact nodup_of_lookup hr h

lemma exists_lookup {address : ℕ} :
    ∀ {cs : Children}, address ∈ cs.leaves.map TreeLeaf.address → ∃ q, cs.lookup address = some q
  | nil, h => by cases h
  | cons leaf children rest, h => by
    rw [lookup]
    split_ifs with ha
    · exact ⟨_, rfl⟩
    · rw [leaves, List.map_cons, List.map_append, List.mem_cons, List.mem_append] at h
      rcases h with h | h | h
      · exact absurd h.symm ha
      · obtain ⟨q, hq⟩ := exists_lookup h
        exact ⟨q, by rw [hq, Option.some_or]⟩
      · obtain ⟨q, hq⟩ := exists_lookup h
        cases hc : children.lookup address with
        | none => exact ⟨q, by rw [hq, Option.none_or]⟩
        | some q' => exact ⟨q', by rw [Option.some_or]⟩

lemma rekey_eq_modify {parent : ℕ} {name : String} {inode : ℕ} {l leaf : TreeLeaf} {siblings sub : Children} :
    ∀ {cs : Children}, (cs.leaves.map TreeLeaf.address).Nodup → cs.lookup parent = some (l, siblings) →
      siblings.find name = some (leaf, sub) →
      cs.mapLeaves (TreeLeaf.rekey leaf.address inode) = cs.modify parent (setServerInode name inode)
  | nil, _, h, _ => by cases h
  | cons r children rest, hn, h, hf => by
    rw [leaves, List.map_cons, List.map_append, List.nodup_cons, List.mem_append, not_or] at hn
    obtain ⟨hc, hr, hd⟩ := List.nodup_append.mp hn.2
    rw [lookup] at h
    rw [mapLeaves, modify]
    split_ifs at h ⊢ with ha
    · obtain ⟨rfl, rfl⟩ := Prod.mk.inj (Option.some.inj h)
      have hmem := List.mem_map_of_mem (f := TreeLeaf.address) (mem_of_find hf).1
      have hroot : r.address ≠ leaf.address := fun he => hn.1.1 (he ▸ hmem)
      have hrest : leaf.address ∉ rest.leaves.map TreeLeaf.address := fun hm => hd _ hmem _ hm rfl
      rw [TreeLeaf.rekey, if_neg hroot, rekey_eq_setServerInode hc hf, rekey_of_notMem hrest]
    · rcases Option.or_eq_some_iff.mp h with h | ⟨-, h⟩
      · have hmem := List.mem_map_of_mem (f := TreeLeaf.address) (mem_leaves_of_lookup h (mem_of_find hf).1)
        have hroot : r.address ≠ leaf.address := fun he => hn.1.1 (he ▸ hmem)
        have hrest : leaf.address ∉ rest.leaves.map TreeLeaf.address := fun hm => hd _ hmem _ hm rfl
        have hparent : parent ∉ rest.leaves.map TreeLeaf.address := fun hm =>
          hd _ (List.mem_map.mpr ⟨l, mem_of_lookup h⟩) _ hm rfl
        rw [TreeLeaf.rekey, if_neg hroot, rekey_eq_modify hc h hf, rekey_of_notMem hrest, modify_of_notMem hparent]
      · have hmem := List.mem_map_of_mem (f := TreeLeaf.address) (mem_leaves_of_lookup h (mem_of_find hf).1)
        have hroot : r.address ≠ leaf.address := fun he => hn.1.2 (he ▸ hmem)
        have hchildren : leaf.address ∉ children.leaves.map TreeLeaf.address := fun hm => hd _ hm _ hmem rfl
        have hparent : parent ∉ children.leaves.map TreeLeaf.address := fun hm =>
          hd _ hm _ (List.mem_map.mpr ⟨l, mem_of_lookup h⟩) rfl
        rw [TreeLeaf.rekey, if_neg hroot, rekey_eq_modify hr h hf, rekey_of_notMem hchildren,
          modify_of_notMem hparent]

lemma find_mapLeaves {f : TreeLeaf → TreeLeaf} (hf : ∀ l, (f l).name = l.name) {name : String} :
    ∀ {cs : Children}, cs.find name = none → (cs.mapLeaves f).find name = none
  | nil, _ => rfl
  | cons leaf children rest, h => by
    rw [find] at h
    split_ifs at h with hn
    rw [mapLeaves, find, hf, if_neg hn, find_mapLeaves hf h]

namespace NamesUnique

lemma insert {new : TreeLeaf} {sub : Children} (hsub : sub.NamesUnique) :
    ∀ {cs : Children}, cs.NamesUnique → cs.find new.name = none → (insert new sub cs).NamesUnique
  | nil, _, _ => ⟨rfl, hsub, trivial⟩
  | cons leaf children rest, h, hf => by
    have hrest := hf
    rw [find] at hrest
    split_ifs at hrest with hn
    rw [Children.insert, if_neg (Ne.symm hn)]
    split_ifs
    · exact ⟨hf, hsub, h⟩
    · exact ⟨(find_insert_of_ne hn rest).trans h.1, h.2.1, insert hsub h.2.2 hrest⟩

lemma erase {name : String} : ∀ {cs : Children}, cs.NamesUnique → (cs.erase name).NamesUnique
  | nil, _ => trivial
  | cons leaf children rest, h => by
    rw [Children.erase]
    split_ifs with hn
    · exact h.2.2
    · exact ⟨(find_erase_of_ne hn rest).trans h.1, h.2.1, erase h.2.2⟩

lemma setServerInode {name : String} {inode : ℕ} :
    ∀ {cs : Children}, cs.NamesUnique → (cs.setServerInode name inode).NamesUnique
  | nil, _ => trivial
  | cons leaf children rest, h => by
    rw [Children.setServerInode]
    split_ifs with hn
    · exact h
    · exact ⟨(find_setServerInode_of_ne hn rest).trans h.1, h.2.1, setServerInode h.2.2⟩

lemma find_modify (address : ℕ) (f : Children → Children) {name : String} :
    ∀ {cs : Children}, cs.find name = none → (cs.modify address f).find name = none
  | nil, _ => rfl
  | cons leaf children rest, h => by
    rw [find] at h
    split_ifs at h with hn
    rw [Children.modify]
    split_ifs
    · rw [find, if_neg hn, h]
    · rw [find, if_neg hn, find_modify address f h]

lemma modify {address : ℕ} {f : Children → Children} {p : TreeLeaf × Children} :
    ∀ {cs : Children}, cs.NamesUnique → (cs.leaves.map TreeLeaf.address).Nodup → cs.lookup address = some p →
      (p.2.NamesUnique → (f p.2).NamesUnique) → (cs.modify address f).NamesUnique
  | nil, _, _, hp, _ => by cases hp
  | cons leaf children rest, h, hn, hp, hf => by
    rw [leaves, List.map_cons, List.map_append, List.nodup_cons] at hn
    obtain ⟨hc, hr, hd⟩ := List.nodup_append.mp hn.2
    rw [lookup] at hp
    rw [Children.modify]
    split_ifs at hp ⊢
    · cases hp
      exact ⟨h.1, hf h.2.1, h.2.2⟩
    · rcases Option.or_eq_some_iff.mp hp with hp | ⟨-, hp⟩
      · have hmem := List.mem_map.mpr ⟨p.1, mem_of_lookup hp⟩
        rw [modify_of_notMem fun hm => hd _ hmem _ hm rfl]
        exact ⟨h.1, modify h.2.1 hc hp hf, h.2.2⟩
      · have hmem := List.mem_map.mpr ⟨p.1, mem_of_lookup hp⟩
        rw [modify_of_notMem fun hm => hd _ hm _ hmem rfl]
        exact ⟨find_modify address f h.1, h.2.1, modify h.2.2 hr hp hf⟩

lemma of_find {name : String} {p : TreeLeaf × Children} :
    ∀ {cs : Children}, cs.NamesUnique → cs.find name = some p → p.2.NamesUnique
  | nil, _, hp => by cases hp
  | cons leaf children rest, h, hp => by
    rw [find] at hp
    split_ifs at hp
    · cases hp
      exact h.2.1
    · exact of_find h.2.2 hp

lemma of_lookup {address : ℕ} {p : TreeLeaf × Children} :
    ∀ {cs : Children}, cs.NamesUnique → cs.lookup address = some p → p.2.NamesUnique
  | nil, _, hp => by cases hp
  | cons leaf children rest, h, hp => by
    rw [lookup] at hp
    split_ifs at hp
    · cases hp
      exact h.2.1
    · rcases Option.or_eq_some_iff.mp hp with hp | ⟨-, hp⟩
      · exact of_lookup h.2.1 hp
      · exact of_lookup h.2.2 hp

lemma mapLeaves {f : TreeLeaf → TreeLeaf} (hf : ∀ l, (f l).name = l.name) :
    ∀ {cs : Children}, cs.NamesUnique → (cs.mapLeaves f).NamesUnique
  | nil, _ => trivial
  | cons leaf children rest, h => by
    rw [Children.mapLeaves]
    refine ⟨?_, mapLeaves hf h.2.1, mapLeaves hf h.2.2⟩
    rw [hf]
    exact find_mapLeaves hf h.1

end NamesUnique

end Children

namespace FileTree

lemma lookup_modify {t t' : FileTree} {address : ℕ} {f : Children → Children} (hroot : t'.root = t.root)
    (hchildren : t'.children = t.modify address f) :
    t'.lookup address = (t.lookup address).map fun p => (p.1, f p.2) := by
  rw [lookup, lookup, hroot, hchildren, modify]
  split_ifs
  · rfl
  · exact Children.lookup_modify address f t.children

lemma modify_id (t : FileTree) (address : ℕ) : t.modify address id = t.children := by
  rw [modify, Children.modify_id, id, ite_self]

lemma modify_modify {t t' : FileTree} {address : ℕ} {f g : Children → Children} (hroot : t'.root = t.root)
    (hchildren : t'.children = t.modify address f) : t'.modify address g = t.modify address fun c => g (f c) := by
  rw [modify, modify, hroot, hchildren, modify]
  split_ifs
  · rfl
  · exact Children.modify_modify address f g t.children

lemma leaves_insert_perm {t : FileTree} {parent : ℕ} {p : TreeLeaf × Children} {leaf : TreeLeaf}
    (hn : (t.leaves.map TreeLeaf.address).Nodup) (hp : t.lookup parent = some p) (hf : p.2.find leaf.name = none) :
    (leaf :: t.leaves).Perm (t.root :: (t.modify parent (Children.insert leaf .nil)).leaves) := by
  have hperm : ([leaf] ++ t.children.leaves).Perm (t.modify parent (Children.insert leaf .nil)).leaves :=
    modify_perm _ [] hn hp (@Children.insert_perm leaf .nil p.2 (congrArg Option.isSome hf))
  exact (List.Perm.swap t.root leaf t.children.leaves).trans (hperm.cons t.root)

lemma leaves_erase_perm {t : FileTree} {parent : ℕ} {p : TreeLeaf × Children} {name : String} {leaf : TreeLeaf}
    {sub : Children} (hn : (t.leaves.map TreeLeaf.address).Nodup) (hp : t.lookup parent = some p)
    (hf : p.2.find name = some (leaf, sub)) :
    t.leaves.Perm ((leaf :: sub.leaves) ++ t.root :: (t.modify parent (Children.erase name)).leaves) :=
  ((modify_perm [] _ hn hp (Children.erase_perm hf)).cons t.root).trans List.perm_middle.symm

/-- What memory and the maps of children make of any tree, and that only leaves with a tree are registered. -/
structure WellFormed (t : FileTree) : Prop where
  addresses : (t.leaves.map TreeLeaf.address).Nodup
  nonzero : ∀ l ∈ t.leaves, l.address ≠ 0
  names : t.children.NamesUnique
  registered : ∀ i a, t.serverInodeIndex i = some a → ∀ l ∈ t.leaves, l.address = a → l.tree = true

/-- A new leaf lies apart from every leaf and from every object that a `weak_ptr` of the index keeps allocated. -/
structure Fresh (t : FileTree) (address : ℕ) : Prop where
  nonzero : address ≠ 0
  leaves : address ∉ t.leaves.map TreeLeaf.address
  index : ∀ i, t.serverInodeIndex i ≠ some address

namespace WellFormed

variable {t t' : FileTree} {parent : ℕ} {p : TreeLeaf × Children}

lemma create (name : String) {address : ℕ} (h : address ≠ 0) : (create name address).WellFormed where
  addresses := List.nodup_singleton _
  nonzero l hl := by
    rw [List.mem_singleton.mp hl]
    exact h
  names := trivial
  registered i a hi := by cases hi

lemma eq_of_address (h : t.WellFormed) {l m : TreeLeaf} (hl : l ∈ t.leaves) (hm : m ∈ t.leaves)
    (he : l.address = m.address) : l = m := List.inj_on_of_nodup_map h.addresses hl hm he

lemma mem_children (hp : t.lookup parent = some p) {l : TreeLeaf} (hl : l ∈ p.2.leaves) : l ∈ t.children.leaves := by
  rw [lookup] at hp
  split_ifs at hp
  · cases hp
    exact hl
  · exact Children.mem_leaves_of_lookup hp hl

lemma namesUnique_modify (h : t.WellFormed) (hp : t.lookup parent = some p) {f : Children → Children}
    (hf : p.2.NamesUnique → (f p.2).NamesUnique) : (t.modify parent f).NamesUnique := by
  rw [lookup] at hp
  rw [modify]
  split_ifs at hp ⊢
  · cases hp
    exact hf h.names
  · exact h.names.modify (List.nodup_cons.mp h.addresses).2 hp hf

lemma namesUnique_of_lookup (h : t.WellFormed) (hp : t.lookup parent = some p) : p.2.NamesUnique := by
  rw [lookup] at hp
  split_ifs at hp
  · cases hp
    exact h.names
  · exact h.names.of_lookup hp

lemma setServerInode_child (h : t.WellFormed) (hp : t.lookup parent = some p) {name : String} {leaf : TreeLeaf}
    {sub : Children} (hf : p.2.find name = some (leaf, sub)) (inode : ℕ) :
    ∃ t', t.setServerInode leaf.address inode = some t' ∧ t'.root = t.root ∧
      t'.children = t.modify parent (Children.setServerInode name inode) ∧
      t'.serverInodeIndex = if leaf.tree then
        (t.serverInodeIndex.unregisterLeaf leaf).registerLeaf { leaf with serverInode := inode }
        else t.serverInodeIndex := by
  have hmem := mem_children hp (Children.mem_of_find hf).1
  have hn := List.nodup_cons.mp h.addresses
  have hroot : t.root.address ≠ leaf.address := fun he => hn.1 (he ▸ List.mem_map_of_mem hmem)
  obtain ⟨q, hq⟩ := Children.exists_lookup (List.mem_map_of_mem (f := TreeLeaf.address) hmem)
  have hq' : t.lookup leaf.address = some q := by rw [lookup, if_neg hroot, hq]
  have hleaf : q.1 = leaf := by
    obtain ⟨hqm, hqa⟩ := mem_of_lookup hq'
    exact h.eq_of_address hqm (List.mem_cons_of_mem _ hmem) hqa
  obtain ⟨t', ht'⟩ : ∃ t', t.setServerInode leaf.address inode = some t' := by
    rw [setServerInode, hq']
    exact ⟨_, rfl⟩
  obtain ⟨q', hq'', hr, hc, hx⟩ := setServerInode_eq_some ht'
  obtain rfl := Option.some.inj (hq'.symm.trans hq'')
  refine ⟨t', ht', ?_, ?_, ?_⟩
  · rw [hr, TreeLeaf.rekey, if_neg hroot]
  · rw [hc, modify]
    rw [lookup] at hp
    split_ifs at hp ⊢
    · cases hp
      exact Children.rekey_eq_setServerInode hn.2 hf
    · exact Children.rekey_eq_modify hn.2 hp hf
  · rw [hx, hleaf, TreeLeaf.rekey, if_pos rfl]

lemma setServerInode (h : t.WellFormed) {address inode : ℕ} (ht : t.setServerInode address inode = some t') :
    t'.WellFormed := by
  obtain ⟨q, hq, hr, hc, hx⟩ := setServerInode_eq_some ht
  obtain ⟨hqm, hqa⟩ := mem_of_lookup hq
  have hleaves : t'.leaves = t.leaves.map (TreeLeaf.rekey address inode) := by
    rw [leaves, leaves, hr, hc, Children.leaves_mapLeaves, List.map_cons]
  have haddresses : t'.leaves.map TreeLeaf.address = t.leaves.map TreeLeaf.address := by
    rw [hleaves, List.map_map]
    exact List.map_congr_left fun l _ => TreeLeaf.rekey_address address inode l
  have hnames (l : TreeLeaf) : (l.rekey address inode).name = l.name := by
    rw [TreeLeaf.rekey]
    split_ifs <;> rfl
  refine ⟨haddresses ▸ h.addresses, fun l hl => ?_, hc ▸ h.names.mapLeaves hnames, fun i a hi l hl hla => ?_⟩
  · rw [hleaves] at hl
    obtain ⟨m, hm, rfl⟩ := List.mem_map.mp hl
    rw [TreeLeaf.rekey_address]
    exact h.nonzero m hm
  · rw [hleaves] at hl
    obtain ⟨m, hm, rfl⟩ := List.mem_map.mp hl
    rw [TreeLeaf.rekey_address] at hla
    rw [TreeLeaf.rekey_tree]
    rw [hx] at hi
    split_ifs at hi with htree
    · rw [InodeIndex.registerLeaf] at hi
      by_cases hk : i = (q.1.rekey address inode).getServerInode
      · rw [hk, Function.update_self, TreeLeaf.rekey_address] at hi
        rw [h.eq_of_address hm hqm (hla.trans (Option.some.inj hi).symm)]
        exact htree
      · rw [Function.update_of_ne hk, InodeIndex.unregisterLeaf] at hi
        by_cases hk' : i = q.1.getServerInode
        · rw [hk', Function.update_self] at hi
          cases hi
        · rw [Function.update_of_ne hk'] at hi
          exact h.registered i a hi m hm hla
    · exact h.registered i a hi m hm hla

lemma addChild_new (h : t.WellFormed) {e : DirectoryEntry} (hfresh : t.Fresh e.address)
    (hp : t.lookup parent = some p) (hf : p.2.find e.name = none) :
    ∃ t', t.addChild parent e = some t' ∧ t'.WellFormed ∧ t'.root = t.root ∧
      t'.children = t.modify parent (Children.insert ⟨e.address, e.name, e.type, e.size, 0, p.1.tree⟩ .nil) := by
  set leaf : TreeLeaf := ⟨e.address, e.name, e.type, e.size, 0, p.1.tree⟩
  have hadd : t.addChild parent e = some { t with
      children := t.modify parent (Children.insert leaf .nil)
      serverInodeIndex := if p.1.tree then t.serverInodeIndex.registerLeaf leaf else t.serverInodeIndex } := by
    rw [addChild, hp, Option.map_some]
    dsimp only
    rw [hf]
    rfl
  have hleaves : (leaf :: t.leaves).Perm (t.root :: (t.modify parent (Children.insert leaf .nil)).leaves) :=
    leaves_insert_perm h.addresses hp hf
  refine ⟨_, hadd, ⟨?_, fun l hl => ?_, ?_, fun i a hi l hl hla => ?_⟩, rfl, rfl⟩
  · refine (hleaves.map TreeLeaf.address).nodup_iff.mp ?_
    exact List.nodup_cons.mpr ⟨hfresh.leaves, h.addresses⟩
  · rcases List.mem_cons.mp (hleaves.mem_iff.mpr hl) with rfl | hl
    · exact hfresh.nonzero
    · exact h.nonzero l hl
  · have hnil : Children.nil.NamesUnique := trivial
    exact h.namesUnique_modify hp fun hn => hnil.insert hn hf
  · dsimp only at hi
    rcases List.mem_cons.mp (hleaves.mem_iff.mpr hl) with rfl | hl
    · -- without a tree nothing was registered, and the index does not hold the new object
      by_contra htree
      rw [if_neg htree] at hi
      exact hfresh.index i (hi.trans (congrArg some hla.symm))
    · split_ifs at hi
      · rw [InodeIndex.registerLeaf] at hi
        by_cases hk : i = leaf.getServerInode
        · rw [hk, Function.update_self] at hi
          exact absurd (List.mem_map.mpr ⟨l, hl, hla.trans (Option.some.inj hi).symm⟩) hfresh.leaves
        · rw [Function.update_of_ne hk] at hi
          exact h.registered i a hi l hl hla
      · exact h.registered i a hi l hl hla

lemma removeChild (h : t.WellFormed) {name : String} (ht : t.removeChild parent name = some t') : t'.WellFormed := by
  obtain ⟨p, hp, rfl⟩ := Option.map_eq_some_iff.mp ht
  cases hf : p.2.find name with
  | none => exact h
  | some e =>
    obtain ⟨leaf, sub⟩ := e
    have hleaves := leaves_erase_perm h.addresses hp hf
    have hsub : ∀ l ∈ t.root :: (t.modify parent (Children.erase name)).leaves, l ∈ t.leaves := fun l hl =>
      hleaves.mem_iff.mpr (List.mem_append_right _ hl)
    have haddresses := (hleaves.map TreeLeaf.address).nodup_iff.mp h.addresses
    rw [List.map_append, List.nodup_append] at haddresses
    refine ⟨haddresses.2.1, fun l hl => h.nonzero l (hsub l hl), h.namesUnique_modify hp Children.NamesUnique.erase,
      fun i a hi l hl hla => h.registered i a ?_ l (hsub l hl) hla⟩
    dsimp only at hi
    split_ifs at hi
    · rw [InodeIndex.walk_unregisterLeaf] at hi
      split_ifs at hi
      exact hi
    · exact hi

end WellFormed

end FileTree

end FastTransport.FileSystem

namespace FastTransport.TaskQueue

open FileSystem Lib.Runs

inductive WatchEventType
  | modified | created | deleted | movedFrom | movedTo
  deriving DecidableEq, Repr

structure NotifyInvalEntry where
  eventType : WatchEventType
  parentServerInode : ℕ
  name : String
  serverInode : ℕ
  size : ℕ
  isDir : Bool
  deriving DecidableEq, Repr

/-- What `ResponseLookupInJob` reads and uses for the tree; the rest goes into the reply to the kernel. -/
structure ResponseLookup where
  parentId : ℕ
  name : String
  error : ℕ
  inode : ℕ
  mode : ℕ
  size : ℕ
  deriving DecidableEq, Repr

def sIsDir (mode : ℕ) : Bool := mode &&& 0o170000 = 0o040000

def ResponseLookup.fuseRootId : ℕ := 1

def fileType (isDir : Bool) : FileType := if isDir then .directory else .regular

/-- `AddChild` and then `SetServerInode` on the leaf it returns, the old one where the name is there. -/
def enter (t : FileTree) (parent : ℕ) (e : DirectoryEntry) (serverInode : ℕ) : Option FileTree :=
  (t.allocate [e.address]).bind fun t =>
    (t.addChild parent e).bind fun t =>
      (t.lookup parent).bind fun p =>
        (p.2.find e.name).bind fun child => t.setServerInode child.1.address serverInode

def notifyInvalEntryJob (t : FileTree) (held : ℕ → Bool) (address : ℕ) (m : NotifyInvalEntry) : Option FileTree :=
  match t.findLeafByServerInode held m.parentServerInode with
  | none => some t
  | some parent =>
    match m.eventType with
    | .created | .movedTo => enter t parent ⟨m.name, fileType m.isDir, m.size, address⟩ m.serverInode
    | .deleted | .movedFrom => t.removeChild parent m.name
    | .modified => some t

def parentLeaf (t : FileTree) (held : ℕ → Bool) (parentId : ℕ) : Option ℕ :=
  if parentId = ResponseLookup.fuseRootId then some t.root.address else t.findLeafByServerInode held parentId

def responseLookupInJob (t : FileTree) (held : ℕ → Bool) (address : ℕ) (m : ResponseLookup) : Option FileTree :=
  if m.error ≠ 0 then some t
  else
    match parentLeaf t held m.parentId with
    | none => some t
    | some parent => enter t parent ⟨m.name, fileType (sIsDir m.mode), m.size, address⟩ m.inode

/-- Below the parent nothing but the entry of that name differs, and nothing elsewhere. -/
def OnlyEntry (t t' : FileTree) (parent : ℕ) (name : String) : Prop :=
  t'.root = t.root ∧ ∃ f : Children → Children, t'.children = t.modify parent f ∧
    ∀ p, t.lookup parent = some p → ∀ other ≠ name, (f p.2).find other = p.2.find other

def HasEntry (t t' : FileTree) (held : ℕ → Bool) (parent : ℕ) (e : DirectoryEntry) (serverInode : ℕ) : Prop :=
  ∃ p p' leaf sub, t.lookup parent = some p ∧ t'.lookup parent = some p' ∧ p'.1 = p.1 ∧
    p'.2.find e.name = some (leaf, sub) ∧ sub = ((p.2.find e.name).map Prod.snd).getD .nil ∧
    leaf.type = e.type ∧ leaf.size = e.size ∧ leaf.getServerInode = serverInode ∧
    t'.findLeafByServerInode held serverInode = some leaf.address

def Follows (t t' : FileTree) (held : ℕ → Bool) (parent : ℕ) (e : DirectoryEntry) (serverInode : ℕ) : Prop :=
  HasEntry t t' held parent e serverInode ∧ OnlyEntry t t' parent e.name

def Forgets (t t' : FileTree) (parent : ℕ) (name : String) : Prop :=
  (∃ p', t'.lookup parent = some p' ∧ p'.2.find name = none) ∧ OnlyEntry t t' parent name

/-- The message fits what the tree has: the name is new or known with these attributes, and its leaf has a tree. -/
def MessageFits (t : FileTree) (p : TreeLeaf × Children) (e : DirectoryEntry) (serverInode : ℕ) : Prop :=
  serverInode ≠ 0 ∧ serverInode ≠ t.root.getServerInode ∧
    match p.2.find e.name with
    | none => p.1.tree = true
    | some child => child.1.type = e.type ∧ child.1.size = e.size ∧ child.1.tree = true

section

variable {t : FileTree} {held : ℕ → Bool} {parent : ℕ} {p : TreeLeaf × Children} {e : DirectoryEntry}
  {name : String} {leaf : TreeLeaf} {sub : Children} {inode : ℕ}

lemma findLeafByServerInode_iff {t' : FileTree} (h : t.WellFormed) (hleaf : leaf ∈ t.children.leaves)
    (hinode : inode ≠ 0) (hroot : t'.root = t.root) (hkept : leaf.address ∈ t'.leaves.map TreeLeaf.address)
    (hindex : t'.serverInodeIndex = if leaf.tree then
      (t.serverInodeIndex.unregisterLeaf leaf).registerLeaf { leaf with serverInode := inode }
      else t.serverInodeIndex) :
    t'.findLeafByServerInode held inode = some leaf.address ↔
      inode ≠ t.root.getServerInode ∧ leaf.tree = true := by
  have hn := List.nodup_cons.mp h.addresses
  have hapart : t.root.address ≠ leaf.address := fun he => hn.1 (he ▸ List.mem_map_of_mem hleaf)
  rw [FileTree.findLeafByServerInode, hroot]
  split_ifs with hi
  · exact iff_of_false (fun hf => hapart (Option.some.inj hf)) fun hf => hf.1 hi
  · rw [hindex]
    split_ifs with htree
    · have hkey : ({ leaf with serverInode := inode } : TreeLeaf).getServerInode = inode := if_pos hinode
      rw [InodeIndex.registerLeaf, hkey, Function.update_self]
      refine iff_of_true (Option.filter_eq_some_iff.mpr ⟨rfl, ?_⟩) ⟨hi, htree⟩
      rw [decide_eq_true hkept, Bool.true_or]
    · refine iff_of_false (fun hf => htree ?_) fun hf => htree hf.2
      obtain ⟨hi, -⟩ := Option.filter_eq_some_iff.mp hf
      exact h.registered inode leaf.address hi leaf (List.mem_cons_of_mem _ hleaf) rfl

lemma setServerInode_spec (h : t.WellFormed) (hp : t.lookup parent = some p)
    (hf : p.2.find name = some (leaf, sub)) (held : ℕ → Bool) (inode : ℕ) :
    ∃ t' p', t.setServerInode leaf.address inode = some t' ∧ t'.WellFormed ∧ t'.root = t.root ∧
      t'.children = t.modify parent (Children.setServerInode name inode) ∧
      t'.lookup parent = some p' ∧ p'.1 = p.1 ∧
      p'.2.find name = some ({ leaf with serverInode := inode }, sub) ∧
      ((({ leaf with serverInode := inode } : TreeLeaf).getServerInode = inode ∧
          t'.findLeafByServerInode held inode = some leaf.address) ↔
        inode ≠ 0 ∧ inode ≠ t.root.getServerInode ∧ leaf.tree = true) := by
  have hleaf := FileTree.WellFormed.mem_children hp (Children.mem_of_find hf).1
  obtain ⟨t', ht', hroot, hchildren, hindex⟩ := h.setServerInode_child hp hf inode
  have hwf := h.setServerInode ht'
  have hlookup := FileTree.lookup_modify hroot hchildren
  rw [hp, Option.map_some] at hlookup
  have hfind : (p.2.setServerInode name inode).find name = some ({ leaf with serverInode := inode }, sub) :=
    Children.find_setServerInode_self hf
  have hkept : leaf.address ∈ t'.leaves.map TreeLeaf.address := by
    have hmem := FileTree.WellFormed.mem_children hlookup (Children.mem_of_find hfind).1
    exact List.mem_map.mpr ⟨_, List.mem_cons_of_mem _ hmem, rfl⟩
  refine ⟨t', _, ht', hwf, hroot, hchildren, hlookup, rfl, hfind, ?_⟩
  by_cases hinode : inode = 0
  · refine iff_of_false (fun hf => ?_) fun hf => hf.1 hinode
    have hkey : ({ leaf with serverInode := inode } : TreeLeaf).getServerInode = leaf.address :=
      if_neg (not_not.mpr hinode)
    exact h.nonzero leaf (List.mem_cons_of_mem _ hleaf) (hkey.symm.trans (hf.1.trans hinode))
  · have hkey : ({ leaf with serverInode := inode } : TreeLeaf).getServerInode = inode := if_pos hinode
    rw [findLeafByServerInode_iff h hleaf hinode hroot hkept hindex]
    exact ⟨fun hf => ⟨hinode, hf.2⟩, fun hf => ⟨hkey, hf.2⟩⟩

lemma hasEntry_iff {t' : FileTree} {p' : TreeLeaf × Children} (hp : t.lookup parent = some p)
    (hp' : t'.lookup parent = some p') (hparent : p'.1 = p.1)
    (hf : p'.2.find e.name = some ({ leaf with serverInode := inode }, sub))
    (hsub : sub = ((p.2.find e.name).map Prod.snd).getD .nil) :
    HasEntry t t' held parent e inode ↔ (leaf.type = e.type ∧ leaf.size = e.size) ∧
      ({ leaf with serverInode := inode } : TreeLeaf).getServerInode = inode ∧
        t'.findLeafByServerInode held inode = some leaf.address := by
  constructor
  · rintro ⟨q, q', leaf', sub', hq, hq', -, hf', -, htype, hsize, hkey, hfound⟩
    obtain rfl := Option.some.inj (hp'.symm.trans hq')
    obtain ⟨rfl, rfl⟩ := Prod.mk.inj (Option.some.inj (hf.symm.trans hf'))
    exact ⟨⟨htype, hsize⟩, hkey, hfound⟩
  · rintro ⟨⟨htype, hsize⟩, hkey, hfound⟩
    exact ⟨p, p', _, sub, hp, hp', hparent, hf, hsub, htype, hsize, hkey, hfound⟩

lemma enter_known (h : t.WellFormed) (hfresh : t.Fresh e.address) (hp : t.lookup parent = some p)
    (hf : p.2.find e.name = some (leaf, sub)) (held : ℕ → Bool) (inode : ℕ) :
    ∃ t', enter t parent e inode = some t' ∧ t'.WellFormed ∧ OnlyEntry t t' parent e.name ∧
      (HasEntry t t' held parent e inode ↔ MessageFits t p e inode) := by
  obtain ⟨t', p', ht', hwf, hroot, hchildren, hp', hparent, hf', hiff⟩ := setServerInode_spec h hp hf held inode
  have hadd : t.addChild parent e = some t := by
    rw [FileTree.addChild, hp, Option.map_some]
    dsimp only
    rw [hf]
    rfl
  have hallocate : t.allocate [e.address] = some t := by
    rw [FileTree.allocate, if_pos ⟨List.nodup_singleton _, fun a ha => by
      rw [List.mem_singleton.mp ha]
      exact hfresh.leaves⟩]
  have henter : enter t parent e inode = some t' := by
    rw [enter, hallocate, Option.bind_some, hadd, Option.bind_some, hp, Option.bind_some, hf, Option.bind_some, ht']
  refine ⟨t', henter, hwf, ⟨hroot, _, hchildren, fun q hq other hother => ?_⟩, ?_⟩
  · exact Children.find_setServerInode_of_ne hother q.2
  · rw [hasEntry_iff hp hp' hparent hf' (by rw [hf]; rfl), hiff, MessageFits, hf]
    dsimp only
    tauto

lemma enter_new (h : t.WellFormed) (hfresh : t.Fresh e.address) (hp : t.lookup parent = some p)
    (hf : p.2.find e.name = none) (held : ℕ → Bool) (inode : ℕ) :
    ∃ t', enter t parent e inode = some t' ∧ t'.WellFormed ∧ OnlyEntry t t' parent e.name ∧
      (HasEntry t t' held parent e inode ↔ MessageFits t p e inode) := by
  obtain ⟨u, hadd, hu, huroot, huchildren⟩ := h.addChild_new hfresh hp hf
  set leaf : TreeLeaf := ⟨e.address, e.name, e.type, e.size, 0, p.1.tree⟩
  have hup := FileTree.lookup_modify huroot huchildren
  rw [hp, Option.map_some] at hup
  have huf : (Children.insert leaf .nil p.2).find e.name = some (leaf, .nil) := @Children.find_insert_self leaf .nil p.2 hf
  obtain ⟨t', p', ht', hwf, hroot, hchildren, hp', hparent, hf', hiff⟩ := setServerInode_spec hu hup huf held inode
  have hallocate : t.allocate [e.address] = some t := by
    rw [FileTree.allocate, if_pos ⟨List.nodup_singleton _, fun a ha => by
      rw [List.mem_singleton.mp ha]
      exact hfresh.leaves⟩]
  have henter : enter t parent e inode = some t' := by
    rw [enter, hallocate, Option.bind_some, hadd, Option.bind_some, hup, Option.bind_some, huf, Option.bind_some, ht']
  refine ⟨t', henter, hwf, ⟨hroot.trans huroot, fun cs => (Children.insert leaf .nil cs).setServerInode e.name inode,
    ?_, fun q hq other hother => ?_⟩, ?_⟩
  · rw [hchildren, FileTree.modify_modify huroot huchildren]
  · rw [Children.find_setServerInode_of_ne hother, Children.find_insert_of_ne hother]
  · rw [hasEntry_iff hp hp' hparent hf' (by rw [hf]; rfl), hiff, MessageFits, hf, huroot]
    exact ⟨fun hr => hr.2, fun hr => ⟨⟨rfl, rfl⟩, hr⟩⟩

lemma enter_spec (h : t.WellFormed) (hfresh : t.Fresh e.address) (hp : t.lookup parent = some p) (held : ℕ → Bool)
    (inode : ℕ) :
    ∃ t', enter t parent e inode = some t' ∧ t'.WellFormed ∧
      (Follows t t' held parent e inode ↔ MessageFits t p e inode) := by
  have hspec : ∃ t', enter t parent e inode = some t' ∧ t'.WellFormed ∧ OnlyEntry t t' parent e.name ∧
      (HasEntry t t' held parent e inode ↔ MessageFits t p e inode) := by
    cases hf : p.2.find e.name with
    | none => exact enter_new h hfresh hp hf held inode
    | some child => exact enter_known h hfresh hp hf held inode
  obtain ⟨t', henter, hwf, honly, hiff⟩ := hspec
  exact ⟨t', henter, hwf, ⟨fun hfollows => hiff.mp hfollows.1, fun hfits => ⟨hiff.mpr hfits, honly⟩⟩⟩

lemma removeChild_spec (h : t.WellFormed) (hp : t.lookup parent = some p) (name : String) :
    ∃ t', t.removeChild parent name = some t' ∧ t'.WellFormed ∧ Forgets t t' parent name := by
  have hnames := h.namesUnique_of_lookup hp
  cases hf : p.2.find name with
  | none =>
    refine ⟨t, ?_, h, ⟨p, hp, hf⟩, rfl, id, ?_, fun _ _ _ _ => rfl⟩
    · rw [FileTree.removeChild, hp, Option.map_some, hf]
    · exact (FileTree.modify_id t parent).symm
  | some child =>
    obtain ⟨leaf, sub⟩ := child
    obtain ⟨t', ht', hroot, hchildren⟩ : ∃ t', t.removeChild parent name = some t' ∧ t'.root = t.root ∧
        t'.children = t.modify parent (Children.erase name) := by
      rw [FileTree.removeChild, hp, Option.map_some, hf]
      exact ⟨_, rfl, rfl, rfl⟩
    have hp' := FileTree.lookup_modify hroot hchildren
    rw [hp, Option.map_some] at hp'
    exact ⟨t', ht', h.removeChild ht', ⟨_, hp', Children.find_erase_self hnames⟩, hroot, _, hchildren,
      fun q _ other hother => Children.find_erase_of_ne hother q.2⟩

end

variable {t : FileTree} {held : ℕ → Bool} {address : ℕ}

lemma responseLookupInJob_spec (h : t.WellFormed) (hfresh : t.Fresh address) {m : ResponseLookup} (herror : m.error = 0)
    {parent : ℕ} {p : TreeLeaf × Children} (hparent : parentLeaf t held m.parentId = some parent)
    (hp : t.lookup parent = some p) :
    ∃ t', responseLookupInJob t held address m = some t' ∧ t'.WellFormed ∧
      (Follows t t' held parent ⟨m.name, fileType (sIsDir m.mode), m.size, address⟩ m.inode ↔
        MessageFits t p ⟨m.name, fileType (sIsDir m.mode), m.size, address⟩ m.inode) := by
  rw [responseLookupInJob, if_neg (not_not.mpr herror), hparent]
  exact enter_spec h hfresh hp held m.inode

lemma notifyInvalEntryJob_entered (h : t.WellFormed) (hfresh : t.Fresh address) {m : NotifyInvalEntry}
    (htype : m.eventType = .created ∨ m.eventType = .movedTo) {parent : ℕ} {p : TreeLeaf × Children}
    (hparent : t.findLeafByServerInode held m.parentServerInode = some parent) (hp : t.lookup parent = some p) :
    ∃ t', notifyInvalEntryJob t held address m = some t' ∧ t'.WellFormed ∧
      (Follows t t' held parent ⟨m.name, fileType m.isDir, m.size, address⟩ m.serverInode ↔
        MessageFits t p ⟨m.name, fileType m.isDir, m.size, address⟩ m.serverInode) := by
  have hjob : notifyInvalEntryJob t held address m =
      enter t parent ⟨m.name, fileType m.isDir, m.size, address⟩ m.serverInode := by
    rw [notifyInvalEntryJob, hparent]
    rcases htype with htype | htype <;> rw [htype]
  rw [hjob]
  exact enter_spec h hfresh hp held m.serverInode

lemma notifyInvalEntryJob_removed (h : t.WellFormed) {m : NotifyInvalEntry}
    (htype : m.eventType = .deleted ∨ m.eventType = .movedFrom) {parent : ℕ} {p : TreeLeaf × Children}
    (hparent : t.findLeafByServerInode held m.parentServerInode = some parent) (hp : t.lookup parent = some p) :
    ∃ t', notifyInvalEntryJob t held address m = some t' ∧ t'.WellFormed ∧ Forgets t t' parent m.name := by
  have hjob : notifyInvalEntryJob t held address m = t.removeChild parent m.name := by
    rw [notifyInvalEntryJob, hparent]
    rcases htype with htype | htype <;> rw [htype]
  rw [hjob]
  exact removeChild_spec h hp m.name

/-- A message as it reaches the tree: which removed leaves are still held, and where the next leaf would lie. -/
structure Delivery where
  held : ℕ → Bool
  address : ℕ
  message : ResponseLookup ⊕ NotifyInvalEntry

def deliver (t : FileTree) (d : Delivery) : Option FileTree :=
  match d.message with
  | .inl m => responseLookupInJob t d.held d.address m
  | .inr m => notifyInvalEntryJob t d.held d.address m

lemma wellFormed_enter (h : t.WellFormed) {parent inode : ℕ} {e : DirectoryEntry} (hfresh : t.Fresh e.address)
    {t' : FileTree} (ht : enter t parent e inode = some t') : t'.WellFormed := by
  cases hp : t.lookup parent with
  | some p =>
    obtain ⟨u, hu, hwf, -⟩ := enter_spec h hfresh hp (fun _ => false) inode
    obtain rfl := Option.some.inj (hu.symm.trans ht)
    exact hwf
  | none =>
    obtain ⟨-, ht⟩ := FileTree.allocate_bind ht
    rw [FileTree.addChild, hp] at ht
    cases ht

lemma wellFormed_deliver (h : t.WellFormed) {d : Delivery} (hfresh : t.Fresh d.address) {t' : FileTree}
    (ht : deliver t d = some t') : t'.WellFormed := by
  rw [deliver] at ht
  split at ht
  · rw [responseLookupInJob] at ht
    split_ifs at ht
    · cases ht
      exact h
    · split at ht
      · cases ht
        exact h
      · exact wellFormed_enter h hfresh ht
  · rw [notifyInvalEntryJob] at ht
    split at ht
    · cases ht
      exact h
    · split at ht
      · exact wellFormed_enter h hfresh ht
      · exact wellFormed_enter h hfresh ht
      · exact h.removeChild ht
      · exact h.removeChild ht
      · cases ht
        exact h

theorem wellFormed_of_deliveries {name : String} {root : ℕ} (hroot : root ≠ 0) {ds : List Delivery}
    (h : Path deliver (fun t d => t.Fresh d.address) (.create name root) ds t) : t.WellFormed :=
  h.invariant (P := FileTree.WellFormed) (fun _ _ _ hwf hfresh ht => wellFormed_deliver hwf hfresh ht)
    (FileTree.WellFormed.create name hroot)

/-- The tree follows a lookup response or a notification of a new entry exactly when the message fits what the tree
has under the name; it always follows one of a removed entry. -/
theorem client_tree_follows_iff (h : t.WellFormed) (hfresh : t.Fresh address) {parent : ℕ} {p : TreeLeaf × Children}
    (hp : t.lookup parent = some p) :
    (∀ m : ResponseLookup, m.error = 0 → parentLeaf t held m.parentId = some parent →
      ∃ t', responseLookupInJob t held address m = some t' ∧ t'.WellFormed ∧
        (Follows t t' held parent ⟨m.name, fileType (sIsDir m.mode), m.size, address⟩ m.inode ↔
          MessageFits t p ⟨m.name, fileType (sIsDir m.mode), m.size, address⟩ m.inode)) ∧
    ∀ m : NotifyInvalEntry, t.findLeafByServerInode held m.parentServerInode = some parent →
      (m.eventType = .created ∨ m.eventType = .movedTo →
        ∃ t', notifyInvalEntryJob t held address m = some t' ∧ t'.WellFormed ∧
          (Follows t t' held parent ⟨m.name, fileType m.isDir, m.size, address⟩ m.serverInode ↔
            MessageFits t p ⟨m.name, fileType m.isDir, m.size, address⟩ m.serverInode)) ∧
      (m.eventType = .deleted ∨ m.eventType = .movedFrom →
        ∃ t', notifyInvalEntryJob t held address m = some t' ∧ t'.WellFormed ∧ Forgets t t' parent m.name) :=
  ⟨fun _ herror hparent => responseLookupInJob_spec h hfresh herror hparent hp, fun _ hparent =>
    ⟨fun htype => notifyInvalEntryJob_entered h hfresh htype hparent hp,
      fun htype => notifyInvalEntryJob_removed h htype hparent hp⟩⟩

def mounted : FileTree :=
  ⟨⟨1000, "mnt", .directory, 0, 0, true⟩,
    .cons ⟨2000, "dir", .directory, 0, 6, true⟩ (.cons ⟨2500, "a.txt", .regular, 5, 7, true⟩ .nil .nil) .nil,
    Function.update (Function.update (fun _ => none) 6 (some 2000)) 7 (some 2500)⟩

lemma wellFormed_mounted : mounted.WellFormed where
  addresses := by decide
  nonzero := by decide
  names := by simp [mounted, Children.NamesUnique, Children.find]
  registered _ _ _ := by
    have htree : ∀ l ∈ mounted.leaves, l.tree = true := by decide
    exact fun l hl _ => htree l hl

lemma fresh_mounted : mounted.Fresh 3000 where
  nonzero := by decide
  leaves := by decide
  index i hi := by
    simp only [mounted, Function.update_apply] at hi
    split_ifs at hi <;> simp at hi

theorem client_tree_follows_iff_mounted :
    (∃ t', responseLookupInJob mounted (fun _ => false) 3000 ⟨6, "a.txt", 0, 7, 0o100644, 5⟩ = some t' ∧
      t'.WellFormed ∧ Follows mounted t' (fun _ => false) 2000 ⟨"a.txt", .regular, 5, 3000⟩ 7) ∧
    (∃ t', responseLookupInJob mounted (fun _ => false) 3000 ⟨6, "a.txt", 0, 7, 0o100644, 9⟩ = some t' ∧
      t'.WellFormed ∧ ¬ Follows mounted t' (fun _ => false) 2000 ⟨"a.txt", .regular, 9, 3000⟩ 7) ∧
    (∃ t', notifyInvalEntryJob mounted (fun _ => false) 3000 ⟨.created, 6, "b.txt", 8, 0, false⟩ = some t' ∧
      t'.WellFormed ∧ Follows mounted t' (fun _ => false) 2000 ⟨"b.txt", .regular, 0, 3000⟩ 8) ∧
    ∃ t', notifyInvalEntryJob mounted (fun _ => false) 3000 ⟨.deleted, 6, "a.txt", 7, 5, false⟩ = some t' ∧
      t'.WellFormed ∧ Forgets mounted t' 2000 "a.txt" := by
  have hp : mounted.lookup 2000 =
      some (⟨2000, "dir", .directory, 0, 6, true⟩, .cons ⟨2500, "a.txt", .regular, 5, 7, true⟩ .nil .nil) := rfl
  have hparent : mounted.findLeafByServerInode (fun _ => false) 6 = some 2000 := rfl
  obtain ⟨hlookup, hnotify⟩ := client_tree_follows_iff wellFormed_mounted fresh_mounted hp
  obtain ⟨t₁, ht₁, hwf₁, hfits₁⟩ := hlookup ⟨6, "a.txt", 0, 7, 0o100644, 5⟩ rfl hparent
  obtain ⟨t₂, ht₂, hwf₂, hfits₂⟩ := hlookup ⟨6, "a.txt", 0, 7, 0o100644, 9⟩ rfl hparent
  obtain ⟨t₃, ht₃, hwf₃, hfits₃⟩ := (hnotify ⟨.created, 6, "b.txt", 8, 0, false⟩ hparent).1 (.inl rfl)
  obtain ⟨t₄, ht₄, hwf₄, hforgets⟩ := (hnotify ⟨.deleted, 6, "a.txt", 7, 5, false⟩ hparent).2 (.inl rfl)
  refine ⟨⟨t₁, ht₁, hwf₁, hfits₁.mpr ?_⟩, ⟨t₂, ht₂, hwf₂, fun hf => ?_⟩, ⟨t₃, ht₃, hwf₃, hfits₃.mpr ?_⟩,
    t₄, ht₄, hwf₄, hforgets⟩
  · exact ⟨by decide, by decide, rfl, rfl, rfl⟩
  · obtain ⟨-, -, -, hsize, -⟩ := hfits₂.mp hf
    cases hsize
  · exact ⟨by decide, by decide, rfl⟩

def movedOver : FileTree :=
  ⟨⟨1000, "mnt", .directory, 0, 0, true⟩, .cons ⟨2000, "a.txt", .regular, 5, 7, true⟩ .nil .nil,
    Function.update (fun _ => none) 7 (some 2000)⟩

theorem client_tree_keeps_old_size :
    parentLeaf movedOver (fun _ => false) 1 = some 1000 ∧
      movedOver.findLeafByServerInode (fun _ => false) 1000 = some 1000 ∧
      (∃ t', notifyInvalEntryJob movedOver (fun _ => false) 3000 ⟨.movedTo, 1000, "a.txt", 8, 100, false⟩ = some t' ∧
        ¬ Follows movedOver t' (fun _ => false) 1000 ⟨"a.txt", .regular, 100, 3000⟩ 8) ∧
      ∃ t', responseLookupInJob movedOver (fun _ => false) 3000 ⟨1, "a.txt", 0, 8, 0o100644, 100⟩ = some t' ∧
        ¬ Follows movedOver t' (fun _ => false) 1000 ⟨"a.txt", .regular, 100, 3000⟩ 8 := by
  have hold (t' : FileTree)
      (ht' : t'.children = .cons ⟨2000, "a.txt", .regular, 5, 8, true⟩ .nil .nil ∧ t'.root = movedOver.root) :
      ¬ Follows movedOver t' (fun _ => false) 1000 ⟨"a.txt", .regular, 100, 3000⟩ 8 := by
    rintro ⟨⟨p, p', leaf, sub, -, hp', -, hf, -, -, hsize, -⟩, -⟩
    have haddress : movedOver.root.address = 1000 := rfl
    rw [FileTree.lookup, ht'.1, ht'.2, if_pos haddress] at hp'
    cases hp'
    cases hf
    exact absurd hsize (by decide)
  exact ⟨rfl, rfl, ⟨_, rfl, hold _ ⟨rfl, rfl⟩⟩, _, rfl, hold _ ⟨rfl, rfl⟩⟩

end FastTransport.TaskQueue
