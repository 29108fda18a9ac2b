import FastTransport.FileSystem.LeafSerializer
import FastTransport.TaskQueue.NotifyInvalEntryJob

/-! `MergeIn`: a deserialized tree takes the place of the client's, and what the index of server inodes makes of it. -/

namespace FastTransport.TaskQueue

open FileSystem Lib.Runs

namespace MergeIn

def nameOf (name : List UInt8) : String := String.ofList (name.map fun byte => Char.ofNat byte.toNat)

/-- `std::filesystem::file_type`, whose regular files are 1 and directories 2. -/
def typeOf (type : FileTypeValue) : FileType :=
  if type = 1 then .regular else if type = 2 then .directory else .other

mutual

/-- The leaves that `Deserialize` makes, the n-th at the n-th address. `_tree` is null in all of them: `AddChild`
passes on that of the parent, and the parent has none yet. -/
def place (address : ℕ → ℕ) (n : ℕ) : LeafTree → (TreeLeaf × Children) × ℕ
  | .node name type size children =>
    let r := placeChildren address (n + 1) children
    ((⟨address n, nameOf name, typeOf type, size.toNat, 0, false⟩, r.1), r.2)

def placeChildren (address : ℕ → ℕ) (n : ℕ) : List LeafTree → Children × ℕ
  | [] => (.nil, n)
  | child :: children =>
    let r := place address n child
    let rest := placeChildren address r.2 children
    (.cons r.1.1 r.1.2 rest.1, rest.2)

end

/-- `SetRoot` gives the tree to the root, and to no other leaf; the index stays. -/
def setRoot (t : FileTree) (root : TreeLeaf × Children) : FileTree :=
  ⟨{ root.1 with tree := true }, root.2, t.serverInodeIndex⟩

def execute (t : FileTree) (address : ℕ → ℕ) (stream : List UInt8) : Option FileTree :=
  (LeafSerializer.deserialize stream).map fun r => setRoot t (place address 0 r.1).1

def Later (t : FileTree) : FileTree.Call → Prop
  | .addChild _ e => t.Fresh e.address
  | .removeChild _ _ => True
  | _ => False

/-- Every leaf of the new tree is found under its own inode, now and after any later calls, none of the old tree is,
and what is removed later is not found any more. `held` says which leaves of the old tree are still alive. -/
structure FullyIndexed (old new : FileTree) (held : ℕ → Bool) : Prop where
  found : ∀ l ∈ new.leaves, new.findLeafByServerInode held l.getServerInode = some l.address
  forgotten : ∀ i, ∀ l ∈ old.leaves, new.findLeafByServerInode held i ≠ some l.address
  follows : ∀ calls t, Path FileTree.step Later new calls t →
    (∀ l ∈ t.leaves, ∀ held, t.findLeafByServerInode held l.getServerInode = some l.address) ∧
      ∀ parent name t', t.removeChild parent name = some t' → ∀ l ∈ t.leaves, l ∉ t'.leaves →
        ∀ held, t'.findLeafByServerInode held l.getServerInode = none

mutual

lemma place_spec (address : ℕ → ℕ) (n : ℕ) : ∀ leaf : LeafTree, ∃ m, (place address n leaf).2 = n + m ∧
    ((place address n leaf).1.1 :: (place address n leaf).1.2.leaves).map TreeLeaf.address =
      (List.range' n m).map address ∧
    ∀ l ∈ (place address n leaf).1.1 :: (place address n leaf).1.2.leaves, l.serverInode = 0 ∧ l.tree = false
  | .node name type size children => by
    obtain ⟨m, hnext, haddress, hplain⟩ := placeChildren_spec address (n + 1) children
    refine ⟨m + 1, ?_, ?_, ?_⟩
    · rw [place, hnext]
      omega
    · rw [place, List.map_cons, haddress, List.range'_succ, List.map_cons]
    · rw [place]
      exact List.forall_mem_cons.mpr ⟨⟨rfl, rfl⟩, hplain⟩

lemma placeChildren_spec (address : ℕ → ℕ) (n : ℕ) : ∀ children : List LeafTree,
    ∃ m, (placeChildren address n children).2 = n + m ∧
      (placeChildren address n children).1.leaves.map TreeLeaf.address = (List.range' n m).map address ∧
      ∀ l ∈ (placeChildren address n children).1.leaves, l.serverInode = 0 ∧ l.tree = false
  | [] => ⟨0, rfl, rfl, fun l hl => by cases hl⟩
  | child :: children => by
    obtain ⟨m, hnext, haddress, hplain⟩ := place_spec address n child
    obtain ⟨k, hnext', haddress', hplain'⟩ := placeChildren_spec address (n + m) children
    rw [placeChildren]
    dsimp only
    rw [hnext]
    refine ⟨m + k, ?_, ?_, ?_⟩
    · rw [hnext']
      omega
    · rw [Children.leaves, ← List.cons_append, List.map_append, haddress, haddress', ← List.map_append,
        List.range'_append_1]
    · rw [Children.leaves, ← List.cons_append]
      intro l hl
      rcases List.mem_append.mp hl with hl | hl
      · exact hplain l hl
      · exact hplain' l hl

end

structure Covered (t : FileTree) : Prop where
  addresses : (t.leaves.map TreeLeaf.address).Nodup
  plain : ∀ l ∈ t.leaves, l.serverInode = 0 ∧ l.tree = true
  index : ∀ l ∈ t.children.leaves, t.serverInodeIndex l.address = some l.address

namespace Covered

variable {t t' : FileTree} {parent : ℕ} {name : String}

lemma key (h : Covered t) {l : TreeLeaf} (hl : l ∈ t.leaves) : l.getServerInode = l.address :=
  if_neg (not_not.mpr (h.plain l hl).1)

lemma root_key_ne (h : Covered t) {l : TreeLeaf} (hl : l ∈ t.children.leaves) :
    l.address ≠ t.root.getServerInode := by
  rw [h.key List.mem_cons_self]
  exact fun he => (List.nodup_cons.mp h.addresses).1 (he ▸ List.mem_map_of_mem hl)

lemma found (h : Covered t) (held : ℕ → Bool) {l : TreeLeaf} (hl : l ∈ t.leaves) :
    t.findLeafByServerInode held l.getServerInode = some l.address := by
  rw [FileTree.findLeafByServerInode]
  rcases List.mem_cons.mp hl with rfl | hl'
  · rw [if_pos rfl]
  · rw [h.key hl, if_neg (h.root_key_ne hl'), h.index l hl', Option.filter_some,
      decide_eq_true (List.mem_map_of_mem hl), Bool.true_or, if_pos rfl]

lemma addChild (h : Covered t) {e : DirectoryEntry} (hfresh : e.address ∉ t.leaves.map TreeLeaf.address)
    (ht : t.addChild parent e = some t') : Covered t' := by
  obtain ⟨p, hp, rfl⟩ := Option.map_eq_some_iff.mp ht
  cases hf : p.2.find e.name with
  | some child => exact h
  | none =>
    have htree : p.1.tree = true := (h.plain p.1 (FileTree.mem_of_lookup hp).1).2
    set leaf : TreeLeaf := ⟨e.address, e.name, e.type, e.size, 0, p.1.tree⟩
    have hleaves : (leaf :: t.leaves).Perm (t.root :: (t.modify parent (Children.insert leaf .nil)).leaves) :=
      FileTree.leaves_insert_perm h.addresses hp hf
    have hkey : leaf.getServerInode = e.address := rfl
    refine ⟨?_, fun l hl => ?_, fun l hl => ?_⟩
    · exact (hleaves.map TreeLeaf.address).nodup_iff.mp (List.nodup_cons.mpr ⟨hfresh, h.addresses⟩)
    · rcases List.mem_cons.mp (hleaves.mem_iff.mpr hl) with rfl | hl
      · exact ⟨rfl, htree⟩
      · exact h.plain l hl
    · have hchildren : (leaf :: t.children.leaves).Perm (t.modify parent (Children.insert leaf .nil)).leaves :=
        (List.perm_cons t.root).mp ((List.Perm.swap leaf t.root t.children.leaves).trans hleaves)
      dsimp only
      rw [if_pos htree, InodeIndex.registerLeaf, hkey]
      rcases List.mem_cons.mp (hchildren.mem_iff.mpr hl) with rfl | hl
      · exact Function.update_self _ _ _
      · have hne : l.address ≠ e.address := fun he =>
          hfresh (he ▸ List.mem_map_of_mem (List.mem_cons_of_mem _ hl))
        exact (Function.update_of_ne hne _ _).trans (h.index l hl)

lemma removeChild (h : Covered t) (ht : t.removeChild parent name = some t') :
    Covered t' ∧ ∀ l ∈ t.leaves, l ∉ t'.leaves → ∀ held, t'.findLeafByServerInode held l.getServerInode = none := by
  obtain ⟨p, hp, rfl⟩ := Option.map_eq_some_iff.mp ht
  cases hf : p.2.find name with
  | none => exact ⟨h, fun l hl hnot => absurd hl hnot⟩
  | some child =>
    obtain ⟨leaf, sub⟩ := child
    have htree : p.1.tree = true := (h.plain p.1 (FileTree.mem_of_lookup hp).1).2
    have hleaves := FileTree.leaves_erase_perm h.addresses hp hf
    have hchildren : t.children.leaves.Perm ((leaf :: sub.leaves) ++ (t.modify parent (Children.erase name)).leaves) :=
      (List.perm_cons t.root).mp (hleaves.trans List.perm_middle)
    have hsub : ∀ l ∈ t.root :: (t.modify parent (Children.erase name)).leaves, l ∈ t.leaves := fun l hl =>
      hleaves.mem_iff.mpr (List.mem_append_right _ hl)
    have hgone : ∀ l ∈ leaf :: sub.leaves, l ∈ t.children.leaves := fun l hl =>
      hchildren.mem_iff.mpr (List.mem_append_left _ hl)
    have hkeys : (leaf :: sub.leaves).map TreeLeaf.getServerInode = (leaf :: sub.leaves).map TreeLeaf.address :=
      List.map_congr_left fun l hl => h.key (List.mem_cons_of_mem _ (hgone l hl))
    have hnodup := (hchildren.map TreeLeaf.address).nodup_iff.mp (List.nodup_cons.mp h.addresses).2
    have haddresses := (hleaves.map TreeLeaf.address).nodup_iff.mp h.addresses
    rw [List.map_append, List.nodup_append] at hnodup haddresses
    refine ⟨⟨haddresses.2.1, fun l hl => h.plain l (hsub l hl), fun l hl => ?_⟩, fun l hl hnot held => ?_⟩
    · -- the addresses of what was removed are none of those that stay
      dsimp only
      rw [if_pos htree, InodeIndex.walk_unregisterLeaf, hkeys,
        if_neg fun hm => hnodup.2.2 _ hm _ (List.mem_map_of_mem hl) rfl]
      exact h.index l (hchildren.mem_iff.mpr (List.mem_append_right _ hl))
    · have hl' : l ∈ leaf :: sub.leaves := by
        rcases List.mem_append.mp (hleaves.mem_iff.mp hl) with hl' | hl'
        · exact hl'
        · exact absurd hl' hnot
      rw [FileTree.findLeafByServerInode, h.key hl, if_neg (h.root_key_ne (hgone l hl'))]
      dsimp only
      rw [if_pos htree, InodeIndex.walk_unregisterLeaf, hkeys, if_pos (List.mem_map_of_mem hl')]
      rfl

lemma step (h : Covered t) {call : FileTree.Call} (hlater : Later t call) (ht : t.step call = some t') :
    Covered t' := by
  cases call with
  | addChild parent e =>
    obtain ⟨-, ht⟩ := FileTree.allocate_bind ht
    exact h.addChild hlater.leaves ht
  | removeChild parent name => exact (h.removeChild ht).1
  | addSubtree parent leaf sub => exact hlater.elim
  | rescan parent entries => exact hlater.elim
  | setServerInode address inode => exact hlater.elim

end Covered

variable {t t' : FileTree} {address : ℕ → ℕ} {leaf : LeafTree} {held : ℕ → Bool}

lemma execute_serialize (t : FileTree) (address : ℕ → ℕ) (hordered : leaf.Ordered) (hfits : leaf.Fits)
    (rest : List UInt8) :
    execute t address (LeafSerializer.serialize leaf ++ rest) = some (setRoot t (place address 0 leaf).1) := by
  have hdepth : (LeafSerializer.serialize leaf).length ≤ (LeafSerializer.serialize leaf ++ rest).length := by
    rw [List.length_append]
    exact Nat.le_add_right _ _
  rw [execute, LeafSerializer.deserialize, LeafSerializer.deserializeDepth_serialize hordered hfits hdepth,
    Option.map_some]

def children : LeafTree → List LeafTree
  | .node _ _ _ children => children

lemma place_children_eq_nil (address : ℕ → ℕ) (n : ℕ) (leaf : LeafTree) :
    (place address n leaf).1.2 = .nil ↔ children leaf = [] := by
  cases leaf with
  | node name type size children =>
    rw [place]
    cases children with
    | nil => exact iff_of_true rfl rfl
    | cons child children =>
      refine iff_of_false (fun h => ?_) fun h => by cases h
      rw [placeChildren] at h
      cases h

def NoneAlive (old : FileTree) (root : ℕ) (held : ℕ → Bool) : Prop :=
  ∀ i a, old.serverInodeIndex i = some a → i ≠ root → a ∈ old.leaves.map TreeLeaf.address → held a = false

lemma place_address (address : ℕ → ℕ) (leaf : LeafTree) : (place address 0 leaf).1.1.address = address 0 := by
  cases leaf
  rfl

lemma nodup_place (haddress : Function.Injective address) (leaf : LeafTree) :
    (((place address 0 leaf).1.1 :: (place address 0 leaf).1.2.leaves).map TreeLeaf.address).Nodup := by
  obtain ⟨m, -, heq, -⟩ := place_spec address 0 leaf
  rw [heq]
  exact List.Nodup.map haddress List.nodup_range'

lemma root_getServerInode (t : FileTree) (address : ℕ → ℕ) (leaf : LeafTree) :
    (setRoot t (place address 0 leaf).1).root.getServerInode = address 0 := by
  obtain ⟨m, -, -, hplain⟩ := place_spec address 0 leaf
  exact (if_neg (not_not.mpr (hplain _ List.mem_cons_self).1)).trans (place_address address leaf)

lemma not_found_below (haddress : Function.Injective address) (hfresh : ∀ n, t.Fresh (address n)) {l : TreeLeaf}
    (hl : l ∈ (place address 0 leaf).1.2.leaves) :
    (setRoot t (place address 0 leaf).1).findLeafByServerInode held l.getServerInode ≠ some l.address := by
  obtain ⟨m, -, heq, hplain⟩ := place_spec address 0 leaf
  have hkey : l.getServerInode = l.address := if_neg (not_not.mpr (hplain l (List.mem_cons_of_mem _ hl)).1)
  have hmem : l.address ∈ (List.range' 0 m).map address :=
    heq ▸ List.mem_map_of_mem (f := TreeLeaf.address) (List.mem_cons_of_mem _ hl)
  obtain ⟨n, -, hn⟩ := List.mem_map.mp hmem
  have hnodup := nodup_place haddress leaf
  rw [List.map_cons, List.nodup_cons, place_address] at hnodup
  have hroot : l.address ≠ address 0 := fun he => hnodup.1 (he ▸ List.mem_map_of_mem hl)
  rw [FileTree.findLeafByServerInode, root_getServerInode, hkey, if_neg hroot]
  intro hfound
  obtain ⟨hindex, -⟩ := Option.filter_eq_some_iff.mp hfound
  exact (hfresh n).index l.address (hn ▸ hindex)

lemma covered_of_no_children (hchildren : (place address 0 leaf).1.2 = .nil) :
    Covered (setRoot t (place address 0 leaf).1) := by
  obtain ⟨m, -, -, hplain⟩ := place_spec address 0 leaf
  have hleaves : (setRoot t (place address 0 leaf).1).leaves = [{ (place address 0 leaf).1.1 with tree := true }] := by
    rw [FileTree.leaves, setRoot, hchildren]
    rfl
  refine ⟨?_, fun l hl => ?_, fun l hl => ?_⟩
  · rw [hleaves]
    exact List.nodup_singleton _
  · rw [hleaves] at hl
    rw [List.mem_singleton.mp hl]
    exact ⟨(hplain _ List.mem_cons_self).1, rfl⟩
  · rw [setRoot, hchildren] at hl
    cases hl

/-- A merged tree is fully indexed exactly when it is a lone root and no leaf of the old tree lives on in the index. -/
theorem fully_indexed_iff (hbuilt : leaf.Built) (hfits : leaf.Fits) (haddress : Function.Injective address)
    (hfresh : ∀ n, t.Fresh (address n)) (rest : List UInt8) :
    ∃ t', execute t address (LeafSerializer.serialize leaf ++ rest) = some t' ∧
      (FullyIndexed t t' held ↔ children leaf = [] ∧ NoneAlive t (address 0) held) := by
  refine ⟨_, execute_serialize t address hbuilt.ordered hfits rest, fun h => ⟨?_, ?_⟩, ?_⟩
  · rw [← place_children_eq_nil address 0]
    cases hc : (place address 0 leaf).1.2 with
    | nil => rfl
    | cons l sub siblings =>
      have hl : l ∈ (place address 0 leaf).1.2.leaves := by
        rw [hc]
        exact List.mem_cons_self
      exact absurd (h.found l (List.mem_cons_of_mem _ hl)) (not_found_below haddress hfresh hl)
  · intro i a hi hroot ha
    obtain ⟨l, hl, rfl⟩ := List.mem_map.mp ha
    by_contra halive
    refine h.forgotten i l hl ?_
    rw [FileTree.findLeafByServerInode, root_getServerInode, if_neg hroot]
    refine Option.filter_eq_some_iff.mpr ⟨hi, ?_⟩
    rw [Bool.eq_true_of_not_eq_false halive, Bool.or_true]
  · rintro ⟨hchildren, hnone⟩
    have hcovered : Covered (setRoot t (place address 0 leaf).1) :=
      covered_of_no_children ((place_children_eq_nil address 0 leaf).mpr hchildren)
    refine ⟨fun l hl => hcovered.found held hl, fun i l hl hfound => ?_, fun calls u hpath => ?_⟩
    · have hfresh' : ∀ k ∈ (setRoot t (place address 0 leaf).1).leaves, k.address ≠ l.address := by
        intro k hk he
        rw [FileTree.leaves, setRoot, (place_children_eq_nil address 0 leaf).mpr hchildren] at hk
        rw [List.mem_singleton.mp hk] at he
        exact (hfresh 0).leaves (List.mem_map.mpr ⟨l, hl, he.symm.trans (place_address address leaf)⟩)
      rw [FileTree.findLeafByServerInode, root_getServerInode] at hfound
      split_ifs at hfound with hroot
      · exact hfresh' _ List.mem_cons_self (Option.some.inj hfound)
      · obtain ⟨hindex, halive⟩ := Option.filter_eq_some_iff.mp hfound
        rcases Bool.or_eq_true_iff.mp halive with hmem | halive
        · obtain ⟨k, hk, he⟩ := List.mem_map.mp (of_decide_eq_true hmem)
          exact hfresh' k hk he
        · rw [hnone i l.address hindex hroot (List.mem_map_of_mem hl)] at halive
          cases halive
    · have hu : Covered u := hpath.invariant (P := Covered) (fun _ _ _ hs hlater hstep => hs.step hlater hstep) hcovered
      exact ⟨fun l hl held => hu.found held hl, fun parent name u' hu' => (hu.removeChild hu').2⟩

theorem fully_indexed_iff_alone :
    ∃ t', execute (.create "mnt" 1000) (2000 + ·) (LeafSerializer.serialize (LeafTree.create [114] 2 0) ++ []) =
        some t' ∧
      (FullyIndexed (.create "mnt" 1000) t' (fun _ => true) ↔
        children (LeafTree.create [114] 2 0) = [] ∧ NoneAlive (.create "mnt" 1000) 2000 fun _ => true) :=
  fully_indexed_iff (.create _ _ _) (.node (by decide) (by decide) fun c hc => absurd hc List.not_mem_nil)
    (fun _ _ h => Nat.add_left_cancel h)
    (fun n => ⟨by omega, fun h => by
      have heq : 2000 + n = 1000 := List.mem_singleton.mp h
      omega, fun _ hi => by cases hi⟩) []

theorem merged_tree_not_indexed :
    ∃ t', execute (.create "mnt" 1000) (2000 + ·) (LeafSerializer.serialize LeafSerializer.nested) = some t' ∧
      ¬ FullyIndexed (.create "mnt" 1000) t' fun _ => false := by
  have hbuilt : LeafSerializer.nested.Built :=
    .addChild [[100]] (.addChild [] (.create _ _ _) (.create _ _ _)) (.create _ _ _)
  have hexecute := execute_serialize (.create "mnt" 1000) (2000 + ·) hbuilt.ordered LeafSerializer.fits_nested []
  rw [List.append_nil] at hexecute
  refine ⟨_, hexecute, fun h => ?_⟩
  have hl : (⟨2001, nameOf [100], .directory, 0, 0, false⟩ : TreeLeaf) ∈
      (place (2000 + ·) 0 LeafSerializer.nested).1.2.leaves := List.mem_cons_self
  have hfound := h.found _ (List.mem_cons_of_mem _ hl)
  cases hfound

end MergeIn

end FastTransport.TaskQueue
