import FastTransport.FileCache.BlockInvariant
import FastTransport.Lib.Owners

/-! The life of the client's leaves against the cache work that names them: the main queue adds and removes
children and counts lookups while the tables and the jobs of the shards hold bare inodes. -/

namespace FastTransport.FileCache

open FileSystem Lib.Runs Lib.Lists Lib.Owners

structure ChildEntry where
  parent : ℕ
  name : String
  leaf : ℕ
  deriving DecidableEq, Repr

/-- The `children` of all leaves and the lookups of the kernel; `FUSE_ROOT_ID` stands for the root. -/
structure LeafOwners where
  children : List ChildEntry
  nlookup : ℕ → ℕ

namespace LeafOwners

def Held (o : LeafOwners) (a : ℕ) : Prop := a = 1 ∨ 0 < o.nlookup a

instance (o : LeafOwners) : DecidablePred o.Held := fun _ => inferInstanceAs (Decidable (_ ∨ _))

def Alive (o : LeafOwners) (a : ℕ) : Prop := Owned ChildEntry.leaf o.Held o.children a

instance (o : LeafOwners) : DecidablePred o.Alive :=
  fun a => inferInstanceAs (Decidable (Owned ChildEntry.leaf o.Held o.children a))

def destroy (o : LeafOwners) : LeafOwners :=
  { o with children := collect ChildEntry.parent ChildEntry.leaf o.Held o.children }

def find (o : LeafOwners) (parent : ℕ) (name : String) : Option ChildEntry :=
  o.children.find? fun e => e.parent = parent ∧ e.name = name

def addRef (o : LeafOwners) (a : ℕ) : LeafOwners :=
  { o with nlookup := Function.update o.nlookup a (o.nlookup a + 1) }

def eraseChild (o : LeafOwners) (parent : ℕ) (name : String) : LeafOwners :=
  { o with children := o.children.eraseP fun e => e.parent = parent ∧ e.name = name }

def removeChild (o : LeafOwners) (parent : ℕ) (name : String) : LeafOwners := (o.eraseChild parent name).destroy

def fetchSub (o : LeafOwners) (a nlookup : ℕ) : LeafOwners :=
  { o with nlookup := Function.update o.nlookup a (o.nlookup a - nlookup) }

def releaseRef (o : LeafOwners) (a nlookup : ℕ) : LeafOwners := (o.fetchSub a nlookup).destroy

inductive Below (o : LeafOwners) (a : ℕ) : ℕ → Prop
  | self : Below o a a
  | child {e : ChildEntry} : Below o a e.parent → e ∈ o.children → ¬ o.Held e.leaf → Below o a e.leaf

structure Single (o : LeafOwners) : Prop where
  nodup : (o.children.map ChildEntry.leaf).Nodup
  root : 1 ∉ o.children.map ChildEntry.leaf

def IsSettled (o : LeafOwners) : Prop := Settled ChildEntry.parent ChildEntry.leaf o.Held o.children

end LeafOwners

structure MountedClient where
  client : Client
  owners : LeafOwners

inductive MountEvent
  | lookup (parent : ℕ) (name : String) (size address : ℕ)
  | created (parent : ℕ) (name : String) (size address : ℕ)
  | removeChild (parent : ℕ) (name : String)
  | releaseRef (inode nlookup : ℕ)
  | act (a : Action)
  deriving DecidableEq, Repr

namespace MountedClient

def create (files : ℕ → RemoteFile) : MountedClient := ⟨.create files, [], fun _ => 0⟩

/-- `address` is where a new leaf would be. -/
def addChild (s : MountedClient) (parent : ℕ) (name : String) (size address : ℕ) : Option (MountedClient × ℕ) :=
  if s.owners.Alive parent then
    match s.owners.find parent name with
    | some e => some (s, e.leaf)
    | none =>
      if s.owners.Alive address then none
      else
        some (⟨s.client.setLeaf address (.create name parent size),
          { s.owners with children := s.owners.children ++ [⟨parent, name, address⟩] }⟩, address)
  else none

/-- The kernel reads through an inode that it holds lookups of. -/
def FromKernel (s : MountedClient) : Action → Prop
  | .read request => s.owners.Held request.inode
  | _ => True

instance (s : MountedClient) : (a : Action) → Decidable (s.FromKernel a)
  | .read request => inferInstanceAs (Decidable (s.owners.Held request.inode))
  | .cacheTree _ _ _ | .disk _ | .sendRequest | .answer _ _ _ | .receive _ => isTrue trivial

def step (s : MountedClient) : MountEvent → Option MountedClient
  | .lookup parent name size address =>
    (s.addChild parent name size address).map fun r => { r.1 with owners := r.1.owners.addRef r.2 }
  | .created parent name size address => (s.addChild parent name size address).map Prod.fst
  | .removeChild parent name =>
    if s.owners.Alive parent then some { s with owners := s.owners.removeChild parent name } else none
  | .releaseRef inode nlookup =>
    if nlookup ≤ s.owners.nlookup inode then some { s with owners := s.owners.releaseRef inode nlookup } else none
  | .act a => if s.FromKernel a then (s.client.step a).map fun c => { s with client := c } else none

def orphaned (s : MountedClient) : MountEvent → Option ℕ
  | .removeChild parent name =>
    ((s.owners.find parent name).map ChildEntry.leaf).filter fun a => ¬ s.owners.Held a
  | .releaseRef a nlookup =>
    if a ≠ 1 ∧ 0 < nlookup ∧ nlookup = s.owners.nlookup a ∧ a ∉ s.owners.children.map ChildEntry.leaf then some a
    else none
  | _ => none

end MountedClient

/-- Cache work names a leaf: a table holds its packets, a job is queued for it, or a block of it is on its way. -/
def Client.Names (s : Client) (i : ℕ) : Prop :=
  i ∈ s.cachePerShard.map Prod.fst ∨ i ∈ s.cacheTreeQueue.map CacheTreeJob.inode ∨
    i ∈ s.outstanding.map ReadRequest.inode

instance (s : Client) (i : ℕ) : Decidable (s.Names i) := inferInstanceAs (Decidable (_ ∨ _ ∨ _))

def MountedClient.Spares (s : MountedClient) (e : MountEvent) : Prop :=
  ∀ a ∈ s.orphaned e, ∀ i, s.owners.Below a i → ¬ s.client.Names i

namespace LeafOwners

variable {o o' : LeafOwners}

lemma IsSettled.destroy (h : o.IsSettled) : o.destroy = o := by
  rw [LeafOwners.destroy, h.collect]

lemma isSettled_destroy (o : LeafOwners) : o.destroy.IsSettled := settled_collect o.children

lemma destroy_sublist (o : LeafOwners) : o.destroy.children.Sublist o.children := collect_sublist o.children

lemma Single.of_sublist (h : o.Single) (hc : o'.children.Sublist o.children) : o'.Single :=
  ⟨h.nodup.sublist (hc.map _), fun hm => h.root ((hc.map _).subset hm)⟩

lemma Single.append (h : o.Single) {parent address : ℕ} {name : String} (hd : ¬ o.Alive address) :
    Single { o with children := o.children ++ [⟨parent, name, address⟩] } := by
  have hnew : address ∉ o.children.map ChildEntry.leaf := fun hm => hd (Or.inr hm)
  have hroot : address ≠ 1 := fun heq => hd (Or.inl (Or.inl heq))
  constructor
  · rw [List.map_append, List.nodup_append]
    refine ⟨h.nodup, List.nodup_singleton _, ?_⟩
    intro i hi j hj heq
    rw [heq, List.mem_singleton.mp hj] at hi
    exact hnew hi
  · intro hm
    rw [List.map_append] at hm
    rcases List.mem_append.mp hm with hm | hm
    · exact h.root hm
    · exact hroot (List.mem_singleton.mp hm).symm

lemma not_alive_of_below (h : o.Single) (hs : o'.IsSettled) (hc : o'.children ⊆ o.children)
    (hh : ∀ i, o'.Held i → o.Held i) {a : ℕ} (ha : ¬ o'.Alive a) {i : ℕ} (hb : o.Below a i) : ¬ o'.Alive i := by
  induction hb with
  | self => exact ha
  | @child e _ he hheld ih =>
    rintro (hi | hi)
    · exact hheld (hh _ hi)
    · obtain ⟨e', he', heq⟩ := List.mem_map.mp hi
      have hsame : e' = e := List.inj_on_of_nodup_map h.nodup (hc he') he heq
      rw [hsame] at he'
      exact ih (hs e he')

lemma alive_destroy (h : o.IsSettled) (hc : o'.children ⊆ o.children) (ha : ∀ i, o.Alive i → o'.Alive i) {i : ℕ}
    (hi : o.Alive i) : o'.destroy.Alive i := by
  have hs : o'.IsSettled := fun e he => ha e.parent (h e (hc he))
  rw [hs.destroy]
  exact ha i hi

lemma alive_destroy_of_not_below (h : o.IsSettled) (hc : o'.children ⊆ o.children) {a : ℕ}
    (he : ∀ e ∈ o.children, e.leaf ≠ a → e ∈ o'.children) (hh : ∀ i, o.Held i → i ≠ a → o'.Held i) {i : ℕ}
    (hi : o.Alive i) (hb : ¬ o.Below a i) : o'.destroy.Alive i := by
  have hkept : ∀ e ∈ o'.children, ¬ o.Below a e.parent → e ∈ o'.destroy.children := by
    intro e hm hp
    apply mem_collect (P := fun i => ¬ o.Below a i) _ hm hp
    intro e hm hp
    have hne : e.parent ≠ a := fun heq => hp (heq ▸ .self)
    by_cases hheld : o.Held e.parent
    · exact Or.inl (hh _ hheld hne)
    · right
      obtain ⟨e', hm', ht⟩ := List.mem_map.mp ((h e (hc hm)).resolve_left hheld)
      refine ⟨e', he e' hm' (ht ▸ hne), ht, fun hb' => hp ?_⟩
      rw [← ht] at hheld ⊢
      exact .child hb' hm' hheld
  have hne : i ≠ a := fun heq => hb (heq ▸ .self)
  by_cases hheld : o.Held i
  · exact Or.inl (hh i hheld hne)
  · right
    obtain ⟨e, hm, rfl⟩ := List.mem_map.mp (hi.resolve_left hheld)
    exact List.mem_map_of_mem (hkept e (he e hm hne) fun hb' => hb (.child hb' hm hheld))

lemma nlookup_fetchSub (o : LeafOwners) (a nlookup i : ℕ) :
    (o.fetchSub a nlookup).nlookup i = if i = a then o.nlookup a - nlookup else o.nlookup i :=
  Function.update_apply _ _ _ _

lemma mem_eraseChild {parent : ℕ} {name : String} {e : ChildEntry} (h : o.find parent name = some e) :
    ∀ e' ∈ o.children, e'.leaf ≠ e.leaf → e' ∈ (o.eraseChild parent name).children := by
  intro e' he' hne
  obtain ⟨xs, ys, hsplit, herase⟩ := find?_eraseP h
  rw [hsplit] at he'
  rw [eraseChild, herase]
  rcases List.mem_append.mp he' with he' | he'
  · exact List.mem_append_left _ he'
  · refine List.mem_append_right _ ((List.mem_cons.mp he').resolve_left ?_)
    rintro rfl
    exact hne rfl

lemma alive_addRef {a i : ℕ} (h : o.Alive i) : (o.addRef a).Alive i := by
  refine h.mono (fun j hj => ?_) (List.Subset.refl _)
  refine hj.imp id fun hpos => ?_
  simp only [addRef, Function.update_apply]
  split_ifs with hja
  · exact Nat.succ_pos _
  · exact hpos

end LeafOwners

lemma BlockInv.narrow {A B : Set ℕ} {files : ℕ → RemoteFile} {s : Client} (h : BlockInv A files s)
    (hB : ∀ i ∈ A, s.Names i → i ∈ B) : BlockInv B files s := by
  refine ⟨h.leafs, fun job hj => ?_, fun e he => ?_, fun r hr => ?_, h.nodup⟩
  · exact hB _ (h.jobs job hj) (Or.inr (Or.inl (List.mem_map_of_mem hj)))
  · exact hB _ (h.table e he) (Or.inl (List.mem_map_of_mem he))
  · obtain ⟨hA, hrest⟩ := h.requests r hr
    exact ⟨hB _ hA (Or.inr (Or.inr (List.mem_map_of_mem hr))), hrest⟩

lemma BlockInv.newLeaf {A : Set ℕ} {files : ℕ → RemoteFile} {s : Client} (h : BlockInv A files s) {address : ℕ}
    (ha : address ∉ A) (file : RemoteFile) :
    BlockInv A (Function.update files address file)
      (s.setLeaf address (.create file.name file.parent file.content.length)) := by
  have hfile : ∀ i ∈ A, Function.update files address file i = files i := by
    intro i hi
    apply Function.update_of_ne
    rintro rfl
    exact ha hi
  refine ⟨fun i => ?_, h.jobs, h.table, fun r hr => ?_, h.nodup⟩
  · rw [Client.leafs_setLeaf]
    split_ifs with hi
    · rw [hi, Function.update_self]
      exact LeafInv.create file address
    · rw [Function.update_of_ne hi]
      exact h.leafs i
  · obtain ⟨hA, hb, ho, hrest⟩ := h.requests r hr
    have hne : r.inode ≠ address := by
      intro heq
      rw [heq] at hA
      exact ha hA
    rw [hfile _ hA, Client.leafs_setLeaf, if_neg hne]
    exact ⟨hA, hb, ho, hrest⟩

namespace MountedClient

structure Sound (s : MountedClient) : Prop where
  settled : s.owners.IsSettled
  single : s.owners.Single
  named : ∃ files, BlockInv {i | s.owners.Alive i} files s.client

variable {s t : MountedClient}

lemma sound_create (files : ℕ → RemoteFile) : (create files).Sound :=
  ⟨fun _ he => absurd he List.not_mem_nil, ⟨List.nodup_nil, List.not_mem_nil⟩, files, BlockInv.create _ files⟩

lemma Sound.addRef (h : s.Sound) (a : ℕ) : Sound { s with owners := s.owners.addRef a } := by
  obtain ⟨files, hb⟩ := h.named
  refine ⟨fun e he => LeafOwners.alive_addRef (h.settled e he), ?_, files, hb.narrow fun i hi _ => ?_⟩
  · exact h.single.of_sublist (List.Sublist.refl _)
  · exact LeafOwners.alive_addRef hi

lemma Sound.addChild (h : s.Sound) {parent size address : ℕ} {name : String} {r : MountedClient × ℕ}
    (hr : s.addChild parent name size address = some r) : r.1.Sound := by
  obtain ⟨hparent, hr⟩ := Option.ite_none_right_eq_some.mp hr
  cases hfind : s.owners.find parent name with
  | some e =>
    rw [hfind] at hr
    cases hr
    exact h
  | none =>
    rw [hfind] at hr
    obtain ⟨hdead, hr⟩ := Option.ite_none_left_eq_some.mp hr
    cases hr
    have hgrows : ∀ i, s.owners.Alive i →
        LeafOwners.Alive { s.owners with children := s.owners.children ++ [⟨parent, name, address⟩] } i :=
      fun i hi => hi.mono (fun _ hj => hj) (List.subset_append_left _ _)
    refine ⟨fun e he => ?_, h.single.append hdead, ?_⟩
    · rcases List.mem_append.mp he with he | he
      · exact hgrows _ (h.settled e he)
      · rw [List.mem_singleton.mp he]
        exact hgrows _ hparent
    · obtain ⟨files, hb⟩ := h.named
      have hnew := hb.newLeaf hdead ⟨name, parent, List.replicate size 0⟩
      rw [List.length_replicate] at hnew
      exact ⟨_, hnew.narrow fun i hi _ => hgrows i hi⟩

lemma Sound.destroy (h : s.Sound) {o : LeafOwners} (hc : o.children.Sublist s.owners.children)
    (ho : ∀ i, s.owners.Alive i → s.client.Names i → o.destroy.Alive i) :
    Sound { s with owners := o.destroy } := by
  obtain ⟨files, hb⟩ := h.named
  exact ⟨LeafOwners.isSettled_destroy o, h.single.of_sublist (o.destroy_sublist.trans hc), files, hb.narrow ho⟩

lemma Sound.removeChild (h : s.Sound) {parent : ℕ} {name : String} (hs : s.Spares (.removeChild parent name)) :
    Sound { s with owners := s.owners.removeChild parent name } := by
  apply h.destroy List.eraseP_sublist
  intro i hi hnames
  have hsub : (s.owners.eraseChild parent name).children ⊆ s.owners.children := List.eraseP_subset
  cases hfind : s.owners.find parent name with
  | none =>
    have hnone : s.owners.eraseChild parent name = s.owners := by
      rw [LeafOwners.eraseChild, List.eraseP_of_forall_not fun e he => List.find?_eq_none.mp hfind e he]
    rw [hnone, h.settled.destroy]
    exact hi
  | some e =>
    have hkept := LeafOwners.mem_eraseChild hfind
    by_cases hheld : s.owners.Held e.leaf
    · apply LeafOwners.alive_destroy h.settled hsub _ hi
      intro j hj
      by_cases hj' : s.owners.Held j
      · exact Or.inl hj'
      · obtain ⟨e', he', rfl⟩ := List.mem_map.mp (hj.resolve_left hj')
        refine Or.inr (List.mem_map_of_mem (hkept e' he' ?_))
        intro heq
        exact hj' (heq ▸ hheld)
    · apply LeafOwners.alive_destroy_of_not_below h.settled hsub hkept (fun _ hj _ => hj) hi
      have horphaned : e.leaf ∈ s.orphaned (.removeChild parent name) := by
        rw [orphaned, hfind, Option.map_some, Option.filter_some, if_pos (decide_eq_true hheld)]
        rfl
      exact fun hb => hs e.leaf horphaned i hb hnames

lemma Sound.releaseRef (h : s.Sound) {a nlookup : ℕ} (hn : nlookup ≤ s.owners.nlookup a)
    (hs : s.Spares (.releaseRef a nlookup)) : Sound { s with owners := s.owners.releaseRef a nlookup } := by
  refine h.destroy (o := s.owners.fetchSub a nlookup) (List.Sublist.refl _) fun i hi hnames => ?_
  have hsub : (s.owners.fetchSub a nlookup).children ⊆ s.owners.children := List.Subset.refl _
  have hheld (j : ℕ) (hj : s.owners.Held j) (hne : j ≠ a) : (s.owners.fetchSub a nlookup).Held j := by
    refine hj.imp id fun hpos => ?_
    rwa [LeafOwners.nlookup_fetchSub, if_neg hne]
  by_cases hlast : a ≠ 1 ∧ 0 < nlookup ∧ nlookup = s.owners.nlookup a ∧
      a ∉ s.owners.children.map ChildEntry.leaf
  · apply LeafOwners.alive_destroy_of_not_below h.settled hsub (fun _ he _ => he) hheld hi
    have horphaned : a ∈ s.orphaned (.releaseRef a nlookup) := by
      rw [orphaned, if_pos hlast]
      rfl
    exact fun hb => hs a horphaned i hb hnames
  · apply LeafOwners.alive_destroy h.settled hsub _ hi
    rintro j (hj | hj)
    · by_cases hja : j = a
      · subst hja
        by_cases hchild : j ∈ s.owners.children.map ChildEntry.leaf
        · exact Or.inr hchild
        · refine Or.inl (or_iff_not_imp_left.mpr fun hroot => ?_)
          have hpos := hj.resolve_left hroot
          have hne : nlookup ≠ s.owners.nlookup j := fun heq => hlast ⟨hroot, heq ▸ hpos, heq, hchild⟩
          rw [LeafOwners.nlookup_fetchSub, if_pos rfl]
          omega
      · exact Or.inl (hheld j hj hja)
    · exact Or.inr hj

lemma Sound.act (h : s.Sound) {a : Action} (ha : s.FromKernel a) {c : Client} (hc : s.client.step a = some c) :
    Sound { s with client := c } := by
  obtain ⟨files, hb⟩ := h.named
  refine ⟨h.settled, h.single, files, hb.step ?_ hc⟩
  cases a with
  | read request => exact Or.inl ha
  | _ => trivial

lemma Sound.step (h : s.Sound) {e : MountEvent} (hs : s.Spares e) (ht : s.step e = some t) : t.Sound := by
  cases e with
  | lookup parent name size address =>
    obtain ⟨r, hr, rfl⟩ := Option.map_eq_some_iff.mp ht
    exact (h.addChild hr).addRef r.2
  | created parent name size address =>
    obtain ⟨r, hr, rfl⟩ := Option.map_eq_some_iff.mp ht
    exact h.addChild hr
  | removeChild parent name =>
    obtain ⟨-, ht⟩ := Option.ite_none_right_eq_some.mp ht
    cases ht
    exact h.removeChild hs
  | releaseRef inode nlookup =>
    obtain ⟨hn, ht⟩ := Option.ite_none_right_eq_some.mp ht
    cases ht
    exact h.releaseRef hn hs
  | act a =>
    obtain ⟨ha, ht⟩ := Option.ite_none_right_eq_some.mp ht
    obtain ⟨c, hc, rfl⟩ := Option.map_eq_some_iff.mp ht
    exact h.act ha hc

lemma Sound.not_alive_removeChild (h : s.Sound) {parent : ℕ} {name : String} {a : ℕ}
    (ha : a ∈ s.orphaned (.removeChild parent name)) : ¬ (s.owners.removeChild parent name).Alive a := by
  obtain ⟨hleaf, hheld⟩ := Option.filter_eq_some_iff.mp ha
  obtain ⟨e, hfind, rfl⟩ := Option.map_eq_some_iff.mp hleaf
  obtain ⟨xs, ys, hsplit, herase⟩ := find?_eraseP hfind
  rintro (hi | hi)
  · exact of_decide_eq_true hheld hi
  · have hi' := ((s.owners.eraseChild parent name).destroy_sublist.map ChildEntry.leaf).subset hi
    have hn := h.single.nodup
    rw [hsplit, List.map_append, List.map_cons] at hn
    rw [LeafOwners.eraseChild, herase, List.map_append] at hi'
    exact (List.nodup_cons.mp (List.perm_middle.nodup_iff.mp hn)).1 hi'

lemma not_alive_releaseRef {a inode nlookup : ℕ} (ha : a ∈ s.orphaned (.releaseRef inode nlookup)) :
    ¬ (s.owners.releaseRef inode nlookup).Alive a := by
  obtain ⟨⟨hroot, -, hlast, hchild⟩, he⟩ := Option.ite_none_right_eq_some.mp ha
  obtain rfl := Option.some.inj he
  rintro ((hi | hi) | hi)
  · exact hroot hi
  · change 0 < (s.owners.fetchSub inode nlookup).nlookup inode at hi
    rw [LeafOwners.nlookup_fetchSub, if_pos rfl] at hi
    omega
  · exact hchild (((s.owners.fetchSub inode nlookup).destroy_sublist.map ChildEntry.leaf).subset hi)

/-- Every leaf that `Below` counts does go. -/
theorem Sound.orphaned_dies (h : s.Sound) {e : MountEvent} (ht : s.step e = some t) {a : ℕ}
    (ha : a ∈ s.orphaned e) {i : ℕ} (hb : s.owners.Below a i) : ¬ t.owners.Alive i := by
  cases e with
  | lookup parent name size address => cases ha
  | created parent name size address => cases ha
  | act a => cases ha
  | removeChild parent name =>
    obtain ⟨-, ht⟩ := Option.ite_none_right_eq_some.mp ht
    cases ht
    have hsub := (s.owners.eraseChild parent name).destroy_sublist.trans List.eraseP_sublist
    exact LeafOwners.not_alive_of_below h.single (LeafOwners.isSettled_destroy _) hsub.subset (fun _ hi => hi)
      (h.not_alive_removeChild ha) hb
  | releaseRef inode nlookup =>
    obtain ⟨-, ht⟩ := Option.ite_none_right_eq_some.mp ht
    cases ht
    have hsub := (s.owners.fetchSub inode nlookup).destroy_sublist
    refine LeafOwners.not_alive_of_below h.single (LeafOwners.isSettled_destroy _) hsub.subset (fun j hj => ?_)
      (not_alive_releaseRef ha) hb
    refine hj.imp id fun hpos => ?_
    change 0 < (s.owners.fetchSub inode nlookup).nlookup j at hpos
    rw [LeafOwners.nlookup_fetchSub] at hpos
    split_ifs at hpos with hji
    · rw [hji]
      omega
    · exact hpos

def NamesLive (s : MountedClient) : Prop :=
  (∀ e ∈ s.client.cachePerShard, s.owners.Alive e.1) ∧ ∀ job ∈ s.client.cacheTreeQueue, s.owners.Alive job.inode

instance (s : MountedClient) : Decidable s.NamesLive := inferInstanceAs (Decidable (_ ∧ _))

theorem names_live {files : ℕ → RemoteFile} {es : List MountEvent} {s : MountedClient}
    (h : Path step Spares (create files) es s) : s.NamesLive := by
  have hs : s.Sound := h.invariant (fun _ _ _ hu he ht => hu.step he ht) (sound_create files)
  obtain ⟨_, hb⟩ := hs.named
  exact ⟨hb.table, hb.jobs⟩

lemma spares_of_orphaned_none {e : MountEvent} (h : s.orphaned e = none) : s.Spares e := by
  intro a ha
  rw [h] at ha
  cases ha

lemma spares_leaf {e : MountEvent} {a : ℕ} (ha : s.orphaned e = some a) (hc : ∀ c ∈ s.owners.children, c.parent ≠ a)
    (hn : ¬ s.client.Names a) : s.Spares e := by
  intro b hb i hi
  obtain rfl := Option.some.inj (ha.symm.trans hb)
  have honly : i = a := by
    induction hi with
    | self => rfl
    | @child c _ hm _ ih => exact absurd ih (hc c hm)
  rw [honly]
  exact hn

theorem names_live_removed : ∃ s, run step (create fun _ => ⟨"", 1, []⟩)
      [.lookup 1 "a.txt" 3 8, .lookup 1 "b.txt" 3 12, .act (.read ⟨1, 12, 0, 3⟩), .removeChild 1 "a.txt",
        .releaseRef 8 1] = some s ∧ s.NamesLive := by
  have hpath : Path step Spares (create fun _ => ⟨"", 1, []⟩)
      [.lookup 1 "a.txt" 3 8, .lookup 1 "b.txt" 3 12, .act (.read ⟨1, 12, 0, 3⟩), .removeChild 1 "a.txt",
        .releaseRef 8 1] _ :=
    .cons (spares_of_orphaned_none rfl) rfl <| .cons (spares_of_orphaned_none rfl) rfl <|
    .cons (spares_of_orphaned_none rfl) rfl <| .cons (spares_of_orphaned_none rfl) rfl <|
    .cons (spares_leaf rfl (by decide) (by decide)) rfl <| .nil _
  exact ⟨_, hpath.run, names_live hpath⟩

def forgottenRun : List MountEvent :=
  [.lookup 1 "a.txt" 3 8, .act (.read ⟨1, 8, 0, 3⟩), .act (.cacheTree 0 false []), .act .sendRequest,
    .act (.answer 0 0 [([1, 2, 3], [])]), .act (.receive 0), .act (.cacheTree 0 false []),
    .act (.cacheTree 0 false []), .removeChild 1 "a.txt", .releaseRef 8 1]

theorem not_names_live_of_forgotten : ¬ ∀ (files : ℕ → RemoteFile) (es : List MountEvent) (s : MountedClient),
    run step (create files) es = some s → s.NamesLive := by
  intro h
  have hrun : run step (create fun _ => ⟨"", 1, []⟩) forgottenRun = some _ := rfl
  have hlive := h _ _ _ hrun
  revert hlive
  decide

end MountedClient

end FastTransport.FileCache
