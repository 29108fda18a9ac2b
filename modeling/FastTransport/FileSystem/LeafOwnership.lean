import FastTransport.Lib.Lists
import FastTransport.Lib.Runs
import FastTransport.Lib.SharedPtr

/-! What keeps the leaves of a tree alive: the `children` of their parents, and the pins that the first lookup sets
and the last forget takes away. -/

namespace FastTransport.FileSystem

open Lib.Lists Lib.Runs Lib.SharedPtr

/-- `born` tells which of two leaves was made first. -/
structure SharedLeaf where
  name : String
  parent : Option ℕ
  children : List (String × ℕ)
  nlookup : ℕ
  selfPin : Option ℕ
  born : ℕ
  deriving DecidableEq, Repr

namespace SharedLeaf

def childPointers (l : SharedLeaf) : List ℕ := l.children.map Prod.snd

def pointers (l : SharedLeaf) : List ℕ := l.childPointers ++ l.selfPin.toList

/-- `children.erase`: names are keys of the map, so there is no second entry. -/
def eraseChild (l : SharedLeaf) (name : String) : SharedLeaf :=
  { l with children := l.children.eraseP fun e => e.1 = name }

def unpin (l : SharedLeaf) (nlookup : ℕ) : SharedLeaf := { l with nlookup := l.nlookup - nlookup, selfPin := none }

def Pinned (l : SharedLeaf) (a : ℕ) : Prop := l.selfPin = if 0 < l.nlookup then some a else none

end SharedLeaf

/-- `locals` are the pointers of a caller to leaves that it has made and not added yet. What is found at an address
outlives the leaf that was there. -/
structure LeafHeap where
  heap : Heap ℕ
  leafs : ℕ → SharedLeaf
  root : ℕ
  locals : List ℕ
  made : ℕ

namespace LeafHeap

def create (root : ℕ) (name : String) : LeafHeap where
  heap := ⟨[root], fun _ => 1⟩
  leafs _ := ⟨name, none, [], 0, none, 0⟩
  root := root
  locals := []
  made := 1

def refs (s : LeafHeap) (a : ℕ) : List ℕ := (s.leafs a).pointers

def setLeaf (s : LeafHeap) (a : ℕ) (l : SharedLeaf) : LeafHeap := { s with leafs := Function.update s.leafs a l }

def letGo (s : LeafHeap) (pending : List ℕ) : LeafHeap := { s with heap := s.heap.release s.refs pending }

/-- `std::make_shared<Leaf>`, with a parent that the new leaf does not own. -/
def make (s : LeafHeap) (parent : Option ℕ) (name : String) (a : ℕ) : LeafHeap where
  heap := s.heap.allocate a
  leafs := Function.update s.leafs a ⟨name, parent, [], 0, none, s.made⟩
  root := s.root
  locals := a :: s.locals
  made := s.made + 1

def findChild (s : LeafHeap) (p : ℕ) (name : String) : Option (String × ℕ) :=
  (s.leafs p).children.find? fun e => e.1 = name

/-- `children.insert`: the pointer goes into the map, or with the pair where the name is known. -/
def insertChild (s : LeafHeap) (p a : ℕ) : LeafHeap :=
  let l := s.leafs p
  let entry := ((s.leafs a).name, a)
  let s := { s with locals := s.locals.erase a }
  if (s.findChild p entry.1).isSome then s.letGo [a]
  else s.setLeaf p { l with children := l.children.orderedInsert (fun e e' => e.1 ≤ e'.1) entry }

/-- The copy of the pointer in the pair and the one in `leaf` come down to one. -/
def addChild (s : LeafHeap) (p : ℕ) (name : String) (a : ℕ) : LeafHeap := (s.make (some p) name a).insertChild p a

def removeChild (s : LeafHeap) (p : ℕ) (name : String) : LeafHeap :=
  match s.findChild p name with
  | none => s
  | some entry => (s.setLeaf p ((s.leafs p).eraseChild name)).letGo [entry.2]

def addRef (s : LeafHeap) (a : ℕ) : LeafHeap :=
  let l := s.leafs a
  if l.nlookup = 0 then
    ({ s with heap := s.heap.copy a }.setLeaf a { l with nlookup := l.nlookup + 1, selfPin := some a }).letGo
      l.selfPin.toList
  else s.setLeaf a { l with nlookup := l.nlookup + 1 }

/-- `released` is the pin on its way out of the leaf. -/
def releaseRef (s : LeafHeap) (a nlookup : ℕ) : LeafHeap :=
  let l := s.leafs a
  if l.nlookup = nlookup then (s.setLeaf a (l.unpin nlookup)).letGo l.selfPin.toList
  else s.setLeaf a { l with nlookup := l.nlookup - nlookup }

end LeafHeap

/-- The calls. The leaf given to `addLeaf` was made for this parent, as `Deserialize` makes it. -/
inductive LifetimeCall
  | make (parent : Option ℕ) (name : String) (a : ℕ)
  | addChild (p : ℕ) (name : String) (a : ℕ)
  | addLeaf (p a : ℕ)
  | removeChild (p : ℕ) (name : String)
  | addRef (a : ℕ)
  | releaseRef (a nlookup : ℕ)
  deriving DecidableEq, Repr

namespace LeafHeap

def step (s : LeafHeap) : LifetimeCall → Option LeafHeap
  | .make parent name a =>
    if a ∉ s.heap.live ∧ ∀ p ∈ parent, p ∈ s.heap.live then some (s.make parent name a) else none
  | .addChild p name a => if a ∉ s.heap.live ∧ p ∈ s.heap.live then some (s.addChild p name a) else none
  | .addLeaf p a =>
    if p ∈ s.heap.live ∧ a ∈ s.locals ∧ (s.leafs a).parent = some p ∧ (s.leafs p).born < (s.leafs a).born then
      some (s.insertChild p a)
    else none
  | .removeChild p name => if p ∈ s.heap.live then some (s.removeChild p name) else none
  | .addRef a => if a ∈ s.heap.live then some (s.addRef a) else none
  | .releaseRef a nlookup =>
    if a ∈ s.heap.live ∧ nlookup ≤ (s.leafs a).nlookup then some (s.releaseRef a nlookup) else none

def Below (s : LeafHeap) : ℕ → ℕ → Prop := Relation.ReflTransGen fun p a => a ∈ (s.leafs p).childPointers

/-- What goes with `c`: from there down, the leaves without lookups. -/
inductive Gone (s : LeafHeap) (c : ℕ) : ℕ → Prop
  | self : Gone s c c
  | child {p a : ℕ} : Gone s c p → a ∈ (s.leafs p).childPointers → (s.leafs a).nlookup = 0 → Gone s c a

structure Unowned (s : LeafHeap) (c : ℕ) : Prop where
  forgotten : (s.leafs c).nlookup = 0
  outside : c ∉ s.root :: s.locals
  children : ∀ p ∈ s.heap.live, c ∉ (s.leafs p).childPointers

/-- The use counts are right but for the `pending` pointers, each leaf is pinned by its lookups alone, and stands in
one place of the tree. -/
structure Owned (s : LeafHeap) (pending : List ℕ) : Prop where
  counted : Counted s.refs (pending ++ s.root :: s.locals) s.heap
  pin : ∀ a ∈ s.heap.live, (s.leafs a).Pinned a
  forgotten : ∀ a ∉ s.heap.live, (s.leafs a).nlookup = 0
  single : (s.root :: s.locals ++ s.heap.live.flatMap fun p => (s.leafs p).childPointers).Nodup
  born : ∀ p ∈ s.heap.live, ∀ a ∈ (s.leafs p).childPointers, (s.leafs p).born < (s.leafs a).born
  made : ∀ a ∈ s.heap.live, (s.leafs a).born < s.made
  parents : ∀ p ∈ s.heap.live, ∀ a ∈ (s.leafs p).childPointers, (s.leafs a).parent = some p

variable {s t : LeafHeap} {pending : List ℕ}

lemma Gone.isBelow {c a : ℕ} (h : s.Gone c a) : s.Below c a := by
  induction h with
  | self => exact .refl
  | child _ hm _ ih => exact ih.tail hm

lemma apply_update_eq {β : Type} {leafs : ℕ → SharedLeaf} {p : ℕ} {l : SharedLeaf} (f : SharedLeaf → β)
    (hf : f l = f (leafs p)) (a : ℕ) : f (Function.update leafs p l a) = f (leafs a) := by
  by_cases ha : a = p
  · rw [ha, Function.update_self, hf]
  · rw [Function.update_of_ne ha]

lemma setLeaf_frame {β : Type} {p : ℕ} {l : SharedLeaf} (f : SharedLeaf → β) (hf : f l = f (s.leafs p)) (a : ℕ) :
    f ((s.setLeaf p l).leafs a) = f (s.leafs a) := by
  exact apply_update_eq f hf a

lemma setLeaf_self {a : ℕ} {l : SharedLeaf} : (s.setLeaf a l).leafs a = l := by
  change Function.update s.leafs a l a = l
  rw [Function.update_self]

lemma setLeaf_of_ne {a b : ℕ} {l : SharedLeaf} (h : b ≠ a) : (s.setLeaf a l).leafs b = s.leafs b := by
  change Function.update s.leafs a l b = s.leafs b
  rw [Function.update_of_ne h]

lemma gone_congr {c : ℕ} (hchild : ∀ q, s.Below c q → (t.leafs q).childPointers = (s.leafs q).childPointers)
    (hnlookup : ∀ q, s.Below c q → ∀ b ∈ (s.leafs q).childPointers, (t.leafs b).nlookup = (s.leafs b).nlookup)
    (a : ℕ) : t.Gone c a ↔ s.Gone c a := by
  constructor
  · intro h
    induction h with
    | self => exact .self
    | child _ hm hzero ih =>
      rw [hchild _ ih.isBelow] at hm
      exact .child ih hm ((hnlookup _ ih.isBelow _ hm).symm.trans hzero)
  · intro h
    induction h with
    | self => exact .self
    | child hq hm hzero ih =>
      refine .child ih ?_ ((hnlookup _ hq.isBelow _ hm).trans hzero)
      rwa [hchild _ hq.isBelow]

lemma owned_create (root : ℕ) (name : String) : (create root name).Owned [] where
  counted := by
    constructor
    case nodup => exact List.nodup_singleton root
    case live_iff => exact fun a => Iff.rfl
    case counts =>
      intro a ha
      rw [List.mem_singleton.mp ha]
      exact (List.count_singleton_self).symm
  pin a _ := rfl
  forgotten a _ := rfl
  single := List.nodup_singleton root
  born p _ a ha := absurd ha List.not_mem_nil
  made a _ := Nat.one_pos
  parents p _ a ha := absurd ha List.not_mem_nil

namespace Owned

lemma live_of_single (h : s.Owned pending) {a : ℕ}
    (ha : a ∈ s.root :: s.locals ++ s.heap.live.flatMap fun p => (s.leafs p).childPointers) : a ∈ s.heap.live := by
  rcases List.mem_append.mp ha with ha | ha
  · exact h.counted.live_of_held (List.mem_append_right pending ha)
  · obtain ⟨p, hp, hm⟩ := List.mem_flatMap.mp ha
    exact h.counted.live_of_refs hp (List.mem_append_left _ hm)

lemma letGo (h : s.Owned pending) : (s.letGo pending).Owned [] := by
  obtain ⟨hcounted, hsub, hgone⟩ := h.counted.release
  constructor
  case counted => exact hcounted
  case pin => exact fun a ha => h.pin a (hsub.subset ha)
  case forgotten =>
    intro a ha
    by_cases hlive : a ∈ s.heap.live
    · by_contra hne
      have hpos : 0 < (s.leafs a).nlookup := Nat.pos_of_ne_zero hne
      have hpin := h.pin a hlive
      rw [SharedLeaf.Pinned, if_pos hpos] at hpin
      apply hgone a hlive ha
      apply List.mem_append_right
      exact Option.mem_toList.mpr hpin
    · exact h.forgotten a hlive
  case single => exact h.single.sublist ((List.Sublist.refl _).append (hsub.flatMap _))
  case born => exact fun p hp => h.born p (hsub.subset hp)
  case made => exact fun a ha => h.made a (hsub.subset ha)
  case parents => exact fun p hp => h.parents p (hsub.subset hp)

lemma make (h : s.Owned []) {parent : Option ℕ} {name : String} {a : ℕ} (ha : a ∉ s.heap.live) :
    (s.make parent name a).Owned [] := by
  have hleafs : ∀ p ∈ s.heap.live, (s.make parent name a).leafs p = s.leafs p :=
    fun p hp => Function.update_of_ne (ne_of_mem_of_not_mem hp ha) _ _
  have hnew : (s.make parent name a).leafs a = ⟨name, parent, [], 0, none, s.made⟩ := Function.update_self _ _ _
  have hcases : ∀ p ∈ (s.make parent name a).heap.live, p ∈ s.heap.live ∨ p = a :=
    fun p hp => (List.mem_append.mp hp).imp_right List.mem_singleton.mp
  have hchild : ∀ p ∈ (s.make parent name a).heap.live, ∀ b ∈ ((s.make parent name a).leafs p).childPointers,
      p ∈ s.heap.live ∧ b ∈ s.heap.live ∧ b ∈ (s.leafs p).childPointers := by
    intro p hp b hb
    rcases hcases p hp with hp | rfl
    · rw [hleafs p hp] at hb
      exact ⟨hp, h.counted.live_of_refs hp (List.mem_append_left _ hb), hb⟩
    · rw [hnew] at hb
      exact absurd hb List.not_mem_nil
  constructor
  case counted =>
    have hnil : (s.make parent name a).refs a = [] := congrArg SharedLeaf.pointers hnew
    have hrefs : ∀ p ∈ s.heap.live, (s.make parent name a).refs p = s.refs p :=
      fun p hp => congrArg SharedLeaf.pointers (hleafs p hp)
    apply (h.counted.allocate ha hnil hrefs).moved
    exact (List.Perm.swap _ _ _).append_right _
  case pin =>
    intro p hp
    rcases hcases p hp with hp | rfl
    · rw [hleafs p hp]
      exact h.pin p hp
    · rw [hnew]
      rfl
  case forgotten =>
    intro p hp
    by_cases hpa : p = a
    · rw [hpa, hnew]
    · have hleaf : (s.make parent name a).leafs p = s.leafs p := Function.update_of_ne hpa _ _
      rw [hleaf]
      exact h.forgotten p fun hm => hp (List.mem_append_left _ hm)
  case single =>
    have hflat : (s.make parent name a).heap.live.flatMap (fun p => ((s.make parent name a).leafs p).childPointers) =
        s.heap.live.flatMap fun p => (s.leafs p).childPointers := by
      change (s.heap.live ++ [a]).flatMap _ = _
      rw [List.flatMap_append, List.flatMap_singleton, hnew]
      rw [List.flatMap_congr fun p hp => congrArg SharedLeaf.childPointers (hleafs p hp)]
      exact List.append_nil _
    rw [hflat]
    change (s.root :: a :: (s.locals ++ _)).Nodup
    rw [(List.Perm.swap _ _ _).nodup_iff]
    exact List.nodup_cons.mpr ⟨fun hm => ha (h.live_of_single hm), h.single⟩
  case born =>
    intro p hp b hb
    obtain ⟨hp, hb, hm⟩ := hchild p hp b hb
    rw [hleafs p hp, hleafs b hb]
    exact h.born p hp b hm
  case made =>
    intro p hp
    rcases hcases p hp with hp | rfl
    · rw [hleafs p hp]
      exact (h.made p hp).trans (Nat.lt_succ_self _)
    · rw [hnew]
      exact Nat.lt_succ_self _
  case parents =>
    intro p hp b hb
    obtain ⟨hp, hb, hm⟩ := hchild p hp b hb
    rw [hleafs b hb]
    exact h.parents p hp b hm

lemma held (h : s.Owned pending) {locals pending' : List ℕ}
    (hperm : (pending ++ s.root :: s.locals).Perm (pending' ++ s.root :: locals)) (hsub : locals.Sublist s.locals) :
    Owned { s with locals := locals } pending' where
  counted := h.counted.moved (hperm.append_right _)
  pin := h.pin
  forgotten := h.forgotten
  single := h.single.sublist ((hsub.cons_cons s.root).append (List.Sublist.refl _))
  born := h.born
  made := h.made
  parents := h.parents

lemma update (h : s.Owned pending) {p : ℕ} (hp : p ∈ s.heap.live) {l : SharedLeaf} {heap : Heap ℕ}
    {locals pending' : List ℕ} (hlive : heap.live = s.heap.live) (hparent : l.parent = (s.leafs p).parent)
    (hborn : l.born = (s.leafs p).born) (hpin : l.Pinned p)
    (hchild : ∀ a ∈ l.childPointers, (s.leafs p).born < (s.leafs a).born ∧ (s.leafs a).parent = some p)
    (hcounted : Counted (Function.update s.refs p l.pointers) (pending' ++ s.root :: locals) heap)
    (hsingle : (s.root :: locals ++ s.heap.live.flatMap
      (Function.update (fun p => (s.leafs p).childPointers) p l.childPointers)).Nodup) :
    Owned { s with heap := heap, leafs := Function.update s.leafs p l, locals := locals } pending' := by
  have hleaf : ∀ a, a ≠ p → Function.update s.leafs p l a = s.leafs a := fun a ha => Function.update_of_ne ha _ _
  have hchildren : ∀ q ∈ s.heap.live, ∀ a ∈ (Function.update s.leafs p l q).childPointers,
      (s.leafs q).born < (s.leafs a).born ∧ (s.leafs a).parent = some q := by
    intro q hq a ha
    by_cases hqp : q = p
    · rw [hqp, Function.update_self] at ha
      rw [hqp]
      exact hchild a ha
    · rw [hleaf q hqp] at ha
      exact ⟨h.born q hq a ha, h.parents q hq a ha⟩
  constructor
  case counted =>
    have hrefs : Function.update s.refs p l.pointers = SharedLeaf.pointers ∘ Function.update s.leafs p l :=
      (Function.comp_update SharedLeaf.pointers s.leafs p l).symm
    rw [hrefs] at hcounted
    exact hcounted
  case pin =>
    intro a ha
    dsimp only at ha ⊢
    by_cases hap : a = p
    · rw [hap, Function.update_self]
      exact hpin
    · rw [hleaf a hap]
      exact h.pin a (hlive ▸ ha)
  case forgotten =>
    intro a ha
    have hdead : a ∉ s.heap.live := fun hm => ha (by dsimp only; rwa [hlive])
    have hap : a ≠ p := fun heq => hdead (heq ▸ hp)
    dsimp only
    rw [hleaf a hap]
    exact h.forgotten a hdead
  case single =>
    have hflat : (fun q => (Function.update s.leafs p l q).childPointers) =
        Function.update (fun q => (s.leafs q).childPointers) p l.childPointers :=
      Function.comp_update SharedLeaf.childPointers s.leafs p l
    dsimp only
    rw [hflat, hlive]
    exact hsingle
  case born =>
    intro q hq a ha
    dsimp only at hq ha ⊢
    rw [hlive] at hq
    rw [apply_update_eq SharedLeaf.born hborn q, apply_update_eq SharedLeaf.born hborn a]
    exact (hchildren q hq a ha).1
  case made =>
    intro a ha
    dsimp only at ha ⊢
    rw [hlive] at ha
    rw [apply_update_eq SharedLeaf.born hborn a]
    exact h.made a ha
  case parents =>
    intro q hq a ha
    dsimp only at hq ha ⊢
    rw [hlive] at hq
    rw [apply_update_eq SharedLeaf.parent hparent a]
    exact (hchildren q hq a ha).2

lemma insertChild (h : s.Owned []) {p a : ℕ} (hp : p ∈ s.heap.live) (ha : a ∈ s.locals)
    (hparent : (s.leafs a).parent = some p) (hborn : (s.leafs p).born < (s.leafs a).born) :
    (s.insertChild p a).Owned [] := by
  have hlocals : (s.root :: s.locals).Perm (a :: s.root :: s.locals.erase a) :=
    ((List.perm_cons_erase ha).cons s.root).trans (List.Perm.swap _ _ _)
  rw [LeafHeap.insertChild]
  dsimp only
  split_ifs
  · exact (h.held hlocals List.erase_sublist : Owned { s with locals := s.locals.erase a } [a]).letGo
  · have hinsert := List.perm_orderedInsert (fun e e' : String × ℕ => e.1 ≤ e'.1) ((s.leafs a).name, a) (s.leafs p).children
    have hchildren := hinsert.map Prod.snd
    have hmove {f : ℕ → List ℕ} {xs : List ℕ} (hxs : xs.Perm ([a] ++ f p)) :
        (s.root :: s.locals ++ s.heap.live.flatMap f).Perm
          (s.root :: s.locals.erase a ++ s.heap.live.flatMap (Function.update f p xs)) := by
      have hflat := flatMap_update_append_perm h.counted.nodup hp hxs
      exact (hlocals.append_right _).trans (List.perm_middle.symm.trans (hflat.symm.append_left _))
    refine h.update hp rfl rfl rfl (h.pin p hp) ?_ ?_ ?_
    · intro b hb
      rcases List.mem_cons.mp (hchildren.mem_iff.mp hb) with rfl | hb
      · exact ⟨hborn, hparent⟩
      · exact ⟨h.born p hp b hb, h.parents p hp b hb⟩
    · exact h.counted.moved (hmove (hchildren.append_right _))
    · exact (hmove hchildren).nodup_iff.mp h.single

lemma addChild (h : s.Owned []) {p a : ℕ} {name : String} (ha : a ∉ s.heap.live) (hp : p ∈ s.heap.live) :
    (s.addChild p name a).Owned [] := by
  have hnew : (s.make (some p) name a).leafs a = ⟨name, some p, [], 0, none, s.made⟩ := Function.update_self _ _ _
  have hold : (s.make (some p) name a).leafs p = s.leafs p := Function.update_of_ne (ne_of_mem_of_not_mem hp ha) _ _
  apply (h.make ha).insertChild
  · exact List.mem_append_left _ hp
  · exact List.mem_cons_self
  · rw [hnew]
  · rw [hnew, hold]
    exact h.made p hp

lemma takeOut (h : s.Owned []) {p : ℕ} (hp : p ∈ s.heap.live) {l : SharedLeaf} {pending : List ℕ}
    (hparent : l.parent = (s.leafs p).parent) (hborn : l.born = (s.leafs p).born) (hpin : l.Pinned p)
    (hsub : l.childPointers.Sublist (s.leafs p).childPointers)
    (hpointers : (s.leafs p).pointers.Perm (pending ++ l.pointers)) : (s.setLeaf p l).Owned pending := by
  refine h.update hp rfl hparent hborn hpin ?_ ?_ ?_
  · exact fun a ha => ⟨h.born p hp a (hsub.subset ha), h.parents p hp a (hsub.subset ha)⟩
  · have hflat := flatMap_perm_append_update h.counted.nodup hp (f := s.refs) hpointers
    apply h.counted.moved
    apply (hflat.append_left (s.root :: s.locals)).trans
    rw [pointers, ← List.append_assoc]
    exact List.perm_append_comm.append_right _
  · refine h.single.sublist ((List.Sublist.refl _).append ?_)
    apply List.Sublist.flatMap_right
    intro q _
    by_cases hqp : q = p
    · rwa [hqp, Function.update_self]
    · rw [Function.update_of_ne hqp]

lemma eraseChild (h : s.Owned []) {p : ℕ} {name : String} {entry : String × ℕ} (hp : p ∈ s.heap.live)
    (hfind : s.findChild p name = some entry) :
    (s.leafs p).childPointers.Perm (entry.2 :: ((s.leafs p).eraseChild name).childPointers) ∧
      (s.setLeaf p ((s.leafs p).eraseChild name)).Owned [entry.2] := by
  obtain ⟨xs, ys, hl, herase⟩ := find?_eraseP hfind
  have hperm : (s.leafs p).childPointers.Perm (entry.2 :: ((s.leafs p).eraseChild name).childPointers) := by
    rw [SharedLeaf.childPointers, SharedLeaf.childPointers, SharedLeaf.eraseChild, herase, hl, List.map_append,
      List.map_cons, List.map_append]
    exact List.perm_middle
  refine ⟨hperm, h.takeOut hp rfl rfl ?_ ?_ ?_⟩
  · exact h.pin p hp
  · exact List.eraseP_sublist.map _
  · exact hperm.append_right _

lemma removeChild (h : s.Owned []) {p : ℕ} {name : String} (hp : p ∈ s.heap.live) :
    (s.removeChild p name).Owned [] := by
  rw [LeafHeap.removeChild]
  cases hfind : s.findChild p name with
  | none => exact h
  | some entry => exact (h.eraseChild hp hfind).2.letGo

lemma addRef (h : s.Owned []) {a : ℕ} (ha : a ∈ s.heap.live) : (s.addRef a).Owned [] := by
  have hpin := h.pin a ha
  have hchild : ∀ b ∈ (s.leafs a).childPointers, (s.leafs a).born < (s.leafs b).born ∧ (s.leafs b).parent = some a :=
    fun b hb => ⟨h.born a ha b hb, h.parents a ha b hb⟩
  have hsingle : (s.root :: s.locals ++ s.heap.live.flatMap
      (Function.update (fun p => (s.leafs p).childPointers) a (s.leafs a).childPointers)).Nodup := by
    rw [Function.update_eq_self a (fun p => (s.leafs p).childPointers)]
    exact h.single
  simp only [LeafHeap.addRef]
  split_ifs with hzero
  · rw [SharedLeaf.Pinned, hzero, if_neg (lt_irrefl 0)] at hpin
    rw [hpin]
    apply Owned.letGo
    refine h.update ha rfl rfl rfl ?_ hchild ?_ hsingle
    · rw [SharedLeaf.Pinned, if_pos (Nat.succ_pos _)]
    · apply (h.counted.copy ha).moved
      have hrefs : ((s.leafs a).childPointers ++ [a]).Perm ([a] ++ s.refs a) := by
        rw [refs, SharedLeaf.pointers, hpin, Option.toList_none, List.append_nil]
        exact List.perm_append_comm
      have hflat := flatMap_update_append_perm h.counted.nodup ha hrefs
      exact List.perm_middle.symm.trans (hflat.symm.append_left (s.root :: s.locals))
  · refine h.update ha rfl rfl rfl ?_ hchild ?_ hsingle
    · rw [SharedLeaf.Pinned, if_pos (Nat.pos_of_ne_zero hzero)] at hpin
      rw [SharedLeaf.Pinned, if_pos (Nat.succ_pos _)]
      exact hpin
    · have hsame : Function.update s.refs a (s.leafs a).pointers = s.refs := Function.update_eq_self a s.refs
      change Counted (Function.update s.refs a (s.leafs a).pointers) _ _
      rw [hsame]
      exact h.counted

lemma unpin (h : s.Owned []) {a : ℕ} (ha : a ∈ s.heap.live) :
    (s.setLeaf a ((s.leafs a).unpin (s.leafs a).nlookup)).Owned (s.leafs a).selfPin.toList := by
  refine h.takeOut ha rfl rfl ?_ (List.Sublist.refl _) ?_
  · rw [SharedLeaf.Pinned, SharedLeaf.unpin, Nat.sub_self, if_neg (lt_irrefl 0)]
  · change (s.leafs a).pointers.Perm ((s.leafs a).selfPin.toList ++ ((s.leafs a).childPointers ++ []))
    rw [List.append_nil]
    exact List.perm_append_comm

lemma releaseRef (h : s.Owned []) {a n : ℕ} (ha : a ∈ s.heap.live) (hn : n ≤ (s.leafs a).nlookup) :
    (s.releaseRef a n).Owned [] := by
  have hpin := h.pin a ha
  simp only [LeafHeap.releaseRef]
  split_ifs with hlast
  · rw [← hlast]
    exact (h.unpin ha).letGo
  · have hpos : 0 < (s.leafs a).nlookup - n := by omega
    refine h.takeOut ha rfl rfl ?_ (List.Sublist.refl _) (List.Perm.refl _)
    rw [SharedLeaf.Pinned, if_pos (hpos.trans_le (Nat.sub_le _ _))] at hpin
    rw [SharedLeaf.Pinned, if_pos hpos]
    exact hpin

lemma step (h : s.Owned []) {c : LifetimeCall} (hs : s.step c = some t) : t.Owned [] := by
  cases c with
  | make parent name a =>
    obtain ⟨⟨ha, -⟩, ht⟩ := Option.ite_none_right_eq_some.mp hs
    exact Option.some.inj ht ▸ h.make ha
  | addChild p name a =>
    obtain ⟨⟨ha, hp⟩, ht⟩ := Option.ite_none_right_eq_some.mp hs
    exact Option.some.inj ht ▸ h.addChild ha hp
  | addLeaf p a =>
    obtain ⟨⟨hp, ha, hparent, hborn⟩, ht⟩ := Option.ite_none_right_eq_some.mp hs
    exact Option.some.inj ht ▸ h.insertChild hp ha hparent hborn
  | removeChild p name =>
    obtain ⟨hp, ht⟩ := Option.ite_none_right_eq_some.mp hs
    exact Option.some.inj ht ▸ h.removeChild hp
  | addRef a =>
    obtain ⟨ha, ht⟩ := Option.ite_none_right_eq_some.mp hs
    exact Option.some.inj ht ▸ h.addRef ha
  | releaseRef a nlookup =>
    obtain ⟨⟨ha, hn⟩, ht⟩ := Option.ite_none_right_eq_some.mp hs
    exact Option.some.inj ht ▸ h.releaseRef ha hn

lemma run {calls : List LifetimeCall} (h : s.Owned []) (hr : run LeafHeap.step s calls = some t) : t.Owned [] :=
  run_invariant (P := fun s => s.Owned []) (fun _ _ _ h hs => h.step hs) h hr

theorem live_iff (h : s.Owned pending) (a : ℕ) : a ∈ s.heap.live ↔ a ∈ pending ∨ 0 < (s.leafs a).nlookup ∨
    (∃ p ∈ s.heap.live, a ∈ (s.leafs p).childPointers) ∨ a ∈ s.root :: s.locals := by
  constructor
  · intro ha
    rcases Counted.mem_pointers.mp ((h.counted.live_iff a).mp ha) with hm | ⟨p, hp, hm⟩
    · exact (List.mem_append.mp hm).imp_right fun hm => Or.inr (Or.inr hm)
    · rcases List.mem_append.mp hm with hm | hm
      · exact Or.inr (Or.inr (Or.inl ⟨p, hp, hm⟩))
      · have hpin := h.pin p hp
        rw [SharedLeaf.Pinned, Option.mem_toList.mp hm] at hpin
        split_ifs at hpin with hpos
        exact Or.inr (Or.inl (Option.some.inj hpin ▸ hpos))
  · rintro (hm | hpos | ⟨p, hp, hm⟩ | hm)
    · exact h.counted.live_of_held (List.mem_append_left _ hm)
    · by_contra hn
      exact hpos.ne' (h.forgotten a hn)
    · exact h.counted.live_of_refs hp (List.mem_append_left _ hm)
    · exact h.counted.live_of_held (List.mem_append_right _ hm)

lemma not_held (h : s.Owned pending) {p a : ℕ} (hp : p ∈ s.heap.live) (ha : a ∈ (s.leafs p).childPointers) :
    a ∉ s.root :: s.locals := by
  intro hm
  exact List.disjoint_of_nodup_append h.single hm (List.mem_flatMap.mpr ⟨p, hp, ha⟩)

lemma below_live (h : s.Owned pending) {c a : ℕ} (hc : c ∈ s.heap.live) (ha : s.Below c a) : a ∈ s.heap.live := by
  induction ha with
  | refl => exact hc
  | tail _ hm ih => exact h.counted.live_of_refs ih (List.mem_append_left _ hm)

lemma born_le (h : s.Owned pending) {c a : ℕ} (hc : c ∈ s.heap.live) (ha : s.Below c a) :
    (s.leafs c).born ≤ (s.leafs a).born := by
  induction ha with
  | refl => exact le_refl _
  | tail hp hm ih => exact ih.trans (h.born _ (h.below_live hc hp) _ hm).le

theorem letGo_live_iff {c : ℕ} (h : s.Owned [c]) (a : ℕ) :
    a ∈ (s.letGo [c]).heap.live ↔ a ∈ s.heap.live ∧ ¬ (s.Unowned c ∧ s.Gone c a) := by
  have ht := h.letGo
  have hsub : (s.letGo [c]).heap.live.Sublist s.heap.live := h.counted.release.2.1
  have hc : c ∈ s.heap.live := h.counted.live_of_held List.mem_cons_self
  constructor
  · intro ha
    apply And.intro (hsub.subset ha)
    rintro ⟨hun, hgone⟩
    revert ha
    induction hgone with
    | self =>
      intro ha
      rcases (ht.live_iff c).mp ha with hm | hpos | ⟨p, hp, hm⟩ | hm
      · exact List.not_mem_nil hm
      · exact hpos.ne' hun.forgotten
      · exact hun.children p (hsub.subset hp) hm
      · exact hun.outside hm
    | @child q a hq hm hzero ih =>
      intro ha
      have hqlive : q ∈ s.heap.live := h.below_live hc hq.isBelow
      rcases (ht.live_iff a).mp ha with hn | hpos | ⟨p, hp, hm'⟩ | hheld
      · exact List.not_mem_nil hn
      · exact hpos.ne' hzero
      · have hpq : p = q :=
          Option.some.inj ((h.parents p (hsub.subset hp) a hm').symm.trans (h.parents q hqlive a hm))
        exact ih (hpq ▸ hp)
      · exact h.not_held hqlive hm hheld
  · rintro ⟨ha, hn⟩
    -- The owner of a leaf was made before it.
    induction hborn : (s.leafs a).born using Nat.strong_induction_on generalizing a with
    | h n ih =>
      by_cases hpos : 0 < (s.leafs a).nlookup
      · exact (ht.live_iff a).mpr (Or.inr (Or.inl hpos))
      have hzero : (s.leafs a).nlookup = 0 := Nat.eq_zero_of_not_pos hpos
      by_cases hheld : a ∈ s.root :: s.locals
      · exact (ht.live_iff a).mpr (Or.inr (Or.inr (Or.inr hheld)))
      by_cases howner : ∃ p ∈ s.heap.live, a ∈ (s.leafs p).childPointers
      · obtain ⟨p, hp, hm⟩ := howner
        have hlive := ih _ (hborn ▸ h.born p hp a hm) p hp (fun ⟨hun, hg⟩ => hn ⟨hun, .child hg hm hzero⟩) rfl
        exact (ht.live_iff a).mpr (Or.inr (Or.inr (Or.inl ⟨p, hlive, hm⟩)))
      · have hac : a = c := by
          rcases (h.live_iff a).mp ha with hm | hp | ho | hh
          · exact List.mem_singleton.mp hm
          · exact absurd hp hpos
          · exact absurd ho howner
          · exact absurd hh hheld
        push Not at howner
        subst hac
        exact absurd ⟨⟨hzero, hheld, howner⟩, .self⟩ hn

lemma removeChild_live_iff (h : s.Owned []) {p : ℕ} {name : String} {entry : String × ℕ} (hp : p ∈ s.heap.live)
    (hfind : s.findChild p name = some entry) (a : ℕ) :
    a ∈ (s.removeChild p name).heap.live ↔
      a ∈ s.heap.live ∧ ¬ ((s.leafs entry.2).nlookup = 0 ∧ s.Gone entry.2 a) := by
  obtain ⟨hperm, herased⟩ := h.eraseChild hp hfind
  have hchild : entry.2 ∈ (s.leafs p).childPointers := hperm.mem_iff.mpr List.mem_cons_self
  have hentry : entry.2 ∈ s.heap.live := h.counted.live_of_refs hp (List.mem_append_left _ hchild)
  have hnlookup (b : ℕ) : ((s.setLeaf p ((s.leafs p).eraseChild name)).leafs b).nlookup = (s.leafs b).nlookup := by
    apply setLeaf_frame SharedLeaf.nlookup
    rfl
  have hgone : (s.setLeaf p ((s.leafs p).eraseChild name)).Gone entry.2 a ↔ s.Gone entry.2 a := by
    refine gone_congr (fun q hq => ?_) (fun _ _ b _ => hnlookup b) a
    have hqp : q ≠ p := by
      rintro rfl
      exact absurd (h.born q hp _ hchild) (h.born_le hentry hq).not_gt
    rw [setLeaf_of_ne hqp]
  have howned : (s.setLeaf p ((s.leafs p).eraseChild name)).Unowned entry.2 ↔ (s.leafs entry.2).nlookup = 0 := by
    constructor
    · intro hun
      exact (hnlookup _).symm.trans hun.forgotten
    · intro hzero
      constructor
      case forgotten => exact (hnlookup _).trans hzero
      case outside => exact h.not_held hp hchild
      case children =>
        intro q hq hm
        by_cases hqp : q = p
        · rw [hqp, setLeaf_self] at hm
          have hnodup : (s.leafs p).childPointers.Nodup :=
            (List.nodup_flatMap.mp (List.nodup_append'.mp h.single).2.1).1 p hp
          exact (List.nodup_cons.mp (hperm.nodup_iff.mp hnodup)).1 hm
        · rw [setLeaf_of_ne hqp] at hm
          apply hqp
          exact Option.some.inj ((h.parents q hq _ hm).symm.trans (h.parents p hp _ hchild))
  rw [LeafHeap.removeChild, hfind]
  dsimp only
  rw [herased.letGo_live_iff, hgone, howned]
  rfl

lemma gone_iff (h : s.Owned pending) {c a : ℕ} (hc : c ∈ s.heap.live) :
    (s.leafs c).nlookup = 0 ∧ s.Gone c a ↔
      s.Below c a ∧ ∀ r, s.Below c r → s.Below r a → (s.leafs r).nlookup = 0 := by
  constructor
  · rintro ⟨hzero, hgone⟩
    refine ⟨hgone.isBelow, ?_⟩
    induction hgone with
    | self =>
      intro r hcr hrc
      rcases Relation.ReflTransGen.cases_tail hrc with heq | ⟨q, hrq, hm⟩
      · exact heq ▸ hzero
      · have hr := h.below_live hc hcr
        have hlt := h.born q (h.below_live hr hrq) c hm
        exact absurd hlt ((h.born_le hc hcr).trans (h.born_le hr hrq)).not_gt
    | @child q a hq hm hzero' ih =>
      intro r hcr hra
      rcases Relation.ReflTransGen.cases_tail hra with heq | ⟨q', hrq, hm'⟩
      · exact heq ▸ hzero'
      · have hq' := h.below_live (h.below_live hc hcr) hrq
        have hqq : q' = q := Option.some.inj
          ((h.parents q' hq' a hm').symm.trans (h.parents q (h.below_live hc hq.isBelow) a hm))
        exact ih r hcr (hqq ▸ hrq)
  · rintro ⟨hbelow, hall⟩
    refine ⟨hall c .refl hbelow, ?_⟩
    induction hbelow with
    | refl => exact .self
    | tail hq hm ih =>
      apply Gone.child (ih fun r hcr hrq => hall r hcr (hrq.tail hm)) hm
      exact hall _ (hq.tail hm) .refl

/-- Going up from a leaf ends at one that has lookups, at the root or at one that its caller still holds. -/
lemma live_iff_below (h : s.Owned []) (a : ℕ) : a ∈ s.heap.live ↔
    ∃ r, (0 < (s.leafs r).nlookup ∨ r ∈ s.root :: s.locals) ∧ s.Below r a := by
  constructor
  · intro ha
    induction hborn : (s.leafs a).born using Nat.strong_induction_on generalizing a with
    | h n ih =>
      rcases (h.live_iff a).mp ha with hm | hpos | ⟨p, hp, hm⟩ | hm
      · exact absurd hm List.not_mem_nil
      · exact ⟨a, Or.inl hpos, .refl⟩
      · obtain ⟨r, hr, hbelow⟩ := ih _ (hborn ▸ h.born p hp a hm) p hp rfl
        exact ⟨r, hr, hbelow.tail hm⟩
      · exact ⟨a, Or.inr hm, .refl⟩
  · rintro ⟨r, hr, hbelow⟩
    apply h.below_live _ hbelow
    apply (h.live_iff r).mpr
    exact Or.inr (hr.imp_right Or.inr)

end Owned

/-- `s.locals` is empty when a caller holds no leaf that it has still to add. -/
theorem leaf_lives_by_lookups_and_children {root : ℕ} {name : String} {calls : List LifetimeCall}
    (hr : run step (create root name) calls = some s) :
    (∀ a ∈ s.heap.live, (s.leafs a).selfPin = if 0 < (s.leafs a).nlookup then some a else none) ∧
      (∀ a, a ∈ s.heap.live ↔ 0 < (s.leafs a).nlookup ∨ (∃ p ∈ s.heap.live, a ∈ (s.leafs p).childPointers) ∨
        a ∈ s.root :: s.locals) ∧
      (∀ a, a ∈ s.heap.live ↔ ∃ r, (0 < (s.leafs r).nlookup ∨ r ∈ s.root :: s.locals) ∧ s.Below r a) ∧
      ∀ p ∈ s.heap.live, ∀ key, ∀ entry ∈ s.findChild p key, ∀ a,
        a ∈ (s.removeChild p key).heap.live ↔ a ∈ s.heap.live ∧
          (s.Below entry.2 a → ∃ r, s.Below entry.2 r ∧ 0 < (s.leafs r).nlookup ∧ s.Below r a) := by
  have h : s.Owned [] := (owned_create root name).run hr
  refine ⟨h.pin, fun a => ?_, h.live_iff_below, ?_⟩
  · rw [h.live_iff]
    exact ⟨fun ha => ha.resolve_left List.not_mem_nil, Or.inr⟩
  · intro p hp key entry hfind a
    have hentry : entry.2 ∈ s.heap.live := by
      apply h.counted.live_of_refs hp
      apply List.mem_append_left
      exact (h.eraseChild hp hfind).1.mem_iff.mpr List.mem_cons_self
    rw [h.removeChild_live_iff hp hfind, h.gone_iff hentry]
    apply and_congr_right
    intro _
    rw [not_and]
    apply imp_congr_right
    intro _
    push Not
    simp only [Nat.pos_iff_ne_zero]
    exact exists_congr fun r => and_congr_right fun _ => and_comm

def directoryWithLookup : LeafHeap :=
  (((create 0 "").addChild 0 "d" 1).addChild 1 "f" 2).addChild 1 "g" 3 |>.addRef 2

theorem leaf_lives_by_lookups_and_children_removed :
    (directoryWithLookup.leafs 2).selfPin = some 2 ∧ 2 ∈ (directoryWithLookup.removeChild 0 "d").heap.live ∧
      3 ∉ (directoryWithLookup.removeChild 0 "d").heap.live := by
  have hrun : run step (create 0 "") [.addChild 0 "d" 1, .addChild 1 "f" 2, .addChild 1 "g" 3, .addRef 2] =
      some directoryWithLookup := rfl
  obtain ⟨hpin, hlive, -, hremove⟩ := leaf_lives_by_lookups_and_children hrun
  have hroot : 0 ∈ directoryWithLookup.heap.live := (hlive 0).mpr (Or.inr (Or.inr List.mem_cons_self))
  have hlookup : 0 < (directoryWithLookup.leafs 2).nlookup := Nat.one_pos
  have hfile : 2 ∈ directoryWithLookup.heap.live := (hlive 2).mpr (Or.inl hlookup)
  have hbelow : directoryWithLookup.Below 1 2 := .single List.mem_cons_self
  refine ⟨hpin 2 hfile, ?_, ?_⟩
  · apply (hremove 0 hroot "d" ("d", 1) rfl 2).mpr
    exact ⟨hfile, fun _ => ⟨2, hbelow, hlookup, .refl⟩⟩
  · decide +kernel

end LeafHeap

end FastTransport.FileSystem
