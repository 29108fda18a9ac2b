import FastTransport.FileSystem.LeafOwnership

/-! Parent pointers are not owned. A leaf with lookups outlives a parent that has none, and its pointer is then left
over. -/

namespace FastTransport.FileSystem

open Lib.Runs Lib.SharedPtr

def SharedLeaf.identity (l : SharedLeaf) : String × Option ℕ × ℕ := (l.name, l.parent, l.born)

namespace LeafHeap

def ParentsLive (s : LeafHeap) : Prop := ∀ a ∈ s.heap.live, ∀ q, (s.leafs a).parent = some q → q ∈ s.heap.live

/-- The path is read from leaves that are there, or not at all. -/
def fullPathLoop (s : LeafHeap) : ℕ → Option ℕ → List String → Option (List String)
  | _, none, path => some path
  | 0, some _, _ => none
  | fuel + 1, some leaf, path =>
    if leaf ∈ s.heap.live then fullPathLoop s fuel (s.leafs leaf).parent ((s.leafs leaf).name :: path) else none

def getFullPath (s : LeafHeap) (a : ℕ) : Option (List String) :=
  s.fullPathLoop s.made (s.leafs a).parent [(s.leafs a).name]

def brings (s : LeafHeap) : LifetimeCall → Option ℕ
  | .make _ _ a => some a
  | .addChild p name a => if (s.findChild p name).isSome then none else some a
  | _ => none

def letsGo (s : LeafHeap) : LifetimeCall → Option ℕ
  | .addLeaf p a => if (s.findChild p (s.leafs a).name).isSome ∧ (s.leafs a).nlookup = 0 then some a else none
  | .removeChild p name => ((s.findChild p name).map Prod.snd).filter fun c => (s.leafs c).nlookup = 0
  | .releaseRef a nlookup =>
    if (s.leafs a).nlookup = nlookup ∧ a ∉ s.root :: s.locals ∧ ∀ p ∈ s.heap.live, a ∉ (s.leafs p).childPointers then
      some a
    else none
  | _ => none

/-- What goes is not the parent of a leaf with lookups, or of one that its caller still holds. -/
def Spares (s : LeafHeap) (call : LifetimeCall) : Prop :=
  ∀ c ∈ s.letsGo call, ∀ a ∈ s.heap.live, 0 < (s.leafs a).nlookup ∨ a ∈ s.locals →
    ∀ q, (s.leafs a).parent = some q → ¬ s.Gone c q

structure Changes (s t : LeafHeap) (new gone : Option ℕ) : Prop where
  live : ∀ a, a ∈ t.heap.live ↔ (a ∈ s.heap.live ∨ a ∈ new) ∧ ∀ c ∈ gone, ¬ s.Gone c a
  kept : ∀ a ∈ s.heap.live, (t.leafs a).identity = (s.leafs a).identity
  fresh : ∀ a ∈ new, a ∉ s.heap.live ∧ (t.leafs a).born = s.made ∧ ∀ q, (t.leafs a).parent = some q → q ∈ s.heap.live
  root : t.root = s.root

variable {s t : LeafHeap}

lemma changes_of_letGo {gone : Option ℕ} (hlive : ∀ a, a ∈ t.heap.live ↔ a ∈ s.heap.live ∧ ∀ c ∈ gone, ¬ s.Gone c a)
    (hkept : ∀ a ∈ s.heap.live, (t.leafs a).identity = (s.leafs a).identity) (hroot : t.root = s.root) :
    s.Changes t none gone where
  live a := by rw [hlive, or_iff_left (Option.not_mem_none a)]
  kept := hkept
  fresh a ha := absurd ha (Option.not_mem_none a)
  root := hroot

lemma changes_of_live (hlive : ∀ a, a ∈ t.heap.live ↔ a ∈ s.heap.live)
    (hkept : ∀ a ∈ s.heap.live, (t.leafs a).identity = (s.leafs a).identity) (hroot : t.root = s.root) :
    s.Changes t none none := by
  apply changes_of_letGo _ hkept hroot
  intro a
  rw [hlive]
  exact ⟨fun ha => ⟨ha, fun c hc => absurd hc (Option.not_mem_none c)⟩, And.left⟩

lemma changes_setLeaf {a : ℕ} {l : SharedLeaf} (hl : l.identity = (s.leafs a).identity) :
    s.Changes (s.setLeaf a l) none none := by
  apply changes_of_live
  case hlive => exact fun _ => Iff.rfl
  case hkept => exact fun b _ => setLeaf_frame SharedLeaf.identity hl b
  case hroot => rfl

lemma changes_make {parent : Option ℕ} {name : String} {a : ℕ} (ha : a ∉ s.heap.live)
    (hparent : ∀ p ∈ parent, p ∈ s.heap.live) : s.Changes (s.make parent name a) (some a) none := by
  have hnew : (s.make parent name a).leafs a = ⟨name, parent, [], 0, none, s.made⟩ := Function.update_self _ _ _
  constructor
  case live =>
    intro b
    change b ∈ s.heap.live ++ [a] ↔ _
    rw [List.mem_append, List.mem_singleton, Option.mem_some, eq_comm]
    exact ⟨fun hb => ⟨hb, fun c hc => absurd hc (Option.not_mem_none c)⟩, And.left⟩
  case kept =>
    intro b hb
    exact congrArg SharedLeaf.identity (Function.update_of_ne (ne_of_mem_of_not_mem hb ha) _ _)
  case fresh =>
    rintro b hb
    obtain rfl := Option.mem_some.mp hb
    rw [hnew]
    exact ⟨ha, rfl, hparent⟩
  case root => rfl

lemma insertChild_root (s : LeafHeap) (p a : ℕ) : (s.insertChild p a).root = s.root := by
  rw [insertChild]
  dsimp only
  split_ifs <;> rfl

lemma insertChild_identity (s : LeafHeap) (p a b : ℕ) :
    ((s.insertChild p a).leafs b).identity = (s.leafs b).identity := by
  rw [insertChild]
  dsimp only
  split_ifs
  · rfl
  · apply setLeaf_frame SharedLeaf.identity
    rfl

lemma insertChild_live {p a : ℕ} (hfind : ¬ (s.findChild p (s.leafs a).name).isSome) :
    (s.insertChild p a).heap = s.heap := by
  rw [insertChild]
  dsimp only
  rw [if_neg (by exact hfind)]
  rfl

lemma Changes.parent_eq {new gone : Option ℕ} (hc : s.Changes t new gone) {a : ℕ} (ha : a ∈ s.heap.live) :
    (t.leafs a).parent = (s.leafs a).parent := congrArg (fun i => i.2.1) (hc.kept a ha)

lemma Changes.born_eq {new gone : Option ℕ} (hc : s.Changes t new gone) {a : ℕ} (ha : a ∈ s.heap.live) :
    (t.leafs a).born = (s.leafs a).born := congrArg (fun i => i.2.2) (hc.kept a ha)

namespace Owned

lemma insertChild_live_iff (h : s.Owned []) {p a : ℕ} (ha : a ∈ s.locals)
    (hfind : (s.findChild p (s.leafs a).name).isSome) (b : ℕ) :
    b ∈ (s.insertChild p a).heap.live ↔ b ∈ s.heap.live ∧ ¬ ((s.leafs a).nlookup = 0 ∧ s.Gone a b) := by
  have hlocals : (s.root :: s.locals).Perm (a :: s.root :: s.locals.erase a) :=
    ((List.perm_cons_erase ha).cons s.root).trans (List.Perm.swap _ _ _)
  have hheld : Owned { s with locals := s.locals.erase a } [a] := h.held hlocals List.erase_sublist
  have hgone : Gone { s with locals := s.locals.erase a } a b ↔ s.Gone a b := by
    apply gone_congr
    · exact fun _ _ => rfl
    · exact fun _ _ _ _ => rfl
  have hnodup := (hlocals.append_right _).nodup_iff.mp h.single
  have hnot := (List.nodup_cons.mp hnodup).1
  have hun : Unowned { s with locals := s.locals.erase a } a ↔ (s.leafs a).nlookup = 0 := by
    constructor
    · exact Unowned.forgotten
    · intro hzero
      constructor
      case forgotten => exact hzero
      case outside => exact fun hm => hnot (List.mem_append_left _ hm)
      case children => exact fun q hq hm => hnot (List.mem_append_right _ (List.mem_flatMap.mpr ⟨q, hq, hm⟩))
  rw [LeafHeap.insertChild]
  dsimp only
  rw [if_pos (by exact hfind), hheld.letGo_live_iff, hgone, hun]

lemma changes_addLeaf (h : s.Owned []) {p a : ℕ} (ha : a ∈ s.locals) :
    s.Changes (s.insertChild p a) none (s.letsGo (.addLeaf p a)) := by
  apply changes_of_letGo
  case hkept => exact fun b _ => s.insertChild_identity p a b
  case hroot => exact s.insertChild_root p a
  case hlive =>
    intro b
    rw [LeafHeap.letsGo]
    by_cases hfind : (s.findChild p (s.leafs a).name).isSome
    · rw [h.insertChild_live_iff ha hfind]
      apply and_congr_right
      intro _
      rw [not_and]
      split_ifs with hgo
      · exact ⟨fun hn c hc => Option.mem_some.mp hc ▸ hn hgo.2, fun hn _ => hn a rfl⟩
      · exact ⟨fun _ c hc => absurd hc (Option.not_mem_none c), fun _ hzero => absurd ⟨hfind, hzero⟩ hgo⟩
    · rw [insertChild_live hfind, if_neg fun hgo => hfind hgo.1]
      exact ⟨fun hb => ⟨hb, fun c hc => absurd hc (Option.not_mem_none c)⟩, And.left⟩

lemma changes_addChild (h : s.Owned []) {p a : ℕ} {name : String} (ha : a ∉ s.heap.live) (hp : p ∈ s.heap.live) :
    s.Changes (s.addChild p name a) (s.brings (.addChild p name a)) none := by
  have hmake : s.Changes (s.make (some p) name a) (some a) none :=
    changes_make ha fun q hq => Option.mem_some.mp hq ▸ hp
  have hnew : (s.make (some p) name a).leafs a = ⟨name, some p, [], 0, none, s.made⟩ := Function.update_self _ _ _
  have hold : (s.make (some p) name a).leafs p = s.leafs p := Function.update_of_ne (ne_of_mem_of_not_mem hp ha) _ _
  have hfind : (s.make (some p) name a).findChild p ((s.make (some p) name a).leafs a).name = s.findChild p name := by
    rw [hnew, LeafHeap.findChild, hold, LeafHeap.findChild]
  have hidentity := (s.make (some p) name a).insertChild_identity p a
  rw [LeafHeap.brings, LeafHeap.addChild]
  split_ifs with hknown
  · apply changes_of_live
    case hkept => exact fun b hb => (hidentity b).trans (hmake.kept b hb)
    case hroot => exact insertChild_root _ p a
    case hlive =>
      intro b
      rw [(h.make ha).insertChild_live_iff List.mem_cons_self (by rwa [hfind]), hmake.live]
      -- The new leaf has no children.
      have hgone : (s.make (some p) name a).Gone a b ↔ b = a := by
        constructor
        · intro hb
          induction hb with
          | self => rfl
          | child _ hm _ ih =>
            rw [ih, hnew] at hm
            exact absurd hm List.not_mem_nil
        · rintro rfl
          exact .self
      rw [hgone, hnew, Option.mem_some]
      constructor
      · rintro ⟨⟨hb, -⟩, hne⟩
        exact hb.resolve_right fun heq => hne ⟨rfl, heq.symm⟩
      · intro hb
        exact ⟨⟨Or.inl hb, fun c hc => absurd hc (Option.not_mem_none c)⟩, fun heq => ha (heq.2 ▸ hb)⟩
  · constructor
    case live =>
      rw [insertChild_live (by rwa [hfind])]
      exact hmake.live
    case kept => exact fun b hb => (hidentity b).trans (hmake.kept b hb)
    case fresh =>
      intro b hb
      obtain ⟨hb, hborn, hparent⟩ := hmake.fresh b hb
      have hsame := hidentity b
      rw [SharedLeaf.identity, SharedLeaf.identity, Prod.mk.injEq, Prod.mk.injEq] at hsame
      rw [hsame.2.1, hsame.2.2]
      exact ⟨hb, hborn, hparent⟩
    case root => exact insertChild_root _ p a

lemma changes_removeChild (h : s.Owned []) {p : ℕ} {name : String} (hp : p ∈ s.heap.live) :
    s.Changes (s.removeChild p name) none (s.letsGo (.removeChild p name)) := by
  rw [LeafHeap.letsGo]
  cases hfind : s.findChild p name with
  | none =>
    rw [LeafHeap.removeChild, hfind]
    exact changes_of_live (fun _ => Iff.rfl) (fun _ _ => rfl) rfl
  | some entry =>
    apply changes_of_letGo
    case hlive =>
      intro a
      rw [h.removeChild_live_iff hp hfind, Option.map_some]
      simp only [Option.mem_def, Option.filter_eq_some_iff, Option.some.injEq, decide_eq_true_eq]
      apply and_congr_right
      intro _
      constructor
      · rintro hn c ⟨rfl, hzero⟩ hgone
        exact hn ⟨hzero, hgone⟩
      · rintro hn ⟨hzero, hgone⟩
        exact hn entry.2 ⟨rfl, hzero⟩ hgone
    case hkept =>
      intro a _
      rw [LeafHeap.removeChild, hfind]
      apply setLeaf_frame SharedLeaf.identity
      rfl
    case hroot =>
      rw [LeafHeap.removeChild, hfind]
      rfl

lemma changes_addRef (h : s.Owned []) {a : ℕ} (ha : a ∈ s.heap.live) : s.Changes (s.addRef a) none none := by
  rw [LeafHeap.addRef]
  split_ifs with hzero
  · have hpin := h.pin a ha
    rw [SharedLeaf.Pinned, hzero, if_neg (lt_irrefl 0)] at hpin
    rw [hpin, LeafHeap.letGo, Option.toList_none, Heap.release_nil]
    apply changes_of_live
    case hlive => exact fun _ => Iff.rfl
    case hkept =>
      intro b _
      apply apply_update_eq SharedLeaf.identity
      rfl
    case hroot => rfl
  · exact changes_setLeaf rfl

lemma unpin_live_iff (h : s.Owned []) {a : ℕ} (ha : a ∈ s.heap.live) (b : ℕ) :
    b ∈ ((s.setLeaf a ((s.leafs a).unpin (s.leafs a).nlookup)).letGo (s.leafs a).selfPin.toList).heap.live ↔
      b ∈ s.heap.live ∧
        ¬ ((a ∉ s.root :: s.locals ∧ ∀ p ∈ s.heap.live, a ∉ (s.leafs p).childPointers) ∧ s.Gone a b) := by
  have howned := h.unpin ha
  have hpin := h.pin a ha
  rw [SharedLeaf.Pinned] at hpin
  split_ifs at hpin with hpos
  · rw [hpin] at howned ⊢
    have hchild (q : ℕ) : ((s.setLeaf a ((s.leafs a).unpin (s.leafs a).nlookup)).leafs q).childPointers =
        (s.leafs q).childPointers := by
      apply setLeaf_frame SharedLeaf.childPointers
      rfl
    have hgone : (s.setLeaf a ((s.leafs a).unpin (s.leafs a).nlookup)).Gone a b ↔ s.Gone a b := by
      apply gone_congr fun q _ => hchild q
      intro q hq c hc
      have hca : c ≠ a := by
        rintro rfl
        exact absurd (h.born q (h.below_live ha hq) c hc) (h.born_le ha hq).not_gt
      rw [setLeaf_of_ne hca]
    have hun : (s.setLeaf a ((s.leafs a).unpin (s.leafs a).nlookup)).Unowned a ↔
        a ∉ s.root :: s.locals ∧ ∀ p ∈ s.heap.live, a ∉ (s.leafs p).childPointers := by
      constructor
      · intro hun
        exact ⟨hun.outside, fun p hp => hchild p ▸ hun.children p hp⟩
      · rintro ⟨hout, hnot⟩
        constructor
        case forgotten => rw [setLeaf_self, SharedLeaf.unpin, Nat.sub_self]
        case outside => exact hout
        case children =>
          intro p hp
          rw [hchild p]
          exact hnot p hp
    rw [Option.toList_some, howned.letGo_live_iff, hgone, hun]
    rfl
  · rw [hpin, LeafHeap.letGo, Option.toList_none, Heap.release_nil]
    refine ⟨fun hb => ⟨hb, ?_⟩, And.left⟩
    rintro ⟨⟨hout, hnot⟩, -⟩
    rcases (h.live_iff a).mp ha with hm | hlookup | ⟨p, hp, hm⟩ | hheld
    · exact absurd hm List.not_mem_nil
    · exact hpos hlookup
    · exact hnot p hp hm
    · exact hout hheld

lemma changes_releaseRef (h : s.Owned []) {a n : ℕ} (ha : a ∈ s.heap.live) :
    s.Changes (s.releaseRef a n) none (s.letsGo (.releaseRef a n)) := by
  rw [LeafHeap.releaseRef, LeafHeap.letsGo]
  by_cases hlast : (s.leafs a).nlookup = n
  · subst hlast
    rw [if_pos rfl]
    apply changes_of_letGo
    case hkept =>
      intro b _
      apply setLeaf_frame SharedLeaf.identity
      rfl
    case hroot => rfl
    case hlive =>
      intro b
      rw [h.unpin_live_iff ha]
      apply and_congr_right
      intro _
      rw [not_and]
      split_ifs with hgo
      · exact ⟨fun hn c hc => Option.mem_some.mp hc ▸ hn hgo.2, fun hn _ => hn a rfl⟩
      · exact ⟨fun _ c hc => absurd hc (Option.not_mem_none c), fun _ hun => absurd ⟨rfl, hun⟩ hgo⟩
  · rw [if_neg hlast, if_neg fun hgo => hlast hgo.1]
    exact changes_setLeaf rfl

lemma changes (h : s.Owned []) {call : LifetimeCall} (hs : s.step call = some t) :
    s.Changes t (s.brings call) (s.letsGo call) := by
  cases call with
  | make parent name a =>
    obtain ⟨⟨ha, hparent⟩, ht⟩ := Option.ite_none_right_eq_some.mp hs
    exact Option.some.inj ht ▸ changes_make ha hparent
  | addChild p name a =>
    obtain ⟨⟨ha, hp⟩, ht⟩ := Option.ite_none_right_eq_some.mp hs
    exact Option.some.inj ht ▸ h.changes_addChild ha hp
  | addLeaf p a =>
    obtain ⟨⟨-, ha, -, -⟩, ht⟩ := Option.ite_none_right_eq_some.mp hs
    exact Option.some.inj ht ▸ h.changes_addLeaf ha
  | removeChild p name =>
    obtain ⟨hp, ht⟩ := Option.ite_none_right_eq_some.mp hs
    exact Option.some.inj ht ▸ h.changes_removeChild hp
  | addRef a =>
    obtain ⟨ha, ht⟩ := Option.ite_none_right_eq_some.mp hs
    exact Option.some.inj ht ▸ h.changes_addRef ha
  | releaseRef a nlookup =>
    obtain ⟨⟨ha, -⟩, ht⟩ := Option.ite_none_right_eq_some.mp hs
    exact Option.some.inj ht ▸ h.changes_releaseRef ha

end Owned

/-- While no parent pointer is left over, parents are older than their children. -/
structure Rooted (s : LeafHeap) : Prop where
  owned : s.Owned []
  parents : s.ParentsLive
  older : ∀ a ∈ s.heap.live, ∀ q, (s.leafs a).parent = some q → (s.leafs q).born < (s.leafs a).born
  root : (s.leafs s.root).parent = none

lemma rooted_create (root : ℕ) (name : String) : (create root name).Rooted where
  owned := owned_create root name
  parents _ _ _ hq := absurd hq (Option.some_ne_none _).symm
  older _ _ _ hq := absurd hq (Option.some_ne_none _).symm
  root := rfl

namespace Rooted

variable {call : LifetimeCall}

lemma stays (h : s.Rooted) {c a q : ℕ} (ha : a ∈ s.heap.live) (hq : (s.leafs a).parent = some q) (hgone : s.Gone c q)
    (hstays : ¬ s.Gone c a) : 0 < (s.leafs a).nlookup ∨ a ∈ s.locals := by
  rcases (h.owned.live_iff a).mp ha with hm | hpos | ⟨p, hp, hm⟩ | hm
  · exact absurd hm List.not_mem_nil
  · exact Or.inl hpos
  · by_contra hn
    have hpq : p = q := Option.some.inj ((h.owned.parents p hp a hm).symm.trans hq)
    exact hstays (.child hgone (hpq ▸ hm) (Nat.eq_zero_of_not_pos fun hpos => hn (Or.inl hpos)))
  · rcases List.mem_cons.mp hm with heq | hm
    · rw [heq, h.root] at hq
      exact absurd hq (Option.some_ne_none q).symm
    · exact Or.inr hm

lemma not_gone (h : s.Rooted) {c a q : ℕ} (hc : c ∈ s.heap.live) (ha : a ∈ s.heap.live)
    (hheld : 0 < (s.leafs a).nlookup ∨ a ∈ s.locals) (hq : (s.leafs a).parent = some q) (hgone : s.Gone c q) :
    ¬ s.Gone c a := by
  intro hg
  cases hg with
  | self => exact absurd (h.older c ha q hq) (h.owned.born_le hc hgone.isBelow).not_gt
  | child hp hm hzero =>
    rcases hheld with hpos | hlocal
    · exact hpos.ne' hzero
    · exact h.owned.not_held (h.owned.below_live hc hp.isBelow) hm (List.mem_cons_of_mem _ hlocal)

lemma letsGo_live (h : s.Rooted) (hs : s.step call = some t) {c : ℕ} (hc : c ∈ s.letsGo call) : c ∈ s.heap.live := by
  cases call with
  | make _ _ _ | addChild _ _ _ | addRef _ => exact absurd hc (Option.not_mem_none c)
  | addLeaf p a =>
    obtain ⟨⟨-, ha, -, -⟩, -⟩ := Option.ite_none_right_eq_some.mp hs
    obtain ⟨-, heq⟩ := Option.ite_none_right_eq_some.mp hc
    rw [← Option.some.inj heq]
    exact (h.owned.live_iff a).mpr (Or.inr (Or.inr (Or.inr (List.mem_cons_of_mem _ ha))))
  | removeChild p name =>
    obtain ⟨hp, -⟩ := Option.ite_none_right_eq_some.mp hs
    obtain ⟨entry, hfind, rfl⟩ := Option.map_eq_some_iff.mp (Option.filter_eq_some_iff.mp hc).1
    have hm := (h.owned.eraseChild hp hfind).1.mem_iff.mpr List.mem_cons_self
    exact (h.owned.live_iff _).mpr (Or.inr (Or.inr (Or.inl ⟨p, hp, hm⟩)))
  | releaseRef a nlookup =>
    obtain ⟨⟨ha, -⟩, -⟩ := Option.ite_none_right_eq_some.mp hs
    obtain ⟨-, heq⟩ := Option.ite_none_right_eq_some.mp hc
    exact Option.some.inj heq ▸ ha

lemma letsGo_of_brings {a : ℕ} (h : a ∈ s.brings call) : s.letsGo call = none := by
  cases call with
  | make _ _ _ | addChild _ _ _ => rfl
  | addLeaf _ _ | removeChild _ _ | addRef _ | releaseRef _ _ => exact absurd h (Option.not_mem_none a)

lemma parentsLive_iff (h : s.Rooted) (hs : s.step call = some t) : t.ParentsLive ↔ s.Spares call := by
  have hc := h.owned.changes hs
  constructor
  · intro ht c hgo a ha hheld q hq hgone
    have hstays : a ∈ t.heap.live := by
      apply (hc.live a).mpr
      refine ⟨Or.inl ha, fun c' hgo' => ?_⟩
      rw [Option.mem_unique hgo' hgo]
      exact h.not_gone (h.letsGo_live hs hgo) ha hheld hq hgone
    have hqlive := ht a hstays q ((hc.parent_eq ha).trans hq)
    exact ((hc.live q).mp hqlive).2 c hgo hgone
  · intro hok a ha q hq
    obtain ⟨ha, hstays⟩ := (hc.live a).mp ha
    apply (hc.live q).mpr
    rcases ha with ha | hnew
    · rw [hc.parent_eq ha] at hq
      refine ⟨Or.inl (h.parents a ha q hq), fun c hgo hgone => ?_⟩
      exact hok c hgo a ha (h.stays ha hq hgone (hstays c hgo)) q hq hgone
    · refine ⟨Or.inl ((hc.fresh a hnew).2.2 q hq), fun c hgo => ?_⟩
      rw [letsGo_of_brings hnew] at hgo
      exact absurd hgo (Option.not_mem_none c)

lemma step (h : s.Rooted) (hok : s.Spares call) (hs : s.step call = some t) : t.Rooted := by
  have hc := h.owned.changes hs
  constructor
  case owned => exact h.owned.step hs
  case parents => exact (h.parentsLive_iff hs).mpr hok
  case older =>
    intro a ha q hq
    rcases ((hc.live a).mp ha).1 with ha | hnew
    · rw [hc.parent_eq ha] at hq
      rw [hc.born_eq ha, hc.born_eq (h.parents a ha q hq)]
      exact h.older a ha q hq
    · obtain ⟨-, hborn, hparent⟩ := hc.fresh a hnew
      rw [hborn, hc.born_eq (hparent q hq)]
      exact h.owned.made q (hparent q hq)
  case root =>
    have hroot : s.root ∈ s.heap.live := (h.owned.live_iff _).mpr (Or.inr (Or.inr (Or.inr List.mem_cons_self)))
    rw [hc.root, hc.parent_eq hroot]
    exact h.root

lemma fullPathLoop_isSome (h : s.Rooted) {fuel : ℕ} {q : Option ℕ} {path : List String}
    (hq : ∀ p ∈ q, p ∈ s.heap.live ∧ (s.leafs p).born < fuel) : (s.fullPathLoop fuel q path).isSome := by
  induction fuel generalizing q path with
  | zero =>
    cases q with
    | none => rfl
    | some p => exact absurd (hq p rfl).2 (Nat.not_lt_zero _)
  | succ fuel ih =>
    cases q with
    | none => rfl
    | some p =>
      obtain ⟨hp, hborn⟩ := hq p rfl
      rw [fullPathLoop, if_pos hp]
      apply ih
      intro r hr
      exact ⟨h.parents p hp r hr, (h.older p hp r hr).trans_le (Nat.le_of_lt_succ hborn)⟩

lemma getFullPath_isSome (h : s.Rooted) {a : ℕ} (ha : a ∈ s.heap.live) : (s.getFullPath a).isSome := by
  apply h.fullPathLoop_isSome
  intro q hq
  exact ⟨h.parents a ha q hq, h.owned.made q (h.parents a ha q hq)⟩

end Rooted

lemma parentsLive_of_getFullPath (h : ∀ a ∈ s.heap.live, ∃ path, s.getFullPath a = some path) : s.ParentsLive := by
  intro a ha q hq
  obtain ⟨path, hpath⟩ := h a ha
  rw [getFullPath, hq] at hpath
  cases hmade : s.made with
  | zero =>
    rw [hmade, fullPathLoop] at hpath
    exact absurd hpath (Option.some_ne_none path).symm
  | succ fuel =>
    rw [hmade, fullPathLoop] at hpath
    exact (Option.ite_none_right_eq_some.mp hpath).1

theorem parent_pointers_live {root : ℕ} {name : String} {calls : List LifetimeCall}
    (h : Path step Spares (create root name) calls s) :
    s.ParentsLive ∧ (∀ a ∈ s.heap.live, ∃ path, s.getFullPath a = some path) ∧
      ∀ call t, s.step call = some t → (t.ParentsLive ↔ s.Spares call) ∧
        ((∀ a ∈ t.heap.live, ∃ path, t.getFullPath a = some path) ↔ s.Spares call) := by
  have hr : s.Rooted := h.invariant (fun _ _ _ h hok hs => h.step hok hs) (rooted_create root name)
  have hpaths {u : LeafHeap} (hu : u.Rooted) : ∀ a ∈ u.heap.live, ∃ path, u.getFullPath a = some path :=
    fun a ha => Option.isSome_iff_exists.mp (hu.getFullPath_isSome ha)
  refine ⟨hr.parents, hpaths hr, fun call t hs => ⟨hr.parentsLive_iff hs, ?_⟩⟩
  constructor
  · intro ht
    exact (hr.parentsLive_iff hs).mp (parentsLive_of_getFullPath ht)
  · intro hok
    exact hpaths (hr.step hok hs)

lemma spares_of_none {call : LifetimeCall} (h : s.letsGo call = none) : s.Spares call := by
  intro c hc
  rw [h] at hc
  exact absurd hc (Option.not_mem_none c)

theorem parent_pointers_live_removed :
    ∃ s, Path step Spares (create 0 "") [.addChild 0 "d" 1, .addChild 1 "f" 2, .addRef 1, .removeChild 0 "d"] s ∧
      2 ∈ s.heap.live ∧ s.ParentsLive ∧ ∃ path, s.getFullPath 2 = some path := by
  let s := ((((create 0 "").addChild 0 "d" 1).addChild 1 "f" 2).addRef 1).removeChild 0 "d"
  have hpath : Path step Spares (create 0 "") [.addChild 0 "d" 1, .addChild 1 "f" 2, .addRef 1, .removeChild 0 "d"] s :=
    .cons (spares_of_none rfl) rfl (.cons (spares_of_none rfl) rfl (.cons (spares_of_none rfl) rfl
      (.cons (spares_of_none rfl) rfl (.nil _))))
  have hlive : 2 ∈ s.heap.live := by decide +kernel
  obtain ⟨hparents, hpaths, -⟩ := parent_pointers_live hpath
  exact ⟨s, hpath, hlive, hparents, hpaths 2 hlive⟩

theorem removed_directory_leaves_parent_pointer :
    ¬ ∀ (root : ℕ) (name : String) (calls : List LifetimeCall) (s : LeafHeap), run step (create root name) calls = some s →
      s.ParentsLive := by
  intro h
  have hparents := h 0 "" [.addChild 0 "d" 1, .addChild 1 "f" 2, .addRef 2, .removeChild 0 "d"] _ rfl
  have hlive : 2 ∈ (((((create 0 "").addChild 0 "d" 1).addChild 1 "f" 2).addRef 2).removeChild 0 "d").heap.live := by
    decide +kernel
  exact absurd (hparents 2 hlive 1 rfl) (by decide +kernel)

end LeafHeap

end FastTransport.FileSystem
