import FastTransport.FileSystem.RemoteLeaves

/-! The lookup counts of the server against what the client's kernel holds and what is under way. -/

namespace FastTransport.FileSystem

open Lib.Runs

namespace Leaves

structure Keeps (ls ls' : Leaves) : Prop where
  nlookup : ∀ a, (ls' a).nlookup = (ls a).nlookup
  selfPin : ∀ a, (ls' a).selfPin = (ls a).selfPin

def Rooted (ls : Leaves) : Prop := ∀ p, ∀ e ∈ (ls p).children, 1 < e.2

lemma Keeps.refl (ls : Leaves) : ls.Keeps ls := ⟨fun _ => rfl, fun _ => rfl⟩

lemma Keeps.trans {ls ls' ls'' : Leaves} (h : ls.Keeps ls') (h' : ls'.Keeps ls'') : ls.Keeps ls'' :=
  ⟨fun a => (h'.nlookup a).trans (h.nlookup a), fun a => (h'.selfPin a).trans (h.selfPin a)⟩

lemma keeps_update {ls : Leaves} {a : ℕ} {l : CountedLeaf} (hn : l.nlookup = (ls a).nlookup)
    (hp : l.selfPin = (ls a).selfPin) : ls.Keeps (Function.update ls a l) := by
  constructor <;> intro b <;> by_cases hb : b = a
  · rw [hb, Function.update_self, hn]
  · rw [Function.update_of_ne hb]
  · rw [hb, Function.update_self, hp]
  · rw [Function.update_of_ne hb]

lemma Rooted.update {ls : Leaves} (h : ls.Rooted) {a : ℕ} {l : CountedLeaf} (hl : ∀ e ∈ l.children, 1 < e.2) :
    Rooted (Function.update ls a l) := by
  intro p e he
  by_cases hp : p = a
  · rw [hp, Function.update_self] at he
    exact hl e he
  · rw [Function.update_of_ne hp] at he
    exact h p e he

lemma Rooted.find {ls : Leaves} (h : ls.Rooted) {parent a : ℕ} {name : String} (hf : ls.find parent name = some a) :
    1 < a := by
  obtain ⟨l₁, l₂, he, -⟩ := List.lookup_eq_some_iff.mp hf
  exact h parent (name, a) (by rw [he]; simp)

lemma keeps_setServerInode (ls : Leaves) (a i : ℕ) : ls.Keeps (ls.setServerInode a i) := keeps_update rfl rfl

lemma Rooted.setServerInode {ls : Leaves} (h : ls.Rooted) (a i : ℕ) : (ls.setServerInode a i).Rooted :=
  h.update (h a)

lemma Rooted.addRef {ls : Leaves} (h : ls.Rooted) (a : ℕ) : (ls.addRef a).Rooted := h.update (h a)

lemma Rooted.releaseRef {ls : Leaves} (h : ls.Rooted) (a n : ℕ) : (ls.releaseRef a n).Rooted := h.update (h a)

lemma Rooted.removeChild {ls : Leaves} (h : ls.Rooted) (parent : ℕ) (name : String) :
    (ls.removeChild parent name).Rooted :=
  h.update fun e he => h parent e (List.mem_of_mem_filter he)

lemma Rooted.insertChild {ls : Leaves} (h : ls.Rooted) (parent : ℕ) (name : String) {a : ℕ} (ha : 1 < a) :
    (ls.insertChild parent name a).Rooted := by
  refine h.update fun e he => ?_
  rcases (List.mem_orderedInsert _).mp he with rfl | he
  · exact ha
  · exact h parent e he

lemma insertChild_serverInode (ls : Leaves) (parent : ℕ) (name : String) (a b : ℕ) :
    (ls.insertChild parent name a b).serverInode = (ls b).serverInode := by
  by_cases hb : b = parent
  · rw [insertChild, hb, Function.update_self]
  · rw [insertChild, Function.update_of_ne hb]

structure Added (ls : Leaves) (parent : ℕ) (name : String) (x : Leaves × ℕ) : Prop where
  keeps : ls.Keeps x.1
  rooted : x.1.Rooted
  one_lt : 1 < x.2
  serverInode : ∀ a, a ≠ x.2 → (x.1 a).serverInode = (ls a).serverInode
  origin : ls.find parent name = some x.2 ∨ ls.find parent name = none ∧ ls.Free x.2

lemma addChild_spec {ls : Leaves} {parent address : ℕ} {name : String} {deleted : Bool} {x : Leaves × ℕ}
    (hr : ls.Rooted) (h : ls.addChild parent name address deleted = some x) : ls.Added parent name x := by
  rw [addChild] at h
  split at h
  · next a hf =>
    cases h
    exact ⟨.refl ls, hr, hr.find hf, fun _ _ => rfl, Or.inl hf⟩
  · next hf =>
    split_ifs at h with hfree
    cases h
    obtain ⟨⟨hlt, hn, hp⟩, -⟩ := hfree
    have hnew : ls.Keeps (Function.update ls address (.create deleted)) := keeps_update hn.symm hp.symm
    have hrnew : Rooted (Function.update ls address (.create deleted)) :=
      hr.update fun e he => absurd he List.not_mem_nil
    refine ⟨hnew.trans (keeps_update rfl rfl), hrnew.insertChild parent name hlt, hlt, fun a ha => ?_,
      Or.inr ⟨hf, hlt, hn, hp⟩⟩
    rw [insertChild_serverInode, Function.update_of_ne ha]

lemma addChild_address {ls : Leaves} {parent address : ℕ} {name : String} {deleted : Bool} {x : Leaves × ℕ}
    (hf : ls.find parent name = none) (h : ls.addChild parent name address deleted = some x) : x.2 = address := by
  rw [addChild, hf] at h
  obtain ⟨-, h⟩ := Option.ite_none_right_eq_some.mp h
  cases h
  rfl

lemma rescan_spec {parent : ℕ} {entries : List (String × ℕ)} {ls ls' : Leaves} (hr : ls.Rooted)
    (h : ls.rescan parent entries = some ls') : ls.Keeps ls' ∧ ls'.Rooted := by
  induction entries generalizing ls with
  | nil =>
    cases h
    exact ⟨.refl _, hr⟩
  | cons e entries ih =>
    rw [rescan, List.foldlM_cons] at h
    obtain ⟨ls₁, h₁, h⟩ := Option.bind_eq_some_iff.mp h
    obtain ⟨x, hx, rfl⟩ := Option.map_eq_some_iff.mp h₁
    have hadd := addChild_spec hr hx
    obtain ⟨hk, hr'⟩ := ih hadd.rooted h
    exact ⟨hadd.keeps.trans hk, hr'⟩

lemma addRef_nlookup (ls : Leaves) (a b : ℕ) :
    (ls.addRef a b).nlookup = (ls b).nlookup + if a = b then 1 else 0 := by
  by_cases hb : a = b
  · rw [addRef, hb, Function.update_self, if_pos rfl]
    rfl
  · rw [addRef, Function.update_of_ne (Ne.symm hb), if_neg hb, add_zero]

lemma releaseRef_nlookup (ls : Leaves) (a n b : ℕ) :
    (ls.releaseRef a n b).nlookup = (ls b).nlookup - if a = b then (n : ℤ) else 0 := by
  by_cases hb : a = b
  · rw [releaseRef, hb, Function.update_self, if_pos rfl]
    rfl
  · rw [releaseRef, Function.update_of_ne (Ne.symm hb), if_neg hb, sub_zero]

lemma addRef_serverInode (ls : Leaves) (a b : ℕ) : (ls.addRef a b).serverInode = (ls b).serverInode := by
  by_cases hb : b = a
  · rw [addRef, hb, Function.update_self]
    rfl
  · rw [addRef, Function.update_of_ne hb]

lemma releaseRef_serverInode (ls : Leaves) (a n b : ℕ) :
    (ls.releaseRef a n b).serverInode = (ls b).serverInode := by
  by_cases hb : b = a
  · rw [releaseRef, hb, Function.update_self]
    rfl
  · rw [releaseRef, Function.update_of_ne hb]

def Pinned (ls : Leaves) : Prop := ∀ a, (ls a).selfPin = true ↔ (ls a).nlookup ≠ 0

lemma Pinned.of_keeps {ls ls' : Leaves} (h : ls.Pinned) (hk : ls.Keeps ls') : ls'.Pinned := by
  intro a
  rw [hk.selfPin, hk.nlookup]
  exact h a

lemma Pinned.addRef {ls : Leaves} (h : ls.Pinned) {a : ℕ} (ha : 0 ≤ (ls a).nlookup) : (ls.addRef a).Pinned := by
  intro b
  by_cases hb : b = a
  · subst hb
    have hpin := h b
    rw [Leaves.addRef, Function.update_self]
    simp only [CountedLeaf.addRef, Bool.or_eq_true, decide_eq_true_eq]
    exact iff_of_true (by tauto) (by omega)
  · rw [Leaves.addRef, Function.update_of_ne hb]
    exact h b

lemma Pinned.releaseRef {ls : Leaves} (h : ls.Pinned) {a n : ℕ} (ha : (n : ℤ) ≤ (ls a).nlookup) :
    (ls.releaseRef a n).Pinned := by
  intro b
  by_cases hb : b = a
  · subst hb
    have hpin := h b
    rw [Leaves.releaseRef, Function.update_self]
    simp only [CountedLeaf.releaseRef, Bool.and_eq_true, decide_eq_true_eq, hpin]
    omega
  · rw [Leaves.releaseRef, Function.update_of_ne hb]
    exact h b

end Leaves

def forgotten (t : ℕ) (forgets : List (ℕ × ℕ)) : ℕ := (forgets.map fun f => if f.1 = t then f.2 else 0).sum

@[simp] lemma forgotten_nil (t : ℕ) : forgotten t [] = 0 := rfl

@[simp] lemma forgotten_cons (t : ℕ) (f : ℕ × ℕ) (forgets : List (ℕ × ℕ)) :
    forgotten t (f :: forgets) = (if f.1 = t then f.2 else 0) + forgotten t forgets := by
  rw [forgotten, List.map_cons, List.sum_cons]
  rfl

@[simp] lemma forgotten_append (t : ℕ) (forgets forgets' : List (ℕ × ℕ)) :
    forgotten t (forgets ++ forgets') = forgotten t forgets + forgotten t forgets' := by
  rw [forgotten, List.map_append, List.sum_append]
  rfl

lemma le_forgotten {a n : ℕ} {forgets : List (ℕ × ℕ)} (h : (a, n) ∈ forgets) : n ≤ forgotten a forgets := by
  obtain ⟨xs, ys, rfl⟩ := List.append_of_mem h
  rw [forgotten_append, forgotten_cons, if_pos rfl]
  omega

lemma foldl_releaseRef {forgets : List (ℕ × ℕ)} {ls : Leaves} (hp : ls.Pinned) (hr : ls.Rooted)
    (hle : ∀ t, (forgotten t forgets : ℤ) ≤ (ls t).nlookup) :
    (∀ t, (forgets.foldl (fun ls f => ls.releaseRef f.1 f.2) ls t).nlookup =
        (ls t).nlookup - forgotten t forgets) ∧
      Leaves.Pinned (forgets.foldl (fun ls f => ls.releaseRef f.1 f.2) ls) ∧
      Leaves.Rooted (forgets.foldl (fun ls f => ls.releaseRef f.1 f.2) ls) := by
  induction forgets generalizing ls with
  | nil => exact ⟨fun t => (sub_zero _).symm, hp, hr⟩
  | cons f forgets ih =>
    have hstep (t : ℕ) := Leaves.releaseRef_nlookup ls f.1 f.2 t
    have hf : (f.2 : ℤ) ≤ (ls f.1).nlookup := by
      have := hle f.1
      rw [forgotten_cons, if_pos rfl] at this
      omega
    obtain ⟨hn, hp', hr'⟩ := ih (hp.releaseRef hf) (hr.releaseRef f.1 f.2) fun t => by
      have := hle t
      rw [forgotten_cons] at this
      rw [hstep t]
      split_ifs at this ⊢ <;> omega
    refine ⟨fun t => ?_, hp', hr'⟩
    rw [List.foldl_cons, hn t, hstep t, forgotten_cons]
    split_ifs <;> push_cast <;> omega

lemma foldl_addRef {as : List ℕ} {ls : Leaves} (hp : ls.Pinned) (hr : ls.Rooted)
    (hle : ∀ t, 0 ≤ (ls t).nlookup) :
    (∀ t, (as.foldl Leaves.addRef ls t).nlookup = (ls t).nlookup + as.count t) ∧
      (as.foldl Leaves.addRef ls).Pinned ∧ (as.foldl Leaves.addRef ls).Rooted := by
  induction as generalizing ls with
  | nil => exact ⟨fun t => by simp, hp, hr⟩
  | cons a as ih =>
    have hstep (t : ℕ) := Leaves.addRef_nlookup ls a t
    obtain ⟨hn, hp', hr'⟩ := ih (hp.addRef (hle a)) (hr.addRef a) fun t => by
      have := hle t
      rw [hstep t]
      split_ifs <;> omega
    refine ⟨fun t => ?_, hp', hr'⟩
    rw [List.foldl_cons, hn t, hstep t, List.count_cons]
    simp only [beq_iff_eq]
    split_ifs <;> push_cast <;> omega

namespace Remote

lemma dropRefs_map {refs refs' : Multiset ℕ} {forgets : List (ℕ × ℕ)} (h : dropRefs refs forgets = some refs')
    (f : ℕ → ℕ) (t : ℕ) :
    (refs'.map f).count t + forgotten t (forgets.map fun x => (f x.1, x.2)) = (refs.map f).count t := by
  induction forgets generalizing refs with
  | nil =>
    cases h
    rfl
  | cons x forgets ih =>
    obtain ⟨a, n⟩ := x
    obtain ⟨⟨-, hle⟩, h⟩ := Option.ite_none_right_eq_some.mp h
    have hsplit : refs - .replicate n a + .replicate n a = refs :=
      tsub_add_cancel_of_le (Multiset.le_count_iff_replicate_le.mp hle)
    have hcount : (refs.map f).count t = ((refs - .replicate n a).map f).count t + if f a = t then n else 0 := by
      conv_lhs => rw [← hsplit]
      rw [Multiset.map_add, Multiset.count_add, Multiset.map_replicate, Multiset.count_replicate]
    rw [hcount, ← ih h, List.map_cons, forgotten_cons]
    dsimp only
    omega

lemma dropRefs_pos {refs refs' : Multiset ℕ} {forgets : List (ℕ × ℕ)} (h : dropRefs refs forgets = some refs') :
    ∀ f ∈ forgets, 0 < f.2 := by
  induction forgets generalizing refs with
  | nil => exact fun f hf => absurd hf List.not_mem_nil
  | cons f forgets ih =>
    obtain ⟨⟨hpos, -⟩, h⟩ := Option.ite_none_right_eq_some.mp h
    intro g hg
    rcases List.mem_cons.mp hg with rfl | hg
    · exact hpos
    · exact ih h g hg

lemma dropRefs_spec {refs refs' : Multiset ℕ} {forgets : List (ℕ × ℕ)} (h : dropRefs refs forgets = some refs') :
    (∀ a, refs'.count a + forgotten a forgets = refs.count a) ∧ ∀ f ∈ forgets, 0 < f.2 := by
  refine ⟨fun a => ?_, dropRefs_pos h⟩
  have hmap := dropRefs_map h id a
  have hid : (forgets.map fun x => (id x.1, x.2)) = forgets := List.map_id _
  rwa [Multiset.map_id, Multiset.map_id, hid] at hmap

lemma addServerChild_keeps {ls : Leaves} (hr : ls.Rooted) {parent inode address : ℕ} {name : String}
    {x : Leaves × ℕ} (h : addServerChild ls parent name inode address = some x) :
    ls.Keeps x.1 ∧ x.1.Rooted := by
  obtain ⟨y, hy, rfl⟩ := Option.map_eq_some_iff.mp h
  have hadd := Leaves.addChild_spec hr hy
  exact ⟨hadd.keeps.trans (Leaves.keeps_setServerInode _ _ _), hadd.rooted.setServerInode _ _⟩

lemma resolveClientInode_keeps {ls : Leaves} (hr : ls.Rooted) {parent inode address : ℕ} {name : String}
    {x : Leaves × ℕ} (h : resolveClientInode ls parent name inode address = some x) :
    ls.Keeps x.1 ∧ x.1.Rooted := by
  rw [resolveClientInode] at h
  split at h
  · cases h
    exact ⟨.refl _, hr⟩
  · exact addServerChild_keeps hr h

def dropsOfJob (f : ℕ → ℕ) (t : ℕ) : FuseJob → ℕ
  | .release _ a => if f a = t then 1 else 0
  | .forgetMulti forgets => forgotten t forgets
  | _ => 0

def dropsOfRequest (t : ℕ) : FuseRequest → ℕ
  | .release _ _ inode => if inode = t then 1 else 0
  | .forgetMulti forgets => forgotten t forgets
  | _ => 0

def gainsOfResponse (f : ℕ → ℕ) (t : ℕ) : FuseResponse → ℕ
  | .lookup _ _ _ (some inode) => if inode = t then 1 else 0
  | .openFile _ request true => if f request = t then 1 else 0
  | .readDirPlus _ entries => (entries.map Prod.snd).count t
  | _ => 0

def held (s : Remote) (f : ℕ → ℕ) (t : ℕ) : ℕ := (s.refs.map f).count t + (s.handles.map f).count t

def inFlight (s : Remote) (f : ℕ → ℕ) (t : ℕ) : ℕ :=
  forgotten t (s.untranslated.map fun x => (f x.1, x.2)) + (s.jobs.map (dropsOfJob f t)).sum +
    (s.requests.map (dropsOfRequest t)).sum + (s.responses.map (gainsOfResponse f t)).sum

structure Balanced (s : Remote) : Prop where
  nlookup : ∀ t, (s.server t).nlookup = s.held s.client.toServerInode t + s.inFlight s.client.toServerInode t
  selfPin : ∀ t, (s.server t).selfPin = true ↔
    0 < s.held s.client.toServerInode t + s.inFlight s.client.toServerInode t

def releasesOfJob (a : ℕ) : FuseJob → ℕ
  | .releaseLeafRef b n => if b = a then n else 0
  | _ => 0

def unreleased (s : Remote) : List (ℕ × ℕ) := s.forgetting.flatMap ForgetCall.unreleased

def clientOwed (s : Remote) (a : ℕ) : ℕ :=
  s.refs.count a + forgotten a s.unreleased + (s.jobs.map (releasesOfJob a)).sum

def Addressed (f : ℕ → ℕ) : FuseRequest → Prop
  | .openFile _ request inode => inode = f request
  | _ => True

def Given : FuseResponse → Prop
  | .lookup _ _ _ (some inode) => 1 < inode
  | .readDirPlus _ entries => ∀ e ∈ entries, 1 < e.2
  | _ => True

def Tracked (s : Remote) (a : ℕ) : Prop :=
  a ∈ s.refs ∨ a ∈ s.handles ∨ a ∈ s.untranslated.map Prod.fst ∨ a ∈ s.outstanding

/-- `g` is what a reply gives that is taken from the queue and not yet executed to its end. -/
structure Inv (s : Remote) (g : ℕ → ℕ) : Prop where
  balanced : ∀ t, (s.server t).nlookup =
    s.held s.client.toServerInode t + s.inFlight s.client.toServerInode t + g t
  client : ∀ a, (s.client a).nlookup = s.clientOwed a
  pinned : s.server.Pinned
  serverRooted : s.server.Rooted
  clientRooted : s.client.Rooted
  known : ∀ a, a ∈ s.handles ∨ a ∈ s.outstanding → s.Knows a
  addressed : ∀ r ∈ s.requests, Addressed s.client.toServerInode r
  given : ∀ r ∈ s.responses, Given r

lemma Inv.toBalanced {s : Remote} (h : s.Inv 0) : s.Balanced := by
  have hbalanced (t : ℕ) : (s.server t).nlookup =
      s.held s.client.toServerInode t + s.inFlight s.client.toServerInode t := by
    rw [h.balanced t, Pi.zero_apply, Nat.cast_zero, add_zero]
  refine ⟨hbalanced, fun t => ?_⟩
  rw [h.pinned t, hbalanced t]
  omega

lemma held_congr {s : Remote} {f g : ℕ → ℕ} (h : ∀ a, s.Tracked a → f a = g a) (t : ℕ) : s.held f t = s.held g t := by
  rw [held, held, Multiset.map_congr rfl fun a ha => h a (Or.inl ha),
    Multiset.map_congr rfl fun a ha => h a (Or.inr (Or.inl ha))]

lemma inFlight_congr {s : Remote} {f g : ℕ → ℕ} (h : ∀ a, s.Tracked a → f a = g a) (t : ℕ) :
    s.inFlight f t = s.inFlight g t := by
  have hforgets : (s.untranslated.map fun x => (f x.1, x.2)) = s.untranslated.map fun x => (g x.1, x.2) := by
    refine List.map_congr_left fun x hx => ?_
    rw [h x.1 (Or.inr (Or.inr (Or.inl (List.mem_map_of_mem hx))))]
  have hjobs : s.jobs.map (dropsOfJob f t) = s.jobs.map (dropsOfJob g t) := by
    refine List.map_congr_left fun job hjob => ?_
    cases job with
    | release dir a =>
      have ha : a ∈ s.jobs.filterMap FuseJob.request := List.mem_filterMap.mpr ⟨_, hjob, rfl⟩
      rw [dropsOfJob, dropsOfJob, h a (by simp [Tracked, outstanding, ha])]
    | _ => rfl
  have hresponses : s.responses.map (gainsOfResponse f t) = s.responses.map (gainsOfResponse g t) := by
    refine List.map_congr_left fun r hr => ?_
    cases r with
    | openFile dir a opened =>
      have ha : a ∈ s.responses.filterMap FuseResponse.request := List.mem_filterMap.mpr ⟨_, hr, rfl⟩
      cases opened with
      | false => rfl
      | true => rw [gainsOfResponse, gainsOfResponse, h a (by simp [Tracked, outstanding, ha])]
    | lookup request parentId name inode => cases inode <;> rfl
    | _ => rfl
  rw [inFlight, inFlight, hforgets, hjobs, hresponses]

end Remote

end FastTransport.FileSystem
