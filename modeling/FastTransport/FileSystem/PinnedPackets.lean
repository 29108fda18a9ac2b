import FastTransport.FileSystem.RangePins
import FastTransport.FileSystem.Ranges
import FastTransport.FileSystem.WholeBlocks

/-! A leaf and the views `GetData` has handed out: which packets the pins of a view keep in the cache while
data arrives and blocks are evicted. -/

namespace FastTransport.FileSystem

open Lib.Lists Lib.Runs

def BufferView.PointsInto (v : BufferView) (r : Range) : Prop := ∃ s ∈ v.spans, s.packet ∈ r.packets

instance (v : BufferView) (r : Range) : Decidable (v.PointsInto r) :=
  inferInstanceAs (Decidable (∃ s ∈ v.spans, s.packet ∈ r.packets))

def replacedRange (before after : List Range) (offset size : ℕ) : Option Range :=
  match before, after with
  | [], next :: _ =>
    if next.offset ≠ offset + size ∧ next.offset + next.size ≤ offset + size then some next else none
  | _, _ => none

def bridgedRanges (before after : List Range) (offset size : ℕ) : Option (Range × Range) :=
  match before.getLast?, after with
  | some prev, next :: _ =>
    if next.offset = offset + size ∧ prev.offset + prev.size = offset then some (prev, next) else none
  | _, _ => none

section

variable {before after : List Range} {id offset size : ℕ} {data : List CachedPacket}
  {result : List CachedPacket × List Range}

lemma AddBranch.origin (h : AddBranch before after id offset size data result) :
    ∀ r ∈ result.2, r.id = id ∧ r.counter = 1 ∨ ∃ r' ∈ before ++ after, r'.id = r.id ∧ r'.counter = r.counter := by
  have hbefore : ∀ r ∈ before, r.id = id ∧ r.counter = 1 ∨
      ∃ r' ∈ before ++ after, r'.id = r.id ∧ r'.counter = r.counter :=
    fun r hr => Or.inr ⟨r, List.mem_append_left _ hr, rfl, rfl⟩
  have hafter : ∀ r ∈ after, r.id = id ∧ r.counter = 1 ∨
      ∃ r' ∈ before ++ after, r'.id = r.id ∧ r'.counter = r.counter :=
    fun r hr => Or.inr ⟨r, List.mem_append_right _ hr, rfl, rfl⟩
  cases h with
  | bridge init prev next rest hb ha _ _ =>
    subst hb ha
    exact forall_mem_middle (fun r hr => hbefore r (List.mem_append_left _ hr))
      (hbefore prev (List.mem_append_right _ List.mem_cons_self)) fun r hr => hafter r (List.mem_cons_of_mem _ hr)
  | join next rest ha _ _ =>
    subst ha
    exact forall_mem_middle hbefore (hafter next List.mem_cons_self) fun r hr => hafter r (List.mem_cons_of_mem _ hr)
  | replace next rest hb ha _ _ _ =>
    subst hb ha
    exact forall_mem_middle (B := []) hbefore (Or.inl ⟨rfl, rfl⟩) fun r hr => hafter r (List.mem_cons_of_mem _ hr)
  | append init prev hb _ _ =>
    subst hb
    exact forall_mem_middle (fun r hr => hbefore r (List.mem_append_left _ hr))
      (hbefore prev (List.mem_append_right _ List.mem_cons_self)) hafter
  | overlap init prev payloadSize skipped hb _ _ _ _ _ =>
    subst hb
    exact forall_mem_middle (fun r hr => hbefore r (List.mem_append_left _ hr))
      (hbefore prev (List.mem_append_right _ List.mem_cons_self)) hafter
  | refuse => exact fun r hr => Or.inr ⟨r, hr, rfl, rfl⟩
  | insert => exact forall_mem_middle hbefore (Or.inl ⟨rfl, rfl⟩) hafter

/-- A packet of a pinned range stays in one, unless its range is replaced or goes into an unpinned range. -/
lemma AddBranch.pinned {p : CachedPacket}
    (hreplaced : ∀ r, replacedRange before after offset size = some r → p ∉ r.packets)
    (hbridged : ∀ q, bridgedRanges before after offset size = some q → p ∈ q.2.packets → q.1.isPinned = true)
    (h : AddBranch before after id offset size data result) :
    ∀ r ∈ before ++ after, r.isPinned = true → p ∈ r.packets → ∃ r' ∈ result.2, r'.isPinned = true ∧ p ∈ r'.packets := by
  have hstay {B A : List Range} {m : Range} : ∀ r ∈ B ++ A, r.isPinned = true → p ∈ r.packets →
      ∃ r' ∈ B ++ m :: A, r'.isPinned = true ∧ p ∈ r'.packets := by
    intro r hr hpin hp
    refine ⟨r, ?_, hpin, hp⟩
    rcases List.mem_append.mp hr with hr | hr
    · exact List.mem_append_left _ hr
    · exact List.mem_append_right _ (List.mem_cons_of_mem _ hr)
  have hgrow {B A : List Range} {m m' : Range} (hpin : m'.isPinned = m.isPinned) (hsub : m.packets ⊆ m'.packets) :
      ∀ r ∈ B ++ m :: A, r.isPinned = true → p ∈ r.packets →
        ∃ r' ∈ B ++ m' :: A, r'.isPinned = true ∧ p ∈ r'.packets :=
    forall_mem_middle (fun r hr => hstay r (List.mem_append_left _ hr))
      (fun hm hp => ⟨m', List.mem_append_right _ List.mem_cons_self, hpin.trans hm, hsub hp⟩)
      fun r hr => hstay r (List.mem_append_right _ hr)
  cases h with
  | bridge init prev next rest hb ha hadj hend =>
    subst hb ha
    let grown := { prev with packets := prev.packets ++ (data ++ next.packets)
                             size := prev.size + size + next.size }
    have hother : ∀ r ∈ init ++ prev :: rest, r.isPinned = true → p ∈ r.packets →
        ∃ r' ∈ init ++ grown :: rest, r'.isPinned = true ∧ p ∈ r'.packets :=
      hgrow rfl (List.subset_append_left _ _)
    refine forall_mem_middle (fun r hr => hother r ?_) (fun _ hp => ?_)
      fun r hr => hother r (List.mem_append_right _ (List.mem_cons_of_mem _ hr))
    · rw [List.append_cons]
      exact List.mem_append_left _ hr
    · have hpin : prev.isPinned = true := hbridged (prev, next) (by simp [bridgedRanges, hadj, hend]) hp
      exact ⟨_, List.mem_append_right _ List.mem_cons_self, hpin,
        List.mem_append_right _ (List.mem_append_right _ hp)⟩
  | join next rest ha _ _ =>
    subst ha
    exact hgrow rfl (List.subset_append_right _ _)
  | replace next rest hb ha hne _ hend =>
    subst hb ha
    refine forall_mem_middle (B := []) (fun r hr => absurd hr List.not_mem_nil) (fun _ hp => ?_)
      fun r hr => hstay (B := []) r hr
    exact absurd hp (hreplaced next (if_pos ⟨hne, hend⟩))
  | append init prev hb _ _ =>
    subst hb
    rw [List.append_assoc]
    exact hgrow rfl (List.subset_append_left _ _)
  | overlap init prev payloadSize skipped hb _ _ _ _ _ =>
    subst hb
    rw [List.append_assoc]
    exact hgrow rfl (List.subset_append_left _ _)
  | refuse => exact fun r hr hpin hp => ⟨r, hr, hpin, hp⟩
  | insert => exact hstay

lemma AddBranch.replaced (hlt : ∀ r ∈ after, offset < r.offset) (h : AddBranch before after id offset size data result)
    {r : Range} (hr : replacedRange before after offset size = some r) : result.1 = r.packets := by
  cases before with
  | cons b bs => cases hr
  | nil =>
    cases after with
    | nil => cases hr
    | cons next rest =>
      rw [replacedRange] at hr
      split_ifs at hr with hc
      cases hr
      cases h with
      | bridge init prev next rest hb _ _ _ => simp at hb
      | join next rest ha hadj _ =>
        cases ha
        exact absurd hadj hc.1
      | replace next rest _ ha _ _ _ =>
        cases ha
        rfl
      | append init prev hb _ _ => simp at hb
      | overlap init prev _ _ hb _ _ _ _ _ => simp at hb
      | refuse init prev hb _ _ _ _ => simp at hb
      | insert _ _ hnot =>
        have := hnot rfl r rfl (hlt r List.mem_cons_self).le
        omega

lemma AddBranch.bridged (h : AddBranch before after id offset size data result) {q : Range × Range}
    (hq : bridgedRanges before after offset size = some q) :
    ∃ r ∈ result.2, r.isPinned = q.1.isPinned ∧ q.2.packets ⊆ r.packets := by
  unfold bridgedRanges at hq
  split at hq
  case h_2 => cases hq
  case h_1 prev next rest hprev =>
    split_ifs at hq with hc
    cases hq
    have hnot (hadj : ∀ n, (next :: rest).head? = some n → n.offset ≠ offset + size) : False := hadj next rfl hc.1
    cases h with
    | bridge init prev' next' rest' hb ha _ _ =>
      rw [hb, List.getLast?_concat] at hprev
      cases hprev
      cases ha
      exact ⟨_, List.mem_append_right _ List.mem_cons_self, rfl,
        fun p hp => List.mem_append_right _ (List.mem_append_right _ hp)⟩
    | join next' rest' _ _ hne => exact absurd hc.2 (hne prev hprev)
    | replace next' rest' hb _ _ _ _ => simp [hb] at hprev
    | append init prev' _ _ hadj => exact (hnot hadj).elim
    | overlap init prev' _ _ _ _ _ _ _ hadj => exact (hnot hadj).elim
    | refuse init prev' _ _ _ _ hadj => exact (hnot hadj).elim
    | insert _ hadj _ => exact (hnot hadj).elim

end

namespace Leaf

variable {J : Type}

lemma eraseBlock_eq_self {leaf : Leaf J} {index : ℕ} (h : leaf.findBlock index = none) : leaf.eraseBlock index = leaf := by
  have hfilter : (leaf.data.filter fun e => e.1 ≠ index) = leaf.data := by
    refine List.filter_eq_self.mpr fun e he => ?_
    have hne := List.lookup_eq_none_iff.mp h e he
    exact decide_eq_true fun hk => by simp [hk] at hne
  rw [eraseBlock, hfilter]

lemma addData_eq_addRange (leaf : Leaf J) (id offset size : ℕ) (data : List CachedPacket) :
    (leaf.addData id offset size data).1 =
        (addRange ((leaf.findBlock (offset / blockSize)).getD []) id offset size data).1 ∧
      (leaf.addData id offset size data).2.data =
        (offset / blockSize, (addRange ((leaf.findBlock (offset / blockSize)).getD []) id offset size data).2) ::
          (leaf.eraseBlock (offset / blockSize)).data := by
  rw [addData]
  cases hf : leaf.findBlock (offset / blockSize) with
  | none =>
    rw [eraseBlock_eq_self hf]
    exact ⟨rfl, rfl⟩
  | some ranges => exact ⟨rfl, rfl⟩

lemma mem_of_getD {leaf : Leaf J} {index : ℕ} {r : Range} (h : r ∈ (leaf.findBlock index).getD []) :
    ∃ ranges, (index, ranges) ∈ leaf.data ∧ r ∈ ranges := by
  cases hf : leaf.findBlock index with
  | none =>
    rw [hf] at h
    exact absurd h List.not_mem_nil
  | some ranges =>
    rw [hf] at h
    exact ⟨ranges, mem_of_findBlock hf, h⟩

lemma Ordered.sorted_getD {leaf : Leaf J} (h : leaf.Ordered) (index : ℕ) : Sorted ((leaf.findBlock index).getD []) := by
  cases hf : leaf.findBlock index with
  | none => exact List.Pairwise.nil
  | some ranges => exact h.sorted _ (mem_of_findBlock hf)

lemma getData_held {leaf : Leaf J} {offset size : ℕ} {view : BufferView} (h : leaf.getData offset size = some view) :
    leaf.Held view := by
  refine getData_rule (P := leaf.Held) (fun s hs => absurd hs List.not_mem_nil)
    (fun view spans e he range hr hspans hv s hs => ?_) h
  rcases List.mem_append.mp hs with hs | hs
  · obtain ⟨e', he', r, hr', hid, hp⟩ := hv s hs
    exact ⟨e', he', r, hr', List.mem_append_left _ hid, hp⟩
  · exact ⟨e, he, range, hr, List.mem_append_right _ List.mem_cons_self, hspans s hs⟩

lemma range_eq_of_mem {leaf : Leaf J} (h : leaf.packets.Nodup) {e e' : ℕ × List Range} (he : e ∈ leaf.data)
    (he' : e' ∈ leaf.data) {r r' : Range} (hr : r ∈ e.2) (hr' : r' ∈ e'.2) {p : CachedPacket} (hp : p ∈ r.packets)
    (hp' : p ∈ r'.packets) : r = r' := by
  have hflat : leaf.packets = (leaf.data.flatMap Prod.snd).flatMap Range.packets := by
    rw [packets, List.flatMap_assoc]
  rw [hflat] at h
  exact eq_of_mem_flatMap h (List.mem_flatMap.mpr ⟨e, he, hr⟩) (List.mem_flatMap.mpr ⟨e', he', hr'⟩) hp hp'

end Leaf

structure PinnedLeaf (J : Type) where
  leaf : Leaf J
  views : List BufferView
  /-- The ranges that exceptions of `GetData` left pinned. -/
  leaked : List ℕ
  nextId : ℕ

inductive PinnedCall
  | getData (offset size : ℕ)
  | addData (offset size : ℕ) (data : List CachedPacket)
  | evict
  | release (i : ℕ)
  deriving DecidableEq, Repr

namespace PinnedLeaf

variable {J : Type}

def create (name : String) (parent size : ℕ) : PinnedLeaf J := ⟨.create name parent size, [], [], 0⟩

def livePins (s : PinnedLeaf J) : List ℕ := s.views.flatMap BufferView.pin ++ s.leaked

/-- The packets handed to `AddData` are not in the cache: their owner is the caller. -/
def step (s : PinnedLeaf J) : PinnedCall → Option (PinnedLeaf J)
  | .getData offset size =>
    match s.leaf.pinData offset size with
    | .error ids => some { s with leaf := s.leaf.pin ids, leaked := s.leaked ++ ids }
    | .ok view => some { s with leaf := s.leaf.pin view.pin, views := s.views ++ [view] }
  | .addData offset size data =>
    if (s.leaf.packets ++ data).Nodup then
      (s.leaf.tryAddData s.nextId offset size data).map fun r => { s with leaf := r.2, nextId := s.nextId + 1 }
    else none
  | .evict =>
    match s.leaf.getFirstBlockIndex with
    | none => some s
    | some index => some { s with leaf := (s.leaf.extractBlock index).2.2 }
  | .release i => (s.views[i]?).map fun view =>
    { s with leaf := s.leaf.unpin view.pin, views := s.views.eraseIdx i }

def returned (s : PinnedLeaf J) : PinnedCall → List CachedPacket
  | .addData offset size data => (s.leaf.addData s.nextId offset size data).1
  | .evict => (s.leaf.getFirstBlockIndex.map fun index => (s.leaf.extractBlock index).2.1).getD []
  | _ => []

def PointedInto (s : PinnedLeaf J) (r : Range) : Prop := ∃ v ∈ s.views, v.PointsInto r

/-- No packet a live view points into is given back or moved to an unpinned range by `AddData`, and no range
that holds one loses its last pin. -/
def Spares (s : PinnedLeaf J) : PinnedCall → Prop
  | .addData offset size _ =>
    let ranges := (s.leaf.findBlock (offset / blockSize)).getD []
    let before := ranges.takeWhile fun r => r.offset ≤ offset
    let after := ranges.dropWhile fun r => r.offset ≤ offset
    (∀ r, replacedRange before after offset size = some r → ¬ s.PointedInto r) ∧
      ∀ q, bridgedRanges before after offset size = some q → s.PointedInto q.2 → q.1.isPinned = true
  | .release i => ∀ v ∈ s.views.eraseIdx i, ∀ e ∈ s.leaf.data, ∀ r ∈ e.2, v.PointsInto r →
    r.id ∈ ({ s with views := s.views.eraseIdx i } : PinnedLeaf J).livePins
  | _ => True

def Kept (s : PinnedLeaf J) : Prop :=
  ∀ v ∈ s.views, ∀ span ∈ v.spans, ∃ e ∈ s.leaf.data, ∃ r ∈ e.2, r.isPinned = true ∧ span.packet ∈ r.packets

lemma step_addData {s t : PinnedLeaf J} {offset size : ℕ} {data : List CachedPacket}
    (h : s.step (.addData offset size data) = some t) : (s.leaf.packets ++ data).Nodup ∧
      { s with leaf := (s.leaf.addData s.nextId offset size data).2, nextId := s.nextId + 1 } = t := by
  rw [step] at h
  split_ifs at h with hown
  obtain ⟨r, hr, rfl⟩ := Option.map_eq_some_iff.mp h
  rw [(Leaf.tryAddData_eq_some.mp hr).2]
  exact ⟨hown, rfl⟩

lemma livePins_count {s : PinnedLeaf J} {i : ℕ} {view : BufferView} (hi : s.views[i]? = some view) (id : ℕ) :
    s.livePins.count id =
      ({ s with views := s.views.eraseIdx i } : PinnedLeaf J).livePins.count id + view.pin.count id := by
  obtain ⟨xs, ys, hviews, herase⟩ := getElem?_eraseIdx hi
  rw [livePins, livePins, herase, hviews]
  simp only [List.flatMap_append, List.flatMap_cons, List.count_append]
  omega

structure Inv (s : PinnedLeaf J) : Prop where
  ordered : s.leaf.Ordered
  nodup : s.leaf.packets.Nodup
  counters : ∀ e ∈ s.leaf.data, ∀ r ∈ e.2, r.counter = 1 + s.livePins.count r.id
  rangeIds : ∀ e ∈ s.leaf.data, ∀ r ∈ e.2, r.id < s.nextId
  pinIds : ∀ id ∈ s.livePins, id < s.nextId
  kept : s.Kept

namespace Inv

variable {s t : PinnedLeaf J}

lemma create (name : String) (parent size : ℕ) : Inv (PinnedLeaf.create name parent size : PinnedLeaf J) where
  ordered := ⟨List.nodup_nil, fun _ he => absurd he List.not_mem_nil⟩
  nodup := List.nodup_nil
  counters _ he := absurd he List.not_mem_nil
  rangeIds _ he := absurd he List.not_mem_nil
  pinIds _ hid := absurd hid List.not_mem_nil
  kept _ hv := absurd hv List.not_mem_nil

lemma pin (h : Inv s) {ids : List ℕ} (hown : s.leaf.PinsOwn ids) :
    Inv { s with leaf := s.leaf.pin ids, leaked := s.leaked ++ ids } := by
  have hpins : ({ s with leaf := s.leaf.pin ids, leaked := s.leaked ++ ids } : PinnedLeaf J).livePins =
      s.livePins ++ ids := by
    simp [livePins]
  refine ⟨h.ordered.mapRanges fun _ => rfl, ?_, fun e he r hr => ?_, fun e he r hr => ?_, fun id hid => ?_,
    fun v hv sp hsp => ?_⟩
  · change (s.leaf.pin ids).packets.Nodup
    rw [Leaf.pin, s.leaf.packets_mapRanges (f := fun r => r.pin ids) fun _ => rfl]
    exact h.nodup
  · obtain ⟨e', he', rfl⟩ := List.mem_map.mp he
    obtain ⟨r', hr', rfl⟩ := List.mem_map.mp hr
    rw [hpins, List.count_append, Range.pin, h.counters e' he' r' hr']
    push_cast
    ring
  · obtain ⟨e', he', rfl⟩ := List.mem_map.mp he
    obtain ⟨r', hr', rfl⟩ := List.mem_map.mp hr
    exact h.rangeIds e' he' r' hr'
  · rw [hpins] at hid
    rcases List.mem_append.mp hid with hid | hid
    · exact h.pinIds id hid
    · obtain ⟨e, he, r, hr, rfl⟩ := hown id hid
      exact h.rangeIds e he r hr
  · obtain ⟨e, he, r, hr, hpin, hp⟩ := h.kept v hv sp hsp
    have hc : 1 < r.counter := of_decide_eq_true hpin
    have hmore : 1 < r.counter + ids.count r.id := by omega
    exact ⟨_, List.mem_map_of_mem he, r.pin ids, List.mem_map_of_mem hr, decide_eq_true hmore, hp⟩

lemma getData (h : Inv s) {offset size : ℕ} {view : BufferView} (hg : s.leaf.getData offset size = some view) :
    Inv { s with leaf := s.leaf.pin view.pin, views := s.views ++ [view] } := by
  have hpinned := h.pin (Leaf.getData_pinsOwn hg)
  have hpins : (({ s with leaf := s.leaf.pin view.pin, views := s.views ++ [view] } : PinnedLeaf J).livePins).Perm
      ({ s with leaf := s.leaf.pin view.pin, leaked := s.leaked ++ view.pin } : PinnedLeaf J).livePins := by
    simp only [livePins, List.flatMap_append, List.flatMap_singleton, List.append_assoc]
    exact List.perm_append_comm.append_left _
  refine ⟨hpinned.ordered, hpinned.nodup, fun e he r hr => ?_, hpinned.rangeIds,
    fun id hid => hpinned.pinIds id (hpins.mem_iff.mp hid), fun v hv sp hsp => ?_⟩
  · rw [hpins.count_eq]
    exact hpinned.counters e he r hr
  · rcases List.mem_append.mp hv with hv | hv
    · exact hpinned.kept v hv sp hsp
    · rw [List.mem_singleton.mp hv] at hsp
      obtain ⟨e, he, r, hr, hid, hp⟩ := Leaf.getData_held hg sp hsp
      have hpos := List.count_pos_iff.mpr hid
      have hc : 1 < r.counter + view.pin.count r.id := by
        rw [h.counters e he r hr]
        omega
      exact ⟨_, List.mem_map_of_mem he, r.pin view.pin, List.mem_map_of_mem hr, decide_eq_true hc, hp⟩

lemma release (h : Inv s) {i : ℕ} {view : BufferView} (hi : s.views[i]? = some view)
    (hspares : s.Spares (.release i)) :
    Inv { s with leaf := s.leaf.unpin view.pin, views := s.views.eraseIdx i } := by
  have hsub : ∀ v ∈ s.views.eraseIdx i, v ∈ s.views := fun v hv => List.mem_of_mem_eraseIdx hv
  refine ⟨h.ordered.mapRanges fun _ => rfl, ?_, fun e he r hr => ?_, fun e he r hr => ?_, fun id hid => ?_,
    fun v hv sp hsp => ?_⟩
  · change (s.leaf.unpin view.pin).packets.Nodup
    rw [Leaf.unpin, s.leaf.packets_mapRanges (f := fun r => r.unpin view.pin) fun _ => rfl]
    exact h.nodup
  · obtain ⟨e', he', rfl⟩ := List.mem_map.mp he
    obtain ⟨r', hr', rfl⟩ := List.mem_map.mp hr
    rw [Range.unpin, h.counters e' he' r' hr', livePins_count hi]
    change _ = 1 + (({ s with views := s.views.eraseIdx i } : PinnedLeaf J).livePins.count r'.id : ℤ)
    push_cast
    ring
  · obtain ⟨e', he', rfl⟩ := List.mem_map.mp he
    obtain ⟨r', hr', rfl⟩ := List.mem_map.mp hr
    exact h.rangeIds e' he' r' hr'
  · refine h.pinIds id ?_
    have hpos := List.count_pos_iff.mpr hid
    change 0 < ({ s with views := s.views.eraseIdx i } : PinnedLeaf J).livePins.count id at hpos
    have hcount := livePins_count hi id
    exact List.count_pos_iff.mp (by omega)
  · obtain ⟨e, he, r, hr, -, hp⟩ := h.kept v (hsub v hv) sp hsp
    have hpos := List.count_pos_iff.mpr (hspares v hv e he r hr ⟨sp, hsp, hp⟩)
    refine ⟨_, List.mem_map_of_mem he, r.unpin view.pin, List.mem_map_of_mem hr, decide_eq_true ?_, hp⟩
    rw [Range.unpin, h.counters e he r hr, livePins_count hi]
    push_cast
    omega

lemma evict (h : Inv s) {index : ℕ} (hi : s.leaf.getFirstBlockIndex = some index) :
    Inv { s with leaf := (s.leaf.extractBlock index).2.2 } := by
  obtain ⟨ranges, hm, hc⟩ := Leaf.getFirstBlockIndex_unpinned hi
  have hf := h.ordered.keys.findBlock hm
  have hdata : (s.leaf.extractBlock index).2.2.data = (s.leaf.eraseBlock index).data := by
    rw [Leaf.extractBlock, hf]
    rfl
  have hsub : ∀ e ∈ (s.leaf.extractBlock index).2.2.data, e ∈ s.leaf.data := by
    rw [hdata]
    exact fun e he => List.mem_of_mem_filter he
  have hperm := (Leaf.packets_extractBlock_perm h.ordered.keys index).nodup_iff.mpr h.nodup
  refine ⟨h.ordered.extractBlock index, (List.nodup_append.mp hperm).2.1, fun e he => h.counters e (hsub e he),
    fun e he => h.rangeIds e (hsub e he), h.pinIds, fun v hv sp hsp => ?_⟩
  obtain ⟨e, he, r, hr, hpin, hp⟩ := h.kept v hv sp hsp
  refine ⟨e, ?_, r, hr, hpin, hp⟩
  have hcounter : 1 < r.counter := of_decide_eq_true hpin
  rw [hdata]
  refine List.mem_filter.mpr ⟨he, decide_eq_true fun hk => ?_⟩
  have hranges := h.ordered.keys.findBlock he
  rw [hk, hf] at hranges
  have := hc r (Option.some.inj hranges ▸ hr)
  omega

lemma addData (h : Inv s) {offset size : ℕ} {data : List CachedPacket} (hown : (s.leaf.packets ++ data).Nodup)
    (hspares : s.Spares (.addData offset size data)) :
    Inv { s with leaf := (s.leaf.addData s.nextId offset size data).2, nextId := s.nextId + 1 } := by
  have hdata := (s.leaf.addData_eq_addRange s.nextId offset size data).2
  have hbranch := addRange_branch (h.ordered.sorted_getD (offset / blockSize)) s.nextId offset size data rfl rfl
  have horigin := hbranch.origin
  rw [List.takeWhile_append_dropWhile] at horigin
  have hfresh : s.livePins.count s.nextId = 0 := List.count_eq_zero.mpr fun hm => (h.pinIds _ hm).ne rfl
  have hcount : ∀ e ∈ (s.leaf.addData s.nextId offset size data).2.data, ∀ r ∈ e.2,
      r.counter = 1 + s.livePins.count r.id ∧ r.id < s.nextId + 1 := by
    intro e he r hr
    rw [hdata] at he
    rcases List.mem_cons.mp he with rfl | he
    · rcases horigin r hr with ⟨hid, hc⟩ | ⟨r', hr', hid, hc⟩
      · rw [hid, hc, hfresh]
        exact ⟨rfl, Nat.lt_succ_self _⟩
      · obtain ⟨ranges, hm, hr'⟩ := Leaf.mem_of_getD hr'
        rw [← hid, ← hc]
        exact ⟨h.counters _ hm r' hr', (h.rangeIds _ hm r' hr').trans (Nat.lt_succ_self _)⟩
    · have he := List.mem_of_mem_filter he
      exact ⟨h.counters e he r hr, (h.rangeIds e he r hr).trans (Nat.lt_succ_self _)⟩
  have hperm := (Leaf.packets_addData_perm h.ordered s.nextId offset size data).nodup_iff.mpr hown
  refine ⟨h.ordered.addData _ _ _ _, (List.nodup_append.mp hperm).1, fun e he r hr => (hcount e he r hr).1,
    fun e he r hr => (hcount e he r hr).2, fun id hid => (h.pinIds id hid).trans (Nat.lt_succ_self _),
    fun v hv sp hsp => ?_⟩
  obtain ⟨e, he, r, hr, hpin, hp⟩ := h.kept v hv sp hsp
  change ∃ e ∈ (s.leaf.addData s.nextId offset size data).2.data, _
  rw [hdata]
  by_cases hk : e.1 = offset / blockSize
  · have hf : s.leaf.findBlock (offset / blockSize) = some e.2 := hk ▸ h.ordered.keys.findBlock he
    have hpinned := hbranch.pinned (fun r hrep hp => hspares.1 r hrep ⟨v, hv, sp, hsp, hp⟩)
      (fun q hbri hp => hspares.2 q hbri ⟨v, hv, sp, hsp, hp⟩) r
    rw [List.takeWhile_append_dropWhile, hf] at hpinned
    obtain ⟨r', hr', hpin', hp'⟩ := hpinned hr hpin hp
    exact ⟨_, List.mem_cons_self, r', by rw [hf]; exact hr', hpin', hp'⟩
  · exact ⟨e, List.mem_cons_of_mem _ (List.mem_filter.mpr ⟨he, decide_eq_true hk⟩), r, hr, hpin, hp⟩

lemma step (h : Inv s) {call : PinnedCall} (hspares : s.Spares call) (ht : s.step call = some t) : Inv t := by
  cases call with
  | getData offset size =>
    rw [PinnedLeaf.step] at ht
    cases hp : s.leaf.pinData offset size with
    | error ids =>
      rw [hp] at ht
      cases ht
      exact h.pin (Leaf.pinData_error hp).1
    | ok view =>
      rw [hp] at ht
      cases ht
      exact h.getData (Leaf.getData_of_pinData hp)
  | addData offset size data =>
    obtain ⟨hown, rfl⟩ := step_addData ht
    exact h.addData hown hspares
  | evict =>
    rw [PinnedLeaf.step] at ht
    cases hi : s.leaf.getFirstBlockIndex with
    | none =>
      rw [hi] at ht
      cases ht
      exact h
    | some index =>
      rw [hi] at ht
      cases ht
      exact h.evict hi
  | release i =>
    obtain ⟨view, hi, rfl⟩ := Option.map_eq_some_iff.mp ht
    exact h.release hi hspares

lemma spares_addData (h : Inv s) {offset size : ℕ} {data : List CachedPacket}
    (hown : (s.leaf.packets ++ data).Nodup)
    (hk : ({ s with leaf := (s.leaf.addData s.nextId offset size data).2, nextId := s.nextId + 1 } : PinnedLeaf J).Kept)
    (hret : ∀ v ∈ s.views, ∀ span ∈ v.spans, span.packet ∉ s.returned (.addData offset size data)) :
    s.Spares (.addData offset size data) := by
  obtain ⟨hreturn, hdata⟩ := s.leaf.addData_eq_addRange s.nextId offset size data
  have hsorted := h.ordered.sorted_getD (offset / blockSize)
  have hbranch := addRange_branch hsorted s.nextId offset size data rfl rfl
  have hperm := (Leaf.packets_addData_perm h.ordered s.nextId offset size data).nodup_iff.mpr hown
  refine ⟨fun r hrep => ?_, fun q hbri => ?_⟩
  · rintro ⟨v, hv, span, hspan, hp⟩
    refine hret v hv span hspan ?_
    rw [returned, hreturn, hbranch.replaced hsorted.lt_dropWhile hrep]
    exact hp
  · rintro ⟨v, hv, span, hspan, hp⟩
    obtain ⟨r, hr, hpin, hsub⟩ := hbranch.bridged hbri
    obtain ⟨e', he', r', hr', hpin', hp'⟩ := hk v hv span hspan
    have he : (offset / blockSize, (addRange ((s.leaf.findBlock (offset / blockSize)).getD []) s.nextId offset size
        data).2) ∈ (s.leaf.addData s.nextId offset size data).2.data := hdata ▸ List.mem_cons_self
    have heq := Leaf.range_eq_of_mem (List.nodup_append.mp hperm).1 he he' hr hr' (hsub hp) hp'
    rw [← hpin, heq, hpin']

lemma spares_release (h : Inv s) {i : ℕ} {view : BufferView} (hi : s.views[i]? = some view)
    (hk : ({ s with leaf := s.leaf.unpin view.pin, views := s.views.eraseIdx i } : PinnedLeaf J).Kept) :
    s.Spares (.release i) := by
  rintro v hv e he r hr ⟨span, hspan, hp⟩
  obtain ⟨e', he', r', hr', hpin, hp'⟩ := hk v hv span hspan
  have hnodup : (s.leaf.unpin view.pin).packets.Nodup := by
    rw [Leaf.unpin, s.leaf.packets_mapRanges (f := fun r => r.unpin view.pin) fun _ => rfl]
    exact h.nodup
  have heq := Leaf.range_eq_of_mem (r := r.unpin view.pin) hnodup (List.mem_map_of_mem he) he'
    (List.mem_map_of_mem hr) hr' hp hp'
  have hcounter : 1 < r.counter - view.pin.count r.id := by
    rw [← heq] at hpin
    exact of_decide_eq_true hpin
  rw [h.counters e he r hr, livePins_count hi] at hcounter
  refine List.count_pos_iff.mp ?_
  push_cast at hcounter
  omega

lemma returned_disjoint (h : Inv s) {call : PinnedCall} (ht : s.step call = some t) :
    ∀ p ∈ s.returned call, p ∉ t.leaf.packets := by
  cases call with
  | getData offset size => exact fun p hp => absurd hp List.not_mem_nil
  | addData offset size data =>
    obtain ⟨hown, rfl⟩ := step_addData ht
    have hperm := (Leaf.packets_addData_perm h.ordered s.nextId offset size data).nodup_iff.mpr hown
    exact fun p hp hin => List.disjoint_of_nodup_append hperm hin (List.mem_append_left _ hp)
  | evict =>
    rw [PinnedLeaf.step] at ht
    rw [returned]
    cases hi : s.leaf.getFirstBlockIndex with
    | none => exact fun p hp => absurd hp List.not_mem_nil
    | some index =>
      rw [hi] at ht
      cases ht
      have hperm := (Leaf.packets_extractBlock_perm h.ordered.keys index).nodup_iff.mpr h.nodup
      exact fun p hp hin => List.disjoint_of_nodup_append hperm hp hin
  | release i => exact fun p hp => absurd hp List.not_mem_nil

end Inv

lemma views_subset {s t : PinnedLeaf J} {call : PinnedCall} (hc : s.returned call ≠ []) (ht : s.step call = some t) :
    t.views = s.views := by
  cases call with
  | getData offset size => exact absurd rfl hc
  | addData offset size data =>
    obtain ⟨-, rfl⟩ := step_addData ht
    rfl
  | evict =>
    rw [step] at ht
    cases hi : s.leaf.getFirstBlockIndex <;> rw [hi] at ht <;> cases ht <;> rfl
  | release i => exact absurd rfl hc

theorem pinned_packets_stay {name : String} {parent size : ℕ} {calls : List PinnedCall} {s : PinnedLeaf J}
    (h : Path step Spares (create name parent size) calls s) :
    s.Kept ∧ ∀ call t, s.step call = some t →
      ((t.Kept ∧ ∀ v ∈ s.views, ∀ span ∈ v.spans, span.packet ∉ s.returned call) ↔ s.Spares call) := by
  have hinv : Inv s := h.invariant (fun _ _ _ hs hok ha => hs.step hok ha) (Inv.create name parent size)
  refine ⟨hinv.kept, fun call t ht => ⟨fun ⟨hk, hret⟩ => ?_, fun hspares => ⟨(hinv.step hspares ht).kept, ?_⟩⟩⟩
  · cases call with
    | getData offset size => trivial
    | addData offset size data =>
      obtain ⟨hown, rfl⟩ := step_addData ht
      exact hinv.spares_addData hown hk hret
    | evict => trivial
    | release i =>
      obtain ⟨view, hi, rfl⟩ := Option.map_eq_some_iff.mp ht
      exact hinv.spares_release hi hk
  · intro v hv span hspan hret
    rw [← views_subset (List.ne_nil_of_mem hret) ht] at hv
    obtain ⟨e, he, r, hr, -, hp⟩ := (hinv.step hspares ht).kept v hv span hspan
    exact hinv.returned_disjoint ht _ hret (Leaf.mem_packets.mpr ⟨e, he, r, hr, hp⟩)

theorem pinned_packets_stay_appended :
    let first : List CachedPacket := [⟨0, [1, 2], []⟩]
    let second : List CachedPacket := [⟨1, [3], []⟩]
    ∃ s : PinnedLeaf Unit, Path step Spares (create "file" 0 4) [.addData 0 2 first, .getData 0 2] s ∧ s.Kept ∧
      ∀ t, s.step (.addData 2 1 second) = some t → t.Kept := by
  intro first second
  obtain ⟨s, hs⟩ : ∃ s : PinnedLeaf Unit,
      s = ⟨(((Leaf.create "file" 0 4).addData 0 0 2 first).2).pin [0], [⟨[⟨⟨0, [1, 2], []⟩, 0, 2⟩], [0]⟩], [], 1⟩ := ⟨_, rfl⟩
  have hpath : Path step Spares (create "file" 0 4) [.addData 0 2 first, .getData 0 2] s := by
    subst hs
    exact .cons ⟨fun r hr => (by cases hr), fun q hq => by cases hq⟩ rfl (.cons trivial rfl (.nil _))
  obtain ⟨hkept, hiff⟩ := pinned_packets_stay hpath
  refine ⟨s, hpath, hkept, fun t ht => ((hiff _ t ht).mpr ?_).1⟩
  subst hs
  exact ⟨fun r hr => (by cases hr), fun q hq => by cases hq⟩

theorem pinned_packet_returned :
    ¬ ∀ (calls : List PinnedCall) (s : PinnedLeaf Unit), run step (create "file" 0 4) calls = some s →
      s.Kept ∧ ∀ call t, s.step call = some t →
        t.Kept ∧ ∀ v ∈ s.views, ∀ span ∈ v.spans, span.packet ∉ s.returned call := by
  intro h
  let s : PinnedLeaf Unit :=
    ⟨(((Leaf.create "file" 0 4).addData 0 1 1 [⟨0, [2], []⟩]).2).pin [0], [⟨[⟨⟨0, [2], []⟩, 0, 1⟩], [0]⟩], [], 1⟩
  have hret := ((h [.addData 1 1 [⟨0, [2], []⟩], .getData 1 1] s rfl).2 (.addData 0 3 [⟨1, [1, 2, 3], []⟩]) _ rfl).2
  exact hret _ List.mem_cons_self _ List.mem_cons_self (by decide)

end PinnedLeaf

end FastTransport.FileSystem
