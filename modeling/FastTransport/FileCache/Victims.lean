import FastTransport.FileCache.Accounting
import FastTransport.FileSystem.PinnedPackets

/-! The eviction's choice of a victim: the leaf that comes first in its shard's table, and of that leaf the first
block without a pin. -/

namespace FastTransport.FileSystem

def Leaf.HasVictim {J : Type} (leaf : Leaf J) : Prop := ∃ e ∈ leaf.data, ∀ r ∈ e.2, r.isPinned = false

def Leaf.BlocksFilled {J : Type} (leaf : Leaf J) : Prop := ∀ e ∈ leaf.data, e.2.flatMap Range.packets ≠ []

namespace Leaf

variable {J : Type} {leaf : Leaf J}

lemma hasVictim_iff : leaf.HasVictim ↔ ∃ index, leaf.getFirstBlockIndex = some index := by
  rw [← Option.ne_none_iff_exists', getFirstBlockIndex, Ne, List.min?_eq_none_iff, List.map_eq_nil_iff,
    List.filter_eq_nil_iff]
  simp [HasVictim]

lemma BlocksFilled.extractBlock (h : leaf.BlocksFilled) (index : ℕ) : (leaf.extractBlock index).2.2.BlocksFilled := by
  rw [Leaf.extractBlock]
  cases leaf.findBlock index with
  | none => exact h
  | some ranges => exact fun e he => h e (List.mem_of_mem_filter he)

lemma BlocksFilled.mapRanges (h : leaf.BlocksFilled) {f : Range → Range} (hf : ∀ r, (f r).packets = r.packets) :
    (leaf.mapRanges f).BlocksFilled := by
  intro e he
  obtain ⟨e', he', rfl⟩ := List.mem_map.mp he
  simpa only [List.flatMap_map, hf] using h e' he'

end Leaf

lemma AddBranch.filled {before after : List Range} {id offset size : ℕ} {data : List CachedPacket}
    {result : List CachedPacket × List Range} (h : AddBranch before after id offset size data result) (hd : data ≠ [])
    (hold : before ++ after ≠ [] → (before ++ after).flatMap Range.packets ≠ []) :
    result.2.flatMap Range.packets ≠ [] := by
  have hmiddle {B A : List Range} {m : Range} (hm : m.packets ≠ []) : (B ++ m :: A).flatMap Range.packets ≠ [] := by
    simp [hm]
  cases h with
  | bridge => exact hmiddle (by simp [hd])
  | join => exact hmiddle (by simp [hd])
  | replace => exact hmiddle (B := []) hd
  | append => exact hmiddle (by simp [hd])
  | overlap init prev _ _ _ _ hlen _ _ _ =>
    have hprev : prev.packets ≠ [] := List.ne_nil_of_length_pos (by omega)
    exact hmiddle (by simp [hprev])
  | refuse init prev hb _ _ _ _ => exact hold (by simp [hb])
  | insert => exact hmiddle hd

lemma Leaf.BlocksFilled.addData {J : Type} {leaf : Leaf J} (h : leaf.BlocksFilled) (ho : leaf.Ordered) (id offset size : ℕ)
    {data : List CachedPacket} (hd : data ≠ []) : (leaf.addData id offset size data).2.BlocksFilled := by
  have hbranch := addRange_branch (ho.sorted_getD (offset / blockSize)) id offset size data rfl rfl
  intro e he
  rw [(leaf.addData_eq_addRange id offset size data).2] at he
  rcases List.mem_cons.mp he with rfl | he
  · refine hbranch.filled hd ?_
    rw [List.takeWhile_append_dropWhile]
    cases hf : leaf.findBlock (offset / blockSize) with
    | none => exact fun hn => absurd rfl hn
    | some ranges => exact fun _ => h _ (Leaf.mem_of_findBlock hf)
  · exact h e (List.mem_of_mem_filter he)

end FastTransport.FileSystem

namespace FastTransport.FileCache

open FileSystem Lib.Runs Lib.Tally

inductive PinningCall
  | cache (call : CacheCall)
  | getData (inode offset size : ℕ)
  | release (inode : ℕ) (pin : List ℕ)
  deriving DecidableEq, Repr

namespace Client

def pinningCall (s : Client) : PinningCall → Option Client
  | .cache call => s.call call
  | .getData inode offset size => some (s.pinRanges inode ((s.leafs inode).pinnedIds offset size))
  | .release inode pin => some (s.unpinRanges inode pin)

def Brings : PinningCall → Prop
  | .cache (.addData _ _ _ data) => data ≠ []
  | _ => True

/-- `GetFreeData`, told which inode the hash table of the shard begins with: `none` where it is empty. -/
def freeData (s : Client) (first : Option ℕ) : Option (WriteFileCacheJob × Client) := first.bind s.getFreeData

def Begins (s : Client) (shard : ℕ) : Option ℕ → Prop
  | none => s.shardInodes shard = []
  | some inode => inode ∈ s.shardInodes shard

def ShardHasVictim (s : Client) (shard : ℕ) : Prop := ∃ inode, shardForInode inode = shard ∧ (s.leafs inode).HasVictim

/-- At each turn of the eviction loop the leaf that comes first has a victim if any of the shard's leaves has. -/
def PicksVictims (shard : ℕ) : List ℕ → Client → Prop
  | [], _ => True
  | inode :: rest, s => (s.ShardHasVictim shard → (s.leafs inode).HasVictim) ∧
    ∀ job t, s.getFreeData inode = some (job, t) → PicksVictims shard rest (t.scheduleCacheTreeJob (.writeFile job))

structure Filled (s : Client) : Prop where
  counted : Counted s
  blocks : ∀ i, (s.leafs i).BlocksFilled

namespace Filled

variable {s t : Client}

lemma mem_shardInodes (h : Filled s) {inode : ℕ} (hv : (s.leafs inode).HasVictim) :
    inode ∈ s.shardInodes (shardForInode inode) := by
  obtain ⟨e, he, -⟩ := hv
  obtain ⟨p, hp⟩ := List.exists_mem_of_ne_nil _ (h.blocks inode e he)
  have hheld : 0 < (s.leafs inode).packets.length :=
    List.length_pos_of_mem (List.mem_flatMap.mpr ⟨e, he, hp⟩)
  refine List.mem_filter.mpr ⟨?_, decide_eq_true rfl⟩
  by_contra hnot
  have hzero : s.countedPackets inode = 0 := tally_of_notMem hnot
  have hle := h.counted.le inode
  rw [hzero, heldPackets] at hle
  omega

lemma getFreeData_iff (h : Filled s) (inode : ℕ) :
    (∃ job t, s.getFreeData inode = some (job, t) ∧ job.data ≠ []) ↔ (s.leafs inode).HasVictim := by
  rw [Leaf.hasVictim_iff]
  constructor
  · rintro ⟨job, t, hg, -⟩
    obtain ⟨index, hi, -⟩ := Option.map_eq_some_iff.mp hg
    exact ⟨index, hi⟩
  · rintro ⟨index, hi⟩
    obtain ⟨ranges, hm, -⟩ := Leaf.getFirstBlockIndex_unpinned hi
    have hf := (h.counted.ordered inode).keys.findBlock hm
    refine ⟨_, _, Option.map_eq_some_iff.mpr ⟨index, hi, rfl⟩, ?_⟩
    change ((s.leafs inode).extractBlock index).2.1 ≠ []
    rw [Leaf.extractBlock, hf]
    exact h.blocks inode _ hm

lemma create (files : ℕ → RemoteFile) : Filled (Client.create files) :=
  ⟨Counted.create files, fun _ _ he => absurd he List.not_mem_nil⟩

lemma setLeaf_mapRanges (h : Filled s) (inode : ℕ) {f : Range → Range}
    (hf : ∀ r, (f r).offset = r.offset ∧ (f r).packets = r.packets) :
    Filled (s.setLeaf inode ((s.leafs inode).mapRanges f)) := by
  refine ⟨⟨fun i => ?_, h.counted.keys, h.counted.grandTotal, fun i => ?_⟩, fun i => ?_⟩
  · rw [leafs_setLeaf]
    split_ifs
    · exact (h.counted.ordered inode).mapRanges fun r => (hf r).1
    · exact h.counted.ordered i
  · rw [heldPackets_setLeaf, Leaf.packets_mapRanges _ fun r => (hf r).2]
    split_ifs with hi
    · exact hi ▸ h.counted.le i
    · exact h.counted.le i
  · rw [leafs_setLeaf]
    split_ifs
    · exact (h.blocks inode).mapRanges fun r => (hf r).2
    · exact h.blocks i

lemma of_leafs_eq (h : Filled s) (hl : t.leafs = s.leafs) (hc : t.cachePerShard = s.cachePerShard)
    (hg : t.grandTotalCachedPackets = s.grandTotalCachedPackets) : Filled t := by
  refine ⟨⟨fun i => ?_, hc ▸ h.counted.keys, ?_, fun i => ?_⟩, fun i => ?_⟩
  · rw [hl]
    exact h.counted.ordered i
  · rw [hg, hc]
    exact h.counted.grandTotal
  · rw [heldPackets, countedPackets, hl, hc]
    exact h.counted.le i
  · rw [hl]
    exact h.blocks i

lemma getFreeData (h : Filled s) {inode : ℕ} (hm : inode ∈ s.cachePerShard.map Prod.fst) {job : WriteFileCacheJob}
    (ht : s.getFreeData inode = some (job, t)) : Filled t := by
  refine ⟨(h.counted.getFreeData hm ht).1, fun i => ?_⟩
  obtain ⟨index, -, ht⟩ := Option.map_eq_some_iff.mp ht
  obtain rfl : (s.setLeaf inode ((s.leafs inode).extractBlock index).2.2).removeCount inode
      ((s.leafs inode).extractBlock index).2.1.length = t := congrArg Prod.snd ht
  change ((s.setLeaf inode _).leafs i).BlocksFilled
  rw [leafs_setLeaf]
  split_ifs
  · exact (h.blocks inode).extractBlock index
  · exact h.blocks i

lemma call (h : Filled s) {c : CacheCall} (hb : Brings (.cache c)) (ht : s.call c = some t) : Filled t := by
  have hcounted := (h.counted.call ht).1
  cases c with
  | addData inode offset size data =>
    cases ht
    refine ⟨hcounted, fun i => ?_⟩
    change ((s.setLeaf inode _).leafs i).BlocksFilled
    rw [leafs_setLeaf]
    split_ifs
    · exact (h.blocks inode).addData (h.counted.ordered inode) _ _ _ hb
    · exact h.blocks i
  | getFreeData shard inode =>
    rw [Client.call] at ht
    split_ifs at ht with hnil hm
    · cases ht
      exact h
    · cases hg : s.getFreeData inode with
      | none =>
        rw [hg] at ht
        cases ht
        exact h
      | some r =>
        obtain ⟨job, u⟩ := r
        rw [hg] at ht
        cases ht
        exact h.getFreeData (List.mem_filter.mp hm).1 hg
  | invalidateDataCache inode =>
    cases ht
    refine ⟨hcounted, fun i => ?_⟩
    rw [leafs_setLeaf]
    split_ifs
    · exact fun e he => absurd he List.not_mem_nil
    · exact h.blocks i

lemma step (h : Filled s) {c : PinningCall} (hb : Brings c) (ht : s.pinningCall c = some t) : Filled t := by
  cases c with
  | cache c => exact h.call hb ht
  | getData inode offset size =>
    cases ht
    exact h.setLeaf_mapRanges inode fun _ => ⟨rfl, rfl⟩
  | release inode pin =>
    cases ht
    exact h.setLeaf_mapRanges inode fun _ => ⟨rfl, rfl⟩

lemma freeData_iff (h : Filled s) {shard : ℕ} {first : Option ℕ} (hf : s.Begins shard first) :
    (s.ShardHasVictim shard → ∃ job t, s.freeData first = some (job, t) ∧ job.data ≠ []) ↔
      (s.ShardHasVictim shard → ∃ inode, first = some inode ∧ (s.leafs inode).HasVictim) := by
  refine imp_congr_right fun hv => ?_
  cases first with
  | none =>
    obtain ⟨inode, rfl, hv⟩ := hv
    have hm := h.mem_shardInodes hv
    rw [show s.shardInodes (shardForInode inode) = [] from hf] at hm
    exact absurd hm List.not_mem_nil
  | some inode =>
    rw [freeData, Option.bind_some, h.getFreeData_iff]
    simp

lemma evictLoop_iff {shard : ℕ} {picks : List ℕ} (h : Filled s) (ht : evictLoop shard picks s = some t) :
    (t.needsEviction = true → ¬ t.ShardHasVictim shard) ↔ PicksVictims shard picks s := by
  induction picks generalizing s with
  | nil =>
    rw [evictLoop] at ht
    split_ifs at ht with hn
    cases ht
    refine ⟨fun _ => trivial, fun _ hneeds => ?_⟩
    rintro ⟨inode, rfl, hv⟩
    exact hn ⟨hneeds, List.ne_nil_of_mem (h.mem_shardInodes hv)⟩
  | cons inode rest ih =>
    rw [evictLoop] at ht
    by_cases hn : s.needsEviction ∧ inode ∈ s.shardInodes shard
    swap
    · rw [if_neg hn] at ht
      cases ht
    rw [if_pos hn] at ht
    have hm := (List.mem_filter.mp hn.2).1
    have hiff := h.getFreeData_iff inode
    cases hg : s.getFreeData inode with
    | none =>
      have hnone : ¬ (s.leafs inode).HasVictim := fun hv => by
        obtain ⟨job, u, hj, -⟩ := hiff.mpr hv
        cases hg.symm.trans hj
      rw [hg] at ht
      simp only at ht
      split_ifs at ht
      cases ht
      refine ⟨fun hstop => ⟨fun hv => absurd hv (hstop hn.1), fun job u hj => ?_⟩, fun hp _ hv => hnone (hp.1 hv)⟩
      rw [hg] at hj
      cases hj
    | some r =>
      obtain ⟨job, u⟩ := r
      have hv : (s.leafs inode).HasVictim :=
        Leaf.hasVictim_iff.mpr (by obtain ⟨index, hi, -⟩ := Option.map_eq_some_iff.mp hg; exact ⟨index, hi⟩)
      obtain ⟨job', u', hg', hdata⟩ := hiff.mpr hv
      cases hg.symm.trans hg'
      rw [hg] at ht
      simp only [if_neg hdata] at ht
      have hfilled : Filled (u.scheduleCacheTreeJob (.writeFile job)) :=
        (h.getFreeData hm hg).of_leafs_eq rfl rfl rfl
      rw [ih hfilled ht]
      refine ⟨fun hp => ⟨fun _ => hv, fun job' u' hg' => ?_⟩, fun hp => hp.2 job u hg⟩
      cases hg.symm.trans hg'
      exact hp

end Filled

end Client

theorem victim_found_iff {files : ℕ → RemoteFile} {calls : List PinningCall} {s : Client}
    (h : Path Client.pinningCall (fun _ => Client.Brings) (Client.create files) calls s) (shard : ℕ) :
    (∀ first, s.Begins shard first →
      ((s.ShardHasVictim shard → ∃ job t, s.freeData first = some (job, t) ∧ job.data ≠ []) ↔
        (s.ShardHasVictim shard → ∃ inode, first = some inode ∧ (s.leafs inode).HasVictim))) ∧
      ∀ picks t, Client.evictLoop shard picks s = some t →
        ((t.needsEviction = true → ¬ t.ShardHasVictim shard) ↔ Client.PicksVictims shard picks s) := by
  have hfilled : Client.Filled s :=
    h.invariant (fun _ _ _ hs hok ha => hs.step hok ha) (Client.Filled.create files)
  exact ⟨fun first hf => hfilled.freeData_iff hf, fun picks t ht => hfilled.evictLoop_iff ht⟩

def twoFiles (inode : ℕ) : RemoteFile := ⟨if inode = 4 then "a.txt" else "b.txt", 1, [1, 2]⟩

def twoFilesCached : Client :=
  ((Client.create twoFiles).addData 4 0 2 [⟨100, [1, 2], []⟩]).addData 8 0 2 [⟨101, [1, 2], []⟩]

theorem victim_found_iff_unpinned :
    Path Client.pinningCall (fun _ => Client.Brings) (Client.create twoFiles)
        [.cache (.addData 4 0 2 [⟨100, [1, 2], []⟩]), .cache (.addData 8 0 2 [⟨101, [1, 2], []⟩])] twoFilesCached ∧
      ∃ job t, twoFilesCached.freeData (some 4) = some (job, t) ∧ job.data ≠ [] := by
  have hpath : Path Client.pinningCall (fun _ => Client.Brings) (Client.create twoFiles)
      [.cache (.addData 4 0 2 [⟨100, [1, 2], []⟩]), .cache (.addData 8 0 2 [⟨101, [1, 2], []⟩])] twoFilesCached :=
    .cons (List.cons_ne_nil _ _) rfl (.cons (List.cons_ne_nil _ _) rfl (.nil _))
  have hvictim : (twoFilesCached.leafs 4).HasVictim := Leaf.hasVictim_iff.mpr ⟨0, rfl⟩
  refine ⟨hpath, (((victim_found_iff hpath 0).1 (some 4) ?_).mpr fun _ => ⟨4, rfl, hvictim⟩) ⟨4, rfl, hvictim⟩⟩
  change 4 ∈ twoFilesCached.shardInodes 0
  decide

theorem victim_not_found : ¬ ∀ (files : ℕ → RemoteFile) (calls : List PinningCall) (s : Client),
    run Client.pinningCall (Client.create files) calls = some s → ∀ shard first, s.Begins shard first →
      s.ShardHasVictim shard → ∃ job t, s.freeData first = some (job, t) ∧ job.data ≠ [] := by
  intro h
  let s : Client := twoFilesCached.pinRanges 4 [0]
  have hbegins : s.Begins 0 (some 4) := by
    change 4 ∈ twoFilesCached.shardInodes 0
    decide
  obtain ⟨job, t, hfree, -⟩ := h twoFiles [.cache (.addData 4 0 2 [⟨100, [1, 2], []⟩]),
    .cache (.addData 8 0 2 [⟨101, [1, 2], []⟩]), .getData 4 0 2] s rfl 0 (some 4) hbegins
    ⟨8, rfl, Leaf.hasVictim_iff.mpr ⟨0, rfl⟩⟩
  have hnone : s.freeData (some 4) = none := rfl
  cases hnone.symm.trans hfree

end FastTransport.FileCache
