import FastTransport.FileCache.Outcome
import FastTransport.FileSystem.Ranges
import FastTransport.Lib.Tally

/-! The counters of the cache against the packets it holds: they never count too few, and they are exact as
long as nothing is invalidated or refused behind their back. -/

namespace FastTransport.FileCache

open FileSystem Lib.Runs Lib.Tally

inductive CacheCall
  | addData (inode offset size : ℕ) (data : List CachedPacket)
  | getFreeData (shard inode : ℕ)
  | invalidateDataCache (inode : ℕ)
  deriving DecidableEq, Repr

namespace Client

def call (s : Client) : CacheCall → Option Client
  | .addData inode offset size data => some (s.addData inode offset size data)
  | .getFreeData shard inode =>
    if s.shardInodes shard = [] then some s
    else if inode ∈ s.shardInodes shard then
      match s.getFreeData inode with
      | none => some s
      | some (_, t) => some t
    else none
  | .invalidateDataCache inode => some (s.setLeaf inode (s.leafs inode).invalidateDataCache)

def heldPackets (s : Client) (inode : ℕ) : ℤ := (s.leafs inode).packets.length

def countedPackets (s : Client) (inode : ℕ) : ℤ := tally s.cachePerShard inode

structure Exact (s : Client) : Prop where
  inodes : ∀ i, s.countedPackets i = s.heldPackets i
  grandTotal : s.grandTotalCachedPackets = ∑ᶠ i, s.heldPackets i
  nonneg : ∀ e ∈ s.cachePerShard, 0 ≤ e.2

def Keeps (s : Client) : CacheCall → Prop
  | .addData inode offset size data => data = [] ∨
      ∀ ranges, (s.leafs inode).findBlock (offset / blockSize) = some ranges → collides ranges offset size = false
  | .getFreeData _ _ => True
  | .invalidateDataCache inode => (s.leafs inode).packets = []

structure Counted (s : Client) : Prop where
  ordered : ∀ i, (s.leafs i).Ordered
  keys : KeysNodup s.cachePerShard
  grandTotal : s.grandTotalCachedPackets = total s.cachePerShard
  le : ∀ i, s.heldPackets i ≤ s.countedPackets i

def loss (s : Client) (i : ℕ) : CacheCall → ℕ
  | .addData inode offset size data => if i = inode then (s.leafs i).lostPackets offset size data else 0
  | .getFreeData _ _ => 0
  | .invalidateDataCache inode => if i = inode then (s.leafs i).packets.length else 0

lemma lostPackets_eq_zero_iff {leaf : Leaf FuseReadFilePendingJob} {offset size : ℕ} {data : List CachedPacket} :
    leaf.lostPackets offset size data = 0 ↔ data = [] ∨
      ∀ ranges, leaf.findBlock (offset / blockSize) = some ranges → collides ranges offset size = false := by
  rw [Leaf.lostPackets]
  cases hf : leaf.findBlock (offset / blockSize) with
  | none => simp
  | some ranges =>
    simp only [Option.some.injEq, forall_eq']
    cases hc : collides ranges offset size <;> simp

lemma keeps_iff {s : Client} {c : CacheCall} : s.Keeps c ↔ ∀ i, s.loss i c = 0 := by
  cases c with
  | addData inode offset size data =>
    rw [Keeps, ← lostPackets_eq_zero_iff]
    refine ⟨fun h i => ?_, fun h => ?_⟩
    · rw [loss]
      split_ifs with hi
      · rw [hi, h]
      · rfl
    · have hi := h inode
      rwa [loss, if_pos rfl] at hi
  | getFreeData shard inode => exact ⟨fun _ _ => rfl, fun _ => trivial⟩
  | invalidateDataCache inode =>
    rw [Keeps]
    refine ⟨fun h i => ?_, fun h => ?_⟩
    · rw [loss]
      split_ifs with hi
      · rw [hi, h, List.length_nil]
      · rfl
    · have hi := h inode
      rw [loss, if_pos rfl] at hi
      exact List.length_eq_zero_iff.mp hi

lemma heldPackets_setLeaf (s : Client) (inode : ℕ) (leaf : Leaf FuseReadFilePendingJob) (i : ℕ) :
    (s.setLeaf inode leaf).heldPackets i = if i = inode then (leaf.packets.length : ℤ) else s.heldPackets i := by
  rw [heldPackets, leafs_setLeaf]
  split_ifs <;> rfl

namespace Counted

variable {s t : Client}

def Shifts (s t : Client) (c : CacheCall) : Prop :=
  ∀ i, t.countedPackets i - t.heldPackets i = s.countedPackets i - s.heldPackets i + s.loss i c

lemma addData (h : Counted s) (inode offset size : ℕ) (data : List CachedPacket) :
    Counted (s.addData inode offset size data) ∧
      Shifts s (s.addData inode offset size data) (.addData inode offset size data) := by
  set r := (s.leafs inode).addData s.nextId offset size data with hr
  have hlen := Leaf.length_packets_addData (h.ordered inode) s.nextId offset size data
  rw [← hr] at hlen
  have hcounted (i : ℕ) : (s.addData inode offset size data).countedPackets i =
      s.countedPackets i + if i = inode then (data.length - r.1.length : ℤ) else 0 := tally_add _ _ _ _
  have hheld (i : ℕ) : (s.addData inode offset size data).heldPackets i =
      if i = inode then (r.2.packets.length : ℤ) else s.heldPackets i := s.heldPackets_setLeaf inode r.2 i
  have hshift : Shifts s (s.addData inode offset size data) (.addData inode offset size data) := by
    intro i
    rw [hcounted, hheld, loss]
    split_ifs with hi
    · subst hi
      rw [heldPackets]
      omega
    · simp
  refine ⟨⟨fun i => ?_, h.keys.add _ _, ?_, fun i => ?_⟩, hshift⟩
  · change ((s.setLeaf inode r.2).leafs i).Ordered
    rw [leafs_setLeaf]
    split_ifs
    · exact (h.ordered inode).addData _ _ _ _
    · exact h.ordered i
  · change s.grandTotalCachedPackets + _ = total (add s.cachePerShard inode _)
    rw [total_add h.keys, h.grandTotal]
  · have := hshift i
    have := h.le i
    omega

lemma getFreeData (h : Counted s) {inode : ℕ} (hm : inode ∈ s.cachePerShard.map Prod.fst) {job : WriteFileCacheJob}
    (ht : s.getFreeData inode = some (job, t)) : Counted t ∧ ∀ i, t.countedPackets i - t.heldPackets i =
      s.countedPackets i - s.heldPackets i := by
  obtain ⟨index, -, ht⟩ := Option.map_eq_some_iff.mp ht
  have hlen := Leaf.length_packets_extractBlock (h.ordered inode).keys index
  obtain rfl : (s.setLeaf inode ((s.leafs inode).extractBlock index).2.2).removeCount inode
      ((s.leafs inode).extractBlock index).2.1.length = t := congrArg Prod.snd ht
  set r := (s.leafs inode).extractBlock index with hr
  have hshift (i : ℕ) : ((s.setLeaf inode r.2.2).removeCount inode r.2.1.length).countedPackets i -
      ((s.setLeaf inode r.2.2).removeCount inode r.2.1.length).heldPackets i =
      s.countedPackets i - s.heldPackets i := by
    have hcounted : ((s.setLeaf inode r.2.2).removeCount inode r.2.1.length).countedPackets i =
        s.countedPackets i - if i = inode then (r.2.1.length : ℤ) else 0 := tally_take h.keys hm _ _
    have hheld : ((s.setLeaf inode r.2.2).removeCount inode r.2.1.length).heldPackets i =
        if i = inode then (r.2.2.packets.length : ℤ) else s.heldPackets i := s.heldPackets_setLeaf inode r.2.2 i
    rw [hcounted, hheld]
    split_ifs with hi
    · subst hi
      rw [heldPackets]
      omega
    · simp
  refine ⟨⟨fun i => ?_, h.keys.take _ _, ?_, fun i => ?_⟩, hshift⟩
  · change ((s.setLeaf inode r.2.2).leafs i).Ordered
    rw [leafs_setLeaf]
    split_ifs
    · exact (h.ordered inode).extractBlock index
    · exact h.ordered i
  · change s.grandTotalCachedPackets - _ = total (take s.cachePerShard inode _)
    rw [total_take h.keys hm, h.grandTotal]
  · have := hshift i
    have := h.le i
    omega

lemma invalidateDataCache (h : Counted s) (inode : ℕ) :
    Counted (s.setLeaf inode (s.leafs inode).invalidateDataCache) ∧
      Shifts s (s.setLeaf inode (s.leafs inode).invalidateDataCache) (.invalidateDataCache inode) := by
  have hshift : Shifts s (s.setLeaf inode (s.leafs inode).invalidateDataCache) (.invalidateDataCache inode) := by
    intro i
    rw [heldPackets_setLeaf, loss]
    change s.countedPackets i - _ = _
    split_ifs with hi
    · subst hi
      rw [heldPackets]
      change s.countedPackets i - 0 = _
      omega
    · simp
  refine ⟨⟨fun i => ?_, h.keys, h.grandTotal, fun i => ?_⟩, hshift⟩
  · rw [leafs_setLeaf]
    split_ifs
    · exact ⟨List.nodup_nil, fun _ he => absurd he List.not_mem_nil⟩
    · exact h.ordered i
  · have := hshift i
    have := h.le i
    omega

lemma call (h : Counted s) {c : CacheCall} (ht : s.call c = some t) : Counted t ∧ Shifts s t c := by
  have hsame : Shifts s s (.getFreeData 0 0) := fun i => (add_zero _).symm
  cases c with
  | addData inode offset size data =>
    cases ht
    exact h.addData inode offset size data
  | getFreeData shard inode =>
    rw [Client.call] at ht
    split_ifs at ht with hnil hm
    · cases ht
      exact ⟨h, hsame⟩
    · cases hg : s.getFreeData inode with
      | none =>
        rw [hg] at ht
        cases ht
        exact ⟨h, hsame⟩
      | some r =>
        obtain ⟨job, u⟩ := r
        rw [hg] at ht
        cases ht
        obtain ⟨hc, hshift⟩ := h.getFreeData (List.mem_filter.mp hm).1 hg
        exact ⟨hc, fun i => (hshift i).trans (add_zero _).symm⟩
  | invalidateDataCache inode =>
    cases ht
    exact h.invalidateDataCache inode

lemma create (files : ℕ → RemoteFile) : Counted (Client.create files) :=
  ⟨fun _ => ⟨List.nodup_nil, fun _ he => absurd he List.not_mem_nil⟩, List.nodup_nil, rfl, fun _ => le_rfl⟩

lemma run_iff {calls : List CacheCall} (h : Counted s) (ht : run Client.call s calls = some t) :
    Counted t ∧ (∀ i, s.countedPackets i - s.heldPackets i ≤ t.countedPackets i - t.heldPackets i) ∧
      ((∀ i, t.countedPackets i = t.heldPackets i) ↔
        (∀ i, s.countedPackets i = s.heldPackets i) ∧ Path Client.call Keeps s calls t) := by
  induction calls generalizing s with
  | nil =>
    cases Option.some.inj ht
    exact ⟨h, fun _ => le_rfl, fun hi => ⟨hi, .nil _⟩, fun hi => hi.1⟩
  | cons c calls ih =>
    obtain ⟨u, hu, ht⟩ := run_cons_eq_some.mp ht
    obtain ⟨hcu, hshift⟩ := h.call hu
    obtain ⟨hct, hle, hiff⟩ := ih hcu ht
    have hge (i : ℕ) := h.le i
    refine ⟨hct, fun i => ?_, fun hi => ?_, fun hi => ?_⟩
    · have := hshift i
      have := hle i
      omega
    · obtain ⟨hui, hp⟩ := hiff.mp hi
      have hzero (i : ℕ) : s.countedPackets i = s.heldPackets i ∧ s.loss i c = 0 := by
        have := hshift i
        have := hui i
        have := hge i
        omega
      exact ⟨fun i => (hzero i).1, .cons (keeps_iff.mpr fun i => (hzero i).2) hu hp⟩
    · obtain ⟨hsi, hp⟩ := hi
      cases hp with
      | cons hkeep hu' hp =>
        cases hu.symm.trans hu'
        refine hiff.mpr ⟨fun i => ?_, hp⟩
        have := hshift i
        have := hsi i
        have := keeps_iff.mp hkeep i
        omega

end Counted

lemma Counted.exact_iff {s : Client} (h : Counted s) : s.Exact ↔ ∀ i, s.countedPackets i = s.heldPackets i := by
  refine ⟨fun he => he.inodes, fun hi => ⟨hi, ?_, fun e he => ?_⟩⟩
  · rw [h.grandTotal, total_eq_finsum h.keys]
    exact finsum_congr hi
  · have hcount : s.countedPackets e.1 = e.2 := tally_of_mem h.keys he
    rw [← hcount, hi]
    exact Int.natCast_nonneg _

end Client

theorem counters_exact_iff {files : ℕ → RemoteFile} {calls : List CacheCall} {s : Client}
    (h : run Client.call (Client.create files) calls = some s) :
    s.Exact ↔ Path Client.call Client.Keeps (Client.create files) calls s := by
  obtain ⟨hc, -, hiff⟩ := (Client.Counted.create files).run_iff h
  rw [hc.exact_iff, hiff]
  exact ⟨fun hp => hp.2, fun hp => ⟨fun _ => rfl, hp⟩⟩

def emptyFiles (_ : ℕ) : RemoteFile := ⟨"a.txt", 1, []⟩

theorem counters_exact_iff_evicted : ∃ s,
    run Client.call (Client.create emptyFiles) [.addData 4 0 1 [⟨0, [7], []⟩], .getFreeData 0 4] = some s ∧
    s.Exact := by
  have hsome : (run Client.call (Client.create emptyFiles)
    [.addData 4 0 1 [⟨0, [7], []⟩], .getFreeData 0 4]).isSome = true := rfl
  obtain ⟨s, hs⟩ := Option.isSome_iff_exists.mp hsome
  refine ⟨s, hs, (counters_exact_iff hs).mpr ?_⟩
  obtain ⟨t, ht, hs⟩ := run_cons_eq_some.mp hs
  obtain ⟨u, hu, hs⟩ := run_cons_eq_some.mp hs
  cases Option.some.inj hs
  have hkeep : (Client.create emptyFiles).Keeps (.addData 4 0 1 [⟨0, [7], []⟩]) :=
    Or.inr fun ranges hr => absurd hr (Option.some_ne_none ranges).symm
  exact .cons hkeep ht (.cons trivial hu (.nil _))

theorem invalidated_packet_still_counted : ¬ ∀ (files : ℕ → RemoteFile) (calls : List CacheCall) (s : Client),
    run Client.call (Client.create files) calls = some s → s.Exact := by
  intro h
  have hexact := h emptyFiles [.addData 4 0 1 [⟨0, [7], []⟩], .invalidateDataCache 4] _ rfl
  exact absurd (hexact.inodes 4) (by decide)

end FastTransport.FileCache
