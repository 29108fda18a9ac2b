import FastTransport.FileCache.BlockRuns
import FastTransport.FileCache.DiskInvariant

/-! The cache files of the leaves: a block on disk is the leaf's own where the leaves that are read have
different names, and another leaf's where two of them share one. -/

namespace FastTransport.FileCache

open FileSystem Lib.Bytes Lib.Runs Protocol

def fullBlock (b : UInt8) : List (List UInt8 × List UInt8) :=
  List.replicate 1000 (List.replicate maxPayloadSize b, [])

lemma payloads_receivedPackets (n : ℕ) (data : List (List UInt8 × List UInt8)) :
    payloads (Client.receivedPackets n data) = data.flatMap Prod.fst := by
  have h : data.zipIdx.flatMap (fun e => e.1.1) = (data.zipIdx.map Prod.fst).flatMap Prod.fst :=
    (List.flatMap_map _ _ _).symm
  rw [payloads, Client.receivedPackets, List.flatMap_map, h, List.zipIdx_map_fst]

lemma isCut_of_full {packets : List CachedPacket} (hne : packets ≠ [])
    (h : ∀ p ∈ packets, p.payload.length = maxPayloadSize) : IsCut (payloads packets) packets := by
  have hlast := h _ (List.getLast_mem hne)
  refine ⟨packets.dropLast, packets.getLast hne, (List.dropLast_append_getLast hne).symm,
    fun p hp => h p (List.mem_of_mem_dropLast hp), ?_, hlast.le, rfl⟩
  rw [hlast]
  decide

lemma isCut_fullBlock (n : ℕ) (b : UInt8) :
    IsCut (List.replicate blockSize b) (Client.receivedPackets n (fullBlock b)) := by
  have hbytes : payloads (Client.receivedPackets n (fullBlock b)) = List.replicate blockSize b := by
    rw [payloads_receivedPackets, fullBlock, List.flatMap_def, List.map_replicate, List.flatten_replicate_replicate]
    rfl
  rw [← hbytes]
  refine isCut_of_full (fun hnil => ?_) fun p hp => ?_
  · have hl := congrArg List.length hnil
    rw [receivedPackets_length, fullBlock, List.length_replicate] at hl
    exact absurd hl (by decide)
  · obtain ⟨e, he, rfl⟩ := List.mem_map.mp hp
    have he' : e.1 ∈ fullBlock b := by
      have := List.mem_map_of_mem (f := Prod.fst) he
      rwa [List.zipIdx_map_fst] at this
    rw [List.eq_of_mem_replicate he', List.length_replicate]

lemma blockOf_replicate {m index : ℕ} (b : UInt8) (h : index < m) :
    blockOf (List.replicate (m * blockSize) b) index = List.replicate blockSize b := by
  have hle : index * blockSize + blockSize ≤ m * blockSize := by
    rw [← Nat.succ_mul]
    exact Nat.mul_le_mul_right _ h
  rw [blockOf, slice, List.drop_replicate, List.take_replicate, Nat.min_eq_left (by omega)]

def threeFiles (name : String) (inode : ℕ) : RemoteFile :=
  if inode = 16 then ⟨"other.bin", 1, List.replicate (10 * blockSize) 1⟩
  else if inode = 32 then ⟨"data.bin", 1, List.replicate (1 * blockSize) 1⟩
  else ⟨name, 2, [2]⟩

structure Filled (name : String) (k : ℕ) (s : Client) : Prop where
  path : ∃ as, Path Client.step (fun s a => ReadsIn {16, 32, 224} a ∧ Serves True (threeFiles name) s a)
    (Client.create (threeFiles name)) as s
  quiet : Quiet s
  others : ∀ i, i ≠ 16 → s.leafs i = (Client.create (threeFiles name)).leafs i
  pendingJobs : (s.leafs 16).pendingJobs = []
  holds : (s.leafs 16).HoldsBlocks (threeFiles name 16).content
  pieces : (s.leafs 16).piecesStatus.size = 11
  status : ∀ j, (s.leafs 16).getStatus j = if 10 - k ≤ j ∧ j < 10 then .inCache else .notFound
  keys : (s.leafs 16).data.map Prod.fst = List.range' (10 - k) k
  total : s.grandTotalCachedPackets = 1000 * k

namespace Filled

variable {name : String} {s : Client}

lemma create (name : String) : Filled name 0 (Client.create (threeFiles name)) where
  path := ⟨[], .nil _⟩
  quiet := ⟨rfl, rfl, rfl, rfl, rfl⟩
  others _ _ := rfl
  pendingJobs := rfl
  holds := ⟨rfl, fun _ he => absurd he List.not_mem_nil⟩
  pieces := by
    change (PiecesStatus.create _).size = 11
    rw [PiecesStatus.size_create]
    simp only [threeFiles, if_true, List.length_replicate, Nat.mul_div_cancel _ blockSize_pos]
  status j := by
    rw [if_neg (by omega)]
    exact Leaf.getStatus_create _ _ _ _
  keys := rfl
  total := rfl

lemma length_fullBlock (b : UInt8) : (fullBlock b).length = 1000 := List.length_replicate

lemma fetchable {k : ℕ} (h : Filled name k s) (hk : k < 10) {t : Client} (hq : Quiet t)
    (hl : t.leafs 16 = s.leafs 16) : Fetchable (threeFiles name) t 16 (9 - k) (fullBlock 1) where
  quiet := hq
  pendingJobs := hl ▸ h.pendingJobs
  holds := hl ▸ h.holds
  lt := by
    change (9 - k) * blockSize < (List.replicate (10 * blockSize) 1).length
    rw [List.length_replicate]
    exact Nat.mul_lt_mul_of_pos_right (by omega) blockSize_pos
  status := by
    rw [hl, h.status, if_neg (by omega)]
  findBlock := by
    rw [hl]
    refine List.lookup_eq_none_iff.mpr fun e he => ?_
    have hmem := List.mem_map_of_mem (f := Prod.fst) he
    rw [h.keys, List.mem_range'_1] at hmem
    exact bne_iff_ne.mpr (by omega)
  next j hj := by
    rw [hl, h.status, h.holds.size]
    by_cases hj' : j < 10
    · left
      rw [if_pos (by omega)]
      exact PieceStatus.noConfusion
    · right
      change (List.replicate (10 * blockSize) 1).length ≤ j * blockSize
      rw [List.length_replicate]
      exact Nat.mul_le_mul_right _ (by omega)
  data := by
    change IsCut (blockOf (List.replicate (10 * blockSize) 1) (9 - k)) _
    rw [blockOf_replicate 1 (by omega)]
    exact isCut_fullBlock _ _

lemma succ {k : ℕ} (h : Filled name k s) (hk : k < 10) : ∃ t, Filled name (k + 1) t := by
  have htotal : s.grandTotalCachedPackets + (fullBlock 1).length ≤ maxCachePackets := by
    rw [h.total, length_fullBlock, maxCachePackets]
    omega
  have hfetch := h.fetchable hk h.quiet rfl
  obtain ⟨as, result, hp⟩ := @Fetchable.deliver {16, 32, 224} _ _ _ _ _ hfetch (by simp) 0 htotal
  obtain ⟨bs, hb⟩ := h.path
  have hleaf : ((arrived s 16 (9 - k) (fullBlock 1)).reply (blockRead 0 16 (9 - k)) result).leafs 16 =
      arrivedLeaf s 16 (9 - k) (fullBlock 1) := leafs_arrived s 16 (9 - k) (fullBlock 1)
  refine ⟨_, ⟨bs ++ as, hb.append hp⟩, ?_, fun i hi => ?_, ?_, ?_, ?_, fun j => ?_, ?_, ?_⟩
  · exact ⟨h.quiet.cacheTreeQueue, h.quiet.diskQueue, h.quiet.mainQueue, h.quiet.requests, h.quiet.responses⟩
  · rw [← h.others i hi]
    exact Function.update_of_ne hi _ _
  · rw [hleaf]
    exact h.pendingJobs
  · rw [hleaf]
    exact hfetch.arrivedHolds
  · rw [hleaf]
    exact (PiecesStatus.size_setStatus _ _ _).trans h.pieces
  · have hlt : 9 - k < ((s.leafs 16).insertBlock (9 - k)
        [Range.create (s.nextId + (fullBlock 1).length) ((9 - k) * blockSize)
          (ApplyBlockCacheJob.readed ⟨⟨none, 16, blockSize, (9 - k) * blockSize, 0⟩,
            Client.receivedPackets s.nextId (fullBlock 1)⟩)
          (Client.receivedPackets s.nextId (fullBlock 1))]).piecesStatus.size := by
      change _ < (s.leafs 16).piecesStatus.size
      rw [h.pieces]
      omega
    rw [hleaf, arrivedLeaf, Leaf.getStatus_setStatus _ _ hlt]
    change (if j = 9 - k then _ else (s.leafs 16).getStatus j) = _
    rw [h.status]
    split_ifs <;> first | rfl | omega
  · rw [hleaf]
    change (9 - k) :: (s.leafs 16).data.map Prod.fst = _
    rw [h.keys, show 10 - (k + 1) = 9 - k by omega, List.range'_succ, show 9 - k + 1 = 10 - k by omega]
  · change s.grandTotalCachedPackets + (fullBlock 1).length = _
    rw [h.total, length_fullBlock]
    push_cast
    ring

lemma filled (name : String) {k : ℕ} (hk : k ≤ 10) : ∃ s, Filled name k s := by
  induction k with
  | zero => exact ⟨_, create name⟩
  | succ k ih =>
    obtain ⟨s, hs⟩ := ih (by omega)
    exact hs.succ (by omega)

end Filled

lemma fetchable_untouched {files : ℕ → RemoteFile} {s : Client} {inode : ℕ} {data : List (List UInt8 × List UInt8)}
    (hq : Quiet s) (hl : s.leafs inode = (Client.create files).leafs inode) (hpos : 0 < (files inode).content.length)
    (hle : (files inode).content.length ≤ blockSize)
    (hd : IsCut (files inode).content (Client.receivedPackets s.nextId data)) : Fetchable files s inode 0 data := by
  refine ⟨hq, ?_, ?_, ?_, ?_, ?_, fun j hj => Or.inr ?_, ?_⟩
  · rw [hl]
    rfl
  · rw [hl]
    exact ⟨rfl, fun _ he => absurd he List.not_mem_nil⟩
  · rwa [Nat.zero_mul]
  · rw [hl]
    exact Leaf.getStatus_create _ _ _ _
  · rw [hl]
    rfl
  · rw [hl]
    exact hle.trans (Nat.le_mul_of_pos_left _ hj)
  · rwa [blockOf, Nat.zero_mul, slice, List.drop_zero, List.take_of_length_le hle]

structure Paired (name : String) (u s : Client) : Prop where
  path : ∃ as, Path Client.step (fun s a => ReadsIn {16, 32, 224} a ∧ Serves True (threeFiles name) s a)
    (Client.create (threeFiles name)) as s
  quiet : Quiet s
  first : s.leafs 16 = u.leafs 16
  second : s.leafs 32 = arrivedLeaf u 32 0 (fullBlock 1)
  third : s.leafs 224 = (Client.create (threeFiles name)).leafs 224
  total : s.grandTotalCachedPackets = 10000
  table : 32 ∈ s.cachePerShard.map Prod.fst

structure Stored (name : String) (u s : Client) : Prop where
  path : ∃ as, Path Client.step (fun s a => ReadsIn {16, 32, 224} a ∧ Serves True (threeFiles name) s a)
    (Client.create (threeFiles name)) as s
  quiet : Quiet s
  first : s.leafs 16 = u.leafs 16
  ownName : (s.leafs 32).name = "data.bin"
  onDisk : (s.leafs 32).getStatus 0 = .onDisk
  third : ∃ id id', s.leafs 224 = (((Client.create (threeFiles name)).leafs 224).insertBlock 0
    [Range.create id' 0 1 [⟨id, [2], []⟩]]).setStatus 0 .inCache
  total : s.grandTotalCachedPackets = 9001
  table : 224 ∈ s.cachePerShard.map Prod.fst

lemma Client.mem_removeCount {s : Client} {inode : ℕ} {extracted : ℤ} {i : ℕ} (hne : i ≠ inode)
    (h : i ∈ s.cachePerShard.map Prod.fst) : i ∈ (s.removeCount inode extracted).cachePerShard.map Prod.fst := by
  obtain ⟨e, he, rfl⟩ := List.mem_map.mp h
  refine List.mem_map.mpr ⟨e, List.mem_filter.mpr ⟨?_, by simp [hne]⟩, rfl⟩
  exact List.mem_map.mpr ⟨e, he, if_neg hne⟩

lemma Filled.paired {name : String} {u : Client} (h : Filled name 9 u) : ∃ s, Paired name u s := by
  have hlength : (List.replicate (1 * blockSize) (1 : UInt8)).length = blockSize := by
    rw [List.length_replicate, Nat.one_mul]
  have hfetch : Fetchable (threeFiles name) u 32 0 (fullBlock 1) := by
    refine fetchable_untouched h.quiet (h.others 32 (by decide)) ?_ ?_ ?_
    · exact hlength.symm ▸ blockSize_pos
    · exact hlength.le
    · change IsCut (List.replicate (1 * blockSize) 1) _
      rw [Nat.one_mul]
      exact isCut_fullBlock _ _
  have htotal : u.grandTotalCachedPackets + (fullBlock 1).length ≤ maxCachePackets := by
    rw [h.total, Filled.length_fullBlock]
    decide
  obtain ⟨as, result, hp⟩ := @Fetchable.deliver {16, 32, 224} _ _ _ _ _ hfetch (by simp) 1 htotal
  obtain ⟨bs, hb⟩ := h.path
  refine ⟨_, ⟨bs ++ as, hb.append hp⟩, ?_, ?_, ?_, ?_, ?_, ?_⟩
  · exact ⟨h.quiet.cacheTreeQueue, h.quiet.diskQueue, h.quiet.mainQueue, h.quiet.requests, h.quiet.responses⟩
  · exact Function.update_of_ne (show 16 ≠ 32 by decide) (arrivedLeaf u 32 0 (fullBlock 1)) u.leafs
  · exact leafs_arrived u 32 0 (fullBlock 1)
  · rw [← h.others 224 (by decide)]
    exact Function.update_of_ne (show 224 ≠ 32 by decide) (arrivedLeaf u 32 0 (fullBlock 1)) u.leafs
  · change u.grandTotalCachedPackets + (fullBlock 1).length = _
    rw [h.total, Filled.length_fullBlock]
    rfl
  · exact Client.mem_addCount.mpr (Or.inr rfl)

lemma Paired.stored {name : String} {u s : Client} (hu : Filled name 9 u) (h : Paired name u s) :
    ∃ t, Stored name u t := by
  have hcut : IsCut [2] (Client.receivedPackets s.nextId [([2], [])]) :=
    ⟨[], ⟨s.nextId, [2], []⟩, rfl, fun _ hp => absurd hp List.not_mem_nil, Nat.one_pos,
      (by decide : 1 ≤ maxPayloadSize), rfl⟩
  have hfetch : Fetchable (threeFiles name) s 224 0 [([2], [])] :=
    fetchable_untouched h.quiet h.third Nat.one_pos blockSize_pos hcut
  set range := Range.create (u.nextId + (fullBlock 1).length) (0 * blockSize)
    (ApplyBlockCacheJob.readed ⟨⟨none, 32, blockSize, 0 * blockSize, 0⟩, Client.receivedPackets u.nextId (fullBlock 1)⟩)
      (Client.receivedPackets u.nextId (fullBlock 1)) with hrange
  have hfirst : (s.leafs 32).getFirstBlockIndex = some 0 := by
    rw [h.second, arrivedLeaf, hu.others 32 (by decide)]
    rfl
  have hfind : (s.leafs 32).findBlock 0 = some [range] := by
    rw [h.second, arrivedLeaf, Leaf.findBlock_setStatus, Leaf.findBlock_insertBlock, if_pos rfl]
  have hpackets : ([range].flatMap Range.packets).length = 1000 := by
    rw [List.flatMap_singleton]
    exact (receivedPackets_length _ _).trans (Filled.length_fullBlock 1)
  have hnil : [range].flatMap Range.packets ≠ [] := fun hn => by
    rw [hn] at hpackets
    exact absurd hpackets (by decide)
  have htotal : maxCachePackets < s.grandTotalCachedPackets + ([([2], [])] : List (List UInt8 × List UInt8)).length := by
    rw [h.total]
    decide
  have hrest : s.grandTotalCachedPackets + ([([2], [])] : List (List UInt8 × List UInt8)).length -
      ([range].flatMap Range.packets).length ≤ maxCachePackets := by
    rw [h.total, hpackets]
    decide
  obtain ⟨as, result, hp⟩ := @Fetchable.deliver_evict {16, 32, 224} _ _ _ _ _ hfetch (by simp) 2 32 0 _ (by decide) rfl
    h.table hfirst hfind hnil htotal hrest
  obtain ⟨bs, hb⟩ := h.path
  have hleafs := leafs_evicted s 0 0 ([range].flatMap Range.packets).length [([2], [])] [range] (blockRead 2 224 0) result
    (show 32 ≠ 224 by decide)
  refine ⟨_, ⟨bs ++ as, hb.append hp⟩, ?_, ?_, ?_, ?_, ?_, ?_, ?_⟩
  · exact ⟨h.quiet.cacheTreeQueue, h.quiet.diskQueue, h.quiet.mainQueue, h.quiet.requests, h.quiet.responses⟩
  · rw [hleafs 16, if_neg (by decide), if_neg (by decide), h.first]
  · rw [hleafs 32, if_pos rfl, h.second, arrivedLeaf, hu.others 32 (by decide)]
    rfl
  · have hlt : 0 < (((s.leafs 32).eraseBlock 0).setStatus 0 .notFound).piecesStatus.size := by
      rw [Leaf.setStatus, PiecesStatus.size_setStatus]
      change 0 < (s.leafs 32).piecesStatus.size
      rw [h.second, arrivedLeaf, hu.others 32 (by decide), Leaf.setStatus, PiecesStatus.size_setStatus]
      exact (PiecesStatus.size_create _).symm ▸ Nat.succ_pos _
    have hzero : (([range].head?.map Range.offset).getD 0) / blockSize = 0 := by
      rw [List.head?_cons, Option.map_some, Option.getD_some, hrange]
      exact (congrArg (· / blockSize) (Nat.zero_mul blockSize)).trans (Nat.zero_div _)
    rw [hleafs 32, if_pos rfl, hzero, Leaf.getStatus_setStatus _ _ hlt, if_pos rfl]
  · rw [hleafs 224, if_neg (by decide), if_pos rfl, arrivedLeaf, h.third]
    exact ⟨s.nextId, s.nextId + 1, by rw [Nat.zero_mul]; rfl⟩
  · change s.grandTotalCachedPackets + ([([2], [])] : List (List UInt8 × List UInt8)).length -
      ([range].flatMap Range.packets).length = _
    rw [h.total, hpackets]
    rfl
  · exact Client.mem_removeCount (by decide) (Client.mem_addCount.mpr (Or.inr rfl))

theorem onDisk_block_agrees {A : Set ℕ} {files : ℕ → RemoteFile} (hinj : Set.InjOn (fun i => (files i).name) A)
    {as : List Action} {s : Client}
    (h : Path Client.step (fun s a => ReadsIn A a ∧ Serves False files s a) (Client.create files) as s)
    {inode : ℕ} (hi : inode ∈ A) {index : ℕ} (ho : (s.leafs inode).getStatus index = .onDisk) :
    AgreeOn (s.disk (s.leafs inode).getCachePath) (files inode).content (index * blockSize) blockSize := by
  have hinv := clientInv_of_path hinj h
  rw [Leaf.getCachePath, (hinv.block.leafs inode).name]
  exact hinv.disk.onDisk inode hi index ho

lemma serves_of_short {files : ℕ → RemoteFile} {s : Client} {a : Action} (h : Serves True files s a) :
    Serves False files s a := by
  cases a with
  | read q => exact fun hf => hf.elim
  | _ => exact h

theorem onDisk_block_agrees_evicted : ∃ as s,
    Path Client.step (fun s a => ReadsIn {16, 32, 224} a ∧ Serves False (threeFiles "b.bin") s a)
      (Client.create (threeFiles "b.bin")) as s ∧ (s.leafs 32).getStatus 0 = .onDisk ∧
    AgreeOn (s.disk (s.leafs 32).getCachePath) (threeFiles "b.bin" 32).content (0 * blockSize) blockSize := by
  obtain ⟨u, hu⟩ := Filled.filled "b.bin" (show 9 ≤ 10 by decide)
  obtain ⟨v, hv⟩ := hu.paired
  obtain ⟨s, hs⟩ := hv.stored hu
  obtain ⟨as, hp⟩ := hs.path
  have hp' := hp.mono fun s a h => And.imp_right serves_of_short h
  have hinj : Set.InjOn (fun i => (threeFiles "b.bin" i).name) {16, 32, 224} := by
    intro i hi j hj hij
    simp only [Set.mem_insert_iff, Set.mem_singleton_iff] at hi hj
    rcases hi with rfl | rfl | rfl <;> rcases hj with rfl | rfl | rfl <;> simp [threeFiles] at hij ⊢
  exact ⟨as, s, hp', hs.onDisk, onDisk_block_agrees hinj hp' (by simp) hs.onDisk⟩

lemma Stored.overwritten {u s : Client} (hu : Filled "data.bin" 9 u) (h : Stored "data.bin" u s) :
    ∃ as t, Path Client.step (fun s a => ReadsIn {16, 32, 224} a ∧ Serves True (threeFiles "data.bin") s a) s as t ∧
      (t.leafs 32).name = "data.bin" ∧ (t.leafs 32).getStatus 0 = .onDisk ∧ (t.disk "data.bin")[0]? = some 2 := by
  obtain ⟨id, id', hthird⟩ := h.third
  have hfetch : Fetchable (threeFiles "data.bin") s 16 0 (fullBlock 1) := hu.fetchable (by decide) h.quiet h.first
  have hlength := Filled.length_fullBlock 1
  have hfirst : (s.leafs 224).getFirstBlockIndex = some 0 := by
    rw [hthird]
    rfl
  have hfind : (s.leafs 224).findBlock 0 = some [Range.create id' 0 1 [⟨id, [2], []⟩]] := by
    rw [hthird]
    rfl
  have htotal : maxCachePackets < s.grandTotalCachedPackets + (fullBlock 1).length := by
    rw [h.total, hlength]
    decide
  have hrest : s.grandTotalCachedPackets + (fullBlock 1).length -
      ([Range.create id' 0 1 [⟨id, [2], []⟩]].flatMap Range.packets).length ≤ maxCachePackets := by
    rw [h.total, hlength]
    exact (by decide : (9001 + (1000 : ℕ) - (1 : ℕ) : ℤ) ≤ maxCachePackets)
  obtain ⟨as, result, hp⟩ := @Fetchable.deliver_evict {16, 32, 224} _ _ _ _ _ hfetch (by simp) 3 224 0 _ (by decide) rfl
    h.table hfirst hfind (List.cons_ne_nil _ _) htotal hrest
  have hleafs := leafs_evicted s 0 0 1 (fullBlock 1) [Range.create id' 0 1 [⟨id, [2], []⟩]] (blockRead 3 16 0) result
    (show 224 ≠ 16 by decide)
  have hname : (s.leafs 224).name = "data.bin" := by
    rw [hthird]
    rfl
  have hsize : (s.leafs 224).size = 1 := by
    rw [hthird]
    rfl
  have hdisk := disk_evicted s 0 0 1 (fullBlock 1) [Range.create id' 0 1 [⟨id, [2], []⟩]] (blockRead 3 16 0) result
    (show 224 ≠ 16 by decide)
  refine ⟨as, _, hp, ?_, ?_, ?_⟩
  · exact (congrArg Leaf.name (hleafs 32)).trans h.ownName
  · exact (congrArg (fun leaf => Leaf.getStatus leaf 0) (hleafs 32)).trans h.onDisk
  · rw [hname, hsize, Nat.zero_mul, Nat.sub_zero, Nat.min_eq_right blockSize_pos] at hdisk
    refine (congrArg (fun file : List UInt8 => file[0]?) hdisk).trans ?_
    simp [getElem?_writeAt, Range.create, writtenBytes]

theorem shared_name_overwrites_block : ¬ ∀ (files : ℕ → RemoteFile) (as : List Action) (s : Client),
    Path Client.step (Serves True files) (Client.create files) as s →
    ∀ inode index, (s.leafs inode).getStatus index = .onDisk →
      AgreeOn (s.disk (s.leafs inode).getCachePath) (files inode).content (index * blockSize) blockSize := by
  intro h
  obtain ⟨u, hu⟩ := Filled.filled "data.bin" (show 9 ≤ 10 by decide)
  obtain ⟨v, hv⟩ := hu.paired
  obtain ⟨s, hs⟩ := hv.stored hu
  obtain ⟨as, hp⟩ := hs.path
  obtain ⟨bs, t, hq, hname, honDisk, hbyte⟩ := hs.overwritten hu
  have hpath := (hp.append hq).mono fun s a h => h.2
  have hagree := h _ _ t hpath 32 0 honDisk
  rw [Leaf.getCachePath, hname, Nat.zero_mul] at hagree
  have hcontent : (threeFiles "data.bin" 32).content[0]? = some 1 := by
    change (List.replicate (1 * blockSize) 1)[0]? = some 1
    rw [List.getElem?_replicate, if_pos (Nat.mul_pos Nat.one_pos blockSize_pos)]
  have hlt : 0 < (threeFiles "data.bin" 32).content.length := (List.getElem?_eq_some_iff.mp hcontent).1
  have heq := hagree 0 le_rfl (by rw [Nat.zero_add]; exact blockSize_pos) hlt
  rw [hbyte, hcontent] at heq
  exact absurd heq (by decide)

end FastTransport.FileCache
