import FastTransport.FileCache.Outcome
import FastTransport.Lib.Lists

/-! The status of the blocks against the requests on their way: a block is requested at most once at a time,
a block on its way is not in memory, and without failed responses nothing waits for a block that is not on
its way. -/

namespace FastTransport.FileCache

open FileSystem Lib.Runs Lib.Lists

namespace ReadRequest

def index (r : ReadRequest) : ℕ := r.offset / blockSize

def key (r : ReadRequest) : ℕ × ℕ := (r.inode, r.index)

structure IsBlock (r : ReadRequest) : Prop where
  request : r.request = none
  size : r.size = blockSize
  skipped : r.skipped = 0
  offset : r.offset = r.index * blockSize

end ReadRequest

structure LeafInv (file : RemoteFile) (inode : ℕ) (leaf : Leaf FuseReadFilePendingJob) : Prop where
  name : leaf.name = file.name
  size : leaf.size = file.content.length
  pieces : leaf.piecesStatus.size = leaf.size / blockSize + 1
  keys : leaf.KeysNodup
  pendings : ∀ e ∈ leaf.pendingJobs, e.2.inode = inode
  cached : ∀ e ∈ leaf.data, e.1 * blockSize < leaf.size ∧ leaf.getStatus e.1 ≠ .notFound

namespace LeafInv

variable {file : RemoteFile} {inode : ℕ} {leaf : Leaf FuseReadFilePendingJob}

lemma lt_pieces (h : LeafInv file inode leaf) {index : ℕ} (hi : index * blockSize < leaf.size) :
    index < leaf.piecesStatus.size := by
  rw [h.pieces]
  exact Nat.lt_succ_of_le ((Nat.le_div_iff_mul_le blockSize_pos).mpr hi.le)

lemma create (file : RemoteFile) (inode : ℕ) :
    LeafInv file inode (.create file.name file.parent file.content.length) :=
  ⟨rfl, rfl, PiecesStatus.size_create _, List.nodup_nil, fun _ he => absurd he List.not_mem_nil,
    fun _ he => absurd he List.not_mem_nil⟩

lemma setStatus (h : LeafInv file inode leaf) (index : ℕ) {status : PieceStatus} (hs : status ≠ .notFound) :
    LeafInv file inode (leaf.setStatus index status) := by
  refine ⟨h.name, h.size, (PiecesStatus.size_setStatus _ _ _).trans h.pieces, h.keys, h.pendings, fun e he => ?_⟩
  refine ⟨(h.cached e he).1, ?_⟩
  rcases leaf.getStatus_setStatus_cases index status e.1 with hc | hc
  · rwa [hc]
  · rw [hc]
    exact (h.cached e he).2

lemma mapRanges (h : LeafInv file inode leaf) (f : Range → Range) : LeafInv file inode (leaf.mapRanges f) := by
  refine ⟨h.name, h.size, h.pieces, h.keys.mapRanges f, h.pendings, fun e he => ?_⟩
  obtain ⟨e', he', rfl⟩ := List.mem_map.mp he
  exact h.cached e' he'

lemma addPendingJob (h : LeafInv file inode leaf) (index : ℕ) {job : FuseReadFilePendingJob}
    (hj : job.inode = inode) : LeafInv file inode (leaf.addPendingJob index job) := by
  refine ⟨h.name, h.size, h.pieces, h.keys, fun e he => ?_, h.cached⟩
  rcases List.mem_append.mp he with he | he
  · exact h.pendings e he
  · rw [List.mem_singleton.mp he]
    exact hj

lemma takePendingJobs (h : LeafInv file inode leaf) (index : ℕ) :
    LeafInv file inode (leaf.takePendingJobs index).2 :=
  ⟨h.name, h.size, h.pieces, h.keys, fun e he => h.pendings e (List.mem_of_mem_filter he), h.cached⟩

lemma insertBlock (h : LeafInv file inode leaf) {index : ℕ} (ranges : List Range)
    (hi : index * blockSize < leaf.size) (hn : leaf.findBlock index = none) :
    LeafInv file inode ((leaf.insertBlock index ranges).setStatus index .inCache) := by
  refine ⟨h.name, h.size, (PiecesStatus.size_setStatus _ _ _).trans h.pieces, h.keys.insertBlock ranges hn,
    h.pendings, fun e he => ?_⟩
  rcases List.mem_cons.mp he with rfl | he
  · have hp : index < (leaf.insertBlock index ranges).piecesStatus.size := h.lt_pieces hi
    refine ⟨hi, ?_⟩
    rw [Leaf.getStatus_setStatus _ _ hp, if_pos rfl]
    exact PieceStatus.noConfusion
  · exact (h.setStatus index PieceStatus.noConfusion).cached e he

lemma eraseBlock (h : LeafInv file inode leaf) {index : ℕ} (hi : index * blockSize < leaf.size) :
    LeafInv file inode ((leaf.eraseBlock index).setStatus index .notFound) := by
  refine ⟨h.name, h.size, (PiecesStatus.size_setStatus _ _ _).trans h.pieces, h.keys.eraseBlock index,
    h.pendings, fun e he => ?_⟩
  obtain ⟨he, hne⟩ := List.mem_filter.mp he
  have hp : index < (leaf.eraseBlock index).piecesStatus.size := h.lt_pieces hi
  refine ⟨(h.cached e he).1, ?_⟩
  rw [Leaf.getStatus_setStatus _ _ hp, if_neg (by simpa using hne)]
  exact (h.cached e he).2

end LeafInv

structure BlockInv (A : Set ℕ) (files : ℕ → RemoteFile) (s : Client) : Prop where
  leafs : ∀ i, LeafInv (files i) i (s.leafs i)
  jobs : ∀ job ∈ s.cacheTreeQueue, job.inode ∈ A
  table : ∀ e ∈ s.cachePerShard, e.1 ∈ A
  requests : ∀ r ∈ s.outstanding, r.inode ∈ A ∧ r.IsBlock ∧ r.offset < (files r.inode).content.length ∧
    (s.leafs r.inode).findBlock r.index = none ∧ (s.leafs r.inode).getStatus r.index ≠ .notFound
  nodup : (s.outstanding.map ReadRequest.key).Nodup

namespace BlockInv

variable {A : Set ℕ} {files : ℕ → RemoteFile} {s : Client}

lemma create (A : Set ℕ) (files : ℕ → RemoteFile) : BlockInv A files (Client.create files) :=
  ⟨fun i => LeafInv.create (files i) i, fun _ h => absurd h List.not_mem_nil,
    fun _ h => absurd h List.not_mem_nil, fun _ h => absurd h List.not_mem_nil, List.nodup_nil⟩

lemma setLeaf (h : BlockInv A files s) {inode : ℕ} {leaf : Leaf FuseReadFilePendingJob}
    (hl : LeafInv (files inode) inode leaf)
    (hr : ∀ r ∈ s.outstanding, r.inode = inode →
      leaf.findBlock r.index = none ∧ leaf.getStatus r.index ≠ .notFound) :
    BlockInv A files (s.setLeaf inode leaf) := by
  refine ⟨fun i => ?_, h.jobs, h.table, fun r hm => ?_, h.nodup⟩
  · rw [Client.leafs_setLeaf]
    split_ifs with hi
    · rwa [hi]
    · exact h.leafs i
  · obtain ⟨hA, hb, ho, hf, hs⟩ := h.requests r hm
    refine ⟨hA, hb, ho, ?_⟩
    rw [Client.leafs_setLeaf]
    split_ifs with hi
    · exact hr r hm hi
    · exact ⟨hf, hs⟩

lemma of_subperm (h : BlockInv A files s) {t : Client} (hl : t.leafs = s.leafs)
    (hj : ∀ job ∈ t.cacheTreeQueue, job.inode ∈ A) (ht : t.cachePerShard = s.cachePerShard)
    (ho : t.outstanding.Subperm s.outstanding) : BlockInv A files t := by
  refine ⟨fun i => hl ▸ h.leafs i, hj, ht ▸ h.table, fun r hr => ?_, ?_⟩
  · rw [hl]
    exact h.requests r (ho.subset hr)
  · obtain ⟨l, hp, hsub⟩ := ho
    exact (hp.map ReadRequest.key).nodup_iff.mp (h.nodup.sublist (hsub.map _))

lemma reply (h : BlockInv A files s) (request : FuseRequest) (result : ReadResult) :
    BlockInv A files (s.reply request result) := ⟨h.leafs, h.jobs, h.table, h.requests, h.nodup⟩

lemma withFileCache (h : BlockInv A files s) (c : FileSystem.FileCache) :
    BlockInv A files { s with fileCache := c } := ⟨h.leafs, h.jobs, h.table, h.requests, h.nodup⟩

lemma mapRanges (h : BlockInv A files s) (inode : ℕ) (f : Range → Range) :
    BlockInv A files (s.setLeaf inode ((s.leafs inode).mapRanges f)) := by
  refine h.setLeaf ((h.leafs inode).mapRanges f) fun r hr hi => ?_
  obtain ⟨-, -, -, hf, hs⟩ := h.requests r hr
  subst hi
  exact ⟨by rw [Leaf.findBlock_mapRanges, hf]; rfl, hs⟩

lemma addPendingJob (h : BlockInv A files s) (job : FuseReadFileJob) (index : ℕ) :
    BlockInv A files (FuseReadFileJob.addPendingJob s job index) := by
  refine h.setLeaf ((h.leafs job.inode).addPendingJob index rfl) fun r hr hi => ?_
  obtain ⟨-, -, -, hf, hs⟩ := h.requests r hr
  rw [hi] at hf hs
  exact ⟨hf, hs⟩

lemma scheduleCacheTreeJob (h : BlockInv A files s) {job : CacheTreeJob} (hA : job.inode ∈ A)
    (hr : job.request? = none) : BlockInv A files (s.scheduleCacheTreeJob job) := by
  refine h.of_subperm rfl (fun j hj => ?_) rfl ?_
  · rcases List.mem_append.mp hj with hj | hj
    · exact h.jobs j hj
    · rwa [List.mem_singleton.mp hj]
  · simp only [Client.outstanding, Client.scheduleCacheTreeJob, List.filterMap_append,
      List.filterMap_cons, List.filterMap_nil, hr, List.append_nil]
    exact List.Subperm.refl _

lemma scheduleDiskJob (h : BlockInv A files s) (job : DiskJob) : BlockInv A files (s.scheduleDiskJob job) :=
  have h' : BlockInv A files (s.pinRanges job.inode job.buffer.pin) := h.mapRanges _ _
  ⟨h'.leafs, h'.jobs, h'.table, h'.requests, h'.nodup⟩

lemma outstanding_requestBlock (s : Client) (inode index : ℕ) :
    (s.requestBlock inode index).outstanding.Perm
      (⟨none, inode, blockSize, index * blockSize, 0⟩ :: s.outstanding) := by
  simp only [Client.outstanding, Client.requestBlock, Client.requestReadFile, Client.setLeaf,
    List.append_assoc, List.singleton_append]
  exact List.perm_middle

lemma requestBlock (h : BlockInv A files s) {inode index : ℕ} (hA : inode ∈ A)
    (hs : (s.leafs inode).getStatus index = .notFound) (hi : index * blockSize < (s.leafs inode).size) :
    BlockInv A files (s.requestBlock inode index) := by
  have hindex : index * blockSize / blockSize = index := Nat.mul_div_cancel _ blockSize_pos
  have hf : (s.leafs inode).findBlock index = none := by
    cases hf : (s.leafs inode).findBlock index with
    | none => rfl
    | some ranges => exact absurd hs ((h.leafs inode).cached _ (Leaf.mem_of_findBlock hf)).2
  have hset : BlockInv A files (s.setLeaf inode ((s.leafs inode).setStatus index .inFlight)) := by
    refine h.setLeaf ((h.leafs inode).setStatus index PieceStatus.noConfusion) fun r hr hri => ?_
    obtain ⟨-, -, -, hrf, hrs⟩ := h.requests r hr
    rw [hri] at hrf hrs
    refine ⟨hrf, ?_⟩
    rcases (s.leafs inode).getStatus_setStatus_cases index .inFlight r.index with hc | hc
    · rw [hc]
      exact PieceStatus.noConfusion
    · rwa [hc]
  have hp := outstanding_requestBlock s inode index
  refine ⟨hset.leafs, hset.jobs, hset.table, fun r hr => ?_, ?_⟩
  · rcases List.mem_cons.mp (hp.subset hr) with rfl | hr
    · refine ⟨hA, ⟨rfl, rfl, rfl, ?_⟩, ?_, ?_⟩
      · simp only [ReadRequest.index, hindex]
      · rwa [← (h.leafs inode).size]
      · simp only [ReadRequest.index, hindex, Client.requestBlock, Client.requestReadFile,
          Client.leafs_setLeaf, if_pos, Leaf.findBlock_setStatus]
        refine ⟨hf, ?_⟩
        rw [Leaf.getStatus_setStatus _ _ ((h.leafs inode).lt_pieces hi), if_pos rfl]
        exact PieceStatus.noConfusion
    · exact hset.requests r hr
  · rw [(hp.map ReadRequest.key).nodup_iff, List.map_cons, List.nodup_cons]
    refine ⟨fun hm => ?_, h.nodup⟩
    obtain ⟨r, hr, hk⟩ := List.mem_map.mp hm
    obtain ⟨-, -, -, -, hrs⟩ := h.requests r hr
    simp only [ReadRequest.key, ReadRequest.index, hindex, Prod.mk.injEq] at hk
    rw [ReadRequest.index, hk.1, hk.2] at hrs
    exact hrs hs

lemma outcome (h : BlockInv A files s) {job : FuseReadFileJob} (hA : job.inode ∈ A) {t : Client}
    (ho : job.Outcome s t) : BlockInv A files t := by
  have hfetch : ∀ s index, BlockInv A files s → (s.leafs job.inode).getStatus index = .notFound →
      index * blockSize < (s.leafs job.inode).size → BlockInv A files (s.requestBlock job.inode index) :=
    fun s index h hs hi => h.requestBlock hA hs hi
  cases ho with
  | error => exact h.reply _ _
  | unwind pins _ => exact BlockInv.reply (h.mapRanges _ _) _ _
  | again => exact h.scheduleCacheTreeJob hA rfl
  | park index _ => exact h.addPendingJob job index
  | fetch index n hs hi =>
    exact Client.prefetchLoop_induct hfetch _ _ ((hfetch s index h hs hi).addPendingJob job index)
  | append => exact h.scheduleDiskJob _
  | disk => exact h.scheduleDiskJob _
  | prefixed => exact h.scheduleDiskJob _
  | data => exact (Client.prefetchLoop_induct hfetch _ _ h).reply _ _

lemma addCount (h : BlockInv A files s) {inode : ℕ} (hA : inode ∈ A) (added : ℤ) :
    BlockInv A files (s.addCount inode added) := by
  refine ⟨h.leafs, h.jobs, fun e he => ?_, h.requests, h.nodup⟩
  simp only [Client.addCount] at he
  cases hl : s.cachePerShard.lookup inode with
  | none =>
    rw [hl] at he
    rcases List.mem_append.mp he with he | he
    · exact h.table e he
    · rwa [List.mem_singleton.mp he]
  | some n =>
    rw [hl] at he
    obtain ⟨e', he', rfl⟩ := List.mem_map.mp he
    split_ifs <;> exact h.table e' he'

lemma removeCount (h : BlockInv A files s) (inode : ℕ) (extracted : ℤ) :
    BlockInv A files (s.removeCount inode extracted) := by
  refine ⟨h.leafs, h.jobs, fun e he => ?_, h.requests, h.nodup⟩
  obtain ⟨e', he', rfl⟩ := List.mem_map.mp (List.mem_of_mem_filter he)
  split_ifs <;> exact h.table e' he'

lemma leafs_addData {inode offset : ℕ} (size : ℕ) (data : List CachedPacket)
    (hf : (s.leafs inode).findBlock (offset / blockSize) = none) (i : ℕ) :
    (s.addData inode offset size data).leafs i = if i = inode then
      ((s.leafs inode).insertBlock (offset / blockSize) [Range.create s.nextId offset size data]).setStatus
        (offset / blockSize) .inCache else s.leafs i := by
  simp only [Client.addData, Client.addCount, Client.leafs_setLeaf, Leaf.addData, hf]

lemma addData (h : BlockInv A files s) {inode offset : ℕ} (hA : inode ∈ A) (size : ℕ)
    (data : List CachedPacket) (hf : (s.leafs inode).findBlock (offset / blockSize) = none)
    (hi : offset / blockSize * blockSize < (s.leafs inode).size)
    (hr : ∀ r ∈ s.outstanding, r.key ≠ (inode, offset / blockSize)) :
    BlockInv A files (s.addData inode offset size data) := by
  have hset : BlockInv A files (s.setLeaf inode ((s.leafs inode).addData s.nextId offset size data).2) := by
    rw [Leaf.addData, hf]
    refine h.setLeaf ((h.leafs inode).insertBlock _ hi hf) fun r hm hri => ?_
    obtain ⟨-, -, -, hrf, hrs⟩ := h.requests r hm
    have hne : r.index ≠ offset / blockSize := fun hx => hr r hm (by rw [ReadRequest.key, hri, hx])
    have hp : offset / blockSize <
        ((s.leafs inode).insertBlock (offset / blockSize) [Range.create s.nextId offset size data]).piecesStatus.size :=
      (h.leafs inode).lt_pieces hi
    rw [hri] at hrf hrs
    rw [Leaf.findBlock_setStatus, Leaf.findBlock_insertBlock, if_neg hne, Leaf.getStatus_setStatus _ _ hp,
      if_neg hne]
    exact ⟨hrf, hrs⟩
  have hcount := hset.addCount hA (data.length - ((s.leafs inode).addData s.nextId offset size data).1.length)
  exact ⟨hcount.leafs, hcount.jobs, hcount.table, hcount.requests, hcount.nodup⟩

lemma takePendingJobs (h : BlockInv A files s) (inode index : ℕ) :
    BlockInv A files (s.setLeaf inode ((s.leafs inode).takePendingJobs index).2) := by
  refine h.setLeaf ((h.leafs inode).takePendingJobs index) fun r hr hi => ?_
  obtain ⟨-, -, -, hf, hs⟩ := h.requests r hr
  rw [hi] at hf hs
  exact ⟨hf, hs⟩

lemma pendingExecute (h : BlockInv A files s) {job : FuseReadFilePendingJob} (hA : job.inode ∈ A) :
    BlockInv A files (Client.left (job.execute s)) := by
  obtain ⟨pins, -, -, he⟩ | ⟨arrived, requested, -, -, he⟩ := job.execute_cases s <;> rw [he]
  · exact h.mapRanges _ _
  · exact BlockInv.scheduleCacheTreeJob (h.mapRanges _ _) hA rfl

lemma takePendingJobs_inode (h : BlockInv A files s) {inode index : ℕ} {job : FuseReadFilePendingJob}
    (hj : job ∈ ((s.leafs inode).takePendingJobs index).1) : job.inode = inode := by
  obtain ⟨e, he, rfl⟩ := List.mem_map.mp hj
  exact (h.leafs inode).pendings e (List.mem_of_mem_filter he)

lemma wake (h : BlockInv A files s) {inode index : ℕ} (hA : inode ∈ A) :
    BlockInv A files (Client.left (ApplyBlockCacheJob.wake s inode index)) :=
  Client.foldlM_induct (fun _ _ hj hu => hu.pendingExecute (h.takePendingJobs_inode hj ▸ hA))
    (h.takePendingJobs inode index)

lemma evict (h : BlockInv A files s) {inode index : ℕ} {ranges : List Range}
    (hf : (s.leafs inode).findBlock index = some ranges) (packets : ℕ) :
    BlockInv A files (s.evict inode index packets) := by
  have hi := ((h.leafs inode).cached _ (Leaf.mem_of_findBlock hf)).1
  refine (h.setLeaf ((h.leafs inode).eraseBlock hi) fun r hr hri => ?_).removeCount _ _
  obtain ⟨-, -, -, hrf, hrs⟩ := h.requests r hr
  rw [hri] at hrf hrs
  have hne : r.index ≠ index := by
    rintro rfl
    rw [hrf] at hf
    cases hf
  have hp : index < ((s.leafs inode).eraseBlock index).piecesStatus.size := (h.leafs inode).lt_pieces hi
  rw [Leaf.findBlock_setStatus, Leaf.findBlock_eraseBlock, if_neg hne, Leaf.getStatus_setStatus _ _ hp,
    if_neg hne]
  exact ⟨hrf, hrs⟩

lemma getFreeData (h : BlockInv A files s) {inode : ℕ} (hm : inode ∈ s.cachePerShard.map Prod.fst)
    {job : WriteFileCacheJob} {t : Client} (hg : s.getFreeData inode = some (job, t)) :
    BlockInv A files t ∧ BlockInv A files (t.scheduleCacheTreeJob (.writeFile job)) := by
  obtain ⟨index, ranges, hf, -, rfl, rfl⟩ := Client.getFreeData_cases (h.leafs inode).keys hg
  obtain ⟨e, he, rfl⟩ := List.mem_map.mp hm
  have ht := h.evict hf (ranges.flatMap Range.packets).length
  exact ⟨ht, ht.scheduleCacheTreeJob (h.table e he) rfl⟩

lemma writeFile (h : BlockInv A files s) (job : WriteFileCacheJob) : BlockInv A files (job.execute s) := by
  have hset : BlockInv A files
      (s.setLeaf job.inode ((s.leafs job.inode).setStatus (job.offset / blockSize) .onDisk)) := by
    refine h.setLeaf ((h.leafs job.inode).setStatus _ PieceStatus.noConfusion) fun r hr hri => ?_
    obtain ⟨-, -, -, hrf, hrs⟩ := h.requests r hr
    rw [hri] at hrf hrs
    refine ⟨hrf, ?_⟩
    rcases (s.leafs job.inode).getStatus_setStatus_cases (job.offset / blockSize) .onDisk r.index with hc | hc
    · rw [hc]
      exact PieceStatus.noConfusion
    · rwa [hc]
  exact ⟨hset.leafs, hset.jobs, hset.table, hset.requests, hset.nodup⟩

lemma pop (h : BlockInv A files s) {xs ys : List CacheTreeJob} {job : CacheTreeJob}
    (hq : s.cacheTreeQueue = xs ++ job :: ys) : BlockInv A files { s with cacheTreeQueue := xs ++ ys } := by
  have hsub : (xs ++ ys).Sublist s.cacheTreeQueue := by
    rw [hq]
    exact (List.sublist_cons_self job ys).append_left xs
  refine h.of_subperm rfl (fun j hj => h.jobs j (hsub.subset hj)) rfl (List.Sublist.subperm ?_)
  exact (hsub.filterMap _).append_left _

lemma job_inA (h : BlockInv A files s) {xs ys : List CacheTreeJob} {job : CacheTreeJob}
    (hq : s.cacheTreeQueue = xs ++ job :: ys) : job.inode ∈ A :=
  h.jobs job (hq ▸ List.mem_append_right _ List.mem_cons_self)

lemma outstanding_pop {xs ys : List CacheTreeJob} {job : ApplyBlockCacheJob}
    (hq : s.cacheTreeQueue = xs ++ .applyBlock job :: ys) :
    s.outstanding.Perm
      (job.toReadRequest :: ({ s with cacheTreeQueue := xs ++ ys } : Client).outstanding) := by
  simp only [Client.outstanding, hq, List.filterMap_append, List.filterMap_cons, CacheTreeJob.request?,
    ← List.append_assoc]
  exact List.perm_middle

lemma applyBlock_facts (h : BlockInv A files s) {xs ys : List CacheTreeJob} {job : ApplyBlockCacheJob}
    (hq : s.cacheTreeQueue = xs ++ .applyBlock job :: ys) :
    job.inode ∈ A ∧ job.IsBlock ∧ job.offset < (files job.inode).content.length ∧
      (s.leafs job.inode).findBlock job.index = none ∧
      ∀ r ∈ ({ s with cacheTreeQueue := xs ++ ys } : Client).outstanding, r.key ≠ job.key := by
  have hp := outstanding_pop hq
  obtain ⟨hA, hb, ho, hf, -⟩ := h.requests job.toReadRequest (hp.symm.subset List.mem_cons_self)
  refine ⟨hA, hb, ho, hf, fun r hr hk => ?_⟩
  have hn := (hp.map ReadRequest.key).nodup_iff.mp h.nodup
  rw [List.map_cons, List.nodup_cons] at hn
  exact hn.1 (hk ▸ List.mem_map_of_mem hr)

lemma addBlock (h : BlockInv A files s) {xs ys : List CacheTreeJob} {job : ApplyBlockCacheJob}
    (hq : s.cacheTreeQueue = xs ++ .applyBlock job :: ys) :
    BlockInv A files (job.addBlock { s with cacheTreeQueue := xs ++ ys }) := by
  obtain ⟨hA, hb, ho, hf, hr⟩ := h.applyBlock_facts hq
  rw [ApplyBlockCacheJob.addBlock, hb.skipped, Nat.add_zero]
  refine (h.pop hq).addData hA _ _ hf ?_ hr
  exact lt_of_le_of_lt (Nat.div_mul_le_self _ _) ((h.leafs job.inode).size ▸ ho)

lemma deliver (h : BlockInv A files s) {xs ys : List CacheTreeJob} {job : ApplyBlockCacheJob}
    (hq : s.cacheTreeQueue = xs ++ .applyBlock job :: ys) :
    BlockInv A files (Client.left (job.deliver { s with cacheTreeQueue := xs ++ ys })) := by
  obtain ⟨hA, hb, -⟩ := h.applyBlock_facts hq
  rw [ApplyBlockCacheJob.deliver_of_none hb.request]
  exact (h.addBlock hq).wake hA

lemma applyBlock (h : BlockInv A files s) {xs ys : List CacheTreeJob} {job : ApplyBlockCacheJob}
    (hq : s.cacheTreeQueue = xs ++ .applyBlock job :: ys) {picks : List ℕ} {t : Client}
    (ht : job.execute { s with cacheTreeQueue := xs ++ ys } picks = some t) : BlockInv A files t :=
  ApplyBlockCacheJob.execute_induct (fun _ _ _ _ hv hm hg => hv.getFreeData hm hg) ht (h.deliver hq)

lemma cacheTreeJob (h : BlockInv A files s) {xs ys : List CacheTreeJob} {job : CacheTreeJob}
    (hq : s.cacheTreeQueue = xs ++ job :: ys) {stop : Bool} {picks : List ℕ} {t : Client}
    (ht : job.execute { s with cacheTreeQueue := xs ++ ys } stop picks = some t) : BlockInv A files t := by
  have hA := h.job_inA hq
  cases job with
  | fuseRead job =>
    cases ht
    obtain ⟨c, ho⟩ := FuseReadFileJob.execute_outcome
      (({ s with cacheTreeQueue := xs ++ ys } : Client).unpinRanges job.inode job.pins) job stop
    exact BlockInv.outcome (BlockInv.withFileCache ((h.pop hq).mapRanges _ _) c)
      (by rwa [FuseReadFileJob.truncate_inode]) ho
  | applyBlock job => exact h.applyBlock hq ht
  | writeFile job =>
    cases ht
    exact (h.pop hq).writeFile job

end BlockInv

def ReadsIn (A : Set ℕ) : Action → Prop
  | .read request => request.inode ∈ A
  | _ => True

namespace Client

lemma outstanding_sendRequest {s : Client} {r : ReadRequest} {rest : List ReadRequest}
    (h : s.mainQueue = r :: rest) :
    ({ s with mainQueue := rest, requests := s.requests ++ [r] } : Client).outstanding.Perm s.outstanding := by
  simp only [outstanding, h, List.append_assoc, List.cons_append, List.nil_append]
  exact (List.perm_middle.append_left rest).trans List.perm_middle

lemma outstanding_answer {s : Client} {r : ReadRequest} {xs ys : List ReadRequest}
    (h : s.requests = xs ++ r :: ys) (error nextId : ℕ) (data : List CachedPacket) :
    ({ s with requests := xs ++ ys, responses := s.responses ++ [⟨r, error, data⟩],
              nextId := nextId } : Client).outstanding.Perm s.outstanding := by
  simp only [outstanding, h, List.map_append, List.map_cons, List.map_nil, List.append_assoc,
    List.cons_append, List.nil_append]
  refine List.Perm.append_left _ (List.Perm.append_left _ ?_)
  exact (List.perm_middle.append_left ys).trans List.perm_middle

lemma outstanding_receive {s : Client} {r : ReadResponse} {xs ys : List ReadResponse}
    (h : s.responses = xs ++ r :: ys) :
    (({ s with responses := xs ++ ys } : Client).scheduleCacheTreeJob
      (.applyBlock ⟨r.toReadRequest, r.data⟩)).outstanding.Perm s.outstanding := by
  simp only [outstanding, scheduleCacheTreeJob, h, List.map_append, List.map_cons, List.filterMap_append,
    List.filterMap_cons, List.filterMap_nil, CacheTreeJob.request?, List.append_assoc, List.cons_append]
  refine List.Perm.append_left _ (List.Perm.append_left _ (List.Perm.append_left _ ?_))
  exact (List.perm_append_singleton r.toReadRequest _).append_left _ |>.trans List.perm_middle

end Client

namespace BlockInv

variable {A : Set ℕ} {files : ℕ → RemoteFile} {s : Client}

lemma receive (h : BlockInv A files s) {r : ReadResponse} {xs ys : List ReadResponse}
    (hr : s.responses = xs ++ r :: ys) :
    BlockInv A files (Client.executeResponse { s with responses := xs ++ ys } r) := by
  have hp := Client.outstanding_receive hr
  have hA : r.inode ∈ A := by
    refine (h.requests r.toReadRequest ?_).1
    simp [Client.outstanding, hr]
  have hsub : ({ s with responses := xs ++ ys } : Client).outstanding.Sublist s.outstanding := by
    simp only [Client.outstanding, hr]
    exact (((List.sublist_cons_self r ys).append_left xs).map _ |>.append_left _).append_right _
  have hlost : BlockInv A files { s with responses := xs ++ ys } :=
    h.of_subperm rfl h.jobs rfl hsub.subperm
  rw [Client.executeResponse]
  split_ifs with he
  · cases r.request with
    | none => exact hlost
    | some request => exact hlost.reply _ _
  · refine h.of_subperm rfl (fun j hj => ?_) rfl hp.subperm
    rcases List.mem_append.mp hj with hj | hj
    · exact h.jobs j hj
    · rw [List.mem_singleton.mp hj]
      exact hA

theorem step (h : BlockInv A files s) {a : Action} (ha : ReadsIn A a) {t : Client} (ht : s.step a = some t) :
    BlockInv A files t := by
  cases a with
  | read request =>
    cases ht
    exact h.scheduleCacheTreeJob ha rfl
  | cacheTree shard stop picks =>
    obtain ⟨job, hj, ht⟩ := Option.bind_eq_some_iff.mp ht
    obtain ⟨xs, ys, hq, he⟩ := find?_eraseP hj
    rw [he] at ht
    exact h.cacheTreeJob hq ht
  | disk i =>
    obtain ⟨job, -, rfl⟩ := Option.map_eq_some_iff.mp ht
    have hd : BlockInv A files { s with diskQueue := s.diskQueue.eraseIdx i } :=
      ⟨h.leafs, h.jobs, h.table, h.requests, h.nodup⟩
    exact (hd.mapRanges _ _).reply _ _
  | sendRequest =>
    simp only [Client.step] at ht
    split at ht
    · cases ht
    · next r rest hm =>
      cases ht
      exact h.of_subperm rfl h.jobs rfl (Client.outstanding_sendRequest hm).subperm
  | answer i error data =>
    obtain ⟨r, hr, rfl⟩ := Option.map_eq_some_iff.mp ht
    obtain ⟨xs, ys, hq, he⟩ := getElem?_eraseIdx hr
    rw [he]
    exact h.of_subperm rfl h.jobs rfl (Client.outstanding_answer hq _ _ _).subperm
  | receive i =>
    obtain ⟨r, hr, rfl⟩ := Option.map_eq_some_iff.mp ht
    obtain ⟨xs, ys, hq, he⟩ := getElem?_eraseIdx hr
    rw [he]
    exact h.receive hq

end BlockInv

end FastTransport.FileCache
