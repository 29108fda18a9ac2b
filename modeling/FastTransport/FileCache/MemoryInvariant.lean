import FastTransport.FileCache.BlockInvariant
import FastTransport.FileSystem.WholeBlocks

/-! The bytes in memory: cached blocks, blocks on their way and blocks waiting to be written are blocks of the
remote file, and every job still asks for what its read asked for. -/

namespace FastTransport.FileCache

open FileSystem Lib.Bytes Lib.Runs Lib.Lists

def wanted (files : ℕ → RemoteFile) (q : FuseRequest) : List UInt8 :=
  slice (files q.inode).content q.offset q.size

structure ReadOk (shortReads : Prop) (files : ℕ → RemoteFile) (inode size offset : ℕ) (q : FuseRequest) : Prop where
  sameInode : q.inode = inode
  sameOffset : q.offset = offset
  bytes : slice (files inode).content offset size = wanted files q
  short : shortReads → size ≤ blockSize

structure WriteOk (files : ℕ → RemoteFile) (job : WriteFileCacheJob) (index : ℕ) : Prop where
  offset : job.offset = index * blockSize
  inFile : index * blockSize < (files job.inode).content.length
  size : job.size = (blockOf (files job.inode).content index).length
  data : IsCut (blockOf (files job.inode).content index) job.data

def JobOk (shortReads : Prop) (files : ℕ → RemoteFile) : CacheTreeJob → Prop
  | .fuseRead job => ReadOk shortReads files job.inode job.size job.offset job.request
  | .applyBlock job => IsCut (blockOf (files job.inode).content job.index) job.data
  | .writeFile job => ∃ index, WriteOk files job index

structure MemoryInv (shortReads : Prop) (files : ℕ → RemoteFile) (s : Client) : Prop where
  blocks : ∀ i, ∀ e ∈ (s.leafs i).data, ∃ r, e.2 = [r] ∧ WholeBlock (files i).content e.1 r
  jobs : ∀ job ∈ s.cacheTreeQueue, JobOk shortReads files job
  pendings : ∀ i, ∀ e ∈ (s.leafs i).pendingJobs, ReadOk shortReads files i e.2.size e.2.offset e.2.request
  responses : ∀ r ∈ s.responses, r.error = 0 → IsCut (blockOf (files r.inode).content r.index) r.data

def Serves (shortReads : Prop) (files : ℕ → RemoteFile) (s : Client) : Action → Prop
  | .read request => shortReads → request.size ≤ blockSize
  | .answer i error data => error = 0 → ∀ r, s.requests[i]? = some r →
      IsCut (blockOf (files r.inode).content r.index) (Client.receivedPackets s.nextId data)
  | _ => True

lemma ReadOk.truncate {shortReads : Prop} {files : ℕ → RemoteFile} {job : FuseReadFileJob}
    (h : ReadOk shortReads files job.inode job.size job.offset job.request) :
    ReadOk shortReads files job.inode (job.truncate (files job.inode).content.length).size job.offset job.request := by
  rw [FuseReadFileJob.truncate]
  split_ifs with hs
  · refine ⟨h.sameInode, h.sameOffset, ?_, ?_⟩
    · rw [← h.bytes, slice_eq_min _ _ job.size, Nat.min_eq_right (by omega)]
    · intro hs
      have := h.short hs
      simp only
      omega
  · exact h

lemma readed_eq {bytes : List UInt8} {job : ApplyBlockCacheJob} (h : IsCut bytes job.data) :
    job.readed = bytes.length := by
  obtain ⟨init, last, hd, hi, -, -, rfl⟩ := h
  have hlen := payloads_length hi
  rw [ApplyBlockCacheJob.readed, hd, List.getLast?_concat, payloads_append]
  simp only [List.length_append, hlen]
  cases init with
  | nil => simp
  | cons p ps => simp [hi p List.mem_cons_self]

namespace MemoryInv

variable {shortReads : Prop} {A : Set ℕ} {files : ℕ → RemoteFile} {s t : Client}

lemma create (shortReads : Prop) (files : ℕ → RemoteFile) : MemoryInv shortReads files (Client.create files) :=
  ⟨fun _ _ h => absurd h List.not_mem_nil, fun _ h => absurd h List.not_mem_nil,
    fun _ _ h => absurd h List.not_mem_nil, fun _ h => absurd h List.not_mem_nil⟩

lemma holdsBlocks (h : MemoryInv shortReads files s) (hb : BlockInv A files s) (i : ℕ) :
    (s.leafs i).HoldsBlocks (files i).content := ⟨(hb.leafs i).size, h.blocks i⟩

lemma withFileCache (h : MemoryInv shortReads files s) (c : FileSystem.FileCache) :
    MemoryInv shortReads files { s with fileCache := c } := ⟨h.blocks, h.jobs, h.pendings, h.responses⟩

lemma setLeaf (h : MemoryInv shortReads files s) {inode : ℕ} {leaf : Leaf FuseReadFilePendingJob}
    (hd : ∀ e ∈ leaf.data, ∃ r, e.2 = [r] ∧ WholeBlock (files inode).content e.1 r)
    (hp : ∀ e ∈ leaf.pendingJobs, ReadOk shortReads files inode e.2.size e.2.offset e.2.request) :
    MemoryInv shortReads files (s.setLeaf inode leaf) := by
  refine ⟨fun i => ?_, h.jobs, fun i => ?_, h.responses⟩ <;> rw [Client.leafs_setLeaf] <;> split_ifs with hi
  · rwa [hi]
  · exact h.blocks i
  · rwa [hi]
  · exact h.pendings i

lemma mapRanges (h : MemoryInv shortReads files s) (inode : ℕ) {f : Range → Range}
    (hf : ∀ r, (f r).offset = r.offset ∧ (f r).size = r.size ∧ (f r).packets = r.packets) :
    MemoryInv shortReads files (s.setLeaf inode ((s.leafs inode).mapRanges f)) := by
  refine h.setLeaf (fun e he => ?_) (h.pendings inode)
  obtain ⟨e', he', rfl⟩ := List.mem_map.mp he
  obtain ⟨r, hr, hw⟩ := h.blocks inode e' he'
  exact ⟨f r, by rw [hr]; rfl, hw.of_eq (hf r).1 (hf r).2.1 (hf r).2.2⟩

lemma pinRanges (h : MemoryInv shortReads files s) (inode : ℕ) (ids : List ℕ) : MemoryInv shortReads files (s.pinRanges inode ids) :=
  h.mapRanges inode fun _ => ⟨rfl, rfl, rfl⟩

lemma unpinRanges (h : MemoryInv shortReads files s) (inode : ℕ) (ids : List ℕ) :
    MemoryInv shortReads files (s.unpinRanges inode ids) := h.mapRanges inode fun _ => ⟨rfl, rfl, rfl⟩

lemma scheduleCacheTreeJob (h : MemoryInv shortReads files s) {job : CacheTreeJob} (hj : JobOk shortReads files job) :
    MemoryInv shortReads files (s.scheduleCacheTreeJob job) := by
  refine ⟨h.blocks, fun j hm => ?_, h.pendings, h.responses⟩
  rcases List.mem_append.mp hm with hm | hm
  · exact h.jobs j hm
  · rwa [List.mem_singleton.mp hm]

lemma addPendingJob (h : MemoryInv shortReads files s) {job : FuseReadFileJob}
    (hj : ReadOk shortReads files job.inode job.size job.offset job.request) (index : ℕ) :
    MemoryInv shortReads files (FuseReadFileJob.addPendingJob s job index) := by
  refine h.setLeaf (h.blocks job.inode) fun e he => ?_
  rcases List.mem_append.mp he with he | he
  · exact h.pendings job.inode e he
  · rw [List.mem_singleton.mp he]
    exact hj

lemma setStatus (h : MemoryInv shortReads files s) (inode index : ℕ) (status : PieceStatus) :
    MemoryInv shortReads files (s.setLeaf inode ((s.leafs inode).setStatus index status)) :=
  h.setLeaf (h.blocks inode) (h.pendings inode)

lemma requestBlock (h : MemoryInv shortReads files s) (inode index : ℕ) : MemoryInv shortReads files (s.requestBlock inode index) :=
  have h' := h.setStatus inode index .inFlight
  ⟨h'.blocks, h'.jobs, h'.pendings, h'.responses⟩

lemma scheduleDiskJob (h : MemoryInv shortReads files s) (job : DiskJob) : MemoryInv shortReads files (s.scheduleDiskJob job) :=
  have h' := h.pinRanges job.inode job.buffer.pin
  ⟨h'.blocks, h'.jobs, h'.pendings, h'.responses⟩

lemma outcome (h : MemoryInv shortReads files s) {job : FuseReadFileJob}
    (hj : ReadOk shortReads files job.inode job.size job.offset job.request) (ho : job.Outcome s t) : MemoryInv shortReads files t := by
  have hfetch : ∀ s index, MemoryInv shortReads files s → (s.leafs job.inode).getStatus index = .notFound →
      index * blockSize < (s.leafs job.inode).size → MemoryInv shortReads files (s.requestBlock job.inode index) :=
    fun s index h _ _ => h.requestBlock job.inode index
  cases ho with
  | error => exact ⟨h.blocks, h.jobs, h.pendings, h.responses⟩
  | unwind pins _ =>
    have hp := h.pinRanges job.inode pins
    exact ⟨hp.blocks, hp.jobs, hp.pendings, hp.responses⟩
  | again => exact h.scheduleCacheTreeJob hj
  | park index _ => exact h.addPendingJob hj index
  | fetch index n _ _ =>
    exact Client.prefetchLoop_induct hfetch _ _ ((h.requestBlock job.inode index).addPendingJob hj index)
  | append => exact h.scheduleDiskJob _
  | disk => exact h.scheduleDiskJob _
  | prefixed => exact h.scheduleDiskJob _
  | data buffer n _ _ _ =>
    have hp : MemoryInv shortReads files (s.prefetchLoop job.inode (job.offset / blockSize) n) :=
      Client.prefetchLoop_induct hfetch _ _ h
    exact ⟨hp.blocks, hp.jobs, hp.pendings, hp.responses⟩

lemma addData (h : MemoryInv shortReads files s) {inode offset size : ℕ} {data : List CachedPacket}
    (hf : (s.leafs inode).findBlock (offset / blockSize) = none)
    (hw : WholeBlock (files inode).content (offset / blockSize) (Range.create s.nextId offset size data)) :
    MemoryInv shortReads files (s.addData inode offset size data) := by
  have hset : MemoryInv shortReads files
      (s.setLeaf inode (((s.leafs inode).insertBlock (offset / blockSize)
        [Range.create s.nextId offset size data]).setStatus (offset / blockSize) .inCache)) := by
    refine h.setLeaf (fun e he => ?_) (h.pendings inode)
    rcases List.mem_cons.mp he with rfl | he
    · exact ⟨_, rfl, hw⟩
    · exact h.blocks inode e he
  have hleaf : (s.leafs inode).addData s.nextId offset size data = ([], ((s.leafs inode).insertBlock
      (offset / blockSize) [Range.create s.nextId offset size data]).setStatus (offset / blockSize) .inCache) := by
    rw [Leaf.addData, hf]
  rw [Client.addData, hleaf]
  exact ⟨hset.blocks, hset.jobs, hset.pendings, hset.responses⟩

lemma takePendingJobs (h : MemoryInv shortReads files s) (inode index : ℕ) :
    MemoryInv shortReads files (s.setLeaf inode ((s.leafs inode).takePendingJobs index).2) :=
  h.setLeaf (h.blocks inode) fun e he => h.pendings inode e (List.mem_of_mem_filter he)

lemma pendingExecute (h : MemoryInv shortReads files s) {job : FuseReadFilePendingJob}
    (hj : ReadOk shortReads files job.inode job.size job.offset job.request) :
    MemoryInv shortReads files (Client.left (job.execute s)) := by
  obtain ⟨pins, -, -, he⟩ | ⟨arrived, requested, -, -, he⟩ := job.execute_cases s <;> rw [he]
  · exact h.pinRanges job.inode pins
  · exact (h.pinRanges job.inode _).scheduleCacheTreeJob hj

lemma takePendingJobs_readOk (h : MemoryInv shortReads files s) (hb : BlockInv A files s) {inode index : ℕ}
    {job : FuseReadFilePendingJob} (hj : job ∈ ((s.leafs inode).takePendingJobs index).1) :
    ReadOk shortReads files job.inode job.size job.offset job.request := by
  rw [hb.takePendingJobs_inode hj]
  obtain ⟨e, he, rfl⟩ := List.mem_map.mp hj
  exact h.pendings inode e (List.mem_of_mem_filter he)

lemma wake (h : MemoryInv shortReads files s) (hb : BlockInv A files s) {inode index : ℕ} :
    MemoryInv shortReads files (Client.left (ApplyBlockCacheJob.wake s inode index)) :=
  Client.foldlM_induct (fun _ _ hj hu => hu.pendingExecute (h.takePendingJobs_readOk hb hj))
    (h.takePendingJobs inode index)

lemma evict (h : MemoryInv shortReads files s) (inode index packets : ℕ) :
    MemoryInv shortReads files (s.evict inode index packets) := by
  have hset : MemoryInv shortReads files
      (s.setLeaf inode (((s.leafs inode).eraseBlock index).setStatus index .notFound)) :=
    h.setLeaf (fun e he => h.blocks inode e (List.mem_of_mem_filter he)) (h.pendings inode)
  exact ⟨hset.blocks, hset.jobs, hset.pendings, hset.responses⟩

lemma writeOk_of_findBlock (h : MemoryInv shortReads files s) (hb : BlockInv A files s) {inode index : ℕ}
    {ranges : List Range} (hf : (s.leafs inode).findBlock index = some ranges) :
    WriteOk files ⟨inode, min blockSize ((s.leafs inode).size - index * blockSize),
      (ranges.head?.map Range.offset).getD 0, ranges.flatMap Range.packets⟩ index := by
  have hm := Leaf.mem_of_findBlock hf
  obtain ⟨r, hr, hw⟩ := h.blocks inode _ hm
  simp only at hr
  subst hr
  refine ⟨hw.offset, ?_, ?_, ?_⟩
  · rw [← (hb.leafs inode).size]
    exact ((hb.leafs inode).cached _ hm).1
  · rw [Leaf.blockOf_length, (hb.leafs inode).size]
  · simpa using hw.packets

lemma getFreeData (h : MemoryInv shortReads files s) (hb : BlockInv A files s) {inode : ℕ} {job : WriteFileCacheJob}
    (hg : s.getFreeData inode = some (job, t)) :
    MemoryInv shortReads files t ∧ MemoryInv shortReads files (t.scheduleCacheTreeJob (.writeFile job)) := by
  obtain ⟨index, ranges, hf, -, rfl, rfl⟩ := Client.getFreeData_cases (hb.leafs inode).keys hg
  have ht := h.evict inode index (ranges.flatMap Range.packets).length
  exact ⟨ht, ht.scheduleCacheTreeJob ⟨index, h.writeOk_of_findBlock hb hf⟩⟩

lemma pop (h : MemoryInv shortReads files s) {xs ys : List CacheTreeJob} {job : CacheTreeJob}
    (hq : s.cacheTreeQueue = xs ++ job :: ys) :
    JobOk shortReads files job ∧ MemoryInv shortReads files { s with cacheTreeQueue := xs ++ ys } := by
  refine ⟨h.jobs job (hq ▸ List.mem_append_right _ List.mem_cons_self), h.blocks, fun j hj => ?_, h.pendings,
    h.responses⟩
  refine h.jobs j (hq ▸ ?_)
  rcases List.mem_append.mp hj with hj | hj
  · exact List.mem_append_left _ hj
  · exact List.mem_append_right _ (List.mem_cons_of_mem _ hj)

lemma addBlock (h : MemoryInv shortReads files s) (hb : BlockInv A files s) {xs ys : List CacheTreeJob}
    {job : ApplyBlockCacheJob} (hq : s.cacheTreeQueue = xs ++ .applyBlock job :: ys) :
    MemoryInv shortReads files (job.addBlock { s with cacheTreeQueue := xs ++ ys }) := by
  obtain ⟨hj, hp⟩ := h.pop hq
  obtain ⟨-, hblock, -, hf, -⟩ := hb.applyBlock_facts hq
  rw [ApplyBlockCacheJob.addBlock, hblock.skipped, Nat.add_zero]
  exact hp.addData hf ⟨hblock.offset, readed_eq hj, hj⟩

lemma deliver (h : MemoryInv shortReads files s) (hb : BlockInv A files s) {xs ys : List CacheTreeJob}
    {job : ApplyBlockCacheJob} (hq : s.cacheTreeQueue = xs ++ .applyBlock job :: ys) :
    MemoryInv shortReads files (Client.left (job.deliver { s with cacheTreeQueue := xs ++ ys })) := by
  obtain ⟨-, hblock, -⟩ := hb.applyBlock_facts hq
  rw [ApplyBlockCacheJob.deliver_of_none hblock.request]
  exact (h.addBlock hb hq).wake (hb.addBlock hq)

lemma applyBlock (h : MemoryInv shortReads files s) (hb : BlockInv A files s) {xs ys : List CacheTreeJob}
    {job : ApplyBlockCacheJob} (hq : s.cacheTreeQueue = xs ++ .applyBlock job :: ys) {picks : List ℕ}
    (ht : job.execute { s with cacheTreeQueue := xs ++ ys } picks = some t) : MemoryInv shortReads files t := by
  refine (ApplyBlockCacheJob.execute_induct (P := fun v => BlockInv A files v ∧ MemoryInv shortReads files v) ?_ ht
    ⟨hb.deliver hq, h.deliver hb hq⟩).2
  rintro v inode job' w ⟨hvb, hv⟩ hm hg
  obtain ⟨h1, h2⟩ := hvb.getFreeData hm hg
  obtain ⟨h3, h4⟩ := hv.getFreeData hvb hg
  exact ⟨⟨h1, h3⟩, h2, h4⟩

lemma writeFile (h : MemoryInv shortReads files s) (job : WriteFileCacheJob) : MemoryInv shortReads files (job.execute s) :=
  have h' := h.setStatus job.inode (job.offset / blockSize) .onDisk
  ⟨h'.blocks, h'.jobs, h'.pendings, h'.responses⟩

lemma readOk_truncate {job : FuseReadFileJob} (hb : BlockInv A files s)
    (hj : ReadOk shortReads files job.inode job.size job.offset job.request) :
    ReadOk shortReads files (job.truncate (s.leafs job.inode).size).inode (job.truncate (s.leafs job.inode).size).size
      (job.truncate (s.leafs job.inode).size).offset (job.truncate (s.leafs job.inode).size).request := by
  rw [FuseReadFileJob.truncate_inode, FuseReadFileJob.truncate_offset, FuseReadFileJob.truncate_request,
    (hb.leafs job.inode).size]
  exact hj.truncate

lemma cacheTreeJob (h : MemoryInv shortReads files s) (hb : BlockInv A files s) {xs ys : List CacheTreeJob}
    {job : CacheTreeJob} (hq : s.cacheTreeQueue = xs ++ job :: ys) {stop : Bool} {picks : List ℕ}
    (ht : job.execute { s with cacheTreeQueue := xs ++ ys } stop picks = some t) : MemoryInv shortReads files t := by
  obtain ⟨hj, hp⟩ := h.pop hq
  cases job with
  | fuseRead job =>
    cases ht
    obtain ⟨c, ho⟩ := FuseReadFileJob.execute_outcome
      (({ s with cacheTreeQueue := xs ++ ys } : Client).unpinRanges job.inode job.pins) job stop
    have hu := (hp.unpinRanges job.inode job.pins).withFileCache c
    have hub : BlockInv A files (({ s with cacheTreeQueue := xs ++ ys } : Client).unpinRanges job.inode job.pins) :=
      (hb.pop hq).mapRanges _ _
    exact hu.outcome (readOk_truncate hub hj) ho
  | applyBlock job => exact h.applyBlock hb hq ht
  | writeFile job =>
    cases ht
    exact hp.writeFile job

theorem step (h : MemoryInv shortReads files s) (hb : BlockInv A files s) {a : Action} (ha : Serves shortReads files s a)
    (ht : s.step a = some t) : MemoryInv shortReads files t := by
  cases a with
  | read request =>
    cases ht
    exact h.scheduleCacheTreeJob ⟨rfl, rfl, rfl, ha⟩
  | cacheTree shard stop picks =>
    obtain ⟨job, hj, ht⟩ := Option.bind_eq_some_iff.mp ht
    obtain ⟨xs, ys, hq, he⟩ := find?_eraseP hj
    rw [he] at ht
    exact h.cacheTreeJob hb hq ht
  | disk i =>
    obtain ⟨job, -, rfl⟩ := Option.map_eq_some_iff.mp ht
    have hu := h.unpinRanges job.inode job.buffer.pin
    exact ⟨hu.blocks, hu.jobs, hu.pendings, hu.responses⟩
  | sendRequest =>
    simp only [Client.step] at ht
    split at ht
    · cases ht
    · cases ht
      exact ⟨h.blocks, h.jobs, h.pendings, h.responses⟩
  | answer i error data =>
    obtain ⟨r, hr, rfl⟩ := Option.map_eq_some_iff.mp ht
    refine ⟨h.blocks, h.jobs, h.pendings, fun x hx he => ?_⟩
    rcases List.mem_append.mp hx with hx | hx
    · exact h.responses x hx he
    · rw [List.mem_singleton.mp hx] at he ⊢
      exact ha he r hr
  | receive i =>
    obtain ⟨r, hr, rfl⟩ := Option.map_eq_some_iff.mp ht
    have hl : MemoryInv shortReads files { s with responses := s.responses.eraseIdx i } :=
      ⟨h.blocks, h.jobs, h.pendings, fun x hx => h.responses x (List.mem_of_mem_eraseIdx hx)⟩
    rw [Client.executeResponse]
    split_ifs with he
    · cases r.request with
      | none => exact hl
      | some request => exact ⟨hl.blocks, hl.jobs, hl.pendings, hl.responses⟩
    · exact hl.scheduleCacheTreeJob (h.responses r (List.mem_of_getElem? hr) (not_not.mp he))

end MemoryInv

end FastTransport.FileCache
