import FastTransport.FileCache.Attended
import FastTransport.FileCache.Invalidation

/-! Where nothing of a leaf is under way when it is invalidated, what is marked or replied afterwards rests on
bytes that came afterwards. -/

namespace FastTransport.FileCache

open FileSystem Lib.Runs Lib.Lists

structure FreshData (fileSize since index : ℕ) (data : List CachedPacket) : Prop where
  inFile : index * blockSize < fileSize
  whole : WholeData fileSize index data
  ids : ∀ p ∈ data, since ≤ p.id

structure FreshRange (fileSize since index : ℕ) (range : Range) : Prop where
  offset : range.offset = index * blockSize
  size : range.size = min blockSize (fileSize - index * blockSize)
  data : FreshData fileSize since index range.packets

lemma FreshData.ne_nil {fileSize since index : ℕ} {data : List CachedPacket}
    (h : FreshData fileSize since index data) : data ≠ [] := h.whole.cut.ne_nil

lemma FreshRange.wholeRange {fileSize since index : ℕ} {range : Range} (h : FreshRange fileSize since index range) :
    WholeRange fileSize index range := ⟨h.offset, h.size, h.data.whole⟩

structure LeafFresh (file : RemoteFile) (since : ℕ) (origins : ℕ → Option ℕ)
    (leaf : Leaf FuseReadFilePendingJob) : Prop where
  name : leaf.name = file.name
  size : leaf.size = file.content.length
  keys : leaf.KeysNodup
  blocks : ∀ e ∈ leaf.data, ∃ r, e.2 = [r] ∧ FreshRange leaf.size since e.1 r
  onDisk : ∀ k < leaf.size, leaf.getStatus (k / blockSize) = .onDisk → ∀ id ∈ origins k, since ≤ id
  pendings : ∀ e ∈ leaf.pendingJobs, e.2.size ≤ blockSize

namespace LeafFresh

variable {file : RemoteFile} {since : ℕ} {origins : ℕ → Option ℕ} {leaf leaf' : Leaf FuseReadFilePendingJob}

lemma create (file : RemoteFile) (origins : ℕ → Option ℕ) (since : ℕ) :
    LeafFresh file since origins (.create file.name file.parent file.content.length) := by
  refine ⟨rfl, rfl, List.nodup_nil, fun _ he => absurd he List.not_mem_nil, fun k _ hs => ?_,
    fun _ he => absurd he List.not_mem_nil⟩
  rw [Leaf.getStatus_create] at hs
  cases hs

lemma of_blocks (h : LeafFresh file since origins leaf) (hn : leaf'.name = leaf.name) (hz : leaf'.size = leaf.size)
    (hk : leaf'.KeysNodup) (hb : ∀ e ∈ leaf'.data, ∃ r, e.2 = [r] ∧ FreshRange leaf.size since e.1 r)
    (hs : ∀ index, leaf'.getStatus index = .onDisk → leaf.getStatus index = .onDisk)
    (hp : leaf'.pendingJobs = leaf.pendingJobs) : LeafFresh file since origins leaf' := by
  refine ⟨hn.trans h.name, hz.trans h.size, hk, fun e he => ?_, fun k hk ho => ?_, hp ▸ h.pendings⟩
  · rw [hz]
    exact hb e he
  · exact h.onDisk k (hz ▸ hk) (hs _ ho)

lemma setStatus (h : LeafFresh file since origins leaf) (index : ℕ) {status : PieceStatus} (hs : status ≠ .onDisk) :
    LeafFresh file since origins (leaf.setStatus index status) :=
  h.of_blocks rfl rfl h.keys h.blocks (fun _ ho => DiskInv.onDisk_of_setStatus hs ho) rfl

lemma mapRanges (h : LeafFresh file since origins leaf) {f : Range → Range}
    (hf : ∀ r, (f r).offset = r.offset ∧ (f r).size = r.size ∧ (f r).packets = r.packets) :
    LeafFresh file since origins (leaf.mapRanges f) := by
  refine h.of_blocks rfl rfl (h.keys.mapRanges f) (fun e he => ?_) (fun _ ho => ho) rfl
  obtain ⟨e', he', rfl⟩ := List.mem_map.mp he
  obtain ⟨r, hr, hfresh⟩ := h.blocks e' he'
  obtain ⟨ho, hs, hp⟩ := hf r
  exact ⟨f r, by rw [hr]; rfl, ho.trans hfresh.offset, hs.trans hfresh.size, hp ▸ hfresh.data⟩

lemma addPendingJob (h : LeafFresh file since origins leaf) (index : ℕ) {job : FuseReadFilePendingJob}
    (hj : job.size ≤ blockSize) : LeafFresh file since origins (leaf.addPendingJob index job) := by
  refine ⟨h.name, h.size, h.keys, h.blocks, h.onDisk, fun e he => ?_⟩
  rcases List.mem_append.mp he with he | he
  · exact h.pendings e he
  · rw [List.mem_singleton.mp he]
    exact hj

lemma takePendingJobs (h : LeafFresh file since origins leaf) (index : ℕ) :
    LeafFresh file since origins (leaf.takePendingJobs index).2 :=
  ⟨h.name, h.size, h.keys, h.blocks, h.onDisk, fun e he => h.pendings e (List.mem_of_mem_filter he)⟩

lemma eraseBlock (h : LeafFresh file since origins leaf) (index : ℕ) :
    LeafFresh file since origins ((leaf.eraseBlock index).setStatus index .notFound) := by
  have herase : LeafFresh file since origins (leaf.eraseBlock index) :=
    h.of_blocks rfl rfl (h.keys.eraseBlock index) (fun e he => h.blocks e (List.mem_of_mem_filter he))
      (fun _ ho => ho) rfl
  exact herase.setStatus index PieceStatus.noConfusion

lemma addData (h : LeafFresh file since origins leaf) {index : ℕ} {data : List CachedPacket}
    (hd : FreshData leaf.size since index data) (id : ℕ) :
    LeafFresh file since origins (leaf.addData id (index * blockSize)
      (min blockSize (leaf.size - index * blockSize)) data).2 := by
  have hindex : index * blockSize / blockSize = index := Nat.mul_div_cancel _ blockSize_pos
  rw [Leaf.addData, hindex]
  cases hf : leaf.findBlock index with
  | none =>
    have hinsert : LeafFresh file since origins (leaf.insertBlock index
        [Range.create id (index * blockSize) (min blockSize (leaf.size - index * blockSize)) data]) := by
      refine h.of_blocks rfl rfl (h.keys.insertBlock _ hf) (fun e he => ?_) (fun _ ho => ho) rfl
      rcases List.mem_cons.mp he with rfl | he
      · exact ⟨_, rfl, rfl, rfl, hd⟩
      · exact h.blocks e he
    exact hinsert.setStatus index PieceStatus.noConfusion
  | some ranges =>
    obtain ⟨r, hr, hfresh⟩ := h.blocks _ (Leaf.mem_of_findBlock hf)
    simp only at hr hfresh
    subst hr
    have hnone : (leaf.eraseBlock index).findBlock index = none := by
      rw [Leaf.findBlock_eraseBlock, if_pos rfl]
    simp only [addRange_whole hfresh.wholeRange hd.inFile hd.whole id]
    refine h.of_blocks rfl rfl ((h.keys.eraseBlock index).insertBlock _ hnone) (fun e he => ?_) (fun _ ho => ho) rfl
    rcases List.mem_cons.mp he with rfl | he
    · exact ⟨r, rfl, hfresh⟩
    · exact h.blocks e (List.mem_of_mem_filter he)

lemma invalidateDataCache (h : LeafFresh file since origins leaf) (origins' : ℕ → Option ℕ) (since' : ℕ) :
    LeafFresh file since' origins' leaf.invalidateDataCache := by
  refine ⟨h.name, h.size, List.nodup_nil, fun _ he => absurd he List.not_mem_nil, fun k _ hs => ?_, h.pendings⟩
  rw [Leaf.getStatus, Leaf.invalidateDataCache, PiecesStatus.getStatus_create] at hs
  cases hs

lemma getData (h : LeafFresh file since origins leaf) {offset size : ℕ} {view : BufferView} (ho : offset < leaf.size)
    (hg : leaf.getData offset size = some view) :
    ∃ total, leaf.Reads leaf.cachedContent offset (min size (leaf.size - offset)) .empty view total := by
  have hwhole : leaf.HoldsWhole := fun e he => by
    obtain ⟨r, hr, hfresh⟩ := h.blocks e he
    exact ⟨r, hr, hfresh.wholeRange⟩
  have hholds := hwhole.holdsBlocks h.keys
  rw [hholds.size] at ho
  obtain ⟨view', total, hv, hr⟩ := Leaf.getData_spec hholds size ho
  cases hg.symm.trans hv
  exact ⟨total, hholds.size ▸ hr⟩

lemma spans (h : LeafFresh file since origins leaf) {offset size : ℕ} {view : BufferView} (ho : offset < leaf.size)
    (hg : leaf.getData offset size = some view) : ∀ sp ∈ view.spans, since ≤ sp.packet.id := by
  intro sp hsp
  obtain ⟨total, hr⟩ := h.getData ho hg
  obtain ⟨e, he, r, hre, -, hp⟩ := hr.held sp hsp
  obtain ⟨r', hr', hfresh⟩ := h.blocks e he
  rw [hr', List.mem_singleton] at hre
  exact hfresh.data.ids _ (hre ▸ hp)

end LeafFresh

structure RequestOk (files : ℕ → RemoteFile) (r : ReadRequest) : Prop where
  block : r.IsBlock
  inFile : r.offset < (files r.inode).content.length

def JobFresh (files : ℕ → RemoteFile) (since : ℕ → ℕ) : CacheTreeJob → Prop
  | .fuseRead job => job.size ≤ blockSize
  | .applyBlock job => job.IsBlock ∧
      FreshData (files job.inode).content.length (since job.inode) job.index job.data
  | .writeFile job => ∃ index, job.offset = index * blockSize ∧
      job.size = min blockSize ((files job.inode).content.length - index * blockSize) ∧
      FreshData (files job.inode).content.length (since job.inode) index job.data

lemma JobFresh.update {files : ℕ → RemoteFile} {since : ℕ → ℕ} {job : CacheTreeJob} (h : JobFresh files since job)
    {inode : ℕ} (hne : job.data ≠ [] → job.inode ≠ inode) (epoch : ℕ) :
    JobFresh files (Function.update since inode epoch) job := by
  cases job with
  | fuseRead job => exact h
  | applyBlock job =>
    have hi : job.inode ≠ inode := hne h.2.ne_nil
    rw [JobFresh, Function.update_of_ne hi]
    exact h
  | writeFile job =>
    obtain ⟨index, ho, hs, hd⟩ := h
    have hi : job.inode ≠ inode := hne hd.ne_nil
    refine ⟨index, ho, hs, ?_⟩
    rwa [Function.update_of_ne hi]

/-- `epoch` is `since` of the leaf when the job was scheduled. -/
structure DiskFresh (files : ℕ → RemoteFile) (since : ℕ → ℕ) (origins : String → ℕ → Option ℕ) (job : DiskJob)
    (epoch : ℕ) : Prop where
  le_since : epoch ≤ since job.inode
  file : job.file = (files job.inode).name
  region : ∀ k, job.diskOffset ≤ k → k < job.diskOffset + job.diskSize → ∀ id ∈ origins job.file k, epoch ≤ id
  spans : ∀ sp ∈ job.buffer.spans, epoch ≤ sp.packet.id

structure FreshInv (files : ℕ → RemoteFile) (since : ℕ → ℕ) (origins : String → ℕ → Option ℕ) (diskSince : List ℕ)
    (s : Client) : Prop where
  leafs : ∀ i, LeafFresh (files i) (since i) (origins (files i).name) (s.leafs i)
  jobs : ∀ job ∈ s.cacheTreeQueue, JobFresh files since job
  requests : ∀ r ∈ s.mainQueue ++ s.requests, RequestOk files r
  responses : ∀ r ∈ s.responses, RequestOk files r.toReadRequest ∧
    (r.error = 0 → FreshData (files r.inode).content.length (since r.inode) r.index r.data)
  nextId : ∀ i, since i ≤ s.nextId
  disk : List.Forall₂ (DiskFresh files since origins) s.diskQueue diskSince

namespace FreshInv

variable {files : ℕ → RemoteFile} {since : ℕ → ℕ} {origins : String → ℕ → Option ℕ} {diskSince : List ℕ}
  {s t : Client}

lemma create (files : ℕ → RemoteFile) (origins : String → ℕ → Option ℕ) :
    FreshInv files (fun _ => 0) origins [] (Client.create files) :=
  ⟨fun i => LeafFresh.create (files i) _ _, fun _ h => absurd h List.not_mem_nil,
    fun _ h => absurd h List.not_mem_nil, fun _ h => absurd h List.not_mem_nil, fun _ => le_rfl, .nil⟩

lemma setLeaf (h : FreshInv files since origins diskSince s) {inode : ℕ} {leaf : Leaf FuseReadFilePendingJob}
    (hl : LeafFresh (files inode) (since inode) (origins (files inode).name) leaf) :
    FreshInv files since origins diskSince (s.setLeaf inode leaf) := by
  refine ⟨fun i => ?_, h.jobs, h.requests, h.responses, h.nextId, h.disk⟩
  rw [Client.leafs_setLeaf]
  split_ifs with hi
  · rwa [hi]
  · exact h.leafs i

lemma withFileCache (h : FreshInv files since origins diskSince s) (c : FileSystem.FileCache) :
    FreshInv files since origins diskSince { s with fileCache := c } :=
  ⟨h.leafs, h.jobs, h.requests, h.responses, h.nextId, h.disk⟩

lemma reply (h : FreshInv files since origins diskSince s) (request : FuseRequest) (result : ReadResult) :
    FreshInv files since origins diskSince (s.reply request result) :=
  ⟨h.leafs, h.jobs, h.requests, h.responses, h.nextId, h.disk⟩

lemma pinRanges (h : FreshInv files since origins diskSince s) (inode : ℕ) (ids : List ℕ) :
    FreshInv files since origins diskSince (s.pinRanges inode ids) :=
  h.setLeaf ((h.leafs inode).mapRanges fun _ => ⟨rfl, rfl, rfl⟩)

lemma unpinRanges (h : FreshInv files since origins diskSince s) (inode : ℕ) (ids : List ℕ) :
    FreshInv files since origins diskSince (s.unpinRanges inode ids) :=
  h.setLeaf ((h.leafs inode).mapRanges fun _ => ⟨rfl, rfl, rfl⟩)

lemma scheduleCacheTreeJob (h : FreshInv files since origins diskSince s) {job : CacheTreeJob}
    (hj : JobFresh files since job) : FreshInv files since origins diskSince (s.scheduleCacheTreeJob job) := by
  refine ⟨h.leafs, fun j hm => ?_, h.requests, h.responses, h.nextId, h.disk⟩
  rcases List.mem_append.mp hm with hm | hm
  · exact h.jobs j hm
  · rwa [List.mem_singleton.mp hm]

lemma addPendingJob (h : FreshInv files since origins diskSince s) {job : FuseReadFileJob} (hj : job.size ≤ blockSize)
    (index : ℕ) : FreshInv files since origins diskSince (FuseReadFileJob.addPendingJob s job index) :=
  h.setLeaf ((h.leafs job.inode).addPendingJob index hj)

lemma requestBlock (h : FreshInv files since origins diskSince s) {inode index : ℕ}
    (hi : index * blockSize < (s.leafs inode).size) :
    FreshInv files since origins diskSince (s.requestBlock inode index) := by
  have hset : FreshInv files since origins diskSince
      (s.setLeaf inode ((s.leafs inode).setStatus index .inFlight)) :=
    h.setLeaf ((h.leafs inode).setStatus index PieceStatus.noConfusion)
  refine ⟨hset.leafs, hset.jobs, fun r hr => ?_, hset.responses, hset.nextId, hset.disk⟩
  rcases List.mem_append.mp hr with hr | hr
  · rcases List.mem_append.mp hr with hr | hr
    · exact h.requests r (List.mem_append_left _ hr)
    · rw [List.mem_singleton.mp hr]
      refine ⟨⟨rfl, rfl, rfl, ?_⟩, ?_⟩
      · rw [ReadRequest.index, Nat.mul_div_cancel _ blockSize_pos]
      · rwa [← (h.leafs inode).size]
  · exact h.requests r (List.mem_append_right _ hr)

lemma prefetchLoop (h : FreshInv files since origins diskSince s) (inode index n : ℕ) :
    FreshInv files since origins diskSince (s.prefetchLoop inode index n) :=
  Client.prefetchLoop_induct (fun _ _ hu _ hi => hu.requestBlock hi) n index h

lemma scheduleDiskJob (h : FreshInv files since origins diskSince s) {job : DiskJob} {epoch : ℕ}
    (hj : DiskFresh files since origins job epoch) :
    FreshInv files since origins (diskSince ++ [epoch]) (s.scheduleDiskJob job) := by
  have hpin := h.pinRanges job.inode job.buffer.pin
  exact ⟨hpin.leafs, hpin.jobs, hpin.requests, hpin.responses, hpin.nextId,
    List.rel_append hpin.disk (.cons hj .nil)⟩

lemma append (h : FreshInv files since origins diskSince s) {job : FuseReadFileJob} (hj : job.size ≤ blockSize)
    (hle : job.offset + job.size ≤ (s.leafs job.inode).size) {pinned : BufferView}
    (hs : (s.leafs job.inode).getStatus (job.offset / blockSize) = .onDisk)
    (hc : (job.offset / blockSize + 1) * blockSize < job.offset + job.size)
    (hg : (s.leafs job.inode).getData ((job.offset / blockSize + 1) * blockSize)
      (job.offset + job.size - (job.offset / blockSize + 1) * blockSize) = some pinned)
    (hd : pinned.hasData = true) :
    DiskFresh files since origins (.readFile job.request job.inode (s.leafs job.inode).getCachePath job.size
      job.offset pinned) (since job.inode) := by
  have hl := h.leafs job.inode
  have hend := Nat.add_one_mul (job.offset / blockSize) blockSize
  have hlow := Nat.div_mul_le_self job.offset blockSize
  have hhigh : job.offset < job.offset / blockSize * blockSize + blockSize := Nat.lt_div_mul_add blockSize_pos
  obtain ⟨total, hr⟩ := hl.getData (hc.trans_le hle) hg
  rw [Nat.min_eq_left (by omega)] at hr
  have hsize : pinned.totalSize = job.offset + job.size - (job.offset / blockSize + 1) * blockSize :=
    hr.totalSize_eq.trans (hr.total_eq (Nat.mul_mod_left _ _) (by omega) hd)
  refine ⟨le_rfl, hl.name, fun k h1 h2 id hid => ?_, hl.spans (hc.trans_le hle) hg⟩
  simp only [DiskJob.diskOffset, DiskJob.diskSize, hsize] at h1 h2
  have hk : k / blockSize = job.offset / blockSize :=
    Nat.div_eq_of_lt_le (hlow.trans h1) (by omega)
  rw [DiskJob.file, Leaf.getCachePath, hl.name] at hid
  exact hl.onDisk k (by omega) (hk ▸ hs) id hid

lemma disk_read (h : FreshInv files since origins diskSince s) {job : FuseReadFileJob} (hj : job.size ≤ blockSize)
    (hle : job.offset + job.size ≤ (s.leafs job.inode).size)
    (hs : (s.leafs job.inode).getStatus (job.offset / blockSize) = .onDisk)
    (hn : (job.offset / blockSize + 1) * blockSize < job.offset + job.size →
      (s.leafs job.inode).getStatus (job.offset / blockSize + 1) = .onDisk) :
    DiskFresh files since origins (.readFile job.request job.inode (s.leafs job.inode).getCachePath job.size
      job.offset .empty) (since job.inode) := by
  have hl := h.leafs job.inode
  have hend := Nat.add_one_mul (job.offset / blockSize) blockSize
  have hend' := Nat.add_one_mul (job.offset / blockSize + 1) blockSize
  have hlow := Nat.div_mul_le_self job.offset blockSize
  have hhigh : job.offset < job.offset / blockSize * blockSize + blockSize := Nat.lt_div_mul_add blockSize_pos
  refine ⟨le_rfl, hl.name, fun k h1 h2 id hid => ?_, fun sp hsp => absurd hsp List.not_mem_nil⟩
  simp only [DiskJob.diskOffset, DiskJob.diskSize, BufferView.totalSize, BufferView.empty, List.map_nil,
    List.sum_nil, Nat.sub_zero] at h1 h2
  rw [DiskJob.file, Leaf.getCachePath, hl.name] at hid
  refine hl.onDisk k (by omega) ?_ id hid
  by_cases hb : k < (job.offset / blockSize + 1) * blockSize
  · have hk : k / blockSize = job.offset / blockSize := Nat.div_eq_of_lt_le (hlow.trans h1) (by omega)
    rwa [hk]
  · have hk : k / blockSize = job.offset / blockSize + 1 := Nat.div_eq_of_lt_le (by omega) (by omega)
    rw [hk]
    exact hn (by omega)

lemma prefixed (h : FreshInv files since origins diskSince s) {job : FuseReadFileJob} (hj : job.size ≤ blockSize)
    (ho : job.offset < (s.leafs job.inode).size) (hle : job.offset + job.size ≤ (s.leafs job.inode).size)
    {buffer : BufferView} (hg : (s.leafs job.inode).getData job.offset job.size = some buffer)
    (ht : buffer.totalSize < job.size)
    (hs : (s.leafs job.inode).getStatus ((job.offset + buffer.totalSize) / blockSize) = .onDisk) :
    DiskFresh files since origins (.prefixDiskRead job.request job.inode buffer (s.leafs job.inode).getCachePath
      ((job.offset + buffer.totalSize) / blockSize * blockSize) (job.size - buffer.totalSize)) (since job.inode) := by
  have hl := h.leafs job.inode
  have hlow := Nat.div_mul_le_self (job.offset + buffer.totalSize) blockSize
  have hend := Nat.add_one_mul ((job.offset + buffer.totalSize) / blockSize) blockSize
  refine ⟨le_rfl, hl.name, fun k h1 h2 id hid => ?_, hl.spans ho hg⟩
  simp only [DiskJob.diskOffset, DiskJob.diskSize] at h1 h2
  rw [DiskJob.file, Leaf.getCachePath, hl.name] at hid
  have hk : k / blockSize = (job.offset + buffer.totalSize) / blockSize := Nat.div_eq_of_lt_le h1 (by omega)
  exact hl.onDisk k (by omega) (hk ▸ hs) id hid

lemma outcome (h : FreshInv files since origins diskSince s) {job : FuseReadFileJob} (hj : job.size ≤ blockSize)
    (hle : job.offset < (s.leafs job.inode).size → job.offset + job.size ≤ (s.leafs job.inode).size)
    (ho : job.Outcome s t) : ∃ n, FreshInv files since origins (diskSince ++ List.replicate n (since job.inode)) t := by
  have hnone {u : Client} (hu : FreshInv files since origins diskSince u) :
      FreshInv files since origins (diskSince ++ List.replicate 0 (since job.inode)) u := by
    rwa [List.replicate_zero, List.append_nil]
  cases ho with
  | error => exact ⟨0, hnone (h.reply _ _)⟩
  | unwind pins _ => exact ⟨0, hnone ((h.pinRanges _ _).reply _ _)⟩
  | again => exact ⟨0, hnone (h.scheduleCacheTreeJob hj)⟩
  | park index _ => exact ⟨0, hnone (h.addPendingJob hj index)⟩
  | fetch index n _ hi => exact ⟨0, hnone (((h.requestBlock hi).addPendingJob hj index).prefetchLoop _ _ _)⟩
  | append pinned hs hoff hc hg hd => exact ⟨1, h.scheduleDiskJob (h.append hj (hle hoff) hs hc hg hd)⟩
  | disk hs hoff hn => exact ⟨1, h.scheduleDiskJob (h.disk_read hj (hle hoff) hs hn)⟩
  | prefixed buffer hoff hg _ ht hs => exact ⟨1, h.scheduleDiskJob (h.prefixed hj hoff (hle hoff) hg ht hs)⟩
  | data buffer n _ _ _ => exact ⟨0, hnone ((h.prefetchLoop _ _ _).reply _ _)⟩

lemma fuseRead (h : FreshInv files since origins diskSince s) {job : FuseReadFileJob} (hj : job.size ≤ blockSize)
    (stop : Bool) :
    ∃ n, FreshInv files since origins (diskSince ++ List.replicate n (since job.inode)) (job.execute s stop) := by
  obtain ⟨c, ho⟩ := FuseReadFileJob.execute_outcome s job stop
  have hsize : (job.truncate (s.leafs job.inode).size).size ≤ blockSize := by
    rw [FuseReadFileJob.truncate]
    split_ifs
    · simp only
      omega
    · exact hj
  rw [← FuseReadFileJob.truncate_inode job (s.leafs job.inode).size]
  refine (h.withFileCache c).outcome hsize (fun hlt => ?_) ho
  rw [FuseReadFileJob.truncate_inode, FuseReadFileJob.truncate_offset] at hlt
  rw [FuseReadFileJob.truncate_inode]
  exact FuseReadFileJob.truncate_le hlt

lemma pendingExecute (h : FreshInv files since origins diskSince s) {job : FuseReadFilePendingJob}
    (hj : job.size ≤ blockSize) : FreshInv files since origins diskSince (Client.left (job.execute s)) := by
  obtain ⟨pins, -, -, he⟩ | ⟨arrived, requested, -, -, he⟩ := job.execute_cases s <;> rw [he]
  · exact h.pinRanges _ _
  · exact (h.pinRanges _ _).scheduleCacheTreeJob hj

lemma wake (h : FreshInv files since origins diskSince s) (inode index : ℕ) :
    FreshInv files since origins diskSince (Client.left (ApplyBlockCacheJob.wake s inode index)) := by
  have hset := h.setLeaf ((h.leafs inode).takePendingJobs index)
  refine Client.foldlM_induct (fun u job hjob hu => hu.pendingExecute ?_) hset
  obtain ⟨e, he, rfl⟩ := List.mem_map.mp hjob
  exact (h.leafs inode).pendings e (List.mem_of_mem_filter he)

lemma getFreeData (h : FreshInv files since origins diskSince s) {inode : ℕ} {job : WriteFileCacheJob}
    (hg : s.getFreeData inode = some (job, t)) :
    FreshInv files since origins diskSince t ∧
      FreshInv files since origins diskSince (t.scheduleCacheTreeJob (.writeFile job)) := by
  have hl := h.leafs inode
  obtain ⟨index, ranges, hf, -, rfl, rfl⟩ := Client.getFreeData_cases hl.keys hg
  obtain ⟨r, hr, hfresh⟩ := hl.blocks _ (Leaf.mem_of_findBlock hf)
  simp only at hr hfresh
  subst hr
  have hset := h.setLeaf (hl.eraseBlock index)
  have hevict : FreshInv files since origins diskSince
      (s.evict inode index ([r].flatMap Range.packets).length) :=
    ⟨hset.leafs, hset.jobs, hset.requests, hset.responses, hset.nextId, hset.disk⟩
  refine ⟨hevict, hevict.scheduleCacheTreeJob ⟨index, hfresh.offset, ?_, ?_⟩⟩
  · rw [← hl.size]
  · simpa [← hl.size] using hfresh.data

lemma addData (h : FreshInv files since origins diskSince s) {inode index : ℕ} {data : List CachedPacket}
    (hd : FreshData (files inode).content.length (since inode) index data) :
    FreshInv files since origins diskSince (s.addData inode (index * blockSize)
      (min blockSize ((files inode).content.length - index * blockSize)) data) := by
  have hl := h.leafs inode
  have hset := h.setLeaf (hl.addData (hl.size ▸ hd) s.nextId)
  rw [hl.size] at hset
  exact ⟨hset.leafs, hset.jobs, hset.requests, hset.responses, fun i => (h.nextId i).trans (Nat.le_succ _), hset.disk⟩

lemma pop (h : FreshInv files since origins diskSince s) {xs ys : List CacheTreeJob} {job : CacheTreeJob}
    (hq : s.cacheTreeQueue = xs ++ job :: ys) :
    JobFresh files since job ∧ FreshInv files since origins diskSince { s with cacheTreeQueue := xs ++ ys } := by
  refine ⟨h.jobs job (hq ▸ List.mem_append_right _ List.mem_cons_self), h.leafs, fun j hj => h.jobs j ?_, h.requests,
    h.responses, h.nextId, h.disk⟩
  rw [hq]
  exact ((List.sublist_cons_self job ys).append_left xs).subset hj

lemma applyBlock (h : FreshInv files since origins diskSince s) {job : ApplyBlockCacheJob} (hb : job.IsBlock)
    (hd : FreshData (files job.inode).content.length (since job.inode) job.index job.data) {picks : List ℕ}
    (ht : job.execute s picks = some t) : FreshInv files since origins diskSince t := by
  have hreaded : job.readed = min blockSize ((files job.inode).content.length - job.index * blockSize) :=
    (readed_eq hd.whole.cut).trans hd.whole.length
  refine ApplyBlockCacheJob.execute_induct (fun _ _ _ _ hu _ hv => hu.getFreeData hv) ht ?_
  rw [ApplyBlockCacheJob.deliver_of_none hb.request, ApplyBlockCacheJob.addBlock, hreaded, hb.skipped, Nat.add_zero,
    hb.offset]
  exact (h.addData hd).wake _ _

end FreshInv

lemma mem_writeOrigins {origins : String → ℕ → Option ℕ} {file path : String} {offset k id : ℕ} {ids : List ℕ}
    (h : id ∈ writeOrigins origins file offset ids path k) :
    path = file ∧ id ∈ ids ∨
      id ∈ origins path k ∧ ¬ (path = file ∧ offset ≤ k ∧ k < offset + ids.length) := by
  rw [writeOrigins, Function.update_apply] at h
  by_cases hp : path = file
  · rw [if_pos hp] at h
    split_ifs at h with hk
    · exact Or.inl ⟨hp, List.mem_of_getElem? h⟩
    · exact Or.inr ⟨hp ▸ h, fun hx => hk hx.2⟩
  · rw [if_neg hp] at h
    exact Or.inr ⟨h, fun hx => hp hx.1⟩

lemma mem_writtenOrigins {packets : List CachedPacket} {size id : ℕ} (h : id ∈ writtenOrigins packets size) :
    ∃ p ∈ packets, p.id = id := by
  obtain ⟨p, hp, hid⟩ := List.mem_flatMap.mp h
  obtain ⟨_, _, rfl⟩ := List.mem_map.mp hid
  exact ⟨p, List.mem_of_mem_take hp, rfl⟩

lemma writtenOrigins_length (packets : List CachedPacket) (size : ℕ) :
    (writtenOrigins packets size).length = (writtenBytes packets size).length := by
  simp [writtenOrigins, writtenBytes, List.length_flatMap]

lemma FreshData.written_length {fileSize since index : ℕ} {data : List CachedPacket}
    (h : FreshData fileSize since index data) :
    min blockSize (fileSize - index * blockSize) ≤
      (writtenOrigins data (min blockSize (fileSize - index * blockSize))).length := by
  obtain ⟨rest, hw, -⟩ := writtenBytes_spec h.whole.cut
  rw [h.whole.length] at hw
  rw [writtenOrigins_length, hw, List.length_append, h.whole.length]
  exact Nat.le_add_right _ _

lemma LeafFresh.written {file : RemoteFile} {since : ℕ} {origins : String → ℕ → Option ℕ}
    {leaf : Leaf FuseReadFilePendingJob} (h : LeafFresh file since (origins file.name) leaf) {index : ℕ}
    {ids : List ℕ} (hids : ∀ id ∈ ids, since ≤ id)
    (hlen : min blockSize (leaf.size - index * blockSize) ≤ ids.length) :
    LeafFresh file since (writeOrigins origins file.name (index * blockSize) ids file.name)
      (leaf.setStatus index .onDisk) := by
  refine ⟨h.name, h.size, h.keys, h.blocks, fun k hk hs id hid => ?_, h.pendings⟩
  rcases mem_writeOrigins hid with ⟨-, hid⟩ | ⟨hid, hout⟩
  · exact hids id hid
  · have hne : k / blockSize ≠ index := fun hx => by
      have hlow := Nat.div_mul_le_self k blockSize
      have hhigh : k < k / blockSize * blockSize + blockSize := Nat.lt_div_mul_add blockSize_pos
      have hsize : k < leaf.size := hk
      rw [hx] at hlow hhigh
      exact hout ⟨rfl, hlow, by omega⟩
    rw [Leaf.getStatus_setStatus_of_ne _ _ hne] at hs
    exact h.onDisk k hk hs id hid

namespace FreshInv

variable {files : ℕ → RemoteFile} {since : ℕ → ℕ} {origins : String → ℕ → Option ℕ} {diskSince : List ℕ}
  {s t : Client}

lemma writeFile (h : FreshInv files since origins diskSince s) {job : WriteFileCacheJob} {index : ℕ}
    (ho : job.offset = index * blockSize)
    (hs : job.size = min blockSize ((files job.inode).content.length - index * blockSize))
    (hd : FreshData (files job.inode).content.length (since job.inode) index job.data) (ha : Alone s job) :
    FreshInv files since (writeOrigins origins (s.leafs job.inode).getCachePath job.offset
      (writtenOrigins job.data job.size)) diskSince (job.execute s) := by
  have hl := h.leafs job.inode
  have hpath : (s.leafs job.inode).getCachePath = (files job.inode).name := hl.name
  have hids : ∀ id ∈ writtenOrigins job.data job.size, since job.inode ≤ id := fun id hid => by
    obtain ⟨p, hp, rfl⟩ := mem_writtenOrigins hid
    exact hd.ids p hp
  have hlen : min blockSize ((s.leafs job.inode).size - index * blockSize) ≤
      (writtenOrigins job.data job.size).length := by
    rw [hl.size, hs]
    exact hd.written_length
  have hindex : job.offset / blockSize = index := by
    rw [ho, Nat.mul_div_cancel _ blockSize_pos]
  refine ⟨fun i => ?_, h.jobs, h.requests, h.responses, h.nextId, ?_⟩
  · simp only [WriteFileCacheJob.execute, Client.leafs_setLeaf, hindex]
    by_cases hi : i = job.inode
    · subst hi
      rw [if_pos rfl, hpath, ho]
      exact hl.written hids hlen
    · rw [if_neg hi]
      have hli := h.leafs i
      refine ⟨hli.name, hli.size, hli.keys, hli.blocks, fun k hk hst id hid => ?_, hli.pendings⟩
      rcases mem_writeOrigins hid with ⟨hp, -⟩ | ⟨hid, -⟩
      · exact absurd hst (ha.blocks i hi (hli.name.trans hp) _)
      · exact hli.onDisk k hk hst id hid
  · obtain ⟨hlength, hzip⟩ := List.forall₂_iff_zip.mp h.disk
    refine List.forall₂_iff_zip.mpr ⟨hlength, fun {d epoch} hm => ?_⟩
    have hok := hzip hm
    refine ⟨hok.le_since, hok.file, fun k h1 h2 id hid => ?_, hok.spans⟩
    rcases mem_writeOrigins hid with ⟨hp, hid⟩ | ⟨hid, -⟩
    · by_cases hi : d.inode = job.inode
      · exact hok.le_since.trans (hi ▸ hids id hid)
      · exact absurd hp (ha.disk d (List.of_mem_zip hm).1 hi)
    · exact hok.region k h1 h2 id hid

lemma invalidate (h : FreshInv files since origins diskSince s) {inode : ℕ}
    (hu : s.underWay inode = []) :
    FreshInv files (Function.update since inode s.nextId) origins diskSince
      (s.setLeaf inode (s.leafs inode).invalidateDataCache) := by
  have hle : ∀ i, since i ≤ Function.update since inode s.nextId i := fun i => by
    rw [Function.update_apply]
    split_ifs with hi
    · exact h.nextId i
    · exact le_rfl
  obtain ⟨hresponses, hjobs⟩ := List.append_eq_nil_iff.mp hu
  rw [List.flatMap_eq_nil_iff] at hresponses hjobs
  refine ⟨fun i => ?_, fun job hj => ?_, h.requests, fun r hr => ?_, fun i => ?_, ?_⟩
  · rw [Client.leafs_setLeaf]
    split_ifs with hi
    · exact hi ▸ (h.leafs i).invalidateDataCache _ _
    · rw [Function.update_of_ne hi]
      exact h.leafs i
  · exact (h.jobs job hj).update (fun hd hi => hd (hjobs job (List.mem_filter.mpr ⟨hj, decide_eq_true hi⟩))) _
  · obtain ⟨hr1, hr2⟩ := h.responses r hr
    refine ⟨hr1, fun he => ?_⟩
    have hne : r.inode ≠ inode := fun hi =>
      (hr2 he).ne_nil (hresponses r (List.mem_filter.mpr ⟨hr, decide_eq_true ⟨hi, he⟩⟩))
    rw [Function.update_of_ne hne]
    exact hr2 he
  · rw [Function.update_apply]
    split_ifs
    · exact le_rfl
    · exact h.nextId i
  · exact h.disk.imp fun d epoch hd => ⟨hd.le_since.trans (hle _), hd.file, hd.region, hd.spans⟩

lemma answer (h : FreshInv files since origins diskSince s) {i error : ℕ} {data : List (List UInt8 × List UInt8)}
    (hw : error = 0 → ∀ r, s.requests[i]? = some r →
      WholeData (s.leafs r.inode).size r.index (Client.receivedPackets s.nextId data))
    (ht : s.step (.answer i error data) = some t) : FreshInv files since origins diskSince t := by
  obtain ⟨r, hr, rfl⟩ := Option.map_eq_some_iff.mp ht
  have hok := h.requests r (List.mem_append_right _ (List.mem_of_getElem? hr))
  refine ⟨h.leafs, h.jobs, fun x hx => h.requests x ?_, fun x hx => ?_,
    fun j => (h.nextId j).trans (Nat.le_add_right _ _), h.disk⟩
  · exact ((List.eraseIdx_sublist _ _).append_left _).subset hx
  · rcases List.mem_append.mp hx with hx | hx
    · exact h.responses x hx
    · rw [List.mem_singleton.mp hx]
      refine ⟨hok, fun he => ⟨?_, (h.leafs r.inode).size ▸ hw he r hr, fun p hp => ?_⟩⟩
      · rw [← hok.block.offset]
        exact hok.inFile
      · obtain ⟨e, -, rfl⟩ := List.mem_map.mp hp
        exact (h.nextId r.inode).trans (Nat.le_add_right _ _)

lemma receive (h : FreshInv files since origins diskSince s) {i : ℕ} (ht : s.step (.receive i) = some t) :
    FreshInv files since origins diskSince t := by
  obtain ⟨r, hr, rfl⟩ := Option.map_eq_some_iff.mp ht
  have hl : FreshInv files since origins diskSince { s with responses := s.responses.eraseIdx i } :=
    ⟨h.leafs, h.jobs, h.requests, fun x hx => h.responses x (List.mem_of_mem_eraseIdx hx), h.nextId, h.disk⟩
  obtain ⟨hok, hd⟩ := h.responses r (List.mem_of_getElem? hr)
  rw [Client.executeResponse]
  split_ifs with he
  · cases r.request with
    | none => exact hl
    | some request => exact hl.reply _ _
  · exact hl.scheduleCacheTreeJob ⟨⟨hok.block.request, hok.block.size, hok.block.skipped, hok.block.offset⟩,
      hd (not_not.mp he)⟩

lemma sendRequest (h : FreshInv files since origins diskSince s) (ht : s.step .sendRequest = some t) :
    FreshInv files since origins diskSince t := by
  simp only [Client.step] at ht
  split at ht
  · cases ht
  · rename_i r rest hq
    cases ht
    refine ⟨h.leafs, h.jobs, fun x hx => h.requests x ?_, h.responses, h.nextId, h.disk⟩
    rw [hq]
    have hperm : (rest ++ (s.requests ++ [r])).Perm (r :: rest ++ s.requests) := by
      rw [← List.append_assoc]
      exact List.perm_append_singleton _ _
    exact hperm.subset hx

lemma scheduled {n x : ℕ} (h : FreshInv files since origins diskSince s)
    (ht : FreshInv files since origins (diskSince ++ List.replicate n x) t) :
    t.diskQueue.length - s.diskQueue.length = n := by
  have hs := h.disk.length_eq
  have hlen := ht.disk.length_eq
  rw [List.length_append, List.length_replicate] at hlen
  omega

lemma jobUses (h : FreshInv files since origins diskSince s) {job : CacheTreeJob} (hj : JobFresh files since job)
    (stop : Bool) : ∀ u ∈ s.jobUses since stop job, u.Fresh := by
  intro u hu
  cases job with
  | fuseRead job =>
    rw [Client.jobUses] at hu
    split_ifs at hu with hs
    · exact absurd hu List.not_mem_nil
    · obtain ⟨buffer, hb, rfl⟩ := List.mem_map.mp hu
      rw [Option.mem_toList, Client.memoryReply] at hb
      simp only at hb
      split_ifs at hb with ho
      obtain ⟨hg, -⟩ := Option.filter_eq_some_iff.mp hb
      rw [FuseReadFileJob.truncate_offset] at hg
      intro id hid
      obtain ⟨sp, hsp, rfl⟩ := List.mem_map.mp hid
      exact (h.leafs job.inode).spans (not_le.mp ho) hg sp hsp
  | applyBlock job =>
    rw [List.mem_singleton.mp hu]
    intro id hid
    obtain ⟨p, hp, rfl⟩ := List.mem_map.mp hid
    exact hj.2.ids p hp
  | writeFile job =>
    obtain ⟨index, -, -, hd⟩ := hj
    rw [List.mem_singleton.mp hu]
    intro id hid
    obtain ⟨p, hp, rfl⟩ := List.mem_map.mp hid
    exact hd.ids p hp

end FreshInv

lemma DiskFresh.diskUse {files : ℕ → RemoteFile} {since : ℕ → ℕ} {origins : String → ℕ → Option ℕ} {job : DiskJob}
    {epoch : ℕ} (h : DiskFresh files since origins job epoch) : (Client.diskUse origins epoch job).Fresh := by
  intro id hid
  rcases List.mem_append.mp hid with hid | hid
  · obtain ⟨k, hk, hid⟩ := List.mem_filterMap.mp hid
    obtain ⟨h1, h2⟩ := List.mem_range'_1.mp hk
    exact h.region k h1 h2 id hid
  · obtain ⟨sp, hsp, rfl⟩ := List.mem_map.mp hid
    exact h.spans sp hsp

namespace TracedClient

structure TracedInv (files : ℕ → RemoteFile) (s : TracedClient) : Prop where
  fresh : FreshInv files s.since s.origins s.diskSince s.client
  uses : ∀ u ∈ s.uses, u.Fresh

namespace TracedInv

variable {files : ℕ → RemoteFile} {s t : TracedClient}

lemma executeJob (h : TracedInv files s) {xs ys : List CacheTreeJob} {job : CacheTreeJob}
    (hq : s.client.cacheTreeQueue = xs ++ job :: ys) (ha : ∀ j, job = .writeFile j → Alone s.client j)
    {shard : ℕ} {stop : Bool} {picks : List ℕ} {u : Client}
    (hu : job.execute { s.client with cacheTreeQueue := xs ++ ys } stop picks = some u) :
    TracedInv files (s.executeJob shard stop job u) := by
  obtain ⟨hj, hp⟩ := h.fresh.pop hq
  have huses : ∀ x ∈ (s.executeJob shard stop job u).uses, x.Fresh := fun x hx => by
    rcases List.mem_append.mp hx with hx | hx
    · exact h.uses x hx
    · exact h.fresh.jobUses hj stop x hx
  have hnone (hu : FreshInv files s.since (s.executeJob shard stop job u).origins s.diskSince u) :
      TracedInv files (s.executeJob shard stop job u) := by
    have hlen : u.diskQueue.length - s.client.diskQueue.length = 0 := by
      rw [hu.disk.length_eq, h.fresh.disk.length_eq, Nat.sub_self]
    refine ⟨?_, huses⟩
    simp only [TracedClient.executeJob, hlen, List.replicate_zero, List.append_nil]
    exact hu
  cases job with
  | fuseRead job =>
    cases hu
    obtain ⟨n, hn⟩ := (hp.unpinRanges job.inode job.pins).fuseRead hj stop
    refine ⟨?_, huses⟩
    simp only [TracedClient.executeJob, h.fresh.scheduled hn]
    exact hn
  | applyBlock job => exact hnone (hp.applyBlock hj.1 hj.2 hu)
  | writeFile job =>
    cases hu
    obtain ⟨index, ho, hs, hd⟩ := hj
    obtain ⟨hblocks, hdisk⟩ := ha job rfl
    exact hnone (hp.writeFile ho hs hd ⟨hblocks, hdisk⟩)

lemma act (h : TracedInv files s) {u : Client} (hu : FreshInv files s.since s.origins s.diskSince u) :
    TracedInv files { s with client := u } := ⟨hu, h.uses⟩

theorem step (h : TracedInv files s) {e : TracedAction} (hc : Clean s e) (ht : s.step e = some t) :
    TracedInv files t := by
  cases e with
  | act a =>
    cases a with
    | read request =>
      cases ht
      exact h.act (h.fresh.scheduleCacheTreeJob hc)
    | cacheTree shard stop picks =>
      rw [TracedClient.step] at ht
      split_ifs at ht
      obtain ⟨job, hj, ht⟩ := Option.bind_eq_some_iff.mp ht
      obtain ⟨u, hu, rfl⟩ := Option.map_eq_some_iff.mp ht
      obtain ⟨xs, ys, hq, he⟩ := find?_eraseP hj
      obtain ⟨job', hj', hu⟩ := Option.bind_eq_some_iff.mp hu
      cases hj.symm.trans hj'
      rw [he] at hu
      exact h.executeJob hq (fun j hx => hc j (hx ▸ hj)) hu
    | disk i =>
      obtain ⟨job, hj, ht⟩ := Option.bind_eq_some_iff.mp ht
      obtain ⟨epoch, he, ht⟩ := Option.bind_eq_some_iff.mp ht
      obtain ⟨u, hu, rfl⟩ := Option.map_eq_some_iff.mp ht
      obtain ⟨job', hj', rfl⟩ := Option.map_eq_some_iff.mp hu
      cases hj.symm.trans hj'
      have hf := h.fresh
      have hd : FreshInv files s.since s.origins (s.diskSince.eraseIdx i)
          { s.client with diskQueue := s.client.diskQueue.eraseIdx i } :=
        ⟨hf.leafs, hf.jobs, hf.requests, hf.responses, hf.nextId, forall₂_eraseIdx hf.disk i⟩
      refine ⟨(hd.unpinRanges _ _).reply _ _, fun x hx => ?_⟩
      rcases List.mem_append.mp hx with hx | hx
      · exact h.uses x hx
      · rw [List.mem_singleton.mp hx]
        exact (forall₂_getElem? hf.disk hj he).diskUse
    | sendRequest =>
      obtain ⟨u, hu, rfl⟩ := Option.map_eq_some_iff.mp ht
      exact h.act (h.fresh.sendRequest hu)
    | answer i error data =>
      obtain ⟨u, hu, rfl⟩ := Option.map_eq_some_iff.mp ht
      exact h.act (h.fresh.answer hc hu)
    | receive i =>
      obtain ⟨u, hu, rfl⟩ := Option.map_eq_some_iff.mp ht
      exact h.act (h.fresh.receive hu)
  | notifyInvalInode inode =>
    cases ht
    exact ⟨h.fresh, h.uses⟩
  | invalidate shard =>
    obtain ⟨e, he, ht⟩ := Option.bind_eq_some_iff.mp ht
    split_ifs at ht
    cases ht
    exact ⟨h.fresh.invalidate (hc e he), h.uses⟩

end TracedInv

theorem uses_fresh {files : ℕ → RemoteFile} {es : List TracedAction} {s : TracedClient}
    (h : Path step Clean (create files) es s) {u : Use} (hu : u ∈ s.uses) : u.Fresh := by
  have hcreate : TracedInv files (create files) :=
    ⟨FreshInv.create files _, fun _ hx => absurd hx List.not_mem_nil⟩
  exact (h.invariant (fun _ _ _ hs hc ht => hs.step hc ht) hcreate).uses u hu

def refreshRun : List TracedAction :=
  [.act (.read sampleRead), .act (.cacheTree 0 false []), .act .sendRequest, .act (.answer 0 0 [([7, 8, 9], [])]),
    .act (.receive 0), .act (.cacheTree 0 false []), .notifyInvalInode 8, .act (.cacheTree 0 false []), .invalidate 0,
    .act (.read sampleRead), .act (.cacheTree 0 false []), .act .sendRequest, .act (.answer 0 0 [([4, 5, 6], [])]),
    .act (.receive 0), .act (.cacheTree 0 false []), .act (.cacheTree 0 false [])]

theorem uses_fresh_refreshed : ∃ s, run step (create fun _ => sampleFile) refreshRun = some s ∧
    (⟨.reply, 8, 2, [2]⟩ : Use) ∈ s.uses ∧ Use.Fresh ⟨.reply, 8, 2, [2]⟩ := by
  have hp : ∃ s, run step (create fun _ => sampleFile) refreshRun = some s ∧
      (⟨.reply, 8, 2, [2]⟩ : Use) ∈ s.uses ∧ Path step Clean (create fun _ => sampleFile) refreshRun s := by
    refine ⟨_, rfl, by decide, ?_⟩
    have hread : sampleRead.size ≤ blockSize := by decide
    refine .cons hread rfl (.cons (fun _ hj => nomatch hj) rfl (.cons trivial rfl (.cons (fun _ r hr => ?_) rfl
      (.cons trivial rfl (.cons (fun _ hj => nomatch hj) rfl (.cons trivial rfl (.cons (fun _ hj => nomatch hj) rfl
        (.cons (fun e he => ?_) rfl (.cons hread rfl (.cons (fun _ hj => nomatch hj) rfl (.cons trivial rfl
          (.cons (fun _ r hr => ?_) rfl (.cons trivial rfl (.cons (fun _ hj => nomatch hj) rfl
            (.cons (fun _ hj => nomatch hj) rfl (.nil _))))))))))))))))
    · cases hr
      exact ⟨⟨[], ⟨0, [7, 8, 9], []⟩, rfl, fun p hp => absurd hp List.not_mem_nil, by decide, by decide, rfl⟩,
        by decide⟩
    · cases he
      rfl
    · cases hr
      exact ⟨⟨[], ⟨2, [4, 5, 6], []⟩, rfl, fun p hp => absurd hp List.not_mem_nil, by decide, by decide, rfl⟩,
        by decide⟩
  obtain ⟨s, hrun, hm, hp⟩ := hp
  exact ⟨s, hrun, hm, uses_fresh hp hm⟩

def staleRun : List TracedAction :=
  [.act (.read sampleRead), .act (.cacheTree 0 false []), .act .sendRequest, .act (.answer 0 0 [([7, 8, 9], [])]),
    .notifyInvalInode 8, .act (.receive 0), .invalidate 0, .act (.cacheTree 0 false []), .act (.cacheTree 0 false [])]

theorem old_response_marked_and_replied : ∃ s,
    run step (create fun _ => sampleFile) staleRun = some s ∧ (s.client.leafs 8).getStatus 0 = .inCache ∧
      s.uses = [⟨.inCache, 8, 1, [0]⟩, ⟨.reply, 8, 1, [0]⟩] ∧ ¬ ∀ u ∈ s.uses, u.Fresh :=
  ⟨_, rfl, rfl, rfl, by decide⟩

end TracedClient

end FastTransport.FileCache
