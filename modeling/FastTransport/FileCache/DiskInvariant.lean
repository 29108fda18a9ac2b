import FastTransport.FileCache.PinInvariant

/-! The cache files: a block marked on disk is there, disk jobs read what is there and what they pin, and the
replies are what was asked for. -/

namespace FastTransport.FileCache

open FileSystem Lib.Bytes Lib.Runs Lib.Lists

lemma flatMap_take_payload {packets : List CachedPacket} {n : ℕ} (h : ∀ p ∈ packets, p.payload.length = n) :
    (packets.flatMap fun p => (p.payload ++ p.behind).take n) = payloads packets := by
  induction packets with
  | nil => rfl
  | cons p ps ih =>
    rw [List.flatMap_cons, payloads_cons, ih fun q hq => h q (List.mem_cons_of_mem _ hq),
      List.take_left' (h p List.mem_cons_self)]

lemma vectors_eq {n m l : ℕ} (h0 : 0 < l) (hl : l ≤ m) :
    (if (n * m + l) % m ≠ 0 then (n * m + l) / m + 1 else (n * m + l) / m) = n + 1 := by
  have hdiv : (n * m + l) / m = n + l / m := by
    rw [Nat.mul_comm, Nat.mul_add_div (h0.trans_le hl)]
  rw [Nat.mul_add_mod', hdiv]
  rcases hl.eq_or_lt with rfl | hlt
  · rw [Nat.mod_self, if_neg (not_not.mpr rfl), Nat.div_self h0]
  · rw [Nat.mod_eq_of_lt hlt, if_pos h0.ne', Nat.div_eq_of_lt hlt]

lemma writtenBytes_spec {bytes : List UInt8} {packets : List CachedPacket} (h : IsCut bytes packets) :
    ∃ rest, writtenBytes packets bytes.length = bytes ++ rest ∧ (bytes.length = blockSize → rest = []) := by
  obtain ⟨init, last, rfl, hi, hpos, hle, rfl⟩ := h
  rw [payloads_append, List.length_append, payloads_length hi]
  simp only [payloads_cons, payloads_nil, List.append_nil]
  cases init with
  | nil =>
    refine ⟨[], ?_, fun _ => rfl⟩
    simp [writtenBytes, Nat.div_self hpos]
  | cons p ps =>
    have hp := hi p List.mem_cons_self
    refine ⟨last.behind.take (Protocol.maxPayloadSize - last.payload.length), ?_, fun hb => ?_⟩
    · have hblocks := vectors_eq (n := (p :: ps).length) hpos hle
      simp only [writtenBytes, List.cons_append, List.head?_cons, Option.map_some, Option.getD_some, hp]
      rw [hblocks, ← List.cons_append, List.take_of_length_le (by simp), List.flatMap_append, flatMap_take_payload hi,
        List.append_assoc]
      simp only [List.flatMap_cons, List.flatMap_nil, List.append_nil]
      rw [List.take_append, List.take_of_length_le hle]
    · simp only [Protocol.maxPayloadSize, blockSize, List.length_cons] at hb hle ⊢
      rw [show 1300 - last.payload.length = 0 by omega, List.take_zero]

lemma writtenBytes_agree {files : ℕ → RemoteFile} {job : WriteFileCacheJob} {index : ℕ}
    (h : WriteOk files job index) :
    (∀ i, i < (writtenBytes job.data job.size).length → job.offset + i < (files job.inode).content.length →
      (writtenBytes job.data job.size)[i]? = (files job.inode).content[job.offset + i]?) ∧
    min blockSize ((files job.inode).content.length - job.offset) ≤ (writtenBytes job.data job.size).length := by
  obtain ⟨rest, hw, hr⟩ := writtenBytes_spec h.data
  have hlen := Leaf.blockOf_length (files job.inode).content index
  rw [h.size, hw, h.offset]
  refine ⟨fun i hi hl => ?_, by rw [List.length_append, hlen]; omega⟩
  by_cases hb : i < (blockOf (files job.inode).content index).length
  · rw [List.getElem?_append_left hb, blockOf, getElem?_slice, if_pos (by omega)]
  · have hfull : (blockOf (files job.inode).content index).length = blockSize := by omega
    rw [hr hfull, List.append_nil] at hi
    exact absurd hi hb

structure DiskJobOk (A : Set ℕ) (files : ℕ → RemoteFile) (s : Client) (job : DiskJob) : Prop where
  inA : job.inode ∈ A
  file : job.file = (files job.inode).name
  held : (s.leafs job.inode).Held job.buffer
  agree : AgreeOn (s.disk job.file) (files job.inode).content job.diskOffset job.diskSize
  inFile : job.diskOffset + job.diskSize ≤ (files job.inode).content.length
  combine : job.combine (slice (files job.inode).content job.diskOffset job.diskSize) job.buffer.bytes =
    wanted files job.request

structure DiskInv (shortReads : Prop) (A : Set ℕ) (files : ℕ → RemoteFile) (s : Client) : Prop where
  onDisk : ∀ i ∈ A, ∀ index, (s.leafs i).getStatus index = .onDisk →
    AgreeOn (s.disk (files i).name) (files i).content (index * blockSize) blockSize
  diskJobs : shortReads → ∀ job ∈ s.diskQueue, DiskJobOk A files s job
  replies : shortReads → ∀ r ∈ s.replies, ∀ bytes, r.result = .data bytes → bytes = some (wanted files r.request)

lemma readSpans_of_held {leaf : Leaf FuseReadFilePendingJob} {view : BufferView} (h : leaf.Held view) :
    leaf.readSpans view.spans = some view.bytes := by
  rw [Leaf.readSpans, if_pos]
  · rfl
  · intro s hs
    obtain ⟨e, he, r, hr, -, hp⟩ := h s hs
    exact Leaf.mem_packets.mpr ⟨e, he, r, hr, hp⟩

lemma DiskJobOk.result {A : Set ℕ} {files : ℕ → RemoteFile} {s : Client} {job : DiskJob}
    (h : DiskJobOk A files s job) : job.result s = some (wanted files job.request) := by
  rw [DiskJob.result, readSpans_of_held h.held, Option.map_some, h.agree.slice_eq h.inFile, h.combine]

namespace DiskInv

variable {shortReads : Prop} {A : Set ℕ} {files : ℕ → RemoteFile} {s t : Client}

lemma create (shortReads : Prop) (A : Set ℕ) (files : ℕ → RemoteFile) : DiskInv shortReads A files (Client.create files) := by
  refine ⟨fun i _ index h => ?_, fun _ _ h => absurd h List.not_mem_nil,
    fun _ _ h => absurd h List.not_mem_nil⟩
  simp [Client.create] at h

lemma of_held (h : DiskInv shortReads A files s) (hd : t.disk = s.disk) (hq : t.diskQueue ⊆ s.diskQueue)
    (hr : t.replies = s.replies)
    (hs : ∀ i index, (t.leafs i).getStatus index = .onDisk → (s.leafs i).getStatus index = .onDisk)
    (hh : ∀ job ∈ t.diskQueue, (s.leafs job.inode).Held job.buffer → (t.leafs job.inode).Held job.buffer) :
    DiskInv shortReads A files t := by
  refine ⟨fun i hi index ho => hd ▸ h.onDisk i hi index (hs i index ho), fun hshort job hj => ?_, hr ▸ h.replies⟩
  have hok := h.diskJobs hshort job (hq hj)
  exact ⟨hok.inA, hok.file, hh job hj hok.held, hd ▸ hok.agree, hok.inFile, hok.combine⟩

lemma setLeaf (h : DiskInv shortReads A files s) {inode : ℕ} {leaf : Leaf FuseReadFilePendingJob}
    (hs : ∀ index, leaf.getStatus index = .onDisk → (s.leafs inode).getStatus index = .onDisk)
    (hh : ∀ job ∈ s.diskQueue, job.inode = inode → (s.leafs inode).Held job.buffer → leaf.Held job.buffer) :
    DiskInv shortReads A files (s.setLeaf inode leaf) := by
  refine h.of_held rfl (fun _ hj => hj) rfl (fun i index ho => ?_) fun job hj hheld => ?_
  · rw [Client.leafs_setLeaf] at ho
    split_ifs at ho with hi
    · rw [hi]
      exact hs index ho
    · exact ho
  · rw [Client.leafs_setLeaf]
    split_ifs with hi
    · exact hh job hj hi (hi ▸ hheld)
    · exact hheld

lemma reply (h : DiskInv shortReads A files s) {request : FuseRequest} {result : ReadResult}
    (hr : shortReads → ∀ bytes, result = .data bytes → bytes = some (wanted files request)) :
    DiskInv shortReads A files (s.reply request result) := by
  refine ⟨h.onDisk, fun hshort job hj => ?_, fun hshort r hm => ?_⟩
  · have hok := h.diskJobs hshort job hj
    exact ⟨hok.inA, hok.file, hok.held, hok.agree, hok.inFile, hok.combine⟩
  · rcases List.mem_append.mp hm with hm | hm
    · exact h.replies hshort r hm
    · rw [List.mem_singleton.mp hm]
      exact hr hshort

lemma held_mapRanges {leaf : Leaf FuseReadFilePendingJob} {view : BufferView} (h : leaf.Held view)
    {f : Range → Range} (hf : ∀ r, (f r).id = r.id ∧ (f r).packets = r.packets) :
    (leaf.mapRanges f).Held view := by
  intro sp hsp
  obtain ⟨e, he, r, hr, hid, hp⟩ := h sp hsp
  exact ⟨_, List.mem_map_of_mem he, f r, List.mem_map_of_mem hr, (hf r).1 ▸ hid, (hf r).2 ▸ hp⟩

lemma pinRanges (h : DiskInv shortReads A files s) (inode : ℕ) (ids : List ℕ) : DiskInv shortReads A files (s.pinRanges inode ids) :=
  h.setLeaf (fun _ ho => ho) fun _ _ _ hh => held_mapRanges hh fun _ => ⟨rfl, rfl⟩

lemma unpinRanges (h : DiskInv shortReads A files s) (inode : ℕ) (ids : List ℕ) :
    DiskInv shortReads A files (s.unpinRanges inode ids) :=
  h.setLeaf (fun _ ho => ho) fun _ _ _ hh => held_mapRanges hh fun _ => ⟨rfl, rfl⟩

lemma withFileCache (h : DiskInv shortReads A files s) (c : FileSystem.FileCache) :
    DiskInv shortReads A files { s with fileCache := c } :=
  h.of_held rfl (fun _ hj => hj) rfl (fun _ _ ho => ho) fun _ _ hh => hh

lemma scheduleCacheTreeJob (h : DiskInv shortReads A files s) (job : CacheTreeJob) :
    DiskInv shortReads A files (s.scheduleCacheTreeJob job) :=
  h.of_held rfl (fun _ hj => hj) rfl (fun _ _ ho => ho) fun _ _ hh => hh

lemma addPendingJob (h : DiskInv shortReads A files s) (job : FuseReadFileJob) (index : ℕ) :
    DiskInv shortReads A files (FuseReadFileJob.addPendingJob s job index) :=
  h.setLeaf (fun _ ho => ho) fun _ _ _ hh => hh

lemma onDisk_of_setStatus {leaf : Leaf FuseReadFilePendingJob} {index j : ℕ} {status : PieceStatus}
    (hs : status ≠ .onDisk) (h : (leaf.setStatus index status).getStatus j = .onDisk) :
    leaf.getStatus j = .onDisk := by
  rcases leaf.getStatus_setStatus_cases index status j with hc | hc
  · exact absurd (hc.symm.trans h) hs
  · exact hc.symm.trans h

lemma requestBlock (h : DiskInv shortReads A files s) (inode index : ℕ) : DiskInv shortReads A files (s.requestBlock inode index) := by
  have hset : DiskInv shortReads A files (s.setLeaf inode ((s.leafs inode).setStatus index .inFlight)) :=
    h.setLeaf (fun _ ho => onDisk_of_setStatus PieceStatus.noConfusion ho) fun _ _ _ hh => hh
  exact hset.of_held rfl (fun _ hj => hj) rfl (fun _ _ ho => ho) fun _ _ hh => hh

lemma scheduleDiskJob (h : DiskInv shortReads A files s) {job : DiskJob}
    (hj : shortReads → DiskJobOk A files s job) :
    DiskInv shortReads A files (s.scheduleDiskJob job) := by
  have hp := h.pinRanges job.inode job.buffer.pin
  refine ⟨hp.onDisk, fun hshort j hm => ?_, hp.replies⟩
  rcases List.mem_append.mp hm with hm | hm
  · have hok := hp.diskJobs hshort j hm
    exact ⟨hok.inA, hok.file, hok.held, hok.agree, hok.inFile, hok.combine⟩
  · have hj := hj hshort
    rw [List.mem_singleton.mp hm]
    refine ⟨hj.inA, hj.file, ?_, hj.agree, hj.inFile, hj.combine⟩
    simp only [Client.scheduleDiskJob, Client.pinRanges, Client.leafs_setLeaf, if_pos]
    exact held_mapRanges hj.held fun _ => ⟨rfl, rfl⟩

lemma append_ok (h : DiskInv shortReads A files s) (hb : BlockInv A files s) (hm : MemoryInv shortReads files s)
    (hshort : shortReads) {job : FuseReadFileJob} (hA : job.inode ∈ A)
    (hj : ReadOk shortReads files job.inode job.size job.offset job.request)
    (hle : job.offset + job.size ≤ (files job.inode).content.length) {pinned : BufferView}
    (hs : (s.leafs job.inode).getStatus (job.offset / blockSize) = .onDisk)
    (hc : (job.offset / blockSize + 1) * blockSize < job.offset + job.size)
    (hg : (s.leafs job.inode).getData ((job.offset / blockSize + 1) * blockSize)
      (job.offset + job.size - (job.offset / blockSize + 1) * blockSize) = some pinned)
    (hd : pinned.hasData = true) :
    DiskJobOk A files s (.readFile job.request job.inode (s.leafs job.inode).getCachePath job.size job.offset
      pinned) := by
  have hlow := Nat.div_mul_le_self job.offset blockSize
  have hhigh : job.offset < job.offset / blockSize * blockSize + blockSize := Nat.lt_div_mul_add blockSize_pos
  have hblock := hj.short hshort
  have hmod : (job.offset / blockSize + 1) * blockSize % blockSize = 0 := Nat.mul_mod_left _ _
  have hend : (job.offset / blockSize + 1) * blockSize = job.offset / blockSize * blockSize + blockSize :=
    Nat.succ_mul _ _
  have hagree := h.onDisk job.inode hA _ hs
  generalize (job.offset / blockSize + 1) * blockSize = blockEnd at *
  obtain ⟨view, total, hv, hr⟩ := Leaf.getData_spec (hm.holdsBlocks hb job.inode)
    (job.offset + job.size - blockEnd) (hc.trans_le hle)
  cases hg.symm.trans hv
  rw [Nat.min_eq_left (by omega)] at hr
  have htotal := hr.total_eq hmod (by omega) hd
  have hsize : pinned.totalSize = job.offset + job.size - blockEnd := hr.totalSize_eq.trans htotal
  have hdisk : job.size - (job.offset + job.size - blockEnd) = blockEnd - job.offset := by omega
  have hbytes : pinned.bytes = slice (files job.inode).content blockEnd (job.offset + job.size - blockEnd) := by
    rw [hr.bytes, htotal]
    exact List.nil_append _
  refine ⟨hA, (hb.leafs job.inode).name, hr.held, ?_, ?_, ?_⟩
  · simp only [DiskJob.diskOffset, DiskJob.diskSize, DiskJob.inode, DiskJob.file, hsize, hdisk]
    rw [Leaf.getCachePath, (hb.leafs job.inode).name]
    exact hagree.mono hlow (by omega)
  · simp only [DiskJob.diskOffset, DiskJob.diskSize, DiskJob.inode, hsize, hdisk]
    omega
  · simp only [DiskJob.combine, DiskJob.diskOffset, DiskJob.diskSize, DiskJob.inode, DiskJob.buffer,
      DiskJob.request, hsize, hdisk, hbytes]
    rw [← hj.bytes, ← Nat.add_sub_cancel' (show job.offset ≤ blockEnd by omega), Nat.add_sub_cancel_left,
      ← slice_append]
    congr 1
    omega

lemma disk_ok (h : DiskInv shortReads A files s) (hb : BlockInv A files s) (hshort : shortReads)
    {job : FuseReadFileJob} (hA : job.inode ∈ A)
    (hj : ReadOk shortReads files job.inode job.size job.offset job.request)
    (hle : job.offset + job.size ≤ (files job.inode).content.length)
    (hs : (s.leafs job.inode).getStatus (job.offset / blockSize) = .onDisk)
    (hn : (job.offset / blockSize + 1) * blockSize < job.offset + job.size →
      (s.leafs job.inode).getStatus (job.offset / blockSize + 1) = .onDisk) :
    DiskJobOk A files s (.readFile job.request job.inode (s.leafs job.inode).getCachePath job.size job.offset
      .empty) := by
  have hlow := Nat.div_mul_le_self job.offset blockSize
  have hhigh : job.offset < job.offset / blockSize * blockSize + blockSize := Nat.lt_div_mul_add blockSize_pos
  have hblock := hj.short hshort
  have hend : (job.offset / blockSize + 1) * blockSize = job.offset / blockSize * blockSize + blockSize :=
    Nat.succ_mul _ _
  have hfirst := h.onDisk job.inode hA _ hs
  have hagree : AgreeOn (s.disk (files job.inode).name) (files job.inode).content job.offset job.size := by
    by_cases hc : (job.offset / blockSize + 1) * blockSize < job.offset + job.size
    · have hsecond := h.onDisk job.inode hA _ (hn hc)
      rw [hend] at hsecond
      exact (hfirst.append hsecond).mono hlow (by omega)
    · exact hfirst.mono hlow (by omega)
  refine ⟨hA, (hb.leafs job.inode).name, fun sp hsp => absurd hsp List.not_mem_nil, ?_, hle, ?_⟩
  · simp only [DiskJob.diskOffset, DiskJob.diskSize, DiskJob.inode, DiskJob.file]
    rw [Leaf.getCachePath, (hb.leafs job.inode).name]
    exact hagree
  · simp only [DiskJob.combine, DiskJob.diskOffset, DiskJob.diskSize, DiskJob.inode, DiskJob.buffer,
      DiskJob.request]
    rw [← hj.bytes]
    exact List.append_nil _

lemma prefixed_ok (h : DiskInv shortReads A files s) (hb : BlockInv A files s) (hm : MemoryInv shortReads files s)
    (hshort : shortReads) {job : FuseReadFileJob} (hA : job.inode ∈ A)
    (hj : ReadOk shortReads files job.inode job.size job.offset job.request)
    (hle : job.offset + job.size ≤ (files job.inode).content.length) {buffer : BufferView}
    (hg : (s.leafs job.inode).getData job.offset job.size = some buffer) (hd : buffer.hasData = true)
    (ht : buffer.totalSize < job.size)
    (hs : (s.leafs job.inode).getStatus ((job.offset + buffer.totalSize) / blockSize) = .onDisk) :
    DiskJobOk A files s (.prefixDiskRead job.request job.inode buffer (s.leafs job.inode).getCachePath
      ((job.offset + buffer.totalSize) / blockSize * blockSize) (job.size - buffer.totalSize)) := by
  have hblock := hj.short hshort
  obtain ⟨view, total, hv, hr⟩ := Leaf.getData_spec (hm.holdsBlocks hb job.inode) job.size
    (show job.offset < (files job.inode).content.length by omega)
  cases hg.symm.trans hv
  rw [Nat.min_eq_left (by omega)] at hr
  have hsize : buffer.totalSize = total := hr.totalSize_eq
  rw [hsize] at ht hs ⊢
  have hpos : 0 < total := by
    by_contra h0
    rw [hr.idle (by omega)] at hd
    cases hd
  have hnext : (job.offset + total) / blockSize * blockSize = job.offset + total :=
    Nat.div_mul_cancel (Nat.dvd_of_mod_eq_zero (hr.aligned hpos ht))
  have hagree := h.onDisk job.inode hA _ hs
  rw [hnext] at hagree ⊢
  have hbytes : buffer.bytes = slice (files job.inode).content job.offset total := hr.bytes
  refine ⟨hA, (hb.leafs job.inode).name, hr.held, ?_, ?_, ?_⟩
  · simp only [DiskJob.diskOffset, DiskJob.diskSize, DiskJob.inode, DiskJob.file]
    rw [Leaf.getCachePath, (hb.leafs job.inode).name]
    exact hagree.mono le_rfl (by omega)
  · simp only [DiskJob.diskOffset, DiskJob.diskSize, DiskJob.inode]
    omega
  · simp only [DiskJob.combine, DiskJob.diskOffset, DiskJob.diskSize, DiskJob.inode, DiskJob.buffer,
      DiskJob.request, hbytes]
    rw [← hj.bytes, ← slice_append]
    congr 1
    omega

lemma data_ok (hb : BlockInv A files s) (hm : MemoryInv shortReads files s) {job : FuseReadFileJob}
    (hj : ReadOk shortReads files job.inode job.size job.offset job.request)
    (ho : job.offset < (files job.inode).content.length)
    (hle : job.offset + job.size ≤ (files job.inode).content.length) {buffer : BufferView}
    (hg : (s.leafs job.inode).getData job.offset job.size = some buffer) (ht : job.size ≤ buffer.totalSize) :
    (s.leafs job.inode).readSpans buffer.spans = some (wanted files job.request) := by
  obtain ⟨view, total, hv, hr⟩ := Leaf.getData_spec (hm.holdsBlocks hb job.inode) job.size ho
  cases hg.symm.trans hv
  rw [Nat.min_eq_left (by omega)] at hr
  have hsize : buffer.totalSize = total := hr.totalSize_eq
  have hle' := hr.le
  have hbytes : buffer.bytes = slice (files job.inode).content job.offset total := hr.bytes
  rw [readSpans_of_held hr.held, hbytes, show total = job.size by omega, hj.bytes]

lemma outcome (h : DiskInv shortReads A files s) (hb : BlockInv A files s) (hm : MemoryInv shortReads files s) {job : FuseReadFileJob}
    (hA : job.inode ∈ A) (hj : ReadOk shortReads files job.inode job.size job.offset job.request)
    (hle : job.offset < (s.leafs job.inode).size → job.offset + job.size ≤ (s.leafs job.inode).size)
    (ho : job.Outcome s t) : DiskInv shortReads A files t := by
  rw [(hb.leafs job.inode).size] at hle
  have hsize := (hb.leafs job.inode).size
  have hfetch : ∀ s index, DiskInv shortReads A files s → (s.leafs job.inode).getStatus index = .notFound →
      index * blockSize < (s.leafs job.inode).size → DiskInv shortReads A files (s.requestBlock job.inode index) :=
    fun s index h _ _ => h.requestBlock job.inode index
  cases ho with
  | error => exact h.reply fun _ bytes hx => by cases hx
  | unwind pins _ => exact (h.pinRanges job.inode pins).reply fun _ bytes hx => by cases hx
  | again => exact h.scheduleCacheTreeJob _
  | park index _ => exact h.addPendingJob job index
  | fetch index n _ _ =>
    exact Client.prefetchLoop_induct hfetch _ _ ((h.requestBlock job.inode index).addPendingJob job index)
  | append pinned hs hoff hc hg hd =>
    exact h.scheduleDiskJob fun hx => (h.append_ok hb hm hx hA hj (hle (hsize ▸ hoff)) hs hc hg hd)
  | disk hs hoff hn => exact h.scheduleDiskJob fun hx => (h.disk_ok hb hx hA hj (hle (hsize ▸ hoff)) hs hn)
  | prefixed buffer hoff hg hd ht hs =>
    exact h.scheduleDiskJob fun hx => (h.prefixed_ok hb hm hx hA hj (hle (hsize ▸ hoff)) hg hd ht hs)
  | data buffer n hoff hg ht =>
    have hp : DiskInv shortReads A files (s.prefetchLoop job.inode (job.offset / blockSize) n) :=
      Client.prefetchLoop_induct hfetch _ _ h
    refine hp.reply fun _ bytes hx => ?_
    cases hx
    exact data_ok hb hm hj (hsize ▸ hoff) (hle (hsize ▸ hoff)) hg ht

lemma addData (h : DiskInv shortReads A files s) {inode offset : ℕ} (size : ℕ) (data : List CachedPacket)
    (hf : (s.leafs inode).findBlock (offset / blockSize) = none) :
    DiskInv shortReads A files (s.addData inode offset size data) := by
  have hleaf := BlockInv.leafs_addData size data hf
  refine h.of_held rfl (fun _ hj => hj) rfl (fun i index ho => ?_) fun job hj hh => ?_
  · rw [hleaf] at ho
    split_ifs at ho with hi
    · rw [hi]
      exact onDisk_of_setStatus PieceStatus.noConfusion ho
    · exact ho
  · rw [hleaf]
    split_ifs with hi
    · intro sp hsp
      obtain ⟨e, he, hr⟩ := hh sp hsp
      exact ⟨e, List.mem_cons_of_mem _ (hi ▸ he), hr⟩
    · exact hh

lemma takePendingJobs (h : DiskInv shortReads A files s) (inode index : ℕ) :
    DiskInv shortReads A files (s.setLeaf inode ((s.leafs inode).takePendingJobs index).2) :=
  h.setLeaf (fun _ ho => ho) fun _ _ _ hh => hh

lemma pendingExecute (h : DiskInv shortReads A files s) (job : FuseReadFilePendingJob) :
    DiskInv shortReads A files (Client.left (job.execute s)) := by
  obtain ⟨pins, -, -, he⟩ | ⟨arrived, requested, -, -, he⟩ := job.execute_cases s <;> rw [he]
  · exact h.pinRanges _ _
  · exact (h.pinRanges _ _).scheduleCacheTreeJob _

lemma held_eraseBlock (hp : PinInv s) (hb : BlockInv A files s) {job : DiskJob} (hj : job ∈ s.diskQueue)
    {index : ℕ} {ranges : List Range} (hf : (s.leafs job.inode).findBlock index = some ranges)
    (hc : ∀ r ∈ ranges, r.counter ≤ 1) (hh : (s.leafs job.inode).Held job.buffer) :
    (((s.leafs job.inode).eraseBlock index).setStatus index .notFound).Held job.buffer := by
  intro sp hsp
  obtain ⟨e, he, r, hr, hid, hpk⟩ := hh sp hsp
  refine ⟨e, List.mem_filter.mpr ⟨he, ?_⟩, r, hr, hid, hpk⟩
  have hlive : r.id ∈ s.livePins job.inode := by
    refine List.mem_append_right _ (List.mem_flatMap.mpr ⟨job, ?_, hid⟩)
    exact List.mem_filter.mpr ⟨hj, decide_eq_true rfl⟩
  have hcount := List.count_pos_iff.mpr hlive
  have hr2 := hp.counters job.inode e he r hr
  simp only [decide_eq_true_eq, ne_eq]
  intro hx
  have hfe : (s.leafs job.inode).findBlock e.1 = some e.2 := (hb.leafs job.inode).keys.findBlock he
  rw [hx, hf] at hfe
  have := hc r (Option.some.inj hfe ▸ hr)
  omega

lemma evict (h : DiskInv shortReads A files s) (hb : BlockInv A files s) (hp : PinInv s) {inode index : ℕ}
    {ranges : List Range} (hf : (s.leafs inode).findBlock index = some ranges)
    (hc : ∀ r ∈ ranges, r.counter ≤ 1) (packets : ℕ) : DiskInv shortReads A files (s.evict inode index packets) := by
  have hset : DiskInv shortReads A files
      (s.setLeaf inode (((s.leafs inode).eraseBlock index).setStatus index .notFound)) := by
    refine h.setLeaf (fun j ho => ?_) fun job hj hi hh => ?_
    · exact @onDisk_of_setStatus ((s.leafs inode).eraseBlock index) _ _ _ PieceStatus.noConfusion ho
    · subst hi
      exact held_eraseBlock hp hb hj hf hc hh
  exact hset.of_held rfl (fun _ hj => hj) rfl (fun _ _ ho => ho) fun _ _ hh => hh

lemma getFreeData (h : DiskInv shortReads A files s) (hb : BlockInv A files s) (hp : PinInv s) {inode : ℕ}
    {job : WriteFileCacheJob} (hg : s.getFreeData inode = some (job, t)) :
    DiskInv shortReads A files t ∧ DiskInv shortReads A files (t.scheduleCacheTreeJob (.writeFile job)) := by
  obtain ⟨index, ranges, hf, hc, rfl, rfl⟩ := Client.getFreeData_cases (hb.leafs inode).keys hg
  have ht := h.evict hb hp hf hc (ranges.flatMap Range.packets).length
  exact ⟨ht, ht.scheduleCacheTreeJob _⟩

lemma pop (h : DiskInv shortReads A files s) (jobs : List CacheTreeJob) :
    DiskInv shortReads A files { s with cacheTreeQueue := jobs } :=
  h.of_held rfl (fun _ hj => hj) rfl (fun _ _ ho => ho) fun _ _ hh => hh

lemma deliver (h : DiskInv shortReads A files s) (hb : BlockInv A files s) {xs ys : List CacheTreeJob}
    {job : ApplyBlockCacheJob} (hq : s.cacheTreeQueue = xs ++ .applyBlock job :: ys) :
    DiskInv shortReads A files (Client.left (job.deliver { s with cacheTreeQueue := xs ++ ys })) := by
  obtain ⟨-, hblock, -, hf, -⟩ := hb.applyBlock_facts hq
  rw [ApplyBlockCacheJob.deliver_of_none hblock.request]
  refine Client.foldlM_induct (fun _ job _ hv => hv.pendingExecute job) (DiskInv.takePendingJobs ?_ _ _)
  rw [ApplyBlockCacheJob.addBlock, hblock.skipped]
  exact (h.pop (xs ++ ys)).addData _ _ hf

lemma applyBlock (h : DiskInv shortReads A files s) (hb : BlockInv A files s) (hp : PinInv s) {xs ys : List CacheTreeJob}
    {job : ApplyBlockCacheJob} (hq : s.cacheTreeQueue = xs ++ .applyBlock job :: ys) {picks : List ℕ}
    (ht : job.execute { s with cacheTreeQueue := xs ++ ys } picks = some t) : DiskInv shortReads A files t := by
  refine (ApplyBlockCacheJob.execute_induct
    (P := fun v => BlockInv A files v ∧ PinInv v ∧ DiskInv shortReads A files v) ?_ ht
    ⟨hb.deliver hq, hp.deliver hb hq, h.deliver hb hq⟩).2.2
  rintro v inode job' w ⟨hvb, hvp, hv⟩ hm hg
  obtain ⟨h1, h2⟩ := hvb.getFreeData hm hg
  obtain ⟨h3, h4⟩ := hvp.getFreeData hvb hg
  obtain ⟨h5, h6⟩ := hv.getFreeData hvb hvp hg
  exact ⟨⟨h1, h3, h5⟩, h2, h4, h6⟩

lemma writeFile (h : DiskInv shortReads A files s) (hb : BlockInv A files s)
    (hinj : Set.InjOn (fun i => (files i).name) A) {job : WriteFileCacheJob} (hA : job.inode ∈ A) {index : ℕ}
    (hj : WriteOk files job index) : DiskInv shortReads A files (job.execute s) := by
  obtain ⟨hd, hlen⟩ := writtenBytes_agree hj
  have hpath : (s.leafs job.inode).getCachePath = (files job.inode).name := (hb.leafs job.inode).name
  have hindex : job.offset / blockSize = index := by
    rw [hj.offset, Nat.mul_div_cancel _ blockSize_pos]
  have hagree : ∀ i ∈ A, ∀ offset size, AgreeOn (s.disk (files i).name) (files i).content offset size →
      AgreeOn ((job.execute s).disk (files i).name) (files i).content offset size := by
    intro i hi offset size ha
    simp only [WriteFileCacheJob.execute, hpath, Function.update_apply]
    split_ifs with hn
    · have hii : i = job.inode := hinj hi hA hn
      subst hii
      exact ha.writeAt hd
    · exact ha
  refine ⟨fun i hi j hs => ?_, fun hshort job' hj' => ?_, h.replies⟩
  · by_cases hx : i = job.inode ∧ j = index
    · obtain ⟨rfl, rfl⟩ := hx
      simp only [WriteFileCacheJob.execute, hpath, Function.update_self]
      rw [← hj.offset]
      exact agreeOn_writeAt_self _ hd hlen
    · refine hagree i hi _ _ (h.onDisk i hi j ?_)
      simp only [WriteFileCacheJob.execute, Client.leafs_setLeaf, hindex] at hs
      split_ifs at hs with hii
      · subst hii
        have hlt : index < (s.leafs job.inode).piecesStatus.size :=
          (hb.leafs job.inode).lt_pieces ((hb.leafs job.inode).size ▸ hj.inFile)
        rwa [Leaf.getStatus_setStatus _ _ hlt, if_neg fun hjx => hx ⟨rfl, hjx⟩] at hs
      · exact hs
  · have hok := h.diskJobs hshort job' hj'
    refine ⟨hok.inA, hok.file, ?_, ?_, hok.inFile, hok.combine⟩
    · simp only [WriteFileCacheJob.execute, Client.leafs_setLeaf]
      split_ifs with hii
      · exact hii ▸ hok.held
      · exact hok.held
    · rw [hok.file]
      exact hagree _ hok.inA _ _ (hok.file ▸ hok.agree)

lemma fuseRead (h : DiskInv shortReads A files s) (hb : BlockInv A files s) (hm : MemoryInv shortReads files s)
    {xs ys : List CacheTreeJob} {job : FuseReadFileJob} (hq : s.cacheTreeQueue = xs ++ .fuseRead job :: ys)
    (stop : Bool) : DiskInv shortReads A files (job.execute
      (({ s with cacheTreeQueue := xs ++ ys } : Client).unpinRanges job.inode job.pins) stop) := by
  have hA : job.inode ∈ A := hb.job_inA hq
  obtain ⟨hj, hmp⟩ := hm.pop hq
  have hub : BlockInv A files (({ s with cacheTreeQueue := xs ++ ys } : Client).unpinRanges job.inode job.pins) :=
    (hb.pop hq).mapRanges _ _
  have hum := hmp.unpinRanges job.inode job.pins
  have hud := (h.pop (xs ++ ys)).unpinRanges job.inode job.pins
  obtain ⟨c, ho⟩ := FuseReadFileJob.execute_outcome
    (({ s with cacheTreeQueue := xs ++ ys } : Client).unpinRanges job.inode job.pins) job stop
  refine (hud.withFileCache c).outcome (hub.withFileCache c) (hum.withFileCache c) ?_
    (MemoryInv.readOk_truncate hub hj) (fun hlt => ?_) ho
  · rwa [FuseReadFileJob.truncate_inode]
  · rw [FuseReadFileJob.truncate_inode, FuseReadFileJob.truncate_offset] at hlt
    rw [FuseReadFileJob.truncate_inode]
    exact FuseReadFileJob.truncate_le hlt

lemma cacheTreeJob (h : DiskInv shortReads A files s) (hb : BlockInv A files s) (hm : MemoryInv shortReads files s) (hp : PinInv s)
    (hinj : Set.InjOn (fun i => (files i).name) A) {xs ys : List CacheTreeJob} {job : CacheTreeJob}
    (hq : s.cacheTreeQueue = xs ++ job :: ys) {stop : Bool} {picks : List ℕ}
    (ht : job.execute { s with cacheTreeQueue := xs ++ ys } stop picks = some t) : DiskInv shortReads A files t := by
  cases job with
  | fuseRead job =>
    cases ht
    exact h.fuseRead hb hm hq stop
  | applyBlock job => exact h.applyBlock hb hp hq ht
  | writeFile job =>
    cases ht
    obtain ⟨⟨index, hj⟩, -⟩ := hm.pop hq
    exact (h.pop (xs ++ ys)).writeFile (hb.pop hq) hinj (hb.job_inA hq) hj

theorem step (h : DiskInv shortReads A files s) (hb : BlockInv A files s) (hm : MemoryInv shortReads files s) (hp : PinInv s)
    (hinj : Set.InjOn (fun i => (files i).name) A) {a : Action} (ht : s.step a = some t) : DiskInv shortReads A files t := by
  cases a with
  | read request =>
    cases ht
    exact h.scheduleCacheTreeJob _
  | cacheTree shard stop picks =>
    obtain ⟨job, hj, ht⟩ := Option.bind_eq_some_iff.mp ht
    obtain ⟨xs, ys, hq, he⟩ := find?_eraseP hj
    rw [he] at ht
    exact h.cacheTreeJob hb hm hp hinj hq ht
  | disk i =>
    obtain ⟨job, hj, rfl⟩ := Option.map_eq_some_iff.mp ht
    have hd : DiskInv shortReads A files { s with diskQueue := s.diskQueue.eraseIdx i } :=
      h.of_held rfl (fun _ hm => List.mem_of_mem_eraseIdx hm) rfl (fun _ _ ho => ho) fun _ _ hh => hh
    refine (hd.unpinRanges job.inode job.buffer.pin).reply fun hshort bytes hx => ?_
    cases hx
    exact (h.diskJobs hshort job (List.mem_of_getElem? hj)).result
  | sendRequest =>
    simp only [Client.step] at ht
    split at ht
    · cases ht
    · cases ht
      exact h.of_held rfl (fun _ hj => hj) rfl (fun _ _ ho => ho) fun _ _ hh => hh
  | answer i error data =>
    obtain ⟨r, hr, rfl⟩ := Option.map_eq_some_iff.mp ht
    exact h.of_held rfl (fun _ hj => hj) rfl (fun _ _ ho => ho) fun _ _ hh => hh
  | receive i =>
    obtain ⟨r, hr, rfl⟩ := Option.map_eq_some_iff.mp ht
    have hl : DiskInv shortReads A files { s with responses := s.responses.eraseIdx i } :=
      h.of_held rfl (fun _ hj => hj) rfl (fun _ _ ho => ho) fun _ _ hh => hh
    rw [Client.executeResponse]
    split_ifs with he
    · cases r.request with
      | none => exact hl
      | some request => exact hl.reply fun _ bytes hx => by cases hx
    · exact hl.scheduleCacheTreeJob _

end DiskInv

structure ClientInv (shortReads : Prop) (A : Set ℕ) (files : ℕ → RemoteFile) (s : Client) : Prop where
  block : BlockInv A files s
  memory : MemoryInv shortReads files s
  pin : PinInv s
  disk : DiskInv shortReads A files s

theorem clientInv_of_path {shortReads : Prop} {A : Set ℕ} {files : ℕ → RemoteFile} (hinj : Set.InjOn (fun i => (files i).name) A)
    {as : List Action} {s : Client}
    (h : Path Client.step (fun s a => ReadsIn A a ∧ Serves shortReads files s a) (Client.create files) as s) :
    ClientInv shortReads A files s := by
  refine h.invariant (fun u a v hu ha hv => ?_)
    ⟨BlockInv.create A files, MemoryInv.create _ files, PinInv.create files, DiskInv.create _ A files⟩
  exact ⟨hu.block.step ha.1 hv, hu.memory.step hu.block ha.2 hv, hu.pin.step hu.block hv,
    hu.disk.step hu.block hu.memory hu.pin hinj hv⟩

end FastTransport.FileCache
