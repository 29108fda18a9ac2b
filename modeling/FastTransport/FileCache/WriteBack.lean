import FastTransport.FileCache.Victims
import FastTransport.FileSystem.LeafContent

/-! What an eviction hands to `NativeFile::Write`: when it is the content of the block, at its place. -/

namespace FastTransport.FileSystem

open Lib.Bytes

/-- The ranges follow each other without gap or overlap. -/
def Tiles : ℕ → ℕ → List Range → Prop
  | start, stop, [] => start = stop
  | start, stop, r :: rs => r.offset = start ∧ Tiles (start + r.size) stop rs

def Apart (ranges : List Range) : Prop := ranges.Pairwise fun a b => a.offset + a.size ≤ b.offset

def totalSize (ranges : List Range) : ℕ := (ranges.map Range.size).sum

lemma Tiles.stop_eq {start stop : ℕ} {ranges : List Range} (h : Tiles start stop ranges) :
    stop = start + totalSize ranges := by
  induction ranges generalizing start with
  | nil => exact h.symm
  | cons r rs ih =>
    rw [ih h.2, totalSize, totalSize, List.map_cons, List.sum_cons, Nat.add_assoc]

lemma Tiles.payloads_eq {content : List UInt8} {start stop : ℕ} {ranges : List Range} (h : Tiles start stop ranges)
    (hr : ∀ r ∈ ranges, HoldsSlice content r) :
    payloads (ranges.flatMap Range.packets) = slice content start (totalSize ranges) := by
  induction ranges generalizing start with
  | nil => simp [totalSize, slice]
  | cons r rs ih =>
    rw [List.flatMap_cons, payloads_append, (hr r List.mem_cons_self).bytes, h.1,
      ih h.2 fun r hr' => hr r (List.mem_cons_of_mem _ hr'), totalSize, totalSize, List.map_cons, List.sum_cons,
      slice_append]

lemma payloads_length_eq_totalSize {content : List UInt8} {ranges : List Range} (hr : ∀ r ∈ ranges, HoldsSlice content r) :
    (payloads (ranges.flatMap Range.packets)).length = totalSize ranges := by
  induction ranges with
  | nil => rfl
  | cons r rs ih =>
    rw [List.flatMap_cons, payloads_append, List.length_append, (hr r List.mem_cons_self).length,
      ih fun r hr' => hr r (List.mem_cons_of_mem _ hr'), totalSize, totalSize, List.map_cons, List.sum_cons]

lemma Apart.totalSize_le {start stop : ℕ} {ranges : List Range} (h : Apart ranges) (hs : start ≤ stop)
    (hr : ∀ r ∈ ranges, start ≤ r.offset ∧ r.offset + r.size ≤ stop) : totalSize ranges ≤ stop - start := by
  induction ranges generalizing start with
  | nil => exact Nat.zero_le _
  | cons r rs ih =>
    obtain ⟨hfirst, hrest⟩ := List.pairwise_cons.mp h
    have hin := hr r List.mem_cons_self
    have hle := ih hrest hin.2 fun x hx => ⟨hfirst x hx, (hr x (List.mem_cons_of_mem _ hx)).2⟩
    rw [totalSize, List.map_cons, List.sum_cons]
    rw [totalSize] at hle
    omega

lemma Apart.tiles {start stop : ℕ} {ranges : List Range} (h : Apart ranges) (hs : start ≤ stop)
    (hr : ∀ r ∈ ranges, start ≤ r.offset ∧ r.offset + r.size ≤ stop) (htotal : stop - start ≤ totalSize ranges) :
    Tiles start stop ranges := by
  induction ranges generalizing start with
  | nil =>
    rw [totalSize, List.map_nil, List.sum_nil] at htotal
    exact le_antisymm hs (by omega)
  | cons r rs ih =>
    obtain ⟨hfirst, hrest⟩ := List.pairwise_cons.mp h
    have hin := hr r List.mem_cons_self
    have hrs : ∀ x ∈ rs, r.offset + r.size ≤ x.offset ∧ x.offset + x.size ≤ stop :=
      fun x hx => ⟨hfirst x hx, (hr x (List.mem_cons_of_mem _ hx)).2⟩
    have hle := Apart.totalSize_le hrest hin.2 hrs
    rw [totalSize, List.map_cons, List.sum_cons] at htotal
    rw [totalSize] at hle
    have hstart : r.offset = start := by omega
    refine ⟨hstart, ih hrest (by omega) (fun x hx => by rw [← hstart]; exact hrs x hx) ?_⟩
    rw [totalSize]
    omega

lemma le_payloads_length {packets : List CachedPacket} {n : ℕ} (h : ∀ p ∈ packets, n ≤ p.payload.length) :
    packets.length * n ≤ (payloads packets).length := by
  induction packets with
  | nil => simp
  | cons p ps ih =>
    have hp := h p List.mem_cons_self
    have hps := ih fun q hq => h q (List.mem_cons_of_mem _ hq)
    rw [payloads_cons, List.length_append, List.length_cons, Nat.succ_mul]
    omega

lemma payload_length_eq {packets : List CachedPacket} {n : ℕ} (h : ∀ p ∈ packets, n ≤ p.payload.length)
    (hl : (payloads packets).length ≤ packets.length * n) : ∀ p ∈ packets, p.payload.length = n := by
  induction packets with
  | nil => exact fun p hp => absurd hp List.not_mem_nil
  | cons p ps ih =>
    have hp := h p List.mem_cons_self
    have hps := le_payloads_length fun q hq => h q (List.mem_cons_of_mem _ hq)
    rw [payloads_cons, List.length_append, List.length_cons, Nat.succ_mul] at hl
    intro q hq
    rcases List.mem_cons.mp hq with rfl | hq
    · omega
    · exact ih (fun q hq => h q (List.mem_cons_of_mem _ hq)) (by omega) q hq

/-- The payload size `NativeFile::Write` takes all packets to have. -/
def frontPayload (packets : List CachedPacket) : ℕ := (packets.head?.map fun p => p.payload.length).getD 0

def writtenBlocks (packets : List CachedPacket) (size : ℕ) : ℕ :=
  if size % frontPayload packets ≠ 0 then size / frontPayload packets + 1 else size / frontPayload packets

/-- `Write` divides by a size, finds a packet for each vector with that many bytes in its payload, and stays
within the block. -/
structure WritesInside (index size offset : ℕ) (packets : List CachedPacket) : Prop where
  divides : 0 < frontPayload packets
  exists_packet : writtenBlocks packets size ≤ packets.length
  payload : ∀ p ∈ packets.take (writtenBlocks packets size), frontPayload packets ≤ p.payload.length
  start : index * blockSize ≤ offset
  stop : offset + writtenBlocks packets size * frontPayload packets ≤ (index + 1) * blockSize

structure DescribesContent (content : List UInt8) (index size offset : ℕ) (packets : List CachedPacket) : Prop where
  bytes : payloads packets = slice content offset (payloads packets).length
  covered : size ≤ (payloads packets).length
  write : WritesInside index size offset packets

def blockLength (fileSize index : ℕ) : ℕ := min blockSize (fileSize - index * blockSize)

def Uniform (size : ℕ) (packets : List CachedPacket) : Prop :=
  0 < frontPayload packets ∧ size % frontPayload packets = 0 ∧ size / frontPayload packets ≤ packets.length ∧
    ∀ p ∈ packets.take (size / frontPayload packets), p.payload.length = frontPayload packets

structure EvictsWhole (fileSize index : ℕ) (ranges : List Range) : Prop where
  tiles : Tiles (index * blockSize) (index * blockSize + blockLength fileSize index) ranges
  uniform : Uniform (blockLength fileSize index) (ranges.flatMap Range.packets)

lemma size_le_writtenBlocks {packets : List CachedPacket} {size : ℕ} (h : 0 < frontPayload packets) :
    size ≤ writtenBlocks packets size * frontPayload packets := by
  have hdiv := Nat.div_add_mod size (frontPayload packets)
  have hmod := Nat.mod_lt size h
  rw [writtenBlocks]
  split_ifs with hr
  · rw [Nat.succ_mul, Nat.mul_comm]
    omega
  · rw [Nat.mul_comm]
    omega

lemma payloads_take_le (packets : List CachedPacket) (k : ℕ) :
    (payloads (packets.take k)).length ≤ (payloads packets).length := by
  rw [← payloads_take_drop packets k, List.length_append]
  exact Nat.le_add_right _ _

lemma WritesInside.uniform {index size offset : ℕ} {packets : List CachedPacket} (h : WritesInside index size offset packets)
    (hl : (payloads packets).length = size) : Uniform size packets := by
  obtain ⟨hpos, hle, hpay, -, -⟩ := h
  have hcover : size ≤ writtenBlocks packets size * frontPayload packets := size_le_writtenBlocks hpos
  have hcount : (packets.take (writtenBlocks packets size)).length = writtenBlocks packets size := by
    rw [List.length_take, Nat.min_eq_left hle]
  have htake := payloads_take_le packets (writtenBlocks packets size)
  have hge := le_payloads_length hpay
  rw [hcount] at hge
  have hexact : size = writtenBlocks packets size * frontPayload packets := by omega
  have hdiv : size / frontPayload packets = writtenBlocks packets size := Nat.div_eq_of_eq_mul_left hpos hexact
  refine ⟨hpos, Nat.mod_eq_zero_of_dvd (Dvd.intro_left _ hexact.symm), by rw [hdiv]; exact hle, ?_⟩
  rw [hdiv]
  exact payload_length_eq hpay (by rw [hcount]; omega)

section

variable {content : List UInt8} {index : ℕ} {ranges : List Range}

lemma EvictsWhole.describes (h : EvictsWhole content.length index ranges) (hr : ∀ r ∈ ranges, HoldsSlice content r) :
    DescribesContent content index (blockLength content.length index) ((ranges.head?.map Range.offset).getD 0)
      (ranges.flatMap Range.packets) := by
  have htotal := h.tiles.stop_eq
  have hbytes := h.tiles.payloads_eq hr
  have hlength := payloads_length_eq_totalSize hr
  obtain ⟨hpos, hmod, hle, hsame⟩ := h.uniform
  have hoffset : (ranges.head?.map Range.offset).getD 0 = index * blockSize := by
    cases ranges with
    | nil => exact absurd hpos (lt_irrefl 0)
    | cons r rs => exact h.tiles.1
  have hblocks : writtenBlocks (ranges.flatMap Range.packets) (blockLength content.length index) =
      blockLength content.length index / frontPayload (ranges.flatMap Range.packets) := by
    rw [writtenBlocks, if_neg (not_not.mpr hmod)]
  have hsize : blockLength content.length index ≤ blockSize := min_le_left _ _
  rw [hoffset]
  refine ⟨by rw [hlength]; exact hbytes, by omega, hpos, by rw [hblocks]; exact hle, ?_, le_rfl, ?_⟩
  · rw [hblocks]
    exact fun p hp => (hsame p hp).ge
  · rw [hblocks, Nat.div_mul_cancel (Nat.dvd_of_mod_eq_zero hmod), Nat.succ_mul]
    omega

lemma DescribesContent.evictsWhole {offset : ℕ} (h : DescribesContent content index (blockLength content.length index)
      offset (ranges.flatMap Range.packets)) (hr : ∀ r ∈ ranges, HoldsSlice content r) (hapart : Apart ranges)
    (hin : ∀ r ∈ ranges, index * blockSize ≤ r.offset ∧ r.offset + r.size ≤ (index + 1) * blockSize ∧
      r.offset + r.size ≤ content.length) : EvictsWhole content.length index ranges := by
  have hlength := payloads_length_eq_totalSize hr
  have hwithin : ∀ r ∈ ranges, index * blockSize ≤ r.offset ∧
      r.offset + r.size ≤ index * blockSize + blockLength content.length index := by
    intro r hr
    obtain ⟨h1, h2, h3⟩ := hin r hr
    rw [Nat.succ_mul] at h2
    rw [blockLength]
    omega
  have htiles := hapart.tiles (Nat.le_add_right _ _) hwithin (by have := h.covered; omega)
  have htotal := htiles.stop_eq
  exact ⟨htiles, h.write.uniform (by omega)⟩

end

def Range.Within (lo hi : ℕ) (r : Range) : Prop := lo ≤ r.offset ∧ r.offset + r.size ≤ hi

lemma AddBranch.within {before after : List Range} {id offset size lo hi : ℕ} {data : List CachedPacket}
    {result : List CachedPacket × List Range} (hold : ∀ r ∈ before ++ after, r.Within lo hi) (hlo : lo ≤ offset)
    (hhi : offset + size ≤ hi) (hlength : (payloads data).length = size)
    (hskips : SkipsOverlap before after offset size data) (h : AddBranch before after id offset size data result) :
    ∀ r ∈ result.2, r.Within lo hi := by
  have hbefore : ∀ r ∈ before, r.Within lo hi := fun r hr => hold r (List.mem_append_left _ hr)
  have hafter : ∀ r ∈ after, r.Within lo hi := fun r hr => hold r (List.mem_append_right _ hr)
  cases h with
  | bridge init prev next rest hb ha hadj hend =>
    subst hb ha
    have hprev := hbefore prev (List.mem_append_right _ List.mem_cons_self)
    have hnext := (hafter next List.mem_cons_self).2
    refine forall_mem_middle (fun r hr => hbefore r (List.mem_append_left _ hr)) ⟨hprev.1, ?_⟩
      fun r hr => hafter r (List.mem_cons_of_mem _ hr)
    simp only
    omega
  | join next rest ha hadj _ =>
    subst ha
    have hnext := (hafter next List.mem_cons_self).2
    refine forall_mem_middle hbefore ⟨hlo, ?_⟩ fun r hr => hafter r (List.mem_cons_of_mem _ hr)
    simp only
    omega
  | replace next rest hb ha _ _ _ =>
    subst hb ha
    exact forall_mem_middle (B := []) hbefore ⟨hlo, hhi⟩ fun r hr => hafter r (List.mem_cons_of_mem _ hr)
  | append init prev hb hend _ =>
    subst hb
    have hprev := hbefore prev (List.mem_append_right _ List.mem_cons_self)
    refine forall_mem_middle (fun r hr => hbefore r (List.mem_append_left _ hr)) ⟨hprev.1, ?_⟩ hafter
    simp only
    omega
  | overlap init prev payloadSize skipped hb hover hlen _ _ hadj =>
    subst hb
    have hprev := hbefore prev (List.mem_append_right _ List.mem_cons_self)
    have hskip := hskips.skip_le hlength List.getLast?_concat hover hlen hadj
    refine forall_mem_middle (fun r hr => hbefore r (List.mem_append_left _ hr)) ⟨hprev.1, ?_⟩ hafter
    simp only
    omega
  | refuse => exact hold
  | insert => exact forall_mem_middle hbefore ⟨hlo, hhi⟩ hafter

def StoredRange (content : List UInt8) (index : ℕ) (r : Range) : Prop :=
  HoldsSlice content r ∧ r.Within (index * blockSize) (min ((index + 1) * blockSize) content.length)

namespace Leaf

variable {J : Type}

structure Stores (leaf : Leaf J) (content : List UInt8) : Prop where
  ordered : leaf.Ordered
  size : leaf.size = content.length
  ranges : ∀ e ∈ leaf.data, ∀ r ∈ e.2, StoredRange content e.1 r

/-- The packets hold the file's bytes for a range of one block, and what is skipped of them for an overlap holds
the overlap. -/
structure Takes (leaf : Leaf J) (content : List UInt8) (offset size : ℕ) (data : List CachedPacket) : Prop where
  nonempty : data ≠ []
  bytes : payloads data = slice content offset size
  length : (payloads data).length = size
  inside : offset % blockSize + size ≤ blockSize
  inFile : offset + size ≤ content.length
  skips : SkipsOverlap (((leaf.findBlock (offset / blockSize)).getD []).takeWhile fun r => r.offset ≤ offset)
    (((leaf.findBlock (offset / blockSize)).getD []).dropWhile fun r => r.offset ≤ offset) offset size data

variable {leaf : Leaf J} {content : List UInt8}

lemma Stores.of_subset {leaf' : Leaf J} (h : leaf.Stores content) (ho : leaf'.Ordered) (hs : leaf'.size = leaf.size)
    (hd : leaf'.data ⊆ leaf.data) : leaf'.Stores content :=
  ⟨ho, hs.trans h.size, fun e he => h.ranges e (hd he)⟩

lemma Stores.extractBlock (h : leaf.Stores content) (index : ℕ) : (leaf.extractBlock index).2.2.Stores content := by
  refine h.of_subset (h.ordered.extractBlock index) ?_ ?_
  · rw [Leaf.extractBlock]
    cases leaf.findBlock index <;> rfl
  · rw [Leaf.extractBlock]
    cases leaf.findBlock index with
    | none => exact fun _ he => he
    | some ranges => exact fun _ he => List.mem_of_mem_filter he

lemma Stores.mapRanges (h : leaf.Stores content) {f : Range → Range}
    (hf : ∀ r, (f r).offset = r.offset ∧ (f r).size = r.size ∧ (f r).packets = r.packets) :
    (leaf.mapRanges f).Stores content := by
  refine ⟨h.ordered.mapRanges fun r => (hf r).1, h.size, fun e he r hr => ?_⟩
  obtain ⟨e', he', rfl⟩ := List.mem_map.mp he
  obtain ⟨r', hr', rfl⟩ := List.mem_map.mp hr
  obtain ⟨ho, hs, hp⟩ := hf r'
  obtain ⟨hh, hw⟩ := h.ranges e' he' r' hr'
  exact ⟨⟨by rw [hp]; exact hh.nonempty, by rw [hp, ho, hs]; exact hh.bytes, by rw [hp, hs]; exact hh.length⟩,
    by rw [Range.Within, ho, hs]; exact hw⟩

lemma Stores.addData (h : leaf.Stores content) (id : ℕ) {offset size : ℕ} {data : List CachedPacket}
    (ht : leaf.Takes content offset size data) : (leaf.addData id offset size data).2.Stores content := by
  have hbranch := addRange_branch (h.ordered.sorted_getD (offset / blockSize)) id offset size data rfl rfl
  have hold : ∀ r ∈ (leaf.findBlock (offset / blockSize)).getD [], StoredRange content (offset / blockSize) r := by
    intro r hr
    obtain ⟨ranges, hm, hr⟩ := mem_of_getD hr
    exact h.ranges _ hm r hr
  have hdiv := Nat.div_add_mod offset blockSize
  have hin := ht.inside
  refine ⟨h.ordered.addData id offset size data, (leaf.size_addData id offset size data).trans h.size,
    fun e he r hr => ?_⟩
  rw [(leaf.addData_eq_addRange id offset size data).2] at he
  rcases List.mem_cons.mp he with rfl | he
  · refine ⟨hbranch.holdsSlice ht.nonempty ht.bytes ht.length (fun r hr => ?_) ht.skips r hr,
      hbranch.within (fun r hr => ?_) ?_ ?_ ht.length ht.skips r hr⟩
    · rw [List.takeWhile_append_dropWhile] at hr
      exact (hold r hr).1
    · rw [List.takeWhile_append_dropWhile] at hr
      exact (hold r hr).2
    · exact Nat.div_mul_le_self offset blockSize
    · refine le_min ?_ ht.inFile
      change offset + size ≤ (offset / blockSize + 1) * blockSize
      rw [Nat.succ_mul, Nat.mul_comm]
      omega
  · exact h.ranges e (List.mem_of_mem_filter he) r hr

end Leaf

end FastTransport.FileSystem

namespace FastTransport.FileCache

open FileSystem Lib.Bytes Lib.Runs

namespace Client

def Takes (files : ℕ → RemoteFile) (s : Client) : PinningCall → Prop
  | .cache (.addData inode offset size data) => (s.leafs inode).Takes (files inode).content offset size data
  | _ => True

def Stores (files : ℕ → RemoteFile) (s : Client) : Prop := ∀ i, (s.leafs i).Stores (files i).content

namespace Stores

variable {files : ℕ → RemoteFile} {s t : Client}

lemma create (files : ℕ → RemoteFile) : Stores files (Client.create files) := fun _ =>
  ⟨⟨List.nodup_nil, fun _ he => absurd he List.not_mem_nil⟩, rfl, fun _ he => absurd he List.not_mem_nil⟩

lemma setLeaf (h : Stores files s) {inode : ℕ} {leaf : Leaf FuseReadFilePendingJob}
    (hl : leaf.Stores (files inode).content) (ht : t.leafs = (s.setLeaf inode leaf).leafs) : Stores files t := by
  intro i
  rw [ht, leafs_setLeaf]
  split_ifs with hi
  · exact hi ▸ hl
  · exact h i

lemma call (h : Stores files s) {c : CacheCall} (htakes : Takes files s (.cache c)) (ht : s.call c = some t) :
    Stores files t := by
  cases c with
  | addData inode offset size data =>
    cases ht
    exact h.setLeaf ((h inode).addData s.nextId htakes) rfl
  | getFreeData shard inode =>
    rw [Client.call] at ht
    split_ifs at ht
    · cases ht
      exact h
    · cases hg : s.getFreeData inode with
      | none =>
        rw [hg] at ht
        cases ht
        exact h
      | some r =>
        obtain ⟨index, -, hr⟩ := Option.map_eq_some_iff.mp hg
        rw [hg, ← hr] at ht
        cases ht
        exact h.setLeaf ((h inode).extractBlock index) rfl
  | invalidateDataCache inode =>
    cases ht
    have hleaf : (s.leafs inode).invalidateDataCache.Stores (files inode).content :=
      (h inode).of_subset ⟨List.nodup_nil, fun _ he => absurd he List.not_mem_nil⟩ rfl (List.nil_subset _)
    exact h.setLeaf hleaf rfl

lemma step (h : Stores files s) {c : PinningCall} (htakes : Takes files s c) (ht : s.pinningCall c = some t) :
    Stores files t := by
  cases c with
  | cache c => exact h.call htakes ht
  | getData inode offset size =>
    cases ht
    have hleaf : ((s.leafs inode).pin ((s.leafs inode).pinnedIds offset size)).Stores (files inode).content :=
      (h inode).mapRanges fun _ => ⟨rfl, rfl, rfl⟩
    exact h.setLeaf hleaf rfl
  | release inode pin =>
    cases ht
    have hleaf : ((s.leafs inode).unpin pin).Stores (files inode).content :=
      (h inode).mapRanges fun _ => ⟨rfl, rfl, rfl⟩
    exact h.setLeaf hleaf rfl

end Stores

end Client

theorem free_data_describes_content {files : ℕ → RemoteFile} {calls : List PinningCall} {s : Client}
    (h : Path Client.pinningCall (Client.Takes files) (Client.create files) calls s) {inode : ℕ}
    {job : WriteFileCacheJob} {t : Client} (hg : s.getFreeData inode = some (job, t)) :
    ∃ index ranges, (s.leafs inode).getFirstBlockIndex = some index ∧
      (s.leafs inode).findBlock index = some ranges ∧
      (EvictsWhole (files inode).content.length index ranges →
        DescribesContent (files inode).content index job.size job.offset job.data) ∧
      (DescribesContent (files inode).content index job.size job.offset job.data → Apart ranges →
        EvictsWhole (files inode).content.length index ranges) := by
  have hstores : Client.Stores files s :=
    h.invariant (fun _ _ _ hs hok ha => hs.step hok ha) (Client.Stores.create files)
  obtain ⟨hordered, hsize, hranges⟩ := hstores inode
  obtain ⟨index, hi, hr⟩ := Option.map_eq_some_iff.mp hg
  obtain ⟨ranges, hm, -⟩ := Leaf.getFirstBlockIndex_unpinned hi
  have hf := hordered.keys.findBlock hm
  rw [Leaf.extractBlock, hf, hsize] at hr
  obtain ⟨rfl, -⟩ := Prod.mk.inj hr
  refine ⟨index, ranges, hi, hf, fun hw => hw.describes fun r hr => (hranges _ hm r hr).1, fun hd hapart => ?_⟩
  refine hd.evictsWhole (fun r hr => (hranges _ hm r hr).1) hapart fun r hr => ?_
  obtain ⟨h1, h2⟩ := (hranges _ hm r hr).2
  exact ⟨h1, h2.trans (min_le_left _ _), h2.trans (min_le_right _ _)⟩

def fourBytes (_ : ℕ) : RemoteFile := ⟨"a.txt", 1, [10, 11, 12, 13]⟩

def fourBytesCached : Client :=
  ((Client.create fourBytes).addData 4 0 2 [⟨100, [10, 11], []⟩]).addData 4 2 2 [⟨101, [12, 13], []⟩]

theorem free_data_describes_content_whole :
    Path Client.pinningCall (Client.Takes fourBytes) (Client.create fourBytes)
        [.cache (.addData 4 0 2 [⟨100, [10, 11], []⟩]), .cache (.addData 4 2 2 [⟨101, [12, 13], []⟩])] fourBytesCached ∧
      ∃ job t, fourBytesCached.getFreeData 4 = some (job, t) ∧
        DescribesContent [10, 11, 12, 13] 0 job.size job.offset job.data := by
  have hpath : Path Client.pinningCall (Client.Takes fourBytes) (Client.create fourBytes)
      [.cache (.addData 4 0 2 [⟨100, [10, 11], []⟩]), .cache (.addData 4 2 2 [⟨101, [12, 13], []⟩])] fourBytesCached := by
    refine .cons ⟨by decide, by decide, by decide, by decide, by decide, fun prev hp => ?_⟩ rfl
      (.cons ⟨by decide, by decide, by decide, by decide, by decide, fun prev hp hover => ?_⟩ rfl (.nil _))
    · cases hp
    · cases hp
      exact absurd hover (by decide)
  obtain ⟨r, hg⟩ : ∃ r, fourBytesCached.getFreeData 4 = some r := ⟨_, rfl⟩
  obtain ⟨index, ranges, hi, hf, hwhole, -⟩ := free_data_describes_content hpath hg
  have hindex : (fourBytesCached.leafs 4).getFirstBlockIndex = some 0 := rfl
  cases hindex.symm.trans hi
  have hranges : (fourBytesCached.leafs 4).findBlock 0 =
      some [⟨0, 0, 4, [⟨100, [10, 11], []⟩, ⟨101, [12, 13], []⟩], 1⟩] := rfl
  cases hranges.symm.trans hf
  exact ⟨hpath, r.1, r.2, hg, hwhole ⟨⟨rfl, rfl⟩, by decide, by decide, by decide, by decide⟩⟩

theorem free_data_overruns : ¬ ∀ (files : ℕ → RemoteFile) (calls : List PinningCall) (s : Client),
    Path Client.pinningCall (Client.Takes files) (Client.create files) calls s → ∀ inode job t index,
      (s.leafs inode).getFirstBlockIndex = some index → s.getFreeData inode = some (job, t) →
        DescribesContent (files inode).content index job.size job.offset job.data := by
  intro h
  have hpath : Path Client.pinningCall (Client.Takes fourBytes) (Client.create fourBytes)
      [.cache (.addData 4 2 2 [⟨100, [12, 13], []⟩])]
      ((Client.create fourBytes).addData 4 2 2 [⟨100, [12, 13], []⟩]) := by
    refine .cons ⟨by decide, by decide, by decide, by decide, by decide, fun prev hp => ?_⟩ rfl (.nil _)
    cases hp
  obtain ⟨r, hg⟩ : ∃ r, ((Client.create fourBytes).addData 4 2 2 [⟨100, [12, 13], []⟩]).getFreeData 4 = some r :=
    ⟨_, rfl⟩
  have hcovered := (h fourBytes _ _ hpath 4 r.1 r.2 0 rfl hg).covered
  have hshort : ((((Client.create fourBytes).addData 4 2 2 [⟨100, [12, 13], []⟩]).getFreeData 4).map fun r =>
      decide (r.1.size ≤ (payloads r.1.data).length)) = some false := by decide
  rw [hg] at hshort
  exact of_decide_eq_false (Option.some.inj hshort) hcovered

end FastTransport.FileCache
