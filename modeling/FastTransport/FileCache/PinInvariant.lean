import FastTransport.FileCache.MemoryInvariant

/-! The counters of the ranges: one and the pins of the jobs that are alive, and what exceptions left pinned. -/

namespace FastTransport.FileCache

open FileSystem Lib.Runs Lib.Lists

def Client.livePins (s : Client) (inode : ℕ) : List ℕ :=
  (s.cacheTreeQueue.filter fun job => job.inode = inode).flatMap CacheTreeJob.pins ++
    (s.diskQueue.filter fun job => job.inode = inode).flatMap fun job => job.buffer.pin

structure PinInv (s : Client) : Prop where
  counters : ∀ i, ∀ e ∈ (s.leafs i).data, ∀ r ∈ e.2, 1 + (s.livePins i).count r.id ≤ r.counter
  rangeIds : ∀ i, ∀ e ∈ (s.leafs i).data, ∀ r ∈ e.2, r.id < s.nextId
  pinIds : ∀ i, ∀ id ∈ s.livePins i, id < s.nextId

namespace PinInv

variable {A : Set ℕ} {files : ℕ → RemoteFile} {s t : Client}

lemma create (files : ℕ → RemoteFile) : PinInv (Client.create files) :=
  ⟨fun _ _ h => absurd h List.not_mem_nil, fun _ _ h => absurd h List.not_mem_nil,
    fun _ _ h => absurd h List.not_mem_nil⟩

lemma of_eq (h : PinInv s) (hd : ∀ i, (t.leafs i).data = (s.leafs i).data)
    (hp : ∀ i, t.livePins i = s.livePins i) (hn : s.nextId ≤ t.nextId) : PinInv t := by
  refine ⟨fun i => ?_, fun i => ?_, fun i => ?_⟩
  · rw [hd, hp]
    exact h.counters i
  · rw [hd]
    exact fun e he r hr => lt_of_lt_of_le (h.rangeIds i e he r hr) hn
  · rw [hp]
    exact fun id hi => lt_of_lt_of_le (h.pinIds i id hi) hn

lemma withFileCache (h : PinInv s) (c : FileSystem.FileCache) : PinInv { s with fileCache := c } :=
  h.of_eq (fun _ => rfl) (fun _ => rfl) le_rfl

lemma setLeaf_of_data (h : PinInv s) {inode : ℕ} {leaf : Leaf FuseReadFilePendingJob}
    (hd : leaf.data = (s.leafs inode).data) : PinInv (s.setLeaf inode leaf) := by
  refine h.of_eq (fun i => ?_) (fun _ => rfl) le_rfl
  rw [Client.leafs_setLeaf]
  split_ifs with hi
  · rw [hd, hi]
  · rfl

lemma requestBlock (h : PinInv s) (inode index : ℕ) : PinInv (s.requestBlock inode index) := by
  have hset : PinInv (s.setLeaf inode ((s.leafs inode).setStatus index .inFlight)) := h.setLeaf_of_data rfl
  exact hset.of_eq (fun _ => rfl) (fun _ => rfl) le_rfl

lemma livePins_scheduleCacheTreeJob (s : Client) (job : CacheTreeJob) (i : ℕ) :
    (s.scheduleCacheTreeJob job).livePins i =
      (s.cacheTreeQueue.filter fun job => job.inode = i).flatMap CacheTreeJob.pins ++
      (if job.inode = i then job.pins else []) ++
      (s.diskQueue.filter fun job => job.inode = i).flatMap fun job => job.buffer.pin := by
  simp only [Client.livePins, Client.scheduleCacheTreeJob, List.filter_append, List.flatMap_append]
  by_cases hi : job.inode = i <;> simp [hi]

lemma scheduleCacheTreeJob (h : PinInv s) {job : CacheTreeJob} (hp : job.pins = []) :
    PinInv (s.scheduleCacheTreeJob job) := by
  refine h.of_eq (fun _ => rfl) (fun i => ?_) le_rfl
  rw [livePins_scheduleCacheTreeJob, hp, ite_self, List.append_nil]
  rfl

lemma pinned (h : PinInv s) {inode : ℕ} {ids : List ℕ} (ho : (s.leafs inode).PinsOwn ids)
    (hd : ∀ i, t.leafs i = (s.pinRanges inode ids).leafs i)
    (hp : ∀ i, (t.livePins i).Subperm ((if i = inode then ids else []) ++ s.livePins i))
    (hn : t.nextId = s.nextId) : PinInv t := by
  refine ⟨fun i e he r hr => ?_, fun i e he r hr => ?_, fun i id hid => ?_⟩
  · have hcount := (hp i).count_le r.id
    rw [List.count_append] at hcount
    rw [hd, Client.pinRanges, Client.leafs_setLeaf] at he
    split_ifs at he with hi
    · obtain ⟨e', he', rfl⟩ := List.mem_map.mp he
      obtain ⟨r', hr', rfl⟩ := List.mem_map.mp hr
      have hbefore := h.counters inode e' he' r' hr'
      rw [if_pos hi, hi] at hcount
      rw [hi]
      simp only [Range.pin] at hcount ⊢
      omega
    · rw [if_neg hi, List.count_nil, Nat.zero_add] at hcount
      have hbefore := h.counters i e he r hr
      omega
  · rw [hd, Client.pinRanges, Client.leafs_setLeaf] at he
    rw [hn]
    split_ifs at he with hi
    · obtain ⟨e', he', rfl⟩ := List.mem_map.mp he
      obtain ⟨r', hr', rfl⟩ := List.mem_map.mp hr
      exact h.rangeIds inode e' he' r' hr'
    · exact h.rangeIds i e he r hr
  · rw [hn]
    rcases List.mem_append.mp ((hp i).subset hid) with hid | hid
    · split_ifs at hid with hi
      · obtain ⟨e, he, r, hr, rfl⟩ := ho id hid
        exact h.rangeIds inode e he r hr
      · exact absurd hid List.not_mem_nil
    · exact h.pinIds i id hid

lemma scheduleDiskJob (h : PinInv s) {job : DiskJob} (ho : (s.leafs job.inode).PinsOwn job.buffer.pin) :
    PinInv (s.scheduleDiskJob job) := by
  refine h.pinned ho (fun _ => rfl) (fun i => ?_) rfl
  have hl : (s.scheduleDiskJob job).livePins i =
      s.livePins i ++ if i = job.inode then job.buffer.pin else [] := by
    simp only [Client.livePins, Client.scheduleDiskJob, Client.pinRanges, Client.setLeaf, List.filter_append,
      List.flatMap_append, List.append_assoc]
    by_cases hi : i = job.inode
    · simp [hi]
    · simp [hi, Ne.symm hi]
  rw [hl]
  exact List.perm_append_comm.subperm

lemma pinRanges (h : PinInv s) {inode : ℕ} {ids : List ℕ} (ho : (s.leafs inode).PinsOwn ids) :
    PinInv (s.pinRanges inode ids) :=
  h.pinned ho (fun _ => rfl) (fun i => (List.sublist_append_right _ (s.livePins i)).subperm) rfl

lemma pendingExecute (h : PinInv s) (job : FuseReadFilePendingJob) : PinInv (Client.left (job.execute s)) := by
  obtain ⟨pins, -, hown, he⟩ | ⟨arrived, requested, -, hown, he⟩ := job.execute_cases s <;> rw [he]
  · exact h.pinRanges hown
  refine h.pinned hown (fun _ => rfl) (fun i => ?_) rfl
  rw [Client.left, livePins_scheduleCacheTreeJob]
  have hpins : (if job.inode = i then arrived ++ requested else []) =
      if i = job.inode then arrived ++ requested else [] := by
    simp only [eq_comm]
  change (_ ++ (if job.inode = i then arrived ++ requested else []) ++ _).Subperm _
  rw [hpins, List.append_assoc]
  exact (List.perm_append_comm_assoc _ _ _).subperm

lemma outcome (h : PinInv s) {job : FuseReadFileJob} (ho : job.Outcome s t) : PinInv t := by
  have hfetch : ∀ s index, PinInv s → (s.leafs job.inode).getStatus index = .notFound →
      index * blockSize < (s.leafs job.inode).size → PinInv (s.requestBlock job.inode index) :=
    fun s index h _ _ => h.requestBlock job.inode index
  cases ho with
  | error => exact h.of_eq (fun _ => rfl) (fun _ => rfl) le_rfl
  | unwind pins hown => exact (h.pinRanges hown).of_eq (fun _ => rfl) (fun _ => rfl) le_rfl
  | again => exact h.scheduleCacheTreeJob rfl
  | park index _ => exact h.setLeaf_of_data rfl
  | fetch index n _ _ =>
    refine Client.prefetchLoop_induct hfetch _ _ ?_
    exact (h.requestBlock job.inode index).setLeaf_of_data rfl
  | append pinned _ _ _ hg _ => exact h.scheduleDiskJob (Leaf.getData_pinsOwn hg)
  | disk => exact h.scheduleDiskJob fun id hid => absurd hid List.not_mem_nil
  | prefixed buffer _ hg _ _ _ => exact h.scheduleDiskJob (Leaf.getData_pinsOwn hg)
  | data buffer n _ _ _ =>
    have hp : PinInv (s.prefetchLoop job.inode (job.offset / blockSize) n) :=
      Client.prefetchLoop_induct hfetch _ _ h
    exact hp.of_eq (fun _ => rfl) (fun _ => rfl) le_rfl

lemma addData (h : PinInv s) {inode offset : ℕ} (size : ℕ) (data : List CachedPacket)
    (hf : (s.leafs inode).findBlock (offset / blockSize) = none) : PinInv (s.addData inode offset size data) := by
  have hleaf := BlockInv.leafs_addData size data hf
  have hnew : ∀ i, (s.livePins i).count s.nextId = 0 := fun i =>
    List.count_eq_zero.mpr fun hm => (h.pinIds i _ hm).ne rfl
  refine ⟨fun i e he r hr => ?_, fun i e he r hr => ?_, fun i id hid => (h.pinIds i id hid).trans (Nat.lt_succ_self _)⟩
  · rw [hleaf] at he
    change 1 + ((s.livePins i).count r.id : ℤ) ≤ r.counter
    split_ifs at he with hi
    · rcases List.mem_cons.mp he with rfl | he
      · rw [List.mem_singleton.mp hr, Range.create, hnew]
        exact le_rfl
      · exact h.counters i e (hi ▸ he) r hr
    · exact h.counters i e he r hr
  · rw [hleaf] at he
    change r.id < s.nextId + 1
    split_ifs at he with hi
    · rcases List.mem_cons.mp he with rfl | he
      · rw [List.mem_singleton.mp hr]
        exact Nat.lt_succ_self _
      · exact (h.rangeIds inode e he r hr).trans (Nat.lt_succ_self _)
    · exact (h.rangeIds i e he r hr).trans (Nat.lt_succ_self _)

lemma evict (h : PinInv s) (inode index packets : ℕ) : PinInv (s.evict inode index packets) := by
  have hsub : ∀ i, ∀ e ∈ ((s.evict inode index packets).leafs i).data, e ∈ (s.leafs i).data := by
    intro i e he
    simp only [Client.evict, Client.removeCount, Client.leafs_setLeaf] at he
    split_ifs at he with hi
    · rw [hi]
      exact List.mem_of_mem_filter he
    · exact he
  exact ⟨fun i e he => h.counters i e (hsub i e he), fun i e he => h.rangeIds i e (hsub i e he), h.pinIds⟩

lemma getFreeData (h : PinInv s) (hb : BlockInv A files s) {inode : ℕ} {job : WriteFileCacheJob}
    (hg : s.getFreeData inode = some (job, t)) :
    PinInv t ∧ PinInv (t.scheduleCacheTreeJob (.writeFile job)) := by
  obtain ⟨index, ranges, -, -, rfl, rfl⟩ := Client.getFreeData_cases (hb.leafs inode).keys hg
  have ht := h.evict inode index (ranges.flatMap Range.packets).length
  exact ⟨ht, ht.scheduleCacheTreeJob rfl⟩

lemma unpinned (h : PinInv s) (inode : ℕ) (ids : List ℕ)
    (hd : ∀ i, t.leafs i = (s.unpinRanges inode ids).leafs i)
    (hp : ∀ i, (s.livePins i).Perm ((if i = inode then ids else []) ++ t.livePins i))
    (hn : t.nextId = s.nextId) : PinInv t := by
  refine ⟨fun i e he r hr => ?_, fun i e he r hr => ?_, fun i id hid => ?_⟩
  · rw [hd, Client.unpinRanges, Client.leafs_setLeaf] at he
    split_ifs at he with hi
    · obtain ⟨e', he', rfl⟩ := List.mem_map.mp he
      obtain ⟨r', hr', rfl⟩ := List.mem_map.mp hr
      have hc := h.counters inode e' he' r' hr'
      rw [(hp inode).count_eq, List.count_append, if_pos rfl] at hc
      rw [hi]
      simp only [Range.unpin]
      omega
    · have hc := h.counters i e he r hr
      rwa [(hp i).count_eq, List.count_append, if_neg hi, List.count_nil, Nat.zero_add] at hc
  · rw [hd, Client.unpinRanges, Client.leafs_setLeaf] at he
    rw [hn]
    split_ifs at he with hi
    · obtain ⟨e', he', rfl⟩ := List.mem_map.mp he
      obtain ⟨r', hr', rfl⟩ := List.mem_map.mp hr
      exact h.rangeIds inode e' he' r' hr'
    · exact h.rangeIds i e he r hr
  · rw [hn]
    exact h.pinIds i id ((hp i).symm.subset (List.mem_append_right _ hid))

lemma livePins_pop {xs ys : List CacheTreeJob} {job : CacheTreeJob} (hq : s.cacheTreeQueue = xs ++ job :: ys)
    (i : ℕ) : (s.livePins i).Perm ((if i = job.inode then job.pins else []) ++
      ({ s with cacheTreeQueue := xs ++ ys } : Client).livePins i) := by
  have hl : (s.cacheTreeQueue.filter fun j => j.inode = i).flatMap CacheTreeJob.pins =
      (xs.filter fun j => j.inode = i).flatMap CacheTreeJob.pins ++
        ((if i = job.inode then job.pins else []) ++
          (ys.filter fun j => j.inode = i).flatMap CacheTreeJob.pins) := by
    rw [hq, List.filter_append, List.flatMap_append, List.filter_cons]
    by_cases hi : i = job.inode
    · simp [hi]
    · simp [hi, Ne.symm hi]
  rw [Client.livePins, hl, Client.livePins, List.filter_append, List.flatMap_append]
  refine List.perm_iff_count.mpr fun id => ?_
  simp only [List.count_append]
  omega

lemma livePins_popDisk {xs ys : List DiskJob} {job : DiskJob} (hq : s.diskQueue = xs ++ job :: ys) (i : ℕ) :
    (s.livePins i).Perm ((if i = job.inode then job.buffer.pin else []) ++
      ({ s with diskQueue := xs ++ ys } : Client).livePins i) := by
  have hl : ((s.diskQueue.filter fun j => j.inode = i).flatMap fun j => j.buffer.pin) =
      ((xs.filter fun j => j.inode = i).flatMap fun j => j.buffer.pin) ++
        ((if i = job.inode then job.buffer.pin else []) ++
          (ys.filter fun j => j.inode = i).flatMap fun j => j.buffer.pin) := by
    rw [hq, List.filter_append, List.flatMap_append, List.filter_cons]
    by_cases hi : i = job.inode
    · simp [hi]
    · simp [hi, Ne.symm hi]
  rw [Client.livePins, hl, Client.livePins, List.filter_append, List.flatMap_append]
  refine (List.Perm.append_left _ (List.perm_append_comm_assoc _ _ _)).trans ?_
  exact List.perm_append_comm_assoc _ _ _

lemma pop (h : PinInv s) {xs ys : List CacheTreeJob} {job : CacheTreeJob}
    (hq : s.cacheTreeQueue = xs ++ job :: ys) (hp : job.pins = []) :
    PinInv { s with cacheTreeQueue := xs ++ ys } := by
  have hl := livePins_pop hq
  refine ⟨fun i e he r hr => ?_, h.rangeIds, fun i id hid => ?_⟩
  · have hc := h.counters i e he r hr
    rwa [(hl i).count_eq, hp, ite_self, List.nil_append] at hc
  · exact h.pinIds i id ((hl i).symm.subset (List.mem_append_right _ hid))

lemma deliver (h : PinInv s) (hb : BlockInv A files s) {xs ys : List CacheTreeJob} {job : ApplyBlockCacheJob}
    (hq : s.cacheTreeQueue = xs ++ .applyBlock job :: ys) :
    PinInv (Client.left (job.deliver { s with cacheTreeQueue := xs ++ ys })) := by
  obtain ⟨-, hblock, -, hf, -⟩ := hb.applyBlock_facts hq
  rw [ApplyBlockCacheJob.deliver_of_none hblock.request]
  refine Client.foldlM_induct (fun _ job _ hv => hv.pendingExecute job) (PinInv.setLeaf_of_data ?_ rfl)
  rw [ApplyBlockCacheJob.addBlock, hblock.skipped]
  exact (h.pop hq rfl).addData _ _ hf

lemma applyBlock (h : PinInv s) (hb : BlockInv A files s) {xs ys : List CacheTreeJob}
    {job : ApplyBlockCacheJob} (hq : s.cacheTreeQueue = xs ++ .applyBlock job :: ys) {picks : List ℕ}
    (ht : job.execute { s with cacheTreeQueue := xs ++ ys } picks = some t) : PinInv t := by
  refine (ApplyBlockCacheJob.execute_induct (P := fun v => BlockInv A files v ∧ PinInv v) ?_ ht
    ⟨hb.deliver hq, h.deliver hb hq⟩).2
  rintro v inode job' w ⟨hvb, hv⟩ hm hg
  obtain ⟨h1, h2⟩ := hvb.getFreeData hm hg
  obtain ⟨h3, h4⟩ := hv.getFreeData hvb hg
  exact ⟨⟨h1, h3⟩, h2, h4⟩

lemma writeFile (h : PinInv s) (job : WriteFileCacheJob) : PinInv (job.execute s) := by
  have hset : PinInv (s.setLeaf job.inode ((s.leafs job.inode).setStatus (job.offset / blockSize) .onDisk)) :=
    h.setLeaf_of_data rfl
  exact hset.of_eq (fun _ => rfl) (fun _ => rfl) le_rfl

lemma cacheTreeJob (h : PinInv s) (hb : BlockInv A files s) {xs ys : List CacheTreeJob} {job : CacheTreeJob}
    (hq : s.cacheTreeQueue = xs ++ job :: ys) {stop : Bool} {picks : List ℕ}
    (ht : job.execute { s with cacheTreeQueue := xs ++ ys } stop picks = some t) : PinInv t := by
  cases job with
  | fuseRead job =>
    cases ht
    obtain ⟨c, ho⟩ := FuseReadFileJob.execute_outcome
      (({ s with cacheTreeQueue := xs ++ ys } : Client).unpinRanges job.inode job.pins) job stop
    have hu : PinInv (({ s with cacheTreeQueue := xs ++ ys } : Client).unpinRanges job.inode job.pins) :=
      h.unpinned job.inode job.pins (fun _ => rfl) (livePins_pop hq) rfl
    exact (hu.withFileCache c).outcome ho
  | applyBlock job => exact h.applyBlock hb hq ht
  | writeFile job =>
    cases ht
    exact (h.pop hq rfl).writeFile job

theorem step (h : PinInv s) (hb : BlockInv A files s) {a : Action} (ht : s.step a = some t) : PinInv t := by
  cases a with
  | read request =>
    cases ht
    exact h.scheduleCacheTreeJob rfl
  | cacheTree shard stop picks =>
    obtain ⟨job, hj, ht⟩ := Option.bind_eq_some_iff.mp ht
    obtain ⟨xs, ys, hq, he⟩ := find?_eraseP hj
    rw [he] at ht
    exact h.cacheTreeJob hb hq ht
  | disk i =>
    obtain ⟨job, hj, rfl⟩ := Option.map_eq_some_iff.mp ht
    obtain ⟨xs, ys, hq, he⟩ := getElem?_eraseIdx hj
    rw [he]
    exact h.unpinned job.inode job.buffer.pin (fun _ => rfl) (livePins_popDisk hq) rfl
  | sendRequest =>
    simp only [Client.step] at ht
    split at ht
    · cases ht
    · cases ht
      exact h.of_eq (fun _ => rfl) (fun _ => rfl) le_rfl
  | answer i error data =>
    obtain ⟨r, hr, rfl⟩ := Option.map_eq_some_iff.mp ht
    exact h.of_eq (fun _ => rfl) (fun _ => rfl) (Nat.le_add_right _ _)
  | receive i =>
    obtain ⟨r, hr, rfl⟩ := Option.map_eq_some_iff.mp ht
    have hl : PinInv { s with responses := s.responses.eraseIdx i } :=
      h.of_eq (fun _ => rfl) (fun _ => rfl) le_rfl
    rw [Client.executeResponse]
    split_ifs with he
    · cases r.request with
      | none => exact hl
      | some request => exact hl.of_eq (fun _ => rfl) (fun _ => rfl) le_rfl
    · exact hl.scheduleCacheTreeJob rfl

end PinInv

end FastTransport.FileCache
