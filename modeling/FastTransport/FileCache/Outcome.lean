import FastTransport.FileCache.Client

/-! What the jobs of the cache tree can do, said once: the outcomes of a `FuseReadFileJob`, the blocks an
eviction takes, and the induction rules of the loops. -/

namespace FastTransport.FileCache

open FileSystem

namespace Client

def requestBlock (s : Client) (inode index : ℕ) : Client :=
  (s.setLeaf inode ((s.leafs inode).setStatus index .inFlight)).requestReadFile inode index

@[simp] lemma leafs_setLeaf (s : Client) (inode : ℕ) (leaf : Leaf FuseReadFilePendingJob) (i : ℕ) :
    (s.setLeaf inode leaf).leafs i = if i = inode then leaf else s.leafs i := by
  simp only [setLeaf, Function.update_apply]

lemma prefetchLoop_induct {P : Client → Prop} {inode : ℕ}
    (hstep : ∀ s index, P s → (s.leafs inode).getStatus index = .notFound →
      index * blockSize < (s.leafs inode).size → P (s.requestBlock inode index)) :
    ∀ (n index : ℕ) {s : Client}, P s → P (s.prefetchLoop inode index n)
  | 0, _, _, h => h
  | n + 1, index, s, h => by
    rw [prefetchLoop]
    split_ifs with hs
    · exact h
    · have hr : ∀ {t : Client}, P t → P (t.prefetchLoop inode (index + 1) n) :=
        prefetchLoop_induct hstep n (index + 1)
      by_cases hn : (s.leafs inode).getStatus (index + 1) = .notFound
      · rw [Leaf.setInFlight, if_pos hn]
        exact hr (hstep s _ h hn (not_le.mp hs))
      · rw [Leaf.setInFlight, if_neg hn]
        exact hr h

end Client

namespace FuseReadFileJob

inductive Outcome (s : Client) (job : FuseReadFileJob) : Client → Prop
  | error : Outcome s job (s.reply job.request (.error eio))
  | unwind (pins : List ℕ) : (s.leafs job.inode).PinsOwn pins → Outcome s job (unwind s job pins)
  | again : Outcome s job (s.scheduleCacheTreeJob job.again)
  | park (index : ℕ) : (s.leafs job.inode).getStatus index = .inFlight → Outcome s job (addPendingJob s job index)
  | fetch (index n : ℕ) : (s.leafs job.inode).getStatus index = .notFound →
      index * blockSize < (s.leafs job.inode).size →
      Outcome s job ((addPendingJob (s.requestBlock job.inode index) job index).prefetchLoop job.inode index n)
  | append (pinned : BufferView) : (s.leafs job.inode).getStatus (job.offset / blockSize) = .onDisk →
      job.offset < (s.leafs job.inode).size →
      (job.offset / blockSize + 1) * blockSize < job.offset + job.size →
      (s.leafs job.inode).getData ((job.offset / blockSize + 1) * blockSize)
        (job.offset + job.size - (job.offset / blockSize + 1) * blockSize) = some pinned →
      pinned.hasData = true →
      Outcome s job (s.scheduleDiskJob
        (.readFile job.request job.inode (s.leafs job.inode).getCachePath job.size job.offset pinned))
  | disk : (s.leafs job.inode).getStatus (job.offset / blockSize) = .onDisk →
      job.offset < (s.leafs job.inode).size →
      ((job.offset / blockSize + 1) * blockSize < job.offset + job.size →
        (s.leafs job.inode).getStatus (job.offset / blockSize + 1) = .onDisk) →
      Outcome s job (s.scheduleDiskJob
        (.readFile job.request job.inode (s.leafs job.inode).getCachePath job.size job.offset .empty))
  | prefixed (buffer : BufferView) : job.offset < (s.leafs job.inode).size →
      (s.leafs job.inode).getData job.offset job.size = some buffer → buffer.hasData = true →
      buffer.totalSize < job.size →
      (s.leafs job.inode).getStatus ((job.offset + buffer.totalSize) / blockSize) = .onDisk →
      Outcome s job (s.scheduleDiskJob (.prefixDiskRead job.request job.inode buffer
        (s.leafs job.inode).getCachePath ((job.offset + buffer.totalSize) / blockSize * blockSize)
        (job.size - buffer.totalSize)))
  | data (buffer : BufferView) (n : ℕ) : job.offset < (s.leafs job.inode).size →
      (s.leafs job.inode).getData job.offset job.size = some buffer → job.size ≤ buffer.totalSize →
      Outcome s job ((s.prefetchLoop job.inode (job.offset / blockSize) n).reply job.request
        (.data ((s.leafs job.inode).readSpans buffer.spans)))

lemma truncate_le {job : FuseReadFileJob} {size : ℕ} (h : job.offset < size) :
    (job.truncate size).offset + (job.truncate size).size ≤ size := by
  rw [truncate]
  split_ifs with hs
  · simp only
    omega
  · exact not_lt.mp hs

@[simp] lemma truncate_inode (job : FuseReadFileJob) (size : ℕ) : (job.truncate size).inode = job.inode := by
  rw [truncate]
  split_ifs <;> rfl

@[simp] lemma truncate_request (job : FuseReadFileJob) (size : ℕ) :
    (job.truncate size).request = job.request := by
  rw [truncate]
  split_ifs <;> rfl

@[simp] lemma truncate_offset (job : FuseReadFileJob) (size : ℕ) :
    (job.truncate size).offset = job.offset := by
  rw [truncate]
  split_ifs <;> rfl

lemma fetchBlock_outcome {s : Client} {job : FuseReadFileJob} {index : ℕ}
    (hb : index * blockSize < (s.leafs job.inode).size)
    (hd : (s.leafs job.inode).getStatus index ≠ .onDisk) : Outcome s job (fetchBlock s job index) := by
  rw [fetchBlock, Leaf.setInFlight]
  cases hs : (s.leafs job.inode).getStatus index with
  | notFound => exact .fetch index prefetchAhead hs hb
  | inFlight => exact .park index hs
  | inCache => exact .again
  | onDisk => exact absurd hs hd

lemma waitForNext_outcome {s : Client} {job : FuseReadFileJob} {index : ℕ}
    (hb : index * blockSize < (s.leafs job.inode).size)
    (hd : (s.leafs job.inode).getStatus index ≠ .onDisk) : Outcome s job (waitForNext s job index) := by
  rw [waitForNext, Leaf.setInFlight]
  cases hs : (s.leafs job.inode).getStatus index with
  | notFound => exact .fetch index 0 hs hb
  | inFlight => exact .park index hs
  | inCache => exact .again
  | onDisk => exact absurd hs hd

lemma execute_outcome (s : Client) (job : FuseReadFileJob) (stop : Bool) :
    ∃ c, Outcome { s with fileCache := c } (job.truncate (s.leafs job.inode).size) (execute s job stop) := by
  rw [execute]
  split_ifs with hstop hoff
  · exact ⟨s.fileCache, truncate_request job _ ▸ .error⟩
  · exact ⟨s.fileCache, truncate_request job _ ▸ .error⟩
  · have ho : job.offset < (s.leafs job.inode).size := not_le.mp hoff
    have hle := truncate_le ho
    have hi := truncate_inode job (s.leafs job.inode).size
    have hof := truncate_offset job (s.leafs job.inode).size
    dsimp only
    generalize job.truncate (s.leafs job.inode).size = job' at *
    rw [← hi] at hle ho ⊢
    rw [← hof] at ho
    have hmul := Nat.div_mul_le_self job'.offset blockSize
    cases hfirst : (s.leafs job'.inode).pinData job'.offset job'.size with
    | error pins => exact ⟨s.fileCache, .unwind pins (Leaf.pinData_error hfirst).1⟩
    | ok buffer =>
    have hbuf := Leaf.getData_of_pinData hfirst
    dsimp only
    split_ifs with hdata
    · dsimp only [executeWithData]
      split_ifs with htotal hdisk
      · exact ⟨_, .prefixed buffer ho hbuf hdata htotal hdisk⟩
      · have hm := Nat.div_mul_le_self (job'.offset + buffer.totalSize) blockSize
        have hb : job'.offset + buffer.totalSize < (s.leafs job'.inode).size := by omega
        exact ⟨s.fileCache, fetchBlock_outcome (lt_of_le_of_lt hm hb) hdisk⟩
      · exact ⟨s.fileCache, .data buffer prefetchAhead ho hbuf (not_lt.mp htotal)⟩
    · dsimp only [executeWithoutData]
      have hnext : (job'.offset / blockSize + 1) * blockSize / blockSize = job'.offset / blockSize + 1 :=
        Nat.mul_div_cancel _ blockSize_pos
      split_ifs with hdisk hcross
      · cases hsecond : (s.leafs job'.inode).pinData ((job'.offset / blockSize + 1) * blockSize)
          (job'.offset + job'.size - (job'.offset / blockSize + 1) * blockSize) with
        | error pins => exact ⟨_, .unwind pins (Leaf.pinData_error hsecond).1⟩
        | ok pinned =>
          dsimp only
          split_ifs with hp
          · exact ⟨_, .append pinned hdisk ho hcross.1 (Leaf.getData_of_pinData hsecond) hp⟩
          · rw [hnext] at hcross ⊢
            exact ⟨_, waitForNext_outcome (lt_of_lt_of_le hcross.1 hle) hcross.2⟩
      · refine ⟨_, .disk hdisk ho fun hc => ?_⟩
        by_contra hn
        exact hcross ⟨hc, by rwa [hnext]⟩
      · exact ⟨s.fileCache, fetchBlock_outcome (lt_of_le_of_lt hmul ho) hdisk⟩

end FuseReadFileJob

namespace Client

def left : Except Client Client → Client
  | .error t => t
  | .ok t => t

end Client

namespace FuseReadFilePendingJob

def Throws (leaf : Leaf FuseReadFilePendingJob) (job : FuseReadFilePendingJob) : Prop :=
  leaf.Throws (job.arrivedBlockIndex * blockSize) blockSize ∨ leaf.Throws (job.offset / blockSize * blockSize) blockSize

lemma throws_congr {leaf leaf' : Leaf FuseReadFilePendingJob} (hsize : leaf'.size = leaf.size)
    (hdata : leaf'.data = leaf.data) (job : FuseReadFilePendingJob) : job.Throws leaf' ↔ job.Throws leaf := by
  have hfind (i : ℕ) : leaf'.findBlock i = (leaf.findBlock i).map (List.map id) := by
    rw [List.map_id_fun, Option.map_id, Leaf.findBlock, hdata]
    rfl
  exact or_congr (Leaf.throws_congr (fun _ => ⟨rfl, rfl, rfl, rfl⟩) hsize hfind)
    (Leaf.throws_congr (fun _ => ⟨rfl, rfl, rfl, rfl⟩) hsize hfind)

lemma throws_pin {leaf : Leaf FuseReadFilePendingJob} {ids : List ℕ} (job : FuseReadFilePendingJob) :
    job.Throws (leaf.pin ids) ↔ job.Throws leaf := by
  have hpin (r : Range) : (r.pin ids).id = r.id ∧ (r.pin ids).offset = r.offset ∧ (r.pin ids).size = r.size ∧
      (r.pin ids).packets = r.packets := ⟨rfl, rfl, rfl, rfl⟩
  have hfind (i : ℕ) : (leaf.pin ids).findBlock i = (leaf.findBlock i).map (List.map fun r => r.pin ids) :=
    leaf.findBlock_mapRanges _ i
  have hsize : (leaf.pin ids).size = leaf.size := rfl
  exact or_congr (Leaf.throws_congr hpin hsize hfind) (Leaf.throws_congr hpin hsize hfind)

lemma execute_cases (s : Client) (job : FuseReadFilePendingJob) :
    (∃ pins, job.Throws (s.leafs job.inode) ∧ (s.leafs job.inode).PinsOwn pins ∧
      job.execute s = .error (s.pinRanges job.inode pins)) ∨
    ∃ arrived requested, ¬ job.Throws (s.leafs job.inode) ∧ (s.leafs job.inode).PinsOwn (arrived ++ requested) ∧
      job.execute s = .ok ((s.pinRanges job.inode (arrived ++ requested)).scheduleCacheTreeJob
        (.fuseRead ⟨job.request, job.inode, job.size, job.offset, arrived, requested⟩)) := by
  rw [execute]
  cases harrived : (s.leafs job.inode).pinData (job.arrivedBlockIndex * blockSize) blockSize with
  | error pins =>
    exact Or.inl ⟨pins, Or.inl (Leaf.throws_iff.mpr ⟨pins, harrived⟩), (Leaf.pinData_error harrived).1, rfl⟩
  | ok arrived =>
    cases hrequested : (s.leafs job.inode).pinData (job.offset / blockSize * blockSize) blockSize with
    | error pins =>
      exact Or.inl ⟨pins, Or.inr (Leaf.throws_iff.mpr ⟨pins, hrequested⟩), (Leaf.pinData_error hrequested).1, rfl⟩
    | ok requested =>
      refine Or.inr ⟨arrived.pin, requested.pin, ?_, fun id hid => ?_, rfl⟩
      · rintro (h | h)
        · exact Leaf.not_throws_of_pinData harrived h
        · exact Leaf.not_throws_of_pinData hrequested h
      · rcases List.mem_append.mp hid with hid | hid
        · exact Leaf.pinData_ok harrived id hid
        · exact Leaf.pinData_ok hrequested id hid

end FuseReadFilePendingJob

namespace Client

def evict (s : Client) (inode index packets : ℕ) : Client :=
  (s.setLeaf inode (((s.leafs inode).eraseBlock index).setStatus index .notFound)).removeCount inode packets

lemma getFreeData_cases {s t : Client} {inode : ℕ} {job : WriteFileCacheJob}
    (hk : (s.leafs inode).KeysNodup) (h : s.getFreeData inode = some (job, t)) :
    ∃ index ranges, (s.leafs inode).findBlock index = some ranges ∧ (∀ r ∈ ranges, r.counter ≤ 1) ∧
      job = ⟨inode, min blockSize ((s.leafs inode).size - index * blockSize),
        (ranges.head?.map Range.offset).getD 0, ranges.flatMap Range.packets⟩ ∧
      t = s.evict inode index (ranges.flatMap Range.packets).length := by
  obtain ⟨index, hi, h⟩ := Option.map_eq_some_iff.mp h
  obtain ⟨ranges, hm, hp⟩ := Leaf.getFirstBlockIndex_unpinned hi
  have hf := hk.findBlock hm
  rw [Leaf.extractBlock, hf] at h
  obtain ⟨rfl, rfl⟩ := Prod.mk.inj h
  exact ⟨index, ranges, hf, hp, rfl, rfl⟩

lemma evictLoop_rule {P : Client → Prop} {shard : ℕ}
    (hfree : ∀ s inode job t, P s → inode ∈ s.cachePerShard.map Prod.fst →
      s.getFreeData inode = some (job, t) →
        (job.data = [] → P t) ∧ P (t.scheduleCacheTreeJob (.writeFile job))) :
    ∀ {picks : List ℕ} {s t : Client}, evictLoop shard picks s = some t → P s → P t
  | [], s, t, h, hs => by
    rw [evictLoop] at h
    split_ifs at h
    cases h
    exact hs
  | inode :: rest, s, t, h, hs => by
    rw [evictLoop] at h
    by_cases hn : s.needsEviction ∧ inode ∈ s.shardInodes shard
    swap
    · rw [if_neg hn] at h
      cases h
    rw [if_pos hn] at h
    have hmem : inode ∈ s.cachePerShard.map Prod.fst := (List.mem_filter.mp hn.2).1
    cases hg : s.getFreeData inode with
    | none =>
      rw [hg] at h
      simp only at h
      split_ifs at h
      cases h
      exact hs
    | some r =>
      obtain ⟨job, u⟩ := r
      obtain ⟨h1, h2⟩ := hfree s inode job u hs hmem hg
      rw [hg] at h
      simp only at h
      split_ifs at h with hdata
      · cases h
        exact h1 hdata
      · exact evictLoop_rule hfree h h2

lemma evictLoop_induct {P : Client → Prop} {shard : ℕ}
    (hfree : ∀ s inode job t, P s → inode ∈ s.cachePerShard.map Prod.fst →
      s.getFreeData inode = some (job, t) → P t ∧ P (t.scheduleCacheTreeJob (.writeFile job)))
    {picks : List ℕ} {s t : Client} (h : evictLoop shard picks s = some t) (hs : P s) : P t :=
  evictLoop_rule (fun u inode job v hu hm hg => (hfree u inode job v hu hm hg).imp (fun hv _ => hv) id) h hs

lemma foldlM_error_iff (jobs : List FuseReadFilePendingJob) (s : Client) :
    (∃ t, jobs.foldlM FuseReadFilePendingJob.execute s = .error t) ↔ ∃ job ∈ jobs, job.Throws (s.leafs job.inode) := by
  induction jobs generalizing s with
  | nil => exact iff_of_false (fun ⟨t, h⟩ => by cases h) (by simp)
  | cons job jobs ih =>
    rw [List.foldlM_cons]
    obtain ⟨pins, hthrows, -, he⟩ | ⟨arrived, requested, hthrows, -, he⟩ := job.execute_cases s <;> rw [he]
    · exact iff_of_true ⟨_, rfl⟩ ⟨job, List.mem_cons_self, hthrows⟩
    · refine (ih _).trans ?_
      rw [List.exists_mem_cons_iff, or_iff_right hthrows]
      refine exists_congr fun p => and_congr_right fun _ => ?_
      simp only [scheduleCacheTreeJob, pinRanges, leafs_setLeaf]
      split_ifs with hi
      · rw [hi, p.throws_pin]
      · rfl

lemma foldlM_induct {P : Client → Prop} {jobs : List FuseReadFilePendingJob}
    (hstep : ∀ s, ∀ job ∈ jobs, P s → P (left (FuseReadFilePendingJob.execute s job))) {s : Client} (hs : P s) :
    P (left (jobs.foldlM FuseReadFilePendingJob.execute s)) := by
  induction jobs generalizing s with
  | nil => exact hs
  | cons job jobs ih =>
    have hfirst := hstep s job List.mem_cons_self hs
    rw [List.foldlM_cons]
    cases he : FuseReadFilePendingJob.execute s job with
    | error t =>
      rw [he] at hfirst
      exact hfirst
    | ok t =>
      rw [he] at hfirst
      exact ih (fun s' j hj => hstep s' j (List.mem_cons_of_mem _ hj)) hfirst

end Client

namespace ApplyBlockCacheJob

variable {s t : Client} {job : ApplyBlockCacheJob} {picks : List ℕ}

lemma deliver_of_none (h : job.request = none) :
    job.deliver s = wake (job.addBlock s) job.inode ((job.offset + job.skipped) / blockSize) := by
  simp only [deliver, h]
  rfl

/-- Once the data is added, the lookup for the read that is answered, or for one that is woken, comes to a range without
packets. -/
def Throws (s : Client) (job : ApplyBlockCacheJob) : Prop :=
  (job.request ≠ none ∧
    ((job.addBlock s).leafs job.inode).Throws job.offset (min (job.readed + job.skipped) job.size)) ∨
    ∃ p ∈ (((job.addBlock s).leafs job.inode).takePendingJobs job.blockIndex).1,
      p.Throws ((job.addBlock s).leafs p.inode)

lemma wake_error_iff (s : Client) (inode index : ℕ) :
    (∃ t, wake s inode index = .error t) ↔
      ∃ p ∈ ((s.leafs inode).takePendingJobs index).1, p.Throws (s.leafs p.inode) := by
  refine (Client.foldlM_error_iff _ _).trans (exists_congr fun p => and_congr_right fun _ => ?_)
  rw [Client.leafs_setLeaf]
  split_ifs with hi
  · rw [hi]
    refine FuseReadFilePendingJob.throws_congr ?_ ?_ p
    · rfl
    · rfl
  · rfl

lemma throws_iff : job.Throws s ↔ ∃ t, job.deliver s = .error t := by
  rw [Throws, ← wake_error_iff, deliver]
  cases job.request with
  | none => simp [bind, Except.bind]
  | some request =>
    dsimp only
    rw [replyData, Leaf.throws_iff]
    cases ((job.addBlock s).leafs job.inode).pinData job.offset (min (job.readed + job.skipped) job.size) with
    | error pins => simp [bind, Except.bind]
    | ok view =>
      have hwake := wake_error_iff ((job.addBlock s).reply request
        (.data (((job.addBlock s).leafs job.inode).readSpans view.spans))) job.inode job.blockIndex
      have hsame := wake_error_iff (job.addBlock s) job.inode job.blockIndex
      simp only [bind, Except.bind]
      rw [hwake, hsame]
      simp [Client.reply]

lemma execute_induct {P : Client → Prop}
    (hfree : ∀ s inode job t, P s → inode ∈ s.cachePerShard.map Prod.fst →
      s.getFreeData inode = some (job, t) → P t ∧ P (t.scheduleCacheTreeJob (.writeFile job)))
    (h : job.execute s picks = some t) (hs : P (Client.left (job.deliver s))) : P t := by
  rw [execute] at h
  cases hd : job.deliver s with
  | error u =>
    rw [hd] at h hs
    cases h
    exact hs
  | ok u =>
    rw [hd] at h hs
    exact Client.evictLoop_induct hfree h hs

end ApplyBlockCacheJob

end FastTransport.FileCache
