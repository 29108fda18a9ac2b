import FastTransport.FileCache.BlockInvariant

/-! No read is parked on a block that nothing will complete, as long as no response carries an error. -/

namespace FastTransport.FileCache

open FileSystem Lib.Runs Lib.Lists

def Waiting (leaf : Leaf FuseReadFilePendingJob) (index : ℕ) : Prop :=
  leaf.getStatus index = .inFlight ∨ ∃ job, (index, job) ∈ leaf.pendingJobs

def Client.OnItsWay (s : Client) (inode index : ℕ) : Prop :=
  ∃ r ∈ s.outstanding, r.inode = inode ∧ r.index = index

def Attended (s : Client) : Prop := ∀ inode index, Waiting (s.leafs inode) index → s.OnItsWay inode index

def NoError (s : Client) : Action → Prop
  | .receive i => ∀ r, s.responses[i]? = some r → r.error = 0
  | _ => True

namespace Attended

variable {s t : Client}

lemma create (files : ℕ → RemoteFile) : Attended (Client.create files) := by
  intro inode index hw
  rcases hw with hw | ⟨job, hj⟩
  · simp [Client.create] at hw
  · exact absurd hj List.not_mem_nil

lemma of_subset (h : Attended s) (ho : s.outstanding ⊆ t.outstanding)
    (hw : ∀ inode index, Waiting (t.leafs inode) index →
      Waiting (s.leafs inode) index ∨ t.OnItsWay inode index) : Attended t := by
  intro inode index hi
  rcases hw inode index hi with hi | hi
  · obtain ⟨r, hr, hk⟩ := h inode index hi
    exact ⟨r, ho hr, hk⟩
  · exact hi

lemma setLeaf (h : Attended s) {inode : ℕ} {leaf : Leaf FuseReadFilePendingJob}
    (hw : ∀ index, Waiting leaf index → Waiting (s.leafs inode) index ∨ s.OnItsWay inode index) :
    Attended (s.setLeaf inode leaf) := by
  refine h.of_subset (fun _ hr => hr) fun i index hi => ?_
  rw [Client.leafs_setLeaf] at hi
  split_ifs at hi with he
  · subst he
    exact hw index hi
  · exact Or.inl hi

lemma waiting_setStatus {leaf : Leaf FuseReadFilePendingJob} {status : PieceStatus} {index j : ℕ}
    (hs : status ≠ .inFlight) (hw : Waiting (leaf.setStatus index status) j) : Waiting leaf j := by
  rcases hw with hw | hw
  · rcases leaf.getStatus_setStatus_cases index status j with hc | hc
    · exact absurd (hc ▸ hw) hs
    · exact Or.inl (hc ▸ hw)
  · exact Or.inr hw

lemma requestBlock (h : Attended s) (inode index : ℕ) : Attended (s.requestBlock inode index) := by
  have hp := BlockInv.outstanding_requestBlock s inode index
  have hindex : index * blockSize / blockSize = index := Nat.mul_div_cancel _ blockSize_pos
  refine h.of_subset (fun r hr => hp.symm.subset (List.mem_cons_of_mem _ hr)) fun i j hw => ?_
  simp only [Client.requestBlock, Client.requestReadFile, Client.leafs_setLeaf] at hw
  split_ifs at hw with hi
  · subst hi
    by_cases hj : j = index
    · exact Or.inr ⟨_, hp.symm.subset List.mem_cons_self, rfl, hindex.trans hj.symm⟩
    · rcases hw with hw | hw
      · simp only [Leaf.getStatus, Leaf.setStatus, PiecesStatus.getStatus, PiecesStatus.setStatus,
          List.getD_eq_getElem?_getD, List.getElem?_set_ne (Ne.symm hj)] at hw
        refine Or.inl (Or.inl ?_)
        simpa only [Leaf.getStatus, PiecesStatus.getStatus, List.getD_eq_getElem?_getD] using hw
      · exact Or.inl (Or.inr hw)
  · exact Or.inl hw

lemma addPendingJob (h : Attended s) {job : FuseReadFileJob} {index : ℕ} (hi : s.OnItsWay job.inode index) :
    Attended (FuseReadFileJob.addPendingJob s job index) := by
  refine h.setLeaf fun j hw => ?_
  rcases hw with hw | ⟨p, hp⟩
  · exact Or.inl (Or.inl hw)
  · rcases List.mem_append.mp hp with hp | hp
    · exact Or.inl (Or.inr ⟨p, hp⟩)
    · rw [(Prod.mk.inj (List.mem_singleton.mp hp)).1]
      exact Or.inr hi

lemma onItsWay_requestBlock (s : Client) (inode index : ℕ) : (s.requestBlock inode index).OnItsWay inode index :=
  ⟨_, (BlockInv.outstanding_requestBlock s inode index).symm.subset List.mem_cons_self, rfl,
    Nat.mul_div_cancel _ blockSize_pos⟩

lemma scheduleCacheTreeJob (h : Attended s) (job : CacheTreeJob) : Attended (s.scheduleCacheTreeJob job) := by
  refine h.of_subset (fun r hr => ?_) fun _ _ hw => Or.inl hw
  simp only [Client.outstanding, Client.scheduleCacheTreeJob, List.filterMap_append, ← List.append_assoc]
  exact List.mem_append_left _ hr

lemma mapRanges (h : Attended s) (inode : ℕ) (f : Range → Range) :
    Attended (s.setLeaf inode ((s.leafs inode).mapRanges f)) := h.setLeaf fun _ hw => Or.inl hw

lemma withFileCache (h : Attended s) (c : FileSystem.FileCache) : Attended { s with fileCache := c } := h

lemma scheduleDiskJob (h : Attended s) (job : DiskJob) : Attended (s.scheduleDiskJob job) :=
  h.mapRanges job.inode _

lemma outcome (h : Attended s) {job : FuseReadFileJob} (ho : job.Outcome s t) : Attended t := by
  have hfetch : ∀ s index, Attended s → (s.leafs job.inode).getStatus index = .notFound →
      index * blockSize < (s.leafs job.inode).size → Attended (s.requestBlock job.inode index) :=
    fun s index h _ _ => h.requestBlock job.inode index
  cases ho with
  | error => exact h
  | unwind pins _ => exact h.mapRanges _ _
  | again => exact h.scheduleCacheTreeJob _
  | park index hs => exact h.addPendingJob (h job.inode index (Or.inl hs))
  | fetch index n _ _ =>
    exact Client.prefetchLoop_induct hfetch _ _
      ((h.requestBlock job.inode index).addPendingJob (onItsWay_requestBlock s job.inode index))
  | append => exact h.scheduleDiskJob _
  | disk => exact h.scheduleDiskJob _
  | prefixed => exact h.scheduleDiskJob _
  | data buffer n _ _ _ =>
    have hp : Attended (s.prefetchLoop job.inode (job.offset / blockSize) n) :=
      Client.prefetchLoop_induct hfetch _ _ h
    exact hp

lemma pendingExecute (h : Attended s) (job : FuseReadFilePendingJob) : Attended (Client.left (job.execute s)) := by
  obtain ⟨pins, -, -, he⟩ | ⟨arrived, requested, -, -, he⟩ := job.execute_cases s <;> rw [he]
  · exact h.mapRanges _ _
  · exact Attended.scheduleCacheTreeJob (h.mapRanges _ _) _

lemma evict (h : Attended s) (inode index packets : ℕ) : Attended (s.evict inode index packets) := by
  have hset : Attended (s.setLeaf inode (((s.leafs inode).eraseBlock index).setStatus index .notFound)) :=
    h.setLeaf fun j hw => Or.inl (waiting_setStatus PieceStatus.noConfusion hw)
  exact hset

lemma applied {A : Set ℕ} {files : ℕ → RemoteFile} (h : Attended s) (hb : BlockInv A files s)
    {xs ys : List CacheTreeJob} {job : ApplyBlockCacheJob} (hq : s.cacheTreeQueue = xs ++ .applyBlock job :: ys)
    {u : Client} (hu : u = job.addBlock { s with cacheTreeQueue := xs ++ ys }) :
    Attended (u.setLeaf job.inode ((u.leafs job.inode).takePendingJobs ((job.offset + job.skipped) / blockSize)).2) := by
  obtain ⟨-, hblock, ho, hf, -⟩ := hb.applyBlock_facts hq
  have hp := BlockInv.outstanding_pop hq
  rw [ApplyBlockCacheJob.addBlock] at hu
  rw [hblock.skipped, Nat.add_zero] at hu ⊢
  have hleaf := BlockInv.leafs_addData (s := { s with cacheTreeQueue := xs ++ ys }) job.readed job.data hf
  rw [← hu] at hleaf
  have hout : u.outstanding = ({ s with cacheTreeQueue := xs ++ ys } : Client).outstanding := by
    rw [hu]
    rfl
  have hlt : job.index < ((s.leafs job.inode).insertBlock job.index
      [Range.create s.nextId job.offset job.readed job.data]).piecesStatus.size := by
    refine (hb.leafs job.inode).lt_pieces (lt_of_le_of_lt (Nat.div_mul_le_self _ _) ?_)
    rw [(hb.leafs job.inode).size]
    exact ho
  intro i index hw
  rw [Client.leafs_setLeaf] at hw
  have hother : Waiting (s.leafs i) index ∧ (i, index) ≠ job.key := by
    by_cases hi : i = job.inode
    · subst hi
      rw [if_pos rfl, hleaf, if_pos rfl] at hw
      rcases hw with hw | ⟨p, hp⟩
      · have hs : (((s.leafs job.inode).insertBlock job.index
            [Range.create s.nextId job.offset job.readed job.data]).setStatus job.index .inCache).getStatus index =
            .inFlight := hw
        rw [Leaf.getStatus_setStatus _ _ hlt] at hs
        split_ifs at hs with hj
        exact ⟨Or.inl hs, fun hk => hj (Prod.mk.inj hk).2⟩
      · obtain ⟨hm, hj⟩ := List.mem_filter.mp hp
        exact ⟨Or.inr ⟨p, hm⟩, fun hk => of_decide_eq_true hj (Prod.mk.inj hk).2⟩
    · rw [if_neg hi, hleaf, if_neg hi] at hw
      exact ⟨hw, fun hk => hi (Prod.mk.inj hk).1⟩
  obtain ⟨r, hr, hri, hrx⟩ := h i index hother.1
  refine ⟨r, ?_, hri, hrx⟩
  change r ∈ u.outstanding
  rw [hout]
  rcases List.mem_cons.mp (hp.subset hr) with rfl | hr
  · exact absurd (by rw [ReadRequest.key, hri, hrx]) hother.2
  · exact hr

/-- An exception in the wake loop ends the job, but its block has been taken off the list of what is waited for. -/
lemma deliver {A : Set ℕ} {files : ℕ → RemoteFile} (h : Attended s) (hb : BlockInv A files s)
    {xs ys : List CacheTreeJob} {job : ApplyBlockCacheJob} (hq : s.cacheTreeQueue = xs ++ .applyBlock job :: ys) :
    Attended (Client.left (job.deliver { s with cacheTreeQueue := xs ++ ys })) := by
  obtain ⟨-, hblock, -⟩ := hb.applyBlock_facts hq
  rw [ApplyBlockCacheJob.deliver_of_none hblock.request]
  exact Client.foldlM_induct (fun _ job _ hv => hv.pendingExecute job) (h.applied hb hq rfl)

lemma applyBlock {A : Set ℕ} {files : ℕ → RemoteFile} (h : Attended s) (hb : BlockInv A files s)
    {xs ys : List CacheTreeJob} {job : ApplyBlockCacheJob} (hq : s.cacheTreeQueue = xs ++ .applyBlock job :: ys)
    {picks : List ℕ} (ht : job.execute { s with cacheTreeQueue := xs ++ ys } picks = some t) : Attended t := by
  refine (ApplyBlockCacheJob.execute_induct (P := fun u => BlockInv A files u ∧ Attended u) ?_ ht
    ⟨hb.deliver hq, h.deliver hb hq⟩).2
  rintro u inode job' v ⟨hub, hu⟩ hm hg
  obtain ⟨hv, hw⟩ := hub.getFreeData hm hg
  obtain ⟨index, ranges, -, -, rfl, rfl⟩ := Client.getFreeData_cases (hub.leafs inode).keys hg
  exact ⟨⟨hv, hu.evict _ _ _⟩, hw, (hu.evict _ _ _).scheduleCacheTreeJob _⟩

lemma writeFile (h : Attended s) (job : WriteFileCacheJob) : Attended (job.execute s) := by
  have hset : Attended
      (s.setLeaf job.inode ((s.leafs job.inode).setStatus (job.offset / blockSize) .onDisk)) :=
    h.setLeaf fun j hw => Or.inl (waiting_setStatus PieceStatus.noConfusion hw)
  exact hset

lemma pop (h : Attended s) {xs ys : List CacheTreeJob} {job : CacheTreeJob}
    (hq : s.cacheTreeQueue = xs ++ job :: ys) (hr : job.request? = none) :
    Attended { s with cacheTreeQueue := xs ++ ys } := by
  refine h.of_subset (fun r hm => ?_) fun _ _ hw => Or.inl hw
  simpa only [Client.outstanding, hq, List.filterMap_append, List.filterMap_cons, hr] using hm

lemma cacheTreeJob {A : Set ℕ} {files : ℕ → RemoteFile} (h : Attended s) (hb : BlockInv A files s)
    {xs ys : List CacheTreeJob} {job : CacheTreeJob} (hq : s.cacheTreeQueue = xs ++ job :: ys) {stop : Bool}
    {picks : List ℕ} (ht : job.execute { s with cacheTreeQueue := xs ++ ys } stop picks = some t) :
    Attended t := by
  cases job with
  | fuseRead job =>
    cases ht
    obtain ⟨c, ho⟩ := FuseReadFileJob.execute_outcome
      (({ s with cacheTreeQueue := xs ++ ys } : Client).unpinRanges job.inode job.pins) job stop
    exact Attended.outcome (Attended.withFileCache (Attended.mapRanges (h.pop hq rfl) job.inode _) c) ho
  | applyBlock job => exact h.applyBlock hb hq ht
  | writeFile job =>
    cases ht
    exact (h.pop hq rfl).writeFile job

theorem step {A : Set ℕ} {files : ℕ → RemoteFile} (h : Attended s) (hb : BlockInv A files s)
    {a : Action} (ha : NoError s a) (ht : s.step a = some t) : Attended t := by
  cases a with
  | read request =>
    cases ht
    exact h.scheduleCacheTreeJob _
  | cacheTree shard stop picks =>
    obtain ⟨job, hj, ht⟩ := Option.bind_eq_some_iff.mp ht
    obtain ⟨xs, ys, hq, he⟩ := find?_eraseP hj
    rw [he] at ht
    exact h.cacheTreeJob hb hq ht
  | disk i =>
    obtain ⟨job, -, rfl⟩ := Option.map_eq_some_iff.mp ht
    exact h.mapRanges job.inode _
  | sendRequest =>
    simp only [Client.step] at ht
    split at ht
    · cases ht
    · next r rest hm =>
      cases ht
      exact h.of_subset (Client.outstanding_sendRequest hm).symm.subset fun _ _ hw => Or.inl hw
  | answer i error data =>
    obtain ⟨r, hr, rfl⟩ := Option.map_eq_some_iff.mp ht
    obtain ⟨xs, ys, hq, he⟩ := getElem?_eraseIdx hr
    rw [he]
    exact h.of_subset (Client.outstanding_answer hq _ _ _).symm.subset fun _ _ hw => Or.inl hw
  | receive i =>
    obtain ⟨r, hr, rfl⟩ := Option.map_eq_some_iff.mp ht
    obtain ⟨xs, ys, hq, hx⟩ := getElem?_eraseIdx hr
    rw [hx, Client.executeResponse, if_neg (not_not.mpr (ha r hr))]
    exact h.of_subset (Client.outstanding_receive hq).symm.subset fun _ _ hw => Or.inl hw

end Attended

theorem waiting_block_onItsWay {files : ℕ → RemoteFile} {as : List Action} {s : Client}
    (h : Path Client.step NoError (Client.create files) as s) {inode index : ℕ}
    (hw : Waiting (s.leafs inode) index) : s.OnItsWay inode index := by
  have hinv : BlockInv Set.univ files s ∧ Attended s := by
    refine h.invariant (P := fun u => BlockInv Set.univ files u ∧ Attended u) ?_
      ⟨BlockInv.create _ files, Attended.create files⟩
    rintro u a v ⟨hb, hu⟩ ha hv
    refine ⟨hb.step ?_ hv, hu.step hb ha hv⟩
    cases a <;> trivial
  exact hinv.2 inode index hw

def sampleFile : RemoteFile := ⟨"notes.txt", 1, [7, 8, 9]⟩

def sampleRead : FuseRequest := ⟨1, 8, 1, 5⟩

theorem waiting_block_onItsWay_parked :
    ∃ s, run Client.step (Client.create fun _ => sampleFile) [.read sampleRead, .cacheTree 0 false []] = some s ∧
      Waiting (s.leafs 8) 0 ∧ s.OnItsWay 8 0 := by
  have hp : ∃ s, run Client.step (Client.create fun _ => sampleFile)
      [.read sampleRead, .cacheTree 0 false []] = some s ∧ Waiting (s.leafs 8) 0 ∧
      Path Client.step NoError (Client.create fun _ => sampleFile)
        [.read sampleRead, .cacheTree 0 false []] s :=
    ⟨_, rfl, Or.inl rfl, .cons trivial rfl (.cons trivial rfl (.nil _))⟩
  obtain ⟨s, hr, hw, hp⟩ := hp
  exact ⟨s, hr, hw, waiting_block_onItsWay hp hw⟩

theorem failed_response_orphans_block :
    ∃ s, run Client.step (Client.create fun _ => sampleFile)
        [.read sampleRead, .cacheTree 0 false [], .sendRequest, .answer 0 eio [], .receive 0] = some s ∧
      Waiting (s.leafs 8) 0 ∧ (s.leafs 8).pendingJobs = [(0, ⟨sampleRead, 8, 2, 1, 0⟩)] ∧
      s.outstanding = [] ∧ s.cacheTreeQueue = [] ∧ s.replies = [] ∧ ¬ s.OnItsWay 8 0 := by
  refine ⟨_, rfl, Or.inl rfl, rfl, rfl, rfl, rfl, ?_⟩
  rintro ⟨r, hr, -⟩
  exact absurd hr List.not_mem_nil

end FastTransport.FileCache
