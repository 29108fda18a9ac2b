import FastTransport.FileCache.BlockInvariant

/-! Every read of the kernel is held by one job, disk job or pending entry, or has been replied to, once. -/

namespace FastTransport.FileCache

open FileSystem Lib.Runs Lib.Lists

inductive Event
  | act (a : Action)
  | cancelAllPendingJobs (inodes : List ℕ)
  | destroy (i : ℕ)
  deriving DecidableEq, Repr

namespace CacheTreeJob

def read? : CacheTreeJob → Option FuseRequest
  | fuseRead job => some job.request
  | _ => none

end CacheTreeJob

lemma pendingJobs_extractBlock (leaf : Leaf FuseReadFilePendingJob) (index : ℕ) :
    (leaf.extractBlock index).2.2.pendingJobs = leaf.pendingJobs := by
  rw [Leaf.extractBlock]
  cases leaf.findBlock index <;> rfl

lemma pendingJobs_addData (leaf : Leaf FuseReadFilePendingJob) (id offset size : ℕ) (data : List CachedPacket) :
    (leaf.addData id offset size data).2.pendingJobs = leaf.pendingJobs := by
  rw [Leaf.addData]
  cases leaf.findBlock (offset / blockSize) <;> rfl

namespace Client

def cancelPendingJobs (s : Client) (inode : ℕ) : Client :=
  { s.setLeaf inode { s.leafs inode with pendingJobs := [] } with
    replies := s.replies ++ (s.leafs inode).pendingJobs.map fun e => ⟨e.2.request, .error eio⟩ }

def destroy (s : Client) (i : ℕ) : Option Client :=
  match s.cacheTreeQueue[i]? with
  | some (.fuseRead job) =>
    some ((({ s with cacheTreeQueue := s.cacheTreeQueue.eraseIdx i } : Client).unpinRanges job.inode job.pins).reply
      job.request (.error eio))
  | _ => none

/-- `inodes` are the leaves of the tree, in the order they are visited. -/
def handle (s : Client) : Event → Option Client
  | .act a => s.step a
  | .cancelAllPendingJobs inodes => some (inodes.foldl cancelPendingJobs s)
  | .destroy i => s.destroy i

def queuedReads (s : Client) : List FuseRequest := s.cacheTreeQueue.filterMap CacheTreeJob.read?

def parkedReads (s : Client) (inode : ℕ) : List FuseRequest := (s.leafs inode).pendingJobs.map fun e => e.2.request

def repliedReads (s : Client) : List FuseRequest := s.replies.map Reply.request

def carriedReads (s : Client) : List FuseRequest := s.outstanding.filterMap ReadRequest.request

def holders (s : Client) (q : FuseRequest) : ℕ :=
  s.queuedReads.count q + (s.diskQueue.map DiskJob.request).count q + (s.parkedReads q.inode).count q +
    s.carriedReads.count q

def account (s : Client) (q : FuseRequest) : ℕ :=
  s.queuedReads.count q + (s.diskQueue.map DiskJob.request).count q + (s.parkedReads q.inode).count q +
    s.repliedReads.count q

lemma parkedReads_cancelPendingJobs (s : Client) (inode i : ℕ) :
    (s.cancelPendingJobs inode).parkedReads i = if i = inode then [] else s.parkedReads i := by
  simp only [parkedReads, cancelPendingJobs, leafs_setLeaf]
  split_ifs <;> rfl

lemma repliedReads_cancelPendingJobs (s : Client) (inode : ℕ) :
    (s.cancelPendingJobs inode).repliedReads = s.repliedReads ++ s.parkedReads inode := by
  simp [repliedReads, parkedReads, cancelPendingJobs, Function.comp_def]

lemma account_congr {s t : Client} (hc : t.cacheTreeQueue = s.cacheTreeQueue) (hd : t.diskQueue = s.diskQueue)
    (hp : ∀ i, (t.leafs i).pendingJobs = (s.leafs i).pendingJobs) (hr : t.replies = s.replies) (q : FuseRequest) :
    t.account q = s.account q := by
  simp only [account, queuedReads, parkedReads, repliedReads, hc, hd, hp, hr]

lemma account_reply (s : Client) (r : FuseRequest) (result : ReadResult) (q : FuseRequest) :
    (s.reply r result).account q = s.account q + [r].count q := by
  simp only [account, queuedReads, parkedReads, repliedReads, reply, List.map_append, List.count_append,
    List.map_cons, List.map_nil]
  omega

lemma account_scheduleCacheTreeJob (s : Client) (job : CacheTreeJob) (q : FuseRequest) :
    (s.scheduleCacheTreeJob job).account q = s.account q + job.read?.toList.count q := by
  have hq : (s.scheduleCacheTreeJob job).queuedReads = s.queuedReads ++ job.read?.toList := by
    simp only [queuedReads, scheduleCacheTreeJob, List.filterMap_append]
    cases hr : job.read? <;> simp [hr]
  simp only [account, hq, List.count_append]
  simp only [scheduleCacheTreeJob, parkedReads, repliedReads]
  omega

lemma account_setLeaf_eq (s : Client) (inode : ℕ) (leaf : Leaf FuseReadFilePendingJob) (q : FuseRequest) :
    (s.setLeaf inode leaf).account q = s.queuedReads.count q + (s.diskQueue.map DiskJob.request).count q +
      ((s.setLeaf inode leaf).parkedReads q.inode).count q + s.repliedReads.count q := rfl

lemma account_setLeaf (s : Client) {inode : ℕ} {leaf : Leaf FuseReadFilePendingJob}
    (hp : leaf.pendingJobs = (s.leafs inode).pendingJobs) (q : FuseRequest) :
    (s.setLeaf inode leaf).account q = s.account q := by
  refine account_congr (s := s) (t := s.setLeaf inode leaf) rfl rfl (fun i => ?_) rfl q
  rw [leafs_setLeaf]
  split_ifs with hi
  · rw [hi, hp]
  · rfl

lemma account_requestBlock (s : Client) (inode index : ℕ) (q : FuseRequest) :
    (s.requestBlock inode index).account q = s.account q := by
  have hset := s.account_setLeaf (show ((s.leafs inode).setStatus index .inFlight).pendingJobs =
    (s.leafs inode).pendingJobs from rfl) q
  rw [← hset]
  exact account_congr (t := s.requestBlock inode index) rfl rfl (fun _ => rfl) rfl q

lemma account_prefetchLoop (s : Client) (inode index n : ℕ) (q : FuseRequest) :
    (s.prefetchLoop inode index n).account q = s.account q :=
  prefetchLoop_induct (P := fun t => t.account q = s.account q)
    (fun t index ht _ _ => (account_requestBlock t inode index q).trans ht) n index rfl

lemma account_scheduleDiskJob (s : Client) (job : DiskJob) (q : FuseRequest) :
    (s.scheduleDiskJob job).account q = s.account q + [job.request].count q := by
  have hpin := s.account_setLeaf (show ((s.leafs job.inode).pin job.buffer.pin).pendingJobs =
    (s.leafs job.inode).pendingJobs from rfl) q
  rw [← hpin]
  simp only [account, scheduleDiskJob, queuedReads, parkedReads, repliedReads, List.map_append, List.map_cons,
    List.map_nil, List.count_append]
  simp only [pinRanges, setLeaf]
  omega

lemma account_addPendingJob (s : Client) {job : FuseReadFileJob} (hj : job.request.inode = job.inode) (index : ℕ)
    (q : FuseRequest) :
    (FuseReadFileJob.addPendingJob s job index).account q = s.account q + [job.request].count q := by
  have hparked : (FuseReadFileJob.addPendingJob s job index).parkedReads q.inode =
      s.parkedReads q.inode ++ if q.inode = job.inode then [job.request] else [] := by
    simp only [parkedReads, FuseReadFileJob.addPendingJob, leafs_setLeaf]
    split_ifs with hi
    · rw [hi]
      simp [Leaf.addPendingJob, FuseReadFileJob.pending]
    · rw [List.append_nil]
  have hcount : (if q.inode = job.inode then [job.request] else []).count q = [job.request].count q := by
    split_ifs with hi
    · rfl
    · have hne : job.request ≠ q := fun h => hi (by rw [← h, hj])
      rw [List.count_nil, List.count_singleton, beq_false_of_ne hne]
      rfl
  simp only [account, hparked, List.count_append, hcount]
  simp only [FuseReadFileJob.addPendingJob, setLeaf, queuedReads, repliedReads]
  omega

lemma account_pinRanges (s : Client) (inode : ℕ) (ids : List ℕ) (q : FuseRequest) :
    (s.pinRanges inode ids).account q = s.account q :=
  s.account_setLeaf (show ((s.leafs inode).pin ids).pendingJobs = _ from rfl) q

lemma account_unpinRanges (s : Client) (inode : ℕ) (ids : List ℕ) (q : FuseRequest) :
    (s.unpinRanges inode ids).account q = s.account q :=
  s.account_setLeaf (show ((s.leafs inode).unpin ids).pendingJobs = _ from rfl) q

lemma account_outcome {s t : Client} {job : FuseReadFileJob} (hj : job.request.inode = job.inode)
    (h : job.Outcome s t) (q : FuseRequest) : t.account q = s.account q + [job.request].count q := by
  cases h with
  | error => exact account_reply _ _ _ _
  | unwind pins _ => rw [FuseReadFileJob.unwind, account_reply, account_pinRanges]
  | again => exact account_scheduleCacheTreeJob _ _ _
  | park index _ => exact account_addPendingJob _ hj _ _
  | fetch index n _ _ =>
    rw [account_prefetchLoop, account_addPendingJob _ hj, account_requestBlock]
  | append pinned _ _ _ _ _ => exact account_scheduleDiskJob _ _ _
  | disk _ _ _ => exact account_scheduleDiskJob _ _ _
  | prefixed buffer _ _ _ _ _ => exact account_scheduleDiskJob _ _ _
  | data buffer n _ _ _ =>
    rw [account_reply, account_prefetchLoop]

lemma account_foldlM (jobs : List FuseReadFilePendingJob) (s : Client) :
    ∃ lost : List FuseRequest, (lost = [] ↔ ∀ job ∈ jobs, ¬ job.Throws (s.leafs job.inode)) ∧ ∀ q,
      (left (jobs.foldlM FuseReadFilePendingJob.execute s)).account q + lost.count q =
        s.account q + (jobs.map FuseReadFilePendingJob.request).count q := by
  induction jobs generalizing s with
  | nil => exact ⟨[], iff_of_true rfl fun _ h => absurd h List.not_mem_nil, fun _ => rfl⟩
  | cons job jobs ih =>
    rw [List.foldlM_cons, List.forall_mem_cons]
    obtain ⟨pins, hthrows, -, he⟩ | ⟨arrived, requested, hthrows, -, he⟩ := job.execute_cases s <;> rw [he]
    · refine ⟨(job :: jobs).map FuseReadFilePendingJob.request,
        iff_of_false (List.cons_ne_nil _ _) fun h => h.1 hthrows, fun q => ?_⟩
      exact congrArg (· + _) (account_pinRanges s job.inode pins q)
    · obtain ⟨lost, hlost, haccount⟩ := ih ((s.pinRanges job.inode (arrived ++ requested)).scheduleCacheTreeJob
        (.fuseRead ⟨job.request, job.inode, job.size, job.offset, arrived, requested⟩))
      refine ⟨lost, hlost.trans ?_, fun q => (haccount q).trans ?_⟩
      · rw [and_iff_right hthrows]
        refine forall₂_congr fun p _ => not_congr ?_
        simp only [scheduleCacheTreeJob, pinRanges, leafs_setLeaf]
        split_ifs with hi
        · rw [hi, p.throws_pin]
        · rfl
      · rw [account_scheduleCacheTreeJob, account_pinRanges, List.map_cons, ← List.singleton_append, List.count_append,
          add_assoc]
        rfl

lemma account_takePendingJobs (s : Client) {inode : ℕ}
    (hp : ∀ e ∈ (s.leafs inode).pendingJobs, e.2.request.inode = inode) (index : ℕ) (q : FuseRequest) :
    (s.setLeaf inode ((s.leafs inode).takePendingJobs index).2).account q +
      (((s.leafs inode).takePendingJobs index).1.map fun job => job.request).count q = s.account q := by
  have hsplit : ((s.setLeaf inode ((s.leafs inode).takePendingJobs index).2).parkedReads q.inode).count q +
      (((s.leafs inode).takePendingJobs index).1.map fun job => job.request).count q =
        (s.parkedReads q.inode).count q := by
    simp only [parkedReads, leafs_setLeaf]
    split_ifs with hi
    · have hperm := List.filter_append_perm (fun e : ℕ × FuseReadFilePendingJob => decide (e.1 = index))
        (s.leafs inode).pendingJobs
      have hcount := (hperm.map fun e => e.2.request).count_eq q
      rw [hi, ← hcount, List.map_append, List.count_append, Nat.add_comm]
      simp [Leaf.takePendingJobs, List.map_map, Function.comp_def]
    · have hzero : (((s.leafs inode).takePendingJobs index).1.map fun job => job.request).count q = 0 := by
        refine List.count_eq_zero.mpr fun hm => ?_
        obtain ⟨job, hjob, rfl⟩ := List.mem_map.mp hm
        obtain ⟨e, he, rfl⟩ := List.mem_map.mp hjob
        exact hi (hp e (List.mem_of_mem_filter he))
      rw [hzero, Nat.add_zero]
  have hset := s.account_setLeaf_eq inode ((s.leafs inode).takePendingJobs index).2 q
  rw [hset, account, ← hsplit]
  omega

lemma account_wake (s : Client) {inode : ℕ} (hp : ∀ e ∈ (s.leafs inode).pendingJobs, e.2.request.inode = inode)
    (index : ℕ) :
    ∃ lost : List FuseRequest,
      (lost = [] ↔ ∀ job ∈ ((s.leafs inode).takePendingJobs index).1, ¬ job.Throws (s.leafs job.inode)) ∧
      ∀ q, (left (ApplyBlockCacheJob.wake s inode index)).account q + lost.count q = s.account q := by
  obtain ⟨lost, hlost, haccount⟩ := account_foldlM ((s.leafs inode).takePendingJobs index).1
    (s.setLeaf inode ((s.leafs inode).takePendingJobs index).2)
  refine ⟨lost, hlost.trans ?_, fun q => (haccount q).trans (s.account_takePendingJobs hp index q)⟩
  refine forall₂_congr fun job _ => not_congr ?_
  rw [leafs_setLeaf]
  split_ifs with hi
  · rw [hi]
    have hsize : ((s.leafs inode).takePendingJobs index).2.size = (s.leafs inode).size := rfl
    exact job.throws_congr hsize rfl
  · rfl

lemma account_getFreeData {s t : Client} {inode : ℕ} {job : WriteFileCacheJob}
    (h : s.getFreeData inode = some (job, t)) (q : FuseRequest) :
    t.account q = s.account q ∧ (t.scheduleCacheTreeJob (.writeFile job)).account q = s.account q := by
  have hfree : t.account q = s.account q := by
    obtain ⟨index, -, ht⟩ := Option.map_eq_some_iff.mp h
    cases ht
    exact s.account_setLeaf (pendingJobs_extractBlock _ _) q
  refine ⟨hfree, ?_⟩
  rw [account_scheduleCacheTreeJob, hfree]
  rfl

lemma account_addData (s : Client) (inode offset size : ℕ) (data : List CachedPacket) (q : FuseRequest) :
    (s.addData inode offset size data).account q = s.account q :=
  s.account_setLeaf (pendingJobs_addData _ _ _ _ _) q

lemma account_pop {s : Client} {xs ys : List CacheTreeJob} {job : CacheTreeJob}
    (hq : s.cacheTreeQueue = xs ++ job :: ys) (q : FuseRequest) :
    ({ s with cacheTreeQueue := xs ++ ys } : Client).account q + job.read?.toList.count q = s.account q := by
  have hcount : ((xs ++ ys).filterMap CacheTreeJob.read?).count q + job.read?.toList.count q =
      s.queuedReads.count q := by
    rw [queuedReads, hq, List.filterMap_append, List.filterMap_append, List.filterMap_cons]
    cases hr : job.read? with
    | none => simp
    | some r =>
      simp only [List.count_append, List.count_cons, Option.toList_some, List.count_nil]
      omega
  rw [account, account, ← hcount]
  simp only [queuedReads, repliedReads, parkedReads]
  omega

end Client

structure Addressed (s : Client) : Prop where
  jobs : ∀ job, .fuseRead job ∈ s.cacheTreeQueue → job.request.inode = job.inode
  pendings : ∀ i, ∀ e ∈ (s.leafs i).pendingJobs, e.2.inode = i ∧ e.2.request.inode = i

namespace Addressed

variable {s t : Client}

lemma count_parkedReads (h : Addressed s) {i : ℕ} {q : FuseRequest} (hi : q.inode ≠ i) :
    (s.parkedReads i).count q = 0 := by
  apply List.count_eq_zero.mpr
  intro hm
  obtain ⟨e, he, rfl⟩ := List.mem_map.mp hm
  exact hi (h.pendings i e he).2

lemma of_eq (h : Addressed s) (hc : ∀ job, .fuseRead job ∈ t.cacheTreeQueue → .fuseRead job ∈ s.cacheTreeQueue)
    (hp : ∀ i, (t.leafs i).pendingJobs ⊆ (s.leafs i).pendingJobs) : Addressed t :=
  ⟨fun job hj => h.jobs job (hc job hj), fun i e he => h.pendings i e (hp i he)⟩

lemma setLeaf (h : Addressed s) {inode : ℕ} {leaf : Leaf FuseReadFilePendingJob}
    (hp : leaf.pendingJobs ⊆ (s.leafs inode).pendingJobs) : Addressed (s.setLeaf inode leaf) := by
  refine h.of_eq (fun _ hj => hj) fun i => ?_
  rw [Client.leafs_setLeaf]
  split_ifs with hi
  · rwa [hi]
  · exact fun _ he => he

lemma scheduleCacheTreeJob (h : Addressed s) {job : CacheTreeJob}
    (hj : ∀ j, job = .fuseRead j → j.request.inode = j.inode) : Addressed (s.scheduleCacheTreeJob job) := by
  refine ⟨fun j hm => ?_, h.pendings⟩
  rcases List.mem_append.mp hm with hm | hm
  · exact h.jobs j hm
  · exact hj j (List.mem_singleton.mp hm).symm

lemma addPendingJob (h : Addressed s) {job : FuseReadFileJob} (hj : job.request.inode = job.inode) (index : ℕ) :
    Addressed (FuseReadFileJob.addPendingJob s job index) := by
  refine ⟨h.jobs, fun i e he => ?_⟩
  simp only [FuseReadFileJob.addPendingJob, Client.leafs_setLeaf] at he
  split_ifs at he with hi
  · rcases List.mem_append.mp he with he | he
    · rw [hi]
      exact h.pendings _ e he
    · rw [List.mem_singleton.mp he]
      exact ⟨hi.symm, hj.trans hi.symm⟩
  · exact h.pendings i e he

lemma requestBlock (h : Addressed s) (inode index : ℕ) : Addressed (s.requestBlock inode index) := by
  have hset : Addressed (s.setLeaf inode ((s.leafs inode).setStatus index .inFlight)) := h.setLeaf fun _ he => he
  exact ⟨hset.jobs, hset.pendings⟩

lemma prefetchLoop (h : Addressed s) (inode index n : ℕ) : Addressed (s.prefetchLoop inode index n) :=
  Client.prefetchLoop_induct (P := Addressed) (fun _ index hu _ _ => hu.requestBlock inode index) n index h

lemma pinRanges (h : Addressed s) (inode : ℕ) (ids : List ℕ) : Addressed (s.pinRanges inode ids) :=
  h.setLeaf fun _ he => he

lemma unpinRanges (h : Addressed s) (inode : ℕ) (ids : List ℕ) : Addressed (s.unpinRanges inode ids) :=
  h.setLeaf fun _ he => he

lemma withFileCache (h : Addressed s) (c : FileSystem.FileCache) : Addressed { s with fileCache := c } :=
  ⟨h.jobs, h.pendings⟩

lemma pop (h : Addressed s) {xs ys : List CacheTreeJob} {job : CacheTreeJob}
    (hq : s.cacheTreeQueue = xs ++ job :: ys) : Addressed { s with cacheTreeQueue := xs ++ ys } := by
  refine ⟨fun j hm => h.jobs j ?_, h.pendings⟩
  rw [hq]
  exact ((List.sublist_cons_self job ys).append_left xs).subset hm

lemma scheduleDiskJob (h : Addressed s) (job : DiskJob) : Addressed (s.scheduleDiskJob job) := by
  have hpin := h.pinRanges job.inode job.buffer.pin
  exact ⟨hpin.jobs, hpin.pendings⟩

lemma outcome (h : Addressed s) {job : FuseReadFileJob} (hj : job.request.inode = job.inode)
    (ho : job.Outcome s t) : Addressed t := by
  cases ho with
  | error => exact h.of_eq (fun _ hj => hj) fun _ _ he => he
  | unwind pins _ => exact (h.pinRanges job.inode pins).of_eq (fun _ hj => hj) fun _ _ he => he
  | again =>
    refine h.scheduleCacheTreeJob fun j hj' => ?_
    cases hj'
    exact hj
  | park index _ => exact h.addPendingJob hj index
  | fetch index n _ _ => exact ((h.requestBlock job.inode index).addPendingJob hj index).prefetchLoop _ _ _
  | append pinned _ _ _ _ _ => exact h.scheduleDiskJob _
  | disk _ _ _ => exact h.scheduleDiskJob _
  | prefixed buffer _ _ _ _ _ => exact h.scheduleDiskJob _
  | data buffer n _ _ _ => exact (h.prefetchLoop _ _ _).of_eq (fun _ hj => hj) fun _ _ he => he

lemma pendingExecute (h : Addressed s) {job : FuseReadFilePendingJob} (hj : job.request.inode = job.inode) :
    Addressed (Client.left (job.execute s)) := by
  obtain ⟨pins, -, -, he⟩ | ⟨arrived, requested, -, -, he⟩ := job.execute_cases s <;> rw [he]
  · exact h.pinRanges _ _
  · refine (h.pinRanges _ _).scheduleCacheTreeJob fun j hj' => ?_
    cases hj'
    exact hj

lemma wake (h : Addressed s) (inode index : ℕ) : Addressed (Client.left (ApplyBlockCacheJob.wake s inode index)) := by
  have hset : Addressed (s.setLeaf inode ((s.leafs inode).takePendingJobs index).2) :=
    h.setLeaf fun _ he => List.mem_of_mem_filter he
  refine Client.foldlM_induct (fun u job hjob hu => hu.pendingExecute ?_) hset
  obtain ⟨e, he, rfl⟩ := List.mem_map.mp hjob
  obtain ⟨h1, h2⟩ := h.pendings inode e (List.mem_of_mem_filter he)
  exact h2.trans h1.symm

lemma getFreeData (h : Addressed s) {inode : ℕ} {job : WriteFileCacheJob} (ht : s.getFreeData inode = some (job, t)) :
    Addressed t ∧ Addressed (t.scheduleCacheTreeJob (.writeFile job)) := by
  have hfree : Addressed t := by
    obtain ⟨index, -, ht⟩ := Option.map_eq_some_iff.mp ht
    cases ht
    have hset : Addressed (s.setLeaf inode ((s.leafs inode).extractBlock index).2.2) :=
      h.setLeaf (by rw [pendingJobs_extractBlock]; exact fun _ he => he)
    exact ⟨hset.jobs, hset.pendings⟩
  exact ⟨hfree, hfree.scheduleCacheTreeJob fun j hj => CacheTreeJob.noConfusion hj⟩

lemma addBlock (h : Addressed s) (job : ApplyBlockCacheJob) : Addressed (job.addBlock s) := by
  have hset : Addressed (s.setLeaf job.inode
      ((s.leafs job.inode).addData s.nextId (job.offset + job.skipped) job.readed job.data).2) :=
    h.setLeaf (by rw [pendingJobs_addData]; exact fun _ he => he)
  exact ⟨hset.jobs, hset.pendings⟩

end Addressed

/-- Each read is where it belongs, and all reads are accounted for, those in `lost` being nowhere any more. -/
structure Tallied (issued lost : List FuseRequest) (s : Client) : Prop where
  addressed : Addressed s
  account : ∀ q, s.account q + lost.count q = issued.count q

structure Custody (files : ℕ → RemoteFile) (issued lost : List FuseRequest) (s : Client) : Prop
    extends Tallied issued lost s where
  block : BlockInv Set.univ files s

namespace Client

def Wakes (s : Client) : Action → Prop
  | .cacheTree shard _ _ =>
    match s.cacheTreeQueue.find? fun job => shardForInode job.inode = shard with
    | some (.applyBlock job) =>
      ∀ p ∈ ((s.leafs job.inode).takePendingJobs job.blockIndex).1, ¬ p.Throws ((job.addBlock s).leafs p.inode)
    | _ => True
  | _ => True

def Delivers (s : Client) : Event → Prop
  | .act a => s.Wakes a
  | _ => True

/-- What becomes of a read: one holder or one reply, and nothing of a read that was not issued. -/
structure KeepsRead (s : Client) (issued : List FuseRequest) (q : FuseRequest) : Prop where
  once : q ∈ issued → s.holders q = 1 ∧ s.repliedReads.count q = 0 ∨ s.holders q = 0 ∧ s.repliedReads.count q = 1
  other : q ∉ issued → s.holders q = 0 ∧ s.repliedReads.count q = 0
  parked : ∀ i, i ≠ q.inode → q ∉ s.parkedReads i

end Client

def Event.issued : Event → List FuseRequest
  | .act (.read request) => [request]
  | _ => []

def issuedReads : List Event → List FuseRequest
  | [] => []
  | e :: es => issuedReads es ++ e.issued

namespace Tallied

variable {issued lost : List FuseRequest} {s t : Client}

lemma fuseRead (h : Tallied issued lost s) {xs ys : List CacheTreeJob} {job : FuseReadFileJob}
    (hq : s.cacheTreeQueue = xs ++ .fuseRead job :: ys) (stop : Bool) :
    Tallied issued lost
      (job.execute (({ s with cacheTreeQueue := xs ++ ys } : Client).unpinRanges job.inode job.pins) stop) := by
  have hj := h.addressed.jobs job (hq ▸ List.mem_append_right _ List.mem_cons_self)
  set u := ({ s with cacheTreeQueue := xs ++ ys } : Client).unpinRanges job.inode job.pins with hu
  obtain ⟨c, ho⟩ := FuseReadFileJob.execute_outcome u job stop
  have hj' : (job.truncate (u.leafs job.inode).size).request.inode =
      (job.truncate (u.leafs job.inode).size).inode := by
    rw [FuseReadFileJob.truncate_request, FuseReadFileJob.truncate_inode, hj]
  have hunpin := ((h.addressed.pop hq).unpinRanges job.inode job.pins).withFileCache c
  have haccount (q : FuseRequest) : ({ u with fileCache := c } : Client).account q =
      ({ s with cacheTreeQueue := xs ++ ys } : Client).account q :=
    Client.account_unpinRanges ({ s with cacheTreeQueue := xs ++ ys } : Client) job.inode job.pins q
  refine ⟨Addressed.outcome hunpin hj' ho, fun q => ?_⟩
  rw [Client.account_outcome hj' ho, FuseReadFileJob.truncate_request, haccount, ← h.account q,
    ← Client.account_pop hq q]
  rfl

lemma applyBlock (h : Tallied issued lost s) {xs ys : List CacheTreeJob} {job : ApplyBlockCacheJob}
    (hq : s.cacheTreeQueue = xs ++ .applyBlock job :: ys) (hrequest : job.request = none) {picks : List ℕ}
    (ht : job.execute { s with cacheTreeQueue := xs ++ ys } picks = some t) :
    ∃ more : List FuseRequest,
      (more = [] ↔ ∀ p ∈ ((s.leafs job.inode).takePendingJobs job.blockIndex).1,
        ¬ p.Throws ((job.addBlock s).leafs p.inode)) ∧ Tallied issued (more ++ lost) t := by
  have hadd := (h.addressed.pop hq).addBlock job
  have hpending : ((job.addBlock { s with cacheTreeQueue := xs ++ ys }).leafs job.inode).pendingJobs =
      (s.leafs job.inode).pendingJobs := by
    simp only [ApplyBlockCacheJob.addBlock, Client.addData, Client.addCount, Client.leafs_setLeaf, if_pos]
    exact pendingJobs_addData _ _ _ _ _
  obtain ⟨more, hmore, haccount⟩ := Client.account_wake _ (fun e he => (hadd.pendings _ e he).2) job.blockIndex
  have htaken : (((job.addBlock { s with cacheTreeQueue := xs ++ ys }).leafs job.inode).takePendingJobs job.blockIndex).1 =
      ((s.leafs job.inode).takePendingJobs job.blockIndex).1 := by
    rw [Leaf.takePendingJobs, hpending, Leaf.takePendingJobs]
  rw [htaken] at hmore
  refine ⟨more, hmore, ?_⟩
  have hdeliver : Addressed (Client.left (job.deliver { s with cacheTreeQueue := xs ++ ys })) ∧ ∀ q,
      (Client.left (job.deliver { s with cacheTreeQueue := xs ++ ys })).account q + more.count q = s.account q := by
    rw [ApplyBlockCacheJob.deliver_of_none hrequest]
    refine ⟨hadd.wake _ _, fun q => (haccount q).trans ?_⟩
    rw [ApplyBlockCacheJob.addBlock, Client.account_addData, ← Client.account_pop hq q]
    rfl
  obtain ⟨haddressed, hleft⟩ := ApplyBlockCacheJob.execute_induct
    (P := fun u => Addressed u ∧ ∀ q, u.account q + more.count q = s.account q)
    (fun u inode job' v hu _ hg => ⟨⟨(hu.1.getFreeData hg).1, fun q => (Client.account_getFreeData hg q).1 ▸ hu.2 q⟩,
      (hu.1.getFreeData hg).2, fun q => (Client.account_getFreeData hg q).2 ▸ hu.2 q⟩) ht hdeliver
  refine ⟨haddressed, fun q => ?_⟩
  rw [List.count_append, ← add_assoc, hleft, h.account]

lemma of_eq (h : Tallied issued lost s) (hc : t.cacheTreeQueue = s.cacheTreeQueue) (hd : t.diskQueue = s.diskQueue)
    (hp : ∀ i, (t.leafs i).pendingJobs = (s.leafs i).pendingJobs) (hr : t.replies = s.replies) :
    Tallied issued lost t := by
  refine ⟨h.addressed.of_eq (fun j hj => hc ▸ hj) fun i => hp i ▸ fun _ he => he, fun q => ?_⟩
  rw [Client.account_congr hc hd hp hr, h.account]

lemma writeFile (h : Tallied issued lost s) {xs ys : List CacheTreeJob} {job : WriteFileCacheJob}
    (hq : s.cacheTreeQueue = xs ++ .writeFile job :: ys) :
    Tallied issued lost (job.execute { s with cacheTreeQueue := xs ++ ys }) := by
  have hset : Addressed (({ s with cacheTreeQueue := xs ++ ys } : Client).setLeaf job.inode
      ((s.leafs job.inode).setStatus (job.offset / blockSize) .onDisk)) :=
    (h.addressed.pop hq).setLeaf fun _ he => he
  have haccount (q : FuseRequest) := Client.account_setLeaf ({ s with cacheTreeQueue := xs ++ ys } : Client)
    (show ((s.leafs job.inode).setStatus (job.offset / blockSize) .onDisk).pendingJobs =
      (s.leafs job.inode).pendingJobs from rfl) q
  refine ⟨⟨hset.jobs, hset.pendings⟩, fun q => ?_⟩
  rw [← h.account q, ← Client.account_pop hq q]
  exact congrArg (· + _) (haccount q)

lemma disk (h : Tallied issued lost s) {xs ys : List DiskJob} {job : DiskJob}
    (hq : s.diskQueue = xs ++ job :: ys) (result : ReadResult) :
    Tallied issued lost ((({ s with diskQueue := xs ++ ys } : Client).unpinRanges job.inode job.buffer.pin).reply
      job.request result) := by
  have hpop : Addressed { s with diskQueue := xs ++ ys } := ⟨h.addressed.jobs, h.addressed.pendings⟩
  have hunpin := hpop.unpinRanges job.inode job.buffer.pin
  refine ⟨⟨hunpin.jobs, hunpin.pendings⟩, fun q => ?_⟩
  rw [Client.account_reply, Client.account_unpinRanges, ← h.account q, Client.account, Client.account, hq]
  simp only [List.map_append, List.map_cons, List.count_append, List.count_cons, List.count_nil]
  simp only [Client.queuedReads, Client.parkedReads, Client.repliedReads]
  omega

lemma cacheTree (h : Tallied issued lost s) (hsilent : ∀ r ∈ s.outstanding, r.request = none) {shard : ℕ} {stop : Bool}
    {picks : List ℕ} (ht : s.step (.cacheTree shard stop picks) = some t) :
    ∃ more : List FuseRequest, (more = [] ↔ s.Wakes (.cacheTree shard stop picks)) ∧ Tallied issued (more ++ lost) t := by
  obtain ⟨job, hj, ht⟩ := Option.bind_eq_some_iff.mp ht
  obtain ⟨xs, ys, hq, he⟩ := find?_eraseP hj
  rw [he] at ht
  rw [Client.Wakes, hj]
  cases job with
  | fuseRead job =>
    cases ht
    exact ⟨[], iff_of_true rfl trivial, h.fuseRead hq stop⟩
  | applyBlock job =>
    have hnone : job.request = none := by
      apply hsilent job.toReadRequest
      apply List.mem_append_right
      exact List.mem_filterMap.mpr ⟨_, List.mem_of_find?_eq_some hj, rfl⟩
    exact h.applyBlock hq hnone ht
  | writeFile job =>
    cases ht
    exact ⟨[], iff_of_true rfl trivial, h.writeFile hq⟩

lemma step (h : Tallied issued lost s) (hsilent : ∀ r ∈ s.outstanding, r.request = none) {a : Action}
    (ht : s.step a = some t) :
    ∃ more : List FuseRequest, (more = [] ↔ s.Wakes a) ∧ Tallied ((Event.act a).issued ++ issued) (more ++ lost) t := by
  cases a with
  | cacheTree shard stop picks => exact h.cacheTree hsilent ht
  | read request =>
    cases ht
    refine ⟨[], iff_of_true rfl trivial, h.addressed.scheduleCacheTreeJob fun j hj => ?_, fun q => ?_⟩
    · cases hj
      rfl
    · have hcount := h.account q
      rw [Client.account_scheduleCacheTreeJob, List.count_append, List.count_append]
      simp only [CacheTreeJob.read?, Option.toList_some, Event.issued, List.count_nil]
      omega
  | disk i =>
    obtain ⟨job, hj, rfl⟩ := Option.map_eq_some_iff.mp ht
    obtain ⟨xs, ys, hq, he⟩ := getElem?_eraseIdx hj
    rw [he]
    exact ⟨[], iff_of_true rfl trivial, h.disk hq _⟩
  | sendRequest =>
    simp only [Client.step] at ht
    split at ht
    · cases ht
    · cases ht
      exact ⟨[], iff_of_true rfl trivial, h.of_eq rfl rfl (fun _ => rfl) rfl⟩
  | answer i error data =>
    obtain ⟨r, hr, rfl⟩ := Option.map_eq_some_iff.mp ht
    exact ⟨[], iff_of_true rfl trivial, h.of_eq rfl rfl (fun _ => rfl) rfl⟩
  | receive i =>
    obtain ⟨r, hr, rfl⟩ := Option.map_eq_some_iff.mp ht
    have hnone : r.request = none := hsilent r.toReadRequest (List.mem_append_left _
      (List.mem_append_right _ (List.mem_map_of_mem (List.mem_of_getElem? hr))))
    refine ⟨[], iff_of_true rfl trivial, ?_⟩
    rw [Client.executeResponse]
    split_ifs with he
    · rw [hnone]
      exact h.of_eq rfl rfl (fun _ => rfl) rfl
    · have hl : Addressed { s with responses := s.responses.eraseIdx i } :=
        ⟨h.addressed.jobs, h.addressed.pendings⟩
      refine ⟨hl.scheduleCacheTreeJob fun j hj => ?_, fun q => ?_⟩
      · cases hj
      · exact (congrArg (· + _) (Client.account_scheduleCacheTreeJob _ _ q)).trans (h.account q)

end Tallied

namespace Custody

variable {files : ℕ → RemoteFile} {issued lost : List FuseRequest} {s t : Client}

lemma step (h : Custody files issued lost s) {a : Action} (ht : s.step a = some t) :
    ∃ more : List FuseRequest,
      (more = [] ↔ s.Wakes a) ∧ Custody files ((Event.act a).issued ++ issued) (more ++ lost) t := by
  have hb : BlockInv Set.univ files t := h.block.step (by cases a <;> trivial) ht
  obtain ⟨more, hmore, htallied⟩ := h.toTallied.step (fun r hr => (h.block.requests r hr).2.1.request) ht
  exact ⟨more, hmore, htallied, hb⟩

lemma cancelPendingJobs (h : Custody files issued lost s) (inode : ℕ) :
    Custody files issued lost (s.cancelPendingJobs inode) := by
  have hset : Addressed (s.setLeaf inode { s.leafs inode with pendingJobs := [] }) :=
    h.addressed.setLeaf fun _ he => absurd he List.not_mem_nil
  have hl := h.block.leafs inode
  have hb : BlockInv Set.univ files (s.setLeaf inode { s.leafs inode with pendingJobs := [] }) := by
    refine h.block.setLeaf ⟨hl.name, hl.size, hl.pieces, hl.keys, fun _ he => absurd he List.not_mem_nil, hl.cached⟩
      fun r hr hi => ?_
    obtain ⟨-, -, -, hf, hs⟩ := h.block.requests r hr
    subst hi
    exact ⟨hf, hs⟩
  refine ⟨⟨⟨hset.jobs, hset.pendings⟩, fun q => ?_⟩, hb.leafs, hb.jobs, hb.table, hb.requests, hb.nodup⟩
  have hmoved : ((s.cancelPendingJobs inode).parkedReads q.inode).count q + (s.parkedReads inode).count q =
      (s.parkedReads q.inode).count q := by
    rw [Client.parkedReads_cancelPendingJobs]
    split_ifs with hi
    · rw [hi, List.count_nil, Nat.zero_add]
    · rw [h.addressed.count_parkedReads hi, Nat.add_zero]
  rw [← h.account q, Client.account, Client.account, ← hmoved, Client.repliedReads_cancelPendingJobs, List.count_append]
  simp only [Client.cancelPendingJobs, Client.queuedReads, Client.setLeaf]
  omega

lemma destroy (h : Custody files issued lost s) {i : ℕ} (ht : s.destroy i = some t) : Custody files issued lost t := by
  rw [Client.destroy] at ht
  cases hj : s.cacheTreeQueue[i]? with
  | none =>
    rw [hj] at ht
    cases ht
  | some job =>
    obtain ⟨xs, ys, hq, he⟩ := getElem?_eraseIdx hj
    rw [hj, he] at ht
    cases job with
    | applyBlock job => cases ht
    | writeFile job => cases ht
    | fuseRead job =>
      cases ht
      have hb := ((h.block.pop hq).mapRanges job.inode fun r => r.unpin job.pins).reply job.request (.error eio)
      have hunpin := (h.addressed.pop hq).unpinRanges job.inode job.pins
      refine ⟨⟨⟨hunpin.jobs, hunpin.pendings⟩, fun q => ?_⟩, hb⟩
      rw [Client.account_reply, Client.account_unpinRanges, ← h.account q, ← Client.account_pop hq q]
      rfl

lemma handle (h : Custody files issued lost s) {e : Event} (ht : s.handle e = some t) :
    ∃ more : List FuseRequest, (more = [] ↔ s.Delivers e) ∧ Custody files (e.issued ++ issued) (more ++ lost) t := by
  cases e with
  | act a => exact h.step ht
  | cancelAllPendingJobs inodes =>
    cases ht
    refine ⟨[], iff_of_true rfl trivial, ?_⟩
    change Custody files issued lost _
    induction inodes generalizing s with
    | nil => exact h
    | cons inode inodes ih => exact ih (h.cancelPendingJobs inode)
  | destroy i => exact ⟨[], iff_of_true rfl trivial, h.destroy ht⟩

lemma create (files : ℕ → RemoteFile) : Custody files [] [] (Client.create files) :=
  ⟨⟨⟨fun _ h => absurd h List.not_mem_nil, fun _ _ h => absurd h List.not_mem_nil⟩, fun _ => rfl⟩,
    BlockInv.create _ files⟩

lemma events (h : Custody files issued lost s) {es : List Event} (ht : run Client.handle s es = some t) :
    ∃ more : List FuseRequest, (more = [] ↔ Path Client.handle Client.Delivers s es t) ∧
      Custody files (issuedReads es ++ issued) (more ++ lost) t := by
  induction es generalizing s issued lost with
  | nil =>
    cases Option.some.inj ht
    exact ⟨[], iff_of_true rfl (.nil _), h⟩
  | cons e es ih =>
    obtain ⟨u, hu, ht⟩ := run_cons_eq_some.mp ht
    obtain ⟨more, hmore, hcustody⟩ := h.handle hu
    obtain ⟨rest, hrest, hcustody⟩ := ih hcustody ht
    refine ⟨rest ++ more, ?_, by rwa [List.append_assoc, issuedReads, List.append_assoc]⟩
    rw [List.append_eq_nil_iff, hrest, hmore]
    constructor
    · rintro ⟨hpath, hok⟩
      exact .cons hok hu hpath
    · intro hpath
      cases hpath with
      | cons hok hu' hpath =>
        cases hu.symm.trans hu'
        exact ⟨hpath, hok⟩

lemma holders_add_repliedReads (h : Custody files issued lost s) (q : FuseRequest) :
    s.holders q + s.repliedReads.count q + lost.count q = issued.count q := by
  have hcarried : s.carriedReads.count q = 0 := by
    refine List.count_eq_zero.mpr fun hm => ?_
    obtain ⟨r, hr, hq⟩ := List.mem_filterMap.mp hm
    rw [(h.block.requests r hr).2.1.request] at hq
    cases hq
  have hsum := h.account q
  rw [Client.account] at hsum
  rw [Client.holders, hcarried]
  omega

lemma keepsRead_iff (h : Custody files issued lost s) (hnodup : issued.Nodup) (q : FuseRequest) :
    s.KeepsRead issued q ↔ q ∉ lost := by
  have hsum := h.holders_add_repliedReads q
  have hparked (i : ℕ) (hi : i ≠ q.inode) : q ∉ s.parkedReads i := fun hm => by
    obtain ⟨e, he, rfl⟩ := List.mem_map.mp hm
    exact hi (h.addressed.pendings i e he).2.symm
  rw [← List.count_eq_zero]
  by_cases hq : q ∈ issued
  · rw [List.count_eq_one_of_mem hnodup hq] at hsum
    refine ⟨fun hkeeps => ?_, fun hzero => ⟨fun _ => by omega, fun hn => absurd hq hn, hparked⟩⟩
    have := hkeeps.once hq
    omega
  · rw [List.count_eq_zero_of_not_mem hq] at hsum
    exact iff_of_true ⟨fun hm => absurd hm hq, fun _ => by omega, hparked⟩ (by omega)

end Custody

/-- No read is ever held twice or answered twice, and none is dropped as long as no woken read comes to a block without
packets. -/
theorem reads_kept_iff {files : ℕ → RemoteFile} {es : List Event} {s : Client}
    (h : run Client.handle (Client.create files) es = some s) (hnodup : (issuedReads es).Nodup) :
    (∀ q, s.holders q + s.repliedReads.count q ≤ 1) ∧
      ((∀ q, s.KeepsRead (issuedReads es) q) ↔ Path Client.handle Client.Delivers (Client.create files) es s) := by
  obtain ⟨lost, hlost, hcustody⟩ := (Custody.create files).events h
  rw [List.append_nil, List.append_nil] at hcustody
  constructor
  · intro q
    have hsum := hcustody.holders_add_repliedReads q
    have hle := List.nodup_iff_count_le_one.mp hnodup q
    omega
  · simp only [hcustody.keepsRead_iff hnodup, ← List.eq_nil_iff_forall_not_mem, hlost]

def keptReads : List Event :=
  [.act (.read ⟨1, 4, 0, 1⟩), .act (.cacheTree 0 false []), .act .sendRequest, .act (.answer 0 0 [([7], [])]),
    .act (.receive 0), .act (.cacheTree 0 false []), .act (.read ⟨2, 4, 0, 1⟩), .destroy 1,
    .act (.cacheTree 0 false []), .act (.read ⟨3, 5, 0, 1⟩), .act (.cacheTree 1 false []), .cancelAllPendingJobs [5]]

theorem reads_kept_iff_answered : ∃ s,
    run Client.handle (Client.create fun _ => ⟨"a.txt", 1, [7]⟩) keptReads = some s ∧
    ∀ q, s.KeepsRead [⟨3, 5, 0, 1⟩, ⟨2, 4, 0, 1⟩, ⟨1, 4, 0, 1⟩] q := by
  have hpath : ∃ s, Path Client.handle Client.Delivers (Client.create fun _ => ⟨"a.txt", 1, [7]⟩) keptReads s := by
    refine ⟨_, .cons trivial rfl (.cons trivial rfl (.cons trivial rfl (.cons trivial rfl (.cons trivial rfl
      (.cons ?_ rfl (.cons trivial rfl (.cons trivial rfl (.cons trivial rfl (.cons trivial rfl (.cons trivial rfl
      (.cons trivial rfl (.nil _))))))))))))⟩
    intro p hp
    cases List.mem_singleton.mp hp
    exact not_or.mpr ⟨Leaf.not_throws_of_packets (by decide) _ _, Leaf.not_throws_of_packets (by decide) _ _⟩
  obtain ⟨s, hs⟩ := hpath
  exact ⟨s, hs.run, (reads_kept_iff hs.run (by decide)).2.mpr hs⟩

def droppedRead : List Event :=
  [.act (.read ⟨1, 4, 0, 1⟩), .act (.cacheTree 0 false []), .act .sendRequest, .act (.answer 0 0 []),
    .act (.receive 0), .act (.cacheTree 0 false [])]

theorem empty_arrival_drops_read : ¬ ∀ (files : ℕ → RemoteFile) (es : List Event) (s : Client),
    run Client.handle (Client.create files) es = some s → (issuedReads es).Nodup →
      ∀ q, s.KeepsRead (issuedReads es) q := by
  intro h
  have hkept := (h (fun _ => ⟨"a.txt", 1, [7]⟩) droppedRead _ rfl (by decide) ⟨1, 4, 0, 1⟩).once (by decide)
  revert hkept
  decide

end FastTransport.FileCache
