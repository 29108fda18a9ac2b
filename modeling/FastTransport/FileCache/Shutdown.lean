import FastTransport.FileCache.AnsweredOnce
import FastTransport.FileCache.LeafLifetime
import FastTransport.FileSystem.Ranges
import FastTransport.Lib.ForestWalk

/-! The end of a client: the scheduler's destructor stops the queues one after another and joins their threads, the
tasks that are left are destroyed, and the pending jobs of the tree are cancelled. -/

namespace FastTransport.FileCache

open FileSystem Lib.Runs Lib.Lists Lib.ForestWalk

inductive Worker
  | disk (i : ℕ)
  | cacheTree (shard : ℕ)
  | main
  deriving DecidableEq, Repr

def diskThreadCount : ℕ := 4

/-- In the order in which the destructor stops them; the other queues do not hold reads. -/
def workers : List Worker :=
  (List.range diskThreadCount).map .disk ++ (List.range shardCount).map .cacheTree ++ [.main]

namespace Client

def destroyTask (s : Client) : CacheTreeJob → Client
  | .fuseRead job => (s.unpinRanges job.inode job.pins).reply job.request (.error eio)
  | _ => s

def destroyDiskTask (s : Client) (job : DiskJob) : Client := s.unpinRanges job.inode job.buffer.pin

def destroyQueues (s : Client) : Client :=
  { s.diskQueue.foldl destroyDiskTask (s.cacheTreeQueue.foldl destroyTask s) with
    cacheTreeQueue := [], diskQueue := [], mainQueue := [] }

end Client

/-- `threads` has the queue of each disk job, and `begun` what a worker saw of its stop token when it took the job
that it runs. `running` are the workers that have not been asked to stop. -/
structure ClosingClient where
  client : Client
  children : List ChildEntry
  made : List ℕ
  threads : List ℕ
  begun : ℕ → Option Bool
  running : List Worker
  exited : List Worker

inductive ClosingEvent
  | read (request : FuseRequest)
  | addChild (parent leaf : ℕ)
  | removeChild (parent : ℕ) (name : String)
  | begin (shard : ℕ)
  | cacheTree (shard : ℕ) (picks : List ℕ) (thread : ℕ)
  | disk (thread : ℕ)
  | sendRequest
  | answer (i error : ℕ) (data : List (List UInt8 × List UInt8))
  | receive (i : ℕ)
  | invalidate (inode : ℕ)
  | requestStop
  | exit (worker : Worker)
  deriving DecidableEq, Repr

namespace ClosingClient

def create (files : ℕ → RemoteFile) : ClosingClient where
  client := .create files
  children := []
  made := [1]
  threads := []
  begun _ := none
  running := workers
  exited := []

def findChild (s : ClosingClient) (parent : ℕ) (name : String) : Option ChildEntry :=
  s.children.find? fun e => e.parent = parent ∧ e.name = name

def addChild (s : ClosingClient) (parent leaf : ℕ) : ClosingClient :=
  let entry : ChildEntry := ⟨parent, (s.client.leafs leaf).name, leaf⟩
  if (s.findChild parent entry.name).isSome then s
  else { s with
    children := s.children.orderedInsert (fun e e' => e.name ≤ e'.name) entry
    made := leaf :: s.made }

def removeChild (s : ClosingClient) (parent : ℕ) (name : String) : ClosingClient :=
  { s with children := s.children.eraseP fun e => e.parent = parent ∧ e.name = name }

def act (s : ClosingClient) (a : Action) : Option ClosingClient :=
  (s.client.step a).map fun client => { s with client := client }

def runJob (s : ClosingClient) (shard : ℕ) (stop : Bool) (picks : List ℕ) (thread : ℕ) : Option ClosingClient :=
  (s.client.step (.cacheTree shard stop picks)).map fun client => { s with
    client := client
    threads := s.threads ++ List.replicate (client.diskQueue.length - s.client.diskQueue.length) thread
    begun := Function.update s.begun shard none }

def runDiskJob (s : ClosingClient) (thread : ℕ) : Option ClosingClient :=
  (s.client.step (.disk (s.threads.idxOf thread))).map fun client =>
    { s with client := client, threads := s.threads.erase thread }

def Idle (s : ClosingClient) : Worker → Prop
  | .disk i => i ∉ s.threads
  | .cacheTree shard => s.begun shard = none ∧ ∀ job ∈ s.client.cacheTreeQueue, shardForInode job.inode ≠ shard
  | .main => s.client.mainQueue = []

instance (s : ClosingClient) : (w : Worker) → Decidable (s.Idle w)
  | .disk i => inferInstanceAs (Decidable (i ∉ s.threads))
  | .cacheTree _ => inferInstanceAs (Decidable (_ ∧ _))
  | .main => inferInstanceAs (Decidable (s.client.mainQueue = []))

/-- No reads come once the destructor has begun. A worker that was asked to stop ends when its queue is empty. -/
def step (s : ClosingClient) : ClosingEvent → Option ClosingClient
  | .read request => if s.running = workers ∧ request.inode ∈ s.made then s.act (.read request) else none
  | .addChild parent leaf =>
    if .main ∉ s.exited ∧ parent ∈ s.made ∧ leaf ∉ s.made then some (s.addChild parent leaf) else none
  | .removeChild parent name => if .main ∉ s.exited then some (s.removeChild parent name) else none
  | .begin shard =>
    if .cacheTree shard ∉ s.exited ∧ s.begun shard = none ∧
        ∃ job ∈ s.client.cacheTreeQueue, shardForInode job.inode = shard then
      some { s with begun := Function.update s.begun shard (some (decide (.cacheTree shard ∉ s.running))) }
    else none
  | .cacheTree shard picks thread =>
    if thread < diskThreadCount then (s.begun shard).bind fun stop => s.runJob shard stop picks thread else none
  | .disk thread => if thread ∈ s.threads ∧ .disk thread ∉ s.exited then s.runDiskJob thread else none
  | .sendRequest => if .main ∉ s.exited then s.act .sendRequest else none
  | .answer i error data => s.act (.answer i error data)
  | .receive i => if .main ∉ s.exited then s.act (.receive i) else none
  | .invalidate inode =>
    if .cacheTree (shardForInode inode) ∉ s.exited ∧ s.begun (shardForInode inode) = none then
      some { s with client := s.client.setLeaf inode (s.client.leafs inode).invalidateDataCache }
    else none
  | .requestStop =>
    match s.running with
    | [] => none
    | _ :: rest => some { s with running := rest }
  | .exit worker =>
    if worker ∈ workers ∧ worker ∉ s.running ∧ worker ∉ s.exited ∧ s.Idle worker then
      some { s with exited := worker :: s.exited }
    else none

/-- `CancelAllPendingJobs` takes its leaves from the back of a vector, and there is no leaf that it would meet twice. -/
def treeLeafs (s : ClosingClient) : List ℕ :=
  walk ChildEntry.parent ChildEntry.leaf s.children (s.children.length + 1) [1]

def Joined (s : ClosingClient) : Prop := ∀ w ∈ workers, w ∈ s.exited

instance (s : ClosingClient) : Decidable s.Joined := inferInstanceAs (Decidable (∀ w ∈ workers, w ∈ s.exited))

def shutdown (s : ClosingClient) : Client := s.treeLeafs.foldl Client.cancelPendingJobs s.client.destroyQueues

def InTree (s : ClosingClient) : ℕ → Prop := Reach ChildEntry.parent ChildEntry.leaf s.children 1

end ClosingClient

def ClosingEvent.issued : ClosingEvent → List FuseRequest
  | .read request => [request]
  | _ => []

namespace Client

lemma parkedReads_unpinRanges (s : Client) (inode : ℕ) (ids : List ℕ) (i : ℕ) :
    (s.unpinRanges inode ids).parkedReads i = s.parkedReads i := by
  simp only [parkedReads, unpinRanges, leafs_setLeaf]
  split_ifs with hi
  · rw [hi]
    rfl
  · rfl

lemma repliedReads_destroyTask (s : Client) (job : CacheTreeJob) :
    (s.destroyTask job).repliedReads = s.repliedReads ++ job.read?.toList := by
  cases job with
  | fuseRead job => exact List.map_append
  | applyBlock job => exact (List.append_nil _).symm
  | writeFile job => exact (List.append_nil _).symm

lemma parkedReads_destroyTask (s : Client) (job : CacheTreeJob) (i : ℕ) :
    (s.destroyTask job).parkedReads i = s.parkedReads i := by
  cases job with
  | fuseRead job => exact s.parkedReads_unpinRanges job.inode job.pins i
  | applyBlock job => rfl
  | writeFile job => rfl

lemma foldl_destroyTask (jobs : List CacheTreeJob) (s : Client) :
    (jobs.foldl destroyTask s).repliedReads = s.repliedReads ++ jobs.filterMap CacheTreeJob.read? ∧
      ∀ i, (jobs.foldl destroyTask s).parkedReads i = s.parkedReads i := by
  induction jobs generalizing s with
  | nil => exact ⟨(List.append_nil _).symm, fun _ => rfl⟩
  | cons job jobs ih =>
    obtain ⟨hreplied, hparked⟩ := ih (s.destroyTask job)
    rw [List.foldl_cons]
    constructor
    · rw [hreplied, repliedReads_destroyTask, List.append_assoc, List.filterMap_cons]
      cases job.read? <;> rfl
    · intro i
      rw [hparked, parkedReads_destroyTask]

lemma foldl_destroyDiskTask (jobs : List DiskJob) (s : Client) :
    (jobs.foldl destroyDiskTask s).repliedReads = s.repliedReads ∧
      ∀ i, (jobs.foldl destroyDiskTask s).parkedReads i = s.parkedReads i := by
  induction jobs generalizing s with
  | nil => exact ⟨rfl, fun _ => rfl⟩
  | cons job jobs ih =>
    obtain ⟨hreplied, hparked⟩ := ih (s.destroyDiskTask job)
    rw [List.foldl_cons]
    exact ⟨hreplied, fun i => (hparked i).trans (s.parkedReads_unpinRanges _ _ i)⟩

lemma repliedReads_destroyQueues (s : Client) : s.destroyQueues.repliedReads = s.repliedReads ++ s.queuedReads :=
  (foldl_destroyDiskTask _ _).1.trans (foldl_destroyTask _ _).1

lemma parkedReads_destroyQueues (s : Client) (i : ℕ) : s.destroyQueues.parkedReads i = s.parkedReads i :=
  ((foldl_destroyDiskTask _ _).2 i).trans ((foldl_destroyTask _ _).2 i)

lemma foldl_cancelPendingJobs {inodes : List ℕ} (hn : inodes.Nodup) {s : Client} {q : FuseRequest}
    (h : ∀ i, q.inode ≠ i → (s.parkedReads i).count q = 0) :
    (inodes.foldl cancelPendingJobs s).repliedReads.count q =
      s.repliedReads.count q + if q.inode ∈ inodes then (s.parkedReads q.inode).count q else 0 := by
  induction inodes generalizing s with
  | nil => rfl
  | cons inode inodes ih =>
    obtain ⟨hnot, hn⟩ := List.nodup_cons.mp hn
    rw [List.foldl_cons, ih hn, repliedReads_cancelPendingJobs, List.count_append, parkedReads_cancelPendingJobs,
      add_assoc]
    · congr 1
      by_cases hi : q.inode = inode
      · rw [if_neg (hi ▸ hnot), if_pos (hi ▸ List.mem_cons_self), hi, add_zero]
      · rw [h inode hi, zero_add, if_neg hi]
        simp only [List.mem_cons, hi, false_or]
    · intro i hi
      rw [parkedReads_cancelPendingJobs]
      split_ifs
      · rfl
      · exact h i hi

end Client

lemma Client.diskQueue_step {s t : Client} {a : Action} (ht : s.step a = some t)
    (hc : ∀ shard stop picks, a ≠ .cacheTree shard stop picks) (hd : ∀ i, a ≠ .disk i) : t.diskQueue = s.diskQueue := by
  cases a with
  | read request => exact Option.some.inj ht ▸ rfl
  | cacheTree shard stop picks => exact absurd rfl (hc shard stop picks)
  | disk i => exact absurd rfl (hd i)
  | sendRequest =>
    simp only [Client.step] at ht
    split at ht
    · cases ht
    · exact Option.some.inj ht ▸ rfl
  | answer i error data =>
    obtain ⟨r, -, rfl⟩ := Option.map_eq_some_iff.mp ht
    rfl
  | receive i =>
    obtain ⟨r, -, rfl⟩ := Option.map_eq_some_iff.mp ht
    rw [Client.executeResponse]
    split_ifs
    · cases r.request <;> rfl
    · rfl

structure Adds (s t : Client) : Prop where
  outstanding : ∀ r ∈ t.outstanding, r ∈ s.outstanding ∨ r.request = none
  diskQueue : ∃ jobs, t.diskQueue = s.diskQueue ++ jobs

namespace Adds

variable {s t u : Client}

lemma of_eq (ho : t.outstanding = s.outstanding) (hd : t.diskQueue = s.diskQueue) : Adds s t where
  outstanding _ hr := Or.inl (ho ▸ hr)
  diskQueue := ⟨[], by rw [hd, List.append_nil]⟩

lemma trans (h : Adds s t) (h' : Adds t u) : Adds s u where
  outstanding r hr := (h'.outstanding r hr).elim (h.outstanding r) Or.inr
  diskQueue := by
    obtain ⟨jobs, hj⟩ := h.diskQueue
    obtain ⟨jobs', hj'⟩ := h'.diskQueue
    exact ⟨jobs ++ jobs', by rw [hj', hj, List.append_assoc]⟩

lemma scheduleCacheTreeJob (s : Client) {job : CacheTreeJob} (hj : job.request? = none) :
    Adds s (s.scheduleCacheTreeJob job) := by
  refine of_eq ?_ rfl
  simp only [Client.outstanding, Client.scheduleCacheTreeJob, List.filterMap_append, List.filterMap_cons,
    List.filterMap_nil, hj, List.append_nil]

lemma requestBlock (s : Client) (inode index : ℕ) : Adds s (s.requestBlock inode index) where
  outstanding r hr := by
    rcases List.mem_cons.mp ((BlockInv.outstanding_requestBlock s inode index).subset hr) with rfl | hr
    · exact Or.inr rfl
    · exact Or.inl hr
  diskQueue := ⟨[], (List.append_nil _).symm⟩

lemma prefetchLoop (s : Client) (inode index n : ℕ) : Adds s (s.prefetchLoop inode index n) :=
  Client.prefetchLoop_induct (P := Adds s) (fun u index hu _ _ => hu.trans (requestBlock u inode index)) n index
    (of_eq rfl rfl)

lemma outcome {job : FuseReadFileJob} (h : job.Outcome s t) : Adds s t := by
  cases h with
  | error => exact of_eq rfl rfl
  | unwind pins _ => exact of_eq rfl rfl
  | again => exact scheduleCacheTreeJob s rfl
  | park index _ => exact of_eq rfl rfl
  | fetch index n _ _ =>
    have hpark : Adds (s.requestBlock job.inode index)
        (FuseReadFileJob.addPendingJob (s.requestBlock job.inode index) job index) := of_eq rfl rfl
    exact ((requestBlock s job.inode index).trans hpark).trans (prefetchLoop _ _ _ _)
  | append pinned _ _ _ _ _ => exact ⟨fun _ hr => Or.inl hr, ⟨_, rfl⟩⟩
  | disk _ _ _ => exact ⟨fun _ hr => Or.inl hr, ⟨_, rfl⟩⟩
  | prefixed buffer _ _ _ _ _ => exact ⟨fun _ hr => Or.inl hr, ⟨_, rfl⟩⟩
  | data buffer n _ _ _ => exact (prefetchLoop s _ _ _).trans (of_eq rfl rfl)

lemma pinRanges (s : Client) (inode : ℕ) (ids : List ℕ) : Adds s (s.pinRanges inode ids) := of_eq rfl rfl

lemma pendingExecute (s : Client) (job : FuseReadFilePendingJob) : Adds s (Client.left (job.execute s)) := by
  obtain ⟨pins, -, -, he⟩ | ⟨arrived, requested, -, -, he⟩ := job.execute_cases s <;> rw [he]
  · exact pinRanges s job.inode pins
  · exact (pinRanges s job.inode (arrived ++ requested)).trans (scheduleCacheTreeJob _ rfl)

lemma applyBlock {job : ApplyBlockCacheJob} (hnone : job.request = none) {picks : List ℕ}
    (h : job.execute s picks = some t) : Adds s t := by
  have hdeliver : Adds s (Client.left (job.deliver s)) := by
    rw [ApplyBlockCacheJob.deliver_of_none hnone]
    refine Client.foldlM_induct (P := Adds s) (fun u job _ hu => hu.trans (pendingExecute u job)) ?_
    exact of_eq rfl rfl
  refine ApplyBlockCacheJob.execute_induct (P := Adds s) (fun x inode job y hx _ hy => ?_) h hdeliver
  have hfree : Adds x y := by
    obtain ⟨index, -, heq⟩ := Option.map_eq_some_iff.mp hy
    cases heq
    exact of_eq rfl rfl
  exact ⟨hx.trans hfree, (hx.trans hfree).trans (scheduleCacheTreeJob y rfl)⟩

lemma pop {xs ys : List CacheTreeJob} {job : CacheTreeJob} (hq : s.cacheTreeQueue = xs ++ job :: ys) :
    Adds s { s with cacheTreeQueue := xs ++ ys } where
  outstanding r hr := by
    refine Or.inl (((List.Sublist.filterMap _ ?_).append_left _).subset hr)
    rw [hq]
    exact (List.sublist_cons_self job ys).append_left xs
  diskQueue := ⟨[], (List.append_nil _).symm⟩

lemma step (hsilent : ∀ r ∈ s.outstanding, r.request = none) {a : Action} (ht : s.step a = some t)
    (ha : ∀ i, a ≠ .disk i) : Adds s t := by
  cases a with
  | read request => exact Option.some.inj ht ▸ scheduleCacheTreeJob s rfl
  | cacheTree shard stop picks =>
    obtain ⟨job, hj, ht⟩ := Option.bind_eq_some_iff.mp ht
    obtain ⟨xs, ys, hq, he⟩ := find?_eraseP hj
    rw [he] at ht
    apply (pop hq).trans
    cases job with
    | fuseRead job =>
      cases ht
      obtain ⟨c, ho⟩ := FuseReadFileJob.execute_outcome
        (({ s with cacheTreeQueue := xs ++ ys } : Client).unpinRanges job.inode job.pins) job stop
      refine Adds.trans ?_ (outcome ho)
      exact of_eq rfl rfl
    | applyBlock job =>
      refine applyBlock (hsilent job.toReadRequest (List.mem_append_right _ ?_)) ht
      exact List.mem_filterMap.mpr ⟨_, List.mem_of_find?_eq_some hj, rfl⟩
    | writeFile job =>
      cases ht
      exact of_eq rfl rfl
  | disk i => exact absurd rfl (ha i)
  | sendRequest =>
    simp only [Client.step] at ht
    split at ht
    · cases ht
    · rename_i hq
      cases ht
      exact ⟨fun r hr => Or.inl ((Client.outstanding_sendRequest hq).subset hr), [], (List.append_nil _).symm⟩
  | answer i error data =>
    obtain ⟨r, hr, rfl⟩ := Option.map_eq_some_iff.mp ht
    obtain ⟨xs, ys, hq, he⟩ := getElem?_eraseIdx hr
    rw [he]
    exact ⟨fun r hr => Or.inl ((Client.outstanding_answer hq _ _ _).subset hr), [], (List.append_nil _).symm⟩
  | receive i =>
    obtain ⟨r, hr, rfl⟩ := Option.map_eq_some_iff.mp ht
    obtain ⟨xs, ys, hq, he⟩ := getElem?_eraseIdx hr
    rw [he, Client.executeResponse]
    split_ifs
    · have hpop : Adds s { s with responses := xs ++ ys } := by
        refine ⟨fun r hr => Or.inl (List.Sublist.subset ?_ hr), [], (List.append_nil _).symm⟩
        have hsub : (xs ++ ys).Sublist s.responses := hq ▸ (List.sublist_cons_self _ ys).append_left xs
        exact ((hsub.map _).append_left _).append_right _
      cases r.request with
      | none => exact hpop
      | some request => exact hpop.trans (of_eq rfl rfl)
    · exact ⟨fun r hr => Or.inl ((Client.outstanding_receive hq).subset hr), [], (List.append_nil _).symm⟩

end Adds

namespace ClosingClient

variable {issued lost : List FuseRequest} {s t : ClosingClient}

def Wakes (s : ClosingClient) : ClosingEvent → Prop
  | .cacheTree shard picks _ => s.client.Wakes (.cacheTree shard false picks)
  | _ => True

/-- Before the queues are destroyed the reads are where they belong or in `lost`, and a leaf stands in one place of the
tree. -/
structure Closing (issued lost : List FuseRequest) (s : ClosingClient) : Prop where
  tallied : Tallied issued lost s.client
  silent : ∀ r ∈ s.client.outstanding, r.request = none
  single : (1 :: s.children.map ChildEntry.leaf).Nodup
  made : ∀ i ∈ 1 :: s.children.map ChildEntry.leaf, i ∈ s.made
  queued : s.threads.length = s.client.diskQueue.length
  threads : ∀ i ∈ s.threads, i < diskThreadCount

namespace Closing

lemma create (files : ℕ → RemoteFile) : Closing [] [] (create files) where
  tallied := ⟨(Custody.create files).addressed, (Custody.create files).account⟩
  silent _ hr := absurd hr List.not_mem_nil
  single := List.nodup_singleton 1
  made _ hi := hi
  queued := rfl
  threads _ hi := absurd hi List.not_mem_nil

lemma addChild (h : Closing issued lost s) {parent leaf : ℕ} (hleaf : leaf ∉ s.made) :
    Closing issued lost (s.addChild parent leaf) := by
  rw [ClosingClient.addChild]
  dsimp only
  split_ifs
  · exact h
  · have hperm := ((List.perm_orderedInsert (fun e e' : ChildEntry => e.name ≤ e'.name)
      ⟨parent, (s.client.leafs leaf).name, leaf⟩ s.children).map ChildEntry.leaf).cons 1
    have hswap := hperm.trans (List.Perm.swap _ _ _)
    constructor
    case tallied => exact h.tallied
    case silent => exact h.silent
    case single =>
      rw [hswap.nodup_iff]
      exact List.nodup_cons.mpr ⟨fun hm => hleaf (h.made leaf hm), h.single⟩
    case made =>
      intro i hi
      rcases List.mem_cons.mp (hswap.mem_iff.mp hi) with rfl | hi
      · exact List.mem_cons_self
      · exact List.mem_cons_of_mem _ (h.made i hi)
    case queued => exact h.queued
    case threads => exact h.threads

lemma removeChild (h : Closing issued lost s) (parent : ℕ) (name : String) :
    Closing issued lost (s.removeChild parent name) := by
  have hsub := ((List.eraseP_sublist (p := fun e => decide (e.parent = parent ∧ e.name = name))
    (l := s.children)).map ChildEntry.leaf).cons_cons 1
  exact ⟨h.tallied, h.silent, h.single.sublist hsub, fun i hi => h.made i (hsub.subset hi), h.queued, h.threads⟩

lemma act (h : Closing issued lost s) {a : Action} (ht : s.act a = some t)
    (hc : ∀ shard stop picks, a ≠ .cacheTree shard stop picks) (hd : ∀ i, a ≠ .disk i) :
    Closing ((Event.act a).issued ++ issued) lost t := by
  obtain ⟨client, hs, rfl⟩ := Option.map_eq_some_iff.mp ht
  obtain ⟨more, hmore, htallied⟩ := h.tallied.step h.silent hs
  have hwakes : s.client.Wakes a := by
    cases a with
    | cacheTree shard stop picks => exact absurd rfl (hc shard stop picks)
    | _ => trivial
  cases hmore.mpr hwakes
  constructor
  case tallied => exact htallied
  case silent => exact fun r hr => ((Adds.step h.silent hs hd).outstanding r hr).elim (h.silent r) id
  case single => exact h.single
  case made => exact h.made
  case queued => exact h.queued.trans (congrArg List.length (Client.diskQueue_step hs hc hd).symm)
  case threads => exact h.threads

lemma runJob (h : Closing issued lost s) {shard thread : ℕ} {stop : Bool} {picks : List ℕ}
    (hthread : thread < diskThreadCount) (ht : s.runJob shard stop picks thread = some t) :
    ∃ more : List FuseRequest,
      (more = [] ↔ s.Wakes (.cacheTree shard picks thread)) ∧ Closing issued (more ++ lost) t := by
  obtain ⟨client, hs, rfl⟩ := Option.map_eq_some_iff.mp ht
  have hadds : Adds s.client client := Adds.step h.silent hs fun i => Action.noConfusion
  obtain ⟨jobs, hjobs⟩ := hadds.diskQueue
  obtain ⟨more, hmore, htallied⟩ := h.tallied.step h.silent hs
  refine ⟨more, hmore, ?_⟩
  constructor
  case tallied => exact htallied
  case silent => exact fun r hr => (hadds.outstanding r hr).elim (h.silent r) id
  case single => exact h.single
  case made => exact h.made
  case queued =>
    dsimp only
    rw [hjobs, List.length_append, List.length_append, List.length_replicate, h.queued, Nat.add_sub_cancel_left]
  case threads =>
    intro i hi
    rcases List.mem_append.mp hi with hi | hi
    · exact h.threads i hi
    · exact (List.mem_replicate.mp hi).2 ▸ hthread

lemma runDiskJob (h : Closing issued lost s) {thread : ℕ} (hthread : thread ∈ s.threads)
    (ht : s.runDiskJob thread = some t) : Closing issued lost t := by
  obtain ⟨client, hs, rfl⟩ := Option.map_eq_some_iff.mp ht
  have hclient := hs
  obtain ⟨job, hj, rfl⟩ := Option.map_eq_some_iff.mp hs
  obtain ⟨more, hmore, htallied⟩ := h.tallied.step h.silent hclient
  cases hmore.mpr trivial
  constructor
  case tallied => exact htallied
  case silent => exact h.silent
  case single => exact h.single
  case made => exact h.made
  case queued =>
    have hlt : s.threads.idxOf thread < s.client.diskQueue.length := h.queued ▸ List.idxOf_lt_length_of_mem hthread
    change (s.threads.erase thread).length = (s.client.diskQueue.eraseIdx (s.threads.idxOf thread)).length
    rw [List.length_erase_of_mem hthread, List.length_eraseIdx_of_lt hlt, h.queued]
  case threads => exact fun i hi => h.threads i (List.mem_of_mem_erase hi)

lemma invalidate (h : Closing issued lost s) (inode : ℕ) :
    Closing issued lost { s with client := s.client.setLeaf inode (s.client.leafs inode).invalidateDataCache } := by
  have hp (i : ℕ) : ((s.client.setLeaf inode (s.client.leafs inode).invalidateDataCache).leafs i).pendingJobs =
      (s.client.leafs i).pendingJobs := by
    rw [Client.leafs_setLeaf]
    split_ifs with hi
    · rw [hi]
      rfl
    · rfl
  exact ⟨h.tallied.of_eq rfl rfl hp rfl, h.silent, h.single, h.made, h.queued, h.threads⟩

lemma step (h : Closing issued lost s) {e : ClosingEvent} (ht : s.step e = some t) :
    ∃ more : List FuseRequest, (more = [] ↔ s.Wakes e) ∧ Closing (e.issued ++ issued) (more ++ lost) t := by
  have hkept (hclosing : Closing (e.issued ++ issued) lost t) (hwakes : s.Wakes e) : ∃ more : List FuseRequest,
      (more = [] ↔ s.Wakes e) ∧ Closing (e.issued ++ issued) (more ++ lost) t :=
    ⟨[], iff_of_true rfl hwakes, hclosing⟩
  cases e with
  | read request =>
    obtain ⟨-, ht⟩ := Option.ite_none_right_eq_some.mp ht
    exact hkept (h.act ht (fun _ _ _ => Action.noConfusion) fun _ => Action.noConfusion) trivial
  | addChild parent leaf =>
    obtain ⟨⟨-, -, hleaf⟩, ht⟩ := Option.ite_none_right_eq_some.mp ht
    exact hkept (Option.some.inj ht ▸ h.addChild hleaf) trivial
  | removeChild parent name =>
    obtain ⟨-, ht⟩ := Option.ite_none_right_eq_some.mp ht
    exact hkept (Option.some.inj ht ▸ h.removeChild parent name) trivial
  | begin shard =>
    obtain ⟨-, ht⟩ := Option.ite_none_right_eq_some.mp ht
    exact hkept (Option.some.inj ht ▸ ⟨h.tallied, h.silent, h.single, h.made, h.queued, h.threads⟩) trivial
  | cacheTree shard picks thread =>
    obtain ⟨hthread, ht⟩ := Option.ite_none_right_eq_some.mp ht
    obtain ⟨stop, -, ht⟩ := Option.bind_eq_some_iff.mp ht
    exact h.runJob hthread ht
  | disk thread =>
    obtain ⟨⟨hthread, -⟩, ht⟩ := Option.ite_none_right_eq_some.mp ht
    exact hkept (h.runDiskJob hthread ht) trivial
  | sendRequest =>
    obtain ⟨-, ht⟩ := Option.ite_none_right_eq_some.mp ht
    exact hkept (h.act ht (fun _ _ _ => Action.noConfusion) fun _ => Action.noConfusion) trivial
  | answer i error data => exact hkept (h.act ht (fun _ _ _ => Action.noConfusion) fun _ => Action.noConfusion) trivial
  | receive i =>
    obtain ⟨-, ht⟩ := Option.ite_none_right_eq_some.mp ht
    exact hkept (h.act ht (fun _ _ _ => Action.noConfusion) fun _ => Action.noConfusion) trivial
  | invalidate inode =>
    obtain ⟨-, ht⟩ := Option.ite_none_right_eq_some.mp ht
    exact hkept (Option.some.inj ht ▸ h.invalidate inode) trivial
  | requestStop =>
    rw [ClosingClient.step] at ht
    cases hrunning : s.running with
    | nil =>
      rw [hrunning] at ht
      cases ht
    | cons _ rest =>
      rw [hrunning] at ht
      exact hkept (Option.some.inj ht ▸ ⟨h.tallied, h.silent, h.single, h.made, h.queued, h.threads⟩) trivial
  | exit worker =>
    obtain ⟨-, ht⟩ := Option.ite_none_right_eq_some.mp ht
    exact hkept (Option.some.inj ht ▸ ⟨h.tallied, h.silent, h.single, h.made, h.queued, h.threads⟩) trivial

lemma of_perm {issued' : List FuseRequest} (h : Closing issued lost s) (hp : issued.Perm issued') :
    Closing issued' lost s :=
  ⟨⟨h.tallied.addressed, fun q => (h.tallied.account q).trans (hp.count_eq q)⟩, h.silent, h.single, h.made, h.queued,
    h.threads⟩

lemma run {events : List ClosingEvent} (h : Closing issued lost s) (ht : run ClosingClient.step s events = some t) :
    ∃ more : List FuseRequest, (more = [] ↔ Path ClosingClient.step Wakes s events t) ∧
      Closing (events.flatMap ClosingEvent.issued ++ issued) (more ++ lost) t := by
  induction events generalizing s issued lost with
  | nil =>
    obtain rfl := Option.some.inj ht
    exact ⟨[], iff_of_true rfl (.nil _), h⟩
  | cons e events ih =>
    obtain ⟨u, hu, ht⟩ := run_cons_eq_some.mp ht
    obtain ⟨more, hmore, hclosing⟩ := h.step hu
    obtain ⟨rest, hrest, hclosing⟩ := ih hclosing ht
    refine ⟨rest ++ more, ?_, ?_⟩
    · rw [List.append_eq_nil_iff, hrest, hmore]
      constructor
      · rintro ⟨hpath, hok⟩
        exact .cons hok hu hpath
      · intro hpath
        cases hpath with
        | cons hok hu' hpath =>
          obtain rfl := Option.some.inj (hu.symm.trans hu')
          exact ⟨hpath, hok⟩
    · rw [List.append_assoc]
      apply hclosing.of_perm
      rw [List.flatMap_cons, ← List.append_assoc]
      exact List.perm_append_comm.append_right _

lemma mem_treeLeafs (h : Closing issued lost s) (i : ℕ) : i ∈ s.treeLeafs ↔ s.InTree i := (walk_root h.single).2 i

lemma nodup_treeLeafs (h : Closing issued lost s) : s.treeLeafs.Nodup := (walk_root h.single).1

lemma count_shutdown (h : Closing issued lost s) (q : FuseRequest) :
    s.shutdown.repliedReads.count q + ((s.client.diskQueue.map DiskJob.request).count q +
      if q.inode ∈ s.treeLeafs then 0 else (s.client.parkedReads q.inode).count q) + lost.count q = issued.count q := by
  have hparked (i : ℕ) (hi : q.inode ≠ i) : (s.client.destroyQueues.parkedReads i).count q = 0 := by
    rw [Client.parkedReads_destroyQueues]
    exact h.tallied.addressed.count_parkedReads hi
  have haccount := h.tallied.account q
  rw [Client.account] at haccount
  rw [shutdown, Client.foldl_cancelPendingJobs h.nodup_treeLeafs hparked, Client.repliedReads_destroyQueues,
    Client.parkedReads_destroyQueues, List.count_append]
  split_ifs <;> omega

end Closing

def Stuck (s : ClosingClient) : Prop := ∃ i ∈ s.threads, .disk i ∈ s.exited

/-- No disk job is handed to a queue whose thread has ended. -/
def Spares (s : ClosingClient) : ClosingEvent → Prop
  | .cacheTree shard picks thread =>
    .disk thread ∈ s.exited → ∀ t, s.step (.cacheTree shard picks thread) = some t → t.threads = s.threads
  | _ => True

lemma stuck_of_same {e : ClosingEvent} (hthreads : t.threads = s.threads) (hexited : t.exited = s.exited)
    (hok : s.Spares e) : t.Stuck ↔ s.Stuck ∨ ¬ s.Spares e := by
  rw [Stuck, Stuck, hthreads, hexited]
  exact (or_iff_left (not_not.mpr hok)).symm

lemma stuck_runJob {shard thread : ℕ} {picks : List ℕ} (ht : s.step (.cacheTree shard picks thread) = some t) :
    t.Stuck ↔ s.Stuck ∨ ¬ s.Spares (.cacheTree shard picks thread) := by
  have hstep := ht
  obtain ⟨-, ht⟩ := Option.ite_none_right_eq_some.mp ht
  obtain ⟨stop, -, ht⟩ := Option.bind_eq_some_iff.mp ht
  obtain ⟨client, -, rfl⟩ := Option.map_eq_some_iff.mp ht
  generalize client.diskQueue.length - s.client.diskQueue.length = n at *
  constructor
  · rintro ⟨i, hi, hexited⟩
    rcases List.mem_append.mp hi with hi | hi
    · exact Or.inl ⟨i, hi, hexited⟩
    · obtain ⟨hn, rfl⟩ := List.mem_replicate.mp hi
      refine Or.inr fun hok => hn ?_
      have hsame := hok hexited _ hstep
      exact (List.replicate_eq_nil_iff i).mp (List.append_right_eq_self.mp hsame)
  · rintro (⟨i, hi, hexited⟩ | hn)
    · exact ⟨i, List.mem_append_left _ hi, hexited⟩
    · rw [Spares] at hn
      push Not at hn
      obtain ⟨hexited, u, hu, hne⟩ := hn
      obtain rfl := Option.some.inj (hstep.symm.trans hu)
      refine ⟨thread, List.mem_append_right _ (List.mem_replicate.mpr ⟨?_, rfl⟩), hexited⟩
      rintro rfl
      exact hne (List.append_nil _)

lemma stuck_step {e : ClosingEvent} (ht : s.step e = some t) : t.Stuck ↔ s.Stuck ∨ ¬ s.Spares e := by
  cases e with
  | cacheTree shard picks thread => exact stuck_runJob ht
  | disk thread =>
    obtain ⟨⟨-, hthread⟩, ht⟩ := Option.ite_none_right_eq_some.mp ht
    obtain ⟨client, -, rfl⟩ := Option.map_eq_some_iff.mp ht
    have hok : s.Spares (.disk thread) := trivial
    rw [or_iff_left (not_not.mpr hok)]
    constructor
    · rintro ⟨i, hi, hexited⟩
      exact ⟨i, List.mem_of_mem_erase hi, hexited⟩
    · rintro ⟨i, hi, hexited⟩
      have hne : i ≠ thread := fun heq => hthread (heq ▸ hexited)
      exact ⟨i, (List.mem_erase_of_ne hne).mpr hi, hexited⟩
  | exit worker =>
    obtain ⟨⟨-, -, -, hidle⟩, ht⟩ := Option.ite_none_right_eq_some.mp ht
    obtain rfl := Option.some.inj ht
    have hok : s.Spares (.exit worker) := trivial
    rw [or_iff_left (not_not.mpr hok)]
    constructor
    · rintro ⟨i, hi, hexited⟩
      rcases List.mem_cons.mp hexited with heq | hexited
      · rw [← heq] at hidle
        exact absurd hi hidle
      · exact ⟨i, hi, hexited⟩
    · rintro ⟨i, hi, hexited⟩
      exact ⟨i, hi, List.mem_cons_of_mem _ hexited⟩
  | addChild parent leaf =>
    obtain ⟨-, ht⟩ := Option.ite_none_right_eq_some.mp ht
    obtain rfl := Option.some.inj ht
    have hsame : (s.addChild parent leaf).threads = s.threads ∧ (s.addChild parent leaf).exited = s.exited := by
      rw [addChild]
      dsimp only
      split_ifs <;> exact ⟨rfl, rfl⟩
    exact stuck_of_same hsame.1 hsame.2 trivial
  | requestStop =>
    rw [step] at ht
    cases hrunning : s.running with
    | nil =>
      rw [hrunning] at ht
      cases ht
    | cons _ rest =>
      rw [hrunning] at ht
      exact Option.some.inj ht ▸ stuck_of_same rfl rfl trivial
  | answer i error data =>
    obtain ⟨client, -, rfl⟩ := Option.map_eq_some_iff.mp ht
    exact stuck_of_same rfl rfl trivial
  | read _ | sendRequest | receive _ =>
    obtain ⟨-, ht⟩ := Option.ite_none_right_eq_some.mp ht
    obtain ⟨client, -, rfl⟩ := Option.map_eq_some_iff.mp ht
    exact stuck_of_same rfl rfl trivial
  | removeChild _ _ | begin _ | invalidate _ =>
    obtain ⟨-, ht⟩ := Option.ite_none_right_eq_some.mp ht
    exact Option.some.inj ht ▸ stuck_of_same rfl rfl trivial

lemma stuck_run {events : List ClosingEvent} (ht : run step s events = some t) :
    ¬ t.Stuck ↔ ¬ s.Stuck ∧ Path step Spares s events t := by
  induction events generalizing s with
  | nil =>
    obtain rfl := Option.some.inj ht
    exact ⟨fun hn => ⟨hn, .nil s⟩, And.left⟩
  | cons e events ih =>
    obtain ⟨u, hu, ht⟩ := run_cons_eq_some.mp ht
    rw [ih ht, stuck_step hu, not_or, not_not]
    constructor
    · rintro ⟨⟨hn, hok⟩, hpath⟩
      exact ⟨hn, .cons hok hu hpath⟩
    · rintro ⟨hn, hpath⟩
      cases hpath with
      | cons hok hu' hpath =>
        obtain rfl := Option.some.inj (hu.symm.trans hu')
        exact ⟨⟨hn, hok⟩, hpath⟩

lemma Closing.stuck_iff (h : Closing issued lost s) (hj : s.Joined) : ¬ s.Stuck ↔ s.client.diskQueue = [] := by
  rw [← List.length_eq_zero_iff, ← h.queued, List.length_eq_zero_iff]
  constructor
  · intro hn
    apply List.eq_nil_iff_forall_not_mem.mpr
    intro i hi
    refine hn ⟨i, hi, hj _ ?_⟩
    apply List.mem_append_left
    apply List.mem_append_left
    exact List.mem_map_of_mem (List.mem_range.mpr (h.threads i hi))
  · rintro hnil ⟨i, hi, -⟩
    rw [hnil] at hi
    exact absurd hi List.not_mem_nil

theorem shutdown_answers_every_read {files : ℕ → RemoteFile} {events : List ClosingEvent}
    (h : run step (create files) events = some s) (hj : s.Joined) :
    s.shutdown.repliedReads.Subperm (events.flatMap ClosingEvent.issued) ∧
      (s.shutdown.repliedReads.Perm (events.flatMap ClosingEvent.issued) ↔
        Path step (fun s e => s.Wakes e ∧ s.Spares e) (create files) events s ∧
          ∀ i, (s.client.leafs i).pendingJobs ≠ [] → s.InTree i) := by
  obtain ⟨lost, hlost, hc⟩ := (Closing.create files).run h
  rw [List.append_nil, List.append_nil] at hc
  have hpath : Path step Spares (create files) events s ↔ s.client.diskQueue = [] := by
    have hfirst : ¬ (create files).Stuck := fun ⟨i, hi, _⟩ => absurd hi List.not_mem_nil
    rw [← hc.stuck_iff hj, stuck_run h]
    exact ⟨fun hp => ⟨hfirst, hp⟩, And.right⟩
  constructor
  · apply List.subperm_ext_iff.mpr
    intro q _
    exact Nat.le_of_add_right_le (Nat.le_of_add_right_le (hc.count_shutdown q).le)
  · rw [path_and_iff, ← hlost, hpath, List.perm_iff_count]
    constructor
    · intro hall
      have hnone (q : FuseRequest) : lost.count q = 0 ∧ (s.client.diskQueue.map DiskJob.request).count q = 0 ∧
          (if q.inode ∈ s.treeLeafs then 0 else (s.client.parkedReads q.inode).count q) = 0 := by
        have hcount := hc.count_shutdown q
        rw [hall q] at hcount
        omega
      refine ⟨⟨?_, ?_⟩, ?_⟩
      · apply List.eq_nil_iff_forall_not_mem.mpr
        exact fun q => List.count_eq_zero.mp (hnone q).1
      · apply List.map_eq_nil_iff.mp
        apply List.eq_nil_iff_forall_not_mem.mpr
        exact fun q => List.count_eq_zero.mp (hnone q).2.1
      · intro i hi
        obtain ⟨e, he⟩ := List.exists_mem_of_ne_nil _ hi
        have hinode := (hc.tallied.addressed.pendings i e he).2
        have hcount := (hnone e.2.request).2.2
        rw [hinode] at hcount
        by_contra hn
        rw [if_neg fun hm => hn ((hc.mem_treeLeafs i).mp hm)] at hcount
        exact List.count_eq_zero.mp hcount (List.mem_map_of_mem he)
    · rintro ⟨⟨rfl, hdisk⟩, htree⟩ q
      have hcount := hc.count_shutdown q
      have hparked : (if q.inode ∈ s.treeLeafs then 0 else (s.client.parkedReads q.inode).count q) = 0 := by
        split_ifs with hm
        · rfl
        · have hnil : (s.client.leafs q.inode).pendingJobs = [] := by
            by_contra hne
            exact hm ((hc.mem_treeLeafs _).mpr (htree _ hne))
          rw [Client.parkedReads, hnil]
          rfl
      rw [hdisk, hparked] at hcount
      exact hcount

def stopAll : List ClosingEvent := List.replicate workers.length .requestStop ++ workers.map .exit

def waitingRead : List ClosingEvent :=
  [.addChild 1 8, .read ⟨1, 8, 0, 1⟩, .begin 0, .cacheTree 0 [] 0, .sendRequest]

lemma Closing.inode_of_pending (h : Closing issued lost s) {i : ℕ} (hi : (s.client.leafs i).pendingJobs ≠ []) :
    ∃ q ∈ issued, q.inode = i := by
  obtain ⟨e, he⟩ := List.exists_mem_of_ne_nil _ hi
  have hinode := (h.tallied.addressed.pendings i e he).2
  refine ⟨e.2.request, ?_, hinode⟩
  rw [← List.count_pos_iff, ← h.tallied.account, Client.account]
  have hmem : e.2.request ∈ s.client.parkedReads e.2.request.inode := hinode ▸ List.mem_map_of_mem he
  have hpos := List.count_pos_iff.mpr hmem
  omega

def twoFiles (i : ℕ) : RemoteFile := if i = 8 then ⟨"a.txt", 1, [7]⟩ else ⟨"b.txt", 1, [7]⟩

def twoReads : List ClosingEvent :=
  [.addChild 1 8, .addChild 1 9, .read ⟨1, 8, 0, 1⟩, .begin 0, .cacheTree 0 [] 0, .sendRequest,
    .answer 0 0 [([7], [])], .receive 0, .begin 0, .cacheTree 0 [] 0, .read ⟨2, 9, 0, 1⟩, .begin 1, .cacheTree 1 [] 0,
    .sendRequest]

def wokenRead : List ClosingEvent :=
  twoReads ++ (List.replicate workers.length .requestStop ++ (.begin 0 :: .cacheTree 0 [] 0 :: workers.map .exit))

theorem shutdown_answers_every_read_woken :
    ∃ s, run step (create twoFiles) wokenRead = some s ∧ s.Joined ∧
      s.shutdown.repliedReads.Perm [⟨1, 8, 0, 1⟩, ⟨2, 9, 0, 1⟩] := by
  have hrun : (run step (create twoFiles) wokenRead).map (fun s => decide (s.Joined ∧ s.threads = [] ∧
      s.children = [⟨1, "a.txt", 8⟩, ⟨1, "b.txt", 9⟩] ∧
      ∀ q ∈ wokenRead.flatMap ClosingEvent.issued, s.client.account q = 1)) = some true := by decide +kernel
  obtain ⟨s, hs, hfacts⟩ := Option.map_eq_some_iff.mp hrun
  obtain ⟨hjoined, hthreads, hchildren, haccount⟩ := of_decide_eq_true hfacts
  obtain ⟨lost, hlost, hclosing⟩ := (Closing.create twoFiles).run hs
  rw [List.append_nil, List.append_nil] at hclosing
  have hnone : lost = [] := by
    refine List.eq_nil_iff_forall_not_mem.mpr fun q hq => ?_
    have hpos := List.count_pos_iff.mpr hq
    have hcount := hclosing.tallied.account q
    have hissued : q ∈ wokenRead.flatMap ClosingEvent.issued := List.count_pos_iff.mp (by omega)
    have hone := List.count_eq_one_of_mem (show (wokenRead.flatMap ClosingEvent.issued).Nodup by decide) hissued
    have := haccount q hissued
    omega
  have hfree : ¬ s.Stuck := by
    rintro ⟨i, hi, -⟩
    rw [hthreads] at hi
    exact absurd hi List.not_mem_nil
  refine ⟨s, hs, hjoined, (shutdown_answers_every_read hs hjoined).2.mpr
    ⟨path_and_iff.mpr ⟨hlost.mp hnone, ((stuck_run hs).mp hfree).2⟩, ?_⟩⟩
  intro i hi
  obtain ⟨q, hq, rfl⟩ := hclosing.inode_of_pending hi
  rw [InTree, hchildren]
  rcases List.mem_cons.mp hq with rfl | hq
  · exact .single (by decide)
  · rw [List.mem_singleton.mp hq]
    exact .single (by decide)

theorem removed_leaf_not_answered :
    ¬ ∀ (files : ℕ → RemoteFile) (events : List ClosingEvent) (s : ClosingClient),
      run step (create files) events = some s → s.Joined →
        s.shutdown.repliedReads.Perm (events.flatMap ClosingEvent.issued) := by
  intro h
  have hrun : (run step (create fun _ => ⟨"a.txt", 1, [7]⟩) (waitingRead ++ .removeChild 1 "a.txt" :: stopAll)).map
      (fun s => decide (s.Joined ∧ s.shutdown.repliedReads = [])) = some true := by decide +kernel
  obtain ⟨s, hs, hfacts⟩ := Option.map_eq_some_iff.mp hrun
  obtain ⟨hjoined, hnone⟩ := of_decide_eq_true hfacts
  have hperm := h _ _ s hs hjoined
  rw [hnone] at hperm
  exact absurd hperm.length_eq (by decide)

end ClosingClient

end FastTransport.FileCache
