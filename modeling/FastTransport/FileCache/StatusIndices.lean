import FastTransport.FileCache.Client
import FastTransport.FileSystem.Ranges
import FastTransport.Lib.Faults

/-! The client with every access to the status of a block checked: an index that `PiecesStatus` has no entry
for is a fault. Sums of an offset and a size are those of `size_t`. -/

namespace FastTransport.FileSystem

lemma AddOutcome.offset_mem {before after : List Range} {id offset size : ℕ} {data : List CachedPacket}
    {result : List CachedPacket × List Range} (h : AddOutcome before after id offset size data result) {r : Range}
    (hr : r ∈ result.2) : r.offset = offset ∨ ∃ r' ∈ before ++ after, r.offset = r'.offset := by
  cases h with
  | inserted =>
    rw [List.mem_append, List.mem_cons] at hr
    rcases hr with hr | rfl | hr
    · exact Or.inr ⟨r, List.mem_append_left _ hr, rfl⟩
    · exact Or.inl rfl
    · exact Or.inr ⟨r, List.mem_append_right _ hr, rfl⟩
  | replaced next rest hb ha =>
    rcases List.mem_cons.mp hr with rfl | hr
    · exact Or.inl rfl
    · exact Or.inr ⟨r, List.mem_append_right _ (ha ▸ List.mem_cons_of_mem _ hr), rfl⟩
  | joined next rest ha =>
    rw [List.mem_append, List.mem_cons] at hr
    rcases hr with hr | rfl | hr
    · exact Or.inr ⟨r, List.mem_append_left _ hr, rfl⟩
    · exact Or.inl rfl
    · exact Or.inr ⟨r, List.mem_append_right _ (ha ▸ List.mem_cons_of_mem _ hr), rfl⟩
  | bridged init prev next rest hb ha =>
    subst hb ha
    rw [List.mem_append, List.mem_cons] at hr
    rcases hr with hr | rfl | hr
    · exact Or.inr ⟨r, by simp [hr], rfl⟩
    · exact Or.inr ⟨prev, by simp, rfl⟩
    · exact Or.inr ⟨r, by simp [hr], rfl⟩
  | extended init prev skipped newSize hb =>
    subst hb
    rw [List.mem_append, List.mem_cons] at hr
    rcases hr with hr | rfl | hr
    · exact Or.inr ⟨r, by simp [hr], rfl⟩
    · exact Or.inr ⟨prev, by simp, rfl⟩
    · exact Or.inr ⟨r, by simp [hr], rfl⟩

lemma addRange_offset_mem {ranges : List Range} (hs : Sorted ranges) {id offset size : ℕ}
    {data : List CachedPacket} {r : Range} (hr : r ∈ (addRange ranges id offset size data).2) :
    r.offset = offset ∨ ∃ r' ∈ ranges, r.offset = r'.offset := by
  rcases addRange_outcome hs id offset size data rfl rfl with ⟨-, he⟩ | ⟨-, ho⟩
  · rw [he] at hr
    exact Or.inr ⟨r, hr, rfl⟩
  · have h := ho.offset_mem hr
    rwa [List.takeWhile_append_dropWhile] at h

/-- The status has an entry for each block of a file of that size, and the ranges of a block lie in it. -/
structure BlocksOf {J : Type} (size : ℕ) (leaf : Leaf J) : Prop where
  size_eq : leaf.size = size
  pieces : leaf.piecesStatus.size = size / blockSize + 1
  index_le : ∀ e ∈ leaf.data, e.1 ≤ size / blockSize
  sorted : ∀ e ∈ leaf.data, Sorted e.2
  ranges : ∀ e ∈ leaf.data, ∀ r ∈ e.2, r.offset / blockSize = e.1

namespace BlocksOf

variable {J : Type} {size : ℕ} {leaf : Leaf J}

lemma create (name : String) (parent size : ℕ) : BlocksOf size (Leaf.create name parent size : Leaf J) :=
  ⟨rfl, PiecesStatus.size_create _, fun _ h => absurd h List.not_mem_nil, fun _ h => absurd h List.not_mem_nil,
    fun _ h => absurd h List.not_mem_nil⟩

lemma lt_pieces (h : BlocksOf size leaf) {index : ℕ} (hi : index ≤ size / blockSize) :
    index < leaf.piecesStatus.size := by
  rw [h.pieces]
  exact Nat.lt_succ_of_le hi

lemma setStatus (h : BlocksOf size leaf) (index : ℕ) (status : PieceStatus) :
    BlocksOf size (leaf.setStatus index status) :=
  ⟨h.size_eq, (PiecesStatus.size_setStatus _ _ _).trans h.pieces, h.index_le, h.sorted, h.ranges⟩

lemma eraseBlock (h : BlocksOf size leaf) (index : ℕ) : BlocksOf size (leaf.eraseBlock index) :=
  ⟨h.size_eq, h.pieces, fun e he => h.index_le e (List.mem_of_mem_filter he),
    fun e he => h.sorted e (List.mem_of_mem_filter he), fun e he => h.ranges e (List.mem_of_mem_filter he)⟩

lemma insertBlock (h : BlocksOf size leaf) {index : ℕ} {ranges : List Range} (hi : index ≤ size / blockSize)
    (hs : Sorted ranges) (hr : ∀ r ∈ ranges, r.offset / blockSize = index) :
    BlocksOf size (leaf.insertBlock index ranges) := by
  refine ⟨h.size_eq, h.pieces, fun e he => ?_, fun e he => ?_, fun e he => ?_⟩
  all_goals rcases List.mem_cons.mp he with rfl | he
  · exact hi
  · exact h.index_le e he
  · exact hs
  · exact h.sorted e he
  · exact hr
  · exact h.ranges e he

lemma mapRanges (h : BlocksOf size leaf) {f : Range → Range} (hf : ∀ r, (f r).offset = r.offset) :
    BlocksOf size (leaf.mapRanges f) := by
  refine ⟨h.size_eq, h.pieces, fun e he => ?_, fun e he => ?_, fun e he r hr => ?_⟩
  all_goals obtain ⟨e, he', rfl⟩ := List.mem_map.mp he
  · exact h.index_le e he'
  · refine List.pairwise_map.mpr ((h.sorted e he').imp fun {a b} hab => ?_)
    rwa [hf, hf]
  · obtain ⟨r', hr', rfl⟩ := List.mem_map.mp hr
    rw [hf]
    exact h.ranges e he' r' hr'

lemma addPendingJob (h : BlocksOf size leaf) (index : ℕ) (job : J) :
    BlocksOf size (leaf.addPendingJob index job) := ⟨h.size_eq, h.pieces, h.index_le, h.sorted, h.ranges⟩

lemma takePendingJobs (h : BlocksOf size leaf) (index : ℕ) : BlocksOf size (leaf.takePendingJobs index).2 :=
  ⟨h.size_eq, h.pieces, h.index_le, h.sorted, h.ranges⟩

lemma invalidateDataCache (h : BlocksOf size leaf) : BlocksOf size leaf.invalidateDataCache := by
  refine ⟨h.size_eq, ?_, fun _ he => absurd he List.not_mem_nil, fun _ he => absurd he List.not_mem_nil,
    fun _ he => absurd he List.not_mem_nil⟩
  rw [← h.size_eq]
  exact PiecesStatus.size_create _

end BlocksOf

lemma takeSpans_sum_le (ps : List CachedPacket) (start readed : ℕ) :
    ((takeSpans ps start readed).map Span.size).sum ≤ readed := by
  induction ps generalizing start readed with
  | nil => simp [takeSpans]
  | cons p ps ih =>
    rw [takeSpans]
    split_ifs
    · simp
    · have hrest := ih 0 (readed - min (p.payload.length - start) readed)
      rw [List.map_cons, List.sum_cons]
      dsimp only
      omega

lemma Leaf.getDataLoop_totalSize_le {J : Type} {leaf : Leaf J} {fuel : ℕ} :
    ∀ {offset readed : ℕ} {view view' : BufferView}, leaf.getDataLoop fuel offset readed view = some view' →
      view'.totalSize ≤ view.totalSize + readed := by
  induction fuel with
  | zero =>
    intro offset readed view view' h
    cases Option.some.inj h
    exact Nat.le_add_right _ _
  | succ fuel ih =>
    intro offset readed view view' h
    rw [getDataLoop] at h
    split_ifs at h with hr
    · cases h
      exact Nat.le_add_right _ _
    cases hf : leaf.findBlock (offset / blockSize) with
    | none =>
      rw [hf] at h
      cases h
      exact Nat.le_add_right _ _
    | some ranges =>
      rw [hf] at h
      simp only at h
      cases hl : (ranges.takeWhile fun r => r.offset ≤ offset).getLast? with
      | none =>
        rw [hl] at h
        cases h
        exact Nat.le_add_right _ _
      | some range =>
        rw [hl] at h
        simp only at h
        split_ifs at h with h1 h2
        · cases hk : skipPackets range.packets (offset - range.offset) with
          | none =>
            rw [hk] at h
            cases h
            exact Nat.le_add_right _ _
          | some q =>
            rw [hk] at h
            have hsum := takeSpans_sum_le q.2 q.1 readed
            have hle := ih h
            simp only [BufferView.totalSize, List.map_append, List.sum_append] at hle ⊢
            omega
        · cases h
          exact Nat.le_add_right _ _

lemma Leaf.getData_totalSize_le {J : Type} {leaf : Leaf J} {offset size : ℕ} {view : BufferView}
    (h : leaf.getData offset size = some view) : view.totalSize ≤ min size (leaf.size - offset) := by
  rw [getData] at h
  split_ifs at h
  · cases h
    exact Nat.zero_le _
  · simpa [BufferView.totalSize, BufferView.empty] using getDataLoop_totalSize_le h

end FastTransport.FileSystem

namespace FastTransport.FileCache

open FileSystem Lib.Runs Lib.Faults

inductive Fault
  | outOfRange | divisionByZero | notEnabled
  /-- The exception of `GetData` and the state it leaves, from which the run goes on. -/
  | dataNotFound (s : Client)

inductive CheckedAction
  | read (request : FuseRequest)
  | cacheTree (shard : ℕ) (stop : Bool) (picks : List ℕ)
  | disk (i : ℕ)
  | sendRequest
  | respond (r : ReadResponse)
  | invalidate (inode : ℕ)
  deriving DecidableEq, Repr

namespace Checked

section

variable {J : Type}

def getStatus (leaf : Leaf J) (index : ℕ) : Except Fault PieceStatus :=
  if index < leaf.piecesStatus.size then .ok (leaf.getStatus index) else .error .outOfRange

def setStatus (leaf : Leaf J) (index : ℕ) (status : PieceStatus) : Except Fault (Leaf J) :=
  if index < leaf.piecesStatus.size then .ok (leaf.setStatus index status) else .error .outOfRange

def setInFlight (leaf : Leaf J) (index : ℕ) : Except Fault (Option (Leaf J)) := do
  if (← getStatus leaf index) = .notFound then
    return some (← setStatus leaf index .inFlight)
  else return none

def addData (leaf : Leaf J) (id offset size : ℕ) (data : List CachedPacket) :
    Except Fault (List CachedPacket × Leaf J) :=
  match leaf.findBlock (offset / blockSize) with
  | none => do
    let leaf ← setStatus (leaf.insertBlock (offset / blockSize) [Range.create id offset size data])
      (offset / blockSize) .inCache
    return ([], leaf)
  | some ranges =>
    if dividesByZero ranges offset size then .error .divisionByZero
    else
      let r := addRange ranges id offset size data
      .ok (r.1, (leaf.eraseBlock (offset / blockSize)).insertBlock (offset / blockSize) r.2)

def extractBlock (leaf : Leaf J) (index : ℕ) : Except Fault (ℕ × List CachedPacket × Leaf J) :=
  match leaf.findBlock index with
  | none => .ok (0, [], leaf)
  | some ranges => do
    let leaf ← setStatus leaf index .notFound
    return ((ranges.head?.map Range.offset).getD 0, ranges.flatMap Range.packets, leaf.eraseBlock index)

end

def getData (s : Client) (job : FuseReadFileJob) (offset size : ℕ) : Except Fault BufferView :=
  match (s.leafs job.inode).pinData offset size with
  | .error pins => .error (.dataNotFound (job.unwind s pins))
  | .ok view => .ok view

def prefetchLoop (s : Client) (inode index : ℕ) : ℕ → Except Fault Client
  | 0 => .ok s
  | n + 1 =>
    if (s.leafs inode).size ≤ (index + 1) * blockSize then .ok s
    else do
      match ← setInFlight (s.leafs inode) (index + 1) with
      | some leaf => prefetchLoop ((s.setLeaf inode leaf).requestReadFile inode (index + 1)) inode (index + 1) n
      | none => prefetchLoop s inode (index + 1) n

def triggerPrefetch (s : Client) (inode index : ℕ) : Except Fault Client := prefetchLoop s inode index prefetchAhead

def readEnd (job : FuseReadFileJob) : ℕ := (job.offset + job.size) % 2 ^ 64

def truncate (job : FuseReadFileJob) (fileSize : ℕ) : FuseReadFileJob :=
  if fileSize < readEnd job then { job with size := fileSize - job.offset } else job

def fetchBlock (s : Client) (job : FuseReadFileJob) (index : ℕ) : Except Fault Client := do
  match ← setInFlight (s.leafs job.inode) index with
  | some leaf =>
    triggerPrefetch
      ((FuseReadFileJob.addPendingJob (s.setLeaf job.inode leaf) job index).requestReadFile job.inode index)
      job.inode index
  | none =>
    if (← getStatus (s.leafs job.inode) index) = .inCache then return s.scheduleCacheTreeJob job.again
    else return FuseReadFileJob.addPendingJob s job index

def waitForNext (s : Client) (job : FuseReadFileJob) (next : ℕ) (nextStatus : PieceStatus) : Except Fault Client := do
  if nextStatus = .inCache then return s.scheduleCacheTreeJob job.again
  else
    match ← setInFlight (s.leafs job.inode) next with
    | some leaf =>
      return (FuseReadFileJob.addPendingJob (s.setLeaf job.inode leaf) job next).requestReadFile job.inode next
    | none =>
      if (← getStatus (s.leafs job.inode) next) = .inCache then return s.scheduleCacheTreeJob job.again
      else return FuseReadFileJob.addPendingJob s job next

def diskRead (s : Client) (job : FuseReadFileJob) (appendData : BufferView) : Client :=
  (s.getFile job.inode).scheduleDiskJob
    (.readFile job.request job.inode (s.leafs job.inode).getCachePath job.size job.offset appendData)

def executeWithoutData (s : Client) (job : FuseReadFileJob) : Except Fault Client := do
  let index := job.offset / blockSize
  if (← getStatus (s.leafs job.inode) index) = .onDisk then
    let blockEnd := (index + 1) * blockSize
    if blockEnd < readEnd job then
      let next := blockEnd / blockSize
      let nextStatus ← getStatus (s.leafs job.inode) next
      if nextStatus ≠ .onDisk then
        let pinned ← getData (s.getFile job.inode) job blockEnd (readEnd job - blockEnd)
        if pinned.hasData then return diskRead s job pinned
        else waitForNext (s.getFile job.inode) job next nextStatus
      else return diskRead s job .empty
    else return diskRead s job .empty
  else fetchBlock s job index

def executeWithData (s : Client) (job : FuseReadFileJob) (buffer : BufferView) : Except Fault Client := do
  if buffer.totalSize < job.size then
    let next := (job.offset + buffer.totalSize) / blockSize
    if (← getStatus (s.leafs job.inode) next) = .onDisk then
      return (s.getFile job.inode).scheduleDiskJob
        (.prefixDiskRead job.request job.inode buffer (s.leafs job.inode).getCachePath (next * blockSize)
          (job.size - buffer.totalSize))
    else fetchBlock s job next
  else
    let t ← triggerPrefetch s job.inode (job.offset / blockSize)
    return t.reply job.request (.data ((s.leafs job.inode).readSpans buffer.spans))

def executeFuseRead (s : Client) (job : FuseReadFileJob) (stop : Bool) : Except Fault Client := do
  if stop then return s.reply job.request (.error eio)
  else if (s.leafs job.inode).size ≤ job.offset then return s.reply job.request (.error eio)
  else
    let job := truncate job (s.leafs job.inode).size
    let buffer ← getData s job job.offset job.size
    if buffer.hasData then executeWithData s job buffer else executeWithoutData s job

def executePendingJob (s : Client) (job : FuseReadFilePendingJob) : Except Fault Client :=
  (job.execute s).mapError .dataNotFound

def addTreeData (s : Client) (inode offset size : ℕ) (data : List CachedPacket) : Except Fault Client := do
  let (free, leaf) ← addData (s.leafs inode) s.nextId offset size data
  return { (s.setLeaf inode leaf).addCount inode (data.length - free.length) with nextId := s.nextId + 1 }

def getFreeData (s : Client) (inode : ℕ) : Except Fault (Option (WriteFileCacheJob × Client)) :=
  match (s.leafs inode).getFirstBlockIndex with
  | none => .ok none
  | some index => do
    let (offset, data, leaf) ← extractBlock (s.leafs inode) index
    return some (⟨inode, min blockSize ((s.leafs inode).size - index * blockSize), offset, data⟩,
      (s.setLeaf inode leaf).removeCount inode data.length)

/-- Told which inode comes first in the table of the shard at each turn. -/
def evictLoop (shard : ℕ) : List ℕ → Client → Except Fault Client
  | [], s => if s.needsEviction ∧ s.shardInodes shard ≠ [] then .error .notEnabled else .ok s
  | inode :: rest, s =>
    if s.needsEviction ∧ inode ∈ s.shardInodes shard then do
      match ← getFreeData s inode with
      | none => if rest = [] then return s else .error .notEnabled
      | some (job, t) =>
        if job.data = [] then (if rest = [] then return t else .error .notEnabled)
        else evictLoop shard rest (t.scheduleCacheTreeJob (.writeFile job))
    else .error .notEnabled

def replyBlock (s : Client) (job : ApplyBlockCacheJob) : Except Fault Client :=
  match job.request with
  | none => .ok s
  | some request => (job.replyData s request).mapError .dataNotFound

def executeApplyBlock (s : Client) (job : ApplyBlockCacheJob) (picks : List ℕ) : Except Fault Client := do
  let s ← addTreeData s job.inode (job.offset + job.skipped) job.readed job.data
  let s ← replyBlock s job
  let r := (s.leafs job.inode).takePendingJobs ((job.offset + job.skipped) / blockSize)
  let s ← r.1.foldlM executePendingJob (s.setLeaf job.inode r.2)
  evictLoop (shardForInode job.inode) picks s

def executeWriteFile (s : Client) (job : WriteFileCacheJob) : Except Fault Client := do
  let path := (s.leafs job.inode).getCachePath
  let leaf ← setStatus (s.leafs job.inode) (job.offset / blockSize) .onDisk
  return { (s.getFile job.inode).setLeaf job.inode leaf with
    disk := Function.update s.disk path
      (Lib.Bytes.writeAt (s.disk path) job.offset (writtenBytes job.data job.size)) }

def executeCachedTree (s : Client) (stop : Bool) (picks : List ℕ) : CacheTreeJob → Except Fault Client
  | .fuseRead job => executeFuseRead (s.unpinRanges job.inode job.pins) job stop
  | .applyBlock job => executeApplyBlock s job picks
  | .writeFile job => executeWriteFile s job

/-- A request stays in `requests` once it is sent: any number of responses may come for its offset, with any
size, error and data. -/
def step (s : Client) : CheckedAction → Except Fault Client
  | .read request =>
    .ok (s.scheduleCacheTreeJob (.fuseRead ⟨request, request.inode, request.size, request.offset, [], []⟩))
  | .cacheTree shard stop picks =>
    match s.cacheTreeQueue.find? fun job => shardForInode job.inode = shard with
    | none => .error .notEnabled
    | some job =>
      let queue := s.cacheTreeQueue.eraseP fun job => shardForInode job.inode = shard
      match executeCachedTree { s with cacheTreeQueue := queue } stop picks job with
      | .error (.dataNotFound t) => .ok t
      | result => result
  | .disk i =>
    match s.diskQueue[i]? with
    | none => .error .notEnabled
    | some job =>
      .ok ((({ s with diskQueue := s.diskQueue.eraseIdx i } : Client).unpinRanges job.inode job.buffer.pin).reply
        job.request (.data (job.result s)))
  | .sendRequest =>
    match s.mainQueue with
    | [] => .error .notEnabled
    | r :: rest => .ok { s with mainQueue := rest, requests := s.requests ++ [r] }
  | .respond r =>
    if ∃ q ∈ s.requests, q.inode = r.inode ∧ q.offset = r.offset ∧ q.skipped = r.skipped then
      .ok (s.executeResponse r)
    else .error .notEnabled
  | .invalidate inode => .ok (s.setLeaf inode (s.leafs inode).invalidateDataCache)

def run : Client → List CheckedAction → Option Client := Lib.Runs.run fun s a => (step s a).toOption

end Checked

def CacheTreeJob.markedOffset : CacheTreeJob → Option ℕ
  | fuseRead _ => none
  | applyBlock job => some (job.offset + job.skipped)
  | writeFile job => some job.offset

structure IndexInv (sizes : ℕ → ℕ) (s : Client) : Prop where
  leafs : ∀ i, BlocksOf (sizes i) (s.leafs i)
  requests : ∀ r ∈ s.mainQueue ++ s.requests, (r.offset + r.skipped) / blockSize ≤ sizes r.inode / blockSize
  jobs : ∀ job ∈ s.cacheTreeQueue, ∀ offset, job.markedOffset = some offset →
    offset / blockSize ≤ sizes job.inode / blockSize

/-- An index out of range, or an exception that leaves a state without the invariant. -/
def Fault.Breaks (sizes : ℕ → ℕ) : Fault → Prop
  | outOfRange => True
  | dataNotFound s => ¬ IndexInv sizes s
  | _ => False

namespace Checked

variable {sizes : ℕ → ℕ}

section

variable {J : Type} {size : ℕ} {leaf : Leaf J}

lemma getStatus_meets (h : BlocksOf size leaf) {index : ℕ} (hi : index ≤ size / blockSize) :
    Meets (Fault.Breaks sizes) (fun _ => True) (getStatus leaf index) := by
  rw [getStatus, if_pos (h.lt_pieces hi)]
  trivial

lemma setStatus_meets (h : BlocksOf size leaf) {index : ℕ} (hi : index ≤ size / blockSize) (status : PieceStatus) :
    Meets (Fault.Breaks sizes) (BlocksOf size) (setStatus leaf index status) := by
  rw [setStatus, if_pos (h.lt_pieces hi)]
  exact h.setStatus index status

lemma setInFlight_meets (h : BlocksOf size leaf) {index : ℕ} (hi : index ≤ size / blockSize) :
    Meets (Fault.Breaks sizes) (fun r => ∀ leaf', r = some leaf' → BlocksOf size leaf') (setInFlight leaf index) := by
  refine (getStatus_meets h hi).bind fun status _ => ?_
  split_ifs
  · refine (setStatus_meets h hi .inFlight).bind fun leaf' h' => ?_
    rintro _ ⟨⟩
    exact h'
  · rintro _ ⟨⟩

lemma addData_meets (h : BlocksOf size leaf) {offset : ℕ} (ho : offset / blockSize ≤ size / blockSize) (id n : ℕ)
    (data : List CachedPacket) :
    Meets (Fault.Breaks sizes) (fun r => BlocksOf size r.2) (addData leaf id offset n data) := by
  rw [addData]
  cases hf : leaf.findBlock (offset / blockSize) with
  | none =>
    have hnew : BlocksOf size (leaf.insertBlock (offset / blockSize) [Range.create id offset n data]) := by
      refine h.insertBlock ho (List.pairwise_singleton _ _) fun r hr => ?_
      rw [List.mem_singleton.mp hr]
      rfl
    exact (setStatus_meets hnew ho .inCache).bind fun leaf' h' => h'
  | some ranges =>
    dsimp only
    split_ifs
    · exact Meets.fault not_false
    · have hm := Leaf.mem_of_findBlock hf
      refine Meets.pure ((h.eraseBlock _).insertBlock ho (addRange_sorted (h.sorted _ hm) _ _ _ _) fun r hr => ?_)
      rcases addRange_offset_mem (h.sorted _ hm) hr with he | ⟨r', hr', he⟩
      · rw [he]
      · rw [he]
        exact h.ranges _ hm r' hr'

lemma extractBlock_meets (h : BlocksOf size leaf) (index : ℕ) :
    Meets (Fault.Breaks sizes) (fun r => r.1 / blockSize ≤ size / blockSize ∧ BlocksOf size r.2.2)
      (extractBlock leaf index) := by
  rw [extractBlock]
  cases hf : leaf.findBlock index with
  | none => exact ⟨by simp, h⟩
  | some ranges =>
    have hm := Leaf.mem_of_findBlock hf
    refine (setStatus_meets h (h.index_le _ hm) .notFound).bind fun leaf' h' => ⟨?_, h'.eraseBlock index⟩
    cases ranges with
    | nil => simp
    | cons r rs =>
      have hr : r.offset / blockSize = index := h.ranges _ hm r List.mem_cons_self
      simpa [hr] using h.index_le _ hm

end

end Checked

namespace IndexInv

variable {sizes : ℕ → ℕ} {s : Client}

lemma create (files : ℕ → RemoteFile) : IndexInv (fun i => (files i).content.length) (Client.create files) :=
  ⟨fun _ => BlocksOf.create _ _ _, fun _ h => absurd h List.not_mem_nil, fun _ h => absurd h List.not_mem_nil⟩

lemma setLeaf (h : IndexInv sizes s) {inode : ℕ} {leaf : Leaf FuseReadFilePendingJob}
    (hl : BlocksOf (sizes inode) leaf) : IndexInv sizes (s.setLeaf inode leaf) := by
  refine ⟨fun i => ?_, h.requests, h.jobs⟩
  by_cases hi : i = inode
  · subst hi
    simpa [Client.setLeaf] using hl
  · simpa [Client.setLeaf, hi] using h.leafs i

lemma requestReadFile (h : IndexInv sizes s) {inode index : ℕ} (hi : index ≤ sizes inode / blockSize) :
    IndexInv sizes (s.requestReadFile inode index) := by
  refine ⟨h.leafs, fun r hr => ?_, h.jobs⟩
  simp only [Client.requestReadFile, List.mem_append, List.mem_singleton] at hr
  rcases hr with (hr | rfl) | hr
  · exact h.requests r (List.mem_append_left _ hr)
  · simpa [Nat.mul_div_cancel _ blockSize_pos] using hi
  · exact h.requests r (List.mem_append_right _ hr)

lemma scheduleCacheTreeJob (h : IndexInv sizes s) {job : CacheTreeJob}
    (hj : ∀ offset, job.markedOffset = some offset → offset / blockSize ≤ sizes job.inode / blockSize) :
    IndexInv sizes (s.scheduleCacheTreeJob job) := by
  refine ⟨h.leafs, h.requests, fun j hm => ?_⟩
  rcases List.mem_append.mp hm with hm | hm
  · exact h.jobs j hm
  · rw [List.mem_singleton.mp hm]
    exact hj

lemma pinRanges (h : IndexInv sizes s) (inode : ℕ) (ids : List ℕ) : IndexInv sizes (s.pinRanges inode ids) :=
  h.setLeaf ((h.leafs inode).mapRanges fun _ => rfl)

lemma unpinRanges (h : IndexInv sizes s) (inode : ℕ) (ids : List ℕ) : IndexInv sizes (s.unpinRanges inode ids) :=
  h.setLeaf ((h.leafs inode).mapRanges fun _ => rfl)

lemma scheduleDiskJob (h : IndexInv sizes s) (job : DiskJob) : IndexInv sizes (s.scheduleDiskJob job) :=
  ⟨(h.pinRanges _ _).leafs, h.requests, h.jobs⟩

lemma getFile (h : IndexInv sizes s) (inode : ℕ) : IndexInv sizes (s.getFile inode) :=
  ⟨h.leafs, h.requests, h.jobs⟩

lemma reply (h : IndexInv sizes s) (request : FuseRequest) (result : ReadResult) :
    IndexInv sizes (s.reply request result) := ⟨h.leafs, h.requests, h.jobs⟩

lemma addPendingJob (h : IndexInv sizes s) (job : FuseReadFileJob) (index : ℕ) :
    IndexInv sizes (FuseReadFileJob.addPendingJob s job index) :=
  h.setLeaf ((h.leafs job.inode).addPendingJob _ _)

lemma again (h : IndexInv sizes s) (job : FuseReadFileJob) : IndexInv sizes (s.scheduleCacheTreeJob job.again) :=
  h.scheduleCacheTreeJob fun _ he => by cases he

lemma unwind (h : IndexInv sizes s) (job : FuseReadFileJob) (pins : List ℕ) : IndexInv sizes (job.unwind s pins) :=
  (h.pinRanges _ _).reply _ _

lemma diskRead (h : IndexInv sizes s) (job : FuseReadFileJob) (view : BufferView) :
    IndexInv sizes (Checked.diskRead s job view) := (h.getFile _).scheduleDiskJob _

lemma addCount (h : IndexInv sizes s) (inode : ℕ) (added : ℤ) : IndexInv sizes (s.addCount inode added) :=
  ⟨h.leafs, h.requests, h.jobs⟩

lemma removeCount (h : IndexInv sizes s) (inode : ℕ) (extracted : ℤ) :
    IndexInv sizes (s.removeCount inode extracted) := ⟨h.leafs, h.requests, h.jobs⟩

lemma eraseJob (h : IndexInv sizes s) (p : CacheTreeJob → Bool) :
    IndexInv sizes { s with cacheTreeQueue := s.cacheTreeQueue.eraseP p } :=
  ⟨h.leafs, h.requests, fun job hm => h.jobs job (List.mem_of_mem_eraseP hm)⟩

end IndexInv

def InRange (sizes : ℕ → ℕ) : Except Fault Client → Prop := Meets (Fault.Breaks sizes) (IndexInv sizes)

namespace Checked

variable {sizes : ℕ → ℕ} {s : Client}

lemma getData_inRange (h : IndexInv sizes s) (job : FuseReadFileJob) (offset n : ℕ) :
    Meets (Fault.Breaks sizes) (fun view => (s.leafs job.inode).getData offset n = some view)
      (getData s job offset n) := by
  rw [getData]
  cases hp : (s.leafs job.inode).pinData offset n with
  | error pins => exact Meets.fault (not_not.mpr (h.unwind job pins))
  | ok view => exact Leaf.getData_of_pinData hp

lemma prefetchLoop_inRange (h : IndexInv sizes s) (inode index n : ℕ) :
    InRange sizes (prefetchLoop s inode index n) := by
  induction n generalizing s index with
  | zero => exact h
  | succ n ih =>
    rw [prefetchLoop]
    split_ifs with hlt
    · exact h
    have hi : index + 1 ≤ sizes inode / blockSize := by
      rw [← (h.leafs inode).size_eq]
      exact (Nat.le_div_iff_mul_le blockSize_pos).mpr (not_le.mp hlt).le
    refine (setInFlight_meets (h.leafs inode) hi).bind fun r hr => ?_
    cases r with
    | none => exact ih h _
    | some leaf => exact ih ((h.setLeaf (hr leaf rfl)).requestReadFile hi) _

lemma triggerPrefetch_inRange (h : IndexInv sizes s) (inode index : ℕ) :
    InRange sizes (triggerPrefetch s inode index) := prefetchLoop_inRange h inode index _

lemma fetchBlock_inRange (h : IndexInv sizes s) (job : FuseReadFileJob) {index : ℕ}
    (hi : index ≤ sizes job.inode / blockSize) : InRange sizes (fetchBlock s job index) := by
  refine (setInFlight_meets (h.leafs job.inode) hi).bind fun r hr => ?_
  cases r with
  | none =>
    refine (getStatus_meets (h.leafs job.inode) hi).bind fun status _ => ?_
    split_ifs
    · exact h.again job
    · exact h.addPendingJob job index
  | some leaf =>
    exact triggerPrefetch_inRange (((h.setLeaf (hr leaf rfl)).addPendingJob job index).requestReadFile hi) _ _

lemma waitForNext_inRange (h : IndexInv sizes s) (job : FuseReadFileJob) {next : ℕ}
    (hi : next ≤ sizes job.inode / blockSize) (nextStatus : PieceStatus) :
    InRange sizes (waitForNext s job next nextStatus) := by
  rw [waitForNext]
  split_ifs
  · exact h.again job
  refine (setInFlight_meets (h.leafs job.inode) hi).bind fun r hr => ?_
  cases r with
  | none =>
    refine (getStatus_meets (h.leafs job.inode) hi).bind fun status _ => ?_
    split_ifs
    · exact h.again job
    · exact h.addPendingJob job next
  | some leaf => exact ((h.setLeaf (hr leaf rfl)).addPendingJob job next).requestReadFile hi

lemma truncate_offset (job : FuseReadFileJob) (fileSize : ℕ) : (truncate job fileSize).offset = job.offset := by
  rw [truncate]
  split_ifs <;> rfl

lemma truncate_inode (job : FuseReadFileJob) (fileSize : ℕ) : (truncate job fileSize).inode = job.inode := by
  rw [truncate]
  split_ifs <;> rfl

lemma readEnd_truncate_le {job : FuseReadFileJob} {fileSize : ℕ} (h : job.offset < fileSize) :
    readEnd (truncate job fileSize) ≤ fileSize := by
  rw [truncate]
  split_ifs with hend
  · have hsum : job.offset + (fileSize - job.offset) = fileSize := by omega
    simp only [readEnd, hsum]
    exact Nat.mod_le _ _
  · exact not_lt.mp hend

lemma executeWithoutData_inRange (h : IndexInv sizes s) {job : FuseReadFileJob}
    (ho : job.offset ≤ sizes job.inode) (hend : readEnd job ≤ sizes job.inode) :
    InRange sizes (executeWithoutData s job) := by
  have hi : job.offset / blockSize ≤ sizes job.inode / blockSize := Nat.div_le_div_right ho
  refine (getStatus_meets (h.leafs job.inode) hi).bind fun status _ => ?_
  split_ifs with hdisk
  · dsimp only
    split_ifs with hcross
    · have hnext : (job.offset / blockSize + 1) * blockSize / blockSize ≤ sizes job.inode / blockSize :=
        Nat.div_le_div_right (hcross.le.trans hend)
      refine (getStatus_meets (h.leafs job.inode) hnext).bind fun nextStatus _ => ?_
      split_ifs
      · refine (getData_inRange (h.getFile job.inode) _ _ _).bind fun pinned _ => ?_
        split_ifs
        · exact h.diskRead job pinned
        · exact waitForNext_inRange (h.getFile job.inode) job hnext nextStatus
      · exact h.diskRead job .empty
    · exact h.diskRead job .empty
  · exact fetchBlock_inRange h job hi

lemma executeWithData_inRange (h : IndexInv sizes s) {job : FuseReadFileJob} {buffer : BufferView}
    (hb : job.offset + buffer.totalSize ≤ sizes job.inode) : InRange sizes (executeWithData s job buffer) := by
  rw [executeWithData]
  split_ifs
  · have hi : (job.offset + buffer.totalSize) / blockSize ≤ sizes job.inode / blockSize := Nat.div_le_div_right hb
    refine (getStatus_meets (h.leafs job.inode) hi).bind fun status _ => ?_
    split_ifs
    · exact (h.getFile _).scheduleDiskJob _
    · exact fetchBlock_inRange h job hi
  · exact (triggerPrefetch_inRange h _ _).bind fun t ht => ht.reply _ _

lemma executeFuseRead_inRange (h : IndexInv sizes s) (job : FuseReadFileJob) (stop : Bool) :
    InRange sizes (executeFuseRead s job stop) := by
  rw [executeFuseRead]
  split_ifs with hstop hsize
  · exact h.reply _ _
  · exact h.reply _ _
  have ho : job.offset < sizes job.inode := by
    rw [← (h.leafs job.inode).size_eq]
    exact not_le.mp hsize
  refine (getData_inRange h _ _ _).bind fun buffer hb => ?_
  have hle := Leaf.getData_totalSize_le hb
  rw [truncate_inode, (h.leafs job.inode).size_eq, truncate_offset] at hle
  split_ifs
  · refine executeWithData_inRange h ?_
    rw [truncate_inode, truncate_offset]
    omega
  · refine executeWithoutData_inRange h ?_ ?_
    · rw [truncate_inode, truncate_offset]
      exact ho.le
    · rw [truncate_inode, (h.leafs job.inode).size_eq]
      exact readEnd_truncate_le ho

lemma executePendingJob_inRange (h : IndexInv sizes s) (job : FuseReadFilePendingJob) :
    InRange sizes (executePendingJob s job) := by
  rw [executePendingJob, FuseReadFilePendingJob.execute]
  cases (s.leafs job.inode).pinData (job.arrivedBlockIndex * blockSize) blockSize with
  | error pins => exact Meets.fault (not_not.mpr (h.pinRanges _ _))
  | ok arrived =>
    cases (s.leafs job.inode).pinData (job.offset / blockSize * blockSize) blockSize with
    | error pins => exact Meets.fault (not_not.mpr (h.pinRanges _ _))
    | ok requested => exact (h.pinRanges _ _).scheduleCacheTreeJob fun _ he => by cases he

lemma addTreeData_inRange (h : IndexInv sizes s) {inode offset : ℕ}
    (ho : offset / blockSize ≤ sizes inode / blockSize) (n : ℕ) (data : List CachedPacket) :
    InRange sizes (addTreeData s inode offset n data) := by
  refine (addData_meets (h.leafs inode) ho s.nextId n data).bind fun r hr => ?_
  have hset := (h.setLeaf hr).addCount inode (data.length - r.1.length)
  exact ⟨hset.leafs, hset.requests, hset.jobs⟩

lemma getFreeData_meets (h : IndexInv sizes s) (inode : ℕ) :
    Meets (Fault.Breaks sizes) (fun r => ∀ job t, r = some (job, t) →
      job.offset / blockSize ≤ sizes job.inode / blockSize ∧ IndexInv sizes t) (getFreeData s inode) := by
  rw [getFreeData]
  cases (s.leafs inode).getFirstBlockIndex with
  | none => exact fun _ _ he => by cases he
  | some index =>
    refine (extractBlock_meets (h.leafs inode) index).bind fun r hr => ?_
    rintro _ _ ⟨⟩
    exact ⟨hr.1, (h.setLeaf hr.2).removeCount _ _⟩

lemma evictLoop_inRange (shard : ℕ) (picks : List ℕ) (h : IndexInv sizes s) :
    InRange sizes (evictLoop shard picks s) := by
  induction picks generalizing s with
  | nil =>
    rw [evictLoop]
    split_ifs
    · exact Meets.fault not_false
    · exact h
  | cons inode rest ih =>
    rw [evictLoop]
    by_cases hfirst : s.needsEviction ∧ inode ∈ s.shardInodes shard
    · rw [if_pos hfirst]
      refine (getFreeData_meets h inode).bind fun r hr => ?_
      rcases r with _ | ⟨job, t⟩
      · dsimp only
        split_ifs
        · exact h
        · exact Meets.fault not_false
      · obtain ⟨hi, ht⟩ := hr job t rfl
        dsimp only
        split_ifs
        · exact ht
        · exact Meets.fault not_false
        · exact ih (ht.scheduleCacheTreeJob fun _ he => by cases he; exact hi)
    · rw [if_neg hfirst]
      exact Meets.fault not_false

lemma replyBlock_inRange (h : IndexInv sizes s) (job : ApplyBlockCacheJob) : InRange sizes (replyBlock s job) := by
  rw [replyBlock]
  cases job.request with
  | none => exact h
  | some request =>
    dsimp only
    rw [ApplyBlockCacheJob.replyData]
    cases (s.leafs job.inode).pinData job.offset (min (job.readed + job.skipped) job.size) with
    | error pins => exact Meets.fault (not_not.mpr (h.pinRanges _ _))
    | ok view => exact h.reply _ _

lemma executeApplyBlock_inRange (h : IndexInv sizes s) {job : ApplyBlockCacheJob}
    (ho : (job.offset + job.skipped) / blockSize ≤ sizes job.inode / blockSize) (picks : List ℕ) :
    InRange sizes (executeApplyBlock s job picks) := by
  refine (addTreeData_inRange h ho _ _).bind fun t ht => ?_
  refine (replyBlock_inRange ht job).bind fun u hu => ?_
  have htaken := hu.setLeaf ((hu.leafs job.inode).takePendingJobs ((job.offset + job.skipped) / blockSize))
  refine (Meets.foldlM (fun v p _ hv => executePendingJob_inRange hv p) htaken).bind fun v hv => ?_
  exact evictLoop_inRange _ _ hv

lemma executeWriteFile_inRange (h : IndexInv sizes s) {job : WriteFileCacheJob}
    (ho : job.offset / blockSize ≤ sizes job.inode / blockSize) : InRange sizes (executeWriteFile s job) := by
  refine (setStatus_meets (h.leafs job.inode) ho .onDisk).bind fun leaf hl => ?_
  have hset := (h.getFile job.inode).setLeaf hl
  exact ⟨hset.leafs, hset.requests, hset.jobs⟩

lemma executeCachedTree_inRange (h : IndexInv sizes s) (stop : Bool) (picks : List ℕ) {job : CacheTreeJob}
    (hj : ∀ offset, job.markedOffset = some offset → offset / blockSize ≤ sizes job.inode / blockSize) :
    InRange sizes (executeCachedTree s stop picks job) := by
  cases job with
  | fuseRead job => exact executeFuseRead_inRange (h.unpinRanges _ _) job stop
  | applyBlock job => exact executeApplyBlock_inRange h (hj _ rfl) picks
  | writeFile job => exact executeWriteFile_inRange h (hj _ rfl)

lemma executeResponse_indexInv (h : IndexInv sizes s) {r : ReadResponse}
    (hr : (r.offset + r.skipped) / blockSize ≤ sizes r.inode / blockSize) : IndexInv sizes (s.executeResponse r) := by
  rw [Client.executeResponse]
  split_ifs
  · cases r.request with
    | none => exact h
    | some request => exact h.reply _ _
  · exact h.scheduleCacheTreeJob fun _ he => by cases he; exact hr

lemma step_inRange (h : IndexInv sizes s) (a : CheckedAction) : InRange sizes (step s a) := by
  cases a with
  | read request => exact h.scheduleCacheTreeJob fun _ he => by cases he
  | cacheTree shard stop picks =>
    rw [step]
    cases hf : s.cacheTreeQueue.find? fun job => shardForInode job.inode = shard with
    | none => exact Meets.fault not_false
    | some job =>
      have hr := executeCachedTree_inRange (h.eraseJob fun job => shardForInode job.inode = shard) stop picks
        (h.jobs job (List.mem_of_find?_eq_some hf))
      dsimp only
      split
      · rename_i t ht
        rw [ht] at hr
        exact not_not.mp hr
      · exact hr
  | disk i =>
    rw [step]
    cases s.diskQueue[i]? with
    | none => exact Meets.fault not_false
    | some job =>
      have hd : IndexInv sizes { s with diskQueue := s.diskQueue.eraseIdx i } := ⟨h.leafs, h.requests, h.jobs⟩
      exact (hd.unpinRanges _ _).reply _ _
  | sendRequest =>
    rw [step]
    cases hm : s.mainQueue with
    | nil => exact Meets.fault not_false
    | cons r rest =>
      refine ⟨h.leafs, fun q hq => h.requests q ?_, h.jobs⟩
      rw [hm]
      simp only [List.mem_append, List.mem_cons, List.not_mem_nil, or_false] at hq ⊢
      tauto
  | respond r =>
    rw [step]
    split_ifs with hsent
    · obtain ⟨q, hq, hi, ho, hs⟩ := hsent
      have hq := h.requests q (List.mem_append_right _ hq)
      rw [hi, ho, hs] at hq
      exact executeResponse_indexInv h hq
    · exact Meets.fault not_false
  | invalidate inode => exact h.setLeaf (h.leafs inode).invalidateDataCache

theorem status_indices_in_range {files : ℕ → RemoteFile} {as : List CheckedAction} {s : Client}
    (h : run (Client.create files) as = some s) (a : CheckedAction) : step s a ≠ .error .outOfRange := by
  have hinv : IndexInv (fun i => (files i).content.length) s := by
    refine run_invariant (fun u b t hu ht => ?_) (IndexInv.create files) h
    cases hs : step u b with
    | error e =>
      rw [hs] at ht
      cases ht
    | ok v =>
      rw [hs] at ht
      cases ht
      exact (step_inRange hu b).ok hs
  exact (step_inRange hinv a).ne_error trivial

theorem status_indices_in_range_small_file :
    ∃ as s, run (Client.create fun _ => ⟨"a", 0, [7, 8, 9]⟩) as = some s ∧ s.replies ≠ [] ∧
      ∀ a, step s a ≠ .error .outOfRange := by
  have h : ∃ s, run (Client.create fun _ => ⟨"a", 0, [7, 8, 9]⟩)
      [.read ⟨1, 2, 1, 10⟩, .cacheTree 2 false [], .sendRequest,
        .respond ⟨⟨none, 2, blockSize, 0, 0⟩, 0, [⟨0, [7, 8, 9], []⟩]⟩, .cacheTree 2 false [],
        .respond ⟨⟨none, 2, blockSize, 0, 0⟩, 0, [⟨1, [7, 8, 9], []⟩]⟩, .cacheTree 2 false [],
        .cacheTree 2 false []] = some s ∧ s.replies ≠ [] := ⟨_, rfl, by decide⟩
  obtain ⟨s, h, hr⟩ := h
  exact ⟨_, s, h, hr, status_indices_in_range h⟩

end Checked

end FastTransport.FileCache
