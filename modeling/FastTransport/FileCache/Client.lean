import FastTransport.FileSystem.RangePins

/-! The client's file cache: the read jobs of the cache tree queues, the disk jobs, the requests
and responses of blocks, the eviction of blocks to the cache files. -/

namespace FastTransport.FileSystem

structure FileCache where
  lruList : List String
  deriving DecidableEq, Repr

namespace FileCache

def maxFiles : ℕ := 100

def cleanupFiles : ℕ := 50

def getFile (c : FileCache) (path : String) : FileCache :=
  if path ∈ c.lruList then ⟨path :: c.lruList.erase path⟩
  else if maxFiles ≤ c.lruList.length then ⟨path :: c.lruList.take (c.lruList.length - cleanupFiles)⟩
  else ⟨path :: c.lruList⟩

end FileCache

/-- What `NativeFile::Write` hands to `pwritev`: a vector of the first payload's size for each packet. -/
def writtenBytes (packets : List CachedPacket) (size : ℕ) : List UInt8 :=
  let payloadSize := (packets.head?.map fun p => p.payload.length).getD 0
  let blocks := if size % payloadSize ≠ 0 then size / payloadSize + 1 else size / payloadSize
  (packets.take blocks).flatMap fun p => (p.payload ++ p.behind).take payloadSize

end FastTransport.FileSystem

namespace FastTransport.FileCache

open FileSystem Lib.Bytes Lib.Runs

structure FuseRequest where
  unique : ℕ
  inode : ℕ
  offset : ℕ
  size : ℕ
  deriving DecidableEq, Repr

structure FuseReadFileJob where
  request : FuseRequest
  inode : ℕ
  size : ℕ
  offset : ℕ
  arrivedBlockPin : List ℕ
  requestBlockPin : List ℕ
  deriving DecidableEq, Repr

structure FuseReadFilePendingJob where
  request : FuseRequest
  inode : ℕ
  size : ℕ
  offset : ℕ
  arrivedBlockIndex : ℕ
  deriving DecidableEq, Repr

structure ReadRequest where
  request : Option FuseRequest
  inode : ℕ
  size : ℕ
  offset : ℕ
  skipped : ℕ
  deriving DecidableEq, Repr

structure ReadResponse extends ReadRequest where
  error : ℕ
  data : List CachedPacket
  deriving DecidableEq, Repr

structure ApplyBlockCacheJob extends ReadRequest where
  data : List CachedPacket
  deriving DecidableEq, Repr

structure WriteFileCacheJob where
  inode : ℕ
  size : ℕ
  offset : ℕ
  data : List CachedPacket
  deriving DecidableEq, Repr

inductive CacheTreeJob
  | fuseRead (job : FuseReadFileJob)
  | applyBlock (job : ApplyBlockCacheJob)
  | writeFile (job : WriteFileCacheJob)
  deriving DecidableEq, Repr

def FuseReadFileJob.pins (job : FuseReadFileJob) : List ℕ := job.arrivedBlockPin ++ job.requestBlockPin

namespace CacheTreeJob

def inode : CacheTreeJob → ℕ
  | fuseRead job => job.inode
  | applyBlock job => job.inode
  | writeFile job => job.inode

def pins : CacheTreeJob → List ℕ
  | fuseRead job => job.pins
  | _ => []

def request? : CacheTreeJob → Option ReadRequest
  | applyBlock job => some job.toReadRequest
  | _ => none

end CacheTreeJob

inductive DiskJob
  | readFile (request : FuseRequest) (inode : ℕ) (file : String) (size offset : ℕ) (appendData : BufferView)
  | prefixDiskRead (request : FuseRequest) (inode : ℕ) (prefixData : BufferView) (file : String)
      (diskOffset diskSize : ℕ)
  deriving DecidableEq, Repr

namespace DiskJob

def request : DiskJob → FuseRequest
  | readFile request .. => request
  | prefixDiskRead request .. => request

def inode : DiskJob → ℕ
  | readFile _ inode .. => inode
  | prefixDiskRead _ inode .. => inode

def file : DiskJob → String
  | readFile _ _ file .. => file
  | prefixDiskRead _ _ _ file .. => file

def buffer : DiskJob → BufferView
  | readFile _ _ _ _ _ appendData => appendData
  | prefixDiskRead _ _ prefixData .. => prefixData

def diskOffset : DiskJob → ℕ
  | readFile _ _ _ _ offset _ => offset
  | prefixDiskRead _ _ _ _ diskOffset _ => diskOffset

def diskSize : DiskJob → ℕ
  | readFile _ _ _ size _ appendData => size - appendData.totalSize
  | prefixDiskRead _ _ _ _ _ diskSize => diskSize

def combine : DiskJob → List UInt8 → List UInt8 → List UInt8
  | readFile .., disk, memory => disk ++ memory
  | prefixDiskRead .., disk, memory => memory ++ disk

end DiskJob

inductive ReadResult
  | error (code : ℕ)
  | data (bytes : Option (List UInt8))
  deriving DecidableEq, Repr

structure Reply where
  request : FuseRequest
  result : ReadResult
  deriving DecidableEq, Repr

def eio : ℕ := 5

def shardCount : ℕ := 4

def shardForInode (inode : ℕ) : ℕ := inode % shardCount

def maxCachePackets : ℤ := 10000

def prefetchAhead : ℕ := 4

structure Client where
  leafs : ℕ → Leaf FuseReadFilePendingJob
  /-- The tables of all shards: an inode stands in the one of its shard. -/
  cachePerShard : List (ℕ × ℤ)
  grandTotalCachedPackets : ℤ
  fileCache : FileSystem.FileCache
  disk : String → List UInt8
  cacheTreeQueue : List CacheTreeJob
  diskQueue : List DiskJob
  mainQueue : List ReadRequest
  requests : List ReadRequest
  responses : List ReadResponse
  replies : List Reply
  nextId : ℕ

structure RemoteFile where
  name : String
  parent : ℕ
  content : List UInt8
  deriving DecidableEq, Repr

namespace Client

def create (files : ℕ → RemoteFile) : Client where
  leafs i := .create (files i).name (files i).parent (files i).content.length
  cachePerShard := []
  grandTotalCachedPackets := 0
  fileCache := ⟨[]⟩
  disk _ := []
  cacheTreeQueue := []
  diskQueue := []
  mainQueue := []
  requests := []
  responses := []
  replies := []
  nextId := 0

def setLeaf (s : Client) (inode : ℕ) (leaf : Leaf FuseReadFilePendingJob) : Client :=
  { s with leafs := Function.update s.leafs inode leaf }

def reply (s : Client) (request : FuseRequest) (result : ReadResult) : Client :=
  { s with replies := s.replies ++ [⟨request, result⟩] }

def scheduleCacheTreeJob (s : Client) (job : CacheTreeJob) : Client :=
  { s with cacheTreeQueue := s.cacheTreeQueue ++ [job] }

def pinRanges (s : Client) (inode : ℕ) (ids : List ℕ) : Client := s.setLeaf inode ((s.leafs inode).pin ids)

def unpinRanges (s : Client) (inode : ℕ) (ids : List ℕ) : Client :=
  s.setLeaf inode ((s.leafs inode).unpin ids)

def scheduleDiskJob (s : Client) (job : DiskJob) : Client :=
  { s.pinRanges job.inode job.buffer.pin with diskQueue := s.diskQueue ++ [job] }

def getFile (s : Client) (inode : ℕ) : Client :=
  { s with fileCache := s.fileCache.getFile (s.leafs inode).getCachePath }

def requestReadFile (s : Client) (inode index : ℕ) : Client :=
  { s with mainQueue := s.mainQueue ++ [⟨none, inode, blockSize, index * blockSize, 0⟩] }

def prefetchLoop (s : Client) (inode index : ℕ) : ℕ → Client
  | 0 => s
  | n + 1 =>
    if (s.leafs inode).size ≤ (index + 1) * blockSize then s
    else
      match (s.leafs inode).setInFlight (index + 1) with
      | some leaf => prefetchLoop ((s.setLeaf inode leaf).requestReadFile inode (index + 1)) inode (index + 1) n
      | none => prefetchLoop s inode (index + 1) n

def triggerPrefetch (s : Client) (inode index : ℕ) : Client := s.prefetchLoop inode index prefetchAhead

end Client

namespace FuseReadFileJob

def truncate (job : FuseReadFileJob) (fileSize : ℕ) : FuseReadFileJob :=
  if fileSize < job.offset + job.size then { job with size := fileSize - job.offset } else job

def pending (job : FuseReadFileJob) (index : ℕ) : FuseReadFilePendingJob :=
  ⟨job.request, job.inode, job.size, job.offset, index⟩

def again (job : FuseReadFileJob) : CacheTreeJob :=
  .fuseRead ⟨job.request, job.inode, job.size, job.offset, [], []⟩

def addPendingJob (s : Client) (job : FuseReadFileJob) (index : ℕ) : Client :=
  s.setLeaf job.inode ((s.leafs job.inode).addPendingJob index (job.pending index))

def fetchBlock (s : Client) (job : FuseReadFileJob) (index : ℕ) : Client :=
  match (s.leafs job.inode).setInFlight index with
  | some leaf =>
    ((addPendingJob (s.setLeaf job.inode leaf) job index).requestReadFile job.inode index).triggerPrefetch
      job.inode index
  | none =>
    if (s.leafs job.inode).getStatus index = .inCache then s.scheduleCacheTreeJob job.again
    else addPendingJob s job index

def waitForNext (s : Client) (job : FuseReadFileJob) (next : ℕ) : Client :=
  if (s.leafs job.inode).getStatus next = .inCache then s.scheduleCacheTreeJob job.again
  else
    match (s.leafs job.inode).setInFlight next with
    | some leaf => (addPendingJob (s.setLeaf job.inode leaf) job next).requestReadFile job.inode next
    | none => addPendingJob s job next

/-- What an exception of `GetData` leaves: the ranges it met stay pinned, and the job's destructor answers the read. -/
def unwind (s : Client) (job : FuseReadFileJob) (pins : List ℕ) : Client :=
  (s.pinRanges job.inode pins).reply job.request (.error eio)

def executeWithoutData (s : Client) (job : FuseReadFileJob) : Client :=
  let leaf := s.leafs job.inode
  let index := job.offset / blockSize
  if leaf.getStatus index = .onDisk then
    let blockEnd := (index + 1) * blockSize
    let next := blockEnd / blockSize
    if blockEnd < job.offset + job.size ∧ leaf.getStatus next ≠ .onDisk then
      match leaf.pinData blockEnd (job.offset + job.size - blockEnd) with
      | .error pins => unwind (s.getFile job.inode) job pins
      | .ok pinned =>
        if pinned.hasData then
          (s.getFile job.inode).scheduleDiskJob
            (.readFile job.request job.inode leaf.getCachePath job.size job.offset pinned)
        else waitForNext (s.getFile job.inode) job next
    else
      (s.getFile job.inode).scheduleDiskJob
        (.readFile job.request job.inode leaf.getCachePath job.size job.offset .empty)
  else fetchBlock s job index

def executeWithData (s : Client) (job : FuseReadFileJob) (buffer : BufferView) : Client :=
  let leaf := s.leafs job.inode
  if buffer.totalSize < job.size then
    let next := (job.offset + buffer.totalSize) / blockSize
    if leaf.getStatus next = .onDisk then
      (s.getFile job.inode).scheduleDiskJob
        (.prefixDiskRead job.request job.inode buffer leaf.getCachePath (next * blockSize)
          (job.size - buffer.totalSize))
    else fetchBlock s job next
  else
    (s.triggerPrefetch job.inode (job.offset / blockSize)).reply job.request
      (.data (leaf.readSpans buffer.spans))

/-- A view that dies within the execution that took it leaves the counters of its ranges as they were. -/
def execute (s : Client) (job : FuseReadFileJob) (stop : Bool) : Client :=
  let leaf := s.leafs job.inode
  if stop then s.reply job.request (.error eio)
  else if leaf.size ≤ job.offset then s.reply job.request (.error eio)
  else
    let job := job.truncate leaf.size
    match leaf.pinData job.offset job.size with
    | .error pins => unwind s job pins
    | .ok buffer => if buffer.hasData then executeWithData s job buffer else executeWithoutData s job

end FuseReadFileJob

/-- An exception leaves a state as well: the ranges `GetData` met stay pinned, and the read is gone with the job, which
has not handed it on and has no destructor that would answer it. -/
def FuseReadFilePendingJob.execute (s : Client) (job : FuseReadFilePendingJob) : Except Client Client :=
  match (s.leafs job.inode).pinData (job.arrivedBlockIndex * blockSize) blockSize with
  | .error pins => .error (s.pinRanges job.inode pins)
  | .ok arrived =>
    -- `arrivedPin` is destroyed where the second call throws
    match (s.leafs job.inode).pinData (job.offset / blockSize * blockSize) blockSize with
    | .error pins => .error (s.pinRanges job.inode pins)
    | .ok requested =>
      .ok ((s.pinRanges job.inode (arrived.pin ++ requested.pin)).scheduleCacheTreeJob
        (.fuseRead ⟨job.request, job.inode, job.size, job.offset, arrived.pin, requested.pin⟩))

namespace Client

def addCount (s : Client) (inode : ℕ) (added : ℤ) : Client :=
  { s with
    cachePerShard := match s.cachePerShard.lookup inode with
      | some _ => s.cachePerShard.map fun e => if e.1 = inode then (e.1, e.2 + added) else e
      | none => s.cachePerShard ++ [(inode, added)]
    grandTotalCachedPackets := s.grandTotalCachedPackets + added }

def addData (s : Client) (inode offset size : ℕ) (data : List CachedPacket) : Client :=
  let r := (s.leafs inode).addData s.nextId offset size data
  { (s.setLeaf inode r.2).addCount inode (data.length - r.1.length) with nextId := s.nextId + 1 }

def removeCount (s : Client) (inode : ℕ) (extracted : ℤ) : Client :=
  { s with
    cachePerShard :=
      (s.cachePerShard.map fun e => if e.1 = inode then (e.1, e.2 - extracted) else e).filter
        fun e => !(e.1 = inode && e.2 = 0)
    grandTotalCachedPackets := s.grandTotalCachedPackets - extracted }

/-- `GetFreeData` where `inode` is the first of its shard's table; `none` where every block is pinned. -/
def getFreeData (s : Client) (inode : ℕ) : Option (WriteFileCacheJob × Client) :=
  (s.leafs inode).getFirstBlockIndex.map fun index =>
    let (offset, data, leaf) := (s.leafs inode).extractBlock index
    (⟨inode, min blockSize ((s.leafs inode).size - index * blockSize), offset, data⟩,
      (s.setLeaf inode leaf).removeCount inode data.length)

def needsEviction (s : Client) : Bool := maxCachePackets < s.grandTotalCachedPackets

def shardInodes (s : Client) (shard : ℕ) : List ℕ :=
  (s.cachePerShard.map Prod.fst).filter fun i => shardForInode i = shard

/-- The loop of `ApplyBlockCacheJob`, told which inode comes first in the hash table at each turn. -/
def evictLoop (shard : ℕ) : List ℕ → Client → Option Client
  | [], s => if s.needsEviction ∧ s.shardInodes shard ≠ [] then none else some s
  | inode :: rest, s =>
    if s.needsEviction ∧ inode ∈ s.shardInodes shard then
      match s.getFreeData inode with
      | none => if rest = [] then some s else none
      | some (job, t) =>
        if job.data = [] then (if rest = [] then some t else none)
        else evictLoop shard rest (t.scheduleCacheTreeJob (.writeFile job))
    else none

end Client

namespace ApplyBlockCacheJob

def readed (job : ApplyBlockCacheJob) : ℕ :=
  match job.data.head?, job.data.getLast? with
  | some front, some back => (job.data.length - 1) * front.payload.length + back.payload.length
  | _, _ => 0

/-- The jobs behind one that throws are destroyed unexecuted. -/
def wake (s : Client) (inode index : ℕ) : Except Client Client :=
  let r := (s.leafs inode).takePendingJobs index
  r.1.foldlM FuseReadFilePendingJob.execute (s.setLeaf inode r.2)

def addBlock (s : Client) (job : ApplyBlockCacheJob) : Client :=
  s.addData job.inode (job.offset + job.skipped) job.readed job.data

def replyData (s : Client) (job : ApplyBlockCacheJob) (request : FuseRequest) : Except Client Client :=
  match (s.leafs job.inode).pinData job.offset (min (job.readed + job.skipped) job.size) with
  | .error pins => .error (s.pinRanges job.inode pins)
  | .ok view => .ok (s.reply request (.data ((s.leafs job.inode).readSpans view.spans)))

def blockIndex (job : ApplyBlockCacheJob) : ℕ := (job.offset + job.skipped) / blockSize

/-- All but the eviction, which an exception leaves out. -/
def deliver (s : Client) (job : ApplyBlockCacheJob) : Except Client Client := do
  let s ← match job.request with
    | none => .ok (addBlock s job)
    | some request => replyData (addBlock s job) job request
  wake s job.inode job.blockIndex

def execute (s : Client) (job : ApplyBlockCacheJob) (picks : List ℕ) : Option Client :=
  match deliver s job with
  | .error t => some t
  | .ok t => Client.evictLoop (shardForInode job.inode) picks t

end ApplyBlockCacheJob

def WriteFileCacheJob.execute (s : Client) (job : WriteFileCacheJob) : Client :=
  let path := (s.leafs job.inode).getCachePath
  { (s.getFile job.inode).setLeaf job.inode ((s.leafs job.inode).setStatus (job.offset / blockSize) .onDisk) with
    disk := Function.update s.disk path
      (writeAt (s.disk path) job.offset (writtenBytes job.data job.size)) }

/-- A job's pins go with the job; nothing in its execution looks at the counters. -/
def CacheTreeJob.execute (s : Client) (stop : Bool) (picks : List ℕ) : CacheTreeJob → Option Client
  | fuseRead job => some (FuseReadFileJob.execute (s.unpinRanges job.inode job.pins) job stop)
  | applyBlock job => ApplyBlockCacheJob.execute s job picks
  | writeFile job => some (WriteFileCacheJob.execute s job)

def DiskJob.result (s : Client) (job : DiskJob) : Option (List UInt8) :=
  ((s.leafs job.inode).readSpans job.buffer.spans).map
    (job.combine (slice (s.disk job.file) job.diskOffset job.diskSize))

inductive Action
  | read (request : FuseRequest)
  | cacheTree (shard : ℕ) (stop : Bool) (picks : List ℕ)
  | disk (i : ℕ)
  | sendRequest
  | answer (i error : ℕ) (data : List (List UInt8 × List UInt8))
  | receive (i : ℕ)
  deriving DecidableEq, Repr

namespace Client

def receivedPackets (nextId : ℕ) (data : List (List UInt8 × List UInt8)) : List CachedPacket :=
  data.zipIdx.map fun e => ⟨nextId + e.2, e.1.1, e.1.2⟩

def executeResponse (s : Client) (r : ReadResponse) : Client :=
  if r.error ≠ 0 then
    match r.request with
    | some request => s.reply request (.error r.error)
    | none => s
  else s.scheduleCacheTreeJob (.applyBlock ⟨r.toReadRequest, r.data⟩)

/-- A cache tree queue runs the oldest job of its shard; disk threads, server and network take any. -/
def step (s : Client) : Action → Option Client
  | .read request =>
    some (s.scheduleCacheTreeJob (.fuseRead ⟨request, request.inode, request.size, request.offset, [], []⟩))
  | .cacheTree shard stop picks =>
    (s.cacheTreeQueue.find? fun job => shardForInode job.inode = shard).bind fun job =>
      job.execute { s with cacheTreeQueue :=
        s.cacheTreeQueue.eraseP fun job => shardForInode job.inode = shard } stop picks
  | .disk i =>
    (s.diskQueue[i]?).map fun job =>
      (({ s with diskQueue := s.diskQueue.eraseIdx i } : Client).unpinRanges job.inode job.buffer.pin).reply
        job.request (.data (job.result s))
  | .sendRequest =>
    match s.mainQueue with
    | [] => none
    | r :: rest => some { s with mainQueue := rest, requests := s.requests ++ [r] }
  | .answer i error data =>
    (s.requests[i]?).map fun r =>
      { s with requests := s.requests.eraseIdx i
               responses := s.responses ++ [⟨r, error, receivedPackets s.nextId data⟩]
               nextId := s.nextId + data.length }
  | .receive i =>
    (s.responses[i]?).map fun r => executeResponse { s with responses := s.responses.eraseIdx i } r

def outstanding (s : Client) : List ReadRequest :=
  s.mainQueue ++ s.requests ++ s.responses.map ReadResponse.toReadRequest ++
    s.cacheTreeQueue.filterMap CacheTreeJob.request?

end Client

end FastTransport.FileCache
