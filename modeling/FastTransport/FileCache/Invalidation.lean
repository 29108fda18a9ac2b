import FastTransport.FileCache.DiskInvariant
import FastTransport.FileSystem.Ranges

/-! The client among invalidations of its leaves, and the packets that each mark and each reply goes back to. -/

namespace FastTransport.FileCache

open FileSystem Lib.Runs

def writtenOrigins (packets : List CachedPacket) (size : ℕ) : List ℕ :=
  let payloadSize := (packets.head?.map fun p => p.payload.length).getD 0
  let blocks := if size % payloadSize ≠ 0 then size / payloadSize + 1 else size / payloadSize
  (packets.take blocks).flatMap fun p => ((p.payload ++ p.behind).take payloadSize).map fun _ => p.id

inductive UseKind
  | inCache | onDisk | reply
  deriving DecidableEq, Repr

/-- A mark or a reply of a leaf, with the packets it rests on. Packets that were answered before the leaf was
invalidated last have an identity below `since`. -/
structure Use where
  kind : UseKind
  inode : ℕ
  since : ℕ
  packets : List ℕ
  deriving DecidableEq, Repr

def Use.Fresh (u : Use) : Prop := ∀ id ∈ u.packets, u.since ≤ id

instance (u : Use) : Decidable u.Fresh := inferInstanceAs (Decidable (∀ id ∈ _, _))

def CacheTreeJob.data : CacheTreeJob → List CachedPacket
  | fuseRead _ => []
  | applyBlock job => job.data
  | writeFile job => job.data

structure QueuedInvalidation where
  inode : ℕ
  ahead : ℕ
  deriving DecidableEq, Repr

structure TracedClient where
  client : Client
  invalidations : List QueuedInvalidation
  since : ℕ → ℕ
  /-- The packet that a byte of a cache file was written from. -/
  origins : String → ℕ → Option ℕ
  /-- For each disk job, `since` of its leaf when the read that scheduled it was executed. -/
  diskSince : List ℕ
  uses : List Use

inductive TracedAction
  | act (a : Action)
  | notifyInvalInode (inode : ℕ)
  | invalidate (shard : ℕ)
  deriving DecidableEq, Repr

namespace Client

def nextJob (s : Client) (shard : ℕ) : Option CacheTreeJob :=
  s.cacheTreeQueue.find? fun job => shardForInode job.inode = shard

def memoryReply (s : Client) (job : FuseReadFileJob) : Option BufferView :=
  let leaf := s.leafs job.inode
  if leaf.size ≤ job.offset then none
  else
    let job := job.truncate leaf.size
    (leaf.getData job.offset job.size).filter fun buffer => buffer.hasData && job.size ≤ buffer.totalSize

def jobUses (s : Client) (since : ℕ → ℕ) (stop : Bool) : CacheTreeJob → List Use
  | .fuseRead job =>
    if stop then []
    else
      (s.memoryReply job).toList.map fun buffer =>
        ⟨.reply, job.inode, since job.inode, buffer.spans.map fun x => x.packet.id⟩
  | .applyBlock job => [⟨.inCache, job.inode, since job.inode, job.data.map CachedPacket.id⟩]
  | .writeFile job => [⟨.onDisk, job.inode, since job.inode, job.data.map CachedPacket.id⟩]

/-- A view keeps the packets it pins, whatever the leaf holds by then. -/
def diskUse (origins : String → ℕ → Option ℕ) (since : ℕ) (job : DiskJob) : Use :=
  ⟨.reply, job.inode, since, (List.range' job.diskOffset job.diskSize).filterMap (origins job.file) ++
    job.buffer.spans.map fun x => x.packet.id⟩

def underWay (s : Client) (inode : ℕ) : List CachedPacket :=
  (s.responses.filter fun r => r.inode = inode ∧ r.error = 0).flatMap ReadResponse.data ++
    (s.cacheTreeQueue.filter fun job => job.inode = inode).flatMap CacheTreeJob.data

end Client

structure Alone (s : Client) (job : WriteFileCacheJob) : Prop where
  blocks : ∀ i, i ≠ job.inode → (s.leafs i).getCachePath = (s.leafs job.inode).getCachePath →
    ∀ index, (s.leafs i).getStatus index ≠ .onDisk
  disk : ∀ d ∈ s.diskQueue, d.inode ≠ job.inode → d.file ≠ (s.leafs job.inode).getCachePath

def writeOrigins (origins : String → ℕ → Option ℕ) (file : String) (offset : ℕ) (ids : List ℕ) :
    String → ℕ → Option ℕ :=
  Function.update origins file fun k =>
    if offset ≤ k ∧ k < offset + ids.length then ids[k - offset]? else origins file k

namespace TracedClient

def create (files : ℕ → RemoteFile) : TracedClient := ⟨.create files, [], fun _ => 0, fun _ _ => none, [], []⟩

def advance (shard : ℕ) (e : QueuedInvalidation) : QueuedInvalidation :=
  if shardForInode e.inode = shard then { e with ahead := e.ahead - 1 } else e

def executeJob (s : TracedClient) (shard : ℕ) (stop : Bool) (job : CacheTreeJob) (t : Client) : TracedClient where
  client := t
  invalidations := s.invalidations.map (advance shard)
  since := s.since
  origins :=
    match job with
    | .writeFile job =>
      writeOrigins s.origins (s.client.leafs job.inode).getCachePath job.offset (writtenOrigins job.data job.size)
    | _ => s.origins
  diskSince := s.diskSince ++ List.replicate (t.diskQueue.length - s.client.diskQueue.length) (s.since job.inode)
  uses := s.uses ++ s.client.jobUses s.since stop job

def invalidateCacheLeaf (s : TracedClient) (inode : ℕ) : TracedClient :=
  { s with client := s.client.setLeaf inode (s.client.leafs inode).invalidateDataCache
           since := Function.update s.since inode s.client.nextId }

def step (s : TracedClient) : TracedAction → Option TracedClient
  | .act (.cacheTree shard stop picks) =>
    if ∀ e ∈ s.invalidations, shardForInode e.inode = shard → 0 < e.ahead then
      (s.client.nextJob shard).bind fun job =>
        (s.client.step (.cacheTree shard stop picks)).map fun t => s.executeJob shard stop job t
    else none
  | .act (.disk i) =>
    (s.client.diskQueue[i]?).bind fun job =>
      (s.diskSince[i]?).bind fun since =>
        (s.client.step (.disk i)).map fun t =>
          { s with client := t
                   diskSince := s.diskSince.eraseIdx i
                   uses := s.uses ++ [Client.diskUse s.origins since job] }
  | .act a => (s.client.step a).map fun t => { s with client := t }
  | .notifyInvalInode inode =>
    let ahead := (s.client.cacheTreeQueue.filter fun job => shardForInode job.inode = shardForInode inode).length
    some { s with invalidations := s.invalidations ++ [⟨inode, ahead⟩] }
  | .invalidate shard =>
    (s.invalidations.find? fun e => shardForInode e.inode = shard).bind fun e =>
      if e.ahead = 0 then some { s.invalidateCacheLeaf e.inode with invalidations := s.invalidations.erase e }
      else none

/-- The kernel reads at most a block at once and the server answers with whole blocks. -/
def Clean (s : TracedClient) : TracedAction → Prop
  | .act (.read request) => request.size ≤ blockSize
  | .act (.answer i error data) => error = 0 → ∀ r, s.client.requests[i]? = some r →
      WholeData (s.client.leafs r.inode).size r.index (Client.receivedPackets s.client.nextId data)
  | .act (.cacheTree shard _ _) => ∀ job, s.client.nextJob shard = some (.writeFile job) → Alone s.client job
  | .invalidate shard => ∀ e, (s.invalidations.find? fun e => shardForInode e.inode = shard) = some e →
    s.client.underWay e.inode = []
  | _ => True

end TracedClient

end FastTransport.FileCache
