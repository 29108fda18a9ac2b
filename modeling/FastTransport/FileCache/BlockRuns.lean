import FastTransport.FileCache.MemoryInvariant

/-! Runs of whole blocks: a block is asked for, answered and applied, its read is served, and a block of another
leaf leaves the cache where it is full. -/

namespace FastTransport.FileCache

open FileSystem Lib.Bytes Lib.Runs

structure Quiet (s : Client) : Prop where
  cacheTreeQueue : s.cacheTreeQueue = []
  diskQueue : s.diskQueue = []
  mainQueue : s.mainQueue = []
  requests : s.requests = []
  responses : s.responses = []

namespace Client

lemma step_cacheTree_cons {s : Client} {job : CacheTreeJob} {rest : List CacheTreeJob}
    (hq : s.cacheTreeQueue = job :: rest) {shard : ℕ} (hs : shardForInode job.inode = shard) {stop : Bool}
    {picks : List ℕ} :
    s.step (.cacheTree shard stop picks) = job.execute { s with cacheTreeQueue := rest } stop picks := by
  simp [step, hq, hs]

@[simp] lemma unpinRanges_nil (s : Client) (inode : ℕ) : s.unpinRanges inode [] = s := by
  have hl : (s.leafs inode).unpin [] = s.leafs inode := by
    simp [Leaf.unpin, Leaf.mapRanges, Range.unpin]
  rw [unpinRanges, hl, setLeaf, Function.update_eq_self]

lemma prefetchLoop_eq_self {s : Client} {inode : ℕ} :
    ∀ {n index : ℕ}, (∀ j, index < j → (s.leafs inode).getStatus j ≠ .notFound ∨
      (s.leafs inode).size ≤ j * blockSize) → s.prefetchLoop inode index n = s
  | 0, _, _ => rfl
  | n + 1, index, h => by
    rw [prefetchLoop]
    split_ifs with hs
    · rfl
    · rcases h (index + 1) (Nat.lt_succ_self _) with hn | hn
      · rw [Leaf.setInFlight, if_neg hn]
        exact prefetchLoop_eq_self fun j hj => h j (by omega)
      · exact absurd hn hs

lemma mem_addCount {s : Client} {inode : ℕ} {added : ℤ} {i : ℕ} :
    i ∈ (s.addCount inode added).cachePerShard.map Prod.fst ↔
      i ∈ s.cachePerShard.map Prod.fst ∨ i = inode := by
  simp only [addCount]
  cases hl : s.cachePerShard.lookup inode with
  | none => simp
  | some n =>
    have hmem : inode ∈ s.cachePerShard.map Prod.fst := by
      obtain ⟨l₁, l₂, hl, -⟩ := List.lookup_eq_some_iff.mp hl
      rw [hl, List.map_append, List.map_cons]
      exact List.mem_append_right _ List.mem_cons_self
    have hkeys : (s.cachePerShard.map fun e => if e.1 = inode then (e.1, e.2 + added) else e).map Prod.fst =
        s.cachePerShard.map Prod.fst := by
      rw [List.map_map]
      refine List.map_congr_left fun e _ => ?_
      simp only [Function.comp_apply]
      split_ifs <;> rfl
    rw [hkeys]
    refine ⟨Or.inl, fun h => ?_⟩
    rcases h with h | rfl
    · exact h
    · exact hmem

end Client

lemma pinData_of_findBlock_none {leaf : Leaf FuseReadFilePendingJob} {offset : ℕ} (size : ℕ)
    (ho : offset < leaf.size) (hf : leaf.findBlock (offset / blockSize) = none) :
    leaf.pinData offset size = .ok .empty := by
  refine Leaf.pinData_of_getData ?_
  rw [Leaf.getData, if_neg (not_le.mpr ho)]
  cases hr : min size (leaf.size - offset) with
  | zero => rfl
  | succ n => rw [Leaf.getDataLoop, if_neg (Nat.succ_ne_zero n), hf]

lemma execute_fetch {s : Client} {job : FuseReadFileJob} {index : ℕ} (hoff : job.offset = index * blockSize)
    (hle : job.offset + job.size ≤ (s.leafs job.inode).size) (hpos : 0 < job.size)
    (hs : (s.leafs job.inode).getStatus index = .notFound) (hf : (s.leafs job.inode).findBlock index = none)
    (hn : ∀ j, index < j → (s.leafs job.inode).getStatus j ≠ .notFound ∨
      (s.leafs job.inode).size ≤ j * blockSize) :
    job.execute s false = FuseReadFileJob.addPendingJob (s.requestBlock job.inode index) job index := by
  have hidx : job.offset / blockSize = index := by
    rw [hoff, Nat.mul_div_cancel _ blockSize_pos]
  have htr : job.truncate (s.leafs job.inode).size = job := by
    rw [FuseReadFileJob.truncate, if_neg (not_lt.mpr hle)]
  have hdata : (s.leafs job.inode).pinData job.offset job.size = .ok .empty :=
    pinData_of_findBlock_none _ (by omega) (by rwa [hidx])
  have hnext : ∀ j, index < j →
      ((FuseReadFileJob.addPendingJob (s.requestBlock job.inode index) job index).leafs job.inode).getStatus j ≠
          .notFound ∨
        ((FuseReadFileJob.addPendingJob (s.requestBlock job.inode index) job index).leafs job.inode).size ≤
          j * blockSize := by
    intro j hj
    simp only [FuseReadFileJob.addPendingJob, Client.requestBlock, Client.requestReadFile, Client.leafs_setLeaf,
      if_pos]
    rcases hn j hj with h | h
    · left
      rcases (s.leafs job.inode).getStatus_setStatus_cases index .inFlight j with hc | hc
      · exact fun hx => PieceStatus.noConfusion (hc.symm.trans hx)
      · exact fun hx => h (hc.symm.trans hx)
    · exact Or.inr h
  rw [FuseReadFileJob.execute]
  simp only [Bool.false_eq_true, if_false]
  rw [if_neg (by omega), htr, hdata]
  dsimp only
  rw [if_neg (by decide)]
  dsimp only [FuseReadFileJob.executeWithoutData]
  rw [hidx, hs, if_neg (by decide), FuseReadFileJob.fetchBlock, Leaf.setInFlight, if_pos hs]
  exact Client.prefetchLoop_eq_self hnext

def arrivedLeaf (s : Client) (inode index : ℕ) (data : List (List UInt8 × List UInt8)) :
    Leaf FuseReadFilePendingJob :=
  ((s.leafs inode).insertBlock index [Range.create (s.nextId + data.length) (index * blockSize)
    (ApplyBlockCacheJob.readed ⟨⟨none, inode, blockSize, index * blockSize, 0⟩,
      Client.receivedPackets s.nextId data⟩) (Client.receivedPackets s.nextId data)]).setStatus index .inCache

def arrived (s : Client) (inode index : ℕ) (data : List (List UInt8 × List UInt8)) : Client :=
  { (s.setLeaf inode (arrivedLeaf s inode index data)).addCount inode data.length with
    nextId := s.nextId + data.length + 1 }

def blockRead (unique inode index : ℕ) : FuseRequest := ⟨unique, inode, index * blockSize, 1⟩

def pendingRead (unique inode index : ℕ) : FuseReadFilePendingJob :=
  ⟨blockRead unique inode index, inode, 1, index * blockSize, index⟩

lemma receivedPackets_length (nextId : ℕ) (data : List (List UInt8 × List UInt8)) :
    (Client.receivedPackets nextId data).length = data.length := by
  simp [Client.receivedPackets]

def requested (s : Client) (unique inode index : ℕ) : Client :=
  s.setLeaf inode (((s.leafs inode).setStatus index .inFlight).addPendingJob index
    (pendingRead unique inode index))

def blockRequest (inode index : ℕ) : ReadRequest := ⟨none, inode, blockSize, index * blockSize, 0⟩

lemma execute_applyBlock {s w : Client} {inode index : ℕ} (unique : ℕ) (data : List (List UInt8 × List UInt8))
    (hp : (s.leafs inode).pendingJobs = []) (hf : (s.leafs inode).findBlock index = none) (picks : List ℕ)
    (hw : (pendingRead unique inode index).execute (arrived s inode index data) = .ok w) :
    ApplyBlockCacheJob.execute { requested s unique inode index with nextId := s.nextId + data.length }
        ⟨blockRequest inode index, Client.receivedPackets s.nextId data⟩ picks =
      Client.evictLoop (shardForInode inode) picks w := by
  have hindex : index * blockSize / blockSize = index := Nat.mul_div_cancel _ blockSize_pos
  have hfind : ((requested s unique inode index).leafs inode).findBlock index = none := by
    simp only [requested, Client.leafs_setLeaf, if_pos]
    exact hf
  have hwake : ApplyBlockCacheJob.wake
      (({ requested s unique inode index with nextId := s.nextId + data.length } : Client).addData inode
        (index * blockSize) (ApplyBlockCacheJob.readed ⟨blockRequest inode index,
          Client.receivedPackets s.nextId data⟩) (Client.receivedPackets s.nextId data)) inode index =
      .ok w := by
    have hleaf : ((requested s unique inode index).leafs inode).addData (s.nextId + data.length)
        (index * blockSize) (ApplyBlockCacheJob.readed ⟨blockRequest inode index,
          Client.receivedPackets s.nextId data⟩) (Client.receivedPackets s.nextId data) =
        ([], (arrivedLeaf s inode index data).addPendingJob index (pendingRead unique inode index)) := by
      rw [Leaf.addData, hindex, hfind]
      simp only [requested, Client.leafs_setLeaf, if_pos, arrivedLeaf, Leaf.setStatus, Leaf.insertBlock,
        Leaf.addPendingJob, PiecesStatus.setStatus, List.set_set, blockRequest]
    have htake : ((arrivedLeaf s inode index data).addPendingJob index
        (pendingRead unique inode index)).takePendingJobs index =
        ([pendingRead unique inode index], arrivedLeaf s inode index data) := by
      have hpl : (arrivedLeaf s inode index data).pendingJobs = [] := hp
      simp only [Leaf.takePendingJobs, Leaf.addPendingJob, hpl, List.nil_append, List.filter_cons, decide_true,
        if_true, List.filter_nil, List.map_cons, List.map_nil, ne_eq, not_true_eq_false, decide_false,
        Bool.false_eq_true, if_false]
      rw [← hpl]
    have hadd : (({ requested s unique inode index with nextId := s.nextId + data.length } : Client).addData inode
        (index * blockSize) (ApplyBlockCacheJob.readed ⟨blockRequest inode index,
          Client.receivedPackets s.nextId data⟩) (Client.receivedPackets s.nextId data)) =
        (arrived s inode index data).setLeaf inode
          ((arrivedLeaf s inode index data).addPendingJob index (pendingRead unique inode index)) := by
      rw [Client.addData]
      simp only [hleaf, receivedPackets_length]
      simp only [arrived, requested, Client.setLeaf, Client.addCount, Function.update_idem, List.length_nil,
        Nat.cast_zero, sub_zero]
    rw [hadd, ApplyBlockCacheJob.wake, Client.leafs_setLeaf, if_pos rfl, htake]
    have hset : ((arrived s inode index data).setLeaf inode
        ((arrivedLeaf s inode index data).addPendingJob index (pendingRead unique inode index))).setLeaf inode
          (arrivedLeaf s inode index data) = arrived s inode index data := by
      simp only [Client.setLeaf, arrived, Client.addCount, Function.update_idem]
    rw [hset, List.foldlM_cons, hw]
    rfl
  have hdeliver : ApplyBlockCacheJob.deliver
      { requested s unique inode index with nextId := s.nextId + data.length }
        ⟨blockRequest inode index, Client.receivedPackets s.nextId data⟩ = .ok w := by
    simp only [ApplyBlockCacheJob.deliver, ApplyBlockCacheJob.addBlock, ApplyBlockCacheJob.blockIndex, blockRequest,
      Nat.add_zero, hindex]
    exact hwake
  rw [ApplyBlockCacheJob.execute, hdeliver]
  rfl

lemma addPendingJob_requestBlock (s : Client) (unique inode index : ℕ) :
    FuseReadFileJob.addPendingJob (s.requestBlock inode index)
        ⟨blockRead unique inode index, inode, 1, index * blockSize, [], []⟩ index =
      { requested s unique inode index with mainQueue := s.mainQueue ++ [blockRequest inode index] } := by
  simp only [FuseReadFileJob.addPendingJob, Client.requestBlock, Client.requestReadFile, Client.setLeaf,
    Function.update_self, Function.update_idem, requested, FuseReadFileJob.pending, pendingRead, blockRequest]

variable {A : Set ℕ} {files : ℕ → RemoteFile}

lemma path_request {s : Client} (hq : Quiet s) (unique : ℕ) {inode index : ℕ} (hi : inode ∈ A)
    (hlt : index * blockSize < (s.leafs inode).size) (hs : (s.leafs inode).getStatus index = .notFound)
    (hf : (s.leafs inode).findBlock index = none)
    (hn : ∀ j, index < j → (s.leafs inode).getStatus j ≠ .notFound ∨ (s.leafs inode).size ≤ j * blockSize) :
    Path Client.step (fun s a => ReadsIn A a ∧ Serves True files s a) s
      [.read (blockRead unique inode index), .cacheTree (shardForInode inode) false [], .sendRequest]
      { requested s unique inode index with requests := [blockRequest inode index] } := by
  let job : FuseReadFileJob := ⟨blockRead unique inode index, inode, 1, index * blockSize, [], []⟩
  have hread : s.step (.read (blockRead unique inode index)) =
      some { s with cacheTreeQueue := [.fuseRead job] } := by
    simp only [Client.step, Client.scheduleCacheTreeJob, hq.cacheTreeQueue]
    rfl
  have hempty : ({ s with cacheTreeQueue := [.fuseRead job] } : Client).step
      (.cacheTree (shardForInode inode) false []) =
      some { requested s unique inode index with mainQueue := [blockRequest inode index] } := by
    have hq' : ({ s with cacheTreeQueue := [] } : Client) = s := by
      rw [← hq.cacheTreeQueue]
    have hfetch : job.execute s false =
        FuseReadFileJob.addPendingJob (s.requestBlock inode index) job index :=
      execute_fetch rfl hlt Nat.one_pos hs hf hn
    refine (@Client.step_cacheTree_cons _ (.fuseRead job) [] rfl _ rfl _ _).trans ?_
    simp only [hq', CacheTreeJob.execute]
    rw [show job.pins = [] from rfl, Client.unpinRanges_nil, hfetch]
    rw [addPendingJob_requestBlock, hq.mainQueue]
    rfl
  have hsend : ({ requested s unique inode index with mainQueue := [blockRequest inode index] } : Client).step
      .sendRequest = some { requested s unique inode index with requests := [blockRequest inode index] } := by
    have hr : (requested s unique inode index).requests = [] := hq.requests
    have hm : (requested s unique inode index).mainQueue = [] := hq.mainQueue
    simp only [Client.step, hr, hm, List.nil_append]
  exact .cons ⟨hi, fun _ => blockSize_pos⟩ hread
    (.cons ⟨trivial, trivial⟩ hempty (.cons ⟨trivial, trivial⟩ hsend (.nil _)))

lemma path_answer {s : Client} (hq : Quiet s) (unique : ℕ) {inode index : ℕ}
    {data : List (List UInt8 × List UInt8)}
    (hd : IsCut (blockOf (files inode).content index) (Client.receivedPackets s.nextId data)) :
    Path Client.step (fun s a => ReadsIn A a ∧ Serves True files s a)
      { requested s unique inode index with requests := [blockRequest inode index] }
      [.answer 0 0 data, .receive 0]
      { requested s unique inode index with
        cacheTreeQueue := [.applyBlock ⟨blockRequest inode index, Client.receivedPackets s.nextId data⟩]
        nextId := s.nextId + data.length } := by
  have hidx : (blockRequest inode index).index = index := Nat.mul_div_cancel _ blockSize_pos
  have hr : (requested s unique inode index).requests = [] := hq.requests
  have hrs : (requested s unique inode index).responses = [] := hq.responses
  have hc : (requested s unique inode index).cacheTreeQueue = [] := hq.cacheTreeQueue
  have hanswer : ({ requested s unique inode index with requests := [blockRequest inode index] } : Client).step
      (.answer 0 0 data) =
      some { requested s unique inode index with
        responses := [⟨blockRequest inode index, 0, Client.receivedPackets s.nextId data⟩]
        nextId := s.nextId + data.length } := by
    simp only [Client.step, List.getElem?_cons_zero, Option.map_some, List.eraseIdx_cons_zero, hrs,
      List.nil_append, hr]
    rfl
  have hreceive : ({ requested s unique inode index with
        responses := [⟨blockRequest inode index, 0, Client.receivedPackets s.nextId data⟩]
        nextId := s.nextId + data.length } : Client).step (.receive 0) =
      some { requested s unique inode index with
        cacheTreeQueue := [.applyBlock ⟨blockRequest inode index, Client.receivedPackets s.nextId data⟩]
        nextId := s.nextId + data.length } := by
    simp only [Client.step, List.getElem?_cons_zero, Option.map_some, List.eraseIdx_cons_zero,
      Client.executeResponse, ne_eq, not_true_eq_false, if_false, Client.scheduleCacheTreeJob, hc, hrs,
      List.nil_append]
  refine .cons ⟨trivial, fun _ r hr => ?_⟩ hanswer (.cons ⟨trivial, trivial⟩ hreceive (.nil _))
  cases Option.some.inj hr
  rw [hidx]
  exact hd

lemma path_arrive {s t : Client} (hq : Quiet s) (unique : ℕ) {inode index : ℕ} (hi : inode ∈ A)
    (hp : (s.leafs inode).pendingJobs = []) (hlt : index * blockSize < (s.leafs inode).size)
    (hs : (s.leafs inode).getStatus index = .notFound) (hf : (s.leafs inode).findBlock index = none)
    (hn : ∀ j, index < j → (s.leafs inode).getStatus j ≠ .notFound ∨ (s.leafs inode).size ≤ j * blockSize)
    {data : List (List UInt8 × List UInt8)}
    (hd : IsCut (blockOf (files inode).content index) (Client.receivedPackets s.nextId data)) {picks : List ℕ}
    {w : Client} (hw : (pendingRead unique inode index).execute (arrived s inode index data) = .ok w)
    (ht : Client.evictLoop (shardForInode inode) picks w = some t) :
    Path Client.step (fun s a => ReadsIn A a ∧ Serves True files s a) s
      [.read (blockRead unique inode index), .cacheTree (shardForInode inode) false [], .sendRequest,
        .answer 0 0 data, .receive 0, .cacheTree (shardForInode inode) false picks] t := by
  refine (path_request hq unique hi hlt hs hf hn).append ((path_answer hq unique hd).append
    (.cons ⟨trivial, trivial⟩ ?_ (.nil _)))
  refine (@Client.step_cacheTree_cons _ (.applyBlock ⟨blockRequest inode index,
    Client.receivedPackets s.nextId data⟩) [] rfl _ rfl _ _).trans ?_
  have hc : (requested s unique inode index).cacheTreeQueue = [] := hq.cacheTreeQueue
  simp only [CacheTreeJob.execute, ← hc]
  exact (execute_applyBlock unique data hp hf picks hw).trans ht

def wokenRead (unique inode index : ℕ) (arrivedPin requestPin : List ℕ) : FuseReadFileJob :=
  ⟨blockRead unique inode index, inode, 1, index * blockSize, arrivedPin, requestPin⟩

def woken (s : Client) (unique inode index : ℕ) (data : List (List UInt8 × List UInt8))
    (arrivedPin requestPin : List ℕ) : Client :=
  ((arrived s inode index data).pinRanges inode (arrivedPin ++ requestPin)).scheduleCacheTreeJob
    (.fuseRead (wokenRead unique inode index arrivedPin requestPin))

lemma leafs_arrived (s : Client) (inode index : ℕ) (data : List (List UInt8 × List UInt8)) :
    (arrived s inode index data).leafs inode = arrivedLeaf s inode index data :=
  Function.update_self _ _ _

lemma execute_pendingRead {s : Client} {inode index : ℕ} {data : List (List UInt8 × List UInt8)}
    (hl : (arrivedLeaf s inode index data).HoldsBlocks (files inode).content)
    (hlt : index * blockSize < (files inode).content.length) (unique : ℕ) :
    ∃ arrivedPin requestPin, (pendingRead unique inode index).execute (arrived s inode index data) =
      .ok (woken s unique inode index data arrivedPin requestPin) := by
  have hindex : index * blockSize / blockSize * blockSize = index * blockSize := by
    rw [Nat.mul_div_cancel _ blockSize_pos]
  obtain ⟨view, total, hv, -⟩ := Leaf.getData_spec hl blockSize hlt
  refine ⟨view.pin, view.pin, ?_⟩
  rw [FuseReadFilePendingJob.execute]
  simp only [pendingRead, leafs_arrived, hindex, Leaf.pinData_of_getData hv]
  rfl

lemma execute_read_arrived {t : Client} {leaf : Leaf FuseReadFilePendingJob} {unique inode index : ℕ}
    {arrivedPin requestPin : List ℕ} (ht : t.leafs inode = leaf)
    (hl : leaf.HoldsBlocks (files inode).content) (hf : leaf.findBlock index ≠ none)
    (hlt : index * blockSize < (files inode).content.length)
    (hn : ∀ j, index < j → leaf.getStatus j ≠ .notFound ∨ leaf.size ≤ j * blockSize) :
    ∃ result, (wokenRead unique inode index arrivedPin requestPin).execute t false =
      t.reply (blockRead unique inode index) result := by
  subst ht
  have hindex : index * blockSize / blockSize = index := Nat.mul_div_cancel _ blockSize_pos
  have hsize : ¬ (t.leafs inode).size ≤ index * blockSize := by
    rw [hl.size]
    exact not_le.mpr hlt
  have htr : (wokenRead unique inode index arrivedPin requestPin).truncate (t.leafs inode).size =
      wokenRead unique inode index arrivedPin requestPin := by
    rw [FuseReadFileJob.truncate, if_neg]
    exact not_lt.mpr (not_le.mp hsize)
  obtain ⟨view, total, hv, hr⟩ := Leaf.getData_spec hl 1 hlt
  have hmin : min 1 ((files inode).content.length - index * blockSize) = 1 :=
    Nat.min_eq_left (Nat.sub_pos_of_lt hlt)
  rw [hmin] at hr
  have htotal : total = 1 := by
    by_contra hne
    have h0 : total = 0 := by
      have := hr.le
      omega
    have hnone := hr.missing (by omega)
    rw [h0, Nat.add_zero, hindex] at hnone
    exact hf hnone
  have hts : view.totalSize = 1 := by
    rw [hr.totalSize, htotal]
    rfl
  have hdata : view.hasData = true := by
    cases hsp : view.spans with
    | nil => simp [BufferView.totalSize, hsp] at hts
    | cons e es => simp [BufferView.hasData, hsp]
  refine ⟨.data ((t.leafs inode).readSpans view.spans), ?_⟩
  have hpre : t.triggerPrefetch inode index = t := Client.prefetchLoop_eq_self hn
  rw [FuseReadFileJob.execute]
  simp only [Bool.false_eq_true, if_false]
  rw [if_neg (by exact hsize)]
  simp only [wokenRead] at htr ⊢
  rw [htr]
  simp only [Leaf.pinData_of_getData hv, hdata, if_true, FuseReadFileJob.executeWithData, hts, lt_irrefl, if_false,
    hindex, hpre]

lemma unpin_pin (leaf : Leaf FuseReadFilePendingJob) (ids : List ℕ) : (leaf.pin ids).unpin ids = leaf := by
  simp [Leaf.pin, Leaf.unpin, Leaf.mapRanges, Range.unpin, Range.pin, Function.comp_def]

lemma step_woken {t : Client} {rest : List CacheTreeJob} {leaf : Leaf FuseReadFilePendingJob}
    {unique inode index : ℕ} {arrivedPin requestPin : List ℕ}
    (hq : t.cacheTreeQueue = .fuseRead (wokenRead unique inode index arrivedPin requestPin) :: rest)
    (ht : t.leafs inode = leaf.pin (arrivedPin ++ requestPin))
    (hl : leaf.HoldsBlocks (files inode).content) (hf : leaf.findBlock index ≠ none)
    (hlt : index * blockSize < (files inode).content.length)
    (hn : ∀ j, index < j → leaf.getStatus j ≠ .notFound ∨ leaf.size ≤ j * blockSize) :
    ∃ result, t.step (.cacheTree (shardForInode inode) false []) =
      some (({ t with cacheTreeQueue := rest } : Client).setLeaf inode leaf |>.reply
        (blockRead unique inode index) result) := by
  have hleaf : (({ t with cacheTreeQueue := rest } : Client).setLeaf inode leaf).leafs inode = leaf :=
    Function.update_self _ _ _
  obtain ⟨result, hr⟩ := execute_read_arrived hleaf hl hf hlt hn
  refine ⟨result, (Client.step_cacheTree_cons hq rfl).trans ?_⟩
  rw [← hr, CacheTreeJob.execute]
  have hunpin : ({ t with cacheTreeQueue := rest } : Client).unpinRanges inode
      (wokenRead unique inode index arrivedPin requestPin).pins =
      ({ t with cacheTreeQueue := rest } : Client).setLeaf inode leaf := by
    rw [Client.unpinRanges]
    simp only [FuseReadFileJob.pins, wokenRead, ht, unpin_pin]
  exact congrArg (fun u => some (FuseReadFileJob.execute u _ false)) hunpin

structure Fetchable (files : ℕ → RemoteFile) (s : Client) (inode index : ℕ)
    (data : List (List UInt8 × List UInt8)) : Prop where
  quiet : Quiet s
  pendingJobs : (s.leafs inode).pendingJobs = []
  holds : (s.leafs inode).HoldsBlocks (files inode).content
  lt : index * blockSize < (files inode).content.length
  status : (s.leafs inode).getStatus index = .notFound
  findBlock : (s.leafs inode).findBlock index = none
  next : ∀ j, index < j → (s.leafs inode).getStatus j ≠ .notFound ∨ (s.leafs inode).size ≤ j * blockSize
  data : IsCut (blockOf (files inode).content index) (Client.receivedPackets s.nextId data)

namespace Fetchable

variable {s : Client} {inode index : ℕ} {data : List (List UInt8 × List UInt8)}

lemma arrivedHolds (h : Fetchable files s inode index data) :
    (arrivedLeaf s inode index data).HoldsBlocks (files inode).content := by
  refine ⟨h.holds.size, fun e he => ?_⟩
  rcases List.mem_cons.mp he with rfl | he
  · refine ⟨_, rfl, rfl, ?_, h.data⟩
    exact readed_eq h.data
  · exact h.holds.whole e he

lemma lt_size (h : Fetchable files s inode index data) : index * blockSize < (s.leafs inode).size := by
  rw [h.holds.size]
  exact h.lt

lemma arrivedFindBlock (s : Client) (inode index : ℕ) (data : List (List UInt8 × List UInt8)) :
    (arrivedLeaf s inode index data).findBlock index ≠ none := by
  rw [arrivedLeaf, Leaf.findBlock_setStatus, Leaf.findBlock_insertBlock, if_pos rfl]
  exact Option.some_ne_none _

lemma arrivedNext (h : Fetchable files s inode index data) (j : ℕ) (hj : index < j) :
    (arrivedLeaf s inode index data).getStatus j ≠ .notFound ∨
      (arrivedLeaf s inode index data).size ≤ j * blockSize := by
  rcases h.next j hj with hn | hn
  · left
    rcases ((s.leafs inode).insertBlock index _).getStatus_setStatus_cases index .inCache j with hc | hc
    · exact fun hx => PieceStatus.noConfusion (hc.symm.trans hx)
    · exact fun hx => hn (hc.symm.trans hx)
  · exact Or.inr hn

theorem deliver (h : Fetchable files s inode index data) (hi : inode ∈ A) (unique : ℕ)
    (htotal : s.grandTotalCachedPackets + data.length ≤ maxCachePackets) :
    ∃ as result, Path Client.step (fun s a => ReadsIn A a ∧ Serves True files s a) s as
      ((arrived s inode index data).reply (blockRead unique inode index) result) := by
  obtain ⟨arrivedPin, requestPin, hw⟩ := execute_pendingRead h.arrivedHolds h.lt unique
  have hevict : Client.evictLoop (shardForInode inode) [] (woken s unique inode index data arrivedPin requestPin) =
      some (woken s unique inode index data arrivedPin requestPin) := by
    have hneeds : (woken s unique inode index data arrivedPin requestPin).needsEviction = false :=
      decide_eq_false (not_lt.mpr htotal)
    rw [Client.evictLoop, hneeds, if_neg (by simp)]
  have hqueue : (woken s unique inode index data arrivedPin requestPin).cacheTreeQueue =
      [.fuseRead (wokenRead unique inode index arrivedPin requestPin)] :=
    congrArg (· ++ _) h.quiet.cacheTreeQueue
  have hleaf : (woken s unique inode index data arrivedPin requestPin).leafs inode =
      (arrivedLeaf s inode index data).pin (arrivedPin ++ requestPin) := by
    change Function.update _ _ _ inode = _
    rw [Function.update_self, leafs_arrived]
  obtain ⟨result, hr⟩ := step_woken hqueue hleaf h.arrivedHolds (arrivedFindBlock s inode index data) h.lt
    h.arrivedNext
  have hend : ({ woken s unique inode index data arrivedPin requestPin with cacheTreeQueue := [] } : Client).setLeaf
      inode (arrivedLeaf s inode index data) = arrived s inode index data := by
    have hq : s.cacheTreeQueue = [] := h.quiet.cacheTreeQueue
    simp only [woken, Client.scheduleCacheTreeJob, Client.pinRanges, Client.setLeaf, arrived, Client.addCount,
      Function.update_idem, hq]
  rw [hend] at hr
  have hlast : Path Client.step (fun s a => ReadsIn A a ∧ Serves True files s a)
      (woken s unique inode index data arrivedPin requestPin) [.cacheTree (shardForInode inode) false []]
      ((arrived s inode index data).reply (blockRead unique inode index) result) :=
    .cons ⟨trivial, trivial⟩ hr (.nil _)
  exact ⟨_, result, (path_arrive h.quiet unique hi h.pendingJobs h.lt_size h.status h.findBlock h.next h.data
    hw hevict).append hlast⟩

def evictedJob (s : Client) (victim index : ℕ) (ranges : List Range) : WriteFileCacheJob :=
  ⟨victim, min blockSize ((s.leafs victim).size - index * blockSize), (ranges.head?.map Range.offset).getD 0,
    ranges.flatMap Range.packets⟩

theorem deliver_evict (h : Fetchable files s inode index data) (hi : inode ∈ A) (unique : ℕ) {victim first : ℕ}
    {ranges : List Range} (hne : victim ≠ inode) (hshard : shardForInode victim = shardForInode inode)
    (htable : victim ∈ s.cachePerShard.map Prod.fst)
    (hfirst : (s.leafs victim).getFirstBlockIndex = some first)
    (hranges : (s.leafs victim).findBlock first = some ranges) (hnil : ranges.flatMap Range.packets ≠ [])
    (htotal : maxCachePackets < s.grandTotalCachedPackets + data.length)
    (hrest : s.grandTotalCachedPackets + data.length - (ranges.flatMap Range.packets).length ≤ maxCachePackets) :
    ∃ as result, Path Client.step (fun s a => ReadsIn A a ∧ Serves True files s a) s as
      ((evictedJob s victim first ranges).execute
        (((arrived s inode index data).evict victim first (ranges.flatMap Range.packets).length).reply
          (blockRead unique inode index) result)) := by
  obtain ⟨arrivedPin, requestPin, hw⟩ := execute_pendingRead h.arrivedHolds h.lt unique
  set w := woken s unique inode index data arrivedPin requestPin with hwoken
  have hvictim : w.leafs victim = s.leafs victim := by
    rw [hwoken]
    simp only [woken, Client.scheduleCacheTreeJob, Client.pinRanges, arrived, Client.addCount,
      Client.leafs_setLeaf, if_neg hne]
  have hfree : w.getFreeData victim = some (evictedJob s victim first ranges,
      w.evict victim first (ranges.flatMap Range.packets).length) := by
    rw [Client.getFreeData, hvictim, hfirst, Option.map_some]
    simp only [Leaf.extractBlock, hranges, Client.evict, hvictim]
    rfl
  set v := (w.evict victim first (ranges.flatMap Range.packets).length).scheduleCacheTreeJob
    (.writeFile (evictedJob s victim first ranges)) with hv
  have hevict : Client.evictLoop (shardForInode inode) [victim] w = some v := by
    have hneeds : w.needsEviction = true := decide_eq_true htotal
    have hmem : victim ∈ w.shardInodes (shardForInode inode) := by
      refine List.mem_filter.mpr ⟨?_, decide_eq_true hshard⟩
      exact Client.mem_addCount.mpr (Or.inl htable)
    have hneeds' : v.needsEviction = false := decide_eq_false (not_lt.mpr hrest)
    rw [Client.evictLoop, if_pos ⟨hneeds, hmem⟩, hfree]
    simp only [evictedJob, hnil, if_false]
    rw [Client.evictLoop, ← evictedJob, ← hv, hneeds', if_neg (by simp)]
  have hqueue : v.cacheTreeQueue = [.fuseRead (wokenRead unique inode index arrivedPin requestPin),
      .writeFile (evictedJob s victim first ranges)] :=
    congrArg (· ++ _ ++ _) h.quiet.cacheTreeQueue
  have hleaf : v.leafs inode = (arrivedLeaf s inode index data).pin (arrivedPin ++ requestPin) := by
    rw [hv, hwoken]
    simp only [Client.scheduleCacheTreeJob, Client.evict, Client.removeCount, Client.leafs_setLeaf,
      if_neg hne.symm, woken, Client.pinRanges, leafs_arrived, if_pos]
  obtain ⟨result, hr⟩ := step_woken hqueue hleaf h.arrivedHolds (arrivedFindBlock s inode index data) h.lt
    h.arrivedNext
  set u := ((arrived s inode index data).evict victim first (ranges.flatMap Range.packets).length).reply
    (blockRead unique inode index) result with hu
  have hread : v.step (.cacheTree (shardForInode inode) false []) =
      some { u with cacheTreeQueue := [.writeFile (evictedJob s victim first ranges)] } := by
    rw [hr, hu, hv, hwoken]
    simp only [Client.scheduleCacheTreeJob, Client.evict, Client.removeCount, Client.setLeaf, woken,
      Client.pinRanges, Client.reply, arrived, Client.addCount, Function.update_idem,
      Function.update_of_ne hne]
    rw [Function.update_comm hne, Function.update_idem]
  have hwrite : ({ u with cacheTreeQueue := [.writeFile (evictedJob s victim first ranges)] } : Client).step
      (.cacheTree (shardForInode inode) false []) = some ((evictedJob s victim first ranges).execute u) := by
    have hq : ({ u with cacheTreeQueue := [] } : Client) = u := by
      have hs : s.cacheTreeQueue = [] := h.quiet.cacheTreeQueue
      rw [← hs]
      rfl
    refine (@Client.step_cacheTree_cons _ (.writeFile (evictedJob s victim first ranges)) [] rfl _ hshard _ _).trans ?_
    rw [CacheTreeJob.execute]
    exact congrArg (fun x => some (WriteFileCacheJob.execute x (evictedJob s victim first ranges))) hq
  have hlast : Path Client.step (fun s a => ReadsIn A a ∧ Serves True files s a) v
      [.cacheTree (shardForInode inode) false [], .cacheTree (shardForInode inode) false []]
      ((evictedJob s victim first ranges).execute u) :=
    .cons ⟨trivial, trivial⟩ hread (.cons ⟨trivial, trivial⟩ hwrite (.nil _))
  exact ⟨_, result, (path_arrive h.quiet unique hi h.pendingJobs h.lt_size h.status h.findBlock h.next h.data
    hw hevict).append hlast⟩

end Fetchable

lemma leafs_evicted (s : Client) {inode victim : ℕ} (index first n : ℕ) (data : List (List UInt8 × List UInt8))
    (ranges : List Range) (request : FuseRequest) (result : ReadResult) (hne : victim ≠ inode) (i : ℕ) :
    ((Fetchable.evictedJob s victim first ranges).execute
      (((arrived s inode index data).evict victim first n).reply request result)).leafs i =
      if i = victim then (((s.leafs victim).eraseBlock first).setStatus first .notFound).setStatus
        ((ranges.head?.map Range.offset).getD 0 / blockSize) .onDisk
      else if i = inode then arrivedLeaf s inode index data else s.leafs i := by
  simp only [WriteFileCacheJob.execute, Client.getFile, Client.leafs_setLeaf, Fetchable.evictedJob, Client.reply,
    Client.evict, Client.removeCount, arrived, Client.addCount, if_neg hne, if_true]
  by_cases hi : i = victim
  · rw [if_pos hi, if_pos hi]
  · rw [if_neg hi, if_neg hi, if_neg hi]

lemma disk_evicted (s : Client) {inode victim : ℕ} (index first n : ℕ) (data : List (List UInt8 × List UInt8))
    (ranges : List Range) (request : FuseRequest) (result : ReadResult) (hne : victim ≠ inode) :
    ((Fetchable.evictedJob s victim first ranges).execute
      (((arrived s inode index data).evict victim first n).reply request result)).disk (s.leafs victim).name =
      writeAt (s.disk (s.leafs victim).name) ((ranges.head?.map Range.offset).getD 0)
        (writtenBytes (ranges.flatMap Range.packets) (min blockSize ((s.leafs victim).size - first * blockSize))) := by
  have hname : ((((arrived s inode index data).evict victim first n).reply request result).leafs victim).getCachePath =
      (s.leafs victim).name := by
    simp only [Client.reply, Client.evict, Client.removeCount, Client.leafs_setLeaf, if_true, arrived,
      Client.addCount, if_neg hne]
    rfl
  rw [WriteFileCacheJob.execute]
  simp only [Fetchable.evictedJob, hname, Function.update_self]
  rfl

end FastTransport.FileCache
