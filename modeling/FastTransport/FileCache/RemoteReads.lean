import FastTransport.FileCache.DiskInvariant
import FastTransport.FileCache.Attended
import FastTransport.TaskQueue.RemoteRead

/-! The file cache behind a connection: the answers it takes are the responses that were heard, and every reply to a
read carries the bytes of the remote file. -/

namespace FastTransport.FileCache

open FileSystem Protocol TaskQueue Lib.Bytes Lib.Runs

/-- The arguments of a request, as they stand in its message; a prefetch has no request of its own. -/
structure Wire (r : ReadRequest) (x : ReadFileRequest) : Prop where
  request : x.request = 0 ↔ r.request = none
  inode : x.inode = UInt64.ofNat r.inode
  size : x.size = UInt64.ofNat r.size
  offset : x.offset = UInt64.ofNat r.offset
  skipped : x.skipped = UInt64.ofNat r.skipped

def Hearing (heard : List ReadFileResponse) (s : Client) : Action → Prop
  | .read request => request.size ≤ blockSize
  | .answer i error data => ∀ r, s.requests[i]? = some r → ∃ x ∈ heard, Wire r x.header ∧ x.error = error ∧
      x.data.map Packet.payload = data.map Prod.fst
  | _ => True

/-- A read through a handle that is sent with an inode gives what the file of the inode holds there. -/
def Opened (files : ℕ → RemoteFile) (preadv : UInt64 → UInt64 → Option (List UInt8) → Prop)
    (x : ReadFileRequest × UInt64) : Prop :=
  ∀ bytes, preadv x.2 (x.1.offset + x.1.skipped) (some bytes) →
    bytes = slice (files x.1.inode.toNat).content (x.1.offset + x.1.skipped).toNat (1000 * maxPayloadSize)

lemma payload_receivedPackets (nextId : ℕ) (data : List (List UInt8 × List UInt8)) :
    (Client.receivedPackets nextId data).map CachedPacket.payload = data.map Prod.fst := by
  rw [Client.receivedPackets, List.map_map]
  refine List.ext_getElem (by simp) fun i h₁ h₂ => ?_
  simp

section

variable {files : ℕ → RemoteFile} {A : Set ℕ} {preadv : UInt64 → UInt64 → Option (List UInt8) → Prop}
  {asked : List (ReadFileRequest × UInt64)} {heard : List ReadFileResponse}

lemma isCut_of_answered {x : ReadFileRequest × UInt64} {y : ReadFileResponse} (h : Answered preadv x y)
    (hopened : Opened files preadv x) {r : ReadRequest} (hr : r.IsBlock) (hwire : Wire r y.header)
    (hinode : r.inode < 2 ^ 64) (hoffset : r.offset < 2 ^ 64) (herror : y.error = 0) {packets : List CachedPacket}
    (hpackets : y.data.map Packet.payload = packets.map CachedPacket.payload) :
    IsCut (blockOf (files r.inode).content r.index) packets := by
  obtain ⟨bytes, hread, ⟨-, he, -⟩ | ⟨hne, -, hcut⟩⟩ := h.data
  · exact absurd herror he
  · have hheader := h.header
    obtain ⟨bytes, rfl⟩ : ∃ b, bytes = some b := by
      cases bytes with
      | none => exact absurd rfl hne
      | some b => exact ⟨b, rfl⟩
    have hinode' : x.1.inode.toNat = r.inode := by
      rw [← hheader, hwire.inode, UInt64.toNat_ofNat_of_lt' hinode]
    have hskipped : y.header.skipped = 0 := hwire.skipped.trans (congrArg UInt64.ofNat hr.skipped)
    have hoffset' : (x.1.offset + x.1.skipped).toNat = r.offset := by
      rw [← hheader, hskipped, UInt64.add_zero, hwire.offset, UInt64.toNat_ofNat_of_lt' hoffset]
    have hbytes := hopened bytes hread
    rw [hinode', hoffset', hr.offset] at hbytes
    rw [hpackets, Option.getD_some, hbytes] at hcut
    exact isCut_of_cutInto hcut

lemma serves_of_hearing {s : Client} (hb : BlockInv A files s) {a : Action} (ha : Hearing heard s a)
    (hsize : ∀ i ∈ A, i < 2 ^ 64 ∧ (files i).content.length < 2 ^ 64)
    (hheard : ∀ y ∈ heard, ∃ x ∈ asked, Answered preadv x y) (hopened : ∀ x ∈ asked, Opened files preadv x) :
    Serves True files s a := by
  cases a with
  | read request => exact fun _ => ha
  | answer i error data =>
    intro herror r hr
    obtain ⟨y, hy, hwire, rfl, hdata⟩ := ha r hr
    obtain ⟨x, hx, hanswered⟩ := hheard y hy
    have hmem : r ∈ s.outstanding := by
      have hrequests := List.mem_of_getElem? hr
      simp only [Client.outstanding, List.mem_append]
      exact Or.inl (Or.inl (Or.inr hrequests))
    obtain ⟨hA, hblock, hlt, -⟩ := hb.requests r hmem
    refine isCut_of_answered hanswered (hopened x hx) hblock hwire (hsize _ hA).1 (hlt.trans (hsize _ hA).2) herror ?_
    rw [payload_receivedPackets, hdata]
  | _ => trivial

end

section

variable {n : ℕ} {key : Bool → ConnectionKey} {now threadCount : Bool → ℕ} {free : Bool → List Packet}
  {as : List (Bool × Station.Action)} {d : Duplex}

/-- Over a network that loses, repeats and reorders, and with the blocks cached, evicted and read back in any order,
a reply to a read carries what the remote file holds. -/
theorem remote_reply_eq_wanted (h : Path Duplex.step Duplex.Owns (Duplex.create key now threadCount free) as d)
    (hlt : ∀ i, (d.station i).sent.length < seqLimit) (client : Bool)
    {requests : List (List Packet × Sent n)} (hrequests : ∀ job ∈ requests, Sendable job.1 job.2)
    (hsent : (sends client as).map some = requests.map fun job => written job.1 job.2)
    {asked heard : List Message} (hasked : Hears d (!client) asked) (hheard : Hears d client heard)
    {preadv : UInt64 → UInt64 → Option (List UInt8) → Prop} {jobs : List (ServerJob n)}
    (hjobs : ∀ job ∈ jobs, job.Ok preadv)
    (hscheduled : (jobs.filterMap ServerJob.asked?).Subperm (asked.filterMap (readRequest n)))
    (hserved : (sends (!client) as).map some = jobs.map ServerJob.packets)
    {files : ℕ → RemoteFile} {A : Set ℕ} (hinj : Set.InjOn (fun i => (files i).name) A)
    (hsize : ∀ i ∈ A, i < 2 ^ 64 ∧ (files i).content.length < 2 ^ 64)
    (hopened : ∀ x ∈ readRequests requests, Opened files preadv x) {bs : List Action} {c : Client}
    (hc : Path Client.step (fun s a => ReadsIn A a ∧ Hearing (heard.filterMap (readResponse n)) s a)
      (Client.create files) bs c)
    {r : Reply} (hr : r ∈ c.replies) {bytes : Option (List UInt8)} (hb : r.result = .data bytes) :
    bytes = some (wanted files r.request) := by
  obtain ⟨l, hanswered, -⟩ := (exists_answered h hlt client hjobs hserved).2 heard hheard
  have hresponses : ∀ y ∈ heard.filterMap (readResponse n), ∃ x ∈ readRequests requests, Answered preadv x y := by
    intro y hy
    obtain ⟨x, hx, hxy⟩ := Lib.Lists.exists_of_forall₂ hanswered hy
    have hsub := (((List.take_sublist l jobs).filterMap _).subperm.trans hscheduled).trans
      (Hears.subperm h hlt client hrequests hsent hasked).1
    exact ⟨x, hsub.subset hx, hxy⟩
  have hinv : ClientInv True A files c := by
    refine hc.invariant (fun u a v hu ha hv => ?_)
      ⟨BlockInv.create A files, MemoryInv.create _ files, PinInv.create files, DiskInv.create _ A files⟩
    have hserves := serves_of_hearing hu.block ha.2 hsize hresponses hopened
    exact ⟨hu.block.step ha.1 hv, hu.memory.step hu.block hserves hv, hu.pin.step hu.block hv,
      hu.disk.step hu.block hu.memory hu.pin hinj hv⟩
  exact hinv.disk.replies trivial r hr bytes hb

end

def remoteRun : List Action :=
  [.read sampleRead, .cacheTree 0 false [], .sendRequest, .answer 0 0 [([7, 8, 9], [])], .receive 0,
    .cacheTree 0 false [], .cacheTree 0 false []]

theorem remote_reply_eq_wanted_threeBytes : ∃ c, run Client.step (Client.create fun _ => sampleFile) remoteRun = some c ∧
    ∃ bytes, (⟨sampleRead, .data bytes⟩ : Reply) ∈ c.replies ∧ bytes = some [8, 9] := by
  obtain ⟨d, hd, hserver, hclient, hlt⟩ := exists_readSession
  obtain ⟨asked, hasked⟩ := exists_hears hd hlt false readJobs_sendable sends_readSession
  obtain ⟨heard, hheard⟩ := (exists_answered hd hlt false serverJobs_ok serves_readSession).1
  obtain ⟨x, hx, hheader, herror, hdata⟩ := heard_readSession hd (hclient.1.trans hclient.2.symm) hlt hheard
  have hscheduled : asked.filterMap (readRequest 40) = serverJobs.filterMap ServerJob.asked? :=
    (Hears.subperm hd hlt false readJobs_sendable sends_readSession hasked).2 (hserver.1.trans hserver.2.symm)
  have hpath : ∃ c, run Client.step (Client.create fun _ => sampleFile) remoteRun = some c ∧
      (∃ bytes, (⟨sampleRead, .data bytes⟩ : Reply) ∈ c.replies) ∧
      Path Client.step (fun s a => ReadsIn {8} a ∧ Hearing (heard.filterMap (readResponse 40)) s a)
        (Client.create fun _ => sampleFile) remoteRun c := by
    have hread : sampleRead.size ≤ blockSize := by decide
    refine ⟨_, rfl, ⟨_, List.mem_singleton.mpr rfl⟩, ?_⟩
    refine .cons ⟨rfl, hread⟩ rfl (.cons ⟨trivial, trivial⟩ rfl (.cons ⟨trivial, trivial⟩ rfl
      (.cons ⟨trivial, fun r hr => ⟨x, by rw [hx]; exact List.mem_cons_self, ?_, herror, hdata⟩⟩ rfl
        (.cons ⟨trivial, trivial⟩ rfl (.cons ⟨trivial, trivial⟩ rfl (.cons ⟨trivial, trivial⟩ rfl (.nil _)))))))
    cases hr
    rw [hheader]
    exact ⟨⟨fun _ => rfl, fun _ => rfl⟩, rfl, rfl, rfl, rfl⟩
  obtain ⟨c, hrun, ⟨bytes, hm⟩, hpath⟩ := hpath
  have hopened : ∀ x ∈ readRequests readJobs, Opened (fun _ => sampleFile) readThreeBytes x := fun x _ bytes hbytes =>
    Option.some.inj hbytes.2
  exact ⟨c, hrun, bytes, hm, remote_reply_eq_wanted hd hlt false readJobs_sendable sends_readSession hasked hheard
    serverJobs_ok (hscheduled ▸ List.Subperm.refl _) serves_readSession (Set.injOn_singleton _ _)
    (fun _ _ => ⟨by simp_all, by decide⟩) hopened hpath hm rfl⟩

end FastTransport.FileCache
