import FastTransport.Lib.Chunks
import FastTransport.Protocol.Socket

/-! `Socket::SendMsg`, and how its packets come through the kernels of both ends to `Socket::RecvMsg`. -/

namespace FastTransport.Protocol.Socket

open Containers Lib.Bytes Lib.Chunks

/-- A packet as the socket calls see it: the address in it and its whole buffer. -/
structure Datagram where
  addr : ℕ
  bytes : List UInt8
  deriving DecidableEq, Repr

structure SendMessage where
  addr : ℕ
  iov : List (List UInt8)
  deriving DecidableEq, Repr

def dstAddress (addr index : ℕ) : ℕ := addr / portLimit * portLimit + (addr + index) % portLimit

def chunkSize : ℕ := min udpMaxSegments (65000 / gsoSize)

/-- One `SendMsg`: `source` is the address of the sending end, `addresses` the order in which `packetsByAddress` lists
its keys, `results` what the calls of `sendmmsg` answer. -/
structure SendCall where
  source : ℕ
  index : ℕ
  packets : List Datagram
  addresses : List ℕ
  results : List (Option ℕ)

def sendmmsgLoop : List (Option ℕ) → List SendMessage → Option (List SendMessage)
  | _, [] => some []
  | some result :: results, messages => (sendmmsgLoop results (messages.drop result)).map (messages.take result ++ ·)
  | _, _ => none

namespace SendCall

def headers (c : SendCall) : List SendMessage :=
  c.addresses.flatMap fun address =>
    (chunks chunkSize ((c.packets.filter fun p => dstAddress p.addr c.index = address).map Datagram.bytes)).map
      (SendMessage.mk address)

def sendMsg (c : SendCall) : Option (List SendMessage) := sendmmsgLoop c.results c.headers

structure Ok (c : SendCall) : Prop where
  sizes : ∀ p ∈ c.packets, p.bytes.length = gsoSize
  addresses : c.addresses.Perm (c.packets.map fun p => dstAddress p.addr c.index).dedup

end SendCall

/-- The `std::uint32_t` in which the lengths are summed up. -/
def msgLength (messages : List SendMessage) : ℕ := (messages.map fun m => m.iov.flatten.length).sum % 2 ^ 32

/-- `UDP_SEGMENT`: the kernel cuts a message into datagrams of `GsoSize`. -/
def SendMessage.datagrams (m : SendMessage) : List Datagram := (chunks gsoSize m.iov.flatten).map (Datagram.mk m.addr)

/-- A message of `recvmmsg`: with `UDP_GRO` the kernel joins datagrams of one sender. -/
structure Delivery where
  addr : ℕ
  datagrams : List (List UInt8)

namespace Delivery

def message (d : Delivery) : RecvMessage := ⟨d.datagrams.flatten.length, false, d.addr⟩

def arrivals (message : Delivery → RecvMessage) (index : ℕ) (d : Delivery) : List Datagram :=
  d.datagrams.map (Datagram.mk (srcAddress (message d) index))

/-- What comes was sent to this socket by a socket of the same number; it may be lost, repeated and reordered. -/
structure Of (datagrams : SendMessage → List Datagram) (calls : List SendCall) (dst index : ℕ) (d : Delivery) :
    Prop where
  count : d.datagrams.length ≤ udpMaxSegments
  sent : ∃ source, d.addr = dstAddress source index ∧ ∀ bytes ∈ d.datagrams, ∃ c ∈ calls,
    c.source = source ∧ c.index = index ∧ ∃ messages, c.sendMsg = some messages ∧
      ⟨dstAddress dst index, bytes⟩ ∈ messages.flatMap datagrams

end Delivery

section

variable {B : Type*} [DecidableEq B]

def scatter (content : B → List UInt8) : List B → List UInt8 → B → List UInt8
  | [], _ => content
  | b :: group, bytes =>
    scatter (Function.update content b (overwrite (content b) 0 (bytes.take (content b).length))) group
      (bytes.drop (content b).length)

def scatterAll (content : B → List UInt8) : List (List B) → List Delivery → B → List UInt8
  | group :: iov, d :: deliveries => scatterAll (scatter content group d.datagrams.flatten) iov deliveries
  | _, _ => content

/-- What the kernels of both ends do: how a sent message is cut into datagrams, what `recvmmsg` says of a message that it
has joined, and how the buffers of a call are filled. -/
structure Kernel (B : Type*) where
  datagrams : SendMessage → List Datagram
  message : Delivery → RecvMessage
  scattered : (B → List UInt8) → List (List B) → List Delivery → B → List UInt8

structure Kernel.Documented (kernel : Kernel B) : Prop where
  segmentation : ∀ m, kernel.datagrams m = m.datagrams
  coalescing : ∀ d, kernel.message d = d.message
  scattering : ∀ content iov deliveries, kernel.scattered content iov deliveries = scatterAll content iov deliveries

def Reading.received (r : Reading B) (content : B → List UInt8) : List Datagram :=
  r.packets.contents.map fun b => ⟨r.addr b, content b⟩

end

lemma srcAddress_dstAddress {message : RecvMessage} {addr index : ℕ} (h : message.addr = dstAddress addr index) :
    srcAddress message index = addr := by
  rw [srcAddress, h]
  simp only [dstAddress, portLimit]
  omega

lemma dstAddress_inj {a b index : ℕ} (h : dstAddress a index = dstAddress b index) : a = b := by
  simp only [dstAddress, portLimit] at h
  omega

section Sending

lemma sendmmsgLoop_eq {results : List (Option ℕ)} {messages sent : List SendMessage}
    (h : sendmmsgLoop results messages = some sent) : sent = messages := by
  induction results generalizing messages sent with
  | nil =>
    cases messages with
    | nil => exact (Option.some.inj h).symm
    | cons m messages => cases h
  | cons result results ih =>
    cases messages with
    | nil => exact (Option.some.inj h).symm
    | cons m messages =>
      cases result with
      | none => cases h
      | some result =>
        obtain ⟨rest, hrest, rfl⟩ := Option.map_eq_some_iff.mp h
        rw [ih hrest, List.take_append_drop]

def SendCall.sorted (c : SendCall) : List Datagram := byKey (fun p => dstAddress p.addr c.index) c.addresses c.packets

def SendCall.toDatagram (c : SendCall) (p : Datagram) : Datagram := ⟨dstAddress p.addr c.index, p.bytes⟩

variable {c : SendCall}

lemma datagrams_of_sizes {m : SendMessage} (h : ∀ bytes ∈ m.iov, bytes.length = gsoSize) :
    m.datagrams = m.iov.map (Datagram.mk m.addr) := by
  rw [SendMessage.datagrams, chunks_flatten (by decide) h]

namespace SendCall

lemma Ok.listed (hc : c.Ok) : c.addresses.Nodup ∧ ∀ p ∈ c.packets, dstAddress p.addr c.index ∈ c.addresses :=
  ⟨hc.addresses.nodup_iff.mpr (List.nodup_dedup _), fun _ hp =>
    hc.addresses.mem_iff.mpr (List.mem_dedup.mpr (List.mem_map_of_mem hp))⟩

lemma Ok.iov_sizes (hc : c.Ok) {m : SendMessage} (hm : m ∈ c.headers) : ∀ bytes ∈ m.iov, bytes.length = gsoSize := by
  obtain ⟨address, -, hm⟩ := List.mem_flatMap.mp hm
  obtain ⟨iov, hiov, rfl⟩ := List.mem_map.mp hm
  intro bytes hbytes
  obtain ⟨p, hp, rfl⟩ := List.mem_map.mp (mem_of_mem_chunks (by decide) hiov hbytes)
  exact hc.sizes p (List.mem_filter.mp hp).1

lemma Ok.datagrams_headers (hc : c.Ok) : c.headers.flatMap SendMessage.datagrams = c.sorted.map c.toDatagram := by
  have hcut : c.headers.flatMap SendMessage.datagrams = c.headers.flatMap fun m => m.iov.map (Datagram.mk m.addr) :=
    List.flatMap_congr fun m hm => datagrams_of_sizes (hc.iov_sizes hm)
  rw [hcut, headers, List.flatMap_assoc, sorted, byKey, List.map_flatMap]
  refine List.flatMap_congr fun address _ => ?_
  rw [List.flatMap_map]
  dsimp only
  rw [← List.map_flatMap, List.flatMap_id', flatten_chunks (by decide), List.map_map]
  refine List.map_congr_left fun p hp => ?_
  rw [Function.comp_apply, toDatagram, of_decide_eq_true (List.mem_filter.mp hp).2]

lemma Ok.datagrams_perm (hc : c.Ok) :
    (c.headers.flatMap SendMessage.datagrams).Perm (c.packets.map c.toDatagram) := by
  rw [hc.datagrams_headers]
  exact (byKey_perm hc.listed.1 hc.listed.2).map _

lemma Ok.filter_datagrams (hc : c.Ok) (address : ℕ) :
    (c.headers.flatMap SendMessage.datagrams).filter (fun x => x.addr = address) =
      (c.packets.map c.toDatagram).filter fun x => x.addr = address := by
  rw [hc.datagrams_headers, List.filter_map, List.filter_map]
  exact congrArg (List.map c.toDatagram) (filter_byKey hc.listed.1 hc.listed.2 address)

lemma Ok.msgLength_eq (hc : c.Ok) : msgLength c.headers = c.packets.length * gsoSize % 2 ^ 32 := by
  have hcut : (c.headers.flatMap SendMessage.datagrams).map Datagram.bytes = c.headers.flatMap SendMessage.iov := by
    rw [List.map_flatMap]
    refine List.flatMap_congr fun m hm => ?_
    rw [datagrams_of_sizes (hc.iov_sizes hm), List.map_map]
    exact List.map_id m.iov
  have hbytes : (c.headers.map fun m => m.iov.flatten.length).sum =
      (c.headers.flatMap SendMessage.iov).flatten.length := by
    rw [List.flatMap_def, List.flatten_flatten, List.length_flatten, List.map_map, List.map_map]
    rfl
  have hsent := hc.datagrams_perm.map Datagram.bytes
  rw [hcut] at hsent
  rw [msgLength, hbytes, length_flatten, hsent.length_eq, List.length_map, List.length_map]
  intro bytes hmem
  obtain ⟨p, hp, rfl⟩ := List.mem_map.mp (List.map_map ▸ hsent.mem_iff.mp hmem)
  exact hc.sizes p hp

end SendCall

end Sending

section Receiving

lemma Fits.packetNumber_le {message : RecvMessage} (h : Fits message) : packetNumber message.len ≤ udpMaxSegments := by
  have hlen := h.len
  simp only [packetNumber, udpMaxSegments, gsoSize] at hlen ⊢
  omega

variable {B : Type*}

lemma group_length {n : ℕ} {rest : List B} (h : udpMaxSegments * (n + 1) ≤ rest.length) :
    (rest.take udpMaxSegments).length = udpMaxSegments ∧ udpMaxSegments * n ≤ (rest.drop udpMaxSegments).length := by
  rw [Nat.mul_succ] at h
  rw [List.length_take, List.length_drop]
  omega

lemma filledBuffers_cons {n : ℕ} {rest : List B} (message : RecvMessage) (messages : List RecvMessage) :
    filledBuffers (groups (n + 1) rest) (message :: messages) =
      (rest.take udpMaxSegments).take (packetNumber message.len) ++
        filledBuffers (groups n (rest.drop udpMaxSegments)) messages := by
  rw [← filled_eq_take, filledBuffers, groups, List.zip_cons_cons, List.flatMap_cons]
  rfl

variable [DecidableEq B]

lemma scatter_of_notMem {group : List B} {b : B} (hb : b ∉ group) (content : B → List UInt8) (bytes : List UInt8) :
    scatter content group bytes b = content b := by
  induction group generalizing content bytes with
  | nil => rfl
  | cons b' group ih =>
    rw [scatter, ih (List.not_mem_of_not_mem_cons hb), Function.update_of_ne (List.ne_of_not_mem_cons hb)]

lemma overwrite_full {xs ys : List UInt8} (h : ys.length = xs.length) : overwrite xs 0 ys = ys := by
  rw [overwrite, List.take_zero, List.nil_append, Nat.zero_add, h, List.drop_length, List.append_nil]

lemma scatter_take {content : B → List UInt8} {group : List B} (hgroup : group.Nodup)
    (hsizes : ∀ b ∈ group, (content b).length = gsoSize) {datagrams : List (List UInt8)}
    (hcount : datagrams.length ≤ group.length) (hbytes : ∀ bytes ∈ datagrams, bytes.length = gsoSize) :
    (group.take datagrams.length).map (scatter content group datagrams.flatten) = datagrams := by
  induction group generalizing content datagrams with
  | nil => rw [List.length_eq_zero_iff.mp (Nat.le_zero.mp hcount)]; rfl
  | cons b group ih =>
    obtain ⟨hb, hgroup⟩ := List.nodup_cons.mp hgroup
    obtain ⟨hsize, hsizes⟩ := List.forall_mem_cons.mp hsizes
    cases datagrams with
    | nil => rfl
    | cons bytes datagrams =>
      obtain ⟨hlength, hbytes⟩ := List.forall_mem_cons.mp hbytes
      have hsame : bytes.length = (content b).length := hlength.trans hsize.symm
      rw [List.flatten_cons, scatter, List.take_left' hsame, List.drop_left' hsame, overwrite_full hsame,
        List.length_cons, List.take_succ_cons, List.map_cons, scatter_of_notMem hb, Function.update_self]
      congr 1
      refine ih hgroup (fun b' hb' => ?_) (Nat.le_of_succ_le_succ hcount) hbytes
      rw [Function.update_of_ne fun h : b' = b => hb (h ▸ hb'), hsizes b' hb']

lemma scatterAll_of_notMem {n : ℕ} {rest : List B} {b : B} (hb : b ∉ rest) (content : B → List UInt8)
    (deliveries : List Delivery) : scatterAll content (groups n rest) deliveries b = content b := by
  induction n generalizing rest content deliveries with
  | zero => rfl
  | succ n ih =>
    cases deliveries with
    | nil => rfl
    | cons d deliveries =>
      rw [groups, scatterAll, ih fun h => hb (List.mem_of_mem_drop h),
        scatter_of_notMem fun h => hb (List.mem_of_mem_take h)]

structure Delivery.Whole (d : Delivery) : Prop where
  count : d.datagrams.length ≤ udpMaxSegments
  sizes : ∀ bytes ∈ d.datagrams, bytes.length = gsoSize

lemma Delivery.Whole.len_eq {d : Delivery} (hd : d.Whole) : d.message.len = d.datagrams.length * gsoSize :=
  length_flatten hd.sizes

lemma Delivery.Whole.number {d : Delivery} (hd : d.Whole) : packetNumber d.message.len = d.datagrams.length := by
  rw [packetNumber, hd.len_eq]
  simp only [gsoSize]
  omega

lemma Delivery.Whole.fits {d : Delivery} (hd : d.Whole) : Fits d.message :=
  ⟨rfl, hd.len_eq.trans_le (Nat.mul_le_mul_right _ hd.count)⟩

lemma content_filledBuffers {content : B → List UInt8} {n : ℕ} {rest : List B} (hrest : rest.Nodup)
    (hsizes : ∀ b ∈ rest, (content b).length = gsoSize) {deliveries : List Delivery}
    (hwhole : ∀ d ∈ deliveries, d.Whole) (hcount : deliveries.length ≤ n)
    (hroom : udpMaxSegments * n ≤ rest.length) :
    (filledBuffers (groups n rest) (deliveries.map Delivery.message)).map
      (scatterAll content (groups n rest) deliveries) = deliveries.flatMap Delivery.datagrams := by
  induction deliveries generalizing content n rest with
  | nil => rw [List.map_nil, filledBuffers, List.zip_nil_right]; rfl
  | cons d deliveries ih =>
    obtain ⟨n, rfl⟩ := Nat.exists_eq_add_of_lt (Nat.lt_of_lt_of_le (Nat.succ_pos _) hcount)
    rw [Nat.zero_add] at hcount hroom ⊢
    obtain ⟨hd, hwhole⟩ := List.forall_mem_cons.mp hwhole
    have hdisjoint : ∀ b ∈ rest.take udpMaxSegments, b ∉ rest.drop udpMaxSegments := fun b hb hb' => by
      rw [← List.take_append_drop udpMaxSegments rest] at hrest
      exact List.disjoint_of_nodup_append hrest hb hb'
    obtain ⟨hgroup, hroom⟩ := group_length hroom
    rw [List.map_cons, filledBuffers_cons, hd.number, List.map_append, List.flatMap_cons]
    congr 1
    · have hkept : ∀ b ∈ (rest.take udpMaxSegments).take d.datagrams.length,
          scatterAll content (groups (n + 1) rest) (d :: deliveries) b =
            scatter content (rest.take udpMaxSegments) d.datagrams.flatten b := fun b hb => by
        rw [groups, scatterAll, scatterAll_of_notMem (hdisjoint b (List.mem_of_mem_take hb))]
      rw [List.map_congr_left hkept]
      exact scatter_take (hrest.sublist (List.take_sublist _ _))
        (fun b hb => hsizes b (List.mem_of_mem_take hb)) (hd.count.trans_eq hgroup.symm) hd.sizes
    · rw [groups]
      refine ih (hrest.sublist (List.drop_sublist _ _)) (fun b hb => ?_) hwhole (Nat.le_of_succ_le_succ hcount) hroom
      rw [scatter_of_notMem fun h => hdisjoint b h hb, hsizes b (List.mem_of_mem_drop hb)]

section Addresses

variable {r u : Reading B} {kept rest freed : List B} {message : RecvMessage}

lemma keepOne_addr {p : B} (h : At r kept (p :: rest) freed) {address : ℕ} (hu : Socket.keepOne address r = some u) :
    u.addr = Function.update r.addr p address := by
  rw [Socket.keepOne, h.deref, Option.map_some] at hu
  cases hu
  rfl

lemma keep_addr {l : List B} (h : At r kept (l ++ rest) freed) {address : ℕ}
    (hu : Socket.keep address l.length r = some u) (b : B) : u.addr b = if b ∈ l then address else r.addr b := by
  induction l generalizing r kept with
  | nil =>
    cases hu
    rfl
  | cons p l ih =>
    obtain ⟨v, hv, hat⟩ := h.keepOne address
    rw [List.length_cons, Socket.keep, hv, Option.bind_some] at hu
    rw [ih hat hu, keepOne_addr h hv, Function.update_apply]
    by_cases hb : b = p <;> simp [hb]

omit [DecidableEq B] in
lemma freeOne_addr (hu : Socket.freeOne r = some u) : u.addr = r.addr := by
  obtain ⟨p, -, rfl⟩ := Option.map_eq_some_iff.mp hu
  rfl

omit [DecidableEq B] in
lemma free_addr {n : ℕ} (hu : Socket.free n r = some u) : u.addr = r.addr := by
  induction n generalizing r with
  | zero =>
    cases hu
    rfl
  | succ n ih =>
    obtain ⟨v, hv, hu⟩ := Option.bind_eq_some_iff.mp hu
    exact (ih hu).trans (freeOne_addr hv)

omit [DecidableEq B] in
lemma freeRest_addr {n : ℕ} (hu : Socket.freeRest n r = some u) : u.addr = r.addr := by
  induction n generalizing r with
  | zero =>
    rw [Socket.freeRest] at hu
    split at hu <;> cases hu
    rfl
  | succ n ih =>
    rw [Socket.freeRest] at hu
    split at hu
    · cases hu
      rfl
    · obtain ⟨v, hv, hu⟩ := Option.bind_eq_some_iff.mp hu
      exact (ih hu).trans (freeOne_addr hv)

lemma takeMessage_addr {group : List B} (h : At r kept (group ++ rest) freed) {index : ℕ} (hm : Fits message)
    (hg : group.length = udpMaxSegments) (hu : Socket.takeMessage index r message = some u) (b : B) :
    u.addr b = if b ∈ group.take (packetNumber message.len) then srcAddress message index else r.addr b := by
  have htake : (group.take (packetNumber message.len)).length = packetNumber message.len := by
    rw [List.length_take, hg, Nat.min_eq_left hm.packetNumber_le]
  rw [Socket.takeMessage, if_neg (by simp [hm.truncated])] at hu
  obtain ⟨v, hv, hu⟩ := Option.bind_eq_some_iff.mp hu
  rw [← List.take_append_drop (packetNumber message.len) group, List.append_assoc] at h
  rw [← htake] at hv
  rw [free_addr hu, keep_addr h hv]

lemma takeMessages_addr {messages : List RecvMessage} (h : At r kept rest freed) (hrest : rest.Nodup) {index : ℕ}
    (hm : ∀ message ∈ messages, Fits message) {n : ℕ} (hn : messages.length ≤ n)
    (hroom : udpMaxSegments * n ≤ rest.length) (hu : messages.foldlM (Socket.takeMessage index) r = some u) :
    (∀ b, b ∉ rest → u.addr b = r.addr b) ∧ (filledBuffers (groups n rest) messages).map u.addr =
      messages.flatMap fun message => List.replicate (packetNumber message.len) (srcAddress message index) := by
  induction messages generalizing r kept rest freed n with
  | nil =>
    cases hu
    refine ⟨fun _ _ => rfl, ?_⟩
    rw [filledBuffers, List.zip_nil_right]
    rfl
  | cons message messages ih =>
    obtain ⟨n, rfl⟩ := Nat.exists_eq_add_of_lt (Nat.lt_of_lt_of_le (Nat.succ_pos _) hn)
    rw [Nat.zero_add] at hn hroom ⊢
    obtain ⟨hfirst, hothers⟩ := List.forall_mem_cons.mp hm
    obtain ⟨hgroup, hroom⟩ := group_length hroom
    rw [← List.take_append_drop udpMaxSegments rest] at h hrest
    obtain ⟨v, hv, hat⟩ := h.takeMessage index hfirst hgroup
    rw [List.foldlM_cons, hv] at hu
    obtain ⟨hsame, hmap⟩ := ih hat (hrest.sublist (List.sublist_append_right _ _)) hothers
      (Nat.le_of_succ_le_succ hn) hroom hu
    have haddr := takeMessage_addr h hfirst hgroup hv
    refine ⟨fun b hb => ?_, ?_⟩
    · rw [hsame b fun hd => hb (List.mem_of_mem_drop hd), haddr,
        if_neg fun ht => hb (List.mem_of_mem_take (List.mem_of_mem_take ht))]
    · rw [filledBuffers_cons, List.map_append, List.flatMap_cons, hmap]
      congr 1
      refine List.eq_replicate_iff.mpr ⟨?_, fun address hmem => ?_⟩
      · rw [List.length_map, List.length_take, hgroup, Nat.min_eq_left hfirst.packetNumber_le]
      · obtain ⟨b, hb, rfl⟩ := List.mem_map.mp hmem
        rw [hsame b (List.disjoint_of_nodup_append hrest (List.mem_of_mem_take hb)), haddr, if_pos hb]

end Addresses

omit [DecidableEq B] in
lemma arrivals_eq {r : Reading B} {content : B → List UInt8} {index : ℕ} {deliveries : List Delivery}
    (haddr : r.packets.contents.map r.addr =
      deliveries.flatMap fun d => List.replicate d.datagrams.length (srcAddress d.message index))
    (hcontent : r.packets.contents.map content = deliveries.flatMap Delivery.datagrams) :
    r.received content = deliveries.flatMap (Delivery.arrivals Delivery.message index) := by
  have haddrs : (deliveries.flatMap (Delivery.arrivals Delivery.message index)).map Datagram.addr = r.packets.contents.map r.addr := by
    rw [haddr, List.map_flatMap]
    refine List.flatMap_congr fun d _ => ?_
    rw [Delivery.arrivals, List.map_map]
    exact List.map_const' ..
  have hbytes : (deliveries.flatMap (Delivery.arrivals Delivery.message index)).map Datagram.bytes =
      r.packets.contents.map content := by
    rw [hcontent, List.map_flatMap]
    refine List.flatMap_congr fun d _ => ?_
    rw [Delivery.arrivals, List.map_map]
    exact List.map_id d.datagrams
  have hzip := congrArg₂ (List.zipWith Datagram.mk) haddrs hbytes
  rw [List.zipWith_map, List.zipWith_map, List.zipWith_self, List.zipWith_self] at hzip
  exact hzip.symm.trans (List.map_id _)

end Receiving

section Crossing

variable {calls : List SendCall} {dst index : ℕ}

lemma SendCall.Ok.packet_of_datagram {c : SendCall} (hc : c.Ok) {messages : List SendMessage}
    (hsent : c.sendMsg = some messages) {bytes : List UInt8}
    (hmem : ⟨dstAddress dst c.index, bytes⟩ ∈ messages.flatMap SendMessage.datagrams) : ⟨dst, bytes⟩ ∈ c.packets := by
  rw [sendmmsgLoop_eq hsent] at hmem
  obtain ⟨p, hp, heq⟩ := List.mem_map.mp (hc.datagrams_perm.mem_iff.mp hmem)
  obtain ⟨haddr, hbytes⟩ := Datagram.mk.inj heq
  rw [← dstAddress_inj haddr, ← hbytes]
  exact hp

lemma Delivery.Of.packets (hcalls : ∀ c ∈ calls, c.Ok) {d : Delivery}
    (hd : d.Of SendMessage.datagrams calls dst index) :
    ∀ p ∈ d.arrivals Delivery.message index, ∃ c ∈ calls, c.source = p.addr ∧ c.index = index ∧ ⟨dst, p.bytes⟩ ∈ c.packets := by
  intro p hp
  obtain ⟨bytes, hbytes, rfl⟩ := List.mem_map.mp hp
  obtain ⟨source, haddr, hsent⟩ := hd.sent
  obtain ⟨c, hc, hsource, hindex, messages, hmessages, hmem⟩ := hsent bytes hbytes
  refine ⟨c, hc, hsource.trans (srcAddress_dstAddress haddr).symm, hindex, ?_⟩
  exact (hcalls c hc).packet_of_datagram hmessages (hindex ▸ hmem)

lemma Delivery.Of.whole (hcalls : ∀ c ∈ calls, c.Ok) {d : Delivery} (hd : d.Of SendMessage.datagrams calls dst index) :
    d.Whole := by
  refine ⟨hd.count, fun bytes hbytes => ?_⟩
  obtain ⟨c, hc, -, -, hmem⟩ := hd.packets hcalls ⟨_, bytes⟩ (List.mem_map_of_mem hbytes)
  exact (hcalls c hc).sizes _ hmem

variable {B : Type*} [DecidableEq B]

lemma recvMsg_received {packets : MultiList B} (hp : packets.Inv) (hdistinct : packets.contents.Nodup)
    {content : B → List UInt8} (hsizes : ∀ b ∈ packets.contents, (content b).length = gsoSize) {recvMessages : ℕ}
    (addr : B → ℕ) {deliveries : List Delivery} (hwhole : ∀ d ∈ deliveries, d.Whole)
    (hcount : deliveries.length ≤ messagesSize packets recvMessages) :
    ∃ iov r, iovecs packets (messagesSize packets recvMessages) packets.beginIterator = some iov ∧
      recvMsg (fun _ => some (deliveries.map Delivery.message)) recvMessages index addr packets = some r ∧
      r.received (scatterAll content iov deliveries) = deliveries.flatMap (Delivery.arrivals Delivery.message index) := by
  obtain ⟨hvalid, hindex⟩ := MultiList.begin_valid hp
  have hroom : udpMaxSegments * messagesSize packets recvMessages ≤ packets.contents.length := by
    rw [← hp.size_eq, messagesSize]
    exact (Nat.mul_le_mul_left _ (Nat.min_le_left _ _)).trans (Nat.mul_div_le _ _)
  have hiov : iovecs packets (messagesSize packets recvMessages) packets.beginIterator =
      some (groups (messagesSize packets recvMessages) packets.contents) := by
    rw [iovecs_spec hp _ hvalid (by rw [hindex]; omega), hindex, List.drop_zero]
  by_cases hnone : messagesSize packets recvMessages = 0
  · obtain rfl : deliveries = [] := List.length_eq_zero_iff.mp (Nat.le_zero.mp (hnone ▸ hcount))
    refine ⟨_, freeAll packets addr, hiov, by rw [recvMsg, if_pos hnone], ?_⟩
    rw [Reading.received, (freeAll_contents hp addr).2.1]
    rfl
  have hfits : ∀ message ∈ deliveries.map Delivery.message, Fits message := fun message hm => by
    obtain ⟨d, hd, rfl⟩ := List.mem_map.mp hm
    exact (hwhole d hd).fits
  have hmessages : (deliveries.map Delivery.message).length ≤ messagesSize packets recvMessages := by
    rw [List.length_map]
    exact hcount
  obtain ⟨r, hr, -, hkept, -⟩ := readMessages_partition hp hroom index addr hmessages hfits
  refine ⟨_, r, hiov, by rw [recvMsg, if_neg hnone, hiov]; exact hr, ?_⟩
  obtain ⟨u, hu, hrest⟩ := Option.bind_eq_some_iff.mp hr
  have hstart : At ⟨packets, packets.beginIterator, MultiList.empty, addr⟩ [] packets.contents [] :=
    ⟨hp, hvalid, rfl, hindex, MultiList.empty_related⟩
  obtain ⟨-, haddr⟩ := takeMessages_addr hstart hdistinct hfits hmessages hroom hu
  refine arrivals_eq ?_ ?_
  · rw [hkept, freeRest_addr hrest, haddr, List.flatMap_map]
    exact List.flatMap_congr fun d hd => by rw [(hwhole d hd).number]
  · rw [hkept]
    exact content_filledBuffers hdistinct hsizes hwhole hcount hroom

/-- What a socket sends are its packets, each once, as one datagram, in order for every address; and what a socket
receives are packets that were sent to it, each from the address of the sending end, in the order of arrival.
`WriteThread` sends at most `UDPMaxSegments` packets at once, so the length does not wrap there. -/
theorem packets_cross {kernel : Kernel B} (hkernel : kernel.Documented) (hcalls : ∀ c ∈ calls, c.Ok) {packets : MultiList B}
    (hp : packets.Inv) (hdistinct : packets.contents.Nodup) {content : B → List UInt8}
    (hsizes : ∀ b ∈ packets.contents, (content b).length = gsoSize) {recvMessages : ℕ} (addr : B → ℕ)
    {deliveries : List Delivery} (hdeliveries : ∀ d ∈ deliveries, d.Of kernel.datagrams calls dst index)
    (hcount : deliveries.length ≤ messagesSize packets recvMessages) :
    (∀ c ∈ calls, ∀ messages, c.sendMsg = some messages →
      (messages.flatMap kernel.datagrams).Perm (c.packets.map c.toDatagram) ∧
      (∀ address, (messages.flatMap kernel.datagrams).filter (fun x => x.addr = address) =
        (c.packets.map c.toDatagram).filter fun x => x.addr = address) ∧
      msgLength messages = c.packets.length * gsoSize % 2 ^ 32 ∧
      (c.packets.length ≤ udpMaxSegments → msgLength messages = c.packets.length * gsoSize)) ∧
    ∃ iov r, iovecs packets (messagesSize packets recvMessages) packets.beginIterator = some iov ∧
      recvMsg (fun _ => some (deliveries.map kernel.message)) recvMessages index addr packets = some r ∧
      r.received (kernel.scattered content iov deliveries) =
        deliveries.flatMap (Delivery.arrivals kernel.message index) ∧
      ∀ p ∈ r.received (kernel.scattered content iov deliveries),
        ∃ c ∈ calls, c.source = p.addr ∧ c.index = index ∧ ⟨dst, p.bytes⟩ ∈ c.packets := by
  obtain ⟨datagrams, message, scattered⟩ := kernel
  obtain rfl : datagrams = SendMessage.datagrams := funext hkernel.segmentation
  obtain rfl : message = Delivery.message := funext hkernel.coalescing
  obtain rfl : scattered = scatterAll :=
    funext fun content => funext fun iov => funext fun deliveries => hkernel.scattering content iov deliveries
  refine ⟨fun c hc messages hsent => ?_, ?_⟩
  · obtain rfl := sendmmsgLoop_eq hsent
    have hok := hcalls c hc
    refine ⟨hok.datagrams_perm, hok.filter_datagrams, hok.msgLength_eq, fun hle => ?_⟩
    rw [hok.msgLength_eq, Nat.mod_eq_of_lt]
    exact (Nat.mul_le_mul_right gsoSize hle).trans_lt (by decide)
  · have hwhole : ∀ d ∈ deliveries, d.Whole := fun d hd => (hdeliveries d hd).whole hcalls
    obtain ⟨iov, r, hiov, hr, hreceived⟩ := recvMsg_received hp hdistinct hsizes addr hwhole hcount
    refine ⟨iov, r, hiov, hr, hreceived, fun p hpr => ?_⟩
    dsimp only at hpr
    rw [hreceived] at hpr
    obtain ⟨d, hd, hpd⟩ := List.mem_flatMap.mp hpr
    exact (hdeliveries d hd).packets hcalls p hpd

end Crossing

def filledWith (byte : UInt8) : List UInt8 := List.replicate gsoSize byte

def threePackets : SendCall :=
  ⟨65541, 1, [⟨65546, filledWith 1⟩, ⟨131082, filledWith 2⟩, ⟨65546, filledWith 3⟩], [131083, 65547], [some 1, some 1]⟩

def outOfOrder : List Delivery := [⟨65542, [filledWith 3, filledWith 1, filledWith 3]⟩]

lemma threePackets_ok : threePackets.Ok := by
  refine ⟨fun p hp => ?_, by decide⟩
  simp only [threePackets, List.mem_cons, List.not_mem_nil, or_false] at hp
  rcases hp with rfl | rfl | rfl <;> exact List.length_replicate

lemma outOfOrder_of : ∀ d ∈ outOfOrder, d.Of SendMessage.datagrams [threePackets] 65546 1 := by
  intro d hd
  obtain rfl := List.mem_singleton.mp hd
  refine ⟨by decide, 65541, by decide, fun bytes hbytes => ?_⟩
  refine ⟨threePackets, List.mem_singleton_self _, rfl, rfl, threePackets.headers, rfl, ?_⟩
  refine threePackets_ok.datagrams_perm.mem_iff.mpr (List.mem_map.mpr ⟨⟨65546, bytes⟩, ?_, rfl⟩)
  simp only [List.mem_cons, List.not_mem_nil, or_false] at hbytes
  rcases hbytes with rfl | rfl | rfl <;> simp [threePackets]

def linux : Kernel ℕ := ⟨SendMessage.datagrams, Delivery.message, scatterAll⟩

lemma linux_documented : linux.Documented := ⟨fun _ => rfl, fun _ => rfl, fun _ _ _ => rfl⟩

theorem packets_cross_threePackets :
    ∃ iov r, iovecs offered 1 offered.beginIterator = some iov ∧
      recvMsg (fun _ => some (outOfOrder.map linux.message)) 64 1 (fun _ => 0) offered = some r ∧
      r.received (linux.scattered (fun _ => filledWith 0) iov outOfOrder) =
        [⟨65541, filledWith 3⟩, ⟨65541, filledWith 1⟩, ⟨65541, filledWith 3⟩] := by
  have hcalls : ∀ c ∈ [threePackets], c.Ok := fun c hc => List.mem_singleton.mp hc ▸ threePackets_ok
  have hinv : offered.Inv := ⟨by rw [MultiList.Chunked]; decide, rfl⟩
  have hdistinct : offered.contents.Nodup := by
    rw [show offered.contents = List.range 64 by decide]
    exact List.nodup_range
  obtain ⟨-, iov, r, hiov, hr, hreceived, -⟩ := packets_cross linux_documented hcalls hinv hdistinct
    (fun _ _ => (List.length_replicate : (filledWith 0).length = gsoSize)) (fun _ => 0) outOfOrder_of
    (by decide : outOfOrder.length ≤ messagesSize offered 64)
  refine ⟨iov, r, hiov, hr, hreceived.trans ?_⟩
  have hsource : srcAddress (linux.message ⟨65542, [filledWith 3, filledWith 1, filledWith 3]⟩) 1 = 65541 :=
    srcAddress_dstAddress (by decide)
  rw [outOfOrder, List.flatMap_singleton, Delivery.arrivals, hsource]
  rfl

end FastTransport.Protocol.Socket
