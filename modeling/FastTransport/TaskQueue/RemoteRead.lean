import FastTransport.FileSystem.WholeBlocks
import FastTransport.TaskQueue.MessageExchange
import FastTransport.TaskQueue.ResponseReadFileJob

/-! A read of a remote file from end to end: the request over the connection, the disk job of the server, its answer
over the connection, and what the client makes of it. -/

namespace FastTransport.TaskQueue

open Containers FileSystem Protocol Lib.Bytes Lib.Runs

def word (f : Field) : UInt64 := UInt64.ofNat (ofBytes f.bytes)

def ReadFileRequest.ofFields : List Field → Option (ReadFileRequest × UInt64)
  | [type, request, inode, size, offset, skipped, remoteFile] =>
    if ofBytes type.bytes = MessageType.requestRead.value then
      some (⟨word request, word inode, word size, word offset, word skipped⟩, word remoteFile)
    else none
  | _ => none

structure ReadFileResponse where
  header : ReadFileRequest
  error : ℕ
  data : List Packet

def dataPackets : List Field → List Packet
  | [.packets ps] => ps
  | _ => []

/-- What `ResponseReadFileInJob` reads out of a message; behind an error there is no data. -/
def ReadFileResponse.ofFields : List Field → Option ReadFileResponse
  | type :: request :: inode :: size :: offset :: skipped :: error :: rest =>
    if ofBytes type.bytes = MessageType.responseRead.value then
      some ⟨⟨word request, word inode, word size, word offset, word skipped⟩, ofBytes error.bytes, dataPackets rest⟩
    else none
  | _ => none

/-- The packets a block goes in: full ones, and a last one that is not empty. -/
def CutInto (bytes : List UInt8) (payloads : List (List UInt8)) : Prop :=
  ∃ init last, payloads = init ++ [last] ∧ (∀ p ∈ init, p.length = maxPayloadSize) ∧ 0 < last.length ∧
    last.length ≤ maxPayloadSize ∧ payloads.flatten = bytes

lemma isCut_of_cutInto {bytes : List UInt8} {data : List CachedPacket}
    (h : CutInto bytes (data.map CachedPacket.payload)) : IsCut bytes data := by
  obtain ⟨init, last, hdata, hinit, hpos, hle, hbytes⟩ := h
  obtain ⟨front, back, rfl, rfl, hback⟩ := List.map_eq_append_iff.mp hdata
  obtain ⟨p, rfl, rfl⟩ := List.map_eq_singleton_iff.mp hback
  refine ⟨front, p, rfl, fun q hq => hinit _ (List.mem_map_of_mem hq), hpos, hle, ?_⟩
  rw [payloads, ← hbytes, List.flatMap_def]

namespace NativeFile

variable {packets left readed : List Packet} {bytes : Option (List UInt8)} {b : ℕ}

lemma bytes_nativeRead (hb : 0 < b) (hsize : ∀ p ∈ packets, p.payload.length = b)
    (hle : (bytes.getD []).length ≤ packets.length * b) (h : nativeRead packets bytes = some (readed, left)) :
    (readed.map Packet.payload).flatten = bytes.getD [] := by
  obtain ⟨front, hfront, h⟩ := Option.bind_eq_some_iff.mp h
  have hf : front.payload.length = b := hsize front (List.mem_of_head? hfront)
  simp only [hf, if_neg hb.ne'] at h
  have hk := ceil_le hb hle
  have hcover := le_ceil_mul (n := (bytes.getD []).length) hb
  generalize bytes.getD [] = read at h hk hcover ⊢
  generalize (read.length + b - 1) / b = k at h hk hcover
  cases h
  have hpayloads : ((packets.take k).mapIdx fun i p => p.withPayload (slice read (i * b) b)).map Packet.payload =
      (List.range k).map fun i => slice read (i * b) b := by
    refine List.ext_getElem (by simp [hk]) fun i h₁ h₂ => ?_
    simp
  rw [hpayloads, ← List.flatMap_def, flatMap_slices, slice_of_length_le hcover]

lemma nativeRead_cases (hsize : ∀ p ∈ packets, p.payload.length = maxPayloadSize)
    (hle : (bytes.getD []).length ≤ packets.length * maxPayloadSize)
    (h : nativeRead packets bytes = some (readed, left)) :
    readed.length ≤ packets.length ∧ (readed = [] ↔ bytes.getD [] = []) ∧
      (readed ≠ [] → CutInto (bytes.getD []) (readed.map Packet.payload)) := by
  have hpos : 0 < maxPayloadSize := by decide
  obtain ⟨hsizes, -, hid⟩ := sizes_nativeRead hpos hsize hle h
  have hbytes := bytes_nativeRead hpos hsize hle h
  have hlen := congrArg List.length hid
  simp only [List.length_map, List.length_append] at hlen
  refine ⟨by omega, ⟨fun hnil => ?_, fun hnil => ?_⟩, fun hne => ?_⟩
  · rw [← hbytes, hnil, List.map_nil, List.flatten_nil]
  · rw [hnil, List.length_nil, blockSizes_zero hpos] at hsizes
    exact List.map_eq_nil_iff.mp hsizes
  · obtain ⟨init, last, rfl⟩ := List.eq_nil_or_concat' readed |>.resolve_left hne
    have hinit := blockSizes_dropLast (r := (bytes.getD []).length) hpos
    rw [← hsizes, DirectoryEntryWriter.sizes, List.map_append, List.map_singleton, List.dropLast_concat] at hinit
    have hlast : last.payload.length ∈ blockSizes (bytes.getD []).length maxPayloadSize := by
      rw [← hsizes, DirectoryEntryWriter.sizes, List.map_append]
      exact List.mem_append_right _ List.mem_cons_self
    refine ⟨init.map Packet.payload, last.payload, by rw [List.map_append, List.map_singleton], ?_,
      (mem_blockSizes hpos hlast).1, (mem_blockSizes hpos hlast).2, hbytes⟩
    rintro p hp
    obtain ⟨q, hq, rfl⟩ := List.mem_map.mp hp
    exact hinit _ (List.mem_map_of_mem hq)

end NativeFile

namespace ResponseReadFileJob

variable {n : ℕ} {first : Packet} {free sent back readed : List Packet} {r : ReadFileRequest}
  {bytes : Option (List UInt8)} {errno : UInt32}

def answer (n : ℕ) (r : ReadFileRequest) (readed : List Packet) (errno : UInt32) : Sent n :=
  .responseRead r.request.toBitVec r.inode.toBitVec r.size.toBitVec r.offset.toBitVec r.skipped.toBitVec readed
    errno.toBitVec

lemma answer_fields (r : ReadFileRequest) (readed : List Packet) (errno : UInt32) : (answer n r readed errno).fields =
    header r ++ if readed = [] then [error errno] else [error 0, .packets readed] := rfl

lemma answer_bytes (r : ReadFileRequest) (readed : List Packet) (errno : UInt32) :
    ((answer n r readed errno).fields.flatMap Field.bytes).length ≤ 56 := by
  have h := length_header (r := r)
  rw [answer_fields, List.flatMap_append, List.length_append, h]
  split_ifs <;> simp [error, Field.bytes, sizeWidth]

lemma answer_sendable (hfirst : first.payload.length = maxPayloadSize) (hfree : free ≠ [])
    (hlength : readed.length ≤ 1000) (herrno : readed = [] → errno ≠ 0) :
    Sendable (first :: free) (answer n r readed errno) := by
  refine ⟨fun f hf => ?_, ⟨?_, ?_, ?_, ?_⟩, ?_⟩
  · rw [answer_fields, List.mem_append] at hf
    rcases hf with hf | hf
    · simp only [header, List.mem_cons, List.not_mem_nil, or_false] at hf
      rcases hf with rfl | rfl | rfl | rfl | rfl | rfl <;> simp [MessageType.field, Field.WellFormed, toBytes, MessageType.size]
    · split_ifs at hf
      · rw [List.mem_singleton.mp hf]
        simp [error, Field.WellFormed, toBytes]
      · rcases List.mem_pair.mp hf with rfl | rfl
        · simp [error, Field.WellFormed, toBytes]
        · exact lt_of_le_of_lt hlength (by decide)
  · rw [answer_fields, header]
    exact List.cons_ne_nil _ _
  · have h := answer_bytes (n := n) r readed errno
    rw [hfirst]
    exact (Nat.add_le_add_left h _).trans (by decide)
  · intro f hf
    rw [answer_fields] at hf
    split_ifs at hf
    · rw [List.dropLast_concat] at hf
      exact isPackets_header f hf
    · rw [List.append_cons, List.dropLast_concat, List.mem_append, List.mem_singleton] at hf
      rcases hf with hf | rfl
      · exact isPackets_header f hf
      · rfl
  · intro ps hps
    rw [answer_fields] at hps
    split_ifs at hps with hnil
    · rw [List.getLast?_append] at hps
      cases hps
    · rw [List.getLast?_append] at hps
      cases hps
      exact ⟨hnil, hfree⟩
  · by_cases hnil : readed = []
    · refine Or.inr fun hzero => herrno hnil ?_
      exact UInt32.toBitVec_inj.mp hzero
    · exact Or.inl hnil

lemma answer_written (hfirst : first.payload.length = maxPayloadSize) (hfree : free ≠ []) (hne : readed ≠ [])
    (hlength : readed.length ≤ 1000) : written (first :: free) (answer n r readed errno) =
      some (filledPacket first ((answer n r readed errno).fields.flatMap Field.bytes) ((1 + readed.length) % seqLimit) ::
        readed) := by
  have hsendable : Sendable (first :: free) (answer n r readed errno) :=
    answer_sendable hfirst hfree hlength fun h => absurd h hne
  have hfields : (answer n r readed errno).fields = (header r ++ [error 0]) ++ [.packets readed] := by
    rw [answer_fields, if_neg hne, List.append_assoc]
    rfl
  have hwellFormed := hsendable.wellFormed
  have hroom := hsendable.fits.2.1
  rw [written]
  rw [hfields] at hwellFormed hroom ⊢
  rw [List.forall_mem_append, List.forall_mem_singleton] at hwellFormed
  refine (writes_packets hwellFormed.1 (fun f hf => ?_) hne hwellFormed.2 hfree hroom).written
  rcases List.mem_append.mp hf with hf | hf
  · exact isPackets_header f hf
  · rw [List.mem_singleton.mp hf]
    rfl

lemma getDataPackets_create (p : Packet) (hfree : free ≠ []) (number offset : ℕ) :
    MessageWriter.getDataPackets ⟨p :: free, 0, number, offset⟩ 1000 =
      some (free.take 1000, ⟨p :: free.drop 1000, 0, number, offset⟩) := by
  have hpos := List.length_pos_of_ne_nil hfree
  rw [MessageWriter.getDataPackets, if_pos (by simp only [List.length_cons]; omega)]
  rfl

lemma schedule_written (hlen : (first :: free).length = TaskScheduler.maxWriterPackets)
    (hfull : ∀ p ∈ first :: free, p.payload.length = maxPayloadSize)
    (hbytes : (bytes.getD []).length ≤ 1000 * maxPayloadSize)
    (h : scheduleResponseReadDiskJob (first :: free) r bytes errno = some (sent, back)) :
    ∃ read, nativeRead (free.take 1000) bytes = some read ∧
      written (first :: free.drop 1000) (answer n r read.1 errno) = some sent := by
  have hfree : free.length = 1099 := Nat.succ.inj hlen
  have hne : free ≠ [] := List.ne_nil_of_length_pos (by omega)
  have hdata : ∀ p ∈ free.take 1000, p.payload.length = maxPayloadSize :=
    fun p hp => hfull p (List.mem_cons_of_mem _ (List.mem_of_mem_take hp))
  have hcount : (free.take 1000).length = 1000 := by
    rw [List.length_take]
    omega
  obtain ⟨front, rest, htake⟩ := List.exists_cons_of_length_eq_add_one hcount
  have hfront := hdata front (htake ▸ List.mem_cons_self)
  have hhead : (free.take 1000).head? = some front := by
    rw [htake, List.head?_cons]
  have hfit : frameCountSize + ((header r).flatMap Field.bytes).length ≤ first.payload.length := by
    rw [length_header, hfull first List.mem_cons_self]
    decide
  rw [scheduleResponseReadDiskJob, executeResponse, MessageWriter.create,
    MessageWriter.writeFields_fits isPackets_header hfit, Option.bind_some, getDataPackets_create _ hne,
    Option.bind_some] at h
  dsimp only at h
  rw [hhead, Option.bind_some, hfront, hcount,
    NativeFile.read_eq_nativeRead (List.ne_nil_of_length_pos (by omega)) hdata (by decide) (by decide) (by omega)
      (by rw [hcount]) hbytes] at h
  obtain ⟨x, hx, h⟩ := Option.bind_eq_some_iff.mp h
  obtain ⟨-, hx⟩ := Option.ite_none_left_eq_some.mp hx
  obtain ⟨read, hread, hx⟩ := Option.bind_eq_some_iff.mp hx
  obtain ⟨y, hy, hsent⟩ := Option.map_eq_some_iff.mp h
  have hwrite : (MessageWriter.create (first :: free.drop 1000)).writeFields (answer n r read.1 errno).fields = some x.1 := by
    rw [answer_fields, MessageWriter.create, MessageWriter.writeFields_append,
      MessageWriter.writeFields_fits isPackets_header hfit, Option.bind_some]
    split_ifs at hx ⊢
    · obtain ⟨w, hw, rfl⟩ := Option.map_eq_some_iff.mp hx
      exact hw
    · obtain ⟨w, hw, rfl⟩ := Option.map_eq_some_iff.mp hx
      exact hw
  refine ⟨read, hread, ?_⟩
  rw [written, hwrite, Option.bind_some, hy, Option.map_some]
  exact congrArg (fun z => some z.1) hsent

end ResponseReadFileJob

variable {n : ℕ}

def readRequest (n : ℕ) (m : Message) : Option (ReadFileRequest × UInt64) :=
  (decode n m.packets).bind ReadFileRequest.ofFields

def readResponse (n : ℕ) (m : Message) : Option ReadFileResponse :=
  (decode n m.packets).bind ReadFileResponse.ofFields

def readRequests (jobs : List (List Packet × Sent n)) : List (ReadFileRequest × UInt64) :=
  jobs.filterMap fun job => ReadFileRequest.ofFields job.2.fields

inductive ServerJob (n : ℕ)
  | read (asked : ReadFileRequest × UInt64) (supply : List Packet) (bytes : Option (List UInt8)) (errno : UInt32)
  | other (supply : List Packet) (m : Sent n)

namespace ServerJob

def packets : ServerJob n → Option (List Packet)
  | read asked supply bytes errno =>
    (ResponseReadFileJob.scheduleResponseReadDiskJob supply asked.1 bytes errno).map Prod.fst
  | other supply m => written supply m

def asked? : ServerJob n → Option (ReadFileRequest × UInt64)
  | read asked .. => some asked
  | other .. => none

/-- `preadv` gives no more than it has room for, and an empty read leaves an error in `errno`. -/
def Ok (preadv : UInt64 → UInt64 → Option (List UInt8) → Prop) : ServerJob n → Prop
  | read asked supply bytes errno =>
    supply.length = TaskScheduler.maxWriterPackets ∧ (∀ p ∈ supply, p.payload.length = maxPayloadSize) ∧
      preadv asked.2 (asked.1.offset + asked.1.skipped) bytes ∧
      (bytes.getD []).length ≤ 1000 * maxPayloadSize ∧ (bytes.getD [] = [] → errno ≠ 0)
  | other supply m => Sendable supply m ∧ m.type ≠ .responseRead

end ServerJob

/-- A response to a request: what `preadv` gave for it, or an error where it gave nothing. -/
structure Answered (preadv : UInt64 → UInt64 → Option (List UInt8) → Prop) (asked : ReadFileRequest × UInt64)
    (x : ReadFileResponse) : Prop where
  header : x.header = asked.1
  data : ∃ bytes, preadv asked.2 (asked.1.offset + asked.1.skipped) bytes ∧
    ((bytes.getD [] = [] ∧ x.error ≠ 0 ∧ x.data = []) ∨
      (bytes.getD [] ≠ [] ∧ x.error = 0 ∧ CutInto (bytes.getD []) (x.data.map Packet.payload)))

def ReadFileResponse.strip (x : ReadFileResponse) : ReadFileResponse := { x with data := x.data.map Packet.strip }

lemma Answered.of_strip {preadv : UInt64 → UInt64 → Option (List UInt8) → Prop} {asked : ReadFileRequest × UInt64}
    {x y : ReadFileResponse} (h : Answered preadv asked x) (hxy : x.strip = y.strip) : Answered preadv asked y := by
  cases x
  cases y
  simp only [ReadFileResponse.strip, ReadFileResponse.mk.injEq] at hxy
  obtain ⟨rfl, rfl, hdata⟩ := hxy
  have hpayload := congrArg (List.map Packet.payload) hdata
  have hlength := congrArg List.length hdata
  simp only [List.map_map, List.length_map] at hpayload hlength
  obtain ⟨bytes, hread, ⟨hnil, herror, hx⟩ | ⟨hne, herror, hcut⟩⟩ := h.data
  · refine ⟨h.header, bytes, hread, Or.inl ⟨hnil, herror, ?_⟩⟩
    dsimp only at hx ⊢
    rwa [hx, List.length_nil, eq_comm, List.length_eq_zero_iff] at hlength
  · refine ⟨h.header, bytes, hread, Or.inr ⟨hne, herror, ?_⟩⟩
    dsimp only at hcut ⊢
    exact hpayload ▸ hcut

lemma rel_of_strip {preadv : UInt64 → UInt64 → Option (List UInt8) → Prop} {asked : Option (ReadFileRequest × UInt64)}
    {x y : Option ReadFileResponse} (h : Option.Rel (Answered preadv) asked x)
    (hxy : x.map ReadFileResponse.strip = y.map ReadFileResponse.strip) : Option.Rel (Answered preadv) asked y := by
  cases h with
  | none => exact Option.map_eq_none_iff.mp hxy.symm ▸ .none
  | some h =>
    obtain ⟨z, rfl, hz⟩ := Option.map_eq_some_iff.mp hxy.symm
    exact .some (h.of_strip hz.symm)

lemma word_strip (f : Field) : word f.strip = word f := by
  rw [word, Field.strip_bytes, word]

lemma ReadFileRequest.ofFields_strip (fields : List Field) : ofFields (fields.map Field.strip) = ofFields fields := by
  match fields with
  | [type, request, inode, size, offset, skipped, remoteFile] => simp [ofFields, word_strip]
  | [] | [_] | [_, _] | [_, _, _] | [_, _, _, _] | [_, _, _, _, _] | [_, _, _, _, _, _] => rfl
  | _ :: _ :: _ :: _ :: _ :: _ :: _ :: _ :: _ => rfl

lemma dataPackets_strip (fields : List Field) :
    dataPackets (fields.map Field.strip) = (dataPackets fields).map Packet.strip := by
  match fields with
  | [] => rfl
  | [f] => cases f <;> rfl
  | f :: _ :: _ => cases f <;> rfl

lemma ReadFileResponse.ofFields_strip (fields : List Field) :
    ofFields (fields.map Field.strip) = (ofFields fields).map strip := by
  match fields with
  | type :: request :: inode :: size :: offset :: skipped :: error :: rest =>
    simp only [List.map_cons, ofFields, word_strip, Field.strip_bytes, dataPackets_strip]
    split_ifs <;> rfl
  | [] | [_] | [_, _] | [_, _, _] | [_, _, _, _] | [_, _, _, _, _] | [_, _, _, _, _, _] => rfl

lemma word_toBytes {x : UInt64} : word (.trivial (toBytes 8 x.toNat)) = x := by
  rw [word, Field.bytes, ofBytes_toBytes_of_lt (lt_of_lt_of_eq x.toNat_lt (by decide)), UInt64.ofNat_toNat]

lemma answered_answer {preadv : UInt64 → UInt64 → Option (List UInt8) → Prop} {asked : ReadFileRequest × UInt64}
    {bytes : Option (List UInt8)} {readed : List Packet} {errno : UInt32}
    (hpreadv : preadv asked.2 (asked.1.offset + asked.1.skipped) bytes)
    (hreaded : readed = [] ↔ bytes.getD [] = []) (hcut : readed ≠ [] → CutInto (bytes.getD []) (readed.map Packet.payload))
    (herrno : bytes.getD [] = [] → errno ≠ 0) :
    ∃ x, ReadFileResponse.ofFields (ResponseReadFileJob.answer n asked.1 readed errno).fields = some x ∧
      Answered preadv asked x := by
  have herror : ofBytes (ResponseReadFileJob.error errno).bytes = errno.toNat :=
    ofBytes_toBytes_of_lt (lt_of_lt_of_eq errno.toNat_lt (by decide))
  have htype : ofBytes MessageType.responseRead.field.bytes = MessageType.responseRead.value := ofBytes_field _
  rw [ResponseReadFileJob.answer_fields, ResponseReadFileJob.header]
  by_cases hnil : readed = []
  · rw [if_pos hnil]
    simp only [List.cons_append, List.nil_append, ReadFileResponse.ofFields, htype, if_true, word_toBytes, herror]
    refine ⟨_, rfl, rfl, bytes, hpreadv, Or.inl ⟨hreaded.mp hnil, fun hzero => herrno (hreaded.mp hnil) ?_, rfl⟩⟩
    exact UInt32.toNat_inj.mp hzero
  · rw [if_neg hnil]
    simp only [List.cons_append, List.nil_append, ReadFileResponse.ofFields, htype, if_true, word_toBytes]
    exact ⟨_, rfl, rfl, bytes, hpreadv, Or.inr ⟨fun h => hnil (hreaded.mpr h), rfl, hcut hnil⟩⟩

lemma ofFields_eq_none {m : Sent n} (hm : m.type ≠ .responseRead) : ReadFileResponse.ofFields m.fields = none := by
  obtain ⟨rest, hfields⟩ := m.fields_eq
  have htype : ofBytes m.type.field.bytes ≠ MessageType.responseRead.value := by
    rw [ofBytes_field]
    cases h : m.type <;> first
      | exact absurd h hm
      | decide
  rw [hfields]
  match rest with
  | request :: inode :: size :: offset :: skipped :: error :: rest => simp only [ReadFileResponse.ofFields, if_neg htype]
  | [] | [_] | [_, _] | [_, _, _] | [_, _, _, _] | [_, _, _, _, _] => rfl

lemma ServerJob.exists_sent {preadv : UInt64 → UInt64 → Option (List UInt8) → Prop} {job : ServerJob n}
    (h : job.Ok preadv) {packets : List Packet} (hpackets : job.packets = some packets) :
    ∃ x : List Packet × Sent n, Sendable x.1 x.2 ∧ written x.1 x.2 = some packets ∧
      Option.Rel (Answered preadv) job.asked? (ReadFileResponse.ofFields x.2.fields) := by
  cases job with
  | other supply m => exact ⟨(supply, m), h.1, hpackets, by rw [ofFields_eq_none h.2]; exact .none⟩
  | read asked supply bytes errno =>
    obtain ⟨hlen, hfull, hpreadv, hbytes, herrno⟩ := h
    obtain ⟨y, hy, rfl⟩ := Option.map_eq_some_iff.mp hpackets
    obtain ⟨first, free, rfl⟩ := List.exists_cons_of_length_eq_add_one hlen
    obtain ⟨read, hread, hwritten⟩ := ResponseReadFileJob.schedule_written (n := n) hlen hfull hbytes hy
    have hfree : free.length = 1099 := Nat.succ.inj hlen
    have hcount : (free.take 1000).length = 1000 := by
      rw [List.length_take]
      omega
    have hdata : ∀ p ∈ free.take 1000, p.payload.length = maxPayloadSize :=
      fun p hp => hfull p (List.mem_cons_of_mem _ (List.mem_of_mem_take hp))
    obtain ⟨hlength, hnil, hcut⟩ := NativeFile.nativeRead_cases hdata (by rw [hcount]; exact hbytes) hread
    obtain ⟨x, hx, hanswered⟩ := answered_answer (n := n) hpreadv hnil hcut herrno
    refine ⟨(first :: free.drop 1000, ResponseReadFileJob.answer n asked.1 read.1 errno), ?_, hwritten, ?_⟩
    · refine ResponseReadFileJob.answer_sendable (hfull first List.mem_cons_self) ?_ (hcount ▸ hlength)
        fun hempty => herrno (hnil.mp hempty)
      exact List.ne_nil_of_length_pos (by rw [List.length_drop]; omega)
    · rw [hx]
      exact .some hanswered

def Hears (d : Duplex) (i : Bool) (ms : List Message) : Prop :=
  ∃ batches kept, (∀ b ∈ batches, b.Inv) ∧ batches.flatMap MultiList.contents = (d.station i).received ∧
    MessageTypeReadJob.readNetwork (batches.length + (d.station i).received.length + 1) MultiList.empty batches =
      some (ms, kept)

section

variable {key : Bool → ConnectionKey} {now threadCount : Bool → ℕ} {free : Bool → List Packet}
  {as : List (Bool × Station.Action)} {d : Duplex}

lemma exists_hears (h : Path Duplex.step Duplex.Owns (Duplex.create key now threadCount free) as d)
    (hlt : ∀ i, (d.station i).sent.length < seqLimit) (i : Bool) {jobs : List (List Packet × Sent n)}
    (hjobs : ∀ job ∈ jobs, Sendable job.1 job.2)
    (hsent : (sends i as).map some = jobs.map fun job => written job.1 job.2) : ∃ heard, Hears d (!i) heard := by
  have hb : ∀ b ∈ (d.station !i).received.map fun p => (⟨[[p]], 1⟩ : MultiList Packet), b.Inv := by
    refine List.forall_mem_map.mpr fun p _ => ⟨?_, rfl⟩
    simp [MultiList.Chunked, MultiList.chunkSize]
  have hrecv : ((d.station !i).received.map fun p => (⟨[[p]], 1⟩ : MultiList Packet)).flatMap MultiList.contents =
      (d.station !i).received := by
    simp [List.flatMap_map, MultiList.contents]
  obtain ⟨-, produced, kept, hread, -⟩ := exists_cuts h hlt i hjobs hsent hb hrecv
  exact ⟨produced, _, kept, hb, hrecv, hread⟩

lemma Hears.forall₂ {i j : Bool} {heard : List Message} (hheard : Hears d j heard)
    (h : Path Duplex.step Duplex.Owns (Duplex.create key now threadCount free) as d)
    (hlt : ∀ i, (d.station i).sent.length < seqLimit) (hj : j = !i) {jobs : List (List Packet × Sent n)}
    (hjobs : ∀ job ∈ jobs, Sendable job.1 job.2)
    (hsent : (sends i as).map some = jobs.map fun job => written job.1 job.2) :
    ∃ k, List.Forall₂ (fun job m => content n m = some (job.2.fields.map Field.strip)) (jobs.take k) heard ∧
      ((d.station j).received.length = (d.station i).sent.length → jobs.length ≤ k) := by
  subst hj
  obtain ⟨batches, kept, hb, hrecv, hread⟩ := hheard
  obtain ⟨ms, produced, kept', hread', hcuts, hcontent, hreceived⟩ := exists_cuts h hlt i hjobs hsent hb hrecv
  obtain ⟨rfl, rfl⟩ : produced = heard ∧ kept' = kept := by simpa [hread] using hread'.symm
  refine ⟨produced.length, ?_, fun hlength => ?_⟩
  · have heq : List.Forall₂ (fun x y => x = y) (ms.map (content n))
        (jobs.map fun job => some (job.2.fields.map Field.strip)) := by
      rw [hcontent, List.forall₂_eq_eq_eq]
    rw [List.forall₂_map_left_iff, List.forall₂_map_right_iff] at heq
    have htake := List.forall₂_take produced.length heq
    rw [← List.prefix_iff_eq_take.mp hcuts.produced_prefix] at htake
    exact htake.flip
  · rw [hreceived hlength] at hcuts
    obtain ⟨rfl, -⟩ := hcuts.complete
    have hcount := congrArg List.length hcontent
    rw [List.length_map, List.length_map] at hcount
    exact hcount.ge

lemma readRequest_eq {jobs : List (List Packet × Sent n)} {ms : List Message}
    (h : List.Forall₂ (fun job m => content n m = some (job.2.fields.map Field.strip)) jobs ms) :
    ms.filterMap (readRequest n) = readRequests jobs := by
  have hrel : List.Forall₂ (fun x y => x = y) (readRequests jobs) (ms.filterMap (readRequest n)) := by
    refine List.rel_filterMap (fun job m hm => ?_) h
    obtain ⟨fields, hfields, hstrip⟩ := Option.map_eq_some_iff.mp hm
    rw [readRequest, hfields, Option.bind_some, ← ReadFileRequest.ofFields_strip fields, hstrip,
      ReadFileRequest.ofFields_strip]
    cases ReadFileRequest.ofFields job.2.fields with
    | none => exact .none
    | some x => exact .some rfl
  rw [List.forall₂_eq_eq_eq] at hrel
  exact hrel.symm

lemma exists_answered (h : Path Duplex.step Duplex.Owns (Duplex.create key now threadCount free) as d)
    (hlt : ∀ i, (d.station i).sent.length < seqLimit) (client : Bool)
    {preadv : UInt64 → UInt64 → Option (List UInt8) → Prop} {jobs : List (ServerJob n)}
    (hjobs : ∀ job ∈ jobs, job.Ok preadv)
    (hserved : (sends (!client) as).map some = jobs.map ServerJob.packets) :
    (∃ heard, Hears d client heard) ∧ ∀ heard, Hears d client heard → ∃ l,
      List.Forall₂ (Answered preadv) ((jobs.take l).filterMap ServerJob.asked?) (heard.filterMap (readResponse n)) ∧
        ((d.station client).received.length = (d.station !client).sent.length → jobs.length ≤ l) := by
  have hexists : ∀ job ∈ jobs, ∃ x : List Packet × Sent n, Sendable x.1 x.2 ∧ written x.1 x.2 = job.packets ∧
      Option.Rel (Answered preadv) job.asked? (ReadFileResponse.ofFields x.2.fields) := by
    intro job hjob
    obtain ⟨packets, -, hpackets⟩ := List.mem_map.mp (hserved ▸ List.mem_map_of_mem hjob)
    rw [← hpackets]
    exact ServerJob.exists_sent (hjobs job hjob) hpackets.symm
  have : Nonempty (List Packet × Sent n) := ⟨([], .notifyInvalInode 0)⟩
  choose! x hx using hexists
  have hwritten : (sends (!client) as).map some = (jobs.map x).map fun job => written job.1 job.2 := by
    rw [hserved, List.map_map]
    exact List.map_congr_left fun job hjob => (hx job hjob).2.1.symm
  have hsendable : ∀ job ∈ jobs.map x, Sendable job.1 job.2 := List.forall_mem_map.mpr fun job hjob => (hx job hjob).1
  refine ⟨Bool.not_not client ▸ exists_hears h hlt (!client) hsendable hwritten, fun heard hheard => ?_⟩
  obtain ⟨l, hheard, hall⟩ := hheard.forall₂ h hlt (Bool.not_not client).symm hsendable hwritten
  rw [← List.map_take, List.forall₂_map_left_iff] at hheard
  have hjob : ∀ job ∈ jobs.take l, job ∈ jobs := fun job hjob => List.mem_of_mem_take hjob
  refine ⟨l, ?_, fun hlength => by simpa using hall hlength⟩
  refine List.rel_filterMap (fun job m hm => ?_) (List.forall₂_and_left _ _ |>.mpr ⟨hjob, hheard⟩)
  obtain ⟨hmem, hm⟩ := hm
  obtain ⟨fields, hfields, hstrip⟩ := Option.map_eq_some_iff.mp hm
  refine rel_of_strip (hx job hmem).2.2 ?_
  rw [readResponse, hfields, Option.bind_some, ← ReadFileResponse.ofFields_strip, ← ReadFileResponse.ofFields_strip,
    hstrip]

lemma Hears.subperm (h : Path Duplex.step Duplex.Owns (Duplex.create key now threadCount free) as d)
    (hlt : ∀ i, (d.station i).sent.length < seqLimit) (client : Bool)
    {requests : List (List Packet × Sent n)} (hrequests : ∀ job ∈ requests, Sendable job.1 job.2)
    (hsent : (sends client as).map some = requests.map fun job => written job.1 job.2)
    {asked : List Message} (hasked : Hears d (!client) asked) :
    (asked.filterMap (readRequest n)).Subperm (readRequests requests) ∧
      ((d.station !client).received.length = (d.station client).sent.length →
        asked.filterMap (readRequest n) = readRequests requests) := by
  obtain ⟨k, hasked, hall⟩ := hasked.forall₂ h hlt rfl hrequests hsent
  have hreads := readRequest_eq hasked
  refine ⟨?_, fun hlength => by rw [hreads, List.take_of_length_le (hall hlength)]⟩
  rw [hreads]
  exact ((List.take_sublist _ _).filterMap _).subperm

/-- Every response the client reads answers a request of its own and none is answered twice; with everything
delivered and served all are. -/
theorem reads_answered (h : Path Duplex.step Duplex.Owns (Duplex.create key now threadCount free) as d)
    (hlt : ∀ i, (d.station i).sent.length < seqLimit) (client : Bool)
    {requests : List (List Packet × Sent n)} (hrequests : ∀ job ∈ requests, Sendable job.1 job.2)
    (hsent : (sends client as).map some = requests.map fun job => written job.1 job.2)
    {asked : List Message} (hasked : Hears d (!client) asked)
    {preadv : UInt64 → UInt64 → Option (List UInt8) → Prop} {jobs : List (ServerJob n)}
    (hjobs : ∀ job ∈ jobs, job.Ok preadv)
    (hscheduled : (jobs.filterMap ServerJob.asked?).Subperm (asked.filterMap (readRequest n)))
    (hserved : (sends (!client) as).map some = jobs.map ServerJob.packets) :
    (∃ heard, Hears d client heard) ∧ ∀ heard, Hears d client heard → ∃ served,
      served.Subperm (readRequests requests) ∧
        List.Forall₂ (Answered preadv) served (heard.filterMap (readResponse n)) ∧
        ((d.station !client).received.length = (d.station client).sent.length →
          (d.station client).received.length = (d.station !client).sent.length →
            (jobs.filterMap ServerJob.asked?).Perm (asked.filterMap (readRequest n)) →
              served.Perm (readRequests requests)) := by
  obtain ⟨hhears, hall⟩ := exists_answered h hlt client hjobs hserved
  obtain ⟨hreads, hreads'⟩ := Hears.subperm h hlt client hrequests hsent hasked
  refine ⟨hhears, fun heard hheard => ?_⟩
  obtain ⟨l, hanswered, hlength⟩ := hall heard hheard
  refine ⟨(jobs.take l).filterMap ServerJob.asked?, ?_, hanswered, fun hserver hclient hperm => ?_⟩
  · exact ((List.take_sublist _ _).filterMap _).subperm.trans (hscheduled.trans hreads)
  · rw [List.take_of_length_le (hlength hclient), ← hreads' hserver]
    exact hperm

end

section

open ResponseReadFileJob

def readJobs : List (List Packet × Sent 40) := [(MessageWriter.blankPackets 1 60, .requestRead 0 8 1300000 0 0 9)]

def fullSupply : List Packet := List.replicate TaskScheduler.maxWriterPackets TaskScheduler.fullPacket

def serverJobs : List (ServerJob 40) := [.read (⟨0, 8, 1300000, 0, 0⟩, 9) fullSupply (some [7, 8, 9]) 0]

def threeBytes : List Packet := [TaskScheduler.fullPacket.withPayload [7, 8, 9]]

def answerPackets : List Packet :=
  filledPacket TaskScheduler.fullPacket ((answer 40 ⟨0, 8, 1300000, 0, 0⟩ threeBytes 0).fields.flatMap Field.bytes) 2 :: threeBytes

def served : List (Bool × Station.Action) :=
  [(true, .onReceive 1 6), (true, .processRecvPackets), (true, .recv), (true, .send answerPackets)]

def answered : List (Bool × Station.Action) :=
  [(false, .onReceive 2 8), (false, .onReceive 3 9), (false, .processRecvPackets), (false, .recv)]

def readSession : List (Bool × Station.Action) :=
  Duplex.handshake ++ (readJobs.filterMap fun job => written job.1 job.2).map
      (fun packets => (false, Station.Action.send packets)) ++
    Duplex.pumps false 5 ++ served ++ Duplex.pumps true 7 ++ answered

lemma serverJobs_packets : serverJobs.map ServerJob.packets = [some answerPackets] := by
  obtain ⟨sent, back, h⟩ := @schedule_isSome fullSupply ⟨0, 8, 1300000, 0, 0⟩ (some [7, 8, 9]) 0 List.length_replicate
    fullPackets_sizes (by decide) (by decide)
  have hsupply : fullSupply = TaskScheduler.fullPacket :: List.replicate 1099 TaskScheduler.fullPacket := rfl
  have hlen : fullSupply.length = TaskScheduler.maxWriterPackets := List.length_replicate
  have hfull := fullPackets_sizes
  rw [hsupply] at h hlen
  obtain ⟨read, hread, hwritten⟩ := schedule_written (n := 40) hlen hfull (by decide) h
  have hreaded : read.1 = threeBytes := by
    have hsize : TaskScheduler.fullPacket.payload.length = 1300 := List.length_replicate
    rw [List.take_replicate, Nat.min_eq_left (by decide), List.replicate_succ, nativeRead, List.head?_cons,
      Option.bind_some, hsize, if_neg (by decide)] at hread
    cases hread
    rfl
  have hfree : (List.replicate 1099 TaskScheduler.fullPacket).drop 1000 ≠ [] :=
    List.ne_nil_of_length_pos (by rw [List.length_drop, List.length_replicate]; decide)
  rw [hreaded, answer_written List.length_replicate hfree (by decide) (by decide)] at hwritten
  rw [serverJobs, List.map_singleton, ServerJob.packets, hsupply, h, Option.map_some, ← hwritten]
  rfl

def readThreeBytes (file offset : UInt64) (bytes : Option (List UInt8)) : Prop :=
  file = 9 ∧ bytes = some (slice [7, 8, 9] offset.toNat (1000 * maxPayloadSize))

lemma readJobs_sendable : ∀ job ∈ readJobs, Sendable job.1 job.2 := by
  refine List.forall_mem_singleton.mpr ⟨?_, ⟨by decide, by decide, by decide, ?_⟩, trivial⟩
  · simp [Sent.fields, Field.WellFormed, MessageType.field, put, toBytes, MessageType.size, CType.sizeof]
  · intro ps hps
    cases hps

lemma serverJobs_ok : ∀ job ∈ serverJobs, job.Ok readThreeBytes :=
  List.forall_mem_singleton.mpr ⟨List.length_replicate, fullPackets_sizes, ⟨rfl, rfl⟩, by decide, by decide⟩

lemma exists_readSession :
    ∃ d, Path Duplex.step Duplex.Owns
        (Duplex.create Duplex.keys (fun _ => 0) (fun _ => 1) fun _ => [Packet.ofPayload []]) readSession d ∧
      ((d.station true).received.length = 1 ∧ (d.station false).sent.length = 1) ∧
      ((d.station false).received.length = 2 ∧ (d.station true).sent.length = 2) ∧
      ∀ i, (d.station i).sent.length < seqLimit := by
  have hnew : ∀ a ∈ readSession, ∀ p ∈ a.2.data, p.ackNumber = 0 := by decide
  refine ⟨_, path_of_run rfl fun a ha _ p hp => Or.inl (hnew a ha p hp), ⟨rfl, rfl⟩, ⟨rfl, rfl⟩, by decide⟩

lemma sends_readSession : (sends false readSession).map some = readJobs.map fun job => written job.1 job.2 := rfl

lemma serves_readSession : (sends true readSession).map some = serverJobs.map ServerJob.packets := serverJobs_packets.symm

lemma heard_readSession {d : Duplex} (hd : Path Duplex.step Duplex.Owns
      (Duplex.create Duplex.keys (fun _ => 0) (fun _ => 1) fun _ => [Packet.ofPayload []]) readSession d)
    (hclient : (d.station false).received.length = (d.station true).sent.length)
    (hlt : ∀ i, (d.station i).sent.length < seqLimit) {heard : List Message} (hheard : Hears d false heard) :
    ∃ x, heard.filterMap (readResponse 40) = [x] ∧ x.header = ⟨0, 8, 1300000, 0, 0⟩ ∧ x.error = 0 ∧
      x.data.map Packet.payload = [[7, 8, 9]] := by
  obtain ⟨l, hanswered, hall⟩ := (exists_answered hd hlt false serverJobs_ok serves_readSession).2 heard hheard
  rw [List.take_of_length_le (hall hclient)] at hanswered
  obtain ⟨x, rest, hx, hrest, hheard⟩ := List.forall₂_cons_left_iff.mp hanswered
  rw [List.filterMap_nil, List.forall₂_nil_left_iff] at hrest
  subst hrest
  obtain ⟨-, ⟨-, rfl⟩, ⟨hnil, -⟩ | ⟨-, herror, init, last, hdata, hinit, -, -, hbytes⟩⟩ := hx.data
  · cases hnil
  · have hbytes : (x.data.map Packet.payload).flatten = [7, 8, 9] := hbytes
    refine ⟨x, hheard, hx.header, herror, ?_⟩
    cases init with
    | nil =>
      rw [hdata, List.nil_append, List.flatten_singleton] at hbytes
      rw [hdata, hbytes, List.nil_append]
    | cons p init =>
      have hlength := congrArg List.length hbytes
      rw [hdata, List.cons_append, List.flatten_cons, List.length_append, hinit p List.mem_cons_self, maxPayloadSize] at hlength
      exact absurd hlength (Nat.ne_of_gt (Nat.lt_of_lt_of_le (by decide) (Nat.le_add_right 1300 _)))

theorem reads_answered_threeBytes :
    ∃ d, Path Duplex.step Duplex.Owns
        (Duplex.create Duplex.keys (fun _ => 0) (fun _ => 1) fun _ => [Packet.ofPayload []]) readSession d ∧
      ∃ heard served, Hears d false heard ∧ served.Perm [(⟨0, 8, 1300000, 0, 0⟩, 9)] ∧
        List.Forall₂ (Answered readThreeBytes) served (heard.filterMap (readResponse 40)) := by
  obtain ⟨d, hd, hserver, hclient, hlt⟩ := exists_readSession
  obtain ⟨asked, hasked⟩ := exists_hears hd hlt false readJobs_sendable sends_readSession
  have hrequests : asked.filterMap (readRequest 40) = serverJobs.filterMap ServerJob.asked? :=
    (Hears.subperm hd hlt false readJobs_sendable sends_readSession hasked).2 (hserver.1.trans hserver.2.symm)
  obtain ⟨⟨heard, hheard⟩, hall⟩ := reads_answered hd hlt false readJobs_sendable sends_readSession hasked serverJobs_ok
    (hrequests ▸ List.Subperm.refl _) serves_readSession
  obtain ⟨served, -, hanswered, hperm⟩ := hall heard hheard
  exact ⟨d, hd, heard, served, hheard, hperm (hserver.1.trans hserver.2.symm) (hclient.1.trans hclient.2.symm)
    (hrequests ▸ List.Perm.refl _), hanswered⟩

end

end FastTransport.TaskQueue
