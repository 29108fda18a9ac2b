import FastTransport.TaskQueue.NativeFile

/-! `ResponseReadFileJob` on a disk thread: the send packets it is given, sends and gives back. -/

namespace FastTransport.TaskQueue

open Lib.Bytes Lib.Lists Protocol
open Protocol.DirectoryEntryWriter (sizes)

structure ReadFileRequest where
  request : UInt64
  inode : UInt64
  size : UInt64
  offset : UInt64
  skipped : UInt64

namespace ResponseReadFileJob

def header (r : ReadFileRequest) : List Field :=
  [MessageType.responseRead.field, .trivial (toBytes 8 r.request.toNat), .trivial (toBytes 8 r.inode.toNat),
    .trivial (toBytes 8 r.size.toNat), .trivial (toBytes 8 r.offset.toNat), .trivial (toBytes 8 r.skipped.toNat)]

def error (errno : UInt32) : Field := .trivial (toBytes 4 errno.toNat)

def executeResponse (r : ReadFileRequest) (bytes : Option (List UInt8)) (errno : UInt32) (w : MessageWriter) :
    Option (MessageWriter × List Packet) :=
  (w.writeFields (header r)).bind fun w =>
    (w.getDataPackets 1000).bind fun data =>
      data.1.head?.bind fun front =>
        let total := data.1.length * front.payload.length
        if total < r.size.toNat then none
        else
          (NativeFile.read data.1 total bytes).bind fun read =>
            if read.1 = [] then (data.2.writeFields [error errno]).map fun w => (w, [])
            else (data.2.writeFields [error 0, .packets read.1]).map fun w => (w, read.2)

/-- The packets of the sent message and those that go back to the free send packets. -/
def scheduleResponseReadDiskJob (packets : List Packet) (r : ReadFileRequest) (bytes : Option (List UInt8))
    (errno : UInt32) : Option (List Packet × List Packet) :=
  (executeResponse r bytes errno (MessageWriter.create packets)).bind fun x =>
    x.1.getWritedPackets.map fun y => (y.1, (y.2.packets ++ x.2).map TaskScheduler.fullSize)

end ResponseReadFileJob

lemma identity_setPayloadSize (p : Packet) (size : ℕ) : (p.setPayloadSize size).identity = p.identity := rfl

namespace NativeFile

variable {packets : List Packet} {size : ℕ} {bytes : Option (List UInt8)} {r : List Packet × List Packet}

lemma read_eq (h : read packets size bytes = some r) :
    ∃ front filled, packets.head? = some front ∧ front.payload.length ≠ 0 ∧
      filled.map Packet.identity = packets.map Packet.identity ∧
      ((front.payload.length * packets.length % 2 ^ 64 = readed bytes ∧ r = (filled, [])) ∨
        (front.payload.length * packets.length % 2 ^ 64 ≠ readed bytes ∧
          r.1.map Packet.identity =
            (filled.take (readCount (readed bytes) front.payload.length)).map Packet.identity ∧
          r.2 = filled.drop (readCount (readed bytes) front.payload.length))) := by
  obtain ⟨front, hfront, h⟩ := Option.bind_eq_some_iff.mp h
  dsimp only at h
  split_ifs at h with hb
  obtain ⟨blocks, -, h⟩ := Option.bind_eq_some_iff.mp h
  have hid : (((packets.take blocks).mapIdx (fill front.payload.length (bytes.getD []))) ++
      packets.drop blocks).map Packet.identity = packets.map Packet.identity := by
    have hfill : ((packets.take blocks).mapIdx (fill front.payload.length (bytes.getD []))).map Packet.identity =
        (packets.take blocks).map Packet.identity :=
      List.ext_getElem (by simp) fun i h₁ h₂ => by simp [fill, Packet.setPayloadSize]
    rw [List.map_append, hfill, ← List.map_append, List.take_append_drop]
  have hlen := congrArg List.length hid
  rw [List.length_map, List.length_map] at hlen
  refine ⟨front, _, hfront, hb, hid, ?_⟩
  rw [hlen] at h
  split_ifs at h with hlt hfull
  · exact Or.inl ⟨hfull, (Option.some.inj h).symm⟩
  · cases h
    exact Or.inr ⟨hfull, map_modify_eq fun p _ => identity_setPayloadSize p _, rfl⟩

lemma read_identity (h : read packets size bytes = some r) :
    (r.1 ++ r.2).map Packet.identity = packets.map Packet.identity := by
  obtain ⟨front, filled, -, -, hid, ⟨-, rfl⟩ | ⟨-, h₁, h₂⟩⟩ := read_eq h
  · rw [List.append_nil, hid]
  · rw [List.map_append, h₁, h₂, ← List.map_append, List.take_append_drop, hid]

lemma read_eq_nil_iff (h : read packets size bytes = some r) (hcount : packets.length < 2 ^ 31)
    (hsize : ∀ p ∈ packets, p.payload.length ≠ 1 ∧ p.payload.length < 2 ^ 16)
    (hbytes : (bytes.getD []).length < 2 ^ 63) : r.1 = [] ↔ bytes.getD [] = [] := by
  obtain ⟨front, filled, hfront, hb, hid, hr⟩ := read_eq h
  obtain ⟨hone, hlt⟩ := hsize front (List.mem_of_head? hfront)
  have hlen := congrArg List.length hid
  rw [List.length_map, List.length_map] at hlen
  have hpos : 0 < packets.length := List.length_pos_of_mem (List.mem_of_head? hfront)
  have htotal : front.payload.length * packets.length < 2 ^ 16 * 2 ^ 31 := Nat.mul_lt_mul'' hlt hcount
  have hfilled : 0 < front.payload.length * packets.length := Nat.mul_pos (by omega) hpos
  rw [Nat.mod_eq_of_lt (by omega)] at hr
  have hcount : readCount (readed bytes) front.payload.length = _ := readCount_eq (by omega) (by omega) hbytes
  rcases hr with ⟨hfull, rfl⟩ | ⟨-, h₁, -⟩
  · refine iff_of_false (List.ne_nil_of_length_pos (hlen ▸ hpos)) fun hnil => ?_
    cases bytes with
    | none =>
      rw [readed_none] at hfull
      omega
    | some bytes =>
      rw [readed_some bytes hbytes] at hfull
      rw [show bytes = [] from hnil, List.length_nil] at hfull
      omega
  · have hlen₁ := congrArg List.length h₁
    rw [List.length_map, List.length_map, List.length_take, hcount, hlen] at hlen₁
    rw [← List.length_eq_zero_iff, ← List.length_eq_zero_iff, hlen₁]
    constructor
    · intro hzero
      have hdiv : ((bytes.getD []).length + front.payload.length - 1) / front.payload.length = 0 := by omega
      have := (Nat.div_eq_zero_iff.mp hdiv).resolve_left hb
      omega
    · intro hzero
      rw [hzero, Nat.zero_add, Nat.div_eq_of_lt (by omega), Nat.zero_min]

end NativeFile

namespace ResponseReadFileJob

variable {packets : List Packet} {r : ReadFileRequest} {bytes : Option (List UInt8)} {errno : UInt32}

lemma identity_writeField {w v : MessageWriter} {f : Field} (hf : f.isPackets = false) (h : w.writeField f = some v) :
    v.packets.map Packet.identity = w.packets.map Packet.identity := by
  cases f with
  | trivial bytes => exact (MessageWriter.write_written h).identity
  | sequence width size bytes =>
    obtain ⟨u, hu, h⟩ := Option.bind_eq_some_iff.mp h
    exact (MessageWriter.write_written h).identity.trans (MessageWriter.write_written hu).identity
  | packets ps => cases hf

lemma identity_writeFields {w v : MessageWriter} {fields : List Field} (hfields : ∀ f ∈ fields, f.isPackets = false)
    (h : w.writeFields fields = some v) : v.packets.map Packet.identity = w.packets.map Packet.identity := by
  induction fields generalizing w with
  | nil =>
    cases h
    rfl
  | cons f fields ih =>
    obtain ⟨u, hu, h⟩ := Option.bind_eq_some_iff.mp h
    exact (ih (fun g hg => hfields g (List.mem_cons_of_mem f hg)) h).trans
      (identity_writeField (hfields f List.mem_cons_self) hu)

lemma isPackets_header : ∀ f ∈ header r, f.isPackets = false := by
  simp [header, MessageType.field, Field.isPackets]

lemma identity_fullSize (ps : List Packet) :
    (ps.map TaskScheduler.fullSize).map Packet.identity = ps.map Packet.identity := by
  rw [List.map_map]
  rfl

lemma identity_packets {w v : MessageWriter} {ps : List Packet} (h : w.writeFields [error 0, .packets ps] = some v) :
    (v.packets.map Packet.identity).Perm (ps.map Packet.identity ++ w.packets.map Packet.identity) := by
  obtain ⟨u, hu, h⟩ := Option.bind_eq_some_iff.mp h
  obtain ⟨v', hv, h⟩ := Option.bind_eq_some_iff.mp h
  cases h
  obtain ⟨x, hx, -, rfl⟩ := MessageWriter.writePackets_eq hv
  rw [← (MessageWriter.write_written hu).identity, ← (MessageWriter.write_written hx).identity]
  simp only [List.map_append, List.append_assoc]
  refine List.perm_append_comm_assoc _ _ _ |>.trans ?_
  rw [← List.map_append, List.take_append_drop]

lemma executeResponse_packets {w : MessageWriter} {x : MessageWriter × List Packet}
    (h : executeResponse r bytes errno w = some x) :
    ∃ (kept data : List Packet) (total : ℕ) (read : List Packet × List Packet),
      (w.packets.map Packet.identity).Perm ((kept ++ data).map Packet.identity) ∧
      data.length ≤ 1000 ∧ data ≠ [] ∧ (sizes data ⊆ sizes w.packets) ∧
      NativeFile.read data total bytes = some read ∧
      ((read.1 = [] ∧ x.2 = [] ∧ x.1.packets.map Packet.identity = kept.map Packet.identity) ∨
        (read.1 ≠ [] ∧ x.2 = read.2 ∧
          (x.1.packets.map Packet.identity).Perm ((read.1 ++ kept).map Packet.identity))) := by
  obtain ⟨u, hu, h⟩ := Option.bind_eq_some_iff.mp h
  obtain ⟨data, hd, h⟩ := Option.bind_eq_some_iff.mp h
  obtain ⟨front, hfront, h⟩ := Option.bind_eq_some_iff.mp h
  dsimp only at h
  split_ifs at h with hassert
  obtain ⟨read, hread, h⟩ := Option.bind_eq_some_iff.mp h
  obtain ⟨-, hd⟩ := Option.ite_none_right_eq_some.mp hd
  have hne : data.1 ≠ [] := fun hnil => by
    rw [hnil] at hfront
    cases hfront
  cases hd
  refine ⟨u.packets.take (u.packet + 1) ++ (u.packets.drop (u.packet + 1)).drop 1000, _, _, read, ?_,
    List.length_take_le _ _, hne, ?_, hread, ?_⟩
  rotate_left 2
  · split_ifs at h with hnil
    · obtain ⟨v, hv, rfl⟩ := Option.map_eq_some_iff.mp h
      exact Or.inl ⟨hnil, rfl, identity_writeFields (fun f hf => by rw [List.mem_singleton.mp hf]; rfl) hv⟩
    · obtain ⟨v, hv, rfl⟩ := Option.map_eq_some_iff.mp h
      refine Or.inr ⟨hnil, rfl, ?_⟩
      rw [List.map_append]
      exact identity_packets hv
  · rw [← identity_writeFields isPackets_header hu]
    refine List.Perm.map _ ?_
    nth_rewrite 1 [← List.take_append_drop (u.packet + 1) u.packets,
      ← List.take_append_drop 1000 (u.packets.drop (u.packet + 1))]
    rw [List.append_assoc]
    exact List.perm_append_comm.append_left _
  · rw [← sizes_writeFields isPackets_header hu]
    exact fun n hn => ((List.take_sublist _ _).trans (List.drop_sublist _ _)).map _ |>.subset hn

section

variable {sent back : List Packet}

lemma schedule_packets (h : scheduleResponseReadDiskJob packets r bytes errno = some (sent, back)) :
    ∃ (kept data : List Packet) (total : ℕ) (read : List Packet × List Packet),
      (packets.map Packet.identity).Perm ((kept ++ data).map Packet.identity) ∧
      data.length ≤ 1000 ∧ data ≠ [] ∧ (sizes data ⊆ sizes packets) ∧
      NativeFile.read data total bytes = some read ∧
      ((read.1 = [] ∧ (sent ++ back).map Packet.identity = kept.map Packet.identity) ∨
        (read.1 ≠ [] ∧ ((sent ++ back).map Packet.identity).Perm ((kept ++ data).map Packet.identity))) := by
  obtain ⟨x, hx, h⟩ := Option.bind_eq_some_iff.mp h
  obtain ⟨y, hy, h⟩ := Option.map_eq_some_iff.mp h
  cases h
  obtain ⟨kept, data, total, read, hperm, hlen, hne, hsub, hread, hout⟩ := executeResponse_packets hx
  have hback : ((y.1 ++ (y.2.packets ++ x.2).map TaskScheduler.fullSize).map Packet.identity) =
      x.1.packets.map Packet.identity ++ x.2.map Packet.identity := by
    rw [List.map_append, identity_fullSize, List.map_append, ← List.append_assoc, ← List.map_append,
      (MessageWriter.getWritedPackets_split hy).1]
  refine ⟨kept, data, total, read, hperm, hlen, hne, hsub, hread, ?_⟩
  rw [hback]
  rcases hout with ⟨hempty, hx₂, hkept⟩ | ⟨hfull, hx₂, hkept⟩
  · rw [hx₂, hkept, List.map_nil, List.append_nil]
    exact Or.inl ⟨hempty, rfl⟩
  · refine Or.inr ⟨hfull, (hkept.append_right _).trans ?_⟩
    rw [hx₂, List.map_append, List.map_append, ← NativeFile.read_identity hread, List.map_append]
    refine (List.perm_append_comm.append_right _).trans ?_
    rw [List.append_assoc]

lemma packets_lost_or_returned (hsize : ∀ p ∈ packets, p.payload.length ≠ 1 ∧ p.payload.length < 2 ^ 16)
    (hbytes : (bytes.getD []).length < 2 ^ 63)
    (h : scheduleResponseReadDiskJob packets r bytes errno = some (sent, back)) :
    (bytes.getD [] = [] ∧ (sent ++ back).length < packets.length) ∨
      (bytes.getD [] ≠ [] ∧ ((sent ++ back).map Packet.identity).Perm (packets.map Packet.identity)) := by
  obtain ⟨kept, data, total, read, hperm, hlen, hne, hsub, hread, hout⟩ := schedule_packets h
  have hdata : ∀ p ∈ data, p.payload.length ≠ 1 ∧ p.payload.length < 2 ^ 16 := fun p hp => by
    obtain ⟨q, hq, he⟩ := List.mem_map.mp (hsub (List.mem_map_of_mem hp))
    rw [← he]
    exact hsize q hq
  have hnil := NativeFile.read_eq_nil_iff hread (by omega) hdata hbytes
  rcases hout with ⟨hempty, hkept⟩ | ⟨hfull, hkept⟩
  · have hl := hperm.length_eq
    have hk := congrArg List.length hkept
    have hpos := List.length_pos_of_ne_nil hne
    simp only [List.length_map, List.length_append] at hl hk ⊢
    exact Or.inl ⟨hnil.mp hempty, by omega⟩
  · exact Or.inr ⟨fun hb => hfull (hnil.mpr hb), hkept.trans hperm.symm⟩

end

lemma length_header : ((header r).flatMap Field.bytes).length = 44 := by
  simp [header, MessageType.field, Field.bytes, MessageType.size]

lemma writeFields_error {p : Packet} {rest : List Packet} {number offset : ℕ}
    (h : offset + 4 ≤ p.payload.length) (hpos : frameCountSize < offset) :
    ∃ w, MessageWriter.writeFields ⟨p :: rest, 0, number, offset⟩ [error errno] = some w ∧
      w.getWritedPackets.isSome := by
  have hfit : offset + (([error errno] : List Field).flatMap Field.bytes).length ≤ p.payload.length := by
    simpa [error, Field.bytes] using h
  rw [MessageWriter.writeFields_fits (by simp [error, Field.isPackets]) hfit]
  refine ⟨_, rfl, ?_⟩
  rw [MessageWriter.getWritedPackets_cons (n := 0) (if_neg (by simp)) (by omega) (Nat.zero_le _)]
  · rfl
  · rw [Packet.withPayload_payload, overwrite_length hfit]
    omega

lemma writeFields_readed {p : Packet} {rest ps : List Packet} {number offset : ℕ}
    (h : offset + 4 + sizeWidth ≤ p.payload.length) (hpos : frameCountSize < offset) (hrest : rest ≠ []) :
    ∃ w, MessageWriter.writeFields ⟨p :: rest, 0, number, offset⟩ [error 0, .packets ps] = some w ∧
      w.getWritedPackets.isSome := by
  have hfit : offset + (([error 0] : List Field).flatMap Field.bytes).length ≤ p.payload.length := by
    have : offset + 4 ≤ p.payload.length := by omega
    simpa [error, Field.bytes] using this
  have hlen := overwrite_length hfit
  have hsize : offset + (([error 0] : List Field).flatMap Field.bytes).length = offset + 4 := by
    simp [error, Field.bytes]
  have hroom : offset + (([error 0] : List Field).flatMap Field.bytes).length + sizeWidth ≤
      (p.withPayload (overwrite p.payload offset (([error 0] : List Field).flatMap Field.bytes))).payload.length := by
    rwa [Packet.withPayload_payload, hlen, hsize]
  have hsplit : ([error 0, .packets ps] : List Field) = [error 0] ++ [.packets ps] := rfl
  rw [hsplit, MessageWriter.writeFields_append,
    MessageWriter.writeFields_fits (by simp [error, Field.isPackets]) hfit, Option.bind_some, MessageWriter.writeFields,
    MessageWriter.writeField, MessageWriter.writePackets_fits hrest hroom]
  refine ⟨_, rfl, ?_⟩
  rw [MessageWriter.getWritedPackets_cons (n := ps.length)]
  · rfl
  · rw [if_pos ⟨rfl, by omega⟩, Nat.add_sub_cancel_left]
  · omega
  · rw [List.length_append]
    exact Nat.le_add_right _ _
  · rw [Packet.withPayload_payload, overwrite_length (by rwa [toBytes_length]), Packet.withPayload_payload, hlen]
    omega

lemma schedule_isSome (hlen : packets.length = TaskScheduler.maxWriterPackets)
    (hfull : ∀ p ∈ packets, p.payload.length = maxPayloadSize) (hsize : r.size.toNat ≤ 1000 * maxPayloadSize)
    (hbytes : (bytes.getD []).length ≤ 1000 * maxPayloadSize) :
    ∃ sent back, scheduleResponseReadDiskJob packets r bytes errno = some (sent, back) := by
  cases packets with
  | nil => cases hlen
  | cons first free =>
    have hfree : free.length = 1099 := Nat.succ.inj hlen
    have hfirst := hfull first List.mem_cons_self
    have hdata : ∀ p ∈ free.take 1000, p.payload.length = maxPayloadSize :=
      fun p hp => hfull p (List.mem_cons_of_mem _ (List.mem_of_mem_take hp))
    have hcount : (free.take 1000).length = 1000 := by
      rw [List.length_take]
      omega
    obtain ⟨front, rest, htake⟩ := List.exists_cons_of_length_eq_add_one hcount
    have hfront := hdata front (htake ▸ List.mem_cons_self)
    have hne : free.take 1000 ≠ [] := List.ne_nil_of_length_pos (by omega)
    obtain ⟨read, hread⟩ : ∃ read,
        NativeFile.read (free.take 1000) (1000 * maxPayloadSize) bytes = some read := by
      rw [NativeFile.read_eq_nativeRead hne hdata (by decide) (by decide) (by omega) (by rw [hcount]) hbytes]
      exact NativeFile.nativeRead_isSome (by decide) hne hdata
    have hfit : frameCountSize + ((header r).flatMap Field.bytes).length ≤ first.payload.length := by
      rw [length_header, hfirst]
      decide
    have hlen := overwrite_length hfit
    have hget (p : Packet) (number offset : ℕ) : MessageWriter.getDataPackets ⟨p :: free, 0, number, offset⟩ 1000 =
        some (free.take 1000, ⟨p :: free.drop 1000, 0, number, offset⟩) := by
      rw [MessageWriter.getDataPackets, if_pos (by simp only [List.length_cons]; omega)]
      rfl
    have hhead : (free.take 1000).head? = some front := by
      rw [htake, List.head?_cons]
    have hjob : ∃ x, executeResponse r bytes errno (MessageWriter.create (first :: free)) = some x ∧
        x.1.getWritedPackets.isSome := by
      rw [executeResponse, MessageWriter.create, MessageWriter.writeFields_fits isPackets_header hfit, Option.bind_some,
        hget, Option.bind_some]
      dsimp only
      rw [hhead, Option.bind_some, hfront, hcount, if_neg (not_lt.mpr hsize), hread, Option.bind_some]
      by_cases hnil : read.1 = []
      · obtain ⟨w, hw, hsome⟩ := @writeFields_error errno
          (first.withPayload (overwrite first.payload frameCountSize ((header r).flatMap Field.bytes)))
          (free.drop 1000) 1 (frameCountSize + ((header r).flatMap Field.bytes).length)
          (by rw [Packet.withPayload_payload, hlen, length_header, hfirst]; decide) (by rw [length_header]; decide)
        rw [if_pos hnil, hw]
        exact ⟨_, rfl, hsome⟩
      · obtain ⟨w, hw, hsome⟩ := @writeFields_readed
          (first.withPayload (overwrite first.payload frameCountSize ((header r).flatMap Field.bytes)))
          (free.drop 1000) read.1 1 (frameCountSize + ((header r).flatMap Field.bytes).length)
          (by rw [Packet.withPayload_payload, hlen, length_header, hfirst]; decide) (by rw [length_header]; decide)
          (List.ne_nil_of_length_pos (by rw [List.length_drop]; omega))
        rw [if_neg hnil, hw]
        exact ⟨_, rfl, hsome⟩
    obtain ⟨x, hx, hsome⟩ := hjob
    obtain ⟨y, hy⟩ := Option.isSome_iff_exists.mp hsome
    rw [scheduleResponseReadDiskJob, hx, Option.bind_some, hy]
    exact ⟨_, _, rfl⟩

lemma fullPackets_sizes : ∀ p ∈ List.replicate TaskScheduler.maxWriterPackets TaskScheduler.fullPacket,
    p.payload.length = maxPayloadSize := by
  intro p hp
  rw [List.eq_of_mem_replicate hp, TaskScheduler.fullPacket, Packet.ofPayload, List.length_replicate]

lemma fullPackets_bounds : ∀ p ∈ List.replicate TaskScheduler.maxWriterPackets TaskScheduler.fullPacket,
    p.payload.length ≠ 1 ∧ p.payload.length < 2 ^ 16 := by
  intro p hp
  rw [fullPackets_sizes p hp]
  decide

theorem send_packets_returned_iff {sent back : List Packet}
    (hsize : ∀ p ∈ packets, p.payload.length ≠ 1 ∧ p.payload.length < 2 ^ 16)
    (hbytes : (bytes.getD []).length < 2 ^ 63)
    (h : scheduleResponseReadDiskJob packets r bytes errno = some (sent, back)) :
    ((sent ++ back).map Packet.identity).Perm (packets.map Packet.identity) ↔ bytes.getD [] ≠ [] := by
  rcases packets_lost_or_returned hsize hbytes h with ⟨hb, hlt⟩ | ⟨hb, hp⟩
  · refine iff_of_false (fun hp => ?_) (not_not.mpr hb)
    have hl := hp.length_eq
    rw [List.length_map, List.length_map] at hl
    exact hlt.ne hl
  · exact iff_of_true hp hb

theorem send_packets_returned_iff_threeBytes : ∃ sent back,
    scheduleResponseReadDiskJob (List.replicate TaskScheduler.maxWriterPackets TaskScheduler.fullPacket)
        ⟨1, 2, 5, 0, 0⟩ (some [7, 8, 9]) 0 = some (sent, back) ∧
      (((sent ++ back).map Packet.identity).Perm
        ((List.replicate TaskScheduler.maxWriterPackets TaskScheduler.fullPacket).map Packet.identity) ↔
          ([7, 8, 9] : List UInt8) ≠ []) := by
  obtain ⟨sent, back, h⟩ := @schedule_isSome
    (List.replicate TaskScheduler.maxWriterPackets TaskScheduler.fullPacket) ⟨1, 2, 5, 0, 0⟩ (some [7, 8, 9]) 0
    List.length_replicate fullPackets_sizes (by decide) (by decide)
  exact ⟨sent, back, h, send_packets_returned_iff fullPackets_bounds (by decide) h⟩

def atEnd : ReadFileRequest := ⟨1, 2, 1300000, 1300000, 0⟩

theorem send_packets_not_returned : ∃ sent back,
    scheduleResponseReadDiskJob (List.replicate TaskScheduler.maxWriterPackets TaskScheduler.fullPacket) atEnd (some [])
        0 = some (sent, back) ∧
      ¬ ((sent ++ back).map Packet.identity).Perm
        ((List.replicate TaskScheduler.maxWriterPackets TaskScheduler.fullPacket).map Packet.identity) := by
  obtain ⟨sent, back, h⟩ := @schedule_isSome
    (List.replicate TaskScheduler.maxWriterPackets TaskScheduler.fullPacket) atEnd (some []) 0
    List.length_replicate fullPackets_sizes (by decide) (by decide)
  refine ⟨sent, back, h, fun hp => ?_⟩
  rcases packets_lost_or_returned fullPackets_bounds (by decide) h with ⟨-, hlt⟩ | ⟨hb, -⟩
  · have hl := hp.length_eq
    rw [List.length_map, List.length_map] at hl
    exact hlt.ne hl
  · exact hb rfl

end ResponseReadFileJob

end FastTransport.TaskQueue
