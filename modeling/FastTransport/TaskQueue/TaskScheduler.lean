import FastTransport.TaskQueue.Messages
import FastTransport.TaskQueue.ResponseReadDirJob

/-! `TaskScheduler`: the pool of free send packets, and the jobs that take packets out of it and put them back. -/

namespace FastTransport.TaskQueue

open Lib.Bytes Lib.Lists Lib.Runs Protocol
open Protocol.DirectoryEntryWriter (sizes)

/-- `returning` holds what the read jobs give back to the main queue, `reading` the packets of their writers. -/
structure TaskScheduler where
  freeSendPackets : List Packet
  freeUserSendPackets : List Packet
  reading : List (List Packet)
  returning : List (List Packet)

inductive DirectoryJob
  | readDir (request : UInt64) (d : ServerDirectory) (size offset : ℕ)
  | readDirPlus (request clientInode : UInt64) (d : ServerDirectory) (disk : List DiskEntry) (size offset : ℕ)

namespace DirectoryJob

def header : DirectoryJob → List Field
  | readDir request _ _ _ => [MessageType.responseReadDir.field, .trivial (toBytes 8 request.toNat)]
  | readDirPlus request clientInode _ _ _ _ =>
    [MessageType.responseReadDirPlus.field, .trivial (toBytes 8 request.toNat),
      .trivial (toBytes 8 clientInode.toNat)]

def entries : DirectoryJob → List Packet → Option (List Packet × List Packet)
  | readDir _ d size offset, packets => ResponseReadDirJob.executeResponse d size offset packets
  | readDirPlus _ _ d disk size offset, packets =>
    (ResponseReadDirPlusJob.executeResponse d disk size offset packets).map fun r => (r.1, r.2.1)

def executeResponse (job : DirectoryJob) (w : MessageWriter) : Option MessageWriter :=
  (w.writeFields job.header).bind fun w =>
    (w.getDataPackets 99).bind fun data =>
      (job.entries data.1).bind fun r => (data.2.writePackets r.1).map fun w => w.addFreePackets r.2

end DirectoryJob

def nativeRead (packets : List Packet) (bytes : Option (List UInt8)) : Option (List Packet × List Packet) :=
  packets.head?.bind fun first =>
    let blockSize := first.payload.length
    if blockSize = 0 then none
    else
      let readed := bytes.getD []
      let count := (readed.length + blockSize - 1) / blockSize
      some ((packets.take count).mapIdx fun i p => p.withPayload (slice readed (i * blockSize) blockSize),
        (packets.drop count).map fun p => p.setPayloadSize blockSize)

/-- `ResponseReadFileJob`: the data packets that were not read into are given back, or dropped where nothing was. -/
def readFileJob (header : List Field) (bytes : Option (List UInt8)) (errno : UInt32) (w : MessageWriter) :
    Option (MessageWriter × List Packet) :=
  (w.writeFields header).bind fun w =>
    (w.getDataPackets 1000).bind fun data =>
      (nativeRead data.1 bytes).bind fun r =>
        if r.1 = [] then (data.2.writeFields [.trivial (toBytes 4 errno.toNat)]).map fun w => (w, [])
        else (data.2.writeFields [.trivial (toBytes 4 0), .packets r.1]).map fun w => (w, r.2)

namespace TaskScheduler

def maxWriterPackets : ℕ := 1100

def fullSize (p : Packet) : Packet := p.setPayloadSize maxPayloadSize

def send2 (s : TaskScheduler) : TaskScheduler :=
  { s with freeSendPackets := s.freeSendPackets ++ s.freeUserSendPackets.map fullSize, freeUserSendPackets := [] }

def execute (s : TaskScheduler) (count : ℕ) (job : MessageWriter → Option MessageWriter) : Option TaskScheduler :=
  if s.freeSendPackets = [] then none
  else
    (job (MessageWriter.create (s.freeSendPackets.take count))).bind fun w =>
      w.getWritedPackets.map fun r =>
        { s with freeSendPackets := s.freeSendPackets.drop count ++ r.2.packets }

def fieldsJob (fields : List Field) (w : MessageWriter) : Option MessageWriter :=
  if fields.all fun f => !f.isPackets then w.writeFields fields else none

inductive Action
  | acknowledged (packets : List Packet)
  | mainJob (fields : List Field)
  | fuseNetworkJob (fields : List Field)
  | responseJob (fields : List Field)
  | directoryJob (job : DirectoryJob)
  | readJob
  | readDisk (i : ℕ) (header : List Field) (bytes : Option (List UInt8)) (errno : UInt32)
  | giveBack (i : ℕ)

def Action.isDirectory : Action → Bool
  | .directoryJob _ => true
  | _ => false

def refill (s : TaskScheduler) (count : ℕ) : TaskScheduler := if s.freeSendPackets.length < count then s.send2 else s

def step (s : TaskScheduler) : Action → Option TaskScheduler
  | .acknowledged packets => some { s with freeUserSendPackets := s.freeUserSendPackets ++ packets }
  | .mainJob fields =>
    (s.send2.execute s.send2.freeSendPackets.length (fieldsJob fields)).bind fun t =>
      if t.freeSendPackets = [] then none else some t
  | .fuseNetworkJob fields => (s.refill 1).execute maxWriterPackets (fieldsJob fields)
  | .responseJob fields => (s.refill 2500).execute maxWriterPackets (fieldsJob fields)
  | .directoryJob job => (s.refill 2500).execute maxWriterPackets job.executeResponse
  | .readJob =>
    let s := s.send2
    if s.freeSendPackets.length < maxWriterPackets then none
    else
      some { s with
        freeSendPackets := s.freeSendPackets.drop maxWriterPackets
        reading := s.reading ++ [s.freeSendPackets.take maxWriterPackets] }
  | .readDisk i header bytes errno =>
    (s.reading[i]?).bind fun packets =>
      (readFileJob header bytes errno (MessageWriter.create packets)).bind fun r =>
        r.1.getWritedPackets.map fun x =>
          { s with reading := s.reading.eraseIdx i, returning := s.returning ++ [x.2.packets ++ r.2] }
  | .giveBack i =>
    (s.returning[i]?).map fun packets =>
      { s with
        freeSendPackets := s.freeSendPackets ++ packets.map fullSize
        returning := s.returning.eraseIdx i }

def initial (packets : List Packet) : TaskScheduler := ⟨[], packets, [], []⟩

def FullSize (s : TaskScheduler) : Prop := ∀ p ∈ s.freeSendPackets, p.payload.length = maxPayloadSize

end TaskScheduler

section

variable {w w' : MessageWriter}

lemma sizes_writeLoop {fuel : ℕ} {src : List UInt8} (h : w.writeLoop fuel src = some w') :
    sizes w'.packets = sizes w.packets := by
  induction fuel generalizing w src with
  | zero =>
    cases src with
    | nil =>
      cases h
      rfl
    | cons b bs => cases h
  | succ fuel ih =>
    by_cases hsrc : src = []
    · subst hsrc
      cases h
      rfl
    · obtain ⟨p, v, hp, hv, h⟩ := MessageWriter.writeLoop_cases hsrc h
      have hpackets : v.packets = w.packets ∧ v.offset ≤ p.payload.length := by
        rcases hv with ⟨rfl, hlt⟩ | ⟨-, hv⟩
        · exact ⟨rfl, hlt.le⟩
        · obtain ⟨-, rfl⟩ := MessageWriter.getNextPacket_eq hv
          exact ⟨rfl, Nat.zero_le _⟩
      refine (ih h).trans ?_
      rw [MessageWriter.copyTo, hpackets.1]
      refine map_modify_eq fun q hq => ?_
      obtain rfl := Option.some.inj (hp.symm.trans hq)
      rw [Packet.withPayload_payload, overwrite_length]
      rw [List.length_take]
      omega

lemma sizes_writeField {f : Field} (hf : f.isPackets = false) (h : w.writeField f = some w') :
    sizes w'.packets = sizes w.packets := by
  cases f with
  | trivial bytes => exact sizes_writeLoop h
  | sequence width size bytes =>
    obtain ⟨v, hv, h⟩ := Option.bind_eq_some_iff.mp h
    exact (sizes_writeLoop h).trans (sizes_writeLoop hv)
  | packets ps => cases hf

lemma sizes_writeFields {fields : List Field} (hfields : ∀ f ∈ fields, f.isPackets = false)
    (h : w.writeFields fields = some w') : sizes w'.packets = sizes w.packets := by
  induction fields generalizing w with
  | nil =>
    cases h
    rfl
  | cons f fields ih =>
    obtain ⟨v, hv, h⟩ := Option.bind_eq_some_iff.mp h
    exact (ih (fun g hg => hfields g (List.mem_cons_of_mem f hg)) h).trans
      (sizes_writeField (hfields f List.mem_cons_self) hv)

lemma sizes_getWritedPackets {ps : List Packet} (h : w.getWritedPackets = some (ps, w')) :
    sizes w'.packets <:+ sizes w.packets := by
  rw [MessageWriter.getWritedPackets] at h
  by_cases hempty : w.packet = 0 ∧ w.offset = frameCountSize
  · rw [if_pos hempty] at h
    cases h
    exact List.suffix_rfl
  · rw [if_neg hempty] at h
    cases hps : w.packets with
    | nil => simp [hps] at h
    | cons front rest =>
      simp only [hps] at h
      obtain ⟨-, h⟩ := Option.ite_none_right_eq_some.mp h
      cases h
      rw [List.drop_succ_cons]
      exact ((List.drop_suffix _ _).map _).trans (List.suffix_cons _ _)

end

namespace TaskScheduler

lemma length_fullSize (p : Packet) : (fullSize p).payload.length = maxPayloadSize :=
  DirectoryEntryWriter.length_setPayloadSize p maxPayloadSize

lemma FullSize.send2 {s : TaskScheduler} (h : s.FullSize) : s.send2.FullSize := by
  intro p hp
  rcases List.mem_append.mp hp with hp | hp
  · exact h p hp
  · obtain ⟨q, -, rfl⟩ := List.mem_map.mp hp
    exact length_fullSize q

lemma FullSize.refill {s : TaskScheduler} (h : s.FullSize) (count : ℕ) : (s.refill count).FullSize := by
  rw [TaskScheduler.refill]
  split_ifs
  · exact h.send2
  · exact h

lemma FullSize.execute_fieldsJob {s t : TaskScheduler} (h : s.FullSize) {count : ℕ} {fields : List Field}
    (ht : s.execute count (fieldsJob fields) = some t) : t.FullSize := by
  rw [TaskScheduler.execute] at ht
  split_ifs at ht
  obtain ⟨w, hw, ht⟩ := Option.bind_eq_some_iff.mp ht
  obtain ⟨⟨written, v⟩, hv, rfl⟩ := Option.map_eq_some_iff.mp ht
  rw [fieldsJob] at hw
  split_ifs at hw with hfields
  intro p hp
  rcases List.mem_append.mp hp with hp | hp
  · exact h p (List.mem_of_mem_drop hp)
  · have hsize : p.payload.length ∈ sizes w.packets :=
      (sizes_getWritedPackets hv).subset (List.mem_map_of_mem hp)
    rw [sizes_writeFields (by simpa using hfields) hw] at hsize
    obtain ⟨q, hq, hlen⟩ := List.mem_map.mp hsize
    rw [← hlen]
    exact h q (List.mem_of_mem_take hq)

lemma FullSize.step {s t : TaskScheduler} (h : s.FullSize) {a : Action} (ha : a.isDirectory = false)
    (ht : s.step a = some t) : t.FullSize := by
  cases a with
  | acknowledged packets =>
    cases ht
    exact h
  | mainJob fields =>
    obtain ⟨v, hv, ht⟩ := Option.bind_eq_some_iff.mp ht
    split_ifs at ht
    cases ht
    exact h.send2.execute_fieldsJob hv
  | fuseNetworkJob fields => exact (h.refill 1).execute_fieldsJob ht
  | responseJob fields => exact (h.refill 2500).execute_fieldsJob ht
  | directoryJob job => cases ha
  | readJob =>
    rw [TaskScheduler.step] at ht
    split_ifs at ht
    cases ht
    exact fun p hp => h.send2 p (List.mem_of_mem_drop hp)
  | readDisk i header bytes errno =>
    obtain ⟨packets, -, ht⟩ := Option.bind_eq_some_iff.mp ht
    obtain ⟨r, -, ht⟩ := Option.bind_eq_some_iff.mp ht
    obtain ⟨x, -, rfl⟩ := Option.map_eq_some_iff.mp ht
    exact h
  | giveBack i =>
    obtain ⟨packets, -, rfl⟩ := Option.map_eq_some_iff.mp ht
    intro p hp
    rcases List.mem_append.mp hp with hp | hp
    · exact h p hp
    · obtain ⟨q, -, rfl⟩ := List.mem_map.mp hp
      exact length_fullSize q

end TaskScheduler

lemma exists_empty_of_getWritedPackets {w : DirectoryEntryWriter} {r : List Packet × DirectoryEntryWriter}
    (h : w.getWritedPackets = some r) : ∃ p ∈ r.2.getPackets, p.payload.length = 0 := by
  obtain ⟨v, hv, rfl⟩ := Option.map_eq_some_iff.mp h
  obtain ⟨hlt, rfl⟩ := Option.ite_none_right_eq_some.mp hv |>.imp_right fun hv => (Option.some.inj hv).symm
  have hne : (w.setPayloadSize.packets.drop (w.packet + 1)) ≠ [] := by
    rw [DirectoryEntryWriter.setPayloadSize, Ne, List.drop_eq_nil_iff, List.length_modify]
    omega
  obtain ⟨p, ps, hps⟩ := List.exists_cons_of_ne_nil hne
  refine ⟨p.setPayloadSize 0, ?_, DirectoryEntryWriter.length_setPayloadSize p 0⟩
  rw [DirectoryEntryWriter.getPackets, DirectoryEntryWriter.setPayloadSize]
  dsimp only
  rw [hps, List.modify_zero_cons]
  exact List.mem_cons_self

namespace DirectoryJob

lemma isPackets_header (job : DirectoryJob) : ∀ f ∈ job.header, f.isPackets = false := by
  cases job <;> simp [header, MessageType.field, Field.isPackets]

lemma length_header_le (job : DirectoryJob) : (job.header.flatMap Field.bytes).length ≤ 20 := by
  cases job <;> simp [header, MessageType.field, Field.bytes, MessageType.size]

lemma exists_empty {job : DirectoryJob} {packets : List Packet} {r : List Packet × List Packet}
    (h : job.entries packets = some r) : ∃ p ∈ r.2, p.payload.length = 0 := by
  cases job with
  | readDir request d size offset =>
    obtain ⟨_, -, h⟩ := Option.bind_eq_some_iff.mp h
    obtain ⟨_, -, h⟩ := Option.bind_eq_some_iff.mp h
    obtain ⟨_, -, h⟩ := Option.bind_eq_some_iff.mp h
    obtain ⟨x, hx, rfl⟩ := Option.map_eq_some_iff.mp h
    exact exists_empty_of_getWritedPackets hx
  | readDirPlus request clientInode d disk size offset =>
    obtain ⟨y, hy, rfl⟩ := Option.map_eq_some_iff.mp h
    obtain ⟨_, -, hy⟩ := Option.bind_eq_some_iff.mp hy
    obtain ⟨_, -, hy⟩ := Option.bind_eq_some_iff.mp hy
    obtain ⟨_, -, hy⟩ := Option.bind_eq_some_iff.mp hy
    obtain ⟨x, hx, rfl⟩ := Option.map_eq_some_iff.mp hy
    exact exists_empty_of_getWritedPackets hx

lemma subset_of_addFreePackets {first : Packet} {free ps left written : List Packet} {number offset : ℕ}
    {w v : MessageWriter} (hroom : offset + sizeWidth ≤ first.payload.length)
    (hw : MessageWriter.writePackets ⟨first :: free, 0, number, offset⟩ ps = some w)
    (hv : (w.addFreePackets left).getWritedPackets = some (written, v)) : left ⊆ v.packets := by
  by_cases hfree : free = []
  · rw [hfree, MessageWriter.writePackets, MessageWriter.write_fits (by rwa [toBytes_length]), Option.bind_some,
      if_neg (by simp)] at hw
    cases hw
  · rw [MessageWriter.writePackets_fits hfree hroom] at hw
    cases hw
    have hpos := List.length_pos_of_ne_nil hfree
    have hfit : offset + (toBytes sizeWidth ps.length).length ≤ first.payload.length := by rwa [toBytes_length]
    rw [MessageWriter.addFreePackets, if_neg (by simp only [List.length_cons, List.length_append]; omega)] at hv
    dsimp only at hv
    rw [List.cons_append, List.append_assoc, MessageWriter.getWritedPackets_cons (n := ps.length)] at hv
    · cases hv
      intro p hp
      dsimp only
      rw [List.drop_left]
      exact List.mem_append_right _ hp
    · rw [if_pos ⟨rfl, by omega⟩, Nat.add_sub_cancel_left]
    · omega
    · rw [List.length_append]
      exact Nat.le_add_right _ _
    · rw [Packet.withPayload_payload, overwrite_length hfit, frameCountSize]
      rw [sizeWidth] at hroom
      omega

lemma getDataPackets_cons {first : Packet} {free : List Packet} {number offset size : ℕ}
    {r : List Packet × MessageWriter}
    (h : MessageWriter.getDataPackets ⟨first :: free, 0, number, offset⟩ size = some r) :
    r = (free.take size, ⟨first :: free.drop size, 0, number, offset⟩) := by
  obtain ⟨-, h⟩ := Option.ite_none_right_eq_some.mp h
  exact (Option.some.inj h).symm

lemma exists_empty_left {job : DirectoryJob} {packets written : List Packet} {w v : MessageWriter}
    (hfull : ∀ p ∈ packets, p.payload.length = maxPayloadSize)
    (hw : job.executeResponse (MessageWriter.create packets) = some w) (hv : w.getWritedPackets = some (written, v)) :
    ∃ p ∈ v.packets, p.payload.length = 0 := by
  obtain ⟨w₁, hw₁, hw⟩ := Option.bind_eq_some_iff.mp hw
  obtain ⟨data, hdata, hw⟩ := Option.bind_eq_some_iff.mp hw
  obtain ⟨r, hr, hw⟩ := Option.bind_eq_some_iff.mp hw
  obtain ⟨w₂, hw₂, rfl⟩ := Option.map_eq_some_iff.mp hw
  have hne : packets ≠ [] := by
    rintro rfl
    have hsizes := sizes_writeFields (isPackets_header job) hw₁
    obtain ⟨hlen, -⟩ := Option.ite_none_right_eq_some.mp hdata
    rw [List.map_eq_nil_iff.mp hsizes] at hlen
    exact absurd hlen (Nat.not_lt_zero _)
  obtain ⟨first, free, rfl⟩ := List.exists_cons_of_ne_nil hne
  have hfirst := hfull first List.mem_cons_self
  have hheader := length_header_le job
  have hfits : frameCountSize + (job.header.flatMap Field.bytes).length ≤ first.payload.length := by
    rw [hfirst, frameCountSize, maxPayloadSize]
    omega
  rw [MessageWriter.create, MessageWriter.writeFields_fits (isPackets_header job) hfits] at hw₁
  cases hw₁
  rw [getDataPackets_cons hdata] at hw₂
  obtain ⟨p, hp, hempty⟩ := exists_empty hr
  refine ⟨p, subset_of_addFreePackets ?_ hw₂ hv hp, hempty⟩
  rw [Packet.withPayload_payload, overwrite_length hfits, hfirst, frameCountSize, maxPayloadSize, sizeWidth]
  omega

lemma executeResponse_isSome {job : DirectoryJob} {first : Packet} {free : List Packet}
    (hfirst : first.payload.length = maxPayloadSize) (hfree : 99 < free.length)
    (hentries : (job.entries (free.take 99)).isSome) :
    ∃ w, job.executeResponse (MessageWriter.create (first :: free)) = some w ∧ w.getWritedPackets.isSome := by
  obtain ⟨r, hr⟩ := Option.isSome_iff_exists.mp hentries
  have hheader := length_header_le job
  have hfits : frameCountSize + (job.header.flatMap Field.bytes).length ≤ first.payload.length := by
    rw [hfirst, frameCountSize, maxPayloadSize]
    omega
  have hroom : frameCountSize + (job.header.flatMap Field.bytes).length + sizeWidth ≤
      (first.withPayload (overwrite first.payload frameCountSize (job.header.flatMap Field.bytes))).payload.length := by
    rw [Packet.withPayload_payload, overwrite_length hfits, hfirst, frameCountSize, maxPayloadSize, sizeWidth]
    omega
  have hdata (p : Packet) (number offset : ℕ) : MessageWriter.getDataPackets ⟨p :: free, 0, number, offset⟩ 99 =
      some (free.take 99, ⟨p :: free.drop 99, 0, number, offset⟩) := by
    rw [MessageWriter.getDataPackets, if_pos (by simp only [List.length_cons]; omega)]
    rfl
  have hdrop : free.drop 99 ≠ [] := by
    rw [Ne, List.drop_eq_nil_iff]
    omega
  rw [executeResponse, MessageWriter.create, MessageWriter.writeFields_fits (isPackets_header job) hfits,
    Option.bind_some, hdata, Option.bind_some, hr, Option.bind_some, MessageWriter.writePackets_fits hdrop hroom,
    Option.map_some]
  refine ⟨_, rfl, ?_⟩
  have hpos := List.length_pos_of_ne_nil hdrop
  have hfit := (congrArg (fun n => frameCountSize + (job.header.flatMap Field.bytes).length + n ≤
    (first.withPayload (overwrite first.payload frameCountSize (job.header.flatMap Field.bytes))).payload.length)
    (toBytes_length sizeWidth r.1.length)).mpr hroom
  rw [MessageWriter.addFreePackets, if_neg (by simp only [List.length_cons, List.length_append]; omega)]
  dsimp only
  rw [List.cons_append, List.append_assoc, MessageWriter.getWritedPackets_cons (n := r.1.length)]
  · rfl
  · rw [if_pos ⟨rfl, by omega⟩, Nat.add_sub_cancel_left]
  · omega
  · rw [List.length_append]
    exact Nat.le_add_right _ _
  · rw [Packet.withPayload_payload, overwrite_length hfit, Packet.withPayload_payload, overwrite_length hfits, hfirst,
      frameCountSize, maxPayloadSize]
    omega

end DirectoryJob

namespace TaskScheduler

lemma FullSize.not_fullSize {s t : TaskScheduler} (h : s.FullSize) {a : Action} (ha : a.isDirectory = true)
    (ht : s.step a = some t) : ¬ t.FullSize := by
  cases a with
  | directoryJob job =>
    rw [TaskScheduler.step, TaskScheduler.execute] at ht
    split_ifs at ht
    obtain ⟨w, hw, ht⟩ := Option.bind_eq_some_iff.mp ht
    obtain ⟨⟨written, v⟩, hv, rfl⟩ := Option.map_eq_some_iff.mp ht
    obtain ⟨p, hp, hempty⟩ := DirectoryJob.exists_empty_left
      (fun q hq => h.refill 2500 q (List.mem_of_mem_take hq)) hw hv
    intro hfull
    have hsize := hfull p (List.mem_append_right _ hp)
    rw [hempty] at hsize
    cases hsize
  | _ => cases ha

theorem free_send_packets_full {packets : List Packet} {actions : List Action} {s : TaskScheduler}
    (h : Path step (fun _ a => a.isDirectory = false) (initial packets) actions s) :
    s.FullSize ∧ ∀ a t, a.isDirectory = true → s.step a = some t → ¬ t.FullSize := by
  have hs : s.FullSize := h.invariant (fun _ _ _ hs ha ht => FullSize.step hs ha ht)
    fun p hp => absurd hp List.not_mem_nil
  exact ⟨hs, fun a t ha ht => hs.not_fullSize ha ht⟩

def fullPacket : Packet := Packet.ofPayload (List.replicate maxPayloadSize 0)

theorem free_send_packets_full_readJob : ∃ s, Path step (fun _ a => a.isDirectory = false)
    (initial (List.replicate 1200 fullPacket)) [.readJob, .acknowledged [fullPacket]] s ∧ s.FullSize := by
  have hread : (step (initial (List.replicate 1200 fullPacket)) .readJob).isSome := by
    have hlen : (initial (List.replicate 1200 fullPacket)).send2.freeSendPackets.length = 1200 := by
      rw [send2, initial, List.nil_append, List.length_map, List.length_replicate]
    rw [step, if_neg (by rw [hlen]; decide)]
    rfl
  obtain ⟨s, hs⟩ := Option.isSome_iff_exists.mp hread
  have hpath : Path step (fun _ a => a.isDirectory = false) (initial (List.replicate 1200 fullPacket))
      [.readJob, .acknowledged [fullPacket]] { s with freeUserSendPackets := s.freeUserSendPackets ++ [fullPacket] } :=
    .cons rfl hs (.cons rfl rfl (.nil _))
  exact ⟨_, hpath, (free_send_packets_full hpath).1⟩

def listEmpty : DirectoryJob := .readDir 1 ⟨7, FileStat.zero, []⟩ 4096 0

theorem free_send_packets_not_full : ∃ s, run step (initial (List.replicate 200 fullPacket)) [.directoryJob listEmpty] =
    some s ∧ ¬ s.FullSize := by
  have hpool : ((initial (List.replicate 200 fullPacket)).refill 2500).freeSendPackets =
      fullSize fullPacket :: List.replicate 199 (fullSize fullPacket) := by
    rw [refill, if_pos (by decide), send2, initial, List.nil_append, List.map_replicate, ← List.replicate_succ]
  have hentries : (listEmpty.entries ((List.replicate 199 (fullSize fullPacket)).take 99)).isSome := by
    have hpage := (@ResponseReadDirJob.readPage_isSome_iff ⟨7, FileStat.zero, []⟩ 0
      ⟨4096, (List.replicate 199 (fullSize fullPacket)).take 99⟩ (fun c hc => absurd hc List.not_mem_nil) (by simp)).mpr
      (by decide +kernel)
    rwa [ResponseReadDirJob.readPage, Option.isSome_map] at hpage
  obtain ⟨w, hw, hv⟩ := DirectoryJob.executeResponse_isSome (length_fullSize fullPacket)
    (by rw [List.length_replicate]; decide) hentries
  obtain ⟨v, hv⟩ := Option.isSome_iff_exists.mp hv
  have hstep : (step (initial (List.replicate 200 fullPacket)) (.directoryJob listEmpty)).isSome := by
    rw [step, execute, hpool, if_neg (List.cons_ne_nil _ _), List.take_of_length_le ?_, hw, Option.bind_some, hv]
    · rfl
    · rw [List.length_cons, List.length_replicate]
      decide
  obtain ⟨s, hs⟩ := Option.isSome_iff_exists.mp hstep
  refine ⟨s, run_cons_eq_some.mpr ⟨s, hs, rfl⟩, FullSize.not_fullSize ?_ rfl hs⟩
  exact fun p hp => absurd hp List.not_mem_nil

end TaskScheduler

end FastTransport.TaskQueue
