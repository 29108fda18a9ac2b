import FastTransport.Containers.MultiList
import FastTransport.Protocol.MessageReader

/-! `MessageTypeReadJob`: the packets of a connection are cut into messages. -/

namespace FastTransport.TaskQueue

open Containers Protocol Lib.Bytes

inductive MessageType
  | requestTree | responseTree | requestGetAttr | responseGetAttr | requestLookup | responseLookup
  | requestOpenDir | responseOpenDir | requestOpen | responseOpen | requestRelease | responseRelease
  | requestForgetMulti | responseForgetMulti | requestReleaseDir | responseReleaseDir
  | requestRead | responseRead | requestReadDir | responseReadDir
  | requestReadDirPlus | responseReadDirPlus | notifyInvalInode | notifyInvalEntry
  deriving DecidableEq, Repr

namespace MessageType

/-- Every type the job has a case for; `None` and the values in between have none. -/
def ofValue : ℕ → Option MessageType
  | 1 => some requestTree
  | 2 => some responseTree
  | 9 => some requestGetAttr
  | 10 => some responseGetAttr
  | 11 => some requestLookup
  | 12 => some responseLookup
  | 13 => some requestOpenDir
  | 14 => some responseOpenDir
  | 15 => some requestOpen
  | 16 => some responseOpen
  | 17 => some requestRelease
  | 18 => some responseRelease
  | 19 => some requestForgetMulti
  | 20 => some responseForgetMulti
  | 21 => some requestReleaseDir
  | 22 => some responseReleaseDir
  | 23 => some requestRead
  | 24 => some responseRead
  | 25 => some requestReadDir
  | 26 => some responseReadDir
  | 27 => some requestReadDirPlus
  | 28 => some responseReadDirPlus
  | 29 => some notifyInvalInode
  | 30 => some notifyInvalEntry
  | _ => none

def size : ℕ := 4

end MessageType

structure Message where
  type : MessageType
  packets : List Packet
  deriving DecidableEq, Repr

namespace MessageTypeReadJob

inductive Outcome
  | waiting (messages : MultiList Packet)
  | scheduled (message : Option Message) (messages : MultiList Packet) (batches : List (MultiList Packet))

def recvFirst : MultiList Packet → List (MultiList Packet) → MultiList Packet × List (MultiList Packet)
  | messages, [] => (messages, [])
  | messages, batch :: batches =>
    if messages.isEmpty then recvFirst (messages.splice batch).1 batches else (messages, batch :: batches)

def messageSize (p : Packet) : Option ℕ :=
  if frameCountSize ≤ p.payload.length then some (ofBytes (slice p.payload 0 frameCountSize)) else none

def readType (packets : List Packet) : Option MessageType :=
  (MessageReader.create packets).bind fun reader =>
    (reader.read MessageType.size).bind fun type => MessageType.ofValue (ofBytes type.1)

def executeReadNetwork (messages : MultiList Packet) (batches : List (MultiList Packet)) : Option Outcome :=
  let first := recvFirst messages batches
  match first.1.contents with
  | [] => some (.waiting first.1)
  | front :: _ =>
    (messageSize front).bind fun size =>
      if first.1.size < size then
        match first.2 with
        | [] => some (.waiting first.1)
        | batch :: batches => some (.scheduled none (first.1.splice batch).1 batches)
      else
        let taken := first.1.tryGenerate size
        (readType taken.2.contents).map fun type =>
          .scheduled (some ⟨type, taken.2.contents⟩) taken.1 first.2

def readNetwork : ℕ → MultiList Packet → List (MultiList Packet) →
    Option (List Message × MultiList Packet)
  | 0, _, _ => none
  | fuel + 1, messages, batches =>
    match executeReadNetwork messages batches with
    | none => none
    | some (.waiting messages) => some ([], messages)
    | some (.scheduled message messages batches) =>
      (readNetwork fuel messages batches).map fun rest => (message.toList ++ rest.1, rest.2)

def Framed (m : Message) : Prop :=
  (∃ front rest, m.packets = front :: rest ∧ messageSize front = some m.packets.length) ∧
    readType m.packets = some m.type

def pending (messages : MultiList Packet) (batches : List (MultiList Packet)) : List Packet :=
  messages.contents ++ batches.flatMap MultiList.contents

lemma recvFirst_spec {messages : MultiList Packet} {batches : List (MultiList Packet)}
    (hm : messages.Inv) (hb : ∀ b ∈ batches, b.Inv) :
    (recvFirst messages batches).1.Inv ∧ (∀ b ∈ (recvFirst messages batches).2, b.Inv) ∧
      pending (recvFirst messages batches).1 (recvFirst messages batches).2 = pending messages batches ∧
      (recvFirst messages batches).2.length ≤ batches.length ∧
      ((recvFirst messages batches).1.contents = [] → (recvFirst messages batches).2 = []) := by
  induction batches generalizing messages with
  | nil => exact ⟨hm, hb, rfl, le_rfl, fun _ => rfl⟩
  | cons batch batches ih =>
    rw [recvFirst]
    split_ifs with he
    · obtain ⟨hs, _, hc⟩ := MultiList.splice_spec hm (hb batch List.mem_cons_self)
      obtain ⟨h1, h2, h3, h4, h5⟩ := ih hs fun b hmem => hb b (List.mem_cons_of_mem _ hmem)
      refine ⟨h1, h2, ?_, h4.trans (Nat.le_succ _), h5⟩
      rw [h3, pending, hc, pending, List.flatMap_cons, List.append_assoc]
    · refine ⟨hm, hb, rfl, le_rfl, fun hnil => ?_⟩
      exact absurd (hm.isEmpty_iff.mpr hnil) he

lemma executeReadNetwork_spec {messages : MultiList Packet} {batches : List (MultiList Packet)}
    {ms : List Message} (hm : messages.Inv) (hb : ∀ b ∈ batches, b.Inv) (hms : ∀ m ∈ ms, Framed m)
    (hp : pending messages batches <+: ms.flatMap Message.packets) :
    (∃ rest, executeReadNetwork messages batches = some (.waiting rest) ∧
      rest.contents = pending messages batches ∧
        ∀ m ∈ ms.head?, rest.contents.length < m.packets.length) ∨
    (∃ message messages' batches', executeReadNetwork messages batches =
        some (.scheduled message messages' batches') ∧ messages'.Inv ∧ (∀ b ∈ batches', b.Inv) ∧
      ((message = none ∧ pending messages' batches' = pending messages batches ∧
          batches'.length < batches.length) ∨
        ∃ m ms', ms = m :: ms' ∧ message = some m ∧
          m.packets ++ pending messages' batches' = pending messages batches ∧
            batches'.length ≤ batches.length)) := by
  obtain ⟨h1, h2, h3, h4, h5⟩ := recvFirst_spec hm hb
  rw [executeReadNetwork]
  generalize recvFirst messages batches = first at *
  rw [← h3] at hp ⊢
  match hc : first.1.contents with
  | [] =>
    refine Or.inl ⟨first.1, rfl, by simp [pending, hc, h5 hc], fun m hm => ?_⟩
    obtain ⟨⟨front, rest, hfront, _⟩, _⟩ := hms m (List.mem_of_mem_head? hm)
    rw [hc, hfront]
    exact Nat.succ_pos _
  | front :: tail =>
    cases ms with
    | nil => simp [pending, hc] at hp
    | cons m ms =>
      obtain ⟨⟨front', rest, hfront, hsize⟩, htype⟩ := hms m List.mem_cons_self
      have heq : front' = front := by
        rw [pending, hc, List.flatMap_cons, hfront, List.cons_append, List.cons_append] at hp
        exact (List.cons_prefix_cons.mp hp).1.symm
      rw [heq] at hsize
      simp only [hsize, Option.bind_some]
      have hlen := h1.size_eq
      split_ifs with hlt
      · match hbs : first.2 with
        | [] =>
          refine Or.inl ⟨first.1, rfl, by simp [pending], fun m' hm' => ?_⟩
          cases hm'
          omega
        | batch :: batches' =>
          rw [hbs] at h2 h4
          obtain ⟨hs, _, hsc⟩ := MultiList.splice_spec h1 (h2 batch List.mem_cons_self)
          refine Or.inr ⟨none, _, _, rfl, hs, fun b hmem => h2 b (List.mem_cons_of_mem _ hmem),
            Or.inl ⟨rfl, ?_, h4⟩⟩
          rw [pending, hsc, pending, List.flatMap_cons, List.append_assoc]
      · obtain ⟨ht1, _, ht3, ht4⟩ := MultiList.tryGenerate_spec h1 m.packets.length
        have htake : first.1.contents.take m.packets.length = m.packets := by
          have hle : m.packets.length ≤ first.1.contents.length := by omega
          rw [pending, List.flatMap_cons] at hp
          have hpre : m.packets <+: first.1.contents := by
            refine List.prefix_of_prefix_length_le (List.prefix_append _ _)
              ((List.prefix_append _ _).trans hp) hle
          exact (List.prefix_iff_eq_take.mp hpre).symm
        rw [htake] at ht4
        refine Or.inr ⟨some m, _, _, by rw [ht4, htype]; rfl, ht1, h2, Or.inr ⟨m, ms, rfl, rfl, ?_, h4⟩⟩
        rw [pending, ht3, pending, ← List.append_assoc]
        nth_rewrite 1 [← htake]
        rw [List.take_append_drop]

structure Cuts (ms : List Message) (received : List Packet) (produced : List Message)
    (kept : MultiList Packet) : Prop where
  produced_prefix : produced <+: ms
  packets_eq : produced.flatMap Message.packets ++ kept.contents = received
  incomplete : ∀ m ∈ (ms.drop produced.length).head?, kept.contents.length < m.packets.length

lemma readNetwork_spec {fuel : ℕ} {messages : MultiList Packet} {batches : List (MultiList Packet)}
    {ms : List Message} (hm : messages.Inv) (hb : ∀ b ∈ batches, b.Inv) (hms : ∀ m ∈ ms, Framed m)
    (hp : pending messages batches <+: ms.flatMap Message.packets)
    (hfuel : batches.length + (pending messages batches).length < fuel) :
    ∃ produced kept, readNetwork fuel messages batches = some (produced, kept) ∧
      Cuts ms (pending messages batches) produced kept := by
  induction fuel generalizing messages batches ms with
  | zero => omega
  | succ fuel ih =>
    rw [readNetwork]
    rcases executeReadNetwork_spec hm hb hms hp with ⟨rest, he, hc, hrest⟩ |
      ⟨message, messages', batches', he, hm', hb', ⟨rfl, hpend, hlt⟩ | ⟨m, ms', rfl, rfl, hpend, hle⟩⟩
    · rw [he]
      exact ⟨[], rest, rfl, List.nil_prefix, hc, hrest⟩
    · rw [he]
      obtain ⟨produced, kept, hr, hcut⟩ := ih hm' hb' hms (hpend ▸ hp) (by rw [hpend]; omega)
      exact ⟨produced, kept, by simp [hr], hpend ▸ hcut⟩
    · rw [he]
      have hpos : 0 < m.packets.length := by
        obtain ⟨⟨front, rest, hfront, _⟩, _⟩ := hms m List.mem_cons_self
        rw [hfront]
        exact Nat.succ_pos _
      rw [← hpend, List.length_append] at hfuel
      rw [← hpend, List.flatMap_cons] at hp
      obtain ⟨produced, kept, hr, hcut⟩ := ih hm' hb' (fun m' hmem => hms m' (List.mem_cons_of_mem _ hmem))
        ((List.prefix_append_right_inj _).mp hp) (by omega)
      refine ⟨m :: produced, kept, by simp [hr], ?_, ?_, hcut.incomplete⟩
      · exact List.cons_prefix_cons.mpr ⟨rfl, hcut.produced_prefix⟩
      · rw [List.flatMap_cons, List.append_assoc, hcut.packets_eq, hpend]

lemma Cuts.complete {ms produced : List Message} {kept : MultiList Packet}
    (h : Cuts ms (ms.flatMap Message.packets) produced kept) : produced = ms ∧ kept.contents = [] := by
  obtain ⟨rest, hrest⟩ := h.produced_prefix
  have hp := h.packets_eq
  have hi := h.incomplete
  rw [← hrest] at hp hi
  rw [List.flatMap_append, List.append_cancel_left_eq] at hp
  rw [List.drop_left] at hi
  cases rest with
  | nil => exact ⟨by simpa using hrest, by simpa using hp⟩
  | cons m rest =>
    have hlt := hi m rfl
    rw [hp, List.flatMap_cons, List.length_append] at hlt
    omega

theorem readNetwork_cuts_stream {ms : List Message} (hms : ∀ m ∈ ms, Framed m)
    {messages : MultiList Packet} {batches : List (MultiList Packet)} (hm : messages.Inv)
    (hb : ∀ b ∈ batches, b.Inv) (hp : pending messages batches <+: ms.flatMap Message.packets)
    {fuel : ℕ} (hfuel : batches.length + (pending messages batches).length < fuel) :
    ∃ produced kept, readNetwork fuel messages batches = some (produced, kept) ∧
      Cuts ms (pending messages batches) produced kept ∧
        (pending messages batches = ms.flatMap Message.packets → produced = ms ∧ kept.contents = []) := by
  obtain ⟨produced, kept, hr, hcut⟩ := readNetwork_spec hm hb hms hp hfuel
  refine ⟨produced, kept, hr, hcut, fun hall => ?_⟩
  rw [hall] at hcut
  exact hcut.complete

def samplePacket (count type value : UInt8) : Packet :=
  Packet.ofPayload [count, 0, 0, 0, type, 0, 0, 0, value]

theorem readNetwork_two_messages :
    ∃ produced kept, readNetwork 6 MultiList.empty
        [⟨[[samplePacket 2 24 1, samplePacket 7 7 2], [samplePacket 1 9 3]], 3⟩, MultiList.empty] =
          some (produced, kept) ∧
      produced = [⟨.responseRead, [samplePacket 2 24 1, samplePacket 7 7 2]⟩,
        ⟨.requestGetAttr, [samplePacket 1 9 3]⟩] ∧ kept.contents = [] := by
  obtain ⟨produced, kept, hr, _, hall⟩ := @readNetwork_cuts_stream
    [⟨.responseRead, [samplePacket 2 24 1, samplePacket 7 7 2]⟩, ⟨.requestGetAttr, [samplePacket 1 9 3]⟩]
    (by
      simp only [List.forall_mem_cons, List.not_mem_nil, false_imp_iff, implies_true, and_true]
      exact ⟨⟨⟨_, _, rfl, rfl⟩, rfl⟩, ⟨⟨_, _, rfl, rfl⟩, rfl⟩⟩)
    MultiList.empty
    [⟨[[samplePacket 2 24 1, samplePacket 7 7 2], [samplePacket 1 9 3]], 3⟩, MultiList.empty]
    MultiList.inv_empty
    (by
      simp only [List.forall_mem_cons, List.not_mem_nil, false_imp_iff, implies_true, and_true]
      exact ⟨MultiList.inv_iff.mpr ⟨by simp [MultiList.Chunked, MultiList.chunkSize], rfl⟩,
        MultiList.inv_empty⟩)
    (by decide) 6 (by decide)
  exact ⟨produced, kept, hr, hall rfl⟩

end MessageTypeReadJob

end FastTransport.TaskQueue
