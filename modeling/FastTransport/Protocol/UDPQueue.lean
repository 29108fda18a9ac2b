import FastTransport.Protocol.InFlightQueue
import FastTransport.Protocol.Socket

/-! The sending half of `UDPQueue`: the queue its write threads take from, the packets each of them
holds, and the queue they give them back to. -/

namespace FastTransport.Protocol

open Lib.Lists

namespace OutgoingPacket

def setSendTime (p : OutgoingPacket) (time : ℕ) : OutgoingPacket := { p with sendTime := time }

def untimed (p : OutgoingPacket) : Packet × Bool := (p.packet, p.needAck)

@[simp] lemma untimed_setSendTime (p : OutgoingPacket) (time : ℕ) : (p.setSendTime time).untimed = p.untimed := rfl

end OutgoingPacket

/-- A write thread: what it took and has still to send, and what it has sent. -/
structure WriteThread where
  list : List OutgoingPacket
  sendQueue : List OutgoingPacket
  deriving DecidableEq

def WriteThread.held (t : WriteThread) : List OutgoingPacket := t.list ++ t.sendQueue

structure UDPQueue where
  sendQueue : List OutgoingPacket
  sendFreeQueue : List OutgoingPacket
  writeThreads : List WriteThread
  deriving DecidableEq

namespace UDPQueue

def create (threadCount : ℕ) : UDPQueue := ⟨[], [], List.replicate threadCount ⟨[], []⟩⟩

def send (u : UDPQueue) (data : List OutgoingPacket) : List OutgoingPacket × UDPQueue :=
  (u.sendFreeQueue, { u with sendQueue := u.sendQueue ++ data, sendFreeQueue := [] })

/-- Another thread may have emptied the queue since the wait for it, so nothing may come. -/
def getOutgoingPacketsToSend (u : UDPQueue) (i size : ℕ) : Option UDPQueue :=
  (u.writeThreads[i]?).bind fun t =>
    if t.held = [] then
      some { u with sendQueue := u.sendQueue.drop size
                    writeThreads := u.writeThreads.set i ⟨u.sendQueue.take size, []⟩ }
    else none

/-- One `SendMsg`: the send time of each packet of the group is the clock's when it is reached. -/
def sendMsg (u : UDPQueue) (i : ℕ) (clock : ℕ → ℕ) : Option (List Packet × UDPQueue) :=
  (u.writeThreads[i]?).bind fun t =>
    if t.list = [] then none
    else
      let packets := (t.list.take udpMaxSegments).mapIdx fun k p => p.setSendTime (clock k)
      some (packets.map OutgoingPacket.packet,
        { u with writeThreads := u.writeThreads.set i ⟨t.list.drop udpMaxSegments, t.sendQueue ++ packets⟩ })

def giveBack (u : UDPQueue) (i : ℕ) : Option UDPQueue :=
  (u.writeThreads[i]?).bind fun t =>
    if t.list = [] ∧ t.sendQueue ≠ [] then
      some { u with sendFreeQueue := u.sendFreeQueue ++ t.sendQueue, writeThreads := u.writeThreads.set i ⟨[], []⟩ }
    else none

def held (u : UDPQueue) : List OutgoingPacket :=
  u.sendQueue ++ u.writeThreads.flatMap WriteThread.held ++ u.sendFreeQueue

lemma held_create (threadCount : ℕ) : (create threadCount).held = [] := by
  simp [held, create, WriteThread.held]

lemma send_perm (u : UDPQueue) (data : List OutgoingPacket) :
    ((u.send data).2.held ++ (u.send data).1).Perm (u.held ++ data) := by
  apply List.perm_iff_count.mpr
  intro p
  simp only [send, held, List.count_append, List.count_nil]
  omega

lemma held_set_perm {u : UDPQueue} {i : ℕ} {t t' : WriteThread} (ht : u.writeThreads[i]? = some t)
    {sendQueue sendFreeQueue : List OutgoingPacket}
    (h : ((sendQueue ++ t'.held ++ sendFreeQueue).map OutgoingPacket.untimed).Perm
      ((u.sendQueue ++ t.held ++ u.sendFreeQueue).map OutgoingPacket.untimed)) :
    ((held ⟨sendQueue, sendFreeQueue, u.writeThreads.set i t'⟩).map OutgoingPacket.untimed).Perm
      (u.held.map OutgoingPacket.untimed) := by
  apply List.perm_iff_count.mpr
  intro p
  have hset := ((flatMap_set_perm WriteThread.held ht t').map OutgoingPacket.untimed).count_eq p
  have hp := h.count_eq p
  simp only [held, List.map_append, List.count_append] at hset hp ⊢
  omega

variable {u u' : UDPQueue} {i : ℕ}

lemma getOutgoingPacketsToSend_perm {size : ℕ} (h : u.getOutgoingPacketsToSend i size = some u') :
    (u'.held.map OutgoingPacket.untimed).Perm (u.held.map OutgoingPacket.untimed) := by
  obtain ⟨t, ht, h⟩ := Option.bind_eq_some_iff.mp h
  obtain ⟨hidle, h⟩ := Option.ite_none_right_eq_some.mp h
  cases h
  apply held_set_perm ht
  rw [hidle]
  have hcut := List.take_append_drop size u.sendQueue
  apply List.Perm.map
  apply List.Perm.append_right
  rw [WriteThread.held, List.append_nil, List.append_nil]
  exact List.perm_append_comm.trans (List.Perm.of_eq hcut)

lemma map_packet_setSendTime (ps : List OutgoingPacket) (clock : ℕ → ℕ) :
    (ps.mapIdx fun k p => p.setSendTime (clock k)).map OutgoingPacket.untimed = ps.map OutgoingPacket.untimed := by
  apply List.ext_getElem?
  intro k
  simp [Function.comp_def]

lemma sendMsg_spec {clock : ℕ → ℕ} {packets : List Packet} (h : u.sendMsg i clock = some (packets, u')) :
    (u'.held.map OutgoingPacket.untimed).Perm (u.held.map OutgoingPacket.untimed) ∧
      ∀ p ∈ packets, ∃ o ∈ u.held, o.packet = p := by
  obtain ⟨t, ht, h⟩ := Option.bind_eq_some_iff.mp h
  obtain ⟨hbusy, h⟩ := Option.ite_none_left_eq_some.mp h
  cases h
  have htimes := map_packet_setSendTime (t.list.take udpMaxSegments) clock
  constructor
  · apply held_set_perm ht
    have hcut := List.take_append_drop udpMaxSegments (t.list.map OutgoingPacket.untimed)
    apply List.perm_iff_count.mpr
    intro p
    have hp := congrArg (List.count p) hcut
    simp only [WriteThread.held, List.map_append, List.count_append, htimes, List.map_take, List.map_drop] at hp ⊢
    omega
  · intro p hp
    have hpackets := congrArg (List.map Prod.fst) htimes
    rw [List.map_map, List.map_map] at hpackets
    have hp : p ∈ (t.list.take udpMaxSegments).map OutgoingPacket.packet := hpackets ▸ hp
    obtain ⟨o, ho, rfl⟩ := List.mem_map.mp hp
    refine ⟨o, ?_, rfl⟩
    have hmem : o ∈ t.held := List.mem_append_left _ (List.mem_of_mem_take ho)
    have hthread := List.mem_flatMap_of_mem (List.mem_of_getElem? ht) hmem
    exact List.mem_append_left _ (List.mem_append_right _ hthread)

lemma giveBack_perm (h : u.giveBack i = some u') :
    (u'.held.map OutgoingPacket.untimed).Perm (u.held.map OutgoingPacket.untimed) := by
  obtain ⟨t, ht, h⟩ := Option.bind_eq_some_iff.mp h
  obtain ⟨⟨hdone, -⟩, h⟩ := Option.ite_none_right_eq_some.mp h
  cases h
  apply held_set_perm ht
  apply List.Perm.map
  apply List.perm_iff_count.mpr
  intro p
  simp only [WriteThread.held, hdone, List.count_append, List.count_nil]
  omega

end UDPQueue

end FastTransport.Protocol
