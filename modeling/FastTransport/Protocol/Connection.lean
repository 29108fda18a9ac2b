import FastTransport.Protocol.InFlightQueue
import FastTransport.Protocol.Sack

/-! `Connection` and its states. An operation is undefined (`none`) where the code throws. -/

namespace FastTransport.Protocol

structure ConnectionKey where
  addr : ℕ
  id : ℕ
  deriving DecidableEq, Repr

inductive ConnectionState
  | sendingSynState | waitingSynState | waitingSynAckState | sendingSynAckState | dataState
  | closingState | closedState
  deriving DecidableEq, Repr

namespace ConnectionState

def getTimeout : ConnectionState → ℕ
  | dataState => 300000
  | _ => 30000

end ConnectionState

structure Connection where
  key : ConnectionKey
  connectionState : ConnectionState
  destinationID : ℕ
  connected : Bool
  closed : Bool
  lastPacketReceive : ℕ
  sendQueue : SendQueue
  inFlightQueue : InFlightQueue
  recvQueue : RecvQueue
  sendUserData : List Packet
  freeInternalSendPackets : List Packet

namespace Connection

def create (state : ConnectionState) (key : ConnectionKey) (now : ℕ) (free : List Packet) : Connection :=
  ⟨key, state, 0, false, false, now, SendQueue.create, InFlightQueue.create, RecvQueue.create, [], free⟩

def route (c : Connection) : Route := ⟨c.key.id, c.destinationID, c.key.addr⟩

def send (c : Connection) (data : List Packet) : Connection :=
  { c with sendUserData := c.sendUserData ++ data }

def sendServicePackets (c : Connection) (packets : List Packet) : Connection :=
  { c with sendQueue := c.sendQueue.sendPackets packets false }

/-- The destination connection id of a Syn is whatever the free packet holds. -/
def synPacket (c : Connection) (packet : Packet) : Packet :=
  { packet with packetType := .syn, srcConnectionID := c.key.id, dstAddr := c.key.addr, payload := [] }

def synAckPacket (c : Connection) (packet : Packet) : Packet :=
  { packet with packetType := .synAck, srcConnectionID := c.key.id, dstConnectionID := c.destinationID,
                dstAddr := c.key.addr, payload := [] }

/-- The header of a user packet: its ack number is left as it came. -/
def dataPacket (route : Route) (packet : Packet) : Packet :=
  { packet with packetType := .data, srcConnectionID := route.connectionID,
                dstConnectionID := route.destinationID, dstAddr := route.addr }

def sendHandshake (c : Connection) (packet : Packet → Packet) (next : ConnectionState) : Connection :=
  match c.freeInternalSendPackets with
  | [] => c
  | free :: rest =>
    { (c.sendServicePackets [packet free]) with freeInternalSendPackets := rest, connectionState := next }

def sendData (c : Connection) (now timeout : ℕ) : Connection :=
  let acks := c.recvQueue.getSelectiveAcks
  let sacks := sackPackets c.route c.recvQueue.getLastAck c.freeInternalSendPackets acks.1
  let late := c.inFlightQueue.checkTimeouts now timeout
  let userData := c.sendUserData.map (dataPacket c.route)
  { c with recvQueue := acks.2
           freeInternalSendPackets := sacks.2
           inFlightQueue := late.2
           sendQueue := ((c.sendQueue.sendPackets sacks.1 false).reSendPackets late.1).sendPackets userData true
           sendUserData := [] }

def sendPackets (c : Connection) (now timeout : ℕ) : Option Connection :=
  match c.connectionState with
  | .sendingSynState => some (c.sendHandshake c.synPacket .waitingSynAckState)
  | .sendingSynAckState => some (c.sendHandshake c.synAckPacket .dataState)
  | .waitingSynAckState => some c
  | .dataState => some (c.sendData now timeout)
  | _ => none

def recvPacket (c : Connection) (packet : Packet) : Option Connection :=
  (c.recvQueue.addPacket packet).map fun r => { c with recvQueue := r.2 }

def acceptAcks (f : InFlightQueue) (packet : Packet) : Option InFlightQueue :=
  match packet.packetType with
  | .synAck => some f
  | .sack => some ((f.setLastAck packet.ackNumber).addAcks packet.acks)
  | .data => some (f.setLastAck packet.ackNumber)
  | _ => none

def recvData (c : Connection) (packet : Packet) : Option Connection :=
  (acceptAcks c.inFlightQueue packet).bind fun f =>
    if packet.packetType = .data then recvPacket { c with inFlightQueue := f } packet
    else some { c with inFlightQueue := f }

def recvSynAck (c : Connection) (packet : Packet) : Option Connection :=
  let c' := { c with destinationID := packet.srcConnectionID, connected := true, connectionState := .dataState }
  match packet.packetType with
  | .synAck => some c'
  | .data => c'.recvPacket packet
  | _ => none

def recvSyn (c : Connection) (packet : Packet) : Option Connection :=
  if packet.packetType = .syn then
    some { c with destinationID := packet.srcConnectionID, connectionState := .sendingSynAckState }
  else none

def onRecvPackets (c : Connection) (now : ℕ) (packet : Packet) : Option Connection :=
  let c' := { c with lastPacketReceive := now }
  match c.connectionState with
  | .waitingSynState => c'.recvSyn packet
  | .waitingSynAckState => c'.recvSynAck packet
  | .dataState => c'.recvData packet
  | _ => none

def onTimeOut (c : Connection) : Option Connection :=
  match c.connectionState with
  | .waitingSynAckState => some { c with connectionState := .sendingSynState }
  | .dataState => some { c with closed := true }
  | _ => none

def processAcks (c : Connection) : Connection := { c with inFlightQueue := c.inFlightQueue.processAcks.2 }

def run (c : Connection) (now timeout : ℕ) : Option Connection :=
  if c.connectionState.getTimeout < now - c.lastPacketReceive then
    c.onTimeOut.map fun c' => { c' with lastPacketReceive := now }
  else (c.sendPackets now timeout).map processAcks

def getPacketsToSend (c : Connection) (size now : ℕ) : List OutgoingPacket × Connection :=
  let service := c.sendQueue.getServicePacketsToSend
  let data := service.2.getPacketsToSend size
  ((service.1 ++ data.1).map fun p => { p with sendTime := now }, { c with sendQueue := data.2 })

def processSentPackets (c : Connection) (batch : List OutgoingPacket) : Connection :=
  let r := c.inFlightQueue.addQueue batch
  { c with inFlightQueue := r.2, freeInternalSendPackets := r.1.1.reverse ++ c.freeInternalSendPackets }

def processRecvPackets (c : Connection) : Option Connection :=
  if c.closed then some c
  else c.recvQueue.proccessUnorderedPackets.map fun q => { c with recvQueue := q }

def recv (c : Connection) : List Packet × Connection :=
  (c.recvQueue.recvUserData.1, { c with recvQueue := c.recvQueue.recvUserData.2 })

def outgoing (c : Connection) : List OutgoingPacket := c.sendQueue.queued ++ c.inFlightQueue.sampled

lemma acceptAcks_spec {f f' : InFlightQueue} {p : Packet} (h : acceptAcks f p = some f') :
    f'.sampled = f.sampled ∧ f'.lastAckNumber ≤ max f.lastAckNumber p.ackNumber ∧
      ∀ n ∈ f'.receivedAcks, n ∈ f.receivedAcks ∨ (p.packetType = .sack ∧ n ∈ p.acks) := by
  rw [acceptAcks] at h
  split at h
  · cases h
    exact ⟨rfl, le_max_left _ _, fun n hn => Or.inl hn⟩
  · rename_i ht
    cases h
    refine ⟨rfl, le_rfl, fun n hn => ?_⟩
    simp only [InFlightQueue.addAcks, InFlightQueue.setLastAck, Finset.mem_union, List.mem_toFinset] at hn
    exact hn.imp_right fun hn => ⟨ht, hn⟩
  · cases h
    exact ⟨rfl, le_rfl, fun n hn => Or.inl hn⟩
  · cases h

lemma sendData_outgoing_mem {c : Connection} {now timeout : ℕ} {p : OutgoingPacket}
    (h : p ∈ (c.sendData now timeout).outgoing) :
    p ∈ c.outgoing ∨
      (∃ k ∈ (sackPackets c.route c.recvQueue.getLastAck c.freeInternalSendPackets
        c.recvQueue.selectiveAcks).1, ∃ n, p.packet = { k with seqNumber := n }) ∨
      ∃ d ∈ c.sendUserData, ∃ n, p.packet = { dataPacket c.route d with seqNumber := n } := by
  have hperm := c.inFlightQueue.checkTimeouts_perm now timeout
  have hlate : ∀ p, p ∈ (c.inFlightQueue.checkTimeouts now timeout).2.sampled ∨
      p ∈ (c.inFlightQueue.checkTimeouts now timeout).1 → p ∈ c.outgoing := fun p hp =>
    List.mem_append_right _ (hperm.mem_iff.mp (List.mem_append.mpr hp))
  rcases List.mem_append.mp h with h | h
  · rcases SendQueue.sendPackets_queued_mem h with h | ⟨x, hx, n, hn⟩
    · simp only [SendQueue.queued, SendQueue.reSendPackets, List.mem_append] at h
      have hq : p ∈ (c.sendQueue.sendPackets (sackPackets c.route c.recvQueue.getLastAck
          c.freeInternalSendPackets c.recvQueue.selectiveAcks).1 false).queued ∨
          p ∈ (c.inFlightQueue.checkTimeouts now timeout).1 := by
        simp only [SendQueue.queued, List.mem_append]
        tauto
      rcases hq with hq | hq
      · rcases SendQueue.sendPackets_queued_mem hq with hq | hk
        · exact Or.inl (List.mem_append_left _ hq)
        · exact Or.inr (Or.inl hk)
      · exact Or.inl (hlate p (Or.inr hq))
    · obtain ⟨d, hd, rfl⟩ := List.mem_map.mp hx
      exact Or.inr (Or.inr ⟨d, hd, n, hn⟩)
  · exact Or.inl (hlate p (Or.inl h))

lemma getPacketsToSend_fst_mem {c : Connection} {size now : ℕ} {p : OutgoingPacket}
    (h : p ∈ (c.getPacketsToSend size now).1) : ∃ o ∈ c.outgoing, o.packet = p.packet := by
  have hperm := SendQueue.getPacketsToSend_perm c.sendQueue.getServicePacketsToSend.2 size
  obtain ⟨o, ho, rfl⟩ := List.mem_map.mp h
  rcases List.mem_append.mp ho with ho | ho
  · exact ⟨o, List.mem_append_left _ (List.mem_append_right _ ho), rfl⟩
  · exact ⟨o, List.mem_append_left _ (List.mem_append_left _
      (hperm.mem_iff.mp (List.mem_append_left _ ho))), rfl⟩

lemma getPacketsToSend_snd_mem {c : Connection} {size : ℕ} (now : ℕ) {p : OutgoingPacket}
    (h : p ∈ (c.getPacketsToSend size now).2.outgoing) : p ∈ c.outgoing := by
  have hperm := SendQueue.getPacketsToSend_perm c.sendQueue.getServicePacketsToSend.2 size
  rcases List.mem_append.mp h with h | h
  · rcases List.mem_append.mp h with h | h
    · exact List.mem_append_left _ (List.mem_append_left _ (hperm.mem_iff.mp (List.mem_append_right _ h)))
    · cases h
  · exact List.mem_append_right _ h

lemma processSentPackets_mem {c : Connection} {batch : List OutgoingPacket} {p : OutgoingPacket}
    (h : p ∈ (c.processSentPackets batch).outgoing) : p ∈ c.outgoing ∨ p ∈ batch := by
  rcases List.mem_append.mp h with h | h
  · exact Or.inl (List.mem_append_left _ h)
  · exact (InFlightQueue.addQueue_sampled_mem h).imp_left (List.mem_append_right _)

lemma processAcks_mem {c : Connection} {p : OutgoingPacket} (h : p ∈ c.processAcks.outgoing) :
    p ∈ c.outgoing := by
  rcases List.mem_append.mp h with h | h
  · exact List.mem_append_left _ h
  · exact List.mem_append_right _ (InFlightQueue.processAcks_sampled_mem h)

lemma recvPacket_spec {c c' : Connection} {packet : Packet} (h : c.recvPacket packet = some c') :
    ∃ q, c' = { c with recvQueue := q } := by
  obtain ⟨r, _, rfl⟩ := Option.map_eq_some_iff.mp h
  exact ⟨r.2, rfl⟩

lemma onRecvPackets_cases {c c' : Connection} {now : ℕ} {packet : Packet}
    (h : c.onRecvPackets now packet = some c') :
    c'.key = c.key ∧ c'.outgoing = c.outgoing ∧
      ((c.connectionState = .waitingSynState ∧ packet.packetType = .syn ∧
          c'.connectionState = .sendingSynAckState ∧ c'.destinationID = packet.srcConnectionID) ∨
        (c.connectionState = .waitingSynAckState ∧ c'.connectionState = .dataState ∧
          c'.destinationID = packet.srcConnectionID) ∨
        (c.connectionState = .dataState ∧ c'.connectionState = .dataState ∧
          c'.destinationID = c.destinationID)) := by
  simp only [onRecvPackets] at h
  split at h
  · rename_i hstate
    obtain ⟨ht, h⟩ := Option.ite_none_right_eq_some.mp h
    cases h
    exact ⟨rfl, rfl, Or.inl ⟨hstate, ht, rfl, rfl⟩⟩
  · rename_i hstate
    simp only [recvSynAck] at h
    split at h
    · cases h
      exact ⟨rfl, rfl, Or.inr (Or.inl ⟨hstate, rfl, rfl⟩)⟩
    · obtain ⟨q, rfl⟩ := recvPacket_spec h
      exact ⟨rfl, rfl, Or.inr (Or.inl ⟨hstate, rfl, rfl⟩)⟩
    · cases h
  · rename_i hstate
    obtain ⟨f, hf, h⟩ := Option.bind_eq_some_iff.mp h
    have hs := (acceptAcks_spec hf).1
    split_ifs at h
    · obtain ⟨q, rfl⟩ := recvPacket_spec h
      exact ⟨rfl, congrArg (c.sendQueue.queued ++ ·) hs, Or.inr (Or.inr ⟨hstate, hstate, rfl⟩)⟩
    · cases h
      exact ⟨rfl, congrArg (c.sendQueue.queued ++ ·) hs, Or.inr (Or.inr ⟨hstate, hstate, rfl⟩)⟩
  · cases h

structure Makes (c : Connection) (p : Packet) : Prop where
  src : p.srcConnectionID = c.key.id
  addr : p.dstAddr = c.key.addr
  kind : (c.connectionState = .sendingSynState ∧ p.packetType = .syn) ∨
    (c.connectionState = .sendingSynAckState ∧ p.packetType = .synAck ∧
      p.dstConnectionID = c.destinationID) ∨
    (c.connectionState = .dataState ∧ (p.packetType = .sack ∨ p.packetType = .data) ∧
      p.dstConnectionID = c.destinationID)

inductive Advances : ConnectionState → ConnectionState → Prop
  | stay (state : ConnectionState) : Advances state state
  | sendSyn : Advances .sendingSynState .waitingSynAckState
  | sendSynAck : Advances .sendingSynAckState .dataState
  | timeOut : Advances .waitingSynAckState .sendingSynState

lemma sendHandshake_spec {c : Connection} {packet : Packet → Packet} {next : ConnectionState} :
    (c.sendHandshake packet next).key = c.key ∧
      (c.sendHandshake packet next).destinationID = c.destinationID ∧
      ((c.sendHandshake packet next).connectionState = c.connectionState ∨
        (c.sendHandshake packet next).connectionState = next) ∧
      ∀ p ∈ (c.sendHandshake packet next).outgoing, p ∈ c.outgoing ∨
        ∃ free n, p.packet = { packet free with seqNumber := n } := by
  rw [sendHandshake]
  split
  · exact ⟨rfl, rfl, Or.inl rfl, fun p hp => Or.inl hp⟩
  · rename_i free rest _
    refine ⟨rfl, rfl, Or.inr rfl, fun p hp => ?_⟩
    rcases List.mem_append.mp hp with hp | hp
    · rcases SendQueue.sendPackets_queued_mem hp with hp | ⟨x, hx, n, hn⟩
      · exact Or.inl (List.mem_append_left _ hp)
      · rw [List.mem_singleton] at hx
        exact Or.inr ⟨free, n, hx ▸ hn⟩
    · exact Or.inl (List.mem_append_right _ hp)

lemma sendPackets_cases {c c' : Connection} {now timeout : ℕ} (h : c.sendPackets now timeout = some c') :
    c'.key = c.key ∧ c'.destinationID = c.destinationID ∧ Advances c.connectionState c'.connectionState ∧
      ∀ p ∈ c'.outgoing, p ∈ c.outgoing ∨ c.Makes p.packet := by
  rw [sendPackets] at h
  split at h
  · rename_i hstate
    cases h
    obtain ⟨hk, hd, hs, hp⟩ := @sendHandshake_spec c c.synPacket .waitingSynAckState
    refine ⟨hk, hd, ?_, fun p hmem => (hp p hmem).imp_right ?_⟩
    · rcases hs with hs | hs <;> rw [hs, hstate] <;> constructor
    · rintro ⟨free, n, hn⟩
      rw [hn]
      exact ⟨rfl, rfl, Or.inl ⟨hstate, rfl⟩⟩
  · rename_i hstate
    cases h
    obtain ⟨hk, hd, hs, hp⟩ := @sendHandshake_spec c c.synAckPacket .dataState
    refine ⟨hk, hd, ?_, fun p hmem => (hp p hmem).imp_right ?_⟩
    · rcases hs with hs | hs <;> rw [hs, hstate] <;> constructor
    · rintro ⟨free, n, hn⟩
      rw [hn]
      exact ⟨rfl, rfl, Or.inr (Or.inl ⟨hstate, rfl, rfl⟩)⟩
  · cases h
    exact ⟨rfl, rfl, .stay _, fun p hp => Or.inl hp⟩
  · rename_i hstate
    cases h
    refine ⟨rfl, rfl, .stay _, fun p hp => ?_⟩
    rcases sendData_outgoing_mem hp with hp | ⟨k, hk, n, hn⟩ | ⟨d, hd, n, hn⟩
    · exact Or.inl hp
    · obtain ⟨hsrc, hdst, haddr⟩ := sackPackets_route hk
      rw [hn]
      exact Or.inr ⟨hsrc, haddr, Or.inr (Or.inr ⟨hstate, Or.inl (sackPackets_spec hk).1, hdst⟩)⟩
    · rw [hn]
      exact Or.inr ⟨rfl, rfl, Or.inr (Or.inr ⟨hstate, Or.inr rfl, rfl⟩)⟩
  · cases h

lemma run_cases {c c' : Connection} {now timeout : ℕ} (h : c.run now timeout = some c') :
    c'.key = c.key ∧ c'.destinationID = c.destinationID ∧ Advances c.connectionState c'.connectionState ∧
      ∀ p ∈ c'.outgoing, p ∈ c.outgoing ∨ c.Makes p.packet := by
  rw [run] at h
  split_ifs at h
  · obtain ⟨d, hd, rfl⟩ := Option.map_eq_some_iff.mp h
    rw [onTimeOut] at hd
    split at hd
    · rename_i hstate
      cases hd
      refine ⟨rfl, rfl, ?_, fun p hp => Or.inl hp⟩
      rw [hstate]
      exact .timeOut
    · cases hd
      exact ⟨rfl, rfl, .stay _, fun p hp => Or.inl hp⟩
    · cases hd
  · obtain ⟨d, hd, rfl⟩ := Option.map_eq_some_iff.mp h
    obtain ⟨hk, hdest, hs, hp⟩ := sendPackets_cases hd
    exact ⟨hk, hdest, hs, fun p hmem => hp p (processAcks_mem hmem)⟩

def Takes (c : Connection) (packet : Packet) : Prop :=
  match c.connectionState with
  | .waitingSynState => packet.packetType = .syn
  | .waitingSynAckState => packet.packetType = .synAck ∨ packet.packetType = .data
  | .dataState => packet.packetType = .synAck ∨ packet.packetType = .sack ∨ packet.packetType = .data
  | _ => False

lemma onRecvPackets_selectiveAcks {c c' : Connection} {now : ℕ} {packet : Packet}
    (h : c.onRecvPackets now packet = some c') :
    c'.recvQueue.selectiveAcks = c.recvQueue.selectiveAcks ∨ packet.packetType = .data := by
  simp only [onRecvPackets] at h
  split at h
  · obtain ⟨-, h⟩ := Option.ite_none_right_eq_some.mp h
    cases h
    exact Or.inl rfl
  · simp only [recvSynAck] at h
    split at h
    · cases h
      exact Or.inl rfl
    · exact Or.inr ‹_›
    · cases h
  · obtain ⟨f, -, h⟩ := Option.bind_eq_some_iff.mp h
    split_ifs at h with hd
    · exact Or.inr hd
    · cases h
      exact Or.inl rfl
  · cases h

structure Made (c c' : Connection) (p : Packet) : Prop where
  src : p.srcConnectionID = c.key.id
  addr : p.dstAddr = c.key.addr
  kind : (c.connectionState = .sendingSynState ∧ p.packetType = .syn) ∨
    (c'.connectionState = .dataState ∧
      (p.packetType = .synAck ∨ p.packetType = .sack ∨ p.packetType = .data) ∧
      p.dstConnectionID = c.destinationID ∧ (p.packetType = .sack → c.recvQueue.selectiveAcks ≠ []))

lemma sendHandshake_outgoing {c : Connection} {packet : Packet → Packet} {next : ConnectionState}
    {p : OutgoingPacket} (h : p ∈ (c.sendHandshake packet next).outgoing) :
    p ∈ c.outgoing ∨ (c.sendHandshake packet next).connectionState = next ∧
      ∃ free n, p.packet = { packet free with seqNumber := n } := by
  rcases hf : c.freeInternalSendPackets with - | ⟨free, rest⟩
  · rw [sendHandshake, hf] at h
    exact Or.inl h
  · refine ((sendHandshake_spec.2.2.2) p h).imp_right fun hp => ⟨?_, hp⟩
    rw [sendHandshake, hf]

lemma run_made {c c' : Connection} {now timeout : ℕ} (h : c.run now timeout = some c') {p : OutgoingPacket}
    (hp : p ∈ c'.outgoing) : p ∈ c.outgoing ∨ c.Made c' p.packet := by
  rw [run] at h
  split_ifs at h
  · obtain ⟨d, hd, rfl⟩ := Option.map_eq_some_iff.mp h
    rw [onTimeOut] at hd
    split at hd <;> cases hd <;> exact Or.inl hp
  · obtain ⟨d, hd, rfl⟩ := Option.map_eq_some_iff.mp h
    replace hp := processAcks_mem hp
    rw [sendPackets] at hd
    split at hd
    · cases hd
      refine (sendHandshake_outgoing hp).imp_right ?_
      rintro ⟨-, free, n, hn⟩
      rw [hn]
      exact ⟨rfl, rfl, Or.inl ⟨‹_›, rfl⟩⟩
    · cases hd
      refine (sendHandshake_outgoing hp).imp_right ?_
      rintro ⟨hs, free, n, hn⟩
      rw [hn]
      exact ⟨rfl, rfl, Or.inr ⟨hs, Or.inl rfl, rfl, fun ht => by cases ht⟩⟩
    · cases hd
      exact Or.inl hp
    · rename_i hstate
      cases hd
      rcases sendData_outgoing_mem hp with hp | ⟨k, hk, n, hn⟩ | ⟨d, hd, n, hn⟩
      · exact Or.inl hp
      · obtain ⟨hsrc, hdst, haddr⟩ := sackPackets_route hk
        have hacks : c.recvQueue.selectiveAcks ≠ [] := by
          intro hnil
          rw [hnil] at hk
          cases hfree : c.freeInternalSendPackets <;> rw [hfree] at hk <;> cases hk
        rw [hn]
        exact Or.inr ⟨hsrc, haddr, Or.inr ⟨hstate, Or.inr (Or.inl (sackPackets_spec hk).1), hdst, fun _ => hacks⟩⟩
      · rw [hn]
        exact Or.inr ⟨rfl, rfl, Or.inr ⟨hstate, Or.inr (Or.inr rfl), rfl, fun ht => by cases ht⟩⟩
    · cases hd

lemma run_selectiveAcks {c c' : Connection} {now timeout : ℕ} (h : c.run now timeout = some c') :
    c'.recvQueue.selectiveAcks = c.recvQueue.selectiveAcks ∨ c'.recvQueue.selectiveAcks = [] := by
  rw [run] at h
  split_ifs at h
  · obtain ⟨d, hd, rfl⟩ := Option.map_eq_some_iff.mp h
    rw [onTimeOut] at hd
    split at hd <;> cases hd <;> exact Or.inl rfl
  · obtain ⟨d, hd, rfl⟩ := Option.map_eq_some_iff.mp h
    rw [sendPackets] at hd
    split at hd <;> cases hd
    · exact Or.inl (by rw [processAcks, sendHandshake]; split <;> rfl)
    · exact Or.inl (by rw [processAcks, sendHandshake]; split <;> rfl)
    · exact Or.inl rfl
    · exact Or.inr rfl

lemma processRecvPackets_spec {c c' : Connection} (h : c.processRecvPackets = some c') :
    ∃ q, c' = { c with recvQueue := q } ∧ q.selectiveAcks = c.recvQueue.selectiveAcks := by
  rw [processRecvPackets] at h
  split_ifs at h
  · cases h
    exact ⟨c.recvQueue, rfl, rfl⟩
  · obtain ⟨q, hq, rfl⟩ := Option.map_eq_some_iff.mp h
    exact ⟨q, rfl, RecvQueue.proccessLoop_induction
      (P := fun q => q.selectiveAcks = c.recvQueue.selectiveAcks) (fun _ _ hi _ _ => hi) rfl hq⟩

end Connection

end FastTransport.Protocol
